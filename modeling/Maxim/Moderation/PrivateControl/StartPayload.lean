import Maxim.Library.JsonReader
import Maxim.Max.DeepLink.Codec

/-!
# Private control start payloads

A handoff is a compact payload, or a record in JSON when no compact one can be
built; the record is not signed. The Karavan allowlist has a signed record.
-/

namespace Maxim.Moderation.PrivateControl

open Maxim.Library
open Maxim.Max.DeepLink

def GIVEAWAY_HANDOFF_START_PAYLOAD : String := "giveaway_handoff"

def GIVEAWAY_HANDOFF_START : String := "ggh-"

def PROFILE_MENTION_START : String := "pmh-"

def KARAVAN_ALLOWLIST_START : String := "ka2-"

def KARAVAN_ALLOWLIST_SCOPE : String := "karavan-allowlist-v2"

def defaultDisplayName : String := "Пользователь"

/-! ## Records -/

def textField (name value : String) : Json.Field :=
  ⟨name.toList, Json.quoted value.toList, .text value.toList⟩

def nullableField (name : String) (value : Option String) : Json.Field :=
  match value with
  | some s => textField name s
  | none => ⟨name.toList, ['n', 'u', 'l', 'l'], .null⟩

/-- `v: 1`. -/
def versionField : Json.Field := ⟨['v'], ['1'], .number 1⟩

def encodeRecord (fields : List Json.Field) : String :=
  String.ofList (base64Text (Json.objectText fields))

def decodeRecord (encoded : String) : Option Json.Value :=
  Json.parse (textOfBase64 encoded.toList)

def readText (parsed : Json.Value) (name : String) : String :=
  (((parsed.field name).bind Json.Value.text?).map fun s => trim (String.ofList s)).getD ""

def isText (parsed : Json.Value) (name value : String) : Bool :=
  (parsed.field name).bind Json.Value.text? == some value.toList

def isVersionOne (parsed : Json.Value) : Bool := (parsed.field "v").any Json.Value.isOne

def entityTypeText : ManagedEntityType → String
  | .channel => "channel"
  | .chat => "chat"

def readEntityType (parsed : Json.Value) : Option ManagedEntityType :=
  if isText parsed "e" "channel" then some .channel
  else if isText parsed "e" "chat" then some .chat
  else none

/-! ## Giveaway handoff -/

def handoffRecord (params : GiveawayHandoff) : List Json.Field :=
  [versionField, textField "k" "giveaway-handoff", textField "c" params.chatId,
    textField "e" (entityTypeText params.entityType), nullableField "g" params.giveawayId]

def buildPrivateGiveawayHandoffStartPayload (hmac : Hmac) (params : GiveawayHandoff)
    (botToken : String) : String :=
  (buildCompactGiveawayHandoffStartPayload hmac params botToken).getD
    (GIVEAWAY_HANDOFF_START ++ encodeRecord (handoffRecord params))

def readHandoff (parsed : Json.Value) : Option GiveawayHandoff :=
  let chatId := readText parsed "c"
  let giveawayId := readText parsed "g"
  match readEntityType parsed with
  | none => none
  | some entityType =>
    if !isVersionOne parsed || !isText parsed "k" "giveaway-handoff" || chatId = "" then none
    else some { chatId, entityType, giveawayId := if giveawayId = "" then none else some giveawayId }

def parsePrivateGiveawayHandoffStartPayload (hmac : Hmac) (startPayload : Option String)
    (botTokens : List String) : Option GiveawayHandoff :=
  match parseCompactGiveawayHandoffStartPayload hmac startPayload botTokens with
  | some compactPayload => some compactPayload
  | none =>
    startPayload.bind fun startPayload =>
      if startPayload = "" ∨ startPayload = GIVEAWAY_HANDOFF_START_PAYLOAD then none
      else if !beginsWith startPayload GIVEAWAY_HANDOFF_START then none
      else
        let encodedPayload := String.ofList (startPayload.toList.drop 4)
        if encodedPayload = "" then none else (decodeRecord encodedPayload).bind readHandoff

/-! ## Profile mention -/

structure PrivateProfileMention extends ProfileMention where
  displayName : String
  deriving DecidableEq

def mentionRecord (params : PrivateProfileMention) : List Json.Field :=
  [versionField, textField "k" "profile-mention", textField "c" params.chatId,
    textField "e" (entityTypeText params.entityType), textField "u" params.userId,
    textField "n" ((nullableString (some params.displayName)).getD defaultDisplayName)]

def buildPrivateProfileMentionStartPayload (hmac : Hmac) (params : PrivateProfileMention)
    (botToken : String) : String :=
  (buildCompactProfileMentionStartPayload hmac params.toProfileMention botToken).getD
    (PROFILE_MENTION_START ++ encodeRecord (mentionRecord params))

def readMention (parsed : Json.Value) : Option PrivateProfileMention :=
  let chatId := readText parsed "c"
  let userId := readText parsed "u"
  let displayName := readText parsed "n"
  match readEntityType parsed with
  | none => none
  | some entityType =>
    if !isVersionOne parsed || !isText parsed "k" "profile-mention" || chatId = "" || userId = "" then none
    else
      some
        { chatId
          entityType
          userId
          displayName := if displayName = "" then defaultDisplayName else displayName }

def parsePrivateProfileMentionStartPayload (hmac : Hmac) (startPayload : Option String)
    (botTokens : List String) : Option PrivateProfileMention :=
  match parseCompactProfileMentionStartPayload hmac startPayload botTokens with
  | some compactPayload => some { toProfileMention := compactPayload, displayName := defaultDisplayName }
  | none =>
    startPayload.bind fun startPayload =>
      if startPayload = "" ∨ ¬beginsWith startPayload PROFILE_MENTION_START then none
      else
        let encodedPayload := String.ofList (startPayload.toList.drop 4)
        if encodedPayload = "" then none else (decodeRecord encodedPayload).bind readMention

/-! ## Karavan allowlist -/

structure KaravanAllowlist where
  chatId : String
  actorUserId : String
  nonce : String
  deriving DecidableEq

def karavanRecord (start : KaravanAllowlist) : List Json.Field :=
  [versionField, textField "c" start.chatId, textField "a" start.actorUserId, textField "n" start.nonce]

def signKaravanPayload (hmac : Hmac) (encoded botToken : String) : String :=
  truncate (hmac.digest (trim botToken) (signedText KARAVAN_ALLOWLIST_SCOPE [encoded])) 16

abbrev RandomBytes := Fin 12 → Fin 256

/-- `randomBytes(12).toString('base64url')`. -/
def randomNonce (random : RandomBytes) : String :=
  String.ofList (base64Encode ((List.ofFn random).map Fin.val))

/-- What a payload is built from: trimmed parameters, and a nonce in any case. -/
def karavanStart (chatId actorUserId : String) (nonce : Option String) (random : RandomBytes) :
    KaravanAllowlist where
  chatId := trim chatId
  actorUserId := trim actorUserId
  nonce := (nullableString nonce).getD (randomNonce random)

/-- Nothing when the builder throws. -/
def buildPrivateKaravanAllowlistStartPayload (hmac : Hmac) (chatId actorUserId : String)
    (nonce : Option String) (random : RandomBytes) (botToken : String) : Option String :=
  let encoded := encodeRecord (karavanRecord (karavanStart chatId actorUserId nonce random))
  let payload := KARAVAN_ALLOWLIST_START ++ encoded ++ "." ++ signKaravanPayload hmac encoded botToken
  if isValidMaxBotStartPayload payload then some payload else none

/-- The text before and after the last point. -/
def cutAtLastPoint (raw : String) : Option (String × String) :=
  match (split '.' raw).reverse with
  | last :: first :: rest => some (join '.' (first :: rest).reverse, last)
  | _ => none

def readKaravan (parsed : Json.Value) : Option KaravanAllowlist :=
  let chatId := readText parsed "c"
  let actorUserId := readText parsed "a"
  let nonce := readText parsed "n"
  if !isVersionOne parsed || chatId = "" || actorUserId = "" || nonce = "" then none
  else some { chatId, actorUserId, nonce }

def parsePrivateKaravanAllowlistStartPayload (hmac : Hmac) (payload : Option String)
    (botTokens : List String) : Option KaravanAllowlist :=
  payload.bind fun payload =>
    if !beginsWith payload KARAVAN_ALLOWLIST_START || !isValidMaxBotStartPayload payload then none
    else match cutAtLastPoint (String.ofList (payload.toList.drop 4)) with
    | none => none
    | some (encoded, signatureRaw) =>
      let signature := lowerCase signatureRaw
      if encoded = "" || !isCompactSignature signature ||
          !botTokens.any fun token => signature = signKaravanPayload hmac encoded token then none
      else (decodeRecord encoded).bind readKaravan

end Maxim.Moderation.PrivateControl
