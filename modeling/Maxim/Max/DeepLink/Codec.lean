import Maxim.Library.Text
import Mathlib.Data.List.Forall2

/-!
# Compact start payloads

A compact payload is a few words joined by underscores: a prefix for its kind,
the components, and sixteen digits of a signature of the kind and the
components. The parsers accept no other text than the builders write, up to
the case of the signature.
-/

namespace Maxim.Max.DeepLink

open Maxim.Library

def MAX_BOT_START_MAX_LENGTH : Nat := 128

inductive ManagedEntityType
  | channel
  | chat
  deriving DecidableEq

def isHexDigit (c : Char) : Bool := c.isDigit || ('a' ≤ c && c ≤ 'f')

/-- `createHmac('sha256', key).update(message).digest('hex')`. -/
structure Hmac where
  digest : (key message : String) → String
  length_digest : ∀ key message, (digest key message).toList.length = 64
  hex_digest : ∀ key message, ∀ c ∈ (digest key message).toList, isHexDigit c = true

inductive CompactKind
  | giveawayClaim
  | giveawayHandoff
  | profileMention
  deriving DecidableEq

def CompactKind.start : CompactKind → String
  | .giveawayClaim => "ggc2"
  | .giveawayHandoff => "ggh2"
  | .profileMention => "pm2"

def CompactKind.scope : CompactKind → String
  | .giveawayClaim => "giveaway-claim-v2"
  | .giveawayHandoff => "giveaway-handoff-v2"
  | .profileMention => "profile-mention-v2"

/-! ## Words -/

def isComponentChar (c : Char) : Bool := c = '-' || c.isAlphanum

def normalizeCompactComponent (value : String) : Option String :=
  let normalized := trim value
  if normalized = "" ∨ ¬normalized.toList.all isComponentChar then none else some normalized

def encodeManagedEntityType : ManagedEntityType → String
  | .channel => "c"
  | .chat => "h"

def decodeManagedEntityType (code : String) : Option ManagedEntityType :=
  if code = "c" then some .channel else if code = "h" then some .chat else none

def signedText (scope : String) (components : List String) : String :=
  scope ++ ":" ++ join ':' components

def buildCompactSignature (hmac : Hmac) (scope : String) (components : List String)
    (botToken : String) : String :=
  truncate (hmac.digest botToken (signedText scope components)) 16

def isCompactSignature (signature : String) : Bool :=
  signature.toList.length = 16 && signature.toList.all isHexDigit

def isStartChar (c : Char) : Bool := c.isAlphanum || c = '.' || c = '_' || c = '-'

def isValidMaxBotStartPayload (value : String) : Bool :=
  value ≠ "" && value.toList.length ≤ MAX_BOT_START_MAX_LENGTH && value.toList.all isStartChar

/-! ## Building -/

def buildCompactPayload (hmac : Hmac) (kind : CompactKind) (components : List String)
    (botToken : String) : Option String :=
  (components.mapM normalizeCompactComponent).bind fun normalizedComponents =>
    let signature := buildCompactSignature hmac kind.scope normalizedComponents (trim botToken)
    let payload := join '_' (kind.start :: normalizedComponents ++ [signature])
    if isValidMaxBotStartPayload payload then some payload else none

def buildWithToken (hmac : Hmac) (kind : CompactKind) (components : List String) (botToken : String) :
    Option String :=
  if trim botToken = "" then none else buildCompactPayload hmac kind components (trim botToken)

structure GiveawayClaim where
  giveawayId : String
  winnerId : String
  deriving DecidableEq

structure GiveawayHandoff where
  chatId : String
  entityType : ManagedEntityType
  giveawayId : Option String
  deriving DecidableEq

structure ProfileMention where
  chatId : String
  entityType : ManagedEntityType
  userId : String
  deriving DecidableEq

/-- The marker of a giveaway; `0` stands for none. -/
def giveawayMarker (giveawayId : Option String) : String := (nullableString giveawayId).getD "0"

def buildCompactGiveawayClaimStartPayload (hmac : Hmac) (params : GiveawayClaim) (botToken : String) :
    Option String :=
  buildWithToken hmac .giveawayClaim [params.giveawayId, params.winnerId] botToken

def buildCompactGiveawayHandoffStartPayload (hmac : Hmac) (params : GiveawayHandoff)
    (botToken : String) : Option String :=
  buildWithToken hmac .giveawayHandoff
    [params.chatId, encodeManagedEntityType params.entityType, giveawayMarker params.giveawayId] botToken

def buildCompactProfileMentionStartPayload (hmac : Hmac) (params : ProfileMention)
    (botToken : String) : Option String :=
  buildWithToken hmac .profileMention
    [params.chatId, encodeManagedEntityType params.entityType, params.userId] botToken

/-! ## Parsing -/

def opensWith (kind : CompactKind) (payload : String) : Bool :=
  beginsWith payload (kind.start ++ "_") && isValidMaxBotStartPayload payload

/-- One of the tokens has signed the components. -/
def isSigned (hmac : Hmac) (kind : CompactKind) (components : List String) (signatureRaw : String)
    (botTokens : List String) : Bool :=
  let signature := lowerCase (trim signatureRaw)
  isCompactSignature signature && botTokens.any fun botToken =>
    trim botToken ≠ "" &&
      signature = buildCompactSignature hmac kind.scope components (trim botToken)

/-- A payload with fewer words has an empty one, which is no component and no signature. -/
def parseCompactGiveawayClaimStartPayload (hmac : Hmac) (payload : Option String)
    (botTokens : List String) : Option GiveawayClaim :=
  payload.bind fun payload =>
    if !opensWith .giveawayClaim payload then none
    else match split '_' payload with
    | [start, giveawayIdRaw, winnerIdRaw, signatureRaw] =>
      if start ≠ CompactKind.giveawayClaim.start then none
      else match normalizeCompactComponent giveawayIdRaw, normalizeCompactComponent winnerIdRaw with
      | some giveawayId, some winnerId =>
        if isSigned hmac .giveawayClaim [giveawayId, winnerId] signatureRaw botTokens then
          some { giveawayId, winnerId }
        else none
      | _, _ => none
    | _ => none

def parseCompactGiveawayHandoffStartPayload (hmac : Hmac) (payload : Option String)
    (botTokens : List String) : Option GiveawayHandoff :=
  payload.bind fun payload =>
    if !opensWith .giveawayHandoff payload then none
    else match split '_' payload with
    | [start, chatIdRaw, entityTypeCodeRaw, giveawayIdRaw, signatureRaw] =>
      if start ≠ CompactKind.giveawayHandoff.start then none
      else match normalizeCompactComponent chatIdRaw, decodeManagedEntityType (trim entityTypeCodeRaw),
          normalizeCompactComponent giveawayIdRaw with
      | some chatId, some entityType, some giveawayIdMarker =>
        if isSigned hmac .giveawayHandoff
            [chatId, encodeManagedEntityType entityType, giveawayIdMarker] signatureRaw botTokens then
          some
            { chatId
              entityType
              giveawayId := if giveawayIdMarker = "0" then none else some giveawayIdMarker }
        else none
      | _, _, _ => none
    | _ => none

def parseCompactProfileMentionStartPayload (hmac : Hmac) (payload : Option String)
    (botTokens : List String) : Option ProfileMention :=
  payload.bind fun payload =>
    if !opensWith .profileMention payload then none
    else match split '_' payload with
    | [start, chatIdRaw, entityTypeCodeRaw, userIdRaw, signatureRaw] =>
      if start ≠ CompactKind.profileMention.start then none
      else match normalizeCompactComponent chatIdRaw, decodeManagedEntityType (trim entityTypeCodeRaw),
          normalizeCompactComponent userIdRaw with
      | some chatId, some entityType, some userId =>
        if isSigned hmac .profileMention
            [chatId, encodeManagedEntityType entityType, userId] signatureRaw botTokens then
          some { chatId, entityType, userId }
        else none
      | _, _, _ => none
    | _ => none

end Maxim.Max.DeepLink

/-!
## The compact codec

What a builder writes is split into the same words again, since no word has an
underscore; what a parser accepts is such words with a signature that one of
the tokens gives. The signed text can be split into the scope and the
components, so it is of one kind and of one list of components.
-/

namespace Maxim.Max.DeepLink

open Maxim.Library

variable {hmac : Hmac} {kind : CompactKind} {components : List String} {botToken payload : String}
  {botTokens : List String}

/-! ## Words -/

/-- A word that can be a component. -/
structure IsComponent (s : String) : Prop where
  ne : s ≠ ""
  chars : ∀ c ∈ s.toList, isComponentChar c = true

variable {c : Char}

theorem isAlphanum_iff : c.isAlphanum = true ↔
    48 ≤ c.toNat ∧ c.toNat ≤ 57 ∨ 65 ≤ c.toNat ∧ c.toNat ≤ 90 ∨ 97 ≤ c.toNat ∧ c.toNat ≤ 122 := by
  change (decide (c.val ≥ 'A'.val ∧ c.val ≤ 'Z'.val) ||
    (decide (c.val ≥ 'a'.val) && decide (c.val ≤ 'z'.val)) || c.isDigit) = true ↔ _
  simp only [Char.isDigit, ge_iff_le, Bool.or_eq_true, Bool.and_eq_true, decide_eq_true_eq,
    UInt32.le_iff_toNat_le, Char.toNat_val, Char.reduceVal, UInt32.reduceToNat]
  omega

theorem isSpace_of_isStartChar (hc : isStartChar c = true) : isSpace c = false := by
  simp only [isStartChar, Bool.or_eq_true, decide_eq_true_eq] at hc
  rcases hc with ((hc | rfl) | rfl) | rfl
  · have hrange := isAlphanum_iff.mp hc
    exact isSpace_of_visible (by omega) (by omega)
  · rfl
  · rfl
  · rfl

theorem isStartChar_of_isComponentChar (hc : isComponentChar c = true) : isStartChar c = true := by
  simp only [isComponentChar, isStartChar, Bool.or_eq_true, decide_eq_true_eq] at hc ⊢
  tauto

variable {s signatureRaw : String}

theorem IsComponent.trim (hs : IsComponent s) : Library.trim s = s :=
  trim_of_forall fun c hc => isSpace_of_isStartChar (isStartChar_of_isComponentChar (hs.chars c hc))

theorem normalizeCompactComponent_eq_some {value : String} :
    normalizeCompactComponent value = some s ↔ s = Library.trim value ∧ IsComponent s := by
  unfold normalizeCompactComponent
  dsimp only
  split
  next h =>
    refine iff_of_false (by simp) ?_
    rintro ⟨rfl, hne, hchars⟩
    rcases h with h | h
    · exact hne h
    · exact h (List.all_eq_true.mpr hchars)
  next h =>
    rw [not_or, not_not] at h
    rw [Option.some.injEq]
    constructor
    · rintro rfl
      exact ⟨rfl, h.1, List.all_eq_true.mp h.2⟩
    · rintro ⟨rfl, -⟩
      rfl

theorem IsComponent.normalize (hs : IsComponent s) : normalizeCompactComponent s = some s :=
  normalizeCompactComponent_eq_some.mpr ⟨hs.trim.symm, hs⟩

theorem mapM_normalize {values : List String} :
    values.mapM normalizeCompactComponent = some components ↔
      components = values.map Library.trim ∧ ∀ s ∈ components, IsComponent s := by
  induction values generalizing components with
  | nil => cases components <;> simp
  | cons v values ih =>
    rw [List.mapM_cons]
    constructor
    · intro h
      obtain ⟨s, hs, h⟩ := Option.bind_eq_some_iff.mp h
      obtain ⟨rest, hrest, h⟩ := Option.bind_eq_some_iff.mp h
      cases h
      obtain ⟨rfl, hcomponent⟩ := normalizeCompactComponent_eq_some.mp hs
      obtain ⟨rfl, hcomponents⟩ := ih.mp hrest
      exact ⟨rfl, List.forall_mem_cons.mpr ⟨hcomponent, hcomponents⟩⟩
    · rintro ⟨rfl, hcomponents⟩
      obtain ⟨hcomponent, hcomponents⟩ := List.forall_mem_cons.mp hcomponents
      rw [normalizeCompactComponent_eq_some.mpr ⟨rfl, hcomponent⟩, ih.mpr ⟨rfl, hcomponents⟩]
      rfl

theorem not_mem_of_isComponent (hs : IsComponent s)
    (hc : isComponentChar c = false) : c ∉ s.toList := by
  intro hmem
  rw [hs.chars c hmem] at hc
  cases hc

/-! ## Signatures -/

theorem isCompactSignature_iff :
    isCompactSignature s = true ↔ s.toList.length = 16 ∧ ∀ c ∈ s.toList, isHexDigit c = true := by
  simp [isCompactSignature]

theorem isCompactSignature_build (hmac : Hmac) (scope key : String) (components : List String) :
    isCompactSignature (buildCompactSignature hmac scope components key) = true := by
  rw [isCompactSignature_iff, buildCompactSignature, truncate, String.toList_ofList]
  refine ⟨?_, fun c hc => hmac.hex_digest _ _ c (List.mem_of_mem_take hc)⟩
  rw [List.length_take, hmac.length_digest]
  rfl

theorem isHexDigit_range (hc : isHexDigit c = true) :
    48 ≤ c.toNat ∧ c.toNat ≤ 57 ∨ 97 ≤ c.toNat ∧ c.toNat ≤ 102 := by
  simp only [isHexDigit, Char.isDigit, Char.le_def, ge_iff_le, Bool.or_eq_true, Bool.and_eq_true,
    decide_eq_true_eq, UInt32.le_iff_toNat_le, Char.toNat_val, Char.reduceVal, UInt32.reduceToNat] at hc
  omega

theorem isComponentChar_of_isHexDigit (hc : isHexDigit c = true) : isComponentChar c = true := by
  have hrange := isHexDigit_range hc
  rw [isComponentChar, Bool.or_eq_true]
  exact .inr (isAlphanum_iff.mpr (by omega))

theorem isComponent_of_signature (hs : isCompactSignature s = true) : IsComponent s := by
  obtain ⟨hlength, hchars⟩ := isCompactSignature_iff.mp hs
  refine ⟨?_, fun c hc => isComponentChar_of_isHexDigit (hchars c hc)⟩
  rintro rfl
  cases hlength

theorem lowerChar_of_isHexDigit (hc : isHexDigit c = true) : lowerChar c = c := by
  have hrange := isHexDigit_range hc
  rw [lowerChar, if_neg, if_neg]
  · simp only [Bool.and_eq_true, decide_eq_true_eq]
    omega
  · simp only [Bool.or_eq_true, Bool.and_eq_true, decide_eq_true_eq]
    omega

theorem lowerCase_of_signature (hs : isCompactSignature s = true) : lowerCase s = s := by
  obtain ⟨-, hchars⟩ := isCompactSignature_iff.mp hs
  apply String.toList_injective
  rw [lowerCase, String.toList_map]
  exact (List.map_congr_left fun c hc => lowerChar_of_isHexDigit (hchars c hc)).trans (List.map_id _)

theorem isSigned_iff :
    isSigned hmac kind components signatureRaw botTokens = true ↔
      isCompactSignature (lowerCase (trim signatureRaw)) = true ∧ ∃ t ∈ botTokens, trim t ≠ "" ∧
        lowerCase (trim signatureRaw) = buildCompactSignature hmac kind.scope components (trim t) := by
  simp [isSigned]

/-! ## What is built -/

theorem isComponent_start (kind : CompactKind) : IsComponent kind.start := by
  cases kind with
  | giveawayClaim => exact ⟨by decide, forall_of_all (by decide)⟩
  | giveawayHandoff => exact ⟨by decide, forall_of_all (by decide)⟩
  | profileMention => exact ⟨by decide, forall_of_all (by decide)⟩

def wordsOf (hmac : Hmac) (kind : CompactKind) (components : List String) (botToken : String) : List String :=
  kind.start :: components ++ [buildCompactSignature hmac kind.scope components (trim botToken)]

theorem buildWithToken_eq_some {values : List String} :
    buildWithToken hmac kind values botToken = some payload ↔
      trim botToken ≠ "" ∧ (∀ v ∈ values, IsComponent (trim v)) ∧
        payload = join '_' (wordsOf hmac kind (values.map trim) botToken) ∧
          isValidMaxBotStartPayload payload = true := by
  unfold buildWithToken
  split
  next h => exact iff_of_false (by simp) fun ⟨hne, _⟩ => hne h
  next hne =>
    unfold buildCompactPayload
    rw [Option.bind_eq_some_iff, trim_trim]
    dsimp only
    constructor
    · rintro ⟨components, hmap, hpayload⟩
      obtain ⟨rfl, hcomponents⟩ := mapM_normalize.mp hmap
      rw [List.forall_mem_map] at hcomponents
      split at hpayload
      next hvalid =>
        rw [Option.some.injEq] at hpayload
        subst hpayload
        exact ⟨hne, hcomponents, rfl, hvalid⟩
      · cases hpayload
    · rintro ⟨-, hcomponents, rfl, hvalid⟩
      refine ⟨_, mapM_normalize.mpr ⟨rfl, List.forall_mem_map.mpr hcomponents⟩, ?_⟩
      exact if_pos hvalid

theorem isComponent_of_mem_wordsOf (hcomponents : ∀ s ∈ components, IsComponent s) {w : String}
    (hw : w ∈ wordsOf hmac kind components botToken) : IsComponent w := by
  rw [wordsOf, List.cons_append, List.mem_cons, List.mem_append, List.mem_singleton] at hw
  rcases hw with rfl | hw | rfl
  · exact isComponent_start kind
  · exact hcomponents w hw
  · exact isComponent_of_signature (isCompactSignature_build _ _ _ _)

theorem opens_words (hcomponents : ∀ s ∈ components, IsComponent s)
    (hvalid : isValidMaxBotStartPayload (join '_' (wordsOf hmac kind components botToken)) = true) :
    opensWith kind (join '_' (wordsOf hmac kind components botToken)) = true ∧
      split '_' (join '_' (wordsOf hmac kind components botToken)) =
        wordsOf hmac kind components botToken := by
  constructor
  · rw [opensWith, hvalid, Bool.and_true, wordsOf, List.cons_append, join_cons _ _ (by simp)]
    exact beginsWith_append _ _
  · refine split_join (fun w hw => not_mem_of_isComponent (isComponent_of_mem_wordsOf hcomponents hw) ?_)
      (by simp [wordsOf])
    decide

theorem isSigned_build (hmac : Hmac) (kind : CompactKind) (hne : trim botToken ≠ "") (hmem : botToken ∈ botTokens) (components : List String) :
    isSigned hmac kind components (buildCompactSignature hmac kind.scope components (trim botToken))
      botTokens = true := by
  have hsignature := isCompactSignature_build hmac kind.scope (trim botToken) components
  rw [isSigned_iff, (isComponent_of_signature hsignature).trim, lowerCase_of_signature hsignature]
  exact ⟨hsignature, botToken, hmem, hne, rfl⟩

/-! ## What is accepted -/

def lowerSignature (payload : String) : String :=
  let words := split '_' payload
  join '_' (words.dropLast ++ words.getLast?.toList.map lowerCase)

theorem isValidMaxBotStartPayload_iff :
    isValidMaxBotStartPayload payload = true ↔
      payload ≠ "" ∧ payload.toList.length ≤ MAX_BOT_START_MAX_LENGTH ∧
        ∀ c ∈ payload.toList, isStartChar c = true := by
  simp [isValidMaxBotStartPayload, and_assoc]

theorem opensWith_valid (hopens : opensWith kind payload = true) : isValidMaxBotStartPayload payload = true :=
  (Bool.and_eq_true_iff.mp hopens).2

theorem trim_of_mem_split (hvalid : isValidMaxBotStartPayload payload = true) {w : String}
    (hw : w ∈ split '_' payload) : trim w = w := by
  refine trim_of_forall fun c hc => isSpace_of_isStartChar ?_
  have hmem := mem_join (c := '_') hw hc
  rw [join_split] at hmem
  exact (isValidMaxBotStartPayload_iff.mp hvalid).2.2 c hmem

theorem lowerSignature_of_split {words : List String}
    (hsplit : split '_' payload = words ++ [signatureRaw]) :
    lowerSignature payload = join '_' (words ++ [lowerCase signatureRaw]) := by
  rw [lowerSignature, hsplit, List.dropLast_concat, List.getLast?_concat]
  rfl

theorem length_lowerSignature (payload : String) :
    (lowerSignature payload).toList.length = payload.toList.length := by
  obtain ⟨words, last, hsplit⟩ : ∃ words last, split '_' payload = words ++ [last] :=
    (List.eq_nil_or_concat' _).resolve_left (by simp [split, List.splitOn_ne_nil])
  have hsame : (lowerCase last).toList.length = last.toList.length := by
    rw [lowerCase, String.toList_map, List.length_map]
  rw [lowerSignature_of_split hsplit]
  conv_rhs => rw [← join_split '_' payload, hsplit]
  by_cases hwords : words = []
  · rw [hwords, join, join]
    simp [hsame]
  · rw [join_concat _ _ hwords, join_concat _ _ hwords]
    simp only [String.toList_append, List.length_append, hsame]

theorem isValid_lowerSignature (hvalid : isValidMaxBotStartPayload payload = true) {words : List String}
    (hne : words ≠ []) (hsplit : split '_' payload = words ++ [signatureRaw])
    (hsignature : isCompactSignature (lowerCase signatureRaw) = true) :
    isValidMaxBotStartPayload (lowerSignature payload) = true := by
  have hpayload : payload = join '_' (words ++ [signatureRaw]) := by rw [← hsplit, join_split]
  rw [isValidMaxBotStartPayload_iff] at hvalid ⊢
  obtain ⟨-, hlength, hchars⟩ := hvalid
  have hcomponent := isComponent_of_signature hsignature
  rw [hpayload, join_concat _ _ hne] at hchars
  rw [lowerSignature_of_split hsplit, join_concat _ _ hne]
  refine ⟨?_, ?_, fun c hc => ?_⟩
  · intro hempty
    have hlist := congrArg String.toList hempty
    simp at hlist
  · rw [← join_concat _ _ hne, ← lowerSignature_of_split hsplit, length_lowerSignature]
    exact hlength
  · simp only [String.toList_append, List.mem_append] at hc hchars
    rcases hc with (hc | hc) | hc
    · exact hchars c (.inl (.inl hc))
    · exact hchars c (.inl (.inr hc))
    · exact isStartChar_of_isComponentChar (hcomponent.chars c hc)

theorem built_of_signed (hopens : opensWith kind payload = true)
    (hsplit : split '_' payload = kind.start :: components ++ [signatureRaw])
    (hcomponents : ∀ s ∈ components, IsComponent s)
    (hsigned : isSigned hmac kind components signatureRaw botTokens = true) :
    ∃ t ∈ botTokens, buildWithToken hmac kind components t = some (lowerSignature payload) := by
  have hvalid := opensWith_valid hopens
  have hraw : trim signatureRaw = signatureRaw :=
    trim_of_mem_split hvalid (hsplit ▸ List.mem_append_right _ (List.mem_singleton_self _))
  obtain ⟨hsignature, t, ht, hne, hsame⟩ := isSigned_iff.mp hsigned
  rw [hraw] at hsignature hsame
  have htrim : components.map trim = components :=
    (List.map_congr_left fun s hs => (hcomponents s hs).trim).trans (List.map_id _)
  refine ⟨t, ht, buildWithToken_eq_some.mpr ⟨hne, fun s hs => ?_, ?_, ?_⟩⟩
  · rw [(hcomponents s hs).trim]
    exact hcomponents s hs
  · rw [lowerSignature_of_split hsplit, htrim, wordsOf, hsame]
  · exact isValid_lowerSignature hvalid (List.cons_ne_nil _ _) hsplit hsignature

/-! ## The three kinds -/

theorem decode_encode (entityType : ManagedEntityType) :
    decodeManagedEntityType (encodeManagedEntityType entityType) = some entityType := by
  cases entityType with
  | channel => rfl
  | chat => rfl

theorem encode_of_decode {code : String} {entityType : ManagedEntityType}
    (h : decodeManagedEntityType code = some entityType) : encodeManagedEntityType entityType = code := by
  unfold decodeManagedEntityType at h
  split at h
  next hcode =>
    cases h
    exact hcode.symm
  · split at h
    next hcode =>
      cases h
      exact hcode.symm
    · cases h

theorem isComponent_encode (entityType : ManagedEntityType) :
    IsComponent (encodeManagedEntityType entityType) := by
  cases entityType with
  | channel => exact ⟨by decide, forall_of_all (by decide)⟩
  | chat => exact ⟨by decide, forall_of_all (by decide)⟩

def ofMarker (marker : String) : Option String := if marker = "0" then none else some marker

/-- Trimmed parameters; a giveaway `0` is none. -/
def GiveawayHandoff.trimmed (params : GiveawayHandoff) : GiveawayHandoff where
  chatId := trim params.chatId
  entityType := params.entityType
  giveawayId := (nullableString params.giveawayId).bind ofMarker

theorem giveawayMarker_ofMarker (marker : String) (hne : marker ≠ "") (htrim : trim marker = marker) :
    giveawayMarker (ofMarker marker) = marker := by
  unfold ofMarker
  split
  next h => exact h.symm
  · rw [giveawayMarker, nullableString_of_trimmed htrim hne]
    rfl

theorem ofMarker_giveawayMarker (giveawayId : Option String) :
    ofMarker (trim (giveawayMarker giveawayId)) = (nullableString giveawayId).bind ofMarker := by
  rw [giveawayMarker]
  cases h : nullableString giveawayId with
  | none => rfl
  | some s =>
    obtain ⟨v, -, hv⟩ := Option.bind_eq_some_iff.mp h
    split at hv
    · cases hv
    · cases hv
      rw [Option.getD_some, trim_trim]
      rfl

theorem parse_build_giveawayClaim {params : GiveawayClaim}
    (hbuild : buildCompactGiveawayClaimStartPayload hmac params botToken = some payload)
    (hmem : botToken ∈ botTokens) :
    parseCompactGiveawayClaimStartPayload hmac (some payload) botTokens =
      some ⟨trim params.giveawayId, trim params.winnerId⟩ := by
  obtain ⟨hne, hcomponents, rfl, hvalid⟩ := buildWithToken_eq_some.mp hbuild
  obtain ⟨hopens, hsplit⟩ := opens_words (List.forall_mem_map.mpr hcomponents) hvalid
  have hsigned := isSigned_build hmac .giveawayClaim hne hmem
    [trim params.giveawayId, trim params.winnerId]
  rw [parseCompactGiveawayClaimStartPayload, Option.bind_some, hopens, hsplit]
  simp only [List.forall_mem_cons] at hcomponents
  simp [wordsOf, hcomponents.1.normalize, hcomponents.2.1.normalize, hsigned]

theorem parse_build_giveawayHandoff {params : GiveawayHandoff}
    (hbuild : buildCompactGiveawayHandoffStartPayload hmac params botToken = some payload)
    (hmem : botToken ∈ botTokens) :
    parseCompactGiveawayHandoffStartPayload hmac (some payload) botTokens = some params.trimmed := by
  obtain ⟨hne, hcomponents, rfl, hvalid⟩ := buildWithToken_eq_some.mp hbuild
  obtain ⟨hopens, hsplit⟩ := opens_words (List.forall_mem_map.mpr hcomponents) hvalid
  have hcode := (isComponent_encode params.entityType).trim
  have hsigned := isSigned_build hmac .giveawayHandoff hne hmem
    [trim params.chatId, encodeManagedEntityType params.entityType, trim (giveawayMarker params.giveawayId)]
  rw [parseCompactGiveawayHandoffStartPayload, Option.bind_some, hopens, hsplit]
  simp only [List.forall_mem_cons] at hcomponents
  have hmarker := ofMarker_giveawayMarker params.giveawayId
  rw [ofMarker] at hmarker
  simp [wordsOf, hcomponents.1.normalize, hcomponents.2.2.1.normalize, hcode, decode_encode, hsigned,
    hmarker, GiveawayHandoff.trimmed]

theorem parse_build_profileMention {params : ProfileMention}
    (hbuild : buildCompactProfileMentionStartPayload hmac params botToken = some payload)
    (hmem : botToken ∈ botTokens) :
    parseCompactProfileMentionStartPayload hmac (some payload) botTokens =
      some ⟨trim params.chatId, params.entityType, trim params.userId⟩ := by
  obtain ⟨hne, hcomponents, rfl, hvalid⟩ := buildWithToken_eq_some.mp hbuild
  obtain ⟨hopens, hsplit⟩ := opens_words (List.forall_mem_map.mpr hcomponents) hvalid
  have hcode := (isComponent_encode params.entityType).trim
  have hsigned := isSigned_build hmac .profileMention hne hmem
    [trim params.chatId, encodeManagedEntityType params.entityType, trim params.userId]
  rw [parseCompactProfileMentionStartPayload, Option.bind_some, hopens, hsplit]
  simp only [List.forall_mem_cons] at hcomponents
  simp [wordsOf, hcomponents.1.normalize, hcomponents.2.2.1.normalize, hcode, decode_encode, hsigned]

theorem build_parse_giveawayClaim {params : GiveawayClaim}
    (hparse : parseCompactGiveawayClaimStartPayload hmac (some payload) botTokens = some params) :
    ∃ t ∈ botTokens, buildCompactGiveawayClaimStartPayload hmac params t = some (lowerSignature payload) := by
  rw [parseCompactGiveawayClaimStartPayload, Option.bind_some] at hparse
  split at hparse
  · cases hparse
  next hopens =>
    rw [Bool.not_eq_true', Bool.not_eq_false] at hopens
    split at hparse
    next start giveawayIdRaw winnerIdRaw signatureRaw hsplit =>
      split at hparse
      · cases hparse
      next hstart =>
        rw [not_not] at hstart
        split at hparse
        next giveawayId winnerId hgiveaway hwinner =>
          split at hparse
          next hsigned =>
            cases hparse
            have hwords : ∀ w ∈ split '_' payload, trim w = w :=
              fun w hw => trim_of_mem_split (opensWith_valid hopens) hw
            rw [hsplit] at hwords
            simp only [List.forall_mem_cons] at hwords
            obtain ⟨rfl, hg⟩ := normalizeCompactComponent_eq_some.mp hgiveaway
            obtain ⟨rfl, hw⟩ := normalizeCompactComponent_eq_some.mp hwinner
            rw [hwords.2.1] at hg hsigned ⊢
            rw [hwords.2.2.1] at hw hsigned ⊢
            exact built_of_signed hopens (by rw [hsplit, hstart]; rfl)
              (by simp only [List.forall_mem_cons]; exact ⟨hg, hw, by simp⟩) hsigned
          · cases hparse
        · cases hparse
    · cases hparse

theorem build_parse_giveawayHandoff {params : GiveawayHandoff}
    (hparse : parseCompactGiveawayHandoffStartPayload hmac (some payload) botTokens = some params) :
    ∃ t ∈ botTokens, buildCompactGiveawayHandoffStartPayload hmac params t = some (lowerSignature payload) := by
  rw [parseCompactGiveawayHandoffStartPayload, Option.bind_some] at hparse
  split at hparse
  · cases hparse
  next hopens =>
    rw [Bool.not_eq_true', Bool.not_eq_false] at hopens
    split at hparse
    next start chatIdRaw codeRaw markerRaw signatureRaw hsplit =>
      split at hparse
      · cases hparse
      next hstart =>
        rw [not_not] at hstart
        split at hparse
        next chatId entityType marker hchat hcode hmarker =>
          split at hparse
          next hsigned =>
            cases hparse
            have hwords : ∀ w ∈ split '_' payload, trim w = w :=
              fun w hw => trim_of_mem_split (opensWith_valid hopens) hw
            rw [hsplit] at hwords
            simp only [List.forall_mem_cons] at hwords
            rw [hwords.2.2.1] at hcode
            obtain ⟨rfl, hc⟩ := normalizeCompactComponent_eq_some.mp hchat
            obtain ⟨rfl, hm⟩ := normalizeCompactComponent_eq_some.mp hmarker
            rw [hwords.2.1] at hc hsigned ⊢
            rw [hwords.2.2.2.1] at hm hsigned ⊢
            have hbuilt := built_of_signed hopens (by rw [hsplit, hstart, encode_of_decode hcode]; rfl)
              (by simp only [List.forall_mem_cons]; exact ⟨hc, isComponent_encode entityType, hm, by simp⟩)
              hsigned
            have hmarker := giveawayMarker_ofMarker markerRaw hm.ne hm.trim
            unfold buildCompactGiveawayHandoffStartPayload
            rw [ofMarker] at hmarker
            rwa [hmarker]
          · cases hparse
        · cases hparse
    · cases hparse

theorem build_parse_profileMention {params : ProfileMention}
    (hparse : parseCompactProfileMentionStartPayload hmac (some payload) botTokens = some params) :
    ∃ t ∈ botTokens, buildCompactProfileMentionStartPayload hmac params t = some (lowerSignature payload) := by
  rw [parseCompactProfileMentionStartPayload, Option.bind_some] at hparse
  split at hparse
  · cases hparse
  next hopens =>
    rw [Bool.not_eq_true', Bool.not_eq_false] at hopens
    split at hparse
    next start chatIdRaw codeRaw userIdRaw signatureRaw hsplit =>
      split at hparse
      · cases hparse
      next hstart =>
        rw [not_not] at hstart
        split at hparse
        next chatId entityType userId hchat hcode huserId =>
          split at hparse
          next hsigned =>
            cases hparse
            have hwords : ∀ w ∈ split '_' payload, trim w = w :=
              fun w hw => trim_of_mem_split (opensWith_valid hopens) hw
            rw [hsplit] at hwords
            simp only [List.forall_mem_cons] at hwords
            rw [hwords.2.2.1] at hcode
            obtain ⟨rfl, hc⟩ := normalizeCompactComponent_eq_some.mp hchat
            obtain ⟨rfl, hm⟩ := normalizeCompactComponent_eq_some.mp huserId
            rw [hwords.2.1] at hc hsigned ⊢
            rw [hwords.2.2.2.1] at hm hsigned ⊢
            have hbuilt := built_of_signed hopens (by rw [hsplit, hstart, encode_of_decode hcode]; rfl)
              (by simp only [List.forall_mem_cons]; exact ⟨hc, isComponent_encode entityType, hm, by simp⟩)
              hsigned
            exact hbuilt
          · cases hparse
        · cases hparse
    · cases hparse

end Maxim.Max.DeepLink
