import Maxim.Moderation.PrivateControl.StartPayload

/-!
# The start payload codec

Both formats of a payload are read back as the trimmed parameters, and each
signed text is of one payload.
-/

namespace Maxim.Moderation.PrivateControl

open Maxim.Library
open Maxim.Max.DeepLink

variable {hmac : Hmac} {botToken payload : String} {botTokens : List String}

/-! ## Records -/

def Readable (f : Json.Field) : Prop := Json.Reads f.text f.value

theorem readable_textField (name value : String) : Readable (textField name value) :=
  Json.reads_quoted _

theorem readable_nullableField (name : String) (value : Option String) : Readable (nullableField name value) := by
  cases value with
  | none => exact Json.reads_null
  | some s => exact readable_textField name s

theorem readable_versionField : Readable versionField := Json.reads_one

theorem decodeRecord_encodeRecord {fields : List Json.Field} (hne : fields ≠ [])
    (hreadable : ∀ f ∈ fields, Readable f) :
    decodeRecord (encodeRecord fields) = some (.object (fields.map fun f => (f.name, f.value))) := by
  rw [decodeRecord, encodeRecord, String.toList_ofList, textOfBase64_base64Text,
    Json.parse_objectText hne hreadable]

theorem encodeRecord_ne (fields : List Json.Field) : encodeRecord fields ≠ "" := by
  intro hempty
  have hlist := congrArg (fun s => textOfBase64 s.toList) hempty
  simp only [encodeRecord, String.toList_ofList, textOfBase64_base64Text, Json.objectText] at hlist
  cases hlist

theorem drop_append {start : String} (hlength : start.toList.length = 4) (s : String) :
    String.ofList ((start ++ s).toList.drop 4) = s := by
  rw [String.toList_append, List.drop_append_of_le_length (by omega), ← hlength, List.drop_length,
    List.nil_append, String.ofList_toList]

theorem parseCompact_handoff (s : String) :
    parseCompactGiveawayHandoffStartPayload hmac (some (GIVEAWAY_HANDOFF_START ++ s)) botTokens = none := by
  have hopens : opensWith .giveawayHandoff (GIVEAWAY_HANDOFF_START ++ s) = false := by
    simp [opensWith, beginsWith, GIVEAWAY_HANDOFF_START, CompactKind.start]
  rw [parseCompactGiveawayHandoffStartPayload, Option.bind_some, hopens]
  rfl

theorem parseCompact_mention (s : String) :
    parseCompactProfileMentionStartPayload hmac (some (PROFILE_MENTION_START ++ s)) botTokens = none := by
  have hopens : opensWith .profileMention (PROFILE_MENTION_START ++ s) = false := by
    simp [opensWith, beginsWith, PROFILE_MENTION_START, CompactKind.start]
  rw [parseCompactProfileMentionStartPayload, Option.bind_some, hopens]
  rfl

def objectOf (fields : List Json.Field) : Json.Value := .object (fields.map fun f => (f.name, f.value))

theorem field_objectOf (fields : List Json.Field) (name : String) :
    (objectOf fields).field name =
      ((fields.reverse.find? fun f => decide (f.name = name.toList)).map (·.value)) := by
  rw [objectOf, Json.Value.field, ← List.map_reverse, List.find?_map, Option.map_map]
  rfl

theorem isOne_one : Json.Value.isOne (.number 1) = true := by
  rw [Json.Value.isOne, decide_eq_true_eq]
  norm_num

/-! ## Giveaway handoff -/

theorem readText_chatId (params : GiveawayHandoff) :
    readText (objectOf (handoffRecord params)) "c" = trim params.chatId := by
  obtain ⟨chatId, entityType, giveawayId⟩ := params
  cases giveawayId <;>
    simp [readText, field_objectOf, handoffRecord, textField, nullableField, Json.Value.text?]

theorem readHandoff_record {params : GiveawayHandoff} (hchat : trim params.chatId ≠ "") :
    readHandoff (objectOf (handoffRecord params)) =
      some
        { chatId := trim params.chatId
          entityType := params.entityType
          giveawayId := nullableString params.giveawayId } := by
  have hc := readText_chatId params
  obtain ⟨chatId, entityType, giveawayId⟩ := params
  have hv : isVersionOne (objectOf (handoffRecord ⟨chatId, entityType, giveawayId⟩)) = true := by
    cases giveawayId <;>
      simp [isVersionOne, field_objectOf, handoffRecord, versionField, textField, nullableField, isOne_one]
  have hk : isText (objectOf (handoffRecord ⟨chatId, entityType, giveawayId⟩)) "k" "giveaway-handoff" = true := by
    cases giveawayId <;>
      simp [isText, field_objectOf, handoffRecord, textField, nullableField, Json.Value.text?]
  have he : readEntityType (objectOf (handoffRecord ⟨chatId, entityType, giveawayId⟩)) = some entityType := by
    cases entityType <;> cases giveawayId <;>
      simp [readEntityType, isText, field_objectOf, handoffRecord, textField, nullableField,
        Json.Value.text?, entityTypeText]
  rw [readHandoff, he, hv, hk, hc]
  simp only [Bool.not_true, Bool.false_or, decide_eq_true_eq, if_neg hchat, Option.some.injEq,
    GiveawayHandoff.mk.injEq, true_and]
  cases giveawayId with
  | none => simp [readText, field_objectOf, handoffRecord, nullableField, Json.Value.text?, nullableString]
  | some g =>
    simp [readText, field_objectOf, handoffRecord, textField, nullableField, Json.Value.text?, nullableString]

theorem readHandoff_blank {params : GiveawayHandoff} (hchat : trim params.chatId = "") :
    readHandoff (objectOf (handoffRecord params)) = none := by
  unfold readHandoff
  dsimp only
  split
  · rfl
  · rw [readText_chatId, hchat, decide_eq_true rfl, Bool.or_true]
    rfl

theorem parse_handoffRecord {params : GiveawayHandoff}
    (hcompact : buildCompactGiveawayHandoffStartPayload hmac params botToken = none) :
    parsePrivateGiveawayHandoffStartPayload hmac
        (some (buildPrivateGiveawayHandoffStartPayload hmac params botToken)) botTokens =
      readHandoff (objectOf (handoffRecord params)) := by
  have hreadable : ∀ f ∈ handoffRecord params, Readable f := by
    simp only [handoffRecord, List.forall_mem_cons]
    exact ⟨readable_versionField, readable_textField _ _, readable_textField _ _, readable_textField _ _,
      readable_nullableField _ _, by simp⟩
  have hrecord : decodeRecord (encodeRecord (handoffRecord params)) = some (objectOf (handoffRecord params)) :=
    decodeRecord_encodeRecord (by simp [handoffRecord]) hreadable
  have hstart : ¬(GIVEAWAY_HANDOFF_START ++ encodeRecord (handoffRecord params) = "" ∨
      GIVEAWAY_HANDOFF_START ++ encodeRecord (handoffRecord params) = GIVEAWAY_HANDOFF_START_PAYLOAD) := by
    rw [← String.toList_inj, ← String.toList_inj]
    simp [GIVEAWAY_HANDOFF_START, GIVEAWAY_HANDOFF_START_PAYLOAD]
  rw [buildPrivateGiveawayHandoffStartPayload, hcompact, Option.getD_none,
    parsePrivateGiveawayHandoffStartPayload, parseCompact_handoff]
  dsimp only
  rw [Option.bind_some, if_neg hstart, beginsWith_append, drop_append rfl,
    if_neg (encodeRecord_ne _), hrecord, Option.bind_some]
  rfl

theorem parse_build_handoffRecord {params : GiveawayHandoff}
    (hcompact : buildCompactGiveawayHandoffStartPayload hmac params botToken = none)
    (hchat : trim params.chatId ≠ "") :
    parsePrivateGiveawayHandoffStartPayload hmac
        (some (buildPrivateGiveawayHandoffStartPayload hmac params botToken)) botTokens =
      some
        { chatId := trim params.chatId
          entityType := params.entityType
          giveawayId := nullableString params.giveawayId } :=
  (parse_handoffRecord hcompact).trans (readHandoff_record hchat)

theorem parse_build_handoffCompact {params : GiveawayHandoff}
    (hcompact : buildCompactGiveawayHandoffStartPayload hmac params botToken = some payload)
    (hmem : botToken ∈ botTokens) :
    parsePrivateGiveawayHandoffStartPayload hmac
        (some (buildPrivateGiveawayHandoffStartPayload hmac params botToken)) botTokens =
      some params.trimmed := by
  rw [buildPrivateGiveawayHandoffStartPayload, hcompact, Option.getD_some,
    parsePrivateGiveawayHandoffStartPayload, parse_build_giveawayHandoff hcompact hmem]

/-! ## Profile mention -/

/-- Trimmed parameters with the name or the default one. -/
def PrivateProfileMention.trimmed (params : PrivateProfileMention) : PrivateProfileMention where
  chatId := trim params.chatId
  entityType := params.entityType
  userId := trim params.userId
  displayName := (nullableString (some params.displayName)).getD defaultDisplayName

theorem readMention_record {params : PrivateProfileMention} (hchat : trim params.chatId ≠ "")
    (huser : trim params.userId ≠ "") :
    readMention (objectOf (mentionRecord params)) = some params.trimmed := by
  obtain ⟨⟨chatId, entityType, userId⟩, displayName⟩ := params
  have hv : isVersionOne (objectOf (mentionRecord ⟨⟨chatId, entityType, userId⟩, displayName⟩)) = true := by
    simp [isVersionOne, field_objectOf, mentionRecord, versionField, textField, isOne_one]
  have hk : isText (objectOf (mentionRecord ⟨⟨chatId, entityType, userId⟩, displayName⟩)) "k"
      "profile-mention" = true := by
    simp [isText, field_objectOf, mentionRecord, textField, Json.Value.text?]
  have hc : readText (objectOf (mentionRecord ⟨⟨chatId, entityType, userId⟩, displayName⟩)) "c" =
      trim chatId := by
    simp [readText, field_objectOf, mentionRecord, textField, Json.Value.text?]
  have hu : readText (objectOf (mentionRecord ⟨⟨chatId, entityType, userId⟩, displayName⟩)) "u" =
      trim userId := by
    simp [readText, field_objectOf, mentionRecord, textField, Json.Value.text?]
  have hn : readText (objectOf (mentionRecord ⟨⟨chatId, entityType, userId⟩, displayName⟩)) "n" =
      trim ((nullableString (some displayName)).getD defaultDisplayName) := by
    simp [readText, field_objectOf, mentionRecord, textField, Json.Value.text?]
  have he : readEntityType (objectOf (mentionRecord ⟨⟨chatId, entityType, userId⟩, displayName⟩)) =
      some entityType := by
    cases entityType <;>
      simp [readEntityType, isText, field_objectOf, mentionRecord, textField, Json.Value.text?,
        entityTypeText]
  have hname : ∃ name, (nullableString (some displayName)).getD defaultDisplayName = name ∧
      trim name = name ∧ name ≠ "" := by
    refine ⟨_, rfl, ?_⟩
    cases hd : nullableString (some displayName) with
    | none => exact ⟨by decide +kernel, by decide⟩
    | some name =>
      have hidem := nullableString_idem hd
      rw [Option.getD_some]
      unfold nullableString at hidem
      rw [Option.bind_some] at hidem
      split at hidem
      · cases hidem
      next hne =>
        rw [Option.some.injEq] at hidem
        exact ⟨hidem, hidem ▸ hne⟩
  obtain ⟨name, hdefault, htrim, hne⟩ := hname
  rw [readMention, he, hv, hk, hc, hu, hn, hdefault, htrim]
  simp only [Bool.not_true, Bool.false_or, Bool.or_eq_true, decide_eq_true_eq]
  rw [if_neg (not_or.mpr ⟨hchat, huser⟩), if_neg hne, PrivateProfileMention.trimmed]
  dsimp only
  rw [hdefault]

theorem parse_build_mentionRecord {params : PrivateProfileMention}
    (hcompact : buildCompactProfileMentionStartPayload hmac params.toProfileMention botToken = none)
    (hchat : trim params.chatId ≠ "") (huser : trim params.userId ≠ "") :
    parsePrivateProfileMentionStartPayload hmac
        (some (buildPrivateProfileMentionStartPayload hmac params botToken)) botTokens =
      some params.trimmed := by
  have hreadable : ∀ f ∈ mentionRecord params, Readable f := by
    simp only [mentionRecord, List.forall_mem_cons]
    exact ⟨readable_versionField, readable_textField _ _, readable_textField _ _, readable_textField _ _,
      readable_textField _ _, readable_textField _ _, by simp⟩
  have hrecord : decodeRecord (encodeRecord (mentionRecord params)) = some (objectOf (mentionRecord params)) :=
    decodeRecord_encodeRecord (by simp [mentionRecord]) hreadable
  have hstart : ¬(PROFILE_MENTION_START ++ encodeRecord (mentionRecord params) = "" ∨
      ¬beginsWith (PROFILE_MENTION_START ++ encodeRecord (mentionRecord params)) PROFILE_MENTION_START = true) := by
    rw [beginsWith_append, ← String.toList_inj]
    simp [PROFILE_MENTION_START]
  rw [buildPrivateProfileMentionStartPayload, hcompact, Option.getD_none,
    parsePrivateProfileMentionStartPayload, parseCompact_mention]
  dsimp only
  rw [Option.bind_some, if_neg hstart, drop_append rfl, if_neg (encodeRecord_ne _), hrecord,
    Option.bind_some, readMention_record hchat huser]

theorem parse_build_mentionCompact {params : PrivateProfileMention}
    (hcompact : buildCompactProfileMentionStartPayload hmac params.toProfileMention botToken = some payload)
    (hmem : botToken ∈ botTokens) :
    parsePrivateProfileMentionStartPayload hmac
        (some (buildPrivateProfileMentionStartPayload hmac params botToken)) botTokens =
      some { params.trimmed with displayName := defaultDisplayName } := by
  rw [buildPrivateProfileMentionStartPayload, hcompact, Option.getD_some,
    parsePrivateProfileMentionStartPayload, parse_build_profileMention hcompact hmem]
  rfl

/-! ## Karavan allowlist -/

theorem isStartChar_of_mem_base64Digits {c : Char} (hc : c ∈ base64Digits) :
    isStartChar c = true ∧ c ≠ '.' ∧ c ≠ ':' ∧ isSpace c = false := by
  have hall : ∀ c ∈ base64Digits, isStartChar c = true ∧ c ≠ '.' ∧ c ≠ ':' ∧ isSpace c = false :=
    forall_of_all (by decide +kernel)
  exact hall c hc

theorem mem_encodeRecord {fields : List Json.Field} {c : Char} (hc : c ∈ (encodeRecord fields).toList) :
    c ∈ base64Digits := by
  rw [encodeRecord, String.toList_ofList] at hc
  exact mem_base64Text hc

theorem isCompactSignature_karavan (hmac : Hmac) (encoded token : String) :
    isCompactSignature (signKaravanPayload hmac encoded token) = true :=
  isCompactSignature_build hmac KARAVAN_ALLOWLIST_SCOPE (trim token) [encoded]

theorem cutAtLastPoint_append {encoded last : String} (hencoded : '.' ∉ encoded.toList)
    (hlast : '.' ∉ last.toList) : cutAtLastPoint (encoded ++ "." ++ last) = some (encoded, last) := by
  have hjoin : encoded ++ "." ++ last = join '.' [encoded, last] := by
    rw [join_cons _ _ (by simp)]
    simp [join]
  rw [cutAtLastPoint, hjoin, split_join (by simp [hencoded, hlast]) (by simp)]
  simp [join]

theorem cutAtLastPoint_eq_some {raw encoded last : String} (h : cutAtLastPoint raw = some (encoded, last)) :
    raw = encoded ++ "." ++ last := by
  unfold cutAtLastPoint at h
  split at h
  next l first rest hsplit =>
    cases h
    have hwords := congrArg List.reverse hsplit
    rw [List.reverse_reverse, List.reverse_cons] at hwords
    rw [← join_split '.' raw, hwords, join_concat _ _ (by simp)]
    rfl
  · cases h

theorem trim_randomNonce (random : RandomBytes) :
    trim (randomNonce random) = randomNonce random ∧ randomNonce random ≠ "" := by
  have hbytes : ∀ b ∈ (List.ofFn random).map Fin.val, b < 256 := by
    intro b hb
    obtain ⟨n, -, rfl⟩ := List.mem_map.mp hb
    exact n.isLt
  constructor
  · refine trim_of_forall fun c hc => ?_
    rw [randomNonce, String.toList_ofList] at hc
    exact (isStartChar_of_mem_base64Digits (mem_base64Encode hbytes hc)).2.2.2
  · intro hempty
    have hlist := congrArg (fun s => (base64Decode s.toList).length) hempty
    rw [randomNonce] at hlist
    simp only [String.toList_ofList, base64Decode_base64Encode _ hbytes] at hlist
    simp [base64Decode, base64Bytes] at hlist

theorem readKaravan_record (start : KaravanAllowlist) (hchat : trim start.chatId = start.chatId)
    (hchatNe : start.chatId ≠ "") (hactor : trim start.actorUserId = start.actorUserId)
    (hactorNe : start.actorUserId ≠ "") (hnonce : trim start.nonce = start.nonce) (hnonceNe : start.nonce ≠ "") :
    readKaravan (objectOf (karavanRecord start)) = some start := by
  have hv : isVersionOne (objectOf (karavanRecord start)) = true := by
    simp [isVersionOne, field_objectOf, karavanRecord, versionField, textField, isOne_one]
  have hc : readText (objectOf (karavanRecord start)) "c" = start.chatId := by
    simp [readText, field_objectOf, karavanRecord, textField, Json.Value.text?, hchat]
  have ha : readText (objectOf (karavanRecord start)) "a" = start.actorUserId := by
    simp [readText, field_objectOf, karavanRecord, textField, Json.Value.text?, hactor]
  have hn : readText (objectOf (karavanRecord start)) "n" = start.nonce := by
    simp [readText, field_objectOf, karavanRecord, textField, Json.Value.text?, hnonce]
  rw [readKaravan, hv, hc, ha, hn]
  simp [hchatNe, hactorNe, hnonceNe]

theorem decodeRecord_karavan (start : KaravanAllowlist) :
    decodeRecord (encodeRecord (karavanRecord start)) = some (objectOf (karavanRecord start)) := by
  refine decodeRecord_encodeRecord (by simp [karavanRecord]) ?_
  simp only [karavanRecord, List.forall_mem_cons]
  exact ⟨readable_versionField, readable_textField _ _, readable_textField _ _, readable_textField _ _,
    by simp⟩

theorem nonce_karavanStart (chatId actorUserId : String) (nonce : Option String) (random : RandomBytes) :
    trim (karavanStart chatId actorUserId nonce random).nonce =
        (karavanStart chatId actorUserId nonce random).nonce ∧
      (karavanStart chatId actorUserId nonce random).nonce ≠ "" := by
  rw [karavanStart]
  dsimp only
  cases hn : nullableString nonce with
  | none => exact trim_randomNonce random
  | some n =>
    obtain ⟨v, -, hv⟩ := Option.bind_eq_some_iff.mp hn
    split at hv
    · cases hv
    next hne =>
      cases hv
      exact ⟨trim_trim v, hne⟩

theorem not_mem_point_encodeRecord (fields : List Json.Field) : '.' ∉ (encodeRecord fields).toList :=
  fun hmem => (isStartChar_of_mem_base64Digits (mem_encodeRecord hmem)).2.1 rfl

/-- A Karavan payload is read back. -/
theorem parse_build_karavan {chatId actorUserId : String} {nonce : Option String} {random : RandomBytes}
    (hbuild : buildPrivateKaravanAllowlistStartPayload hmac chatId actorUserId nonce random botToken =
      some payload) (hchat : trim chatId ≠ "") (hactor : trim actorUserId ≠ "")
    (hmem : botToken ∈ botTokens) :
    parsePrivateKaravanAllowlistStartPayload hmac (some payload) botTokens =
      some (karavanStart chatId actorUserId nonce random) := by
  obtain ⟨hnonce, hnonceNe⟩ := nonce_karavanStart chatId actorUserId nonce random
  have hread := readKaravan_record (karavanStart chatId actorUserId nonce random)
    (trim_trim chatId) hchat (trim_trim actorUserId) hactor hnonce hnonceNe
  unfold buildPrivateKaravanAllowlistStartPayload at hbuild
  dsimp only at hbuild
  generalize karavanStart chatId actorUserId nonce random = start at hbuild hread ⊢
  split at hbuild
  next hvalid =>
    cases hbuild
    have hsignature := isCompactSignature_karavan hmac (encodeRecord (karavanRecord start)) botToken
    have hcut := cutAtLastPoint_append (not_mem_point_encodeRecord (karavanRecord start))
      (not_mem_of_isComponent (isComponent_of_signature hsignature) (by decide))
    have hsigned : (botTokens.any fun token =>
        decide (signKaravanPayload hmac (encodeRecord (karavanRecord start)) botToken =
          signKaravanPayload hmac (encodeRecord (karavanRecord start)) token)) = true :=
      List.any_eq_true.mpr ⟨botToken, hmem, decide_eq_true rfl⟩
    rw [parsePrivateKaravanAllowlistStartPayload, Option.bind_some, hvalid, String.append_assoc,
      String.append_assoc, beginsWith_append, drop_append rfl, ← String.append_assoc, hcut]
    simp only [Bool.not_true, Bool.or_self, Bool.false_eq_true, if_false, lowerCase_of_signature hsignature,
      hsignature, hsigned, encodeRecord_ne, decide_false]
    rw [decodeRecord_karavan, Option.bind_some, hread]
  · cases hbuild

/-- An accepted Karavan payload has a signature of its encoded part. -/
theorem signed_karavan {start : KaravanAllowlist}
    (hparse : parsePrivateKaravanAllowlistStartPayload hmac (some payload) botTokens = some start) :
    ∃ encoded signatureRaw, payload = KARAVAN_ALLOWLIST_START ++ (encoded ++ "." ++ signatureRaw) ∧
      (∃ t ∈ botTokens, lowerCase signatureRaw = signKaravanPayload hmac encoded t) ∧
        (decodeRecord encoded).bind readKaravan = some start := by
  rw [parsePrivateKaravanAllowlistStartPayload, Option.bind_some] at hparse
  split at hparse
  · cases hparse
  next hopens =>
    simp only [Bool.or_eq_true, Bool.not_eq_true', not_or, Bool.not_eq_false] at hopens
    obtain ⟨r, hr⟩ := List.isPrefixOf_iff_prefix.mp hopens.1
    have hpayload : payload = KARAVAN_ALLOWLIST_START ++ String.ofList r := by
      apply String.toList_injective
      rw [String.toList_append, String.toList_ofList, hr]
    split at hparse
    · cases hparse
    next encoded signatureRaw hcut =>
      rw [hpayload, drop_append rfl] at hcut
      have hraw := cutAtLastPoint_eq_some hcut
      dsimp only at hparse
      split at hparse
      · cases hparse
      next hsigned =>
        simp only [Bool.or_eq_true, Bool.not_eq_true', not_or, Bool.not_eq_false] at hsigned
        obtain ⟨t, ht, hsame⟩ := List.any_eq_true.mp hsigned.2
        exact ⟨encoded, signatureRaw, by rw [hpayload, hraw], ⟨t, ht, of_decide_eq_true hsame⟩, hparse⟩

/-! ## Signed texts -/

structure Components where
  words : List String
  ne : words ≠ []
  isComponent : ∀ s ∈ words, IsComponent s

inductive SignedPayload
  | compact (kind : CompactKind) (components : Components)
  | karavan (start : KaravanAllowlist)

def SignedPayload.text : SignedPayload → String
  | .compact kind components => signedText kind.scope components.words
  | .karavan start => signedText KARAVAN_ALLOWLIST_SCOPE [encodeRecord (karavanRecord start)]

def SignedPayload.bytes (p : SignedPayload) : List Nat := utf8Encode p.text.toList

def SignedPayload.words : SignedPayload → List String
  | .compact kind components => kind.scope :: components.words
  | .karavan start => [KARAVAN_ALLOWLIST_SCOPE, encodeRecord (karavanRecord start)]

theorem split_text (p : SignedPayload) : split ':' p.text = p.words := by
  have htext : p.text = join ':' p.words := by
    cases p with
    | compact kind components => exact (join_cons ':' _ components.ne).symm
    | karavan start => exact (join_cons ':' _ (List.cons_ne_nil _ _)).symm
  rw [htext]
  cases p with
  | compact kind components =>
    refine split_join (List.forall_mem_cons.mpr ⟨?_, fun s hs => ?_⟩) (List.cons_ne_nil _ _)
    · cases kind <;> decide +kernel
    · exact not_mem_of_isComponent (components.isComponent s hs) (by decide)
  | karavan start =>
    refine split_join (List.forall_mem_cons.mpr ⟨by decide +kernel, ?_⟩) (List.cons_ne_nil _ _)
    rw [List.forall_mem_singleton]
    exact fun hmem => (isStartChar_of_mem_base64Digits (mem_encodeRecord hmem)).2.2.1 rfl

theorem scope_injective {kind kind' : CompactKind} (h : kind.scope = kind'.scope) : kind = kind' := by
  revert h
  cases kind <;> cases kind' <;> decide +kernel

theorem scope_ne_karavan (kind : CompactKind) : kind.scope ≠ KARAVAN_ALLOWLIST_SCOPE := by
  cases kind <;> decide +kernel

theorem karavanRecord_injective {start start' : KaravanAllowlist}
    (h : encodeRecord (karavanRecord start) = encodeRecord (karavanRecord start')) : start = start' := by
  have hdecoded := congrArg decodeRecord h
  rw [decodeRecord_karavan, decodeRecord_karavan, Option.some.injEq] at hdecoded
  obtain ⟨c, a, n⟩ := start
  obtain ⟨c', a', n'⟩ := start'
  simp [objectOf, karavanRecord, textField, versionField, String.toList_inj] at hdecoded
  obtain ⟨rfl, rfl, rfl⟩ := hdecoded
  rfl

theorem bytes_injective : Function.Injective SignedPayload.bytes := by
  intro p q hbytes
  have htext : p.text = q.text := by
    have hdecoded := congrArg utf8Decode hbytes
    rw [SignedPayload.bytes, SignedPayload.bytes, utf8Decode_utf8Encode, utf8Decode_utf8Encode] at hdecoded
    exact String.toList_injective hdecoded
  have hwords := congrArg (split ':') htext
  rw [split_text, split_text] at hwords
  cases p with
  | compact kind components =>
    cases q with
    | compact kind' components' =>
      obtain ⟨hscope, hcomponents⟩ := List.cons.inj hwords
      obtain rfl := scope_injective hscope
      obtain ⟨words, _, _⟩ := components
      obtain ⟨words', _, _⟩ := components'
      obtain rfl : words = words' := hcomponents
      rfl
    | karavan start => exact absurd (List.cons.inj hwords).1 (scope_ne_karavan kind)
  | karavan start =>
    cases q with
    | compact kind components => exact absurd (List.cons.inj hwords).1.symm (scope_ne_karavan kind)
    | karavan start' =>
      rw [karavanRecord_injective (List.cons.inj (List.cons.inj hwords).2).1]

/-! ## The contract -/

/-- Round trips, strictness of the compact parsers, and what is signed. -/
structure FaithfulPayloads (hmac : Hmac) (botToken : String) (botTokens : List String) : Prop where
  claim : ∀ params payload, buildCompactGiveawayClaimStartPayload hmac params botToken = some payload →
    parseCompactGiveawayClaimStartPayload hmac (some payload) botTokens =
      some ⟨trim params.giveawayId, trim params.winnerId⟩
  /-- A compact handoff, by itself and as a private one; a giveaway `0` is none. -/
  handoff : ∀ params payload, buildCompactGiveawayHandoffStartPayload hmac params botToken = some payload →
    parseCompactGiveawayHandoffStartPayload hmac (some payload) botTokens = some params.trimmed ∧
      parsePrivateGiveawayHandoffStartPayload hmac
        (some (buildPrivateGiveawayHandoffStartPayload hmac params botToken)) botTokens = some params.trimmed
  handoffRecord : ∀ params, buildCompactGiveawayHandoffStartPayload hmac params botToken = none →
    trim params.chatId ≠ "" →
    parsePrivateGiveawayHandoffStartPayload hmac
        (some (buildPrivateGiveawayHandoffStartPayload hmac params botToken)) botTokens =
      some ⟨trim params.chatId, params.entityType, nullableString params.giveawayId⟩
  mention : ∀ params payload, buildCompactProfileMentionStartPayload hmac params botToken = some payload →
    parseCompactProfileMentionStartPayload hmac (some payload) botTokens =
      some ⟨trim params.chatId, params.entityType, trim params.userId⟩
  /-- A compact mention has no display name. -/
  privateMention : ∀ (params : PrivateProfileMention) payload,
    buildCompactProfileMentionStartPayload hmac params.toProfileMention botToken = some payload →
    parsePrivateProfileMentionStartPayload hmac
        (some (buildPrivateProfileMentionStartPayload hmac params botToken)) botTokens =
      some { params.trimmed with displayName := defaultDisplayName }
  mentionRecord : ∀ (params : PrivateProfileMention),
    buildCompactProfileMentionStartPayload hmac params.toProfileMention botToken = none →
    trim params.chatId ≠ "" → trim params.userId ≠ "" →
    parsePrivateProfileMentionStartPayload hmac
        (some (buildPrivateProfileMentionStartPayload hmac params botToken)) botTokens = some params.trimmed
  karavan : ∀ chatId actorUserId nonce random payload,
    buildPrivateKaravanAllowlistStartPayload hmac chatId actorUserId nonce random botToken = some payload →
    trim chatId ≠ "" → trim actorUserId ≠ "" →
    parsePrivateKaravanAllowlistStartPayload hmac (some payload) botTokens =
      some (karavanStart chatId actorUserId nonce random)
  claimStrict : ∀ payload params,
    parseCompactGiveawayClaimStartPayload hmac (some payload) botTokens = some params →
      ∃ t ∈ botTokens, buildCompactGiveawayClaimStartPayload hmac params t = some (lowerSignature payload)
  handoffStrict : ∀ payload params,
    parseCompactGiveawayHandoffStartPayload hmac (some payload) botTokens = some params →
      ∃ t ∈ botTokens, buildCompactGiveawayHandoffStartPayload hmac params t = some (lowerSignature payload)
  mentionStrict : ∀ payload params,
    parseCompactProfileMentionStartPayload hmac (some payload) botTokens = some params →
      ∃ t ∈ botTokens, buildCompactProfileMentionStartPayload hmac params t = some (lowerSignature payload)
  karavanSigned : ∀ payload start,
    parsePrivateKaravanAllowlistStartPayload hmac (some payload) botTokens = some start →
      ∃ encoded signatureRaw, payload = KARAVAN_ALLOWLIST_START ++ (encoded ++ "." ++ signatureRaw) ∧
        (∃ t ∈ botTokens, lowerCase signatureRaw = signKaravanPayload hmac encoded t) ∧
          (decodeRecord encoded).bind readKaravan = some start
  signed : Function.Injective SignedPayload.bytes

theorem payloads_faithful (hmac : Hmac) (hmem : botToken ∈ botTokens) :
    FaithfulPayloads hmac botToken botTokens where
  claim _ _ hbuild := parse_build_giveawayClaim hbuild hmem
  handoff _ _ hbuild := ⟨parse_build_giveawayHandoff hbuild hmem, parse_build_handoffCompact hbuild hmem⟩
  handoffRecord _ hcompact hchat := parse_build_handoffRecord hcompact hchat
  mention _ _ hbuild := parse_build_profileMention hbuild hmem
  privateMention _ _ hbuild := parse_build_mentionCompact hbuild hmem
  mentionRecord _ hcompact hchat huser := parse_build_mentionRecord hcompact hchat huser
  karavan _ _ _ _ _ hbuild hchat hactor := parse_build_karavan hbuild hchat hactor hmem
  claimStrict _ _ hparse := build_parse_giveawayClaim hparse
  handoffStrict _ _ hparse := build_parse_giveawayHandoff hparse
  mentionStrict _ _ hparse := build_parse_profileMention hparse
  karavanSigned _ _ hparse := signed_karavan hparse
  signed := bytes_injective

/-- One digest for every key and message. -/
def constantHmac : Hmac where
  digest _ _ := String.ofList (List.replicate 64 'a')
  length_digest _ _ := by rw [String.toList_ofList, List.length_replicate]
  hex_digest _ _ c hc := by
    rw [String.toList_ofList] at hc
    rw [List.eq_of_mem_replicate hc]
    decide

theorem payloads_faithful_sample : FaithfulPayloads constantHmac "t" ["s", "t"] :=
  payloads_faithful constantHmac (by simp)

/-- A giveaway `0`, the name in a compact mention and a blank chat are lost, and a record is
accepted where its builder writes a compact payload. -/
theorem payloads_unfaithful :
    (¬∀ params payload, buildCompactGiveawayHandoffStartPayload constantHmac params "t" = some payload →
      parseCompactGiveawayHandoffStartPayload constantHmac (some payload) ["t"] =
        some ⟨trim params.chatId, params.entityType, nullableString params.giveawayId⟩) ∧
    (¬∀ params : PrivateProfileMention, parsePrivateProfileMentionStartPayload constantHmac
      (some (buildPrivateProfileMentionStartPayload constantHmac params "t")) ["t"] = some params.trimmed) ∧
    (¬∀ params : GiveawayHandoff, parsePrivateGiveawayHandoffStartPayload constantHmac
      (some (buildPrivateGiveawayHandoffStartPayload constantHmac params "t")) ["t"] =
        some ⟨trim params.chatId, params.entityType, nullableString params.giveawayId⟩) ∧
    ¬∀ payload params, parsePrivateGiveawayHandoffStartPayload constantHmac (some payload) ["t"] = some params →
      ∃ t ∈ ["t"], buildPrivateGiveawayHandoffStartPayload constantHmac params t = lowerSignature payload := by
  refine ⟨fun hall => ?_, fun hall => ?_, fun hall => ?_, fun hall => ?_⟩
  · cases hbuild : buildCompactGiveawayHandoffStartPayload constantHmac ⟨"7", .chat, some "0"⟩ "t" with
    | none => exact absurd (congrArg Option.isSome hbuild) (by decide +kernel)
    | some payload =>
      have hzero := hall _ payload hbuild
      rw [parse_build_giveawayHandoff hbuild (by simp)] at hzero
      exact absurd (congrArg (Option.map GiveawayHandoff.giveawayId) hzero) (by decide +kernel)
  · cases hbuild : buildCompactProfileMentionStartPayload constantHmac ⟨"7", .chat, "8"⟩ "t" with
    | none => exact absurd (congrArg Option.isSome hbuild) (by decide +kernel)
    | some payload =>
      let params : PrivateProfileMention := ⟨⟨"7", .chat, "8"⟩, "Anna"⟩
      have hparse : _ = some { params.trimmed with displayName := defaultDisplayName } :=
        @parse_build_mentionCompact _ "t" payload ["t"] params hbuild (by simp)
      have hname := hparse.symm.trans (hall params)
      exact absurd (congrArg (Option.map PrivateProfileMention.displayName) hname) (by decide +kernel)
  · have hblank := hall ⟨"", .chat, none⟩
    rw [parse_handoffRecord (by decide +kernel), readHandoff_blank (by decide +kernel)] at hblank
    cases hblank
  · let params : GiveawayHandoff := ⟨"7", .chat, none⟩
    have hcompact : buildCompactGiveawayHandoffStartPayload constantHmac params "" = none := rfl
    have htrim : trim params.chatId = "7" := by decide +kernel
    have hparse := @parse_build_handoffRecord _ "" ["t"] params hcompact (by rw [htrim]; decide)
    rw [htrim] at hparse
    obtain ⟨t, ht, hrecord⟩ := hall _ params hparse
    -- A record is longer than a compact payload.
    have hshort : (buildPrivateGiveawayHandoffStartPayload constantHmac params "t").toList.length < 30 := by
      decide +kernel
    have hlong : 30 < (buildPrivateGiveawayHandoffStartPayload constantHmac params "").toList.length := by
      rw [buildPrivateGiveawayHandoffStartPayload, hcompact, Option.getD_none, encodeRecord,
        String.toList_append, String.toList_ofList]
      decide +kernel
    rw [← length_lowerSignature, ← hrecord, List.mem_singleton.mp ht] at hlong
    omega

end Maxim.Moderation.PrivateControl
