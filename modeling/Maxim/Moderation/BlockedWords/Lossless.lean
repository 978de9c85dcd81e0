import Maxim.Moderation.BlockedWords.Index

/-!
# The prefilter and the caches lose nothing but folded writings and colliding keys

What `detectAll` reports is compared with a reference that resolves the list
afresh and tries every pattern. After any calls the caches hold indexes of lists
that were asked for and the patterns of their words.
-/

namespace Maxim.Moderation.BlockedWords

open Maxim.Library

variable (U : Unicode) (collectUrlMatches : Text → List UrlMatch)

/-! ## Words and roots -/

theorem resolveInflectionRootBy_eq_some {suffixes : List Text} {minLength : Nat} {vowels value root : Text}
    (h : resolveInflectionRootBy U suffixes minLength vowels value = some root) :
    minLength ≤ codeUnitLength root ∧ root <+: value := by
  unfold resolveInflectionRootBy at h
  dsimp only at h
  split at h
  · next hsuffix =>
    obtain ⟨suffix, -, hs⟩ := List.exists_of_findSome?_eq_some hsuffix
    split at hs
    · next hroot =>
      cases hs
      cases h
      exact ⟨hroot.2, List.take_prefix _ _⟩
    · cases hs
  · split at h
    · cases h
    · split at h
      · next hlen =>
        cases h
        exact ⟨hlen, List.prefix_rfl⟩
      · cases h

theorem inflectionRoot_eq_some {value root : Text}
    (h : resolveMessageLimitsBlockedWordInflectionRoot U value = some root) : root ≠ [] ∧ root <+: value := by
  have hby : 4 ≤ codeUnitLength root ∧ root <+: value := by
    unfold resolveMessageLimitsBlockedWordInflectionRoot at h
    split at h
    · cases h
    · split at h
      · exact resolveInflectionRootBy_eq_some U h
      · split at h
        · exact resolveInflectionRootBy_eq_some U h
        · cases h
  refine ⟨?_, hby.2⟩
  rintro rfl
  exact absurd hby.1 (by decide)

theorem mem_inflectionRoots {values : List Text} {root : Text} :
    root ∈ resolveMessageLimitsBlockedWordInflectionRoots U values ↔
      ∃ value ∈ values, resolveMessageLimitsBlockedWordInflectionRoot U value = some root := by
  rw [resolveMessageLimitsBlockedWordInflectionRoots, List.mem_eraseDups, List.mem_filterMap]
  refine exists_congr fun value => and_congr_right fun _ => ?_
  rw [Option.filter_eq_some_iff, decide_eq_true_eq]
  exact ⟨And.left, fun h => ⟨h, (inflectionRoot_eq_some U h).1⟩⟩

variable {blockedWords : List Text} {word : ResolvedBlockedWord}

theorem mem_resolveWords :
    word ∈ resolveWords U blockedWords ↔ word = resolveWord U word.blockedWord ∧ word.blockedWord ≠ [] ∧
      ∃ item ∈ blockedWords, normalizeLegacyStopWordIdentity U item = some word.blockedWord := by
  simp only [resolveWords, List.mem_map, List.mem_eraseDups, List.mem_filterMap, Option.filter_eq_some_iff,
    decide_eq_true_eq]
  constructor
  · rintro ⟨b, ⟨_, ⟨item, hitem, rfl⟩, hb, hne⟩, rfl⟩
    exact ⟨rfl, hne, item, hitem, hb⟩
  · rintro ⟨hword, hne, item, hitem, hb⟩
    exact ⟨word.blockedWord, ⟨_, ⟨item, hitem, rfl⟩, hb, hne⟩, hword.symm⟩

theorem resolveWords_unique :
    ∀ w ∈ resolveWords U blockedWords, ∀ w' ∈ resolveWords U blockedWords,
      w.blockedWord = w'.blockedWord → w = w' := by
  intro w hw w' hw' hb
  rw [((mem_resolveWords U).mp hw).1, ((mem_resolveWords U).mp hw').1, hb]

theorem prefilterToken_resolveWord {b : Text} (hb : b ≠ []) :
    (resolveWord U b).prefilterToken ≠ [] ∧ (resolveWord U b).prefilterToken <+: b := by
  rw [resolveWord]
  dsimp only
  cases hroot : resolveMessageLimitsBlockedWordInflectionRoot U b with
  | none => exact ⟨hb, List.prefix_rfl⟩
  | some root => exact inflectionRoot_eq_some U hroot

theorem prefilterToken_ne
    (hword : word ∈ resolveWords U blockedWords) : word.prefilterToken ≠ [] := by
  obtain ⟨heq, hne, -⟩ := (mem_resolveWords U).mp hword
  rw [heq]
  exact (prefilterToken_resolveWord U hne).1

/-! ## The reference -/

def isInflected (normalizedText : Text) (word : ResolvedBlockedWord) : Bool :=
  word.inflectionRoot.any fun root => (normalizedTokensOf U normalizedText).any fun token =>
    resolveMessageLimitsBlockedWordInflectionRoot U token = some root

def isMatched (normalizedText : Text) (word : ResolvedBlockedWord) : Bool :=
  (buildMessageLimitsBlockedWordPattern U word.blockedWord).test normalizedText

/-- The detection of a word, by its pattern first. -/
def verdict (matched inflected : Bool) (word : ResolvedBlockedWord) : Option BlockedWordDetection :=
  if matched then some ⟨word.blockedWord, .pattern⟩
  else if inflected then some ⟨word.blockedWord, .inflection⟩
  else none

/-- Every word of the list, resolved afresh, is tried on the text. -/
def referenceDetections (text : Text) (blockedWords : List Text) : List BlockedWordDetection :=
  let normalizedText := normalizedTextOf U collectUrlMatches text
  (resolveWords U blockedWords).filterMap fun word =>
    verdict (isMatched U normalizedText word) (isInflected U normalizedText word) word

/-- The compact text contains the token of the word, and the token has no surrogate pairs. -/
def isPrefiltered (normalizedText : Text) (word : ResolvedBlockedWord) : Prop :=
  (∀ c ∈ word.prefilterToken, isBmp c = true) ∧ word.prefilterToken <:+: compactTextOf U normalizedText

instance (normalizedText : Text) (word : ResolvedBlockedWord) : Decidable (isPrefiltered U normalizedText word) :=
  inferInstanceAs (Decidable (_ ∧ _))

/-- What the words of an index give: only the patterns that pass the prefilter are tried. -/
def detections (normalizedText : Text) (words : List ResolvedBlockedWord) : List BlockedWordDetection :=
  words.filterMap fun word =>
    verdict (decide (isPrefiltered U normalizedText word) && isMatched U normalizedText word)
      (isInflected U normalizedText word) word

/-! ## The caches -/

theorem Cache.resolve_spec {ν : Type} (P : Text → ν → Prop) (maxEntries : Nat) {build : ν} {key : Text}
    {cache : Cache ν} (hcache : ∀ e ∈ cache, P e.1 e.2) (hbuild : P key build) :
    (∀ e ∈ (Cache.resolve maxEntries build key cache).1, P e.1 e.2) ∧
      P key (Cache.resolve maxEntries build key cache).2 := by
  unfold Cache.resolve
  split
  · next entry hentry =>
    refine ⟨hcache, ?_⟩
    have hP := hcache entry (mem_of_findKey hentry)
    rwa [key_of_findKey hentry] at hP
  · refine ⟨fun e he => ?_, hbuild⟩
    have hmem : e ∈ cache ++ [(key, build)] := by
      dsimp only at he
      split at he
      · exact List.mem_of_mem_tail he
      · exact he
    rcases List.mem_append.mp hmem with hmem | hmem
    · exact hcache e hmem
    · rw [List.mem_singleton.mp hmem]
      exact hbuild

/-- The caches hold indexes of lists that were asked for, and patterns of words. -/
structure Sound (seen : List (List Text)) (d : MessageLimitsBlockedWordDetector) : Prop where
  lists : ∀ e ∈ d.blockedWordListCache, ∃ l ∈ seen, e.1 = buildBlockedWordListCacheKey l ∧
    e.2 = buildIndex (resolveWords U l)
  patterns : ∀ e ∈ d.blockedWordPatternCache, e.2 = buildMessageLimitsBlockedWordPattern U e.1

variable {U} {collectUrlMatches} {seen : List (List Text)} {d : MessageLimitsBlockedWordDetector}

theorem Sound.pattern (h : Sound U seen d) (value : Text) :
    Sound U seen (getMessageLimitsBlockedWordPattern U d value).1 ∧
      (getMessageLimitsBlockedWordPattern U d value).2 = buildMessageLimitsBlockedWordPattern U value := by
  have hbuild : buildMessageLimitsBlockedWordPattern U value = buildMessageLimitsBlockedWordPattern U value := rfl
  have hspec := Cache.resolve_spec (fun key p => p = buildMessageLimitsBlockedWordPattern U key)
    BLOCKED_WORD_PATTERN_CACHE_MAX_ENTRIES h.patterns hbuild
  exact ⟨⟨h.lists, hspec.1⟩, hspec.2⟩

theorem Sound.resolveList (h : Sound U seen d) (blockedWords : List Text) :
    Sound U (seen ++ [blockedWords]) (resolveMessageLimitsBlockedWordList U d blockedWords).1 ∧
      ∃ l ∈ seen ++ [blockedWords], buildBlockedWordListCacheKey blockedWords = buildBlockedWordListCacheKey l ∧
        (resolveMessageLimitsBlockedWordList U d blockedWords).2 = buildIndex (resolveWords U l) := by
  have hcache : ∀ e ∈ d.blockedWordListCache, ∃ l ∈ seen ++ [blockedWords],
      e.1 = buildBlockedWordListCacheKey l ∧ e.2 = buildIndex (resolveWords U l) := by
    intro e he
    obtain ⟨l, hl, hkey⟩ := h.lists e he
    exact ⟨l, List.mem_append_left _ hl, hkey⟩
  have hbuild : ∃ l ∈ seen ++ [blockedWords],
      buildBlockedWordListCacheKey blockedWords = buildBlockedWordListCacheKey l ∧
        buildIndex (resolveWords U blockedWords) = buildIndex (resolveWords U l) :=
    ⟨blockedWords, List.mem_append_right _ (List.mem_singleton.mpr rfl), rfl, rfl⟩
  have hspec := Cache.resolve_spec
    (fun key index => ∃ l ∈ seen ++ [blockedWords], key = buildBlockedWordListCacheKey l ∧
      index = buildIndex (resolveWords U l)) BLOCKED_WORD_LIST_CACHE_MAX_ENTRIES hcache hbuild
  exact ⟨⟨hspec.1, h.patterns⟩, hspec.2⟩

theorem Sound.mono {seen' : List (List Text)} (h : Sound U seen d) (hsub : ∀ l ∈ seen, l ∈ seen') :
    Sound U seen' d :=
  ⟨fun e he => by
    obtain ⟨l, hl, hkey⟩ := h.lists e he
    exact ⟨l, hsub l hl, hkey⟩, h.patterns⟩

/-! ## Detection -/

def reported (stopAfterFirst : Bool) (detections : List BlockedWordDetection) : List BlockedWordDetection :=
  if stopAfterFirst then detections.take 1 else detections

theorem reported_cons (stopAfterFirst : Bool) (x : BlockedWordDetection) (l : List BlockedWordDetection) :
    reported stopAfterFirst (x :: l) = if stopAfterFirst then [x] else x :: reported stopAfterFirst l := by
  cases stopAfterFirst <;> rfl

@[simp] theorem reported_nil (stopAfterFirst : Bool) : reported stopAfterFirst [] = [] := by
  cases stopAfterFirst <;> rfl

def flagVerdict (U : Unicode) (flags : FlagsByWord) (normalizedText : Text) (word : ResolvedBlockedWord) :
    Option BlockedWordDetection :=
  verdict ((flagsOf flags word.blockedWord).prefilter && isMatched U normalizedText word)
    (flagsOf flags word.blockedWord).inflection word

/-- The pattern of a word is tried when the word has passed the prefilter. -/
theorem Sound.reportWords (h : Sound U seen d) (flags : FlagsByWord) (normalizedText : Text)
    (stopAfterFirst : Bool) (words : List ResolvedBlockedWord) :
    Sound U seen (reportWords U flags normalizedText stopAfterFirst words d).1 ∧
      (reportWords U flags normalizedText stopAfterFirst words d).2 =
        reported stopAfterFirst (words.filterMap (flagVerdict U flags normalizedText)) := by
  induction words generalizing d with
  | nil => exact ⟨h, (reported_nil stopAfterFirst).symm⟩
  | cons word rest ih =>
    rw [BlockedWords.reportWords]
    cases hflags : flags.lookup word.blockedWord with
    | none =>
      have hverdict : flagVerdict U flags normalizedText word = none := by
        simp [flagVerdict, verdict, flagsOf, hflags]
      rw [List.filterMap_cons_none hverdict]
      exact ih h
    | some candidate =>
      have hcandidate : flagsOf flags word.blockedWord = candidate := by rw [flagsOf, hflags]; rfl
      -- whether or not the pattern is built, the detector stays sound
      obtain ⟨d', hd', hmatched⟩ : ∃ d', Sound U seen d' ∧
          (if candidate.prefilter then
            ((getMessageLimitsBlockedWordPattern U d word.blockedWord).1,
              (getMessageLimitsBlockedWordPattern U d word.blockedWord).2.test normalizedText)
            else (d, false)) = (d', candidate.prefilter && isMatched U normalizedText word) := by
        cases candidate.prefilter with
        | false => exact ⟨d, h, rfl⟩
        | true =>
          obtain ⟨hsound, hpattern⟩ := h.pattern word.blockedWord
          exact ⟨_, hsound, by rw [if_pos rfl, hpattern]; rfl⟩
      dsimp only
      rw [hmatched]
      have hverdict : flagVerdict U flags normalizedText word =
          (if candidate.prefilter && isMatched U normalizedText word then some MatchKind.pattern
            else if candidate.inflection then some .inflection else none).map
              (BlockedWordDetection.mk word.blockedWord) := by
        rw [flagVerdict, verdict, hcandidate]
        split
        · rfl
        · split <;> rfl
      dsimp only
      split
      · next hnone =>
        rw [hnone] at hverdict
        rw [List.filterMap_cons_none hverdict]
        exact ih hd'
      · next matchKind hsome =>
        rw [hsome] at hverdict
        rw [List.filterMap_cons_some hverdict, reported_cons]
        cases stopAfterFirst with
        | true => exact ⟨hd', rfl⟩
        | false => exact ⟨(ih hd').1, congrArg (_ :: ·) (ih hd').2⟩

theorem isInflected_iff {normalizedText : Text} :
    isInflected U normalizedText word = true ↔
      ∃ root ∈ resolveMessageLimitsBlockedWordInflectionRoots U (normalizedTokensOf U normalizedText),
        word.inflectionRoot = some root := by
  simp only [isInflected, Option.any_eq_true, List.any_eq_true, decide_eq_true_eq, mem_inflectionRoots]
  constructor
  · rintro ⟨root, hroot, token, htoken, heq⟩
    exact ⟨root, ⟨token, htoken, heq⟩, hroot⟩
  · rintro ⟨root, ⟨token, htoken, heq⟩, hroot⟩
    exact ⟨root, hroot, token, htoken, heq⟩

theorem filterMap_flagVerdict (blockedWords : List Text) (normalizedText : Text) :
    (resolveWords U blockedWords).filterMap (flagVerdict U
      (candidateFlagsByBlockedWord (buildIndex (resolveWords U blockedWords))
        (resolveMessageLimitsBlockedWordInflectionRoots U (normalizedTokensOf U normalizedText))
        (findMessageLimitsBlockedWordPrefilterTokens (compactTextOf U normalizedText)
          (buildIndex (resolveWords U blockedWords)).prefilterRoot
          (buildIndex (resolveWords U blockedWords)).maxPrefilterTokenLength)) normalizedText) =
      detections U normalizedText (resolveWords U blockedWords) := by
  have hindex := indexes_buildIndex (resolveWords U blockedWords)
  refine List.filterMap_congr fun word hword => ?_
  have hne := prefilterToken_ne U hword
  obtain ⟨hinflection, hprefilter⟩ := flagsOf_candidateFlags hindex (resolveWords_unique U)
    (fun root hroot => by
      obtain ⟨value, -, hvalue⟩ := (mem_inflectionRoots U).mp hroot
      exact (inflectionRoot_eq_some U hvalue).1) hword
  rw [mem_findPrefilterTokens hindex hword hne, map_some_infix_codeUnits hne] at hprefilter
  rw [← isInflected_iff] at hinflection
  rw [flagVerdict, Bool.eq_iff_iff.mpr hinflection]
  refine congrArg (fun b => verdict (b && _) _ _) ?_
  rw [Bool.eq_iff_iff, hprefilter, decide_eq_true_eq]
  rfl

theorem detections_nil (blockedWords : List Text) : detections U [] (resolveWords U blockedWords) = [] := by
  rw [detections, List.filterMap_eq_nil_iff]
  intro word hword
  have hprefiltered : ¬isPrefiltered U [] word := fun h =>
    prefilterToken_ne U hword (List.eq_nil_of_infix_nil h.2)
  rw [decide_eq_false hprefiltered]
  have hinflected : isInflected U [] word = false := by
    rw [isInflected]
    cases word.inflectionRoot <;> rfl
  rw [hinflected]
  rfl

theorem filterMap_flagVerdict_empty {flags : FlagsByWord} (h : flags.entries = []) (normalizedText : Text)
    (words : List ResolvedBlockedWord) : words.filterMap (flagVerdict U flags normalizedText) = [] := by
  rw [List.filterMap_eq_nil_iff]
  intro word _
  have hflags : flagsOf flags word.blockedWord = {} := by
    rw [flagsOf, AList.lookup, h]
    rfl
  rw [flagVerdict, hflags]
  rfl

theorem normalizedTextOf_nil (U : Unicode) (collectUrlMatches : Text → List UrlMatch) :
    normalizedTextOf U collectUrlMatches [] = [] := rfl

/-- A call reports what the words of a list with the same key give. -/
theorem Sound.detectMatches (h : Sound U seen d) (collectUrlMatches : Text → List UrlMatch) (text : Text)
    (blockedWords : List Text) (stopAfterFirst : Bool) :
    Sound U (seen ++ [blockedWords])
        (detectMatches U collectUrlMatches d text blockedWords stopAfterFirst).1 ∧
      ∃ l ∈ seen ++ [blockedWords], buildBlockedWordListCacheKey blockedWords = buildBlockedWordListCacheKey l ∧
        (detectMatches U collectUrlMatches d text blockedWords stopAfterFirst).2 =
          reported stopAfterFirst
            (detections U (normalizedTextOf U collectUrlMatches text) (resolveWords U l)) := by
  have hlast : blockedWords ∈ seen ++ [blockedWords] := List.mem_append_right _ (List.mem_singleton.mpr rfl)
  rw [BlockedWords.detectMatches]
  split
  · next hnil =>
    refine ⟨h.mono fun l hl => List.mem_append_left _ hl, blockedWords, hlast, rfl, ?_⟩
    rcases hnil with rfl | rfl
    · rw [normalizedTextOf_nil, detections_nil, reported_nil]
    · exact (reported_nil stopAfterFirst).symm
  · obtain ⟨hsound, l, hl, hkey, hindex⟩ := h.resolveList blockedWords
    dsimp only
    rw [hindex, buildIndex_words]
    refine And.imp_right (fun hresult => ⟨l, hl, hkey, hresult⟩) ?_
    split
    · next hwords =>
      rw [hwords]
      exact ⟨hsound, (reported_nil stopAfterFirst).symm⟩
    · split
      · next htext =>
        rw [htext, detections_nil, reported_nil]
        exact ⟨hsound, rfl⟩
      · rw [← filterMap_flagVerdict l]
        generalize normalizedTextOf U collectUrlMatches text = normalizedText
        generalize resolveMessageLimitsBlockedWordInflectionRoots U _ = roots
        generalize findMessageLimitsBlockedWordPrefilterTokens _ _ _ = matched
        split
        · next hnone =>
          rw [hnone.1, hnone.2, filterMap_flagVerdict_empty rfl, reported_nil]
          exact ⟨hsound, rfl⟩
        · split
          · next hflags =>
            rw [filterMap_flagVerdict_empty hflags, reported_nil]
            exact ⟨hsound, rfl⟩
          · exact hsound.reportWords _ normalizedText stopAfterFirst (resolveWords U l)

theorem Sound.run (h : Sound U seen d) (collectUrlMatches : Text → List UrlMatch) (c : Call) :
    Sound U (seen ++ [c.blockedWords]) (c.run U collectUrlMatches d) := by
  rw [Call.run]
  split
  · exact (h.detectMatches collectUrlMatches c.text c.blockedWords false).1
  · exact (h.detectMatches collectUrlMatches c.text c.blockedWords true).1

theorem sound_after (U : Unicode) (collectUrlMatches : Text → List UrlMatch) (calls : List Call) :
    Sound U (calls.map Call.blockedWords) (after U collectUrlMatches calls) := by
  induction calls using List.reverseRecOn with
  | nil => exact ⟨by simp [after], by simp [after]⟩
  | append_singleton calls c ih =>
    rw [after, List.foldl_append, List.map_append]
    exact ih.run collectUrlMatches c

theorem verdict_eq_pattern {matched inflected : Bool} {b : Text} :
    verdict matched inflected word = some ⟨b, .pattern⟩ ↔ matched = true ∧ word.blockedWord = b := by
  cases matched <;> cases inflected <;> simp [verdict]

theorem detections_eq_iff (blockedWords : List Text) (normalizedText : Text) :
    detections U normalizedText (resolveWords U blockedWords) =
        (resolveWords U blockedWords).filterMap (fun word =>
          verdict (isMatched U normalizedText word) (isInflected U normalizedText word) word) ↔
      ∀ word ∈ resolveWords U blockedWords, isMatched U normalizedText word = true →
        isPrefiltered U normalizedText word := by
  constructor
  · intro heq word hword hmatched
    have hmem : ⟨word.blockedWord, .pattern⟩ ∈ detections U normalizedText (resolveWords U blockedWords) := by
      rw [heq]
      exact List.mem_filterMap.mpr ⟨word, hword, verdict_eq_pattern.mpr ⟨hmatched, rfl⟩⟩
    obtain ⟨word', hword', hverdict⟩ := List.mem_filterMap.mp hmem
    obtain ⟨hboth, hb⟩ := verdict_eq_pattern.mp hverdict
    obtain rfl := resolveWords_unique U word' hword' word hword hb
    exact of_decide_eq_true (Bool.and_eq_true_iff.mp hboth).1
  · intro hall
    refine List.filterMap_congr fun word hword => ?_
    cases hmatched : isMatched U normalizedText word with
    | false => rw [Bool.and_false]
    | true => rw [decide_eq_true (hall word hword hmatched), Bool.and_true]

theorem detectAll_eq_detections {history : List Call}
    (hkeys : ∀ c ∈ history,
      buildBlockedWordListCacheKey c.blockedWords = buildBlockedWordListCacheKey blockedWords →
        resolveWords U c.blockedWords = resolveWords U blockedWords)
    (collectUrlMatches : Text → List UrlMatch) (text : Text) :
    (detectAll U collectUrlMatches (after U collectUrlMatches history) text blockedWords).2 =
      detections U (normalizedTextOf U collectUrlMatches text) (resolveWords U blockedWords) := by
  have hsound := sound_after U collectUrlMatches history
  obtain ⟨-, l, hl, hkey, hresult⟩ := hsound.detectMatches collectUrlMatches text blockedWords false
  have hwords : resolveWords U l = resolveWords U blockedWords := by
    rcases List.mem_append.mp hl with hl | hl
    · obtain ⟨c, hc, rfl⟩ := List.mem_map.mp hl
      exact hkeys c hc hkey.symm
    · rw [List.mem_singleton.mp hl]
  rw [detectAll, hresult, hwords]
  rfl

/-- After calls whose lists, where they have the key of this list, resolve to the same words, `detectAll`
reports what the reference does exactly when the compact text contains the token of every word whose
pattern matches. -/
theorem detectAll_lossless (U : Unicode) (collectUrlMatches : Text → List UrlMatch) (history : List Call)
    (text : Text) (blockedWords : List Text)
    (hkeys : ∀ c ∈ history,
      buildBlockedWordListCacheKey c.blockedWords = buildBlockedWordListCacheKey blockedWords →
        resolveWords U c.blockedWords = resolveWords U blockedWords) :
    (detectAll U collectUrlMatches (after U collectUrlMatches history) text blockedWords).2 =
        referenceDetections U collectUrlMatches text blockedWords ↔
      ∀ word ∈ resolveWords U blockedWords,
        (buildMessageLimitsBlockedWordPattern U word.blockedWord).test
            (normalizedTextOf U collectUrlMatches text) = true →
          (∀ c ∈ word.prefilterToken, isBmp c = true) ∧
            word.prefilterToken <:+: compactTextOf U (normalizedTextOf U collectUrlMatches text) := by
  rw [detectAll_eq_detections hkeys, referenceDetections]
  exact detections_eq_iff blockedWords (normalizedTextOf U collectUrlMatches text)

/-- A word of the list is found, with a list of other words asked for before. -/
theorem detectAll_lossless_sample :
    (detectAll Unicode.common (fun _ => [])
        (after Unicode.common (fun _ => []) [⟨true, "лист".toList, ["слово".toList]⟩])
        "это с.л-о в_о".toList ["слово".toList, "дело".toList]).2 =
      referenceDetections Unicode.common (fun _ => []) "это с.л-о в_о".toList
        ["слово".toList, "дело".toList] ∧
    referenceDetections Unicode.common (fun _ => []) "это с.л-о в_о".toList
        ["слово".toList, "дело".toList] = [⟨"слово".toList, .pattern⟩] := by
  refine ⟨(detectAll_lossless Unicode.common (fun _ => []) [⟨true, "лист".toList, ["слово".toList]⟩] _ _ ?_).mpr ?_,
    by decide +kernel⟩
  · intro c hc hkey
    rw [List.mem_singleton.mp hc] at hkey
    exact absurd hkey (by decide +kernel)
  · have hwords : ∀ word ∈ resolveWords Unicode.common ["слово".toList, "дело".toList],
        word.prefilterToken.all isBmp = true ∧
          ((buildMessageLimitsBlockedWordPattern Unicode.common word.blockedWord).test
              (normalizedTextOf Unicode.common (fun _ => []) "это с.л-о в_о".toList) = true →
            word.prefilterToken <:+: compactTextOf Unicode.common
              (normalizedTextOf Unicode.common (fun _ => []) "это с.л-о в_о".toList)) := by
      decide +kernel
    intro word hword hmatched
    obtain ⟨hbmp, htoken⟩ := hwords word hword
    exact ⟨List.all_eq_true.mp hbmp, htoken hmatched⟩

/-- A list whose first word holds the separator leaves its index, which has no words, to the list of the parts. -/
theorem colliding_key_misses :
    (detectAll Unicode.common (fun _ => [])
        (after Unicode.common (fun _ => []) [⟨true, "ab".toList, ["ab\x1fcd".toList]⟩])
        "ab".toList ["ab".toList, "cd".toList]).2 ≠
      referenceDetections Unicode.common (fun _ => []) "ab".toList ["ab".toList, "cd".toList] := by
  decide +kernel

/-! ## Literal matches pass the prefilter -/

theorem mixedChar_of_letterOrNumber {c : Char} (hc : U.letterOrNumber c = true) :
    U.letterOrNumber (mixedChar c) = true := by
  have hvalues : ∀ e ∈ MIXED_CHAR_MAP, 0x430 ≤ e.2.toNat ∧ e.2.toNat ≤ 0x44F := by decide
  rw [mixedChar]
  cases hlookup : MIXED_CHAR_MAP.lookup c with
  | none => exact hc
  | some d =>
    obtain ⟨l, l', heq, -⟩ := List.lookup_eq_some_iff.mp hlookup
    have hmem : (c, d) ∈ MIXED_CHAR_MAP := by rw [heq]; simp
    exact U.letter_of_russian d (hvalues _ hmem).1 (hvalues _ hmem).2

theorem letterOrNumber_of_identity {item b : Text} (h : normalizeLegacyStopWordIdentity U item = some b) :
    ∀ c ∈ b, U.letterOrNumber c = true := by
  obtain ⟨candidate, hcandidate, rfl⟩ := Option.map_eq_some_iff.mp h
  have hletters : ∀ c ∈ candidate, U.letterOrNumber c = true := by
    unfold normalizeMessageLimitsBlockedWordCandidate at hcandidate
    dsimp only at hcandidate
    split at hcandidate
    · cases hcandidate
    · split at hcandidate
      · split at hcandidate
        · next hrun =>
          split at hcandidate
          · cases hcandidate
            exact (runsOf_eq_singleton hrun).2.1
          · cases hcandidate
        · cases hcandidate
      · cases hcandidate
  intro c hc
  obtain ⟨c', hc', rfl⟩ := List.mem_map.mp hc
  exact mixedChar_of_letterOrNumber (hletters c' hc')

end Maxim.Moderation.BlockedWords
