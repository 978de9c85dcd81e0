import Maxim.Moderation.BlockedWords.Detector

/-!
# What the index of a list finds

The trie holds the prefilter token of every word and nothing else, and the two
maps list the words by token and by root. A search reports a token exactly when
the code units of the compact text contain its characters.
-/

namespace Maxim.Moderation.BlockedWords

open Maxim.Library

/-! ## The trie -/

/-- The terminal tokens of the node that a path leads to. -/
def tokensAt : ResolvedBlockedWordTrieNode → Text → List Text
  | n, [] => n.terminalTokens
  | n, c :: path =>
    match n.children c with
    | none => []
    | some next => tokensAt next path

theorem tokensAt_empty (path : Text) : tokensAt .empty path = [] := by
  cases path <;> rfl

theorem tokensAt_getD (child : Option ResolvedBlockedWordTrieNode) (path : Text) :
    tokensAt (child.getD .empty) path = child.elim [] fun next => tokensAt next path := by
  cases child with
  | none => exact tokensAt_empty path
  | some next => rfl

theorem tokensAt_cons (n : ResolvedBlockedWordTrieNode) (c : Char) (path : Text) :
    tokensAt n (c :: path) = (n.children c).elim [] fun next => tokensAt next path := by
  rw [tokensAt]
  cases n.children c <;> rfl

theorem mem_tokensAt_insertFrom {token rest path t : Text} {n : ResolvedBlockedWordTrieNode} :
    t ∈ tokensAt (insertFrom token rest n) path ↔ t ∈ tokensAt n path ∨ t = token ∧ path = rest := by
  induction rest generalizing n path with
  | nil =>
    cases path with
    | nil =>
      rw [insertFrom, tokensAt, tokensAt, ResolvedBlockedWordTrieNode.terminalTokens]
      split
      · next hmem =>
        refine ⟨.inl, ?_⟩
        rintro (h | ⟨rfl, -⟩)
        · exact h
        · exact hmem
      · rw [List.mem_append, List.mem_singleton]
        simp
    | cons c path => simp [insertFrom, tokensAt_cons, ResolvedBlockedWordTrieNode.children]
  | cons d rest ih =>
    cases path with
    | nil => simp [insertFrom, tokensAt, ResolvedBlockedWordTrieNode.terminalTokens]
    | cons c path =>
      rw [insertFrom, tokensAt_cons, tokensAt_cons, ResolvedBlockedWordTrieNode.children]
      by_cases hc : c = d
      · subst hc
        rw [Function.update_self, Option.elim_some, ih, tokensAt_getD]
        simp
      · rw [Function.update_of_ne hc]
        simp [hc]

/-- The tokens on a way are those at the ends of its beginnings. -/
theorem mem_tokensOnWay {n : ResolvedBlockedWordTrieNode} {units : List (Option Char)} {t : Text} :
    t ∈ tokensOnWay n units ↔ ∃ path, path ≠ [] ∧ path.map some <+: units ∧ t ∈ tokensAt n path := by
  induction units generalizing n with
  | nil =>
    constructor
    · intro h
      cases h
    · rintro ⟨path, hne, hbegins, -⟩
      exact absurd (List.map_eq_nil_iff.mp (List.prefix_nil.mp hbegins)) hne
  | cons unit units ih =>
    rw [tokensOnWay]
    constructor
    · intro h
      split at h
      · cases h
      · next next hnext =>
        obtain ⟨c, rfl, hchild⟩ := Option.bind_eq_some_iff.mp hnext
        rcases List.mem_append.mp h with h | h
        · refine ⟨[c], List.cons_ne_nil _ _, ⟨units, rfl⟩, ?_⟩
          rw [tokensAt_cons, hchild]
          exact h
        · obtain ⟨path, -, ⟨v, hv⟩, hpath⟩ := ih.mp h
          refine ⟨c :: path, List.cons_ne_nil _ _, ⟨v, by rw [List.map_cons, List.cons_append, hv]⟩, ?_⟩
          rw [tokensAt_cons, hchild]
          exact hpath
    · rintro ⟨path, hne, ⟨v, hv⟩, hpath⟩
      obtain ⟨c, path, rfl⟩ := List.exists_cons_of_ne_nil hne
      rw [List.map_cons, List.cons_append] at hv
      obtain ⟨rfl, hrest⟩ := List.cons.inj hv
      rw [tokensAt_cons] at hpath
      rw [Option.bind_some]
      cases hchild : n.children c with
      | none =>
        rw [hchild] at hpath
        cases hpath
      | some next =>
        rw [hchild, Option.elim_some] at hpath
        dsimp only
        rw [List.mem_append]
        cases path with
        | nil => exact .inl hpath
        | cons d path => exact .inr (ih.mpr ⟨d :: path, List.cons_ne_nil _ _, ⟨v, hrest⟩, hpath⟩)

/-! ## The index -/

/-- What an index of these words holds. -/
structure Indexes (words : List ResolvedBlockedWord) (index : ResolvedBlockedWordIndex) : Prop where
  tokens : ∀ t path, t ∈ tokensAt index.prefilterRoot path ↔ path = t ∧ ∃ w ∈ words, w.prefilterToken = t
  lengths : ∀ w ∈ words, codeUnitLength w.prefilterToken ≤ index.maxPrefilterTokenLength
  byToken : ∀ key, (index.wordsByPrefilterToken.lookup key).getD [] =
    words.filter fun w => w.prefilterToken = key
  byRoot : ∀ key, key ≠ [] → (index.wordsByInflectionRoot.lookup key).getD [] =
    words.filter fun w => w.inflectionRoot = some key

theorem lookup_push (t : Table Text (List ResolvedBlockedWord)) (key key' : Text) (word : ResolvedBlockedWord) :
    ((push t key word).lookup key').getD [] =
      (t.lookup key').getD [] ++ [word].filter fun _ => key = key' := by
  rw [push]
  by_cases hk : key' = key
  · subst hk
    simp
  · rw [AList.lookup_insert_ne hk, List.filter_cons_of_neg (by simpa using fun h => hk h.symm)]
    simp

variable {words : List ResolvedBlockedWord} {index : ResolvedBlockedWordIndex}

theorem Indexes.addWord
    (h : Indexes words index) (word : ResolvedBlockedWord) : Indexes (words ++ [word]) (addWord index word) where
  tokens t path := by
    rw [BlockedWords.addWord, insertMessageLimitsBlockedWordPrefilterToken, mem_tokensAt_insertFrom, h.tokens]
    simp only [List.mem_append, List.mem_singleton]
    constructor
    · rintro (⟨rfl, w, hw, ht⟩ | ⟨rfl, rfl⟩)
      · exact ⟨rfl, w, .inl hw, ht⟩
      · exact ⟨rfl, word, .inr rfl, rfl⟩
    · rintro ⟨rfl, w, hw | rfl, ht⟩
      · exact .inl ⟨rfl, w, hw, ht⟩
      · exact .inr ⟨ht.symm, ht.symm⟩
  lengths w hw := by
    rw [BlockedWords.addWord]
    rcases List.mem_append.mp hw with hw | hw
    · exact (h.lengths w hw).trans (Nat.le_max_left _ _)
    · rw [List.mem_singleton.mp hw]
      exact Nat.le_max_right _ _
  byToken key := by
    rw [BlockedWords.addWord, lookup_push, h.byToken, List.filter_append]
    simp [List.filter_cons]
  byRoot key hkey := by
    rw [BlockedWords.addWord, List.filter_append, ← h.byRoot key hkey]
    dsimp only
    split
    · next hroot => simp [hroot]
    · next root hroot =>
      split
      · next hnil => simp [hroot, hnil, hkey.symm]
      · rw [lookup_push]
        simp [hroot, List.filter_cons]

theorem indexes_foldl {seen : List ResolvedBlockedWord}
    (h : Indexes seen index) : Indexes (seen ++ words) (words.foldl addWord index) := by
  induction words generalizing seen index with
  | nil =>
    rw [List.append_nil]
    exact h
  | cons word words ih =>
    have hrest := ih (h.addWord word)
    rwa [List.append_assoc, List.singleton_append] at hrest

theorem indexes_buildIndex (words : List ResolvedBlockedWord) : Indexes words (buildIndex words) := by
  refine List.nil_append words ▸ indexes_foldl ⟨fun t path => ?_, by simp, fun key => by simp, fun key _ => by simp⟩
  simp [tokensAt_empty]

theorem words_foldl (words : List ResolvedBlockedWord) (index : ResolvedBlockedWordIndex) :
    (words.foldl addWord index).words = index.words := by
  induction words generalizing index with
  | nil => rfl
  | cons word words ih => exact ih _

@[simp] theorem buildIndex_words (words : List ResolvedBlockedWord) : (buildIndex words).words = words :=
  words_foldl words _

/-- A search finds the token of a word exactly when the code units contain it. -/
theorem mem_findPrefilterTokens
    (h : Indexes words index) {word : ResolvedBlockedWord} (hword : word ∈ words)
    (hne : word.prefilterToken ≠ []) (compactText : Text) :
    word.prefilterToken ∈ findMessageLimitsBlockedWordPrefilterTokens compactText index.prefilterRoot
        index.maxPrefilterTokenLength ↔
      word.prefilterToken.map some <:+: codeUnits compactText := by
  have hlength := h.lengths word hword
  rw [findMessageLimitsBlockedWordPrefilterTokens]
  constructor
  · intro ht
    split at ht
    · cases ht
    · rw [List.mem_eraseDups, List.mem_flatMap] at ht
      obtain ⟨start, -, ht⟩ := ht
      obtain ⟨path, -, hbegins, htokens⟩ := mem_tokensOnWay.mp ht
      obtain ⟨rfl, -⟩ := (h.tokens _ path).mp htokens
      exact (hbegins.trans (List.take_prefix _ _)).isInfix.trans (List.drop_suffix _ _).isInfix
  · intro hcontains
    have hbmp := ((map_some_infix_codeUnits hne).mp hcontains).1
    have hunits : codeUnitLength word.prefilterToken = word.prefilterToken.length := by
      rw [codeUnitLength, codeUnits_of_bmp hbmp, List.length_map]
    have hpos := List.length_pos_iff.mpr hne
    obtain ⟨u, v, huv⟩ := hcontains
    rw [List.append_assoc] at huv
    have hlen : (codeUnits compactText).length = u.length + (word.prefilterToken.length + v.length) := by
      rw [← huv, List.length_append, List.length_append, List.length_map]
    rw [if_neg, List.mem_eraseDups, List.mem_flatMap]
    · refine ⟨u.length, List.mem_range.mpr (by omega), mem_tokensOnWay.mpr ⟨word.prefilterToken, hne, ?_, ?_⟩⟩
      · rw [← huv, List.drop_left]
        exact List.prefix_take_iff.mpr ⟨List.prefix_append _ _, by rw [List.length_map]; omega⟩
      · exact (h.tokens _ _).mpr ⟨rfl, word, hword, rfl⟩
    · rintro (rfl | hmax)
      · rw [codeUnits, List.flatMap_nil, List.length_nil] at hlen
        omega
      · omega

/-! ## Flags -/

def flagsOf (t : FlagsByWord) (blockedWord : Text) : CandidateFlags := (t.lookup blockedWord).getD {}

theorem flagsOf_flagWord (flag : CandidateFlags → CandidateFlags) (t : FlagsByWord) (word : ResolvedBlockedWord)
    (b : Text) : flagsOf (flagWord flag t word) b = if b = word.blockedWord then flag (flagsOf t b) else flagsOf t b := by
  rw [flagsOf, flagWord]
  split
  · next hb =>
    subst hb
    rw [AList.lookup_insert]
    rfl
  · next hb => rw [AList.lookup_insert_ne hb, flagsOf]

theorem flagsOf_foldl {flag : CandidateFlags → CandidateFlags} (hflag : ∀ f, flag (flag f) = flag f)
    (words : List ResolvedBlockedWord) (t : FlagsByWord) (b : Text) :
    flagsOf (words.foldl (flagWord flag) t) b =
      if ∃ w ∈ words, w.blockedWord = b then flag (flagsOf t b) else flagsOf t b := by
  induction words generalizing t with
  | nil => simp
  | cons word words ih =>
    rw [List.foldl_cons, ih, flagsOf_flagWord]
    by_cases hb : b = word.blockedWord
    · subst hb
      simp [hflag]
    · have hb' : ¬word.blockedWord = b := fun h => hb h.symm
      simp [hb, hb']

theorem flagsOf_flagWords {flag : CandidateFlags → CandidateFlags} (hflag : ∀ f, flag (flag f) = flag f)
    (wordsByKey : Table Text (List ResolvedBlockedWord)) (keys : List Text) (t : FlagsByWord) (b : Text) :
    flagsOf (flagWords flag wordsByKey keys t) b =
      if ∃ key ∈ keys, ∃ w ∈ (wordsByKey.lookup key).getD [], w.blockedWord = b then flag (flagsOf t b)
      else flagsOf t b := by
  rw [flagWords, ← List.foldl_flatMap, flagsOf_foldl hflag]
  refine if_congr ?_ rfl rfl
  simp only [List.mem_flatMap]
  constructor
  · rintro ⟨w, ⟨key, hkey, hw⟩, hb⟩
    exact ⟨key, hkey, w, hw, hb⟩
  · rintro ⟨key, hkey, w, hw, hb⟩
    exact ⟨w, ⟨key, hkey, hw⟩, hb⟩

theorem withPrefilter_idem (f : CandidateFlags) : f.withPrefilter.withPrefilter = f.withPrefilter := rfl

theorem withInflection_idem (f : CandidateFlags) : f.withInflection.withInflection = f.withInflection := rfl

/-- The flags of a word say whether a root of the text is its root, and whether its token was found. -/
theorem flagsOf_candidateFlags
    (h : Indexes words index) (hwords : ∀ w ∈ words, ∀ w' ∈ words, w.blockedWord = w'.blockedWord → w = w')
    {roots matched : List Text} (hroots : ∀ root ∈ roots, root ≠ []) {word : ResolvedBlockedWord}
    (hword : word ∈ words) :
    let f := flagsOf (candidateFlagsByBlockedWord index roots matched) word.blockedWord
    (f.inflection = true ↔ ∃ root ∈ roots, word.inflectionRoot = some root) ∧
      (f.prefilter = true ↔ word.prefilterToken ∈ matched) := by
  have hroot : (∃ key ∈ roots, ∃ w ∈ (index.wordsByInflectionRoot.lookup key).getD [],
      w.blockedWord = word.blockedWord) ↔ ∃ root ∈ roots, word.inflectionRoot = some root := by
    refine exists_congr fun key => and_congr_right fun hkey => ?_
    rw [h.byRoot key (hroots key hkey)]
    simp only [List.mem_filter, decide_eq_true_eq]
    constructor
    · rintro ⟨w, ⟨hw, hwroot⟩, hb⟩
      rwa [← hwords w hw word hword hb]
    · exact fun hkey => ⟨word, ⟨hword, hkey⟩, rfl⟩
  have htoken : (∃ key ∈ matched, ∃ w ∈ (index.wordsByPrefilterToken.lookup key).getD [],
      w.blockedWord = word.blockedWord) ↔ word.prefilterToken ∈ matched := by
    constructor
    · rintro ⟨key, hkey, w, hw, hb⟩
      rw [h.byToken] at hw
      simp only [List.mem_filter, decide_eq_true_eq] at hw
      rwa [← hwords w hw.1 word hword hb, hw.2]
    · intro hmem
      refine ⟨_, hmem, word, ?_, rfl⟩
      rw [h.byToken]
      simp [hword]
  have hempty : flagsOf ∅ word.blockedWord = {} := rfl
  dsimp only
  rw [candidateFlagsByBlockedWord, flagsOf_flagWords withPrefilter_idem, flagsOf_flagWords withInflection_idem,
    hempty]
  simp only [htoken, hroot]
  constructor
  · split <;> split <;> simp [*, CandidateFlags.withPrefilter, CandidateFlags.withInflection]
  · split <;> split <;> simp [*, CandidateFlags.withPrefilter, CandidateFlags.withInflection]

end Maxim.Moderation.BlockedWords
