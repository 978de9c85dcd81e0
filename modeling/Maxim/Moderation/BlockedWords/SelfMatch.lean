import Mathlib.Data.List.SplitBy
import Maxim.Moderation.BlockedWords.Lossless

/-!
# A blocked word on its own

The text of a word is the fragment of the word between characters that are
neither letters nor numbers. A word catches itself when the normalization of the
text keeps it so: the neighbours of the fragment do not become letters, and the
fragment has no runs to collapse and no surrogate pairs in its token.
-/

namespace Maxim.Moderation.BlockedWords

open Maxim.Library

variable {U : Unicode}

/-! ## Collapsing -/

theorem letterOrNumberFolded_congr {c d : Char} (h : U.fold c = U.fold d) :
    U.letterOrNumberFolded c = U.letterOrNumberFolded d := by
  rw [Bool.eq_iff_iff, U.letterOrNumberFolded_iff, U.letterOrNumberFolded_iff, h]

theorem mem_of_mem_cutRun {run : Text} {c : Char} (hc : c ∈ cutRun U run) : c ∈ run := by
  unfold cutRun at hc
  split at hc
  · split at hc
    · simp only [List.mem_cons, List.not_mem_nil, or_false, or_self] at hc
      exact List.mem_cons.mpr (.inl hc)
    · exact hc
  · exact hc

theorem head_cutRun (run : Text) : (cutRun U run).head? = run.head? := by
  unfold cutRun
  split
  · split <;> rfl
  · rfl

theorem fold_of_mem_run {value run : Text} (hrun : run ∈ value.splitBy fun a b => U.fold a == U.fold b)
    {c d : Char} (hc : c ∈ run) (hd : d ∈ run) : U.fold c = U.fold d := by
  have hpairwise : run.Pairwise fun a b => U.fold a = U.fold b := by
    refine List.isChain_iff_pairwise.mp ((List.isChain_of_mem_splitBy hrun).imp fun a b h => eq_of_beq h)
  have hsame (a : Char) (rest : Text) (h : (a :: rest).Pairwise fun a b => U.fold a = U.fold b) :
      ∀ e ∈ a :: rest, U.fold e = U.fold a := by
    intro e he
    rcases List.mem_cons.mp he with rfl | he
    · rfl
    · exact ((List.pairwise_cons.mp h).1 e he).symm
  cases run with
  | nil => cases hc
  | cons a rest => rw [hsame a rest hpairwise c hc, hsame a rest hpairwise d hd]

theorem head_collapseRepeats (value : Text) : (collapseRepeats U value).head? = value.head? := by
  by_cases hne : value = []
  · rw [hne]
    rfl
  · have hhead := List.head_head_splitBy (fun a b => U.fold a == U.fold b) hne
    obtain ⟨run, runs, hruns⟩ := List.exists_cons_of_ne_nil
      (List.splitBy_ne_nil (r := fun a b => U.fold a == U.fold b) |>.mpr hne)
    have hrunne : run ≠ [] := List.ne_nil_of_mem_splitBy (hruns ▸ List.mem_cons_self)
    obtain ⟨c, rest, rfl⟩ := List.exists_cons_of_ne_nil hrunne
    simp only [hruns, List.head_cons] at hhead
    have hcut := head_cutRun (U := U) (c :: rest)
    obtain ⟨d, rest', hd⟩ : ∃ d rest', cutRun U (c :: rest) = d :: rest' := by
      cases hcut' : cutRun U (c :: rest) with
      | nil =>
        rw [hcut'] at hcut
        cases hcut
      | cons d rest' => exact ⟨d, rest', rfl⟩
    rw [hd] at hcut
    rw [collapseRepeats, hruns, List.flatMap_cons, hd, List.cons_append, List.head?_cons,
      List.head?_eq_some_head hne, ← hhead]
    exact hcut

theorem getLast_collapseRepeats {value : Text} {c : Char} (hc : (collapseRepeats U value).getLast? = some c) :
    ∃ d, value.getLast? = some d ∧ U.fold c = U.fold d := by
  have hne : value ≠ [] := by
    rintro rfl
    cases hc
  have hruns := List.splitBy_ne_nil (r := fun a b => U.fold a == U.fold b) |>.mpr hne
  have hlast := List.getLast_getLast_splitBy (fun a b => U.fold a == U.fold b) hne
  have hmem := List.getLast_mem hruns
  have hcut : cutRun U ((value.splitBy fun a b => U.fold a == U.fold b).getLast hruns) ≠ [] := by
    intro hnil
    have hhead := head_cutRun (U := U) ((value.splitBy fun a b => U.fold a == U.fold b).getLast hruns)
    rw [hnil] at hhead
    exact List.ne_nil_of_mem_splitBy hmem (List.head?_eq_none_iff.mp hhead.symm)
  rw [collapseRepeats, ← List.dropLast_append_getLast hruns, List.flatMap_append, List.flatMap_singleton,
    List.getLast?_append_of_ne_nil _ hcut] at hc
  refine ⟨value.getLast hne, List.getLast?_eq_some_getLast hne, ?_⟩
  rw [← hlast]
  exact fold_of_mem_run hmem (mem_of_mem_cutRun (List.mem_of_getLast? hc)) (List.getLast_mem _)

theorem collapseRepeats_append {x y : Text}
    (h : ∀ c ∈ x.getLast?, ∀ d ∈ y.head?, (U.fold c == U.fold d) = false) :
    collapseRepeats U (x ++ y) = collapseRepeats U x ++ collapseRepeats U y := by
  rw [collapseRepeats, List.splitBy_append h, List.flatMap_append]
  rfl

/-! ## The text of a word -/

theorem mixedChar_ne_yo {c : Char} (hc : c ≠ 'ё') : mixedChar c ≠ 'ё' := by
  have hvalues : ∀ e ∈ MIXED_CHAR_MAP, e.2 ≠ 'ё' := by decide
  rw [mixedChar]
  cases hlookup : MIXED_CHAR_MAP.lookup c with
  | none => exact hc
  | some d =>
    obtain ⟨l, l', heq, -⟩ := List.lookup_eq_some_iff.mp hlookup
    exact hvalues (c, d) (by rw [heq]; simp)

theorem yo_mixedChar (c : Char) : yo (mixedChar c) = mixedChar (yo c) := by
  by_cases hc : c = 'ё'
  · rw [hc]
    decide
  · rw [yo, if_neg (mixedChar_ne_yo hc), yo, if_neg hc]

theorem map_yo_normalizeMixedWriting (value : Text) :
    (normalizeMixedWriting value).map yo = normalizeMixedWriting (value.map yo) := by
  rw [normalizeMixedWriting, normalizeMixedWriting, List.map_map, List.map_map]
  exact List.map_congr_left fun c _ => yo_mixedChar c

theorem isSpace_yo (c : Char) : isSpace (yo c) = isSpace c := by
  rw [yo]
  split
  · next hc =>
    rw [hc]
    decide
  · rfl

def loweredWord (U : Unicode) (w : Text) : Text := (U.toLowerCase (trimSpace w)).map yo

def beforeFragment (U : Unicode) (w : Text) : Text := (loweredWord U w).takeWhile fun c => !U.letterOrNumber c

def afterFragment (U : Unicode) (w : Text) : Text :=
  ((loweredWord U w).dropWhile fun c => !U.letterOrNumber c).dropWhile U.letterOrNumber

theorem candidate_eq_some {w candidate : Text}
    (h : normalizeMessageLimitsBlockedWordCandidate U w = some candidate) :
    candidate ≠ [] ∧ (∀ c ∈ candidate, U.letterOrNumber c = true) ∧ (∀ c ∈ trimSpace w, isSpace c = false) ∧
      loweredWord U w = beforeFragment U w ++ (candidate ++ afterFragment U w) := by
  unfold normalizeMessageLimitsBlockedWordCandidate at h
  dsimp only at h
  split at h
  · cases h
  · next hlowered =>
    split at h
    · next part hpart =>
      split at h
      · next candidate' hfragment =>
        split at h
        · cases h
          have hvisible := U.visible_of_one_run isSpace_yo (fun c hc => trimSpace_head hc)
            (fun c hc => trimSpace_getLast hc) hpart
          have hall : ∀ c ∈ loweredWord U w, (!isSpace c) = true := by
            intro c hc
            obtain ⟨d, hd, rfl⟩ := List.mem_map.mp hc
            rw [isSpace_yo, U.toLowerCase_visible hvisible d hd]
            rfl
          have hwhole := runsOf_append (p := fun c => !isSpace c) (x := loweredWord U w) (y := []) hlowered hall
            (by simp)
          rw [List.append_nil] at hwhole
          obtain rfl : loweredWord U w = part := (List.cons.inj (hwhole.symm.trans hpart)).1
          obtain ⟨hne, hletters, hfirst, -⟩ := runsOf_eq_singleton hfragment
          refine ⟨hne, hletters, hvisible, ?_⟩
          rw [← hfirst]
          exact first_run U.letterOrNumber (loweredWord U w)
        · cases h
      · cases h
    · cases h

theorem stripUrlsFromText_word {collectUrlMatches : Text → List UrlMatch} {w : Text}
    (hurls : collectUrlMatches w = []) (hne : trimSpace w ≠ []) (hvisible : ∀ c ∈ trimSpace w, isSpace c = false) :
    stripUrlsFromText collectUrlMatches w = trimSpace w := by
  obtain ⟨x, z, hw, hx, hz⟩ := exists_trimSpace w
  rw [stripUrlsFromText, if_neg, hurls]
  · generalize trimSpace w = core at hne hvisible hw
    subst hw
    dsimp only
    rw [squeezeSpace_append hne hvisible, squeezeSpace_append_visible hvisible]
    exact trimSpace_append hne (squeezeSpace_of_space hx) hvisible (squeezeSpace_of_space hz)
  · rintro rfl
    exact hne rfl

/-! ## A word catches itself -/

/-- The normalization of the text leaves the word standing alone. -/
structure StandsAlone (U : Unicode) (w candidate : Text) : Prop where
  before : ∀ c ∈ (normalizeMixedWriting (beforeFragment U w)).getLast?, U.letterOrNumberFolded c = false
  after : ∀ c ∈ (normalizeMixedWriting (afterFragment U w)).head?, U.letterOrNumberFolded c = false
  collapsed : collapseRepeats U (normalizeMixedWriting candidate) = normalizeMixedWriting candidate
  bmp : ∀ c ∈ (resolveWord U (normalizeMixedWriting candidate)).prefilterToken, isBmp c = true

theorem matches_joinPattern (value b a : Text) : Regex.Matches (joinPattern U value) b value a := by
  induction value generalizing b with
  | nil => exact .empty
  | cons c rest ih =>
    cases rest with
    | nil => exact .one (beq_self_eq_true _)
    | cons c' rest => exact .seq (v := [c]) (.one (beq_self_eq_true _)) (.seq (v := []) .done (ih _))

theorem isMatched_between {x value y : Text} (hx : ∀ c ∈ x.getLast?, U.letterOrNumberFolded c = false)
    (hy : ∀ c ∈ y.head?, U.letterOrNumberFolded c = false) :
    (buildMessageLimitsBlockedWordPattern U value).test (x ++ (value ++ y)) = true := by
  have hbehind : Regex.fits [U.letterOrNumberFolded] x.reverse = false := by
    cases hrev : x.reverse with
    | nil => rfl
    | cons c rest =>
      have hlast : x.getLast? = some c := by rw [← List.head?_reverse, hrev]; rfl
      rw [Regex.fits, hx c hlast]
      rfl
  have hahead : Regex.fits [U.letterOrNumberFolded] y = false := by
    cases y with
    | nil => rfl
    | cons c rest =>
      rw [Regex.fits, hy c rfl]
      rfl
  have hword : Regex.Matches (.seq (joinPattern U value) (.notAhead [U.letterOrNumberFolded])) x.reverse value y := by
    have h := Regex.Matches.seq (w := []) (matches_joinPattern (U := U) value x.reverse ([] ++ y)) (.notAhead hahead)
    rwa [List.append_nil] at h
  exact Regex.test_iff.mpr ⟨x, value, y, rfl, .seq (v := []) (.notBehind hbehind) hword⟩

theorem normalizedTextOf_word {collectUrlMatches : Text → List UrlMatch} {w candidate : Text}
    (hcandidate : normalizeMessageLimitsBlockedWordCandidate U w = some candidate)
    (hurls : collectUrlMatches w = [])
    (hcode : (BLOCKED_WORD_ARTICLE_CODE_PATTERN U).test (stripUrlsFromText collectUrlMatches w) = false)
    (hself : StandsAlone U w candidate) :
    normalizedTextOf U collectUrlMatches w =
      collapseRepeats U (normalizeMixedWriting (beforeFragment U w)) ++
        (normalizeMixedWriting candidate ++ collapseRepeats U (normalizeMixedWriting (afterFragment U w))) := by
  obtain ⟨hne, hletters, hvisible, hlowered⟩ := candidate_eq_some hcandidate
  have hcore : trimSpace w ≠ [] := by
    intro hnil
    have hlength := congrArg List.length hlowered
    have hpos := List.length_pos_iff.mpr hne
    rw [loweredWord, hnil] at hlength
    simp only [List.length_append] at hlength
    exact absurd hlength (by
      have : ((U.toLowerCase []).map yo).length = 0 := rfl
      omega)
  have hmapped {c : Char} (hc : c ∈ normalizeMixedWriting candidate) : U.letterOrNumberFolded c = true := by
    obtain ⟨d, hd, rfl⟩ := List.mem_map.mp hc
    exact U.letterOrNumberFolded_of (mixedChar_of_letterOrNumber (hletters d hd))
  have hapart {c d : Char} (hc : U.letterOrNumberFolded c ≠ U.letterOrNumberFolded d) :
      (U.fold c == U.fold d) = false :=
    beq_eq_false_iff_ne.mpr fun h => hc (letterOrNumberFolded_congr h)
  have hmixed : normalizeMixedWriting candidate ≠ [] := by simpa [normalizeMixedWriting] using hne
  rw [normalizedTextOf, stripMessageLimitsBlockedWordIgnoredTokens, Regex.replaceAll_of_not_test hcode,
    stripUrlsFromText_word hurls hcore hvisible, normalizeMessageLimitsBlockedWordText, if_neg hcore,
    map_yo_normalizeMixedWriting]
  change collapseRepeats U (normalizeMixedWriting (loweredWord U w)) = _
  rw [hlowered, normalizeMixedWriting, List.map_append, List.map_append, ← normalizeMixedWriting,
    ← normalizeMixedWriting, ← normalizeMixedWriting, collapseRepeats_append, collapseRepeats_append,
    hself.collapsed]
  · intro c hc d hd
    exact hapart (by rw [hmapped (List.mem_of_getLast? hc), hself.after d hd]; decide)
  · intro c hc d hd
    rw [List.head?_append_of_ne_nil _ hmixed] at hd
    exact hapart (by rw [hmapped (List.mem_of_head? hd), hself.before c hc]; decide)

/-- A word that stands alone in its own text is reported by its pattern, after calls whose lists, where they
have the key of this list, resolve to the same words. -/
theorem word_catches_itself (U : Unicode) (collectUrlMatches : Text → List UrlMatch) (history : List Call)
    (blockedWords : List Text) (w candidate : Text) (hmem : w ∈ blockedWords)
    (hcandidate : normalizeMessageLimitsBlockedWordCandidate U w = some candidate)
    (hurls : collectUrlMatches w = [])
    (hcode : (BLOCKED_WORD_ARTICLE_CODE_PATTERN U).test (stripUrlsFromText collectUrlMatches w) = false)
    (hkeys : ∀ c ∈ history,
      buildBlockedWordListCacheKey c.blockedWords = buildBlockedWordListCacheKey blockedWords →
        resolveWords U c.blockedWords = resolveWords U blockedWords)
    (hself : StandsAlone U w candidate) :
    ⟨normalizeMixedWriting candidate, .pattern⟩ ∈
      (detectAll U collectUrlMatches (after U collectUrlMatches history) w blockedWords).2 := by
  obtain ⟨hne, hletters, -, -⟩ := candidate_eq_some hcandidate
  have hmixed : normalizeMixedWriting candidate ≠ [] := by simpa [normalizeMixedWriting] using hne
  have hidentity : normalizeLegacyStopWordIdentity U w = some (normalizeMixedWriting candidate) := by
    rw [normalizeLegacyStopWordIdentity, hcandidate, Option.map_some]
  have hword : resolveWord U (normalizeMixedWriting candidate) ∈ resolveWords U blockedWords :=
    (mem_resolveWords U).mpr ⟨rfl, hmixed, w, hmem, hidentity⟩
  have hbefore : ∀ c ∈ (collapseRepeats U (normalizeMixedWriting (beforeFragment U w))).getLast?,
      U.letterOrNumberFolded c = false := by
    intro c hc
    obtain ⟨d, hd, hfold⟩ := getLast_collapseRepeats hc
    rw [letterOrNumberFolded_congr hfold, hself.before d hd]
  have hafter : ∀ c ∈ (collapseRepeats U (normalizeMixedWriting (afterFragment U w))).head?,
      U.letterOrNumberFolded c = false := by
    intro c hc
    rw [head_collapseRepeats] at hc
    exact hself.after c hc
  have htoken : (resolveWord U (normalizeMixedWriting candidate)).prefilterToken <:+:
      compactTextOf U (normalizedTextOf U collectUrlMatches w) := by
    have hwhole : (normalizeMixedWriting candidate).filter U.letterOrNumber = normalizeMixedWriting candidate :=
      List.filter_eq_self.mpr (letterOrNumber_of_identity hidentity)
    rw [normalizedTextOf_word hcandidate hurls hcode hself, compactTextOf, List.filter_append, List.filter_append,
      hwhole, ← List.append_assoc]
    exact (prefilterToken_resolveWord U hmixed).2.isInfix.trans (List.infix_append _ _ _)
  have hmatched : isMatched U (normalizedTextOf U collectUrlMatches w)
      (resolveWord U (normalizeMixedWriting candidate)) = true := by
    rw [normalizedTextOf_word hcandidate hurls hcode hself]
    exact isMatched_between hbefore hafter
  rw [detectAll_eq_detections hkeys]
  refine List.mem_filterMap.mpr ⟨_, hword, verdict_eq_pattern.mpr ⟨?_, rfl⟩⟩
  rw [hmatched, Bool.and_true, decide_eq_true_eq]
  exact ⟨hself.bmp, htoken⟩

/-- A word in quotes catches itself, and is not the first of its list. -/
theorem word_catches_itself_sample :
    ⟨"привет".toList, .pattern⟩ ∈
      (detectAll Unicode.common (fun _ => [])
        (after Unicode.common (fun _ => []) [⟨false, "лист".toList, ["слово".toList]⟩])
        " «ПРИВЕТ»!".toList ["слово".toList, " «ПРИВЕТ»!".toList]).2 := by
  refine word_catches_itself Unicode.common (fun _ => []) [⟨false, "лист".toList, ["слово".toList]⟩] _
    " «ПРИВЕТ»!".toList "привет".toList ?_ ?_ rfl ?_ ?_ ⟨?_, ?_, ?_, ?_⟩
  · decide +kernel
  · decide +kernel
  · decide +kernel
  · intro c hc hkey
    rw [List.mem_singleton.mp hc] at hkey
    exact absurd hkey (by decide +kernel)
  · have hlast : (normalizeMixedWriting (beforeFragment Unicode.common " «ПРИВЕТ»!".toList)).getLast? = some '«' := by
      decide +kernel
    intro c hc
    obtain rfl := Option.some.inj (hlast.symm.trans hc)
    decide
  · have hhead : (normalizeMixedWriting (afterFragment Unicode.common " «ПРИВЕТ»!".toList)).head? = some '»' := by
      decide +kernel
    intro c hc
    obtain rfl := Option.some.inj (hhead.symm.trans hc)
    decide
  · decide +kernel
  · exact forall_of_all (by decide +kernel)

/-- Four equal letters are a word, and their text is collapsed to two. -/
theorem repeated_letter_missed :
    normalizeMessageLimitsBlockedWordCandidate Unicode.common "зззз".toList = some "зззз".toList ∧
      (BLOCKED_WORD_ARTICLE_CODE_PATTERN Unicode.common).test "зззз".toList = false ∧
      (detectAll Unicode.common (fun _ => []) {} "зззз".toList ["зззз".toList]).2 = [] := by
  decide +kernel

end Maxim.Moderation.BlockedWords
