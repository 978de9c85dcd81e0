import Maxim.Max.TextMarkup.Html

/-!
# What the escapes are read as

An escaped text is read as its characters, with four spaces for a tab, and an
escaped attribute is read as its value.
-/

namespace Maxim.Max.TextMarkup

open Maxim.Library Maxim.Library.Html

def plainUnit (c : Nat) : Bool := c ≠ 62 && c ≠ 34

def expandTab (c : Nat) : Units := if c = 9 then [32, 32, 32, 32] else [c]

def escapeUnit (c : Nat) : Units :=
  if c = 38 then units "&amp;"
  else if c = 60 then units "&lt;"
  else if c = 62 then units "&gt;"
  else if c = 34 then units "&quot;"
  else [c]

theorem escapeUnit_cases {P : Nat → Units → Prop} (hamp : P 38 (units "&amp;")) (hlt : P 60 (units "&lt;"))
    (hgt : P 62 (units "&gt;")) (hquot : P 34 (units "&quot;"))
    (hplain : ∀ c, c ≠ 38 → c ≠ 60 → c ≠ 62 → c ≠ 34 → P c [c]) (c : Nat) : P c (escapeUnit c) := by
  unfold escapeUnit
  split
  · next h => exact h ▸ hamp
  split
  · next h => exact h ▸ hlt
  split
  · next h => exact h ▸ hgt
  split
  · next h => exact h ▸ hquot
  · next h₁ h₂ h₃ h₄ => exact hplain c h₁ h₂ h₃ h₄

theorem replaceUnit_flatMap (c : Nat) (replacement s : Units) (f : Nat → Units) :
    replaceUnit c replacement (s.flatMap f) = s.flatMap fun d => replaceUnit c replacement (f d) :=
  List.flatMap_assoc

theorem replaceUnit_of_not_mem {c : Nat} {replacement s : Units} (h : c ∉ s) : replaceUnit c replacement s = s := by
  induction s with
  | nil => rfl
  | cons d s ih =>
    obtain ⟨hd, hs⟩ := List.ne_and_not_mem_of_not_mem_cons h
    rw [replaceUnit, List.flatMap_cons, if_neg (Ne.symm hd)]
    exact congrArg (d :: ·) (ih hs)

theorem escapeHtml_eq (value : Units) : escapeHtml value = value.flatMap escapeUnit := by
  rw [escapeHtml]
  conv_lhs => rw [replaceUnit.eq_def 38]
  rw [replaceUnit_flatMap, replaceUnit_flatMap, replaceUnit_flatMap]
  refine List.flatMap_congr fun c _ => ?_
  refine escapeUnit_cases (P := fun c e => replaceUnit 34 (units "&quot;") (replaceUnit 62 (units "&gt;")
    (replaceUnit 60 (units "&lt;") (if c = 38 then units "&amp;" else [c]))) = e) rfl rfl rfl rfl (fun c h₁ h₂ h₃ h₄ => ?_) c
  have hkeep : ∀ d replacement, c ≠ d → replaceUnit d replacement [c] = [c] := fun d replacement hd =>
    replaceUnit_of_not_mem (by simpa using Ne.symm hd)
  rw [if_neg h₁, hkeep 60 _ h₂, hkeep 62 _ h₃, hkeep 34 _ h₄]

def escapeSpaced (c : Nat) : Units := if c = 9 then units "&nbsp;&nbsp;&nbsp;&nbsp;" else escapeUnit c

theorem replaceTabs_eq (value : Units) :
    replaceUnit 9 (units "&nbsp;&nbsp;&nbsp;&nbsp;") (escapeHtml value) = value.flatMap escapeSpaced := by
  rw [escapeHtml_eq, replaceUnit_flatMap]
  refine List.flatMap_congr fun c _ => ?_
  unfold escapeSpaced
  split
  · next h => rw [h]; rfl
  · next h =>
    refine replaceUnit_of_not_mem ?_
    refine escapeUnit_cases (P := fun c e => c ≠ 9 → 9 ∉ e) ?_ ?_ ?_ ?_ ?_ c h
    · decide
    · decide
    · decide
    · decide
    · intro c _ _ _ _ hc
      simpa using Ne.symm hc

theorem replaceSpaces_append {x : Units} (hx : 32 ∉ x) (hne : x ≠ []) (previous : Bool) (s : Units) :
    replaceSpaces previous (x ++ s) = x ++ replaceSpaces false s := by
  induction x generalizing previous with
  | nil => exact absurd rfl hne
  | cons c x ih =>
    obtain ⟨hc, hx⟩ := List.ne_and_not_mem_of_not_mem_cons hx
    rw [List.cons_append, replaceSpaces, if_neg (Ne.symm hc), List.cons_append]
    cases x with
    | nil => rfl
    | cons d x => rw [ih hx (List.cons_ne_nil d x)]

theorem reads_nbsp (plain : Nat → Bool) : Reads plain (units "&nbsp;") [.char 32] := by
  have h : Reads plain (38 :: units "nbsp" ++ [59]) [.char 32] := reads_reference (by decide) (by decide)
  exact h

theorem reads_escapeUnit {plain : Nat → Bool} (c : Nat)
    (hplain : c ≠ 60 → c ≠ 38 → c ≠ 62 → c ≠ 34 → plain c = true) : Reads plain (escapeUnit c) [.char c] := by
  have hreference : ∀ (name : Units) (d : Nat), 59 ∉ name → reference name = some d →
      Reads plain (38 :: name ++ [59]) [.char d] := fun name d hname hd => reads_reference hname hd
  refine escapeUnit_cases (P := fun c e => (c ≠ 60 → c ≠ 38 → c ≠ 62 → c ≠ 34 → plain c = true) →
    Reads plain e [.char c]) ?_ ?_ ?_ ?_ ?_ c hplain
  · exact fun _ => hreference (units "amp") 38 (by decide) (by decide)
  · exact fun _ => hreference (units "lt") 60 (by decide) (by decide)
  · exact fun _ => hreference (units "gt") 62 (by decide) (by decide)
  · exact fun _ => hreference (units "quot") 34 (by decide) (by decide)
  · exact fun c h₁ h₂ h₃ h₄ hplain => reads_char h₂ h₁ (hplain h₂ h₁ h₃ h₄)

theorem reads_replaceSpaces {plain : Nat → Bool} {escape : Nat → Units} {expand : Nat → List Nat}
    (hspace : plain 32 = true) (hescape : ∀ c, c ≠ 32 → 32 ∉ escape c ∧ escape c ≠ [] ∧
      Reads plain (escape c) ((expand c).map .char)) (h32 : escape 32 = [32]) (h32' : expand 32 = [32])
    (previous : Bool) (s : Units) :
    Reads plain (replaceSpaces previous (s.flatMap escape)) ((s.flatMap expand).map .char) := by
  induction s generalizing previous with
  | nil => exact .nil
  | cons c s ih =>
    rw [List.flatMap_cons, List.flatMap_cons, List.map_append]
    by_cases hc : c = 32
    · subst hc
      rw [h32, h32', List.singleton_append, replaceSpaces, if_pos rfl]
      refine Reads.append ?_ (ih true)
      split
      · exact reads_nbsp plain
      · exact reads_char (by decide) (by decide) hspace
    · obtain ⟨hno, hne, hreads⟩ := hescape c hc
      rw [replaceSpaces_append hno hne]
      exact hreads.append (ih false)

theorem reads_escapeHtmlPreservingWhitespace (value : Units) :
    Reads plainUnit (escapeHtmlPreservingWhitespace value) ((value.flatMap expandTab).map .char) := by
  rw [escapeHtmlPreservingWhitespace, replaceTabs_eq]
  refine reads_replaceSpaces (by decide) (fun c hc => ?_) (by decide) (by decide) false value
  by_cases htab : c = 9
  · subst htab
    refine ⟨by decide, by decide, ?_⟩
    have h := reads_nbsp plainUnit
    exact h.append (h.append (h.append h))
  · have hescape : escapeSpaced c = escapeUnit c := if_neg htab
    have hexpand : expandTab c = [c] := if_neg htab
    rw [hescape, hexpand]
    have hparts : 32 ∉ escapeUnit c ∧ escapeUnit c ≠ [] := by
      refine escapeUnit_cases (P := fun c e => c ≠ 32 → 32 ∉ e ∧ e ≠ []) ?_ ?_ ?_ ?_ ?_ c hc
      · decide
      · decide
      · decide
      · decide
      · exact fun c _ _ _ _ hc => ⟨by simpa using Ne.symm hc, List.cons_ne_nil c []⟩
    exact ⟨hparts.1, hparts.2, reads_escapeUnit c fun _ _ h₃ h₄ => by simp [plainUnit, h₃, h₄]⟩

/-! ## Attributes -/

def escapeAttributeUnit (c : Nat) : Units := if c = 39 then units "&#39;" else escapeUnit c

theorem escapeHtmlAttribute_eq (value : Units) : escapeHtmlAttribute value = value.flatMap escapeAttributeUnit := by
  rw [escapeHtmlAttribute, escapeHtml_eq, replaceUnit_flatMap]
  refine List.flatMap_congr fun c _ => ?_
  unfold escapeAttributeUnit
  split
  · next h => rw [h]; rfl
  · next h =>
    refine replaceUnit_of_not_mem ?_
    refine escapeUnit_cases (P := fun c e => c ≠ 39 → 39 ∉ e) ?_ ?_ ?_ ?_ ?_ c h
    · decide
    · decide
    · decide
    · decide
    · intro c _ _ _ _ hc
      simpa using Ne.symm hc

theorem unescape_escapeHtmlAttribute (value : Units) :
    unescape none (escapeHtmlAttribute value) = some value ∧
      ∀ c ∈ [34, 39, 60, 62], c ∉ escapeHtmlAttribute value := by
  have hunit : ∀ c, (∀ s, unescape none (escapeAttributeUnit c ++ s) = (unescape none s).map (c :: ·)) ∧
      ∀ d ∈ [34, 39, 60, 62], d ∉ escapeAttributeUnit c := by
    intro c
    unfold escapeAttributeUnit
    split
    · next h =>
      subst h
      exact ⟨fun s => rfl, by decide⟩
    · next h =>
      refine escapeUnit_cases (P := fun c e => c ≠ 39 → (∀ s, unescape none (e ++ s) = (unescape none s).map (c :: ·)) ∧
        ∀ d ∈ [34, 39, 60, 62], d ∉ e) ?_ ?_ ?_ ?_ ?_ c h
      · exact fun _ => ⟨fun s => rfl, by decide⟩
      · exact fun _ => ⟨fun s => rfl, by decide⟩
      · exact fun _ => ⟨fun s => rfl, by decide⟩
      · exact fun _ => ⟨fun s => rfl, by decide⟩
      · intro c h₁ h₂ h₃ h₄ hc
        refine ⟨fun s => ?_, fun d hd hmem => ?_⟩
        · rw [List.singleton_append, unescape, if_neg h₁]
        · rw [List.mem_singleton.mp hmem] at hd
          simp [hc, h₂, h₃, h₄] at hd
  rw [escapeHtmlAttribute_eq]
  constructor
  · induction value with
    | nil => rfl
    | cons c value ih => rw [List.flatMap_cons, (hunit c).1, ih, Option.map_some]
  · intro d hd hmem
    obtain ⟨c, -, hc⟩ := List.mem_flatMap.mp hmem
    exact (hunit c).2 d hd hc

def anchorTag (target : Units) : Tag := ⟨units "a", [(units "href", target)]⟩

theorem reads_anchor (plain : Nat → Bool) (target : Units) :
    Reads plain (units "<a href=\"" ++ escapeHtmlAttribute target ++ units "\">") [.start (anchorTag target)] := by
  obtain ⟨hvalue, hclean⟩ := unescape_escapeHtmlAttribute target
  generalize escapeHtmlAttribute target = value at hvalue hclean ⊢
  have hno : ∀ c ∈ [60, 62], c ∉ units "a href=\"" ++ value ++ [34] := by
    intro c hc hmem
    simp only [List.mem_cons, List.not_mem_nil, or_false] at hc
    rcases List.mem_append.mp hmem with hmem | hmem
    · rcases List.mem_append.mp hmem with hmem | hmem
      · rcases hc with rfl | rfl <;> revert hmem <;> decide
      · rcases hc with rfl | rfl <;> exact hclean _ (by decide) hmem
    · rcases hc with rfl | rfl <;> revert hmem <;> decide
  have htake : (value ++ [34]).takeWhile (fun c => decide (c ≠ 34)) = value := by
    rw [List.takeWhile_append_of_pos fun c hc => ?_]
    · simp
    · exact decide_eq_true fun h => hclean 34 (by decide) (h ▸ hc)
  have hattributes : ∀ fuel, readAttributes (fuel + 2) (32 :: (units "href=\"" ++ (value ++ [34]))) =
      some [(units "href", target)] := by
    intro fuel
    have hname : (units "href=\"" ++ (value ++ [34])).takeWhile (fun c => decide (c ≠ 61)) = units "href" := rfl
    have hdrop : (units "href=\"" ++ (value ++ [34])).drop ((units "href").length + 2) = value ++ [34] := rfl
    have hquote : ((units "href=\"" ++ (value ++ [34])).drop (units "href").length).take 2 = [61, 34] := rfl
    have hend : (value ++ [34]).drop value.length = [34] := List.drop_left
    have hrest : (value ++ [34]).drop (value.length + 1) = [] := List.drop_of_length_le (by simp)
    rw [readAttributes]
    simp only [hname, hdrop, hquote, htake, hend, hrest, hvalue, List.head?_cons, and_self, if_true, readAttributes,
      Option.bind_some, Option.map_some]
  have htag : readTag (units "a href=\"" ++ value ++ [34]) = some (.start (anchorTag target)) := by
    have hraw : units "a href=\"" ++ value ++ [34] = 97 :: 32 :: (units "href=\"" ++ (value ++ [34])) := by
      rw [List.append_assoc]
      rfl
    have hname : (97 :: 32 :: (units "href=\"" ++ (value ++ [34]))).takeWhile isNameUnit = units "a" := rfl
    have hdrop : (97 :: 32 :: (units "href=\"" ++ (value ++ [34]))).drop (units "a").length =
        32 :: (units "href=\"" ++ (value ++ [34])) := rfl
    rw [hraw, readTag, if_neg (by simp)]
    simp only [hname, hdrop, List.length_cons, hattributes]
    rfl
  have h : Reads plain (60 :: (units "a href=\"" ++ value ++ [34]) ++ [62]) [.start (anchorTag target)] :=
    reads_tag (hno 60 (by decide)) (hno 62 (by decide)) htag
  have hraw : units "<a href=\"" ++ value ++ units "\">" = 60 :: (units "a href=\"" ++ value ++ [34]) ++ [62] := by
    have h₁ : units "<a href=\"" = 60 :: units "a href=\"" := rfl
    have h₂ : units "\">" = [34, 62] := rfl
    rw [h₁, h₂]
    simp
  rw [hraw]
  exact h

end Maxim.Max.TextMarkup
