import Mathlib.Data.List.Infix

/-!
# Backtracking regular expressions

A pattern is matched at a position of a text, given by the characters behind
it, nearest first, and the characters ahead of it. `ends` lists the positions at
which a match can end, in the order in which a backtracking matcher tries them.
`Matches` is the language: which words a pattern matches between two contexts.
-/

namespace Maxim.Library

inductive Regex (α : Type) where
  | empty
  | one (p : α → Bool)
  | seq (r s : Regex α)
  | alt (r s : Regex α)
  /-- As often as possible, every time with at least one character. -/
  | star (r : Regex α)
  /-- The nearest characters behind are not of these classes, nearest first. -/
  | notBehind (classes : List (α → Bool))
  | notAhead (classes : List (α → Bool))

namespace Regex

variable {α : Type}

/-- The text begins with characters of the classes. -/
def fits : List (α → Bool) → List α → Bool
  | [], _ => true
  | _ :: _, [] => false
  | p :: classes, c :: text => p c && fits classes text

/-- The ends of the greedy repetition of a step that must go forward. -/
def starEnds (step : List α → List α → List (List α × List α)) :
    Nat → List α → List α → List (List α × List α)
  | 0, behind, ahead => [(behind, ahead)]
  | fuel + 1, behind, ahead =>
    ((step behind ahead).filter fun e => e.2.length < ahead.length).flatMap
      (fun e => starEnds step fuel e.1 e.2) ++ [(behind, ahead)]

def ends : Regex α → List α → List α → List (List α × List α)
  | empty, behind, ahead => [(behind, ahead)]
  | one _, _, [] => []
  | one p, behind, c :: ahead => if p c then [(c :: behind, ahead)] else []
  | seq r s, behind, ahead => (r.ends behind ahead).flatMap fun e => s.ends e.1 e.2
  | alt r s, behind, ahead => r.ends behind ahead ++ s.ends behind ahead
  | star r, behind, ahead => starEnds r.ends ahead.length behind ahead
  | notBehind classes, behind, ahead => if fits classes behind then [] else [(behind, ahead)]
  | notAhead classes, behind, ahead => if fits classes ahead then [] else [(behind, ahead)]

/-- `Matches r behind word ahead`: the pattern matches the word between the contexts. -/
inductive Matches : Regex α → List α → List α → List α → Prop
  | empty {b a} : Matches empty b [] a
  | one {p c b a} : p c = true → Matches (one p) b [c] a
  | seq {r s b v w a} : Matches r b v (w ++ a) → Matches s (v.reverse ++ b) w a →
      Matches (seq r s) b (v ++ w) a
  | left {r s b w a} : Matches r b w a → Matches (alt r s) b w a
  | right {r s b w a} : Matches s b w a → Matches (alt r s) b w a
  | done {r b a} : Matches (star r) b [] a
  | more {r b v w a} : v ≠ [] → Matches r b v (w ++ a) → Matches (star r) (v.reverse ++ b) w a →
      Matches (star r) b (v ++ w) a
  | notBehind {classes b a} : fits classes b = false → Matches (notBehind classes) b [] a
  | notAhead {classes b a} : fits classes a = false → Matches (notAhead classes) b [] a

def test (r : Regex α) (text : List α) : Bool :=
  (List.range (text.length + 1)).any fun i => !(r.ends (text.take i).reverse (text.drop i)).isEmpty

/-- The text from a position on, with every match replaced. -/
def replaceFrom (r : Regex α) (sub : List α) : Nat → List α → List α → List α
  | 0, _, ahead => ahead
  | fuel + 1, behind, ahead =>
    match (r.ends behind ahead).head?, ahead with
    | some (behind', ahead'), c :: rest =>
      if ahead'.length < ahead.length then sub ++ r.replaceFrom sub fuel behind' ahead'
      else sub ++ c :: r.replaceFrom sub fuel (c :: behind) rest
    | some _, [] => sub
    | none, c :: rest => c :: r.replaceFrom sub fuel (c :: behind) rest
    | none, [] => []

def replaceAll (r : Regex α) (sub text : List α) : List α := r.replaceFrom sub (text.length + 1) [] text

def plus (r : Regex α) : Regex α := seq r (star r)

def atLeast : Nat → Regex α → Regex α
  | 0, r => star r
  | n + 1, r => seq r (atLeast n r)

/-- The words of a repetition that the fuel allows. -/
theorem mem_starEnds {r : Regex α} (ih : ∀ {b a e}, e ∈ r.ends b a ↔
      ∃ w, a = w ++ e.2 ∧ e.1 = w.reverse ++ b ∧ Matches r b w e.2)
    {fuel : Nat} {b a : List α} (hfuel : a.length ≤ fuel) {e : List α × List α} :
    e ∈ starEnds r.ends fuel b a ↔
      ∃ w, a = w ++ e.2 ∧ e.1 = w.reverse ++ b ∧ Matches (star r) b w e.2 := by
  induction fuel generalizing b a with
  | zero =>
    obtain rfl := List.length_eq_zero_iff.mp (Nat.le_zero.mp hfuel)
    rw [starEnds, List.mem_singleton]
    constructor
    · rintro rfl
      exact ⟨[], rfl, rfl, .done⟩
    · rintro ⟨w, ha, hb, -⟩
      obtain ⟨rfl, he⟩ := List.append_eq_nil_iff.mp ha.symm
      exact Prod.ext hb he
  | succ fuel hrec =>
    rw [starEnds, List.mem_append, List.mem_flatMap, List.mem_singleton]
    constructor
    · rintro (⟨f, hf, he⟩ | rfl)
      · rw [List.mem_filter, decide_eq_true_eq] at hf
        have hle : f.2.length ≤ fuel := by omega
        obtain ⟨v, ha, hb, hv⟩ := ih.mp hf.1
        obtain ⟨w, ha', hb', hw⟩ := (hrec hle).mp he
        refine ⟨v ++ w, by rw [ha, ha', List.append_assoc], ?_, ?_⟩
        · rw [hb', hb, List.reverse_append, List.append_assoc]
        · refine .more ?_ (ha' ▸ hv) (hb ▸ hw)
          rintro rfl
          rw [ha, List.nil_append] at hf
          exact absurd hf.2 (lt_irrefl _)
      · exact ⟨[], rfl, rfl, .done⟩
    · rintro ⟨w, ha, hb, hw⟩
      generalize hs : star r = s at hw
      cases hw with
      | done =>
        exact .inr (Prod.ext hb ha.symm)
      | @more r' _ v w _ hne hv hw =>
        obtain rfl := Regex.star.inj hs
        left
        rw [List.append_assoc] at ha
        have hlen : (w ++ e.2).length < a.length := by
          have := List.length_pos_iff.mpr hne
          simp only [ha, List.length_append]
          omega
        have hle : (w ++ e.2).length ≤ fuel := by omega
        refine ⟨(v.reverse ++ b, w ++ e.2), ?_, ?_⟩
        · rw [List.mem_filter, decide_eq_true_eq]
          exact ⟨ih.mpr ⟨v, ha, rfl, hv⟩, hlen⟩
        · refine (hrec hle).mpr ⟨w, rfl, ?_, hw⟩
          rw [hb, List.reverse_append, List.append_assoc]
      | _ => cases hs

/-- The matcher finds exactly the ends of the words of the pattern. -/
theorem mem_ends {r : Regex α} {b a : List α} {e : List α × List α} :
    e ∈ r.ends b a ↔ ∃ w, a = w ++ e.2 ∧ e.1 = w.reverse ++ b ∧ Matches r b w e.2 := by
  induction r generalizing b a e with
  | empty =>
    rw [ends, List.mem_singleton]
    constructor
    · rintro rfl
      exact ⟨[], rfl, rfl, .empty⟩
    · rintro ⟨w, ha, hb, hw⟩
      cases hw
      exact Prod.ext hb ha.symm
  | one p =>
    constructor
    · intro he
      cases a with
      | nil => cases he
      | cons c a =>
        rw [ends] at he
        split at he
        · next hp =>
          rw [List.mem_singleton] at he
          subst he
          exact ⟨[c], rfl, rfl, .one hp⟩
        · cases he
    · rintro ⟨w, rfl, hb, hw⟩
      cases hw with
      | one hp =>
        rw [List.singleton_append, ends, if_pos hp, List.mem_singleton]
        exact Prod.ext hb rfl
  | seq r s ihr ihs =>
    rw [ends, List.mem_flatMap]
    constructor
    · rintro ⟨f, hf, he⟩
      obtain ⟨v, ha, hb, hv⟩ := ihr.mp hf
      obtain ⟨w, ha', hb', hw⟩ := ihs.mp he
      refine ⟨v ++ w, by rw [ha, ha', List.append_assoc], ?_, .seq (ha' ▸ hv) (hb ▸ hw)⟩
      rw [hb', hb, List.reverse_append, List.append_assoc]
    · rintro ⟨w, ha, hb, hw⟩
      cases hw with
      | @seq _ _ _ v w _ hv hw =>
        rw [List.append_assoc] at ha
        refine ⟨(v.reverse ++ b, w ++ e.2), ihr.mpr ⟨v, ha, rfl, hv⟩, ihs.mpr ⟨w, rfl, ?_, hw⟩⟩
        rw [hb, List.reverse_append, List.append_assoc]
  | alt r s ihr ihs =>
    rw [ends, List.mem_append, ihr, ihs]
    constructor
    · rintro (⟨w, ha, hb, hw⟩ | ⟨w, ha, hb, hw⟩)
      · exact ⟨w, ha, hb, .left hw⟩
      · exact ⟨w, ha, hb, .right hw⟩
    · rintro ⟨w, ha, hb, hw⟩
      cases hw with
      | left hw => exact .inl ⟨w, ha, hb, hw⟩
      | right hw => exact .inr ⟨w, ha, hb, hw⟩
  | star r ih => exact mem_starEnds ih (Nat.le_refl _)
  | notBehind classes =>
    rw [ends]
    constructor
    · intro he
      split at he
      · cases he
      · next hfits =>
        obtain rfl := List.mem_singleton.mp he
        exact ⟨[], rfl, rfl, .notBehind (Bool.eq_false_iff.mpr hfits)⟩
    · rintro ⟨w, ha, hb, hw⟩
      cases hw with
      | notBehind hfits =>
        rw [if_neg (Bool.eq_false_iff.mp hfits), List.mem_singleton]
        exact Prod.ext hb ha.symm
  | notAhead classes =>
    rw [ends]
    constructor
    · intro he
      split at he
      · cases he
      · next hfits =>
        obtain rfl := List.mem_singleton.mp he
        exact ⟨[], rfl, rfl, .notAhead (Bool.eq_false_iff.mpr hfits)⟩
    · rintro ⟨w, ha, hb, hw⟩
      cases hw with
      | notAhead hfits =>
        rw [List.nil_append] at ha
        rw [ha, if_neg (Bool.eq_false_iff.mp hfits), List.mem_singleton]
        exact Prod.ext hb rfl

theorem test_iff {r : Regex α} {text : List α} :
    r.test text = true ↔ ∃ x w y, text = x ++ (w ++ y) ∧ Matches r x.reverse w y := by
  rw [test, List.any_eq_true]
  constructor
  · rintro ⟨i, -, hi⟩
    obtain ⟨e, he⟩ := List.isEmpty_eq_false_iff_exists_mem.mp (by simpa using hi)
    obtain ⟨w, ha, -, hw⟩ := mem_ends.mp he
    exact ⟨text.take i, w, e.2, by rw [← ha, List.take_append_drop], hw⟩
  · rintro ⟨x, w, y, rfl, hw⟩
    refine ⟨x.length, List.mem_range.mpr (by simp only [List.length_append]; omega), ?_⟩
    rw [List.take_left, List.drop_left, Bool.not_eq_true', List.isEmpty_eq_false_iff_exists_mem]
    exact ⟨(w.reverse ++ x.reverse, y), mem_ends.mpr ⟨w, rfl, rfl, hw⟩⟩

theorem replaceFrom_of_not_matches {r : Regex α} {sub : List α} {fuel : Nat} {b a : List α}
    (h : ∀ x y, a = x ++ y → r.ends (x.reverse ++ b) y = []) : r.replaceFrom sub fuel b a = a := by
  induction fuel generalizing b a with
  | zero => rfl
  | succ fuel ih =>
    have hnone : r.ends b a = [] := h [] a rfl
    cases a with
    | nil => simp only [replaceFrom, hnone, List.head?_nil]
    | cons c rest =>
      simp only [replaceFrom, hnone, List.head?_nil]
      refine congrArg (c :: ·) (ih fun x y hxy => ?_)
      rw [← h (c :: x) y (by rw [hxy, List.cons_append]), List.reverse_cons, List.append_assoc,
        List.singleton_append]

theorem replaceAll_of_not_test {r : Regex α} {sub text : List α} (h : r.test text = false) :
    r.replaceAll sub text = text := by
  refine replaceFrom_of_not_matches fun x y hxy => ?_
  by_contra hne
  obtain ⟨e, he⟩ := List.exists_mem_of_ne_nil _ hne
  obtain ⟨w, rfl, -, hw⟩ := mem_ends.mp he
  rw [List.append_nil] at hw
  exact absurd (test_iff.mpr ⟨x, w, e.2, hxy, hw⟩) (by rw [h]; exact Bool.false_ne_true)

end Regex

end Maxim.Library
