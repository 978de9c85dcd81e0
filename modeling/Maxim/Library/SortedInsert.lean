import Mathlib.Data.List.Sort
import Mathlib.Order.Lattice

/-!
# Insertion into a sorted list by bisection

The search keeps a half-open interval of positions. What lies before it is at
most the value, what lies behind it is greater.
-/

namespace Maxim.Library

variable {α : Type} [LinearOrder α]

/-- The bisection over the positions from `low` to `high`; every turn shortens the interval. -/
def bisect (values : List α) (value : α) : Nat → Nat → Nat → Nat
  | 0, low, _ => low
  | turns + 1, low, high =>
    if low < high then
      let middle := (low + high) / 2
      if values[middle]?.any fun x => decide (x ≤ value) then bisect values value turns (middle + 1) high
      else bisect values value turns low middle
    else low

def insertSorted (values : List α) (value : α) : List α :=
  let low := bisect values value values.length 0 values.length
  values.take low ++ value :: values.drop low

/-- The position splits the list at the value. -/
structure Splits (values : List α) (value : α) (low high : Nat) : Prop where
  before : ∀ x ∈ values.take low, x ≤ value
  behind : ∀ x ∈ values.drop high, value < x

variable {values : List α} {value x : α}

theorem take_succ_le_of_sorted (hs : values.Pairwise (· ≤ ·)) {middle : Nat}
    (hx : values[middle]? = some x) : ∀ y ∈ values.take (middle + 1), y ≤ x := by
  intro y hy
  rw [List.take_add_one, hx, Option.toList_some] at hy
  rcases List.mem_append.mp hy with hy | hy
  · have hsplit := hs
    rw [← List.take_append_drop middle values] at hsplit
    have hmem : x ∈ values.drop middle := List.mem_of_getElem? (i := 0) (by simpa using hx)
    exact (List.pairwise_append.mp hsplit).2.2 y hy x hmem
  · exact le_of_eq (List.mem_singleton.mp hy)

theorem le_drop_of_sorted (hs : values.Pairwise (· ≤ ·)) {middle : Nat}
    (hx : values[middle]? = some x) : ∀ y ∈ values.drop middle, x ≤ y := by
  intro y hy
  obtain ⟨hlt, rfl⟩ := List.getElem?_eq_some_iff.mp hx
  rw [List.drop_eq_getElem_cons hlt] at hy
  rcases List.mem_cons.mp hy with rfl | hy
  · exact le_refl _
  · have hsplit := hs.drop (i := middle)
    rw [List.drop_eq_getElem_cons hlt] at hsplit
    exact (List.pairwise_cons.mp hsplit).1 y hy

theorem bisect_splits (hs : values.Pairwise (· ≤ ·)) (turns low high : Nat)
    (hturns : high - low ≤ turns) (hle : low ≤ high) (hlen : high ≤ values.length)
    (h : Splits values value low high) :
    Splits values value (bisect values value turns low high)
      (bisect values value turns low high) := by
  induction turns generalizing low high with
  | zero =>
    have heq : low = high := by omega
    subst heq
    exact h
  | succ turns ih =>
    unfold bisect
    by_cases hlt : low < high
    · rw [if_pos hlt]
      have hmid : low ≤ (low + high) / 2 ∧ (low + high) / 2 < high := by omega
      obtain ⟨x, hx⟩ : ∃ x, values[(low + high) / 2]? = some x :=
        ⟨_, List.getElem?_eq_getElem (by omega)⟩
      dsimp only
      rw [hx, Option.any_some]
      by_cases hxv : x ≤ value
      · rw [decide_eq_true hxv, if_pos rfl]
        refine ih _ _ (by omega) (by omega) hlen ⟨fun y hy => ?_, h.behind⟩
        exact le_trans (take_succ_le_of_sorted hs hx y hy) hxv
      · rw [decide_eq_false hxv, if_neg Bool.false_ne_true]
        refine ih _ _ (by omega) hmid.1 (by omega) ⟨h.before, fun y hy => ?_⟩
        exact lt_of_lt_of_le (lt_of_not_ge hxv) (le_drop_of_sorted hs hx y hy)
    · rw [if_neg hlt]
      have heq : low = high := by omega
      subst heq
      exact h

theorem insertSorted_perm (values : List α) (value : α) :
    (insertSorted values value).Perm (value :: values) := by
  unfold insertSorted
  refine List.perm_middle.trans ?_
  rw [List.take_append_drop]

theorem insertSorted_sorted (hs : values.Pairwise (· ≤ ·)) (value : α) :
    (insertSorted values value).Pairwise (· ≤ ·) := by
  have hall : Splits values value 0 values.length := ⟨by simp, by simp⟩
  have h := bisect_splits hs values.length 0 values.length (by omega) (by omega) (Nat.le_refl _) hall
  unfold insertSorted
  dsimp only
  refine List.pairwise_append.mpr ⟨hs.take, List.pairwise_cons.mpr ⟨fun y hy => ?_, hs.drop⟩, ?_⟩
  · exact le_of_lt (h.behind y hy)
  · intro y hy w hw
    rcases List.mem_cons.mp hw with rfl | hw
    · exact h.before y hy
    · exact le_trans (h.before y hy) (le_of_lt (h.behind w hw))

end Maxim.Library
