import Mathlib.Data.List.Induction
import Mathlib.Data.List.Perm.Subperm

/-!
# Counting in a sliding window

Dates in the order of a clock that never goes back. If every date finds fewer
than `limit` earlier ones in the window that ends with it, then no window at
all holds more than `limit`.
-/

namespace Maxim.Library

/-- The date is in the window of width `W` that ends at `t`; the far end is open. -/
def inWindow (W t d : Nat) : Bool := decide (t < d + W) && decide (d ≤ t)

theorem inWindow_iff {W t d : Nat} : inWindow W t d = true ↔ t < d + W ∧ d ≤ t := by
  simp [inWindow]

theorem countP_inWindow_le {W t d : Nat} {dates : List Nat} (hle : ∀ x ∈ dates, x ≤ d) (hd : d ≤ t) :
    dates.countP (inWindow W t) ≤ dates.countP (inWindow W d) := by
  apply List.countP_mono_left
  intro x hx hin
  rw [inWindow_iff] at hin ⊢
  have hxd := hle x hx
  omega

theorem countP_inWindow_le_limit {W limit : Nat} {dates : List Nat}
    (hsorted : dates.Pairwise (· ≤ ·))
    (h : ∀ pre d post, dates = pre ++ d :: post → pre.countP (inWindow W d) < limit) (t : Nat) :
    dates.countP (inWindow W t) ≤ limit := by
  induction dates using List.reverseRecOn with
  | nil => exact Nat.zero_le _
  | append_singleton dates d ih =>
    rw [List.pairwise_append] at hsorted
    obtain ⟨hbefore, -, hlast⟩ := hsorted
    have hold := ih hbefore fun pre x post he => h pre x (post ++ [d]) (by rw [he]; simp)
    rw [List.countP_append, List.countP_singleton]
    by_cases hin : inWindow W t d = true
    · have hle : dates.countP (inWindow W t) ≤ dates.countP (inWindow W d) :=
        countP_inWindow_le (fun x hx => hlast x hx d (List.mem_singleton.mpr rfl))
          (inWindow_iff.mp hin).2
      have hnew := h dates d [] rfl
      rw [if_pos hin]
      omega
    · rw [if_neg hin]
      exact hold

theorem length_le_of_nodup_map {α β : Type} {f : α → β} {l : List α} {k : List β}
    (hnodup : (l.map f).Nodup) (hsub : ∀ a ∈ l, f a ∈ k) : l.length ≤ k.length := by
  have hsubset : l.map f ⊆ k := by
    intro b hb
    obtain ⟨a, ha, rfl⟩ := List.mem_map.mp hb
    exact hsub a ha
  rw [← @List.length_map _ _ l f]
  exact (List.subperm_of_subset hnodup hsubset).length_le

end Maxim.Library
