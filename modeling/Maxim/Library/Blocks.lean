import Mathlib.InformationTheory.Hamming
import Mathlib.Data.Fintype.BigOperators

/-!
# Words in blocks

A word whose positions are grouped in blocks. Two words that differ in fewer
positions than there are blocks agree on a whole block.
-/

namespace Maxim.Library

variable {ι κ α : Type} [Fintype ι] [Fintype κ] [DecidableEq α]

theorem hammingDist_eq_sum (x y : ι × κ → α) :
    hammingDist x y = ∑ i, hammingDist (fun k => x (i, k)) (fun k => y (i, k)) := by
  simp only [hammingDist, Finset.card_filter]
  exact Fintype.sum_prod_type _

theorem exists_block_eq {x y : ι × κ → α} (h : hammingDist x y < Fintype.card ι) :
    ∃ i, ∀ k, x (i, k) = y (i, k) := by
  by_contra hno
  have hone : ∀ i, 1 ≤ hammingDist (fun k => x (i, k)) (fun k => y (i, k)) := by
    intro i
    rw [Nat.one_le_iff_ne_zero, Ne, hammingDist_eq_zero]
    exact fun heq => hno ⟨i, congrFun heq⟩
  have hle : Fintype.card ι ≤ hammingDist x y := by
    calc Fintype.card ι = ∑ _i : ι, 1 := by rw [Finset.sum_const, smul_eq_mul, mul_one]; rfl
      _ ≤ ∑ i, hammingDist (fun k => x (i, k)) (fun k => y (i, k)) :=
        Finset.sum_le_sum fun i _ => hone i
      _ = hammingDist x y := (hammingDist_eq_sum x y).symm
  omega

end Maxim.Library
