import Mathlib.Algebra.Order.Field.Rat
import Mathlib.Data.List.Induction
import Mathlib.Tactic.Linarith
import Mathlib.Tactic.Positivity
import Mathlib.Tactic.Ring

/-!
# Token buckets

A bucket holds tokens up to a capacity and is refilled at a rate. What has been
spent in a time and what is left at its end together stay within the capacity
and the refill of that time. A bucket that is forgotten when it is full is the
same as one that is kept.
-/

namespace Maxim.Library

/-- The tokens at a date. -/
structure Bucket where
  tokens : ℚ
  atMs : Nat
  deriving DecidableEq

/-- The tokens at `t`; there is a full bucket where none is stored. -/
def level (c r : ℚ) (t : Nat) (b : Option Bucket) : ℚ :=
  b.elim c fun b => min c (b.tokens + ((t - b.atMs : Nat) : ℚ) * r)

variable {c r : ℚ} {t t' : Nat} {b : Option Bucket} {v : ℚ}

@[simp] theorem level_none (c r : ℚ) (t : Nat) : level c r t none = c := rfl

theorem level_some (c r : ℚ) (t : Nat) (b : Bucket) :
    level c r t (some b) = min c (b.tokens + ((t - b.atMs : Nat) : ℚ) * r) := rfl

theorem level_le (c r : ℚ) (t : Nat) (b : Option Bucket) : level c r t b ≤ c := by
  cases b with
  | none => exact le_rfl
  | some b => exact min_le_left _ _

theorem level_written (hv : v ≤ c) : level c r t (some ⟨v, t⟩) = v := by
  rw [level_some]
  simp [hv]

theorem level_mono (hr : 0 ≤ r) (hle : t ≤ t') :
    level c r t' b ≤ level c r t b + ((t' - t : Nat) : ℚ) * r := by
  have hgain : 0 ≤ ((t' - t : Nat) : ℚ) * r := by positivity
  cases b with
  | none => simpa using hgain
  | some b =>
    have hsplit : ((t' - b.atMs : Nat) : ℚ) ≤ ((t - b.atMs : Nat) : ℚ) + ((t' - t : Nat) : ℚ) := by
      rw [← Nat.cast_add]
      exact Nat.cast_le.mpr (by omega)
    have hrate := mul_le_mul_of_nonneg_right hsplit hr
    rw [add_mul] at hrate
    rw [level_some, level_some]
    rcases le_total c (b.tokens + ((t - b.atMs : Nat) : ℚ) * r) with hfull | hfull
    · rw [min_eq_left hfull]
      linarith [min_le_left c (b.tokens + ((t' - b.atMs : Nat) : ℚ) * r)]
    · rw [min_eq_right hfull]
      linarith [min_le_right c (b.tokens + ((t' - b.atMs : Nat) : ℚ) * r)]

theorem level_refilled (hr : 0 ≤ r) (hb : ∀ x, b = some x → x.atMs ≤ t) (hle : t ≤ t') :
    level c r t' (some ⟨level c r t b, t⟩) = level c r t' b := by
  have hgain : 0 ≤ ((t' - t : Nat) : ℚ) * r := by positivity
  cases b with
  | none => simpa [level_some] using hgain
  | some b =>
    have hat := hb b rfl
    have hsplit : ((t' - b.atMs : Nat) : ℚ) = ((t - b.atMs : Nat) : ℚ) + ((t' - t : Nat) : ℚ) := by
      rw [← Nat.cast_add]
      congr 1
      omega
    rw [level_some, level_some, level_some, hsplit, add_mul, ← add_assoc]
    rcases le_total c (b.tokens + ((t - b.atMs : Nat) : ℚ) * r) with hfull | hfull
    · rw [min_eq_left hfull, min_eq_left (by linarith), min_eq_left (by linarith)]
    · rw [min_eq_right hfull]

def FullBy (c r : ℚ) (x : Nat) (b : Bucket) : Prop := c ≤ b.tokens + ((x - b.atMs : Nat) : ℚ) * r

theorem FullBy.level {x : Nat} {b : Bucket} (h : FullBy c r x b) (hr : 0 ≤ r) (hle : x ≤ t) :
    level c r t (some b) = c := by
  have hspan : ((x - b.atMs : Nat) : ℚ) ≤ ((t - b.atMs : Nat) : ℚ) := Nat.cast_le.mpr (by omega)
  have hrate := mul_le_mul_of_nonneg_right hspan hr
  rw [level_some, min_eq_left]
  exact h.trans (by linarith)

/-! ## What is spent in a time -/

/-- What was spent from `a` to `t` and what is left stay within the capacity and the refill. -/
def SpentWithin (c r : ℚ) (a t : Nat) (spent : ℚ) (b : Option Bucket) : Prop :=
  spent + level c r t b ≤ c + ((t - a : Nat) : ℚ) * r

variable {a : Nat} {spent cost : ℚ}

theorem spentWithin_start (c r : ℚ) (a : Nat) (b : Option Bucket) : SpentWithin c r a a 0 b := by
  have hle := level_le c r a b
  simpa [SpentWithin] using hle

theorem SpentWithin.wait (h : SpentWithin c r a t spent b) (hr : 0 ≤ r) (ha : a ≤ t) (hle : t ≤ t') :
    SpentWithin c r a t' spent b := by
  have hgain := level_mono (c := c) (b := b) hr hle
  have hsplit : ((t' - a : Nat) : ℚ) = ((t - a : Nat) : ℚ) + ((t' - t : Nat) : ℚ) := by
    rw [← Nat.cast_add]
    congr 1
    omega
  rw [SpentWithin] at h ⊢
  rw [hsplit, add_mul]
  linarith

theorem SpentWithin.spend (h : SpentWithin c r a t spent b) (hcost : 0 ≤ cost) :
    SpentWithin c r a t (spent + cost) (some ⟨level c r t b - cost, t⟩) := by
  have hle := level_le c r t b
  rw [SpentWithin, level_written (by linarith)]
  rw [SpentWithin] at h
  linarith

theorem SpentWithin.congr {b' : Option Bucket} (h : SpentWithin c r a t spent b)
    (heq : Library.level c r t b' = Library.level c r t b) : SpentWithin c r a t spent b' := by
  rw [SpentWithin, heq]
  exact h

theorem SpentWithin.spent_le (h : SpentWithin c r a t spent b) (hlevel : 0 ≤ Library.level c r t b) :
    spent ≤ c + ((t - a : Nat) : ℚ) * r := by
  rw [SpentWithin] at h
  linarith

theorem countP_between_le {ε : Type} {date : ε → Nat} {p : ε → Bool} {l : List ε} (hc : 0 ≤ c)
    (hr : 0 ≤ r) (hsorted : l.Pairwise (date · ≤ date ·))
    (h : ∀ pre x post, l = pre ++ x :: post → p x = true → ∀ a ≤ date x,
      (((pre ++ [x]).countP fun y => p y && decide (a ≤ date y) : Nat) : ℚ) * cost ≤
        c + ((date x - a : Nat) : ℚ) * r) (a b : Nat) :
    ((l.countP fun y => p y && decide (a ≤ date y ∧ date y ≤ b) : Nat) : ℚ) * cost ≤
      c + ((b - a : Nat) : ℚ) * r := by
  induction l using List.reverseRecOn with
  | nil =>
    have hspan : 0 ≤ ((b - a : Nat) : ℚ) * r := by positivity
    simp only [List.countP_nil, Nat.cast_zero, zero_mul]
    linarith
  | append_singleton l x ih =>
    have hbefore : ∀ y ∈ l, date y ≤ date x := fun y hy =>
      (List.pairwise_append.mp hsorted).2.2 y hy x (List.mem_singleton.mpr rfl)
    have hold := ih (List.pairwise_append.mp hsorted).1 fun pre y post he hy =>
      h pre y (post ++ [x]) (by rw [he]; simp) hy
    by_cases hx : (p x && decide (a ≤ date x ∧ date x ≤ b)) = true
    · have hin := hx
      rw [Bool.and_eq_true, decide_eq_true_eq] at hin
      obtain ⟨hpx, ha, hb⟩ := hin
      have hnew := h l x [] rfl hpx a ha
      have hsame : ((l ++ [x]).countP fun y => p y && decide (a ≤ date y ∧ date y ≤ b)) =
          (l ++ [x]).countP fun y => p y && decide (a ≤ date y) := by
        refine List.countP_congr fun y hy => ?_
        have hy : date y ≤ b := by
          rcases List.mem_append.mp hy with hy | hy
          · exact (hbefore y hy).trans hb
          · rwa [List.mem_singleton.mp hy]
        simp [hy]
      have hspan : ((date x - a : Nat) : ℚ) ≤ ((b - a : Nat) : ℚ) := Nat.cast_le.mpr (by omega)
      have hrate := mul_le_mul_of_nonneg_right hspan hr
      rw [hsame]
      linarith
    · rw [List.countP_append, List.countP_singleton, if_neg hx, Nat.add_zero]
      exact hold

end Maxim.Library
