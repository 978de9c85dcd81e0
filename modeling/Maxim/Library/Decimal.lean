import Mathlib.Data.Nat.Log
import Mathlib.Algebra.Group.Nat.Defs

/-!
# Numbers printed with a fixed count of significant digits

A number that is stored as text with `d` significant digits comes back rounded
to the nearest number that has them, ties to the even one. Short numbers come
back unchanged, the order of two numbers is never reversed, and printing what
was read back changes nothing more.
-/

namespace Maxim.Library

/-- The nearest multiple of `u`, the even one between two. -/
def roundTo (u n : Nat) : Nat :=
  if 2 * (n % u) < u ∨ 2 * (n % u) = u ∧ n / u % 2 = 0 then n / u * u else (n / u + 1) * u

/-- The unit of the last of the first `d` digits. -/
def grain (d n : Nat) : Nat := 10 ^ (Nat.log 10 n + 1 - d)

/-- What is read back of a number printed with `d` significant digits. -/
def significant (d n : Nat) : Nat := roundTo (grain d n) n

theorem roundTo_of_dvd {u n : Nat} (hu : 0 < u) (h : u ∣ n) : roundTo u n = n := by
  have hmod : n % u = 0 := Nat.mod_eq_zero_of_dvd h
  rw [roundTo, if_pos (by left; omega), Nat.div_mul_cancel h]

theorem dvd_roundTo (u n : Nat) : u ∣ roundTo u n := by
  unfold roundTo
  split <;> exact Nat.dvd_mul_left u _

theorem roundTo_bounds (u n : Nat) :
    n / u * u ≤ roundTo u n ∧ roundTo u n ≤ (n / u + 1) * u := by
  have hstep : n / u * u ≤ (n / u + 1) * u := Nat.mul_le_mul_right u (Nat.le_succ _)
  unfold roundTo
  split
  · exact ⟨Nat.le_refl _, hstep⟩
  · exact ⟨hstep, Nat.le_refl _⟩

theorem roundTo_mono {u a b : Nat} (hle : a ≤ b) : roundTo u a ≤ roundTo u b := by
  rcases Nat.lt_or_eq_of_le (Nat.div_le_div_right (c := u) hle) with hlt | heq
  · calc roundTo u a ≤ (a / u + 1) * u := (roundTo_bounds u a).2
      _ ≤ b / u * u := Nat.mul_le_mul_right u hlt
      _ ≤ roundTo u b := (roundTo_bounds u b).1
  · have hmod : a % u ≤ b % u := by
      have ha := Nat.div_add_mod a u
      have hb := Nat.div_add_mod b u
      rw [heq] at ha
      omega
    unfold roundTo
    rw [heq]
    split <;> split
    · exact Nat.le_refl _
    · exact Nat.mul_le_mul_right u (Nat.le_succ _)
    · omega
    · exact Nat.le_refl _

theorem grain_pos (d n : Nat) : 0 < grain d n := Nat.pow_pos (by decide)

variable {d : Nat}

theorem grain_dvd (hd : 0 < d) {n k : Nat} (hk : Nat.log 10 n ≤ k) : grain d n ∣ 10 ^ k :=
  Nat.pow_dvd_pow 10 (by omega)

theorem significant_le (hd : 0 < d) (n : Nat) : significant d n ≤ 10 ^ (Nat.log 10 n + 1) := by
  have hn : n ≤ 10 ^ (Nat.log 10 n + 1) := (Nat.lt_pow_succ_log_self (by decide) n).le
  have hle := roundTo_mono (u := grain d n) hn
  rwa [roundTo_of_dvd (grain_pos d n) (grain_dvd hd (Nat.le_succ _))] at hle

theorem le_significant (hd : 0 < d) {n : Nat} (hn : n ≠ 0) :
    10 ^ Nat.log 10 n ≤ significant d n := by
  have hle := roundTo_mono (u := grain d n) (Nat.pow_log_le_self 10 hn)
  rwa [roundTo_of_dvd (grain_pos d n) (grain_dvd hd (Nat.le_refl _))] at hle

theorem significant_mono (hd : 0 < d) {a b : Nat} (hle : a ≤ b) :
    significant d a ≤ significant d b := by
  rcases Nat.lt_or_eq_of_le (Nat.log_mono_right (b := 10) hle) with hlt | heq
  · have hb : b ≠ 0 := by
      rintro rfl
      simp at hlt
    calc significant d a ≤ 10 ^ (Nat.log 10 a + 1) := significant_le hd a
      _ ≤ 10 ^ Nat.log 10 b := Nat.pow_le_pow_right (by decide) hlt
      _ ≤ significant d b := le_significant hd hb
  · have hgrain : grain d a = grain d b := by rw [grain, grain, heq]
    rw [significant, significant, hgrain]
    exact roundTo_mono hle

theorem significant_significant (hd : 0 < d) (n : Nat) :
    significant d (significant d n) = significant d n := by
  rcases Nat.eq_zero_or_pos n with rfl | hpos
  · rw [show significant d 0 = 0 from roundTo_of_dvd (grain_pos d 0) (Nat.dvd_zero _)]
    exact roundTo_of_dvd (grain_pos d 0) (Nat.dvd_zero _)
  · have hlow := le_significant hd (Nat.ne_of_gt hpos)
    rcases Nat.lt_or_eq_of_le (significant_le hd n) with hlt | heq
    · -- the rounded number has as many digits as `n`
      have hlog : Nat.log 10 (significant d n) = Nat.log 10 n :=
        Nat.log_eq_of_pow_le_of_lt_pow hlow hlt
      have hgrain : grain d (significant d n) = grain d n := by rw [grain, grain, hlog]
      refine roundTo_of_dvd (grain_pos d _) ?_
      rw [hgrain]
      exact dvd_roundTo _ _
    · refine roundTo_of_dvd (grain_pos d _) ?_
      rw [heq]
      exact grain_dvd hd (by rw [Nat.log_pow (by decide)])

theorem significant_of_lt (hd : 0 < d) {n : Nat} (h : n < 10 ^ d) : significant d n = n := by
  refine roundTo_of_dvd (grain_pos d n) ?_
  have hlog : Nat.log 10 n + 1 - d = 0 := by
    have hlt := Nat.log_lt_of_lt_pow' (Nat.ne_of_gt hd) h
    omega
  rw [grain, hlog]
  exact Nat.one_dvd n

end Maxim.Library
