import Mathlib.Data.Int.Order.Basic
import Maxim.Library.Text

/-!
# Civil dates and their texts

Days are numbered from 1970-01-01. The text of a day is the calendar date of
ISO 8601; two days never have the same text.
-/

namespace Maxim.Library

structure Civil where
  year : Int
  month : Int
  day : Int
  deriving DecidableEq

/-- The year and the day of it of a day of four centuries; a year starts in March. -/
def yearOfEra (dayOfEra : Int) : Int × Int :=
  let century := min (dayOfEra / 36524) 3
  let left := dayOfEra - century * 36524
  let year := min (left % 1461 / 365) 3
  (century * 100 + left / 1461 * 4 + year, left % 1461 - year * 365)

def civilOfDay (n : Int) : Civil :=
  let era := (n + 719468) / 146097
  let (year, dayOfYear) := yearOfEra ((n + 719468) % 146097)
  let march := (5 * dayOfYear + 2) / 153
  let month := if march < 10 then march + 3 else march - 9
  { year := era * 400 + year + (if month ≤ 2 then 1 else 0)
    month := month
    day := dayOfYear - (153 * march + 2) / 5 + 1 }

def dayOfCivil (c : Civil) : Int :=
  let year := if c.month ≤ 2 then c.year - 1 else c.year
  let march := if c.month ≤ 2 then c.month + 9 else c.month - 3
  let yearOfEra := year % 400
  year / 400 * 146097 + (yearOfEra * 365 + yearOfEra / 4 - yearOfEra / 100) +
    (153 * march + 2) / 5 + c.day - 1 - 719468

def padStart (width n : Nat) : List Char :=
  List.replicate (width - (Nat.toDigits 10 n).length) '0' ++ Nat.toDigits 10 n

def yearText (year : Int) : List Char :=
  if 0 ≤ year ∧ year ≤ 9999 then padStart 4 year.toNat
  else (if year < 0 then '-' else '+') :: padStart 6 year.natAbs

def isoDate (n : Int) : List Char :=
  let c := civilOfDay n
  yearText c.year ++ '-' :: padStart 2 c.month.toNat ++ '-' :: padStart 2 c.day.toNat

example : isoDate 19782 = "2024-02-29".toList := by decide +kernel

/-! ## Days and dates -/

theorem yearOfEra_spec {dayOfEra year dayOfYear : Int} (h0 : 0 ≤ dayOfEra) (h1 : dayOfEra < 146097)
    (h : yearOfEra dayOfEra = (year, dayOfYear)) :
    0 ≤ year ∧ year < 400 ∧ 0 ≤ dayOfYear ∧ dayOfYear ≤ 365 ∧
      year * 365 + year / 4 - year / 100 + dayOfYear = dayOfEra := by
  obtain ⟨hyear, hday⟩ := Prod.mk.inj h
  generalize hcentury : min (dayOfEra / 36524) 3 = century at hyear hday
  have hcenturies : 0 ≤ century ∧ century ≤ 3 := by omega
  generalize hl : dayOfEra - century * 36524 = left at hyear hday
  have hleft : 0 ≤ left ∧ left ≤ 36524 := by omega
  generalize hq : left / 1461 = q at hyear hday
  generalize hr : left % 1461 = r at hyear hday
  generalize hrest : min (r / 365) 3 = rest at hyear hday
  have hq' : 0 ≤ q ∧ q ≤ 24 := by omega
  have hrest' : 0 ≤ rest ∧ rest ≤ 3 := by omega
  have hquarter : year / 4 = century * 25 + q := by omega
  have hhundred : year / 100 = century := by omega
  rw [hquarter, hhundred]
  omega

theorem dayOfCivil_civilOfDay (n : Int) : dayOfCivil (civilOfDay n) = n := by
  cases h : yearOfEra ((n + 719468) % 146097) with
  | mk year dayOfYear =>
    obtain ⟨hyear, hyear', hday, hday', hera⟩ := yearOfEra_spec (by omega) (by omega) h
    have hdiv : ((n + 719468) / 146097 * 400 + year) / 400 = (n + 719468) / 146097 := by omega
    have hmod : ((n + 719468) / 146097 * 400 + year) % 400 = year := by omega
    unfold civilOfDay dayOfCivil
    rw [h]
    dsimp only
    by_cases hmarch : (5 * dayOfYear + 2) / 153 < 10
    · have hmonth : ¬ (5 * dayOfYear + 2) / 153 + 3 ≤ 2 := by omega
      simp only [if_pos hmarch, if_neg hmonth, Int.add_zero, hdiv, hmod]
      omega
    · have hmonth : (5 * dayOfYear + 2) / 153 - 9 ≤ 2 := by omega
      simp only [if_neg hmarch, if_pos hmonth, Int.add_sub_cancel, hdiv, hmod]
      omega

theorem civilOfDay_bounds (n : Int) : 0 ≤ (civilOfDay n).month ∧ 0 ≤ (civilOfDay n).day := by
  cases h : yearOfEra ((n + 719468) % 146097) with
  | mk year dayOfYear =>
    obtain ⟨-, -, hday, hday', -⟩ := yearOfEra_spec (by omega) (by omega) h
    unfold civilOfDay
    rw [h]
    dsimp only
    split <;> omega

/-! ## Texts -/

theorem isDigit_of_mem_padStart {width n : Nat} {c : Char} (h : c ∈ padStart width n) :
    c.isDigit = true := by
  rcases List.mem_append.mp h with hzero | hdigit
  · rw [List.eq_of_mem_replicate hzero]
    rfl
  · exact Nat.isDigit_of_mem_toDigits (by decide) (by decide) hdigit

theorem not_mem_padStart {width n : Nat} {c : Char} (h : c.isDigit = false) : c ∉ padStart width n :=
  fun hmem => Bool.false_ne_true (h.symm.trans (isDigit_of_mem_padStart hmem))

theorem padStart_inj {width m n : Nat} (h : padStart width m = padStart width n) : m = n := by
  have hvalue : ∀ k, Nat.ofDigitChars 10 (padStart width k) 0 = k := fun k => by
    rw [padStart, Nat.ofDigitChars_append, Nat.ofDigitChars_replicate_zero, Nat.mul_zero,
      Nat.ofDigitChars_ten_toDigits]
  rw [← hvalue m, ← hvalue n, h]

theorem padStart_ne_cons {width n : Nat} {c : Char} {s : List Char} (h : c.isDigit = false) :
    padStart width n ≠ c :: s := fun heq =>
  not_mem_padStart h (heq ▸ List.mem_cons_self)

theorem yearText_inj {y y' : Int} (h : yearText y = yearText y') : y = y' := by
  have hsign : ∀ z : Int, (if z < 0 then '-' else '+').isDigit = false := fun z => by
    split <;> rfl
  unfold yearText at h
  by_cases hy : 0 ≤ y ∧ y ≤ 9999 <;> by_cases hy' : 0 ≤ y' ∧ y' ≤ 9999
  · rw [if_pos hy, if_pos hy'] at h
    have heq := padStart_inj h
    omega
  · rw [if_pos hy, if_neg hy'] at h
    exact absurd h (padStart_ne_cons (hsign y'))
  · rw [if_neg hy, if_pos hy'] at h
    exact absurd h.symm (padStart_ne_cons (hsign y))
  · rw [if_neg hy, if_neg hy'] at h
    obtain ⟨hc, hdigits⟩ := List.cons.inj h
    have habs := padStart_inj hdigits
    by_cases hneg : y < 0 <;> by_cases hneg' : y' < 0
    · omega
    · rw [if_pos hneg, if_neg hneg'] at hc
      exact absurd hc (by decide)
    · rw [if_neg hneg, if_pos hneg'] at hc
      exact absurd hc (by decide)
    · omega

theorem isoDate_injective {n n' : Int} (h : isoDate n = isoDate n') : n = n' := by
  have hdash : Char.isDigit '-' = false := rfl
  obtain ⟨hhead, hday⟩ := append_cons_inj (not_mem_padStart hdash) (not_mem_padStart hdash) h
  obtain ⟨hyear, hmonth⟩ := append_cons_inj (not_mem_padStart hdash) (not_mem_padStart hdash) hhead
  have hyear := yearText_inj hyear
  have hmonth := padStart_inj hmonth
  have hday := padStart_inj hday
  obtain ⟨hm, hd⟩ := civilOfDay_bounds n
  obtain ⟨hm', hd'⟩ := civilOfDay_bounds n'
  have hcivil : civilOfDay n = civilOfDay n' := by
    rw [Civil.mk.injEq]
    omega
  rw [← dayOfCivil_civilOfDay n, hcivil, dayOfCivil_civilOfDay]

/-- A date consists of digits and signs. -/
theorem mem_isoDate {n : Int} {c : Char} (h : c ∈ isoDate n) :
    c.isDigit = true ∨ c = '-' ∨ c = '+' := by
  have hyear : ∀ {y : Int}, c ∈ yearText y → c.isDigit = true ∨ c = '-' ∨ c = '+' := fun {y} hmem => by
    unfold yearText at hmem
    split at hmem
    · exact .inl (isDigit_of_mem_padStart hmem)
    · rcases List.mem_cons.mp hmem with rfl | hmem
      · split
        · exact .inr (.inl rfl)
        · exact .inr (.inr rfl)
      · exact .inl (isDigit_of_mem_padStart hmem)
  rcases List.mem_append.mp h with h | h
  · rcases List.mem_append.mp h with h | h
    · exact hyear h
    · rcases List.mem_cons.mp h with rfl | h
      · exact .inr (.inl rfl)
      · exact .inl (isDigit_of_mem_padStart h)
  · rcases List.mem_cons.mp h with rfl | h
    · exact .inr (.inl rfl)
    · exact .inl (isDigit_of_mem_padStart h)

theorem isoDate_ne_nil (n : Int) : isoDate n ≠ [] := by
  unfold isoDate
  exact List.append_ne_nil_of_right_ne_nil _ (List.cons_ne_nil _ _)

end Maxim.Library
