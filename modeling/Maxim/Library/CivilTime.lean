import Mathlib.Algebra.Order.Group.Int
import Mathlib.Order.Lattice

/-!
# Local dates and times of a zone

Instants are milliseconds, local dates are numbered by days, and a local time is
the number of milliseconds that the clock shows on its day. A zone skips and
repeats local times, but its days follow each other, and a time that it shows
on a day it shows before every later time of that day.
-/

namespace Maxim.Library

def DAY_MS : Int := 86400000

def MINUTE_MS : Int := 60000

/-- A time zone, as a date library presents it. -/
structure Zone where
  localDay : Int → Int
  localMs : Int → Int
  /-- The instant that the library makes of a day and a minute of it. -/
  fromObject : Int → Nat → Int
  /-- The instants with the same local date and time. -/
  possibleOffsets : Int → List Int
  localDay_mono : ∀ t t', t ≤ t' → localDay t ≤ localDay t'
  mem_possibleOffsets : ∀ t t',
    t' ∈ possibleOffsets t ↔ localDay t' = localDay t ∧ localMs t' = localMs t
  fromObject_exact : ∀ d (m : Nat), localDay (fromObject d m) = d →
    localMs (fromObject d m) / MINUTE_MS = m → localMs (fromObject d m) = m * MINUTE_MS
  earlier : ∀ t t', localDay t = localDay t' → localMs t < localMs t' →
    ∃ t₀, t₀ < t' ∧ localDay t₀ = localDay t ∧ localMs t₀ = localMs t

/-- The earliest instant of a minute of a day; `none` if the day skips it. -/
def Zone.resolve (z : Zone) (day : Int) (minute : Nat) : Option Int :=
  let candidate := z.fromObject day minute
  if z.localDay candidate ≠ day ∨ z.localMs candidate / MINUTE_MS ≠ minute then none
  else (z.possibleOffsets candidate).min?

/-- The days numbered `first` to `last`. -/
def days (first last : Int) : List Int :=
  (List.range (last + 1 - first).toNat).map fun n : Nat => first + n

theorem mem_days {first last d : Int} : d ∈ days first last ↔ first ≤ d ∧ d ≤ last := by
  simp only [days, List.mem_map, List.mem_range]
  constructor
  · rintro ⟨n, hn, rfl⟩
    omega
  · rintro ⟨hfirst, hlast⟩
    exact ⟨(d - first).toNat, by omega, by omega⟩

theorem days_sorted (first last : Int) : (days first last).Pairwise (· < ·) := by
  refine List.pairwise_map.mpr (List.pairwise_lt_range.imp fun hlt => ?_)
  omega

theorem days_self (d : Int) : days d d = [d] := by
  rw [days, show (d + 1 - d).toNat = 1 by omega]
  simp

theorem days_append {first mid last : Int} (h : first ≤ mid + 1) (h' : mid ≤ last) :
    days first last = days first mid ++ days (mid + 1) last := by
  have hcount : (last + 1 - first).toNat = (mid + 1 - first).toNat + (last + 1 - (mid + 1)).toNat := by
    omega
  rw [days, days, days, hcount, List.range_add, List.map_append, List.map_map]
  refine congrArg (_ ++ ·) (List.map_congr_left fun n _ => ?_)
  change first + ((mid + 1 - first).toNat + n : Nat) = mid + 1 + n
  omega

namespace Zone

variable (z : Zone) {d d' t t' : Int} {m m' : Nat}

theorem resolve_eq_some (h : z.resolve d m = some t) :
    z.localDay t = d ∧ z.localMs t = m * MINUTE_MS ∧
      ∀ t', z.localDay t' = d → z.localMs t' = m * MINUTE_MS → t ≤ t' := by
  unfold resolve at h
  dsimp only at h
  split at h
  · cases h
  · next hc =>
    rw [not_or, not_not, not_not] at hc
    have hms := z.fromObject_exact d m hc.1 hc.2
    obtain ⟨hmem, hmin⟩ := List.min?_eq_some_iff.mp h
    obtain ⟨hday, hlocal⟩ := (z.mem_possibleOffsets _ _).mp hmem
    refine ⟨hday.trans hc.1, hlocal.trans hms, fun t' hday' hms' => hmin t' ?_⟩
    exact (z.mem_possibleOffsets _ _).mpr ⟨hday'.trans hc.1.symm, hms'.trans hms.symm⟩

theorem resolve_lt_of_day (h : z.resolve d m = some t) (h' : z.resolve d' m' = some t')
    (hlt : d < d') : t < t' := by
  by_contra hle
  have hmono := z.localDay_mono t' t (Int.not_lt.mp hle)
  rw [(z.resolve_eq_some h).1, (z.resolve_eq_some h').1] at hmono
  omega

theorem resolve_lt_of_minute (h : z.resolve d m = some t) (h' : z.resolve d m' = some t')
    (hlt : m < m') : t < t' := by
  obtain ⟨hday, hms, hmin⟩ := z.resolve_eq_some h
  obtain ⟨hday', hms', -⟩ := z.resolve_eq_some h'
  have hmslt : z.localMs t < z.localMs t' := by
    rw [hms, hms', MINUTE_MS]
    omega
  obtain ⟨t₀, hlt₀, hday₀, hms₀⟩ := z.earlier t t' (hday.trans hday'.symm) hmslt
  have hle := hmin t₀ (hday₀.trans hday) (hms₀.trans hms)
  omega

theorem resolve_le (h : z.resolve d m = some t) (h' : z.resolve d m' = some t') (hle : m ≤ m') :
    t ≤ t' := by
  rcases Nat.lt_or_eq_of_le hle with hlt | rfl
  · exact Int.le_of_lt (z.resolve_lt_of_minute h h' hlt)
  · rw [h] at h'
    exact le_of_eq (Option.some.inj h')

end Zone

def utc : Zone where
  localDay t := t / DAY_MS
  localMs t := t % DAY_MS
  fromObject d m := d * DAY_MS + m * MINUTE_MS
  possibleOffsets t := [t]
  localDay_mono t t' h := by
    unfold DAY_MS
    omega
  mem_possibleOffsets t t' := by
    simp only [List.mem_singleton, DAY_MS]
    omega
  fromObject_exact d m hday hms := by
    simp only [DAY_MS, MINUTE_MS] at *
    omega
  earlier t t' hday hlt := by
    refine ⟨t, ?_, rfl, rfl⟩
    simp only [DAY_MS] at *
    omega

example : utc.resolve 1 90 = some 91800000 := by decide

end Maxim.Library
