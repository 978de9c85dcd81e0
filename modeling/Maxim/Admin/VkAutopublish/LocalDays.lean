import Maxim.Admin.VkAutopublish.Plan

/-!
# Local days

The range of a local day is the start of the day and one calendar day more. Where
a date and the next one begin with their only midnight, the range is the date. A
date without midnight is left an hour late, inside the next one.
-/

namespace Maxim.Admin.VkAutopublish

open Maxim.Library

def VK_AUTOPUBLISH_DEFAULT_TIMEZONE : String := "Europe/Moscow"

/-- A zone as the date library presents it. The start of a day and the time one day later show the
wall time that is asked for if the date has it, and a later one if the clocks skip it; the choice
between two instants that show it is left open. -/
structure DayClock where
  localDay : Int → Int
  localMs : Int → Int
  startOfDay : Int → Int
  plusDay : Int → Int
  startOfDay_day : ∀ t, localDay (startOfDay t) = localDay t
  startOfDay_midnight : ∀ t u, localDay u = localDay t → localMs u = 0 → localMs (startOfDay t) = 0
  plusDay_exact : ∀ t u, localDay u = localDay t + 1 → localMs u = localMs t →
    localDay (plusDay t) = localDay t + 1 ∧ localMs (plusDay t) = localMs t

/-- The zones that the library knows by name. -/
structure DayClocks where
  zone : String → Option DayClock
  moscow : DayClock

/-- `normalizeVkAutoPublishTimezone`, with the zone of the name. -/
def DayClocks.normalize (clocks : DayClocks) (value : Option String) : String × DayClock :=
  (value.bind fun name => (clocks.zone (trim name)).map fun clock => (trim name, clock)).getD
    (VK_AUTOPUBLISH_DEFAULT_TIMEZONE, clocks.moscow)

/-- `VkAutoPublishLocalDayRange`; `finish` is its `end`. -/
structure LocalDayRange where
  timezone : String
  start : Int
  finish : Int
  deriving DecidableEq

def getVkAutoPublishLocalDayRange (clocks : DayClocks) (date : JsDate) (timezone : Option String) :
    Except String LocalDayRange := do
  let timestamp ← readDate date "at"
  let (normalizedTimezone, clock) := clocks.normalize timezone
  let start := clock.startOfDay timestamp
  return { timezone := normalizedTimezone, start, finish := clock.plusDay start }

def resolveNextLocalDayStartMs (clock : DayClock) (timestamp : Int) : Int :=
  clock.plusDay (clock.startOfDay timestamp)

namespace DayClock

variable (c : DayClock)

/-- The range holds the instant and instants of its date only, and the next day starts with the first
instant of a later date. -/
structure Holds (t : Int) (range : LocalDayRange) : Prop where
  contains : range.start ≤ t ∧ t < range.finish
  date : ∀ u, range.start ≤ u → u < range.finish → c.localDay u = c.localDay t
  later : c.localDay t < c.localDay (resolveNextLocalDayStartMs c t)
  next : ∀ u, c.localDay t < c.localDay u → resolveNextLocalDayStartMs c t ≤ u

/-- The date of an instant is one stretch of time, in which only the first instant may show midnight,
and the next date begins with its only midnight. -/
structure Level (t first next : Int) : Prop where
  stretch : ∀ u, c.localDay u = c.localDay t ↔ first ≤ u ∧ u < next
  start : ∀ u, c.localDay u = c.localDay t → c.localMs u = 0 → u = first
  nextDay : c.localDay next = c.localDay t + 1
  nextStart : ∀ u, c.localDay u = c.localDay t + 1 → (c.localMs u = 0 ↔ u = next)
  later : ∀ u, c.localDay t < c.localDay u → next ≤ u

/-- The date begins with midnight too. -/
structure Plain (t first next : Int) : Prop extends Level c t first next where
  midnight : c.localMs first = 0

variable {c} {t t' first next first' next' : Int}

theorem Level.first_day (h : c.Level t first next) : c.localDay first = c.localDay t := by
  obtain ⟨hfirst, hnext⟩ := (h.stretch t).mp rfl
  exact (h.stretch first).mpr ⟨le_refl _, lt_of_le_of_lt hfirst hnext⟩

theorem Level.next_midnight (h : c.Level t first next) : c.localMs next = 0 :=
  (h.nextStart next h.nextDay).mpr rfl

theorem Plain.startOfDay_eq (h : c.Plain t first next) : c.startOfDay t = first :=
  h.start _ (c.startOfDay_day t) (c.startOfDay_midnight t first h.first_day h.midnight)

theorem Plain.next_eq (h : c.Plain t first next) : resolveNextLocalDayStartMs c t = next := by
  have hday := h.first_day
  have hexact := c.plusDay_exact first next (hday ▸ h.nextDay) (h.next_midnight.trans h.midnight.symm)
  rw [hday, h.midnight] at hexact
  rw [resolveNextLocalDayStartMs, h.startOfDay_eq]
  exact (h.nextStart _ hexact.1).mp hexact.2

theorem Plain.holds (h : c.Plain t first next) (timezone : String) :
    c.Holds t ⟨timezone, c.startOfDay t, resolveNextLocalDayStartMs c t⟩ := by
  rw [h.startOfDay_eq, h.next_eq]
  refine ⟨(h.stretch t).mp rfl, fun u hu hu' => (h.stretch u).mpr ⟨hu, hu'⟩, ?_, ?_⟩
  · rw [h.next_eq, h.nextDay]
    omega
  · rw [h.next_eq]
    exact h.later

theorem Plain.same (h : c.Plain t first next) (h' : c.Plain t' first' next')
    (hday : c.localDay t = c.localDay t') : first = first' ∧ next = next' := by
  refine ⟨h'.start first (h.first_day.trans hday) h.midnight, ?_⟩
  exact (h'.nextStart next (hday ▸ h.nextDay)).mp h.next_midnight

theorem Plain.before (h : c.Plain t first next) (h' : c.Plain t' first' next')
    (hday : c.localDay t < c.localDay t') : next ≤ first' :=
  h.later first' (h'.first_day ▸ hday)

theorem Level.not_holds (h : c.Level t first next) (hnone : c.localMs first ≠ 0)
    (hshown : ∀ u, c.localDay u = c.localDay t →
      ∃ u', c.localDay u' = c.localDay t + 1 ∧ c.localMs u' = c.localMs u) (range : LocalDayRange) :
    ¬c.Holds t range := by
  intro hholds
  have hstart := c.startOfDay_day t
  obtain ⟨u', hday, hms⟩ := hshown _ hstart
  have hexact := (c.plusDay_exact (c.startOfDay t) u' (hstart ▸ hday) hms).2
  have hle : resolveNextLocalDayStartMs c t ≤ next := hholds.next next (by rw [h.nextDay]; omega)
  have heq : resolveNextLocalDayStartMs c t = next := le_antisymm hle (h.later _ hholds.later)
  have hzero : c.localMs (c.startOfDay t) = 0 := by
    rw [← hexact]
    change c.localMs (resolveNextLocalDayStartMs c t) = 0
    rw [heq, h.next_midnight]
  rw [h.start _ hstart hzero] at hzero
  exact hnone hzero

end DayClock

theorem getLocalDayRange_eq (clocks : DayClocks) (t : Int) (timezone : Option String) :
    getVkAutoPublishLocalDayRange clocks (some t) timezone =
      .ok ⟨(clocks.normalize timezone).1, (clocks.normalize timezone).2.startOfDay t,
        resolveNextLocalDayStartMs (clocks.normalize timezone).2 t⟩ := rfl

end Maxim.Admin.VkAutopublish
