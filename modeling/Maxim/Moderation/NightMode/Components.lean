import Maxim.Library.IntervalComponents
import Maxim.Moderation.NightMode.Independence

/-!
# The calendar shows the components of all nights

A calendar works out the nights of a few days. Its windows are components of the
union of the nights of all days, whatever the boundaries are, as long as those of
a later day are not earlier.
-/

namespace Maxim.Moderation.NightMode

open Maxim.Library

/-- The windows are a run of the components of all nights, and they are exact in the range of the
calendar. -/
structure ExactCalendar (I : Intervals Int) (calendar : Calendar) : Prop where
  lasts : ∀ w ∈ calendar.windows, w.closeAtMs < w.openAtMs
  separated : calendar.windows.Pairwise fun v w => v.openAtMs < w.closeAtMs
  component : ∀ w ∈ calendar.windows, ∀ x ∈ Set.Icc (w.closeAtMs : ℝ) w.openAtMs,
    connectedComponentIn I.union x = Set.Icc (w.closeAtMs : ℝ) w.openAtMs
  members : ∀ w ∈ calendar.windows, w.memberDateKeys.Pairwise (· < ·) ∧
    w.memberDateKeys.head? = some w.sessionDateKey ∧ ∀ day, day ∈ w.memberDateKeys ↔
      I.Valid day ∧ w.closeAtMs ≤ I.closes day ∧ I.opens day ≤ w.openAtMs
  contiguous : ∀ v ∈ calendar.windows, ∀ w ∈ calendar.windows, ∀ day, I.Valid day →
    v.closeAtMs ≤ I.closes day → I.opens day ≤ w.openAtMs →
      ∃ u ∈ calendar.windows, day ∈ u.memberDateKeys
  covered : ∀ t, calendar.fromMs ≤ t → t < calendar.untilMs →
    ((∃ w ∈ calendar.windows, w.closeAtMs ≤ t ∧ t < w.openAtMs) ↔ I.Covers t)

variable {I : Intervals Int} {r : Int × Int} {calendar : Calendar}

theorem mem_members {day : Int} :
    day ∈ (windowOf I r).memberDateKeys ↔ (r.1 ≤ day ∧ day ≤ r.2) ∧ I.Valid day := by
  rw [windowOf, List.mem_filter, mem_days, decide_eq_true_iff]

theorem head_members (h : I.IsRun r) : (windowOf I r).memberDateKeys.head? = some r.1 := by
  have hle := h.le
  have hdays : days r.1 r.2 = r.1 :: days (r.1 + 1) r.2 := by
    rw [days_append (show r.1 ≤ r.1 + 1 by omega) hle, days_self]
    rfl
  rw [windowOf, hdays, List.filter_cons, if_pos (decide_eq_true h.first)]
  rfl

theorem SealedIn.exact (h : SealedIn I calendar) : ExactCalendar I calendar := by
  obtain ⟨x, y, rest, hshown, hwindows, hfrom, huntil⟩ := h
  have hwindow {w : NightModeCalendarWindow} (hw : w ∈ calendar.windows) :
      ∃ r ∈ x :: y :: rest, I.IsBlock r ∧ windowOf I r = w := by
    rw [hwindows] at hw
    obtain ⟨r, hr, rfl⟩ := List.mem_map.mp hw
    exact ⟨r, hr, hshown.block r hr, rfl⟩
  constructor
  · intro w hw
    obtain ⟨r, hr, hblock, rfl⟩ := hwindow hw
    exact hblock.closes_lt_opens
  · rw [hwindows]
    exact List.pairwise_map.mpr hshown.sorted
  · intro w hw t ht
    obtain ⟨r, hr, hblock, rfl⟩ := hwindow hw
    exact hblock.connectedComponentIn_eq ht
  · intro w hw
    obtain ⟨r, hr, hblock, rfl⟩ := hwindow hw
    refine ⟨(days_sorted _ _).filter _, head_members hblock.toIsRun, fun day => ?_⟩
    rw [mem_members, and_comm]
    exact and_congr_right fun hvalid => hblock.mem_iff hvalid
  · intro v hv w hw day hvalid hclose hopen
    obtain ⟨first, hfirst, hblock, rfl⟩ := hwindow hv
    obtain ⟨last, hlast, hblock', rfl⟩ := hwindow hw
    have hday : I.closes day < I.opens day := hvalid
    have hle : first.1 ≤ day := by
      by_contra hlt
      have hbefore : I.opens day < I.closes first.1 := hblock.before day (not_le.mp hlt) hvalid
      have hstart : I.closes first.1 ≤ I.closes day := hclose
      omega
    have hge : day ≤ last.2 := by
      by_contra hlt
      have hafter : I.opens last.2 < I.closes day := hblock'.after day (not_le.mp hlt) hvalid
      have hend : I.opens day ≤ I.opens last.2 := hopen
      omega
    obtain ⟨r, hr, hin⟩ := hshown.exists_block hfirst hlast hvalid hle hge
    refine ⟨windowOf I r, ?_, mem_members.mpr ⟨hin, hvalid⟩⟩
    rw [hwindows]
    exact List.mem_map_of_mem hr
  · intro t hstarted hearly
    rw [hfrom] at hstarted
    rw [huntil] at hearly
    obtain ⟨before, p, c, n, after, heq, haround⟩ := hshown.exists_around hstarted hearly
    rw [haround.covers_iff]
    constructor
    · rintro ⟨w, hw, hclose, hopen⟩
      obtain ⟨r, hr, hblock, rfl⟩ := hwindow hw
      have hopen : t < I.opens r.2 := hopen
      exact haround.eq_current hblock hclose hopen.le ▸ hopen
    · intro hlt
      refine ⟨windowOf I c, ?_, haround.started, hlt⟩
      rw [hwindows, heq]
      exact List.mem_map_of_mem (by simp)

/-- Whatever the calls before, a calendar that is returned is exact. -/
theorem calendar_exact {zone : String → Option WallClock}
    (hzones : ∀ name z, zone name = some z → z.InOrder)
    (history : List (NightModeCalendarGeometry × Option Int)) {geometry : NightModeCalendarGeometry}
    {at' : Option Int} {ws : List NightModeCalendarWindow}
    (h : (resolveCalendar zone geometry at' (callsIn zone history)).1 = .ok ws) :
    ∃ atMs z hz calendar, at' = some atMs ∧ zone geometry.timezone = some z ∧
      (resolveCalendar zone geometry at' (callsIn zone history)).2.getLast? =
        some (calendarKey geometry, calendar) ∧ calendar.windows = ws ∧ calendar.fromMs ≤ atMs ∧
      atMs < calendar.untilMs ∧ ExactCalendar (clockNights z hz geometry) calendar := by
  obtain ⟨atMs, z, hz, calendar, hat, hzone, hsealed, hfrom, huntil, hws, hlast⟩ :=
    resolveCalendar_spec hzones (callsIn_ok hzones history) (Prod.ext h rfl)
  exact ⟨atMs, z, hz, calendar, hat, hzone, hlast, hws, hfrom, huntil, hsealed.exact⟩

/-- The nights of two weeks in UTC. -/
theorem calendar_exact_utc : ∃ calendar,
    calendar.windows = (days (-7) 7).map (fun day => NightModeCalendarWindow.mk day [day]
      (day * DAY_MS + 82800000) (day * DAY_MS + 115200000)) ∧
    ExactCalendar (clockNights utcClock.toWallClock utcClock.boundary_mono ⟨"UTC", 1380, 480⟩)
      calendar := by
  have hws : (resolveCalendar utcOnly.clock ⟨"UTC", 1380, 480⟩ (some 0)
      (callsIn utcOnly.clock earlier)).1 =
        .ok ((days (-7) 7).map fun day => NightModeCalendarWindow.mk day [day]
          (day * DAY_MS + 82800000) (day * DAY_MS + 115200000)) := by decide +kernel
  obtain ⟨atMs, z, hz, calendar, -, hzone, -, hws, -, -, hexact⟩ :=
    calendar_exact clock_inOrder earlier hws
  obtain rfl := Option.some.inj hzone
  exact ⟨calendar, hws, hexact⟩

end Maxim.Moderation.NightMode
