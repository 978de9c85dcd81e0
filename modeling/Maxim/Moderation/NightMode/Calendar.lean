import Maxim.Library.CivilTime
import Maxim.Library.IntervalRuns
import Mathlib.Algebra.GroupWithZero.Nat
import Mathlib.Data.List.Sort

/-!
# The calendar of the night mode

The nights around an instant are worked out from the days around it, and nights
that touch are merged. What the list shows inside its two outer nights is kept
for later calls with the same geometry.
-/

namespace Maxim.Moderation.NightMode

open Maxim.Library

/-- What a date library says about the clocks of a zone. -/
structure WallClock where
  localDay : Int → Int
  /-- The instant that the library makes of a day and a minute of it. -/
  fromObject : Int → Nat → Int
  /-- The instants with the same local date and time. -/
  possibleOffsets : Int → List Int

/-- The instant itself is one of its possible offsets, so the minimum is always a number. -/
def WallClock.resolveBoundary (z : WallClock) (day : Int) (minutes : Nat) : Int :=
  (z.possibleOffsets (z.fromObject day minutes)).min?.getD (z.fromObject day minutes)

def HOUR_MS : Int := 3600000

/-- A zone between UTC-12 and UTC+14 in which a minute of a later day is not earlier. -/
structure ZoneClock extends WallClock where
  mem_possibleOffsets : ∀ t, t ∈ possibleOffsets t
  boundary_mono : ∀ m, Monotone fun day => toWallClock.resolveBoundary day m
  boundary_ge : ∀ day (m : Nat),
    day * DAY_MS + m * MINUTE_MS - 14 * HOUR_MS ≤ toWallClock.resolveBoundary day m
  boundary_le : ∀ day (m : Nat),
    toWallClock.resolveBoundary day m ≤ day * DAY_MS + m * MINUTE_MS + 12 * HOUR_MS

/-- The libraries for zones: the zones of the one, the names and days of the other. -/
structure Zones where
  zone : String → Option ZoneClock
  intl : String → Bool
  zonedDay : String → Int → Option Int

instance dayMinutesNeZero : NeZero 1440 := ⟨by decide⟩

abbrev DayMinutes := Fin 1440

structure NightModeCalendarGeometry where
  timezone : String
  startMinutes : DayMinutes
  endMinutes : DayMinutes
  deriving DecidableEq

/-- A date key is the number of its day. -/
structure NightModeCalendarWindow where
  sessionDateKey : Int
  memberDateKeys : List Int
  closeAtMs : Int
  openAtMs : Int
  deriving DecidableEq

structure Calendar where
  fromMs : Int
  untilMs : Int
  windows : List NightModeCalendarWindow

def NIGHT_MODE_CALENDAR_CACHE_LIMIT : Nat := 256

/-- The map `calendars`, in the order of its insertions. -/
abbrev Calendars := List (String × Calendar)

/-- A function that reads and writes `calendars`; what is thrown is a text. -/
abbrev CalendarM := ExceptT String (StateM Calendars)

theorem CalendarM.bind_apply {α β : Type} (x : CalendarM α) (f : α → CalendarM β)
    (calendars : Calendars) : (x >>= f) calendars =
      match x calendars with
      | (.ok a, calendars') => f a calendars'
      | (.error e, calendars') => (.error e, calendars') := by
  change (match x calendars with | (a, calendars') => ExceptT.bindCont f a calendars') = _
  rcases x calendars with ⟨_ | a, calendars'⟩ <;> rfl

theorem CalendarM.ofExcept_apply {α : Type} (e : Except String α) (calendars : Calendars) :
    (ofExcept e : CalendarM α) calendars = (e, calendars) := by
  cases e <;> rfl

def calendarKey (geometry : NightModeCalendarGeometry) : String :=
  geometry.timezone ++ ":" ++ geometry.startMinutes.val.repr ++ ":" ++ geometry.endMinutes.val.repr

def openDay (geometry : NightModeCalendarGeometry) (day : Int) : Int :=
  if geometry.startMinutes < geometry.endMinutes then day else day + 1

/-- The night of one day; a night that ends before it starts is left out. -/
def dayWindow (z : WallClock) (geometry : NightModeCalendarGeometry) (day : Int) :
    Option NightModeCalendarWindow :=
  let closeAtMs := z.resolveBoundary day geometry.startMinutes
  let openAtMs := z.resolveBoundary (openDay geometry day) geometry.endMinutes
  if openAtMs ≤ closeAtMs then none
  else some { sessionDateKey := day, memberDateKeys := [day], closeAtMs, openAtMs }

/-- The order of `raw.sort`. -/
def Before (left right : NightModeCalendarWindow) : Prop :=
  left.closeAtMs < right.closeAtMs ∨
    left.closeAtMs = right.closeAtMs ∧ left.sessionDateKey ≤ right.sessionDateKey

instance : DecidableRel Before := fun _ _ => inferInstanceAs (Decidable (_ ∨ _))

def rawWindows (z : WallClock) (geometry : NightModeCalendarGeometry) (today : Int) (radius : Nat) :
    List NightModeCalendarWindow :=
  ((days (today - radius) (today + radius)).filterMap (dayWindow z geometry)).insertionSort Before

/-- The loop over `raw`; `previous` is `merged.at(-1)`. -/
def mergeFrom (previous : NightModeCalendarWindow) :
    List NightModeCalendarWindow → List NightModeCalendarWindow
  | [] => [previous]
  | item :: rest =>
    if item.closeAtMs ≤ previous.openAtMs then
      mergeFrom
        { previous with
          openAtMs := max previous.openAtMs item.openAtMs
          memberDateKeys := previous.memberDateKeys ++ item.memberDateKeys } rest
    else previous :: mergeFrom item rest

def mergeWindows : List NightModeCalendarWindow → List NightModeCalendarWindow
  | [] => []
  | item :: rest => mergeFrom item rest

/-- The outer components can be truncated: both sides need a sealed neighbour. -/
def sealCalendar (merged : List NightModeCalendarWindow) (atMs : Int) : Option Calendar :=
  match merged[2]?, merged.dropLast.getLast? with
  | some third, some lastButOne =>
    if atMs < third.closeAtMs ∨ lastButOne.closeAtMs ≤ atMs then none
    else
      some
        { fromMs := third.closeAtMs
          untilMs := lastButOne.closeAtMs
          windows := merged.tail.dropLast }
  | _, _ => none

/-- The loop over the two radii. -/
def searchCalendar (z : WallClock) (geometry : NightModeCalendarGeometry) (atMs : Int) :
    Option Calendar :=
  [8, 32].findSome? fun radius =>
    sealCalendar (mergeWindows (rawWindows z geometry (z.localDay atMs) radius)) atMs

def cachedCalendar (calendars : Calendars) (geometry : NightModeCalendarGeometry) (atMs : Int) :
    Option Calendar :=
  (calendars.lookup (calendarKey geometry)).filter fun cached =>
    decide (cached.fromMs ≤ atMs) && decide (atMs < cached.untilMs)

def deleteKey (calendars : Calendars) (key : String) : Calendars :=
  calendars.filter fun entry => entry.1 != key

def evict (calendars : Calendars) : Calendars :=
  if NIGHT_MODE_CALENDAR_CACHE_LIMIT ≤ calendars.length then calendars.tail else calendars

/-- `resolveNightModeCalendar` with the zones that the date library knows; an instant that is not
finite is `none`. -/
def resolveCalendar (zone : String → Option WallClock) (geometry : NightModeCalendarGeometry)
    (atMs : Option Int) : CalendarM (List NightModeCalendarWindow) := fun calendars =>
  match atMs with
  | none => (.error "Invalid night mode calendar instant", calendars)
  | some atMs =>
    let key := calendarKey geometry
    match cachedCalendar calendars geometry atMs with
    | some cached => (.ok cached.windows, deleteKey calendars key ++ [(key, cached)])
    | none =>
      match zone geometry.timezone with
      | none => (.error "Invalid night mode calendar zone", calendars)
      | some z =>
        match searchCalendar z geometry atMs with
        | none => (.error "Night mode calendar exceeds bounded interval search", calendars)
        | some calendar =>
          (.ok calendar.windows, evict (deleteKey calendars key) ++ [(key, calendar)])

def Zones.clock (zones : Zones) (name : String) : Option WallClock :=
  (zones.zone name).map ZoneClock.toWallClock

def resolveNightModeCalendar (zones : Zones) (geometry : NightModeCalendarGeometry)
    (atMs : Option Int) : CalendarM (List NightModeCalendarWindow) :=
  resolveCalendar zones.clock geometry atMs

/-! ## The nights of a zone -/

def WallClock.InOrder (z : WallClock) : Prop := ∀ m, Monotone fun day => z.resolveBoundary day m

/-- The nights of all days, merged or not. -/
def clockNights (z : WallClock) (hz : z.InOrder) (geometry : NightModeCalendarGeometry) :
    Intervals Int where
  closes day := z.resolveBoundary day geometry.startMinutes
  opens day := z.resolveBoundary (openDay geometry day) geometry.endMinutes
  closes_mono := hz geometry.startMinutes
  opens_mono := by
    intro day day' hle
    refine hz geometry.endMinutes ?_
    unfold openDay
    split
    · exact hle
    · exact Int.add_le_add_right hle 1

def nights (z : ZoneClock) (geometry : NightModeCalendarGeometry) : Intervals Int :=
  clockNights z.toWallClock z.boundary_mono geometry

def windowOf (I : Intervals Int) (r : Int × Int) : NightModeCalendarWindow where
  sessionDateKey := r.1
  memberDateKeys := (days r.1 r.2).filter fun day => I.Valid day
  closeAtMs := I.closes r.1
  openAtMs := I.opens r.2

def window (z : ZoneClock) (geometry : NightModeCalendarGeometry) (r : Int × Int) :
    NightModeCalendarWindow := windowOf (nights z geometry) r

section Merge

variable {z : WallClock} {geometry : NightModeCalendarGeometry} {I : Intervals Int}

theorem dayWindow_eq (hz : z.InOrder) (day : Int) : dayWindow z geometry day =
    if (clockNights z hz geometry).Valid day then
      some (windowOf (clockNights z hz geometry) (day, day)) else none := by
  by_cases hvalid : (clockNights z hz geometry).Valid day
  · have hlt : z.resolveBoundary day geometry.startMinutes <
        z.resolveBoundary (openDay geometry day) geometry.endMinutes := hvalid
    have hdays : (days day day).filter (fun d => (clockNights z hz geometry).Valid d) = [day] := by
      rw [days_self]
      simp [hvalid]
    rw [if_pos hvalid, dayWindow, if_neg (not_le.mpr hlt), windowOf, hdays]
    rfl
  · have hle : z.resolveBoundary (openDay geometry day) geometry.endMinutes ≤
        z.resolveBoundary day geometry.startMinutes := not_lt.mp hvalid
    rw [if_neg hvalid, dayWindow, if_pos hle]

theorem filterMap_dayWindow (hz : z.InOrder) (ds : List Int) :
    ds.filterMap (dayWindow z geometry) =
      (ds.filter fun day => (clockNights z hz geometry).Valid day).map
        fun day => windowOf (clockNights z hz geometry) (day, day) := by
  induction ds with
  | nil => rfl
  | cons day ds ih =>
    rw [List.filterMap_cons, dayWindow_eq hz, List.filter_cons, ih]
    by_cases hvalid : (clockNights z hz geometry).Valid day
    · rw [if_pos hvalid, if_pos (decide_eq_true hvalid)]
      rfl
    · rw [if_neg hvalid, if_neg (by simpa using hvalid)]

theorem rawWindows_eq (hz : z.InOrder) (today : Int) (radius : Nat) :
    rawWindows z geometry today radius =
      ((days (today - radius) (today + radius)).filter
        fun day => (clockNights z hz geometry).Valid day).map
        fun day => windowOf (clockNights z hz geometry) (day, day) := by
  unfold rawWindows
  rw [filterMap_dayWindow hz]
  refine List.Pairwise.insertionSort_eq (List.pairwise_map.mpr ?_)
  have hsorted := (days_sorted (today - radius) (today + radius)).filter
    fun day => decide ((clockNights z hz geometry).Valid day)
  refine hsorted.imp fun {d d'} hlt => ?_
  have hmono := (clockNights z hz geometry).closes_mono (Int.le_of_lt hlt)
  rcases Int.lt_or_eq_of_le hmono with hclose | hclose
  · exact .inl hclose
  · exact .inr ⟨hclose, Int.le_of_lt hlt⟩

/-! ## Merged nights -/

/-- `ds` are the next nights after the day `last`. -/
structure NextNights (I : Intervals Int) (last : Int) (ds : List Int) : Prop where
  sorted : (last :: ds).Pairwise (· < ·)
  valid : ∀ d ∈ ds, I.Valid d
  all : ∀ e ∈ ds, ∀ d, last < d → d ≤ e → I.Valid d → d ∈ ds

theorem NextNights.tail {last d : Int} {ds : List Int} (h : NextNights I last (d :: ds)) :
    NextNights I d ds where
  sorted := (List.pairwise_cons.mp h.sorted).2
  valid := fun e he => h.valid e (List.mem_cons_of_mem d he)
  all := by
    intro e he c hlt hle hvalid
    have hlast := (List.pairwise_cons.mp h.sorted).1 d List.mem_cons_self
    have hmem := h.all e (List.mem_cons_of_mem d he) c (Int.lt_trans hlast hlt) hle hvalid
    rcases List.mem_cons.mp hmem with rfl | hmem
    · exact absurd hlt (Int.lt_irrefl c)
    · exact hmem

theorem NextNights.none_between {last d : Int} {ds : List Int}
    (h : NextNights I last (d :: ds)) {c : Int} (hlast : last < c) (hlt : c < d) :
    ¬ I.Valid c := by
  intro hvalid
  have hmem := h.all d List.mem_cons_self c hlast (Int.le_of_lt hlt) hvalid
  rcases List.mem_cons.mp hmem with rfl | hmem
  · exact Int.lt_irrefl c hlt
  · have hd := (List.pairwise_cons.mp (List.pairwise_cons.mp h.sorted).2).1 c hmem
    omega

theorem window_extend {r : Int × Int} {d : Int} {ds : List Int} (hr : r.1 ≤ r.2)
    (h : NextNights I r.2 (d :: ds)) :
    { windowOf I r with
      openAtMs := max (windowOf I r).openAtMs (windowOf I (d, d)).openAtMs
      memberDateKeys :=
        (windowOf I r).memberDateKeys ++ (windowOf I (d, d)).memberDateKeys } =
      windowOf I (r.1, d) := by
  have hlt : r.2 < d := (List.pairwise_cons.mp h.sorted).1 d List.mem_cons_self
  have hopens := I.opens_mono (Int.le_of_lt hlt)
  have hskipped : (days (r.2 + 1) (d - 1)).filter (fun c => I.Valid c) = [] := by
    refine List.filter_eq_nil_iff.mpr fun c hc => ?_
    obtain ⟨hfirst, hlast⟩ := mem_days.mp hc
    simpa using h.none_between (show r.2 < c by omega) (show c < d by omega)
  have hdays : days r.1 d = days r.1 r.2 ++ (days (r.2 + 1) (d - 1) ++ days d d) := by
    have hd : d - 1 + 1 = d := by omega
    rw [days_append (show r.1 ≤ r.2 + 1 by omega) (Int.le_of_lt hlt),
      days_append (show r.2 + 1 ≤ d - 1 + 1 by omega) (show d - 1 ≤ d by omega), hd]
  unfold windowOf
  rw [max_eq_right hopens, hdays, List.filter_append, List.filter_append, hskipped, List.nil_append]

theorem mergeFrom_spec {ds : List Int} {r : Int × Int} (hr : I.IsRun r)
    (h : NextNights I r.2 ds) : ∃ last rest,
    mergeFrom (windowOf I r) (ds.map fun d => windowOf I (d, d)) =
      ((r.1, last) :: rest).map (windowOf I) ∧
    (∀ s ∈ (r.1, last) :: rest, I.IsRun s) ∧
    ((r.1, last) :: rest).IsChain I.Follows := by
  induction ds generalizing r with
  | nil => exact ⟨r.2, [], rfl, by simpa using hr, .singleton _⟩
  | cons d ds ih =>
    have hlt : r.2 < d := (List.pairwise_cons.mp h.sorted).1 d List.mem_cons_self
    have hvalid : I.Valid d := h.valid d List.mem_cons_self
    rw [List.map_cons, mergeFrom]
    by_cases htouch : (windowOf I (d, d)).closeAtMs ≤ (windowOf I r).openAtMs
    · rw [if_pos htouch, window_extend hr.le h]
      exact ih (hr.extend hlt hvalid htouch) h.tail
    · rw [if_neg htouch]
      obtain ⟨last, rest, heq, hruns, hchain⟩ := ih (Intervals.isRun_single hvalid) h.tail
      refine ⟨r.2, (d, last) :: rest, congrArg (windowOf I r :: ·) heq, ?_, ?_⟩
      · intro s hs
        rcases List.mem_cons.mp hs with rfl | hs
        · exact hr
        · exact hruns s hs
      · refine List.isChain_cons_cons.mpr ⟨⟨hlt, ?_, not_le.mp htouch⟩, hchain⟩
        exact fun c hlast hc => h.none_between hlast hc

theorem mergeWindows_spec (hz : z.InOrder) (today : Int) (radius : Nat) : ∃ runs : List (Int × Int),
    mergeWindows (rawWindows z geometry today radius) = runs.map (windowOf (clockNights z hz geometry)) ∧
    (∀ s ∈ runs, (clockNights z hz geometry).IsRun s) ∧ runs.IsChain (clockNights z hz geometry).Follows := by
  rw [rawWindows_eq hz]
  generalize hds : ((days (today - radius) (today + radius)).filter
    fun day => (clockNights z hz geometry).Valid day) = ds
  cases ds with
  | nil => exact ⟨[], rfl, by simp, .nil⟩
  | cons d ds =>
    have hmem : ∀ c, c ∈ d :: ds ↔
        (today - radius ≤ c ∧ c ≤ today + radius) ∧ (clockNights z hz geometry).Valid c := by
      intro c
      rw [← hds, List.mem_filter, mem_days, decide_eq_true_iff]
    have hsorted : (d :: ds).Pairwise (· < ·) := by
      rw [← hds]
      exact (days_sorted _ _).filter _
    have hnext : NextNights (clockNights z hz geometry) d ds := by
      refine ⟨hsorted, fun e he => ((hmem e).mp (List.mem_cons_of_mem d he)).2, ?_⟩
      intro e he c hlt hle hvalid
      have hfirst := ((hmem d).mp List.mem_cons_self).1
      have hlast := ((hmem e).mp (List.mem_cons_of_mem d he)).1
      rcases List.mem_cons.mp ((hmem c).mpr ⟨by omega, hvalid⟩) with rfl | hc
      · exact absurd hlt (Int.lt_irrefl c)
      · exact hc
    have hvalid := ((hmem d).mp List.mem_cons_self).2
    obtain ⟨last, rest, heq, hruns, hchain⟩ := mergeFrom_spec (Intervals.isRun_single hvalid) hnext
    exact ⟨(d, last) :: rest, heq, hruns, hchain⟩

end Merge

end Maxim.Moderation.NightMode
