import Maxim.Library.CivilDate
import Maxim.Moderation.NightMode.Cache

/-!
# Session keys

A session is known by a text of the zone, the two times of the day and the date
on which the night starts. What is read from the key of a session is the session.
-/

namespace Maxim.Moderation.NightMode

open Maxim.Library

def DEFAULT_NIGHT_MODE_TIMEZONE : String := "Europe/Moscow"

/-- `normalizeNightModeTimezone`; the source remembers what `Intl` has accepted before. -/
def normalizeNightModeTimezone (zones : Zones) (value : String) : String :=
  let normalized := trim value
  if normalized = "" then DEFAULT_NIGHT_MODE_TIMEZONE
  else if zones.intl normalized then normalized
  else DEFAULT_NIGHT_MODE_TIMEZONE

def normalizeDayMinutes (value : Int) (fallback : DayMinutes) : DayMinutes :=
  if h : 0 ≤ value ∧ value ≤ 1439 then ⟨value.toNat, by omega⟩ else fallback

def formatMinutesAsTime (value : DayMinutes) : List Char :=
  padStart 2 (value / 60) ++ ':' :: padStart 2 (value % 60)

def buildNightModeTransitionSessionKey (geometry : NightModeCalendarGeometry) (sessionDateKey : Int) :
    String :=
  String.ofList ("v1".toList ++ ':' :: geometry.timezone.toList ++
    ':' :: formatMinutesAsTime geometry.startMinutes ++
    ':' :: formatMinutesAsTime geometry.endMinutes ++ ':' :: isoDate sessionDateKey)

structure ParsedNightModeTransitionSession where
  geometry : NightModeCalendarGeometry
  sessionDateKey : Int

def readDigits (text : List Char) : Option Nat :=
  if text.all Char.isDigit then some (Nat.ofDigitChars 10 text 0) else none

/-- A date of four, two and two digits, as `Date.parse` reads it. -/
def readDate : List Char → Option Int
  | [y₁, y₂, y₃, y₄, d₁, m₁, m₂, d₂, a₁, a₂] => do
    let year ← readDigits [y₁, y₂, y₃, y₄]
    let month ← readDigits [m₁, m₂]
    let day ← readDigits [a₁, a₂]
    if d₁ = '-' ∧ d₂ = '-' ∧ 1 ≤ month ∧ month ≤ 12 ∧ 1 ≤ day ∧ day ≤ 31 then
      some (dayOfCivil { year, month, day })
    else none
  | _ => none

def readTime (hour minute : List Char) : Option DayMinutes := do
  let h ← readDigits hour
  let m ← readDigits minute
  if hm : hour.length = 2 ∧ minute.length = 2 ∧ h ≤ 23 ∧ m ≤ 59 then some ⟨h * 60 + m, by omega⟩
  else none

def parseNightModeTransitionSessionKey (zones : Zones) (value : String) :
    Option ParsedNightModeTransitionSession :=
  match (trim value).toList.splitOn ':' with
  | [version, timezone, startHour, startMinute, endHour, endMinute, date] => do
    let startMinutes ← readTime startHour startMinute
    let endMinutes ← readTime endHour endMinute
    let sessionDateKey ← readDate date
    let geometry : NightModeCalendarGeometry :=
      { timezone := String.ofList timezone, startMinutes, endMinutes }
    if version = "v1".toList ∧ timezone ≠ [] ∧
        normalizeNightModeTimezone zones geometry.timezone = geometry.timezone ∧
        isoDate sessionDateKey = date ∧
        buildNightModeTransitionSessionKey geometry sessionDateKey = trim value then
      some { geometry, sessionDateKey }
    else none
  | _ => none

/-! ## The way back -/

theorem colon_not_mem_padStart (width k : Nat) : ':' ∉ padStart width k := not_mem_padStart rfl

theorem colon_not_mem_isoDate (day : Int) : ':' ∉ isoDate day := by
  intro hmem
  rcases mem_isoDate hmem with h | h | h <;> exact absurd h (by decide)

theorem time_inj {m m' : DayMinutes} (hhour : padStart 2 (m / 60) = padStart 2 (m' / 60))
    (hminute : padStart 2 (m % 60) = padStart 2 (m' % 60)) : m = m' := by
  have hhour := padStart_inj hhour
  have hminute := padStart_inj hminute
  refine Fin.ext ?_
  omega

theorem toList_sessionKey (g : NightModeCalendarGeometry) (day : Int) :
    (buildNightModeTransitionSessionKey g day).toList =
      ((((("v1".toList ++ ':' :: g.timezone.toList) ++ ':' :: padStart 2 (g.startMinutes / 60)) ++
        ':' :: padStart 2 (g.startMinutes % 60)) ++ ':' :: padStart 2 (g.endMinutes / 60)) ++
        ':' :: padStart 2 (g.endMinutes % 60)) ++ ':' :: isoDate day := by
  change (String.ofList _).toList = _
  rw [String.toList_ofList]
  simp only [formatMinutesAsTime, List.append_assoc, List.cons_append]

theorem sessionKey_injective {g g' : NightModeCalendarGeometry} {day day' : Int}
    (h : buildNightModeTransitionSessionKey g day = buildNightModeTransitionSessionKey g' day') :
    g = g' ∧ day = day' := by
  have hlist := congrArg String.toList h
  rw [toList_sessionKey, toList_sessionKey] at hlist
  have hpad := colon_not_mem_padStart
  obtain ⟨hlist, hdate⟩ := append_cons_inj (colon_not_mem_isoDate _) (colon_not_mem_isoDate _) hlist
  obtain ⟨hlist, hendMinute⟩ := append_cons_inj (hpad _ _) (hpad _ _) hlist
  obtain ⟨hlist, hendHour⟩ := append_cons_inj (hpad _ _) (hpad _ _) hlist
  obtain ⟨hlist, hstartMinute⟩ := append_cons_inj (hpad _ _) (hpad _ _) hlist
  obtain ⟨hlist, hstartHour⟩ := append_cons_inj (hpad _ _) (hpad _ _) hlist
  have htimezone : g.timezone.toList = g'.timezone.toList :=
    (List.cons.inj (List.append_cancel_left hlist)).2
  refine ⟨?_, isoDate_injective hdate⟩
  rw [NightModeCalendarGeometry.mk.injEq]
  exact ⟨String.toList_inj.mp htimezone, time_inj hstartHour hstartMinute,
    time_inj hendHour hendMinute⟩

theorem trim_sessionKey (g : NightModeCalendarGeometry) (day : Int) :
    trim (buildNightModeTransitionSessionKey g day) = buildNightModeTransitionSessionKey g day := by
  have hspace : isSpace ((isoDate day).getLast (isoDate_ne_nil day)) = false := by
    rcases mem_isoDate (List.getLast_mem (isoDate_ne_nil day)) with hdigit | hdash | hplus
    · exact isSpace_of_isDigit hdigit
    · rw [hdash]
      decide
    · rw [hplus]
      decide
  have hfirst := toList_sessionKey g day
  have hlast := toList_sessionKey g day
  have hv1 : "v1".toList = ['v', '1'] := by decide
  rw [hv1] at hfirst
  rw [← List.dropLast_append_getLast (isoDate_ne_nil day), ← List.cons_append, ← List.append_assoc]
    at hlast
  exact trim_eq_self hfirst hlast (by decide) hspace

theorem parse_sessionKey {zones : Zones} {g : NightModeCalendarGeometry} {day : Int}
    {session : ParsedNightModeTransitionSession}
    (h : parseNightModeTransitionSessionKey zones (buildNightModeTransitionSessionKey g day) =
      some session) : session = { geometry := g, sessionDateKey := day } := by
  unfold parseNightModeTransitionSessionKey at h
  rw [trim_sessionKey] at h
  split at h
  · obtain ⟨startMinutes, -, h⟩ := Option.bind_eq_some_iff.mp h
    obtain ⟨endMinutes, -, h⟩ := Option.bind_eq_some_iff.mp h
    obtain ⟨sessionDateKey, -, h⟩ := Option.bind_eq_some_iff.mp h
    dsimp only at h
    split at h
    · next hvalid =>
      obtain rfl := Option.some.inj h
      obtain ⟨rfl, rfl⟩ := sessionKey_injective hvalid.2.2.2.2
      rfl
    · cases h
  · cases h

end Maxim.Moderation.NightMode

/-!
## Transitions of the night mode

Every question about the night looks at the calendar at one instant. The answer
comes from the night that started last, the one before it and the one after it,
and so it does not matter which calendar was at hand.
-/

namespace Maxim.Moderation.NightMode

open Maxim.Library

structure NightModeScheduleGeometry where
  nightModeStartTimeMinutes : Int
  nightModeEndTimeMinutes : Int
  nightModeTimezone : String

structure NightModeTransitionScheduleSettings extends NightModeScheduleGeometry where
  nightModeEnabled : Bool

inductive NightStatus where
  | «open»
  | closed
  deriving DecidableEq

inductive NightModeTransitionKind where
  | close
  | «open»
  deriving DecidableEq

structure NightModeTransitionSnapshot where
  status : NightStatus
  sessionKey : String
  geometry : NightModeCalendarGeometry
  isCloseBoundary : Bool
  isOpenBoundary : Bool
  deriving DecidableEq

structure NightModeTransitionOccurrence where
  transition : NightModeTransitionKind
  dueAt : Int
  sessionKey : String
  deriving DecidableEq

structure LatestOccurrences where
  close : Option NightModeTransitionOccurrence
  «open» : Option NightModeTransitionOccurrence
  deriving DecidableEq

/-- The answer of `resolveNightModeNoticeCatchUpWindow`. -/
structure CatchUpWindow where
  withinWindow : Bool
  endsAt : Int
  deriving DecidableEq

def NIGHT_MODE_OPEN_CATCH_UP_MAX_AGE_MS : Int := 2 * 60 * 60 * 1000

def lastMatching {α : Type} (items : List α) (predicate : α → Bool) : Option α :=
  items.reverse.find? predicate

def geometry (zones : Zones) (settings : NightModeScheduleGeometry) : NightModeCalendarGeometry where
  startMinutes := normalizeDayMinutes settings.nightModeStartTimeMinutes 1380
  endMinutes := normalizeDayMinutes settings.nightModeEndTimeMinutes 480
  timezone := normalizeNightModeTimezone zones settings.nightModeTimezone

def sessionKey (window : NightModeCalendarWindow) (value : NightModeCalendarGeometry) : String :=
  buildNightModeTransitionSessionKey value window.sessionDateKey

def occurrence (window : NightModeCalendarWindow) (value : NightModeCalendarGeometry)
    (transition : NightModeTransitionKind) : NightModeTransitionOccurrence where
  transition := transition
  sessionKey := sessionKey window value
  dueAt := if transition = .close then window.closeAtMs else window.openAtMs

/-- A function of the calendar at an instant. -/
def withCalendar {α : Type} (zones : Zones) (value : NightModeCalendarGeometry) (atMs : Option Int)
    (answer : List NightModeCalendarWindow → Except String α) : CalendarM α := do
  let windows ← resolveNightModeCalendar zones value atMs
  ofExcept (answer windows)

def formatDateKeyInTimeZone (zones : Zones) (atMs : Int) (timezone : String) : Int :=
  (zones.zonedDay timezone atMs).getD (atMs / DAY_MS)

def snapshotAt (value : NightModeCalendarGeometry) (atMs : Int)
    (windows : List NightModeCalendarWindow) : Except String (Option NightModeTransitionSnapshot) :=
  let active := windows.find? fun w => decide (w.closeAtMs ≤ atMs) && decide (atMs < w.openAtMs)
  let previous := lastMatching windows fun w => decide (w.openAtMs ≤ atMs)
  match active.or previous with
  | none => .error "Night mode calendar has no prior session"
  | some window =>
    .ok (some
      { status := if active.isSome then .closed else .open
        sessionKey := sessionKey window value
        geometry := value
        isCloseBoundary :=
          active.isSome && decide (atMs / MINUTE_MS * MINUTE_MS = window.closeAtMs)
        isOpenBoundary :=
          active.isNone && decide (atMs / MINUTE_MS * MINUTE_MS = window.openAtMs) })

def resolveNightModeTransitionSnapshot (zones : Zones) (settings : NightModeTransitionScheduleSettings)
    (now : Option Int) : CalendarM (Option NightModeTransitionSnapshot) :=
  match settings.nightModeEnabled, now with
  | true, some atMs =>
    let value := geometry zones settings.toNightModeScheduleGeometry
    if value.startMinutes = value.endMinutes then
      pure (some
        { status := .closed
          sessionKey := buildNightModeTransitionSessionKey value
            (formatDateKeyInTimeZone zones atMs value.timezone)
          geometry := value
          isCloseBoundary := false
          isOpenBoundary := false })
    else withCalendar zones value (some atMs) (snapshotAt value atMs)
  | _, _ => pure none

def occurrencesAfter (value : NightModeCalendarGeometry) (atMs : Int)
    (windows : List NightModeCalendarWindow) : List NightModeTransitionOccurrence :=
  let close := windows.find? fun w => decide (atMs < w.closeAtMs)
  let «open» := windows.find? fun w => decide (atMs < w.openAtMs)
  ((close.map fun w => occurrence w value .close).toList ++
    («open».map fun w => occurrence w value .open).toList).insertionSort fun l r => l.dueAt ≤ r.dueAt

/-- `resolveNextNightModeTransitionOccurrences`; the calendar refuses a date that is not valid. -/
def resolveNextNightModeTransitionOccurrences (zones : Zones)
    (settings : NightModeTransitionScheduleSettings) (now : Option Int) :
    CalendarM (List NightModeTransitionOccurrence) :=
  let value := geometry zones settings.toNightModeScheduleGeometry
  if settings.nightModeEnabled = false then pure []
  else if value.startMinutes = value.endMinutes then pure []
  else withCalendar zones value now fun windows =>
    .ok (occurrencesAfter value (now.getD 0) windows)

def latestAt (value : NightModeCalendarGeometry) (atMs : Int)
    (windows : List NightModeCalendarWindow) : LatestOccurrences where
  close := (lastMatching windows fun w => decide (w.closeAtMs ≤ atMs)).map
    fun w => occurrence w value .close
  «open» := (lastMatching windows fun w => decide (w.openAtMs ≤ atMs)).map
    fun w => occurrence w value .open

def resolveLatestNightModeTransitionOccurrences (zones : Zones) (settings : NightModeScheduleGeometry)
    (now : Option Int) : CalendarM LatestOccurrences :=
  let value := geometry zones settings
  if value.startMinutes = value.endMinutes then pure { close := none, «open» := none }
  else withCalendar zones value now fun windows => .ok (latestAt value (now.getD 0) windows)

def catchUpAt (value : NightModeCalendarGeometry) (item : NightModeTransitionOccurrence)
    (now : Option Int) (windows : List NightModeCalendarWindow) : CatchUpWindow :=
  match windows.find? fun w => sessionKey w value == item.sessionKey with
  | none => { withinWindow := false, endsAt := item.dueAt }
  | some window =>
    -- `none` stands for `Infinity`
    let nextClose := (windows.find? fun w => decide (window.openAtMs < w.closeAtMs)).map
      fun w => w.closeAtMs
    let latest := window.openAtMs + NIGHT_MODE_OPEN_CATCH_UP_MAX_AGE_MS
    let limit := if item.transition = .close then window.openAtMs else (nextClose.map (min latest)).getD latest
    { withinWindow := now.any fun atMs => decide (item.dueAt ≤ atMs) &&
        (decide (atMs < limit) || (decide (item.transition = .open) && decide (atMs = limit) &&
          nextClose.all fun c => decide (limit < c)))
      endsAt := limit }

def resolveNightModeNoticeCatchUpWindow (zones : Zones) (item : NightModeTransitionOccurrence)
    (settings : NightModeScheduleGeometry) (now : Option Int) : CalendarM CatchUpWindow :=
  let value := geometry zones settings
  withCalendar zones value (some item.dueAt) fun windows => .ok (catchUpAt value item now windows)

def noon (day : Int) : Int := day * DAY_MS + 12 * HOUR_MS

def absoluteSession (zones : Zones) (key : String) :
    CalendarM (Option (NightModeCalendarGeometry × NightModeCalendarWindow)) :=
  match parseNightModeTransitionSessionKey zones key with
  | none => pure none
  | some parsed =>
    if parsed.geometry.startMinutes = parsed.geometry.endMinutes then pure none
    else withCalendar zones parsed.geometry (some (noon parsed.sessionDateKey)) fun windows =>
      .ok ((windows.find? fun w => decide (w.sessionDateKey = parsed.sessionDateKey)).map
        fun w => (parsed.geometry, w))

def resolveNightModeTransitionSessionCloseAt (zones : Zones) (key : String) :
    CalendarM (Option Int) := do
  let session ← absoluteSession zones key
  return session.map fun s => s.2.closeAtMs

def resolveNightModeTransitionSessionOpenAt (zones : Zones) (key : String) :
    CalendarM (Option Int) := do
  let session ← absoluteSession zones key
  return session.map fun s => s.2.openAtMs

/-! ## The windows around an instant -/

/-- `P`, `C` and `N` follow each other in a list of windows in order. -/
structure Ordered (ws before after : List NightModeCalendarWindow) (P C N : NightModeCalendarWindow) :
    Prop where
  eq : ws = before ++ P :: C :: N :: after
  before : ∀ w ∈ before, w.openAtMs < P.closeAtMs ∧ w.closeAtMs < w.openAtMs ∧
    w.sessionDateKey < P.sessionDateKey
  after : ∀ w ∈ after, N.openAtMs < w.closeAtMs ∧ w.closeAtMs < w.openAtMs ∧
    N.sessionDateKey < w.sessionDateKey
  prior : P.closeAtMs < P.openAtMs ∧ P.openAtMs < C.closeAtMs ∧ P.sessionDateKey < C.sessionDateKey
  current : C.closeAtMs < C.openAtMs ∧ C.openAtMs < N.closeAtMs ∧ C.sessionDateKey < N.sessionDateKey
  next : N.closeAtMs < N.openAtMs

variable {z : ZoneClock} {value : NightModeCalendarGeometry} {atMs : Int} {p c n : Int × Int}
  {ws before after : List NightModeCalendarWindow} {P C N : NightModeCalendarWindow}

theorem Shows.ordered (h : Shows z value atMs ws p c n) : ∃ before after,
    Ordered ws before after (window z value p) (window z value c) (window z value n) := by
  obtain ⟨haround, before, after, hshown, hws⟩ := h
  have hkey : ∀ {r s : Int × Int}, (nights z value).closes r.1 < (nights z value).closes s.1 →
      r.1 < s.1 := fun {r s} hlt =>
    Int.not_le.mp fun hle => absurd hlt (not_lt.mpr ((nights z value).closes_mono hle))
  have hstep : ∀ {r s : Int × Int}, (nights z value).IsBlock r →
      (nights z value).opens r.2 < (nights z value).closes s.1 →
      (nights z value).closes r.1 < (nights z value).opens r.2 ∧ r.1 < s.1 := fun hr hlt =>
    ⟨hr.closes_lt_opens, hkey (lt_trans hr.closes_lt_opens hlt)⟩
  obtain ⟨-, hrest, hacross⟩ := List.pairwise_append.mp hshown.sorted
  have hafter := (List.pairwise_cons.mp (List.pairwise_cons.mp (List.pairwise_cons.mp hrest).2).2).1
  refine ⟨before.map (window z value), after.map (window z value), ?_, ?_, ?_, ?_, ?_, ?_⟩
  · rw [hws, List.map_append, List.map_cons, List.map_cons, List.map_cons]
  · intro w hw
    obtain ⟨r, hr, rfl⟩ := List.mem_map.mp hw
    have hlt := hacross r hr p List.mem_cons_self
    obtain ⟨hself, hday⟩ := hstep (hshown.block r (List.mem_append_left _ hr)) hlt
    exact ⟨hlt, hself, hday⟩
  · intro w hw
    obtain ⟨r, hr, rfl⟩ := List.mem_map.mp hw
    have hlt := hafter r hr
    have hblock : (nights z value).IsBlock r :=
      hshown.block r (List.mem_append_right _ (by simp [hr]))
    exact ⟨hlt, hblock.closes_lt_opens, (hstep haround.next hlt).2⟩
  · obtain ⟨hself, hday⟩ := hstep haround.prior haround.priorCurrent.gap
    exact ⟨hself, haround.priorCurrent.gap, hday⟩
  · obtain ⟨hself, hday⟩ := hstep haround.current haround.currentNext.gap
    exact ⟨hself, haround.currentNext.gap, hday⟩
  · exact haround.next.closes_lt_opens

theorem find?_split {α : Type} {items : List α} {x : α} {predicate : α → Bool} (pre post : List α)
    (heq : items = pre ++ x :: post) (hx : predicate x = true) (hpre : ∀ y ∈ pre, predicate y = false) :
    items.find? predicate = some x := by
  rw [heq, List.find?_append, List.find?_eq_none.mpr fun y hy => by rw [hpre y hy]; exact Bool.false_ne_true,
    List.find?_cons_of_pos hx]
  rfl

theorem lastMatching_split {α : Type} {items : List α} {x : α} {predicate : α → Bool}
    (pre post : List α) (heq : items = pre ++ x :: post) (hx : predicate x = true) (hpost : ∀ y ∈ post, predicate y = false) :
    lastMatching items predicate = some x := by
  refine find?_split post.reverse pre.reverse ?_ hx fun y hy =>
    hpost y (List.mem_reverse.mp hy)
  rw [heq, List.reverse_append, List.reverse_cons, List.append_assoc, List.singleton_append]

namespace Ordered

variable {predicate : NightModeCalendarWindow → Bool}

theorem find?_current (h : Ordered ws before after P C N)
    (hC : predicate C = true) (hP : predicate P = false) (hbefore : ∀ w ∈ before, predicate w = false) :
    ws.find? predicate = some C := by
  refine find?_split (before ++ [P]) (N :: after) ?_ hC fun w hw => ?_
  · rw [h.eq, List.append_assoc, List.singleton_append]
  · rcases List.mem_append.mp hw with hw | hw
    · exact hbefore w hw
    · rw [List.mem_singleton.mp hw]
      exact hP

theorem find?_next (h : Ordered ws before after P C N)
    (hN : predicate N = true) (hP : predicate P = false) (hC : predicate C = false)
    (hbefore : ∀ w ∈ before, predicate w = false) : ws.find? predicate = some N := by
  refine find?_split (before ++ [P, C]) after ?_ hN fun w hw => ?_
  · rw [h.eq, List.append_assoc]
    rfl
  · rcases List.mem_append.mp hw with hw | hw
    · exact hbefore w hw
    · rcases List.mem_cons.mp hw with rfl | hw
      · exact hP
      · rw [List.mem_singleton.mp hw]
        exact hC

theorem last_current (h : Ordered ws before after P C N)
    (hC : predicate C = true) (hN : predicate N = false) (hafter : ∀ w ∈ after, predicate w = false) :
    lastMatching ws predicate = some C := by
  refine lastMatching_split (before ++ [P]) (N :: after) ?_ hC fun w hw => ?_
  · rw [h.eq, List.append_assoc, List.singleton_append]
  · rcases List.mem_cons.mp hw with rfl | hw
    · exact hN
    · exact hafter w hw

theorem last_prior (h : Ordered ws before after P C N)
    (hP : predicate P = true) (hC : predicate C = false) (hN : predicate N = false)
    (hafter : ∀ w ∈ after, predicate w = false) : lastMatching ws predicate = some P := by
  refine lastMatching_split before (C :: N :: after) h.eq hP fun w hw => ?_
  rcases List.mem_cons.mp hw with rfl | hw
  · exact hC
  · rcases List.mem_cons.mp hw with rfl | hw
    · exact hN
    · exact hafter w hw

variable (h : Ordered ws before after P C N)
include h

theorem active (hclose : C.closeAtMs ≤ atMs) (hnext : atMs < N.closeAtMs) :
    (ws.find? fun w => decide (w.closeAtMs ≤ atMs) && decide (atMs < w.openAtMs)) =
      if atMs < C.openAtMs then some C else none := by
  have hprior := h.prior
  split
  · next hopen =>
    refine h.find?_current (by simp [hclose, hopen]) (by simp; omega) fun w hw => ?_
    have hw := h.before w hw
    simp
    omega
  · next hopen =>
    refine List.find?_eq_none.mpr fun w hw => ?_
    rw [h.eq] at hw
    have hnextSelf := h.next
    simp only [List.mem_append, List.mem_cons] at hw
    rcases hw with hw | rfl | rfl | rfl | hw
    · have hw := h.before w hw
      simp
      omega
    · simp
      omega
    · simp
      omega
    · simp
      omega
    · have hw := h.after w hw
      simp
      omega

theorem lastOpened (hclose : C.closeAtMs ≤ atMs) (hnext : atMs < N.closeAtMs) :
    (lastMatching ws fun w => decide (w.openAtMs ≤ atMs)) =
      some (if atMs < C.openAtMs then P else C) := by
  have hprior := h.prior
  have hself := h.next
  have hafter : ∀ w ∈ after, decide (w.openAtMs ≤ atMs) = false := fun w hw => by
    have hw := h.after w hw
    simp
    omega
  split
  · exact h.last_prior (by simp; omega) (by simp; omega) (by simp; omega) hafter
  · exact h.last_current (by simp; omega) (by simp; omega) hafter

theorem lastClosed (hclose : C.closeAtMs ≤ atMs) (hnext : atMs < N.closeAtMs) :
    (lastMatching ws fun w => decide (w.closeAtMs ≤ atMs)) = some C := by
  refine h.last_current (by simp; omega) (by simp; omega) fun w hw => ?_
  have hw := h.after w hw
  have hself := h.next
  simp
  omega

theorem nextClose (hclose : C.closeAtMs ≤ atMs) (hnext : atMs < N.closeAtMs) :
    (ws.find? fun w => decide (atMs < w.closeAtMs)) = some N := by
  have hprior := h.prior
  refine h.find?_next (by simp; omega) (by simp; omega) (by simp; omega) fun w hw => ?_
  have hw := h.before w hw
  simp
  omega

theorem nextOpen (hclose : C.closeAtMs ≤ atMs) (hnext : atMs < N.closeAtMs) :
    (ws.find? fun w => decide (atMs < w.openAtMs)) = some (if atMs < C.openAtMs then C else N) := by
  have hprior := h.prior
  have hself := h.next
  have hbefore : ∀ w ∈ before, decide (atMs < w.openAtMs) = false := fun w hw => by
    have hw := h.before w hw
    simp
    omega
  split
  · exact h.find?_current (by simp; omega) (by simp; omega) hbefore
  · exact h.find?_next (by simp; omega) (by simp; omega) (by simp; omega) hbefore

end Ordered

end Maxim.Moderation.NightMode
