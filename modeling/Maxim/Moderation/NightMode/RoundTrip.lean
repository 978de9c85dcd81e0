import Maxim.Moderation.NightMode.Found
import Mathlib.Algebra.Group.Nat.Defs

/-!
# Session keys there and back

A key is cut at its colons, so the name of a zone survives the way there and back
if it has none. The edges of a session are those of the window that the session
was named after.
-/

namespace Maxim.Moderation.NightMode

open Maxim.Library

def FourDigits (day : Int) : Prop := 0 ≤ (civilOfDay day).year ∧ (civilOfDay day).year ≤ 9999

instance (day : Int) : Decidable (FourDigits day) := inferInstanceAs (Decidable (_ ∧ _))

/-! ## Texts of digits -/

theorem le_length_padStart (width n : Nat) : width ≤ (padStart width n).length := by
  rw [padStart, List.length_append, List.length_replicate]
  omega

theorem length_padStart {width n : Nat} (hwidth : 0 < width) (hn : n < 10 ^ width) :
    (padStart width n).length = width := by
  have hle := (Nat.length_toDigits_le_iff (b := 10) (by decide) hwidth).mpr hn
  rw [padStart, List.length_append, List.length_replicate]
  omega

theorem readDigits_padStart (width n : Nat) : readDigits (padStart width n) = some n := by
  rw [readDigits, if_pos (List.all_eq_true.mpr fun c hc => isDigit_of_mem_padStart hc), padStart,
    Nat.ofDigitChars_append, Nat.ofDigitChars_replicate_zero, Nat.mul_zero,
    Nat.ofDigitChars_ten_toDigits]

theorem readTime_padStart (m : DayMinutes) :
    readTime (padStart 2 (m / 60)) (padStart 2 (m % 60)) = some m := by
  have hm := m.isLt
  have hvalid : (padStart 2 (m.val / 60)).length = 2 ∧ (padStart 2 (m.val % 60)).length = 2 ∧
      m.val / 60 ≤ 23 ∧ m.val % 60 ≤ 59 :=
    ⟨length_padStart (by decide) (by omega), length_padStart (by decide) (by omega), by omega, by omega⟩
  rw [readTime, readDigits_padStart, readDigits_padStart, Option.bind_eq_bind, Option.bind_some,
    Option.bind_some, dif_pos hvalid]
  refine congrArg some (Fin.ext ?_)
  change m.val / 60 * 60 + m.val % 60 = m.val
  omega

theorem civilOfDay_ranges (n : Int) : 1 ≤ (civilOfDay n).month ∧ (civilOfDay n).month ≤ 12 ∧
    1 ≤ (civilOfDay n).day ∧ (civilOfDay n).day ≤ 31 := by
  cases h : yearOfEra ((n + 719468) % 146097) with
  | mk year dayOfYear =>
    obtain ⟨-, -, hday, hday', -⟩ := yearOfEra_spec (by omega) (by omega) h
    unfold civilOfDay
    rw [h]
    dsimp only
    split <;> omega

theorem readDate_isoDate {day : Int} (h : FourDigits day) : readDate (isoDate day) = some day := by
  obtain ⟨hmonth, hmonth', hday, hday'⟩ := civilOfDay_ranges day
  have hcivil := dayOfCivil_civilOfDay day
  obtain ⟨hyear, hyear'⟩ := h
  rw [isoDate]
  generalize civilOfDay day = c at *
  obtain ⟨year, month, date⟩ := c
  dsimp only at *
  lift year to Nat using hyear
  lift month to Nat using by omega
  lift date to Nat using by omega
  rw [yearText, if_pos ⟨by omega, hyear'⟩]
  dsimp only [Int.toNat_natCast]
  have hy := @length_padStart 4 year (by decide) (by omega)
  have hm := @length_padStart 2 month (by decide) (by omega)
  have hd := @length_padStart 2 date (by decide) (by omega)
  have hyd := readDigits_padStart 4 year
  have hmd := readDigits_padStart 2 month
  have hdd := readDigits_padStart 2 date
  generalize padStart 4 year = ys at *
  generalize padStart 2 month = ms at *
  generalize padStart 2 date = ds at *
  obtain ⟨y₁, y₂, y₃, y₄, rfl⟩ := List.length_eq_four.mp hy
  obtain ⟨m₁, m₂, rfl⟩ := List.length_eq_two.mp hm
  obtain ⟨a₁, a₂, rfl⟩ := List.length_eq_two.mp hd
  simp only [List.cons_append, List.nil_append, readDate, hyd, hmd, hdd, Option.bind_eq_bind,
    Option.bind_some]
  rw [if_pos ⟨trivial, trivial, by omega, by omega, by omega, by omega⟩, hcivil]

/-- A date that is read has a year of four digits. -/
theorem fourDigits_of_length {day : Int} (h : (isoDate day).length = 10) : FourDigits day := by
  by_contra hnot
  rw [FourDigits] at hnot
  have hmonth := le_length_padStart 2 (civilOfDay day).month.toNat
  have hdate := le_length_padStart 2 (civilOfDay day).day.toNat
  have hyear := le_length_padStart 6 (civilOfDay day).year.natAbs
  rw [isoDate, yearText, if_neg hnot] at h
  simp only [List.length_append, List.length_cons] at h
  omega

theorem readDate_length {text : List Char} {day : Int} (h : readDate text = some day) :
    text.length = 10 := by
  unfold readDate at h
  split at h
  · rfl
  · cases h

/-! ## Parts between colons -/

theorem not_mem_of_mem_splitOn {α : Type} [BEq α] [LawfulBEq α] {a : α} {xs part : List α}
    (h : part ∈ xs.splitOn a) : a ∉ part := by
  induction xs generalizing part with
  | nil =>
    rw [List.splitOn_nil, List.mem_singleton] at h
    rw [h]
    exact List.not_mem_nil
  | cons x xs ih =>
    rw [List.splitOn_cons_eq_if_modifyHead] at h
    split at h
    · rcases List.mem_cons.mp h with rfl | h
      · exact List.not_mem_nil
      · exact ih h
    next hne =>
      cases hparts : xs.splitOn a with
      | nil => exact absurd hparts (List.splitOn_ne_nil a xs)
      | cons first rest =>
        rw [hparts] at h ih
        rw [List.modifyHead_cons] at h
        rcases List.mem_cons.mp h with rfl | h
        · intro hmem
          rcases List.mem_cons.mp hmem with rfl | hmem
          · exact hne (beq_self_eq_true a)
          · exact ih List.mem_cons_self hmem
        · exact ih (List.mem_cons_of_mem first h)

variable {zones : Zones}

/-- What is accepted is the key of its result, of a zone without a colon. -/
theorem parse_spec {value : String} {session : ParsedNightModeTransitionSession}
    (h : parseNightModeTransitionSessionKey zones value = some session) :
    ':' ∉ session.geometry.timezone.toList ∧ FourDigits session.sessionDateKey ∧
      buildNightModeTransitionSessionKey session.geometry session.sessionDateKey = trim value := by
  unfold parseNightModeTransitionSessionKey at h
  split at h
  · next version timezone startHour startMinute endHour endMinute date hparts =>
    obtain ⟨startMinutes, -, h⟩ := Option.bind_eq_some_iff.mp h
    obtain ⟨endMinutes, -, h⟩ := Option.bind_eq_some_iff.mp h
    obtain ⟨sessionDateKey, hdate, h⟩ := Option.bind_eq_some_iff.mp h
    dsimp only at h
    split at h
    · next hvalid =>
      obtain rfl := Option.some.inj h
      refine ⟨?_, fourDigits_of_length ?_, hvalid.2.2.2.2⟩
      · have hmem : timezone ∈ (trim value).toList.splitOn ':' := by
          rw [hparts]
          simp
        dsimp only
        rw [String.toList_ofList]
        exact not_mem_of_mem_splitOn hmem
      · dsimp only
        rw [hvalid.2.2.2.1]
        exact readDate_length hdate
    · cases h
  · cases h

theorem normalize_ne_empty (value : String) : normalizeNightModeTimezone zones value ≠ "" := by
  unfold normalizeNightModeTimezone
  dsimp only
  split
  · decide
  next hne =>
    split
    · exact hne
    · decide

/-- A key of a zone without a colon is read as it was built. -/
theorem parse_build {g : NightModeCalendarGeometry} {day : Int}
    (hzone : normalizeNightModeTimezone zones g.timezone = g.timezone)
    (hcolon : ':' ∉ g.timezone.toList) (hday : FourDigits day) :
    parseNightModeTransitionSessionKey zones (buildNightModeTransitionSessionKey g day) =
      some { geometry := g, sessionDateKey := day } := by
  have hparts : (buildNightModeTransitionSessionKey g day).toList.splitOn ':' =
      ["v1".toList, g.timezone.toList, padStart 2 (g.startMinutes / 60),
        padStart 2 (g.startMinutes % 60), padStart 2 (g.endMinutes / 60),
        padStart 2 (g.endMinutes % 60), isoDate day] := by
    have hjoined : (buildNightModeTransitionSessionKey g day).toList = [':'].intercalate
        ["v1".toList, g.timezone.toList, padStart 2 (g.startMinutes / 60),
          padStart 2 (g.startMinutes % 60), padStart 2 (g.endMinutes / 60),
          padStart 2 (g.endMinutes % 60), isoDate day] := by
      rw [toList_sessionKey]
      simp [List.intercalate, List.intersperse]
    rw [hjoined]
    refine List.splitOn_intercalate ':' ?_ (List.cons_ne_nil _ _)
    simp only [List.mem_cons, List.not_mem_nil, or_false]
    rintro part (rfl | rfl | rfl | rfl | rfl | rfl | rfl)
    · decide
    · exact hcolon
    · exact colon_not_mem_padStart _ _
    · exact colon_not_mem_padStart _ _
    · exact colon_not_mem_padStart _ _
    · exact colon_not_mem_padStart _ _
    · exact colon_not_mem_isoDate day
  have hnonempty : g.timezone.toList ≠ [] := by
    intro hnil
    refine @normalize_ne_empty zones g.timezone (hzone.trans ?_)
    exact String.toList_inj.mp hnil
  rw [parseNightModeTransitionSessionKey, trim_sessionKey, hparts]
  simp only [readTime_padStart, readDate_isoDate hday, Option.bind_eq_bind, Option.bind_some,
    String.ofList_toList]
  exact if_pos ⟨trivial, hnonempty, hzone, trivial, trivial⟩

/-! ## The edges of a session -/

theorem normalize_normalize (value : String) :
    normalizeNightModeTimezone zones (normalizeNightModeTimezone zones value) =
      normalizeNightModeTimezone zones value := by
  have hdefault : trim DEFAULT_NIGHT_MODE_TIMEZONE = DEFAULT_NIGHT_MODE_TIMEZONE := by decide
  have hself : normalizeNightModeTimezone zones DEFAULT_NIGHT_MODE_TIMEZONE =
      DEFAULT_NIGHT_MODE_TIMEZONE := by
    rw [normalizeNightModeTimezone, hdefault, if_neg (by decide), ite_self]
  by_cases hvalue : trim value ≠ "" ∧ zones.intl (trim value) = true
  · have haccepted : normalizeNightModeTimezone zones value = trim value := by
      rw [normalizeNightModeTimezone, if_neg hvalue.1, if_pos hvalue.2]
    rw [haccepted, normalizeNightModeTimezone, trim_trim, if_neg hvalue.1, if_pos hvalue.2]
  · have hrefused : normalizeNightModeTimezone zones value = DEFAULT_NIGHT_MODE_TIMEZONE := by
      rw [normalizeNightModeTimezone]
      split
      · rfl
      next hne => exact if_neg fun hintl => hvalue ⟨hne, hintl⟩
    rw [hrefused, hself]

variable {z : ZoneClock} {value : NightModeCalendarGeometry} {calendars : Calendars}

/-- In a zone that settles the calendar is returned. -/
theorem resolveNightModeCalendar_returns (hz : z.Settles) (hzone : zones.zone value.timezone = some z)
    (hgeometry : value.startMinutes ≠ value.endMinutes) (hok : CacheOk zones calendars) (atMs : Int) :
    ∃ ws p c n, (resolveNightModeCalendar zones value (some atMs) calendars).1 = .ok ws ∧
      Shows z value atMs ws p c n := by
  obtain ⟨calendar, hcalendar⟩ := searchCalendar_found hz hgeometry atMs
  have hempty : (resolveNightModeCalendar zones value (some atMs) []).1 = .ok calendar.windows := by
    have hnone : cachedCalendar [] value atMs = none := rfl
    unfold resolveNightModeCalendar resolveCalendar
    dsimp only
    rw [hnone, Zones.clock, hzone, Option.map_some]
    dsimp only
    rw [hcalendar]
  obtain ⟨ws, hws⟩ := resolveNightModeCalendar_found calendars hempty
  obtain ⟨_, z', p, c, n, hat, hzone', hshows⟩ := resolveNightModeCalendar_spec hok hws
  obtain rfl := Option.some.inj hat
  obtain rfl := Option.some.inj (hzone.symm.trans hzone')
  exact ⟨ws, p, c, n, hws, hshows⟩

theorem snapshot_returns {settings : NightModeTransitionScheduleSettings} {atMs : Int}
    (henabled : settings.nightModeEnabled = true)
    (hvalue : geometry zones settings.toNightModeScheduleGeometry = value)
    (hgeometry : value.startMinutes ≠ value.endMinutes) (hz : z.Settles)
    (hzone : zones.zone value.timezone = some z) (hok : CacheOk zones calendars) :
    ∃ snapshot p c n, (resolveNightModeTransitionSnapshot zones settings (some atMs) calendars).1 =
        .ok (some snapshot) ∧ (nights z value).Around atMs p c n ∧
      snapshot.sessionKey = sessionKey (window z value c) value := by
  obtain ⟨ws, p, c, n, hws, hshows⟩ := resolveNightModeCalendar_returns hz hzone hgeometry hok atMs
  obtain ⟨before, after, hordered⟩ := hshows.ordered
  have hsnapshot := @snapshotAt_eq value atMs _ _ _ _ _ _ hordered hshows.around.started
    hshows.around.early
  unfold resolveNightModeTransitionSnapshot
  rw [henabled]
  dsimp only
  rw [hvalue, if_neg hgeometry]
  exact ⟨_, p, c, n, withCalendar_eq_ok.mpr ⟨ws, hws, hsnapshot⟩, hshows.around, rfl⟩

/-- A key that is read gives the edges of the window of its block. -/
theorem absoluteSession_returns {r : Int × Int} (hgeometry : value.startMinutes ≠ value.endMinutes)
    (hz : z.Settles) (hzone : zones.zone value.timezone = some z) (hok : CacheOk zones calendars)
    (hblock : (nights z value).IsBlock r) {key : String}
    (hparse : parseNightModeTransitionSessionKey zones key =
      some { geometry := value, sessionDateKey := r.1 }) :
    (absoluteSession zones key calendars).1 = .ok (some (value, window z value r)) := by
  obtain ⟨ws, p, c, n, hws, hshows⟩ :=
    resolveNightModeCalendar_returns hz hzone hgeometry hok (noon r.1)
  have hfind := find?_session hblock hshows
  rw [absoluteSession, hparse]
  dsimp only
  rw [if_neg hgeometry]
  exact withCalendar_eq_ok.mpr ⟨ws, hws, congrArg (fun w => Except.ok (w.map fun w => (value, w))) hfind⟩

theorem closeAt_eq {key : String} {session : Option (NightModeCalendarGeometry × NightModeCalendarWindow)}
    (h : (absoluteSession zones key calendars).1 = .ok session) :
    (resolveNightModeTransitionSessionCloseAt zones key calendars).1 =
        .ok (session.map fun s => s.2.closeAtMs) ∧
      (resolveNightModeTransitionSessionOpenAt zones key calendars).1 =
        .ok (session.map fun s => s.2.openAtMs) := by
  unfold resolveNightModeTransitionSessionCloseAt resolveNightModeTransitionSessionOpenAt
  rw [CalendarM.bind_apply, CalendarM.bind_apply]
  rcases hresult : absoluteSession zones key calendars with ⟨e | session', calendars'⟩
  · rw [hresult] at h
    cases h
  · rw [hresult] at h
    obtain rfl := Except.ok.inj h
    exact ⟨rfl, rfl⟩

/-- Keys go there and back, and edges are found again, for every zone without a colon in its name. -/
theorem session_keys_round_trip (zones : Zones)
    (hsettles : ∀ name z, zones.zone name = some z → z.Settles) :
    (∀ (g : NightModeCalendarGeometry) (day : Int),
      normalizeNightModeTimezone zones g.timezone = g.timezone → FourDigits day →
      (parseNightModeTransitionSessionKey zones (buildNightModeTransitionSessionKey g day) =
        some { geometry := g, sessionDateKey := day } ↔ ':' ∉ g.timezone.toList)) ∧
    (∀ value session, parseNightModeTransitionSessionKey zones value = some session →
      buildNightModeTransitionSessionKey session.geometry session.sessionDateKey = trim value) ∧
    ∀ (settings : NightModeTransitionScheduleSettings) (value : NightModeCalendarGeometry)
      (z : ZoneClock) (atMs : Int) (history : List (NightModeCalendarGeometry × Option Int)),
      settings.nightModeEnabled = true →
      geometry zones settings.toNightModeScheduleGeometry = value →
      value.startMinutes ≠ value.endMinutes → zones.zone value.timezone = some z →
      ∃ snapshot p c n, (resolveNightModeTransitionSnapshot zones settings (some atMs)
          (afterCalls zones history)).1 = .ok (some snapshot) ∧
        (nights z value).Around atMs p c n ∧
        snapshot.sessionKey = sessionKey (window z value c) value ∧
        ((∀ history', (resolveNightModeTransitionSessionCloseAt zones snapshot.sessionKey
              (afterCalls zones history')).1 = .ok (some (window z value c).closeAtMs) ∧
            (resolveNightModeTransitionSessionOpenAt zones snapshot.sessionKey
              (afterCalls zones history')).1 = .ok (some (window z value c).openAtMs)) ↔
          ':' ∉ value.timezone.toList ∧ FourDigits c.1) := by
  refine ⟨fun g day hzone hday => ⟨fun h => (parse_spec h).1, fun hcolon => ?_⟩,
    fun value session h => (parse_spec h).2.2, ?_⟩
  · exact parse_build hzone hcolon hday
  · intro settings value z atMs history henabled hvalue hgeometry hzone
    have hz := hsettles _ z hzone
    obtain ⟨snapshot, p, c, n, hsnapshot, haround, hkey⟩ := @snapshot_returns _ _ _ _ _ atMs henabled
      hvalue hgeometry hz hzone (afterCalls_ok zones history)
    refine ⟨snapshot, p, c, n, hsnapshot, haround, hkey, fun hedges => ?_, fun ⟨hcolon, hday⟩ => ?_⟩
    · have hclose := (hedges []).1
      rw [hkey] at hclose
      cases hparse : parseNightModeTransitionSessionKey zones (sessionKey (window z value c) value) with
      | none =>
        have hnone : (absoluteSession zones (sessionKey (window z value c) value)
            (afterCalls zones [])).1 = .ok none := by
          rw [absoluteSession, hparse]
          rfl
        rw [(closeAt_eq hnone).1] at hclose
        cases Except.ok.inj hclose
      | some session =>
        obtain rfl := parse_sessionKey hparse
        exact ⟨(parse_spec hparse).1, (parse_spec hparse).2.1⟩
    · intro history'
      have hname : normalizeNightModeTimezone zones value.timezone = value.timezone := by
        rw [← hvalue]
        exact normalize_normalize settings.nightModeTimezone
      rw [hkey]
      exact closeAt_eq (absoluteSession_returns hgeometry hz hzone (afterCalls_ok zones history')
        haround.current (parse_build hname hcolon hday))

theorem utcClock_settles : utcClock.Settles := by
  have hboundary (day : Int) (m : Nat) :
      utcClock.resolveBoundary day m = day * DAY_MS + m * MINUTE_MS := rfl
  have hcalm (day : Int) : utcClock.Calm day := by
    refine ⟨fun m m' hlt => ?_, fun m m' => ?_⟩
    · have hlt : m.val < m'.val := hlt
      rw [hboundary, hboundary]
      unfold MINUTE_MS
      omega
    · have hm := m.isLt
      rw [hboundary, hboundary]
      unfold DAY_MS MINUTE_MS
      omega
  have hday (t : Int) : utcClock.localDay t = t / DAY_MS := rfl
  refine ⟨fun day => ⟨day, le_rfl, by omega, hcalm _, hcalm _, hcalm _⟩, fun t => ?_, fun t => ?_⟩
  · rw [hday]
    unfold DAY_MS HOUR_MS
    omega
  · rw [hday]
    unfold DAY_MS HOUR_MS
    omega

theorem utcOnly_settles (name : String) (z : ZoneClock) (h : utcOnly.zone name = some z) : z.Settles := by
  change (if name = "UTC" then some utcClock else none) = some z at h
  split at h
  · exact Option.some.inj h ▸ utcClock_settles
  · cases h

theorem nightly_edges : ∃ key, ((resolveNightModeTransitionSnapshot utcOnly nightly (some 0)
      (afterCalls utcOnly earlier)).1.toOption.bind id).map (·.sessionKey) = some key ∧
    ∀ history, (resolveNightModeTransitionSessionCloseAt utcOnly key (afterCalls utcOnly history)).1 =
      .ok (some (-3600000)) := by
  obtain ⟨-, -, hedges⟩ := session_keys_round_trip utcOnly utcOnly_settles
  have hutc : (geometry utcOnly nightly.toNightModeScheduleGeometry).timezone = "UTC" := by decide
  have hzone : utcOnly.zone "UTC" = some utcClock := by
    change (if "UTC" = "UTC" then some utcClock else none) = some utcClock
    exact if_pos rfl
  obtain ⟨snapshot, p, c, n, hsnapshot, -, hkey, hiff⟩ := hedges nightly
    (geometry utcOnly nightly.toNightModeScheduleGeometry) utcClock 0 earlier rfl rfl (by decide)
    ((congrArg utcOnly.zone hutc).trans hzone)
  have hcomputed : ((resolveNightModeTransitionSnapshot utcOnly nightly (some 0)
      (afterCalls utcOnly earlier)).1.toOption.bind id).map (·.sessionKey) =
        some (buildNightModeTransitionSessionKey
          (geometry utcOnly nightly.toNightModeScheduleGeometry) (-1)) := by decide +kernel
  have hfound : some snapshot.sessionKey = some (buildNightModeTransitionSessionKey
      (geometry utcOnly nightly.toNightModeScheduleGeometry) (-1)) := by
    rw [← hcomputed, hsnapshot]
    rfl
  have hc : c.1 = -1 := (sessionKey_injective (hkey.symm.trans (Option.some.inj hfound))).2
  have hday : FourDigits c.1 := by
    rw [hc]
    decide
  have hcolon : ':' ∉ (geometry utcOnly nightly.toNightModeScheduleGeometry).timezone.toList := by
    rw [hutc]
    decide
  refine ⟨snapshot.sessionKey, hcomputed.trans hfound.symm, fun history => ?_⟩
  have hclose : (nights utcClock (geometry utcOnly nightly.toNightModeScheduleGeometry)).closes c.1 =
      -3600000 := by
    rw [hc]
    decide
  rw [(hiff.mpr ⟨hcolon, hday⟩ history).1]
  exact congrArg (fun atMs => Except.ok (some atMs)) hclose

def threeHours : ZoneClock where
  localDay t := (t + 3 * HOUR_MS) / DAY_MS
  fromObject day minutes := day * DAY_MS + minutes * MINUTE_MS - 3 * HOUR_MS
  possibleOffsets t := [t]
  mem_possibleOffsets := List.mem_singleton_self
  boundary_mono m := fun day day' hle => by
    change day * DAY_MS + m * MINUTE_MS - 3 * HOUR_MS ≤ day' * DAY_MS + m * MINUTE_MS - 3 * HOUR_MS
    unfold DAY_MS
    omega
  boundary_ge day m := by
    change _ ≤ day * DAY_MS + m * MINUTE_MS - 3 * HOUR_MS
    unfold HOUR_MS
    omega
  boundary_le day m := by
    change day * DAY_MS + m * MINUTE_MS - 3 * HOUR_MS ≤ _
    unfold HOUR_MS
    omega

def offsetOnly : Zones where
  zone name := if name = "+03:00" then some threeHours else none
  intl name := name == "+03:00"
  zonedDay _ t := some ((t + 3 * HOUR_MS) / DAY_MS)

/-- The name is accepted as it is, its key is not read, and the session has no edges. -/
theorem offset_key_not_read :
    normalizeNightModeTimezone offsetOnly "+03:00" = "+03:00" ∧ FourDigits 0 ∧
    parseNightModeTransitionSessionKey offsetOnly (buildNightModeTransitionSessionKey
      { timezone := "+03:00", startMinutes := 1380, endMinutes := 480 } 0) = none ∧
    ((resolveNightModeTransitionSnapshot offsetOnly { nightly with nightModeTimezone := "+03:00" }
      (some 0) []).1.toOption.bind id).map (·.sessionKey) =
        some "v1:+03:00:23:00:08:00:1969-12-31" ∧
    (resolveNightModeTransitionSessionCloseAt offsetOnly "v1:+03:00:23:00:08:00:1969-12-31" []).1 =
      .ok none := by
  refine ⟨by decide, by decide, by decide +kernel, by decide +kernel, by decide +kernel⟩

end Maxim.Moderation.NightMode
