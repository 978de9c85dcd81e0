import Maxim.Moderation.NightMode.Independence

/-!
# Closure of a chat

A chat is closed by hand, for ever or until an instant, and by its nights. What
is announced for the next transition and for the opening is compared with the
nights of the zone, which no calendar cuts off.
-/

namespace Maxim.Moderation.NightMode

open Maxim.Library

/-- `nightModeForceCloseUntil` is the instant that `Date.parse` reads, if there is one. -/
structure ManualClosureSettings where
  nightModeForceCloseEnabled : Bool
  nightModeForceCloseForever : Bool
  nightModeForceCloseUntil : Option Int

structure ChatClosureSettings extends NightModeTransitionScheduleSettings, ManualClosureSettings

inductive ManualClosureMode where
  | forever
  | timed
  deriving DecidableEq

structure ManualChatClosure where
  active : Bool
  mode : Option ManualClosureMode
  «until» : Option Int
  deriving DecidableEq

inductive Restriction where
  | manual
  | night
  | «open»
  deriving DecidableEq

inductive Boundary where
  | continuous
  | daily
  deriving DecidableEq

structure EffectiveChatClosure where
  closed : Bool
  restriction : Restriction
  manual : ManualChatClosure
  night : Option NightModeTransitionSnapshot
  opensAt : Option Int
  nextTransitionAt : Option Int
  boundary : Boundary
  deriving DecidableEq

def ManualClosureSettings.activeAt (settings : ManualClosureSettings) (atMs : Int) : Bool :=
  settings.nightModeForceCloseEnabled && (settings.nightModeForceCloseForever ||
    settings.nightModeForceCloseUntil.any fun «until» => decide (atMs < «until»))

/-- `resolveManualChatClosure`; without a valid date only a closure for ever is active. -/
def resolveManualChatClosure (settings : ManualClosureSettings) (now : Option Int) :
    ManualChatClosure :=
  let active := match now with
    | some atMs => settings.activeAt atMs
    | none => settings.nightModeForceCloseEnabled && settings.nightModeForceCloseForever
  { active
    mode := if active = false then none
      else if settings.nightModeForceCloseForever then some .forever else some .timed
    «until» := if active && !settings.nightModeForceCloseForever then
      settings.nightModeForceCloseUntil else none }

def isClosed (snapshot : Option NightModeTransitionSnapshot) : Bool :=
  snapshot.any fun s => decide (s.status = .closed)

def resolveOpensAt (zones : Zones) (manual : ManualChatClosure)
    (later : Option NightModeTransitionSnapshot) : CalendarM (Option Int) :=
  if manual.mode = some .forever then pure none
  else match later.filter fun s => decide (s.status = .closed) with
    | some s => resolveNightModeTransitionSessionOpenAt zones s.sessionKey
    | none => pure manual.until

def nextTransition (next «until» : Option Int) : Option Int :=
  match next, «until» with
  | none, _ => «until»
  | some n, none => some n
  | some n, some u => if u < n then some u else some n

def resolveEffectiveChatClosure (zones : Zones) (settings : ChatClosureSettings) (now : Option Int) :
    CalendarM EffectiveChatClosure := do
  let manual := resolveManualChatClosure settings.toManualClosureSettings now
  let night ← resolveNightModeTransitionSnapshot zones settings.toNightModeTransitionScheduleSettings now
  let later ← resolveNightModeTransitionSnapshot zones settings.toNightModeTransitionScheduleSettings
    (manual.until.or now)
  let opensAt ← resolveOpensAt zones manual later
  let next ← resolveNextNightModeTransitionOccurrences zones
    settings.toNightModeTransitionScheduleSettings now
  let restriction : Restriction :=
    if manual.active then .manual else if isClosed night then .night else .open
  let value := geometry zones settings.toNightModeScheduleGeometry
  return {
    closed := decide (restriction ≠ .open)
    restriction
    manual
    night
    opensAt
    nextTransitionAt := nextTransition (next.head?.map fun o => o.dueAt) manual.until
    boundary := if value.startMinutes = value.endMinutes then .continuous else .daily }

/-! ## What a function can return -/

/-- `x` can return `a`, with some map in order. -/
def Yields {α : Type} (zones : Zones) (x : CalendarM α) (a : α) : Prop :=
  ∃ calendars, CacheOk zones calendars ∧ (x calendars).1 = .ok a

/-- `x` leaves a map in order. -/
def Keeps {α : Type} (zones : Zones) (x : CalendarM α) : Prop :=
  ∀ calendars, CacheOk zones calendars → CacheOk zones (x calendars).2

variable {zones : Zones} {α β : Type}

theorem yields_pure {a b : α} (h : Yields zones (pure a) b) : a = b := by
  obtain ⟨calendars, -, h⟩ := h
  exact Except.ok.inj h

theorem keeps_pure (a : α) : Keeps zones (pure a) := fun _ h => h

theorem yields_bind {x : CalendarM α} {f : α → CalendarM β} {b : β} (hx : Keeps zones x)
    (h : Yields zones (x >>= f) b) : ∃ a, Yields zones x a ∧ Yields zones (f a) b := by
  obtain ⟨calendars, hok, h⟩ := h
  have hkept := hx calendars hok
  rw [CalendarM.bind_apply] at h
  rcases heq : x calendars with ⟨e | a, calendars'⟩
  · rw [heq] at h
    cases h
  · rw [heq] at h hkept
    exact ⟨a, ⟨calendars, hok, by rw [heq]⟩, calendars', hkept, h⟩

theorem keeps_bind {x : CalendarM α} {f : α → CalendarM β} (hx : Keeps zones x)
    (hf : ∀ a, Keeps zones (f a)) : Keeps zones (x >>= f) := by
  intro calendars hok
  have hkept := hx calendars hok
  rw [CalendarM.bind_apply]
  rcases heq : x calendars with ⟨e | a, calendars'⟩
  · rw [heq] at hkept
    exact hkept
  · rw [heq] at hkept
    exact hf a calendars' hkept

theorem keeps_withCalendar (value at') (answer : List NightModeCalendarWindow → Except String α) :
    Keeps zones (withCalendar zones value at' answer) := by
  refine keeps_bind (fun calendars hok => resolveNightModeCalendar_ok hok value at') fun ws => ?_
  intro calendars hok
  rw [CalendarM.ofExcept_apply]
  exact hok

theorem keeps_snapshot (settings now) :
    Keeps zones (resolveNightModeTransitionSnapshot zones settings now) := by
  unfold resolveNightModeTransitionSnapshot
  cases settings.nightModeEnabled with
  | false => exact keeps_pure none
  | true =>
    cases now with
    | none => exact keeps_pure none
    | some atMs =>
      dsimp only
      split
      · exact keeps_pure _
      · exact keeps_withCalendar _ _ _

theorem keeps_next (settings now) :
    Keeps zones (resolveNextNightModeTransitionOccurrences zones settings now) := by
  unfold resolveNextNightModeTransitionOccurrences
  split
  · exact keeps_pure _
  · dsimp only
    split
    · exact keeps_pure _
    · exact keeps_withCalendar _ _ _

theorem keeps_absoluteSession (key : String) : Keeps zones (absoluteSession zones key) := by
  unfold absoluteSession
  split
  · exact keeps_pure _
  · split
    · exact keeps_pure _
    · exact keeps_withCalendar _ _ _

theorem keeps_opensAt (manual later) : Keeps zones (resolveOpensAt zones manual later) := by
  unfold resolveOpensAt
  split
  · exact keeps_pure _
  · split
    · exact keeps_bind (keeps_absoluteSession _) fun _ => keeps_pure _
    · exact keeps_pure _

theorem yields_withCalendar {value : NightModeCalendarGeometry} {atMs : Int}
    {answer : List NightModeCalendarWindow → Except String α} {a : α}
    (h : Yields zones (withCalendar zones value (some atMs) answer) a) :
    ∃ z p c n ws, zones.zone value.timezone = some z ∧ Shows z value atMs ws p c n ∧
      answer ws = .ok a := by
  obtain ⟨calendars, hok, h⟩ := h
  obtain ⟨atMs', z, p, c, n, ws, hat, hzone, hshows, ha⟩ := withCalendar_spec hok h
  obtain rfl := Option.some.inj hat
  exact ⟨z, p, c, n, ws, hzone, hshows, ha⟩

/-! ## The night -/

/-- A night covers the instant. -/
def Night (zones : Zones) (settings : NightModeTransitionScheduleSettings) (atMs : Int) : Prop :=
  settings.nightModeEnabled = true ∧
    ((geometry zones settings.toNightModeScheduleGeometry).startMinutes =
        (geometry zones settings.toNightModeScheduleGeometry).endMinutes ∨
      ∃ z, zones.zone (geometry zones settings.toNightModeScheduleGeometry).timezone = some z ∧
        (nights z (geometry zones settings.toNightModeScheduleGeometry)).Covers atMs)

variable {settings : NightModeTransitionScheduleSettings} {atMs : Int}

theorem night_iff {z : ZoneClock} (henabled : settings.nightModeEnabled = true)
    (hdaily : (geometry zones settings.toNightModeScheduleGeometry).startMinutes ≠
      (geometry zones settings.toNightModeScheduleGeometry).endMinutes)
    (hzone : zones.zone (geometry zones settings.toNightModeScheduleGeometry).timezone = some z) :
    Night zones settings atMs ↔
      (nights z (geometry zones settings.toNightModeScheduleGeometry)).Covers atMs := by
  constructor
  · rintro ⟨-, hcontinuous | ⟨z', hzone', hcovers⟩⟩
    · exact absurd hcontinuous hdaily
    · obtain rfl := Option.some.inj (hzone.symm.trans hzone')
      exact hcovers
  · exact fun hcovers => ⟨henabled, .inr ⟨z, hzone, hcovers⟩⟩

/-- How a snapshot of the night comes about. -/
inductive SnapshotOf (zones : Zones) (settings : NightModeTransitionScheduleSettings) (atMs : Int) :
    Option NightModeTransitionSnapshot → Prop
  | off (h : settings.nightModeEnabled = false) : SnapshotOf zones settings atMs none
  | continuous (s : NightModeTransitionSnapshot) (day : Int) (h : settings.nightModeEnabled = true)
    (hcontinuous : (geometry zones settings.toNightModeScheduleGeometry).startMinutes =
      (geometry zones settings.toNightModeScheduleGeometry).endMinutes)
    (hstatus : s.status = .closed)
    (hkey : s.sessionKey = buildNightModeTransitionSessionKey
      (geometry zones settings.toNightModeScheduleGeometry) day) : SnapshotOf zones settings atMs (some s)
  | daily (s : NightModeTransitionSnapshot) (z : ZoneClock) (p c n : Int × Int)
    (h : settings.nightModeEnabled = true)
    (hdaily : (geometry zones settings.toNightModeScheduleGeometry).startMinutes ≠
      (geometry zones settings.toNightModeScheduleGeometry).endMinutes)
    (hzone : zones.zone (geometry zones settings.toNightModeScheduleGeometry).timezone = some z)
    (haround : (nights z (geometry zones settings.toNightModeScheduleGeometry)).Around atMs p c n)
    (hstatus : s.status = if atMs < (nights z
      (geometry zones settings.toNightModeScheduleGeometry)).opens c.2 then .closed else .open)
    (hkey : s.sessionKey = sessionKey (window z
      (geometry zones settings.toNightModeScheduleGeometry) c)
      (geometry zones settings.toNightModeScheduleGeometry)) : SnapshotOf zones settings atMs (some s)

theorem snapshotOf_yields {s : Option NightModeTransitionSnapshot}
    (h : Yields zones (resolveNightModeTransitionSnapshot zones settings (some atMs)) s) :
    SnapshotOf zones settings atMs s := by
  unfold resolveNightModeTransitionSnapshot at h
  cases henabled : settings.nightModeEnabled with
  | false =>
    rw [henabled] at h
    obtain rfl := yields_pure h
    exact .off henabled
  | true =>
    rw [henabled] at h
    dsimp only at h
    split at h
    · next hcontinuous =>
      obtain rfl := yields_pure h
      exact .continuous _ _ henabled hcontinuous rfl rfl
    · next hdaily =>
      obtain ⟨z, p, c, n, ws, hzone, hshows, ha⟩ := yields_withCalendar h
      obtain ⟨before, after, hordered⟩ := hshows.ordered
      rw [snapshotAt_eq hordered hshows.around.started hshows.around.early] at ha
      obtain rfl := Except.ok.inj ha
      exact .daily _ z p c n henabled hdaily hzone hshows.around rfl rfl

theorem SnapshotOf.closed_iff {s : Option NightModeTransitionSnapshot}
    (h : SnapshotOf zones settings atMs s) : isClosed s = true ↔ Night zones settings atMs := by
  cases h with
  | off h =>
    refine ⟨nofun, fun hnight => ?_⟩
    rw [hnight.1] at h
    cases h
  | continuous s day h hcontinuous hstatus hkey =>
    refine ⟨fun _ => ⟨h, .inl hcontinuous⟩, fun _ => ?_⟩
    rw [isClosed, Option.any_some, hstatus]
    rfl
  | daily s z p c n h hdaily hzone haround hstatus hkey =>
    rw [night_iff h hdaily hzone, haround.covers_iff, isClosed, Option.any_some, hstatus]
    split
    · next hopen => exact ⟨fun _ => hopen, fun _ => rfl⟩
    · next hopen => exact ⟨nofun, fun hlt => absurd hlt hopen⟩

theorem NightStatus.eq_of_closed_iff {s s' : NightStatus} (h : s = .closed ↔ s' = .closed) : s = s' := by
  cases s <;> cases s' <;> simp_all

theorem SnapshotOf.status_iff {s : NightModeTransitionSnapshot}
    (h : SnapshotOf zones settings atMs (some s)) : s.status = .closed ↔ Night zones settings atMs := by
  rw [← h.closed_iff, isClosed, Option.any_some, decide_eq_true_iff]

theorem SnapshotOf.exists_some {s : NightModeTransitionSnapshot}
    {later : Option NightModeTransitionSnapshot} {t : Int} (h : SnapshotOf zones settings atMs (some s))
    (hlater : SnapshotOf zones settings t later) : ∃ s', later = some s' := by
  have henabled : settings.nightModeEnabled = true := by
    cases h <;> assumption
  cases hlater with
  | off hoff =>
    rw [hoff] at henabled
    cases henabled
  | continuous s' => exact ⟨s', rfl⟩
  | daily s' => exact ⟨s', rfl⟩

/-- The opening of a session ends the night that covers the instant. -/
theorem SnapshotOf.opensAt_spec {s : NightModeTransitionSnapshot} {opensAt : Int}
    (h : SnapshotOf zones settings atMs (some s)) (hclosed : s.status = .closed)
    (hopens : Yields zones (resolveNightModeTransitionSessionOpenAt zones s.sessionKey)
      (some opensAt)) :
    atMs < opensAt ∧ (∀ t, atMs ≤ t → t < opensAt → Night zones settings t) ∧
      ¬ Night zones settings opensAt := by
  obtain ⟨session, hsession, hopens⟩ := yields_bind (keeps_absoluteSession _) hopens
  have hopens := yields_pure hopens
  cases session with
  | none => cases hopens
  | some session =>
    have hopens : session.2.openAtMs = opensAt := Option.some.inj hopens
    unfold absoluteSession at hsession
    split at hsession
    · cases yields_pure hsession
    · next parsed hparsed =>
      split at hsession
      · cases yields_pure hsession
      · next hparsedDaily =>
        cases h with
        | continuous _ day h hcontinuous hstatus hkey =>
          rw [hkey] at hparsed
          obtain rfl := parse_sessionKey hparsed
          exact absurd hcontinuous hparsedDaily
        | daily _ z p c n h hdaily hzone haround hstatus hkey =>
          rw [hkey] at hparsed
          obtain rfl := parse_sessionKey hparsed
          obtain ⟨z', p', c', n', ws, hzone', hshows, ha⟩ := yields_withCalendar hsession
          obtain rfl := Option.some.inj (hzone.symm.trans hzone')
          rw [find?_session haround.current hshows] at ha
          obtain rfl := Option.some.inj (Except.ok.inj ha)
          have hend : (nights z (geometry zones settings.toNightModeScheduleGeometry)).opens c.2 =
              opensAt := hopens
          rw [hclosed] at hstatus
          split at hstatus
          · next hlt =>
            rw [hend] at hlt
            refine ⟨hlt, fun t hle hopen => ?_, ?_⟩
            · refine (night_iff h hdaily hzone).mpr (haround.current.covers ?_ (hend ▸ hopen))
              exact le_trans haround.started hle
            · rw [night_iff h hdaily hzone, ← hend]
              exact haround.current.not_covers_end
          · cases hstatus

/-- What the next occurrences say about the night. -/
inductive NextOf (zones : Zones) (settings : NightModeTransitionScheduleSettings) (atMs : Int) :
    List NightModeTransitionOccurrence → Prop
  | never (h : ∀ t, Night zones settings t ↔ Night zones settings atMs) :
    NextOf zones settings atMs []
  | first (o : NightModeTransitionOccurrence) (rest : List NightModeTransitionOccurrence)
    (hlater : atMs < o.dueAt)
    (hconstant : ∀ t, atMs ≤ t → t < o.dueAt →
      (Night zones settings t ↔ Night zones settings atMs))
    (hbefore : Night zones settings atMs ↔ o.transition = .open)
    (hafter : Night zones settings o.dueAt ↔ o.transition = .close) :
    NextOf zones settings atMs (o :: rest)

theorem nextOf_yields {items : List NightModeTransitionOccurrence}
    (h : Yields zones (resolveNextNightModeTransitionOccurrences zones settings (some atMs)) items) :
    NextOf zones settings atMs items := by
  unfold resolveNextNightModeTransitionOccurrences at h
  split at h
  · next hoff =>
    obtain rfl := yields_pure h
    have hnone : ∀ t, ¬ Night zones settings t := fun t hnight => by
      rw [hnight.1] at hoff
      cases hoff
    exact .never fun t => ⟨fun ht => absurd ht (hnone t), fun ht => absurd ht (hnone atMs)⟩
  · next henabled =>
    rw [Bool.not_eq_false] at henabled
    dsimp only at h
    split at h
    · next hcontinuous =>
      obtain rfl := yields_pure h
      exact .never fun t => ⟨fun _ => ⟨henabled, .inl hcontinuous⟩, fun _ => ⟨henabled, .inl hcontinuous⟩⟩
    · next hdaily =>
      obtain ⟨z, p, c, n, ws, hzone, hshows, ha⟩ := yields_withCalendar h
      obtain ⟨before, after, hordered⟩ := hshows.ordered
      have haround := hshows.around
      rw [Option.getD_some, occurrencesAfter_eq hordered haround.started haround.early] at ha
      have hnight : ∀ t, Night zones settings t ↔ _ := fun t => night_iff henabled hdaily hzone
      have hlater : ∀ t, atMs ≤ t → t < (nights z (geometry zones
          settings.toNightModeScheduleGeometry)).closes n.1 → (Night zones settings t ↔
          t < (nights z (geometry zones settings.toNightModeScheduleGeometry)).opens c.2) :=
        fun t hle hlt => by rw [hnight, (haround.later hle hlt).covers_iff]
      have hgap := haround.currentNext.gap
      have hnow := hlater atMs (le_refl _) haround.early
      obtain rfl := Except.ok.inj ha
      split
      · next hopen =>
        have hopen : atMs < (nights z (geometry zones
          settings.toNightModeScheduleGeometry)).opens c.2 := hopen
        refine .first _ _ hopen (fun t hle hlt => ?_) ?_ ?_
        · exact (hlater t hle (lt_trans hlt hgap)).trans
            ⟨fun _ => hnow.mpr hopen, fun _ => hlt⟩
        · exact ⟨fun _ => rfl, fun _ => hnow.mpr hopen⟩
        · refine ⟨fun hnight' => ?_, nofun⟩
          exact absurd ((hnight _).mp hnight') haround.current.not_covers_end
      · next hopen =>
        have hopen : ¬ atMs < (nights z (geometry zones
          settings.toNightModeScheduleGeometry)).opens c.2 := hopen
        refine .first _ _ haround.early (fun t hle hlt => ?_) ?_ ?_
        · refine (hlater t hle hlt).trans ⟨fun hlt' => ?_, fun hnight' => ?_⟩
          · exact absurd (lt_of_le_of_lt hle hlt') hopen
          · exact absurd (hnow.mp hnight') hopen
        · exact ⟨fun hnight' => absurd (hnow.mp hnight') hopen, nofun⟩
        · refine ⟨fun _ => rfl, fun _ => (hnight _).mpr ?_⟩
          exact haround.next.covers (le_refl _) haround.next.closes_lt_opens

/-! ## The closure -/

variable {chat : ChatClosureSettings} {closure : EffectiveChatClosure}

def Closed (zones : Zones) (chat : ChatClosureSettings) (atMs : Int) : Prop :=
  chat.activeAt atMs = true ∨ Night zones chat.toNightModeTransitionScheduleSettings atMs

theorem activeAt_anti {manual : ManualClosureSettings} {t t' : Int} (hle : t ≤ t')
    (h : manual.activeAt t' = true) : manual.activeAt t = true := by
  unfold ManualClosureSettings.activeAt at h ⊢
  rw [Bool.and_eq_true, Bool.or_eq_true] at h ⊢
  refine ⟨h.1, h.2.imp id fun huntil => ?_⟩
  cases hu : manual.nightModeForceCloseUntil with
  | none =>
    rw [hu] at huntil
    cases huntil
  | some u =>
    rw [hu, Option.any_some, decide_eq_true_iff] at huntil
    rw [Option.any_some, decide_eq_true_iff]
    omega

/-- What one call returns, in terms of the parts it looks up. -/
structure ClosureOf (zones : Zones) (chat : ChatClosureSettings) (atMs : Int)
    (closure : EffectiveChatClosure) : Prop where
  closed : closure.closed = true ↔ Closed zones chat atMs
  next : ∃ items, NextOf zones chat.toNightModeTransitionScheduleSettings atMs items ∧
    closure.nextTransitionAt = nextTransition (items.head?.map fun o => o.dueAt)
      (resolveManualChatClosure chat.toManualClosureSettings (some atMs)).until
  opening : ∃ later, SnapshotOf zones chat.toNightModeTransitionScheduleSettings
      ((resolveManualChatClosure chat.toManualClosureSettings (some atMs)).until.getD atMs) later ∧
    Yields zones (resolveOpensAt zones
      (resolveManualChatClosure chat.toManualClosureSettings (some atMs)) later) closure.opensAt

theorem closureOf_yields
    (h : Yields zones (resolveEffectiveChatClosure zones chat (some atMs)) closure) :
    ClosureOf zones chat atMs closure := by
  obtain ⟨night, hnight, h⟩ := yields_bind (keeps_snapshot _ _) h
  obtain ⟨later, hlater, h⟩ := yields_bind (keeps_snapshot _ _) h
  obtain ⟨opensAt, hopensAt, h⟩ := yields_bind (keeps_opensAt _ _) h
  obtain ⟨next, hnext, h⟩ := yields_bind (keeps_next _ _) h
  obtain rfl := yields_pure h
  refine ⟨?_, ⟨next, nextOf_yields hnext, rfl⟩, later, ?_, hopensAt⟩
  · have hmanual : (resolveManualChatClosure chat.toManualClosureSettings (some atMs)).active =
        chat.activeAt atMs := rfl
    rw [Closed, ← (snapshotOf_yields hnight).closed_iff]
    dsimp only
    rw [hmanual]
    cases chat.activeAt atMs <;> cases isClosed night <;> simp
  · refine snapshotOf_yields ?_
    cases huntil : (resolveManualChatClosure chat.toManualClosureSettings (some atMs)).until with
    | none =>
      rw [huntil] at hlater
      exact hlater
    | some u =>
      rw [huntil] at hlater
      exact hlater

theorem manual_cases (manual : ManualClosureSettings) (atMs : Int) :
    (manual.activeAt atMs = false ∧ (resolveManualChatClosure manual (some atMs)).mode = none ∧
      (resolveManualChatClosure manual (some atMs)).until = none) ∨
    ((∀ t, manual.activeAt t = true) ∧
      (resolveManualChatClosure manual (some atMs)).mode = some .forever ∧
      (resolveManualChatClosure manual (some atMs)).until = none) ∨
    ∃ u, atMs < u ∧ (∀ t, manual.activeAt t = true ↔ t < u) ∧
      (resolveManualChatClosure manual (some atMs)).mode = some .timed ∧
      (resolveManualChatClosure manual (some atMs)).until = some u := by
  unfold resolveManualChatClosure
  dsimp only
  by_cases hactive : manual.activeAt atMs = true
  · rw [hactive]
    have henabled : manual.nightModeForceCloseEnabled = true := (Bool.and_eq_true_iff.mp hactive).1
    cases hforever : manual.nightModeForceCloseForever with
    | true =>
      refine .inr (.inl ⟨fun t => ?_, by simp, by simp⟩)
      rw [ManualClosureSettings.activeAt, henabled, hforever]
      rfl
    | false =>
      have huntil := (Bool.and_eq_true_iff.mp hactive).2
      rw [hforever, Bool.false_or] at huntil
      cases hu : manual.nightModeForceCloseUntil with
      | none =>
        rw [hu] at huntil
        cases huntil
      | some u =>
        rw [hu, Option.any_some, decide_eq_true_iff] at huntil
        refine .inr (.inr ⟨u, huntil, fun t => ?_, by simp, by simp⟩)
        rw [ManualClosureSettings.activeAt, henabled, hforever, hu, Option.any_some, Bool.true_and,
          Bool.false_or, decide_eq_true_iff]
  · rw [Bool.not_eq_true] at hactive
    rw [hactive]
    exact .inl ⟨rfl, rfl, rfl⟩

theorem ClosureOf.constant (h : ClosureOf zones chat atMs closure) {t : Int} (hle : atMs ≤ t)
    (hlt : ∀ next, closure.nextTransitionAt = some next → t < next) :
    Closed zones chat t ↔ Closed zones chat atMs := by
  obtain ⟨items, hitems, hnext⟩ := h.next
  have hnight : (∀ o, items.head? = some o → t < o.dueAt) →
      (Night zones chat.toNightModeTransitionScheduleSettings t ↔
        Night zones chat.toNightModeTransitionScheduleSettings atMs) := by
    intro hearly
    cases hitems with
    | never hnever => exact hnever t
    | first o rest hlater hconstant hbefore hafter => exact hconstant t hle (hearly o rfl)
  unfold Closed
  rcases manual_cases chat.toManualClosureSettings atMs with ⟨hinactive, -, huntil⟩ |
    ⟨hforever, -, -⟩ | ⟨u, hu, hactive, -, huntil⟩
  · have hlater : chat.activeAt t = false := by
      rw [← Bool.not_eq_true]
      exact fun hactive => by rw [activeAt_anti hle hactive] at hinactive; cases hinactive
    rw [hinactive, hlater]
    refine or_congr_right (hnight fun o ho => hlt o.dueAt ?_)
    rw [hnext, huntil, ho]
    rfl
  · exact ⟨fun _ => .inl (hforever atMs), fun _ => .inl (hforever t)⟩
  · have htu : t < u := by
      rw [huntil] at hnext
      cases hhead : items.head? with
      | none =>
        rw [hhead] at hnext
        exact hlt u hnext
      | some o =>
        rw [hhead] at hnext
        by_cases huo : u < o.dueAt
        · exact hlt u (by rw [hnext]; simp [nextTransition, huo])
        · have hto := hlt o.dueAt (by rw [hnext]; simp [nextTransition, huo])
          omega
    exact ⟨fun _ => .inl ((hactive atMs).mpr hu), fun _ => .inl ((hactive t).mpr htu)⟩

theorem opensAt_cases {manual : ManualChatClosure} {later : Option NightModeTransitionSnapshot}
    {opensAt : Int} (h : Yields zones (resolveOpensAt zones manual later) (some opensAt)) :
    manual.mode ≠ some .forever ∧
      ((∃ s, later = some s ∧ s.status = .closed ∧
        Yields zones (resolveNightModeTransitionSessionOpenAt zones s.sessionKey) (some opensAt)) ∨
      isClosed later = false ∧ manual.until = some opensAt) := by
  unfold resolveOpensAt at h
  split at h
  · cases yields_pure h
  · next hmode =>
    refine ⟨hmode, ?_⟩
    split at h
    · next s hs =>
      obtain ⟨hlater, hclosed⟩ := Option.filter_eq_some_iff.mp hs
      exact .inl ⟨s, hlater, of_decide_eq_true hclosed, h⟩
    · next hnone =>
      refine .inr ⟨?_, yields_pure h⟩
      cases later with
      | none => rfl
      | some s =>
        rw [isClosed, Option.any_some]
        simpa using Option.filter_eq_none_iff.mp hnone s rfl

/-- A chat is closed until it opens. -/
theorem ClosureOf.opens (h : ClosureOf zones chat atMs closure) {opensAt : Int}
    (hopensAt : closure.opensAt = some opensAt) :
    atMs < opensAt ∧ (∀ t, atMs ≤ t → t < opensAt → Closed zones chat t) ∧
      ¬ Closed zones chat opensAt := by
  obtain ⟨later, hlater, hopening⟩ := h.opening
  rw [hopensAt] at hopening
  obtain ⟨hmode, hcases⟩ := opensAt_cases hopening
  rcases manual_cases chat.toManualClosureSettings atMs with ⟨hinactive, -, huntil⟩ |
    ⟨-, hforever, -⟩ | ⟨u, hu, hactive, -, huntil⟩
  · rw [huntil] at hlater hcases
    have hnever : ∀ t, atMs ≤ t → chat.activeAt t = false := fun t hle => by
      rw [← Bool.not_eq_true]
      exact fun hactive => by rw [activeAt_anti hle hactive] at hinactive; cases hinactive
    rcases hcases with ⟨s, rfl, hs, hopens⟩ | ⟨-, hnone⟩
    · obtain ⟨hlt, hnight, hend⟩ := hlater.opensAt_spec hs hopens
      refine ⟨hlt, fun t hle ht => .inr (hnight t hle ht), ?_⟩
      rintro (hactive | hnight')
      · rw [hnever opensAt (Int.le_of_lt hlt)] at hactive
        cases hactive
      · exact hend hnight'
    · cases hnone
  · exact absurd hforever hmode
  · rw [huntil] at hlater hcases
    have hended : ∀ t, u ≤ t → ¬ chat.activeAt t = true := fun t hle hactive' =>
      absurd ((hactive t).mp hactive') (not_lt.mpr hle)
    rcases hcases with ⟨s, rfl, hs, hopens⟩ | ⟨hopen, hend⟩
    · obtain ⟨hlt, hnight, hend⟩ := hlater.opensAt_spec hs hopens
      have hlt : u < opensAt := hlt
      refine ⟨lt_trans hu hlt, fun t hle ht => ?_, ?_⟩
      · by_cases htu : t < u
        · exact .inl ((hactive t).mpr htu)
        · exact .inr (hnight t (not_lt.mp htu) ht)
      · rintro (hactive' | hnight')
        · exact hended opensAt (Int.le_of_lt hlt) hactive'
        · exact hend hnight'
    · obtain rfl := Option.some.inj hend
      refine ⟨hu, fun t _ ht => .inl ((hactive t).mpr ht), ?_⟩
      rintro (hactive' | hnight')
      · exact hended u (Int.le_refl u) hactive'
      · rw [hlater.closed_iff.mpr hnight'] at hopen
        cases hopen

/-- `x` returns `a` after some earlier calls. -/
def Returns (zones : Zones) (x : CalendarM α) (a : α) : Prop :=
  ∃ history, (x (afterCalls zones history)).1 = .ok a

theorem Returns.yields {x : CalendarM α} {a : α} (h : Returns zones x a) : Yields zones x a := by
  obtain ⟨history, h⟩ := h
  exact ⟨afterCalls zones history, afterCalls_ok zones history, h⟩

/-- The status of the night, what is announced of it, the closure and its opening fit together. -/
theorem closure_coherent (zones : Zones) (chat : ChatClosureSettings) (now : Int) :
    (∀ night next rest,
      Returns zones (resolveNightModeTransitionSnapshot zones
        chat.toNightModeTransitionScheduleSettings (some now)) (some night) →
      Returns zones (resolveNextNightModeTransitionOccurrences zones
        chat.toNightModeTransitionScheduleSettings (some now)) (next :: rest) →
      now < next.dueAt ∧
      (∀ t later, now ≤ t → t < next.dueAt →
        Returns zones (resolveNightModeTransitionSnapshot zones
          chat.toNightModeTransitionScheduleSettings (some t)) later →
        later.map (fun s => s.status) = some night.status) ∧
      ∀ later, Returns zones (resolveNightModeTransitionSnapshot zones
          chat.toNightModeTransitionScheduleSettings (some next.dueAt)) later →
        ∃ s, later = some s ∧ s.status ≠ night.status ∧
          (s.status = .closed ↔ next.transition = .close)) ∧
    ∀ closure, Returns zones (resolveEffectiveChatClosure zones chat (some now)) closure →
      (∀ t later, now ≤ t → (∀ next, closure.nextTransitionAt = some next → t < next) →
        Returns zones (resolveEffectiveChatClosure zones chat (some t)) later →
        later.closed = closure.closed) ∧
      (∀ opensAt, closure.opensAt = some opensAt →
        now < opensAt ∧
        (∀ t later, now ≤ t → t < opensAt →
          Returns zones (resolveEffectiveChatClosure zones chat (some t)) later →
          later.closed = true) ∧
        ∀ later, Returns zones (resolveEffectiveChatClosure zones chat (some opensAt)) later →
          later.closed = false) := by
  constructor
  · intro night next rest hnight hnext
    have hnight := snapshotOf_yields hnight.yields
    cases nextOf_yields hnext.yields with
    | first _ _ hlater hconstant hbefore hafter =>
      refine ⟨hlater, fun t later hle hlt hreturns => ?_, fun later hreturns => ?_⟩
      · have hthen := snapshotOf_yields hreturns.yields
        obtain ⟨s, rfl⟩ := hnight.exists_some hthen
        refine congrArg some (NightStatus.eq_of_closed_iff ?_)
        rw [hthen.status_iff, hnight.status_iff]
        exact hconstant t hle hlt
      · have hthen := snapshotOf_yields hreturns.yields
        obtain ⟨s, rfl⟩ := hnight.exists_some hthen
        refine ⟨s, rfl, fun heq => ?_, hthen.status_iff.trans hafter⟩
        have hboth : next.transition = .close ↔ next.transition = .open := by
          rw [← hafter, ← hbefore, ← hthen.status_iff, ← hnight.status_iff, heq]
        cases hkind : next.transition <;> simp [hkind] at hboth
  · intro closure hclosure
    have hnow := closureOf_yields hclosure.yields
    refine ⟨fun t later hle hlt hreturns => ?_, fun opensAt hopensAt => ?_⟩
    · have hthen := closureOf_yields hreturns.yields
      rw [Bool.eq_iff_iff, hthen.closed, hnow.closed]
      exact hnow.constant hle hlt
    · obtain ⟨hlt, hclosed, hopen⟩ := hnow.opens hopensAt
      refine ⟨hlt, fun t later hle ht hreturns => ?_, fun later hreturns => ?_⟩
      · exact (closureOf_yields hreturns.yields).closed.mpr (hclosed t hle ht)
      · rw [← Bool.not_eq_true, (closureOf_yields hreturns.yields).closed]
        exact hopen

/-- The nightly chat, closed by hand until six in the morning. -/
def guarded : ChatClosureSettings :=
  { nightly with
    nightModeForceCloseEnabled := true
    nightModeForceCloseForever := false
    nightModeForceCloseUntil := some 21600000 }

/-- What is shown of the guarded chat at an instant of the night of 1969-12-31. -/
def shownInTheNight (manual : ManualChatClosure) : EffectiveChatClosure where
  closed := true
  restriction := if manual.active then .manual else .night
  manual := manual
  night := some
    { status := .closed
      sessionKey := "v1:UTC:23:00:08:00:1969-12-31"
      geometry := geometry utcOnly nightly.toNightModeScheduleGeometry
      isCloseBoundary := false
      isOpenBoundary := false }
  opensAt := some 28800000
  nextTransitionAt := manual.until.or (some 28800000)
  boundary := .daily

def shownAtTheEnd : EffectiveChatClosure where
  closed := false
  restriction := .open
  manual := { active := false, mode := none, «until» := none }
  night := some
    { status := .open
      sessionKey := "v1:UTC:23:00:08:00:1969-12-31"
      geometry := geometry utcOnly nightly.toNightModeScheduleGeometry
      isCloseBoundary := false
      isOpenBoundary := true }
  opensAt := none
  nextTransitionAt := some 82800000
  boundary := .daily

theorem guarded_coherent :
    (shownInTheNight { active := false, mode := none, «until» := none }).closed = true ∧
      shownAtTheEnd.closed = false := by
  obtain ⟨-, hopens⟩ := (closure_coherent utcOnly guarded 0).2
    (shownInTheNight { active := true, mode := some .timed, «until» := some 21600000 })
    ⟨[], by decide +kernel⟩
  obtain ⟨-, hclosed, hopen⟩ := hopens 28800000 rfl
  exact ⟨hclosed 21600000 _ (by decide) (by decide) ⟨earlier, by decide +kernel⟩,
    hopen _ ⟨earlier, by decide +kernel⟩⟩

end Maxim.Moderation.NightMode
