import Maxim.Moderation.NightMode.Transitions

/-!
# Answers do not depend on the cached calendars

The answers are written out in terms of the windows around the instant. For an
occurrence these are the windows around its own edges, and for the key of a
session the windows around noon of its date.
-/

namespace Maxim.Moderation.NightMode

open Maxim.Library

variable {zones : Zones} {z : ZoneClock} {value : NightModeCalendarGeometry} {atMs : Int}
  {p c n r : Int × Int} {ws before after : List NightModeCalendarWindow}
  {P C N W : NightModeCalendarWindow} {calendars : Calendars}

/-! ## Answers -/

theorem snapshotAt_eq (h : Ordered ws before after P C N) (hclose : C.closeAtMs ≤ atMs)
    (hnext : atMs < N.closeAtMs) : snapshotAt value atMs ws = .ok (some
      { status := if atMs < C.openAtMs then .closed else .open
        sessionKey := sessionKey C value
        geometry := value
        isCloseBoundary :=
          decide (atMs < C.openAtMs) && decide (atMs / MINUTE_MS * MINUTE_MS = C.closeAtMs)
        isOpenBoundary :=
          !decide (atMs < C.openAtMs) && decide (atMs / MINUTE_MS * MINUTE_MS = C.openAtMs) }) := by
  unfold snapshotAt
  rw [h.active hclose hnext, h.lastOpened hclose hnext]
  by_cases hopen : atMs < C.openAtMs
  · simp [hopen]
  · simp [hopen]

theorem occurrencesAfter_eq (h : Ordered ws before after P C N) (hclose : C.closeAtMs ≤ atMs)
    (hnext : atMs < N.closeAtMs) : occurrencesAfter value atMs ws =
      if atMs < C.openAtMs then [occurrence C value .open, occurrence N value .close]
      else [occurrence N value .close, occurrence N value .open] := by
  unfold occurrencesAfter
  rw [h.nextClose hclose hnext, h.nextOpen hclose hnext]
  have hcurrent := h.current
  have hself := h.next
  by_cases hopen : atMs < C.openAtMs
  · have hlt : ¬ N.closeAtMs ≤ C.openAtMs := by omega
    simp [hopen, occurrence, hlt]
  · have hle : N.closeAtMs ≤ N.openAtMs := by omega
    simp [hopen, occurrence, hle]

theorem latestAt_eq (h : Ordered ws before after P C N) (hclose : C.closeAtMs ≤ atMs)
    (hnext : atMs < N.closeAtMs) : latestAt value atMs ws =
      { close := some (occurrence C value .close)
        «open» := some (occurrence (if atMs < C.openAtMs then P else C) value .open) } := by
  unfold latestAt
  rw [h.lastClosed hclose hnext, h.lastOpened hclose hnext]
  rfl

theorem find?_key (h : Ordered ws before after P C N) (hW : W = P ∨ W = C ∨ W = N)
    {predicate : NightModeCalendarWindow → Bool}
    (hpredicate : ∀ w, predicate w = true ↔ w.sessionDateKey = W.sessionDateKey) :
    ws.find? predicate = some W := by
  have hfalse : ∀ w : NightModeCalendarWindow, w.sessionDateKey < W.sessionDateKey →
      predicate w = false := fun w hlt => by
    rw [← Bool.not_eq_true, hpredicate]
    omega
  have hself : predicate W = true := (hpredicate W).mpr rfl
  have hprior := h.prior
  have hcurrent := h.current
  rcases hW with rfl | rfl | rfl
  · exact find?_split before (C :: N :: after) h.eq hself fun w hw => hfalse w (h.before w hw).2.2
  · refine h.find?_current hself (hfalse P hprior.2.2) fun w hw => hfalse w ?_
    have hw := h.before w hw
    omega
  · refine h.find?_next hself (hfalse P (by omega)) (hfalse C hcurrent.2.2) fun w hw => hfalse w ?_
    have hw := h.before w hw
    omega

theorem sessionKey_eq_iff (w w' : NightModeCalendarWindow) :
    sessionKey w value = sessionKey w' value ↔ w.sessionDateKey = w'.sessionDateKey :=
  ⟨fun h => (sessionKey_injective h).2, fun h => congrArg (buildNightModeTransitionSessionKey value) h⟩

/-- The limits of an occurrence come from its window and the next one. -/
def catchUpFrom (item : NightModeTransitionOccurrence) (now : Option Int)
    (C N : NightModeCalendarWindow) : CatchUpWindow :=
  let limit := if item.transition = .close then C.openAtMs
    else min (C.openAtMs + NIGHT_MODE_OPEN_CATCH_UP_MAX_AGE_MS) N.closeAtMs
  { withinWindow := now.any fun atMs => decide (item.dueAt ≤ atMs) &&
      (decide (atMs < limit) || (decide (item.transition = .open) && decide (atMs = limit) &&
        decide (limit < N.closeAtMs)))
    endsAt := limit }

theorem catchUpAt_eq (h : Ordered ws before after P C N) (item : NightModeTransitionOccurrence)
    (hitem : item.sessionKey = sessionKey C value) (now : Option Int) :
    catchUpAt value item now ws = catchUpFrom item now C N := by
  have hfind : (ws.find? fun w => sessionKey w value == item.sessionKey) = some C := by
    refine find?_key h (.inr (.inl rfl)) fun w => ?_
    rw [beq_iff_eq, hitem, sessionKey_eq_iff]
  have hcurrent := h.current
  have hnext : (ws.find? fun w => decide (C.openAtMs < w.closeAtMs)) = some N :=
    h.nextClose (by omega) (by omega)
  unfold catchUpAt catchUpFrom
  rw [hfind]
  dsimp only
  rw [hnext]
  rfl

/-! ## Calls -/

theorem withCalendar_eq_ok {α : Type} {at' : Option Int}
    {answer : List NightModeCalendarWindow → Except String α} {a : α} :
    (withCalendar zones value at' answer calendars).1 = .ok a ↔
      ∃ ws, (resolveNightModeCalendar zones value at' calendars).1 = .ok ws ∧ answer ws = .ok a := by
  unfold withCalendar
  rw [CalendarM.bind_apply]
  rcases resolveNightModeCalendar zones value at' calendars with ⟨e | ws, calendars'⟩
  · exact ⟨nofun, fun ⟨_, hws, _⟩ => nomatch hws⟩
  · dsimp only
    rw [CalendarM.ofExcept_apply]
    exact ⟨fun ha => ⟨ws, rfl, ha⟩, fun ⟨_, hws, ha⟩ => Except.ok.inj hws ▸ ha⟩

theorem withCalendar_spec {α : Type} {at' : Option Int}
    {answer : List NightModeCalendarWindow → Except String α} {a : α} (hok : CacheOk zones calendars)
    (h : (withCalendar zones value at' answer calendars).1 = .ok a) :
    ∃ atMs z p c n ws, at' = some atMs ∧ zones.zone value.timezone = some z ∧
      Shows z value atMs ws p c n ∧ answer ws = .ok a := by
  obtain ⟨ws, hws, ha⟩ := withCalendar_eq_ok.mp h
  obtain ⟨atMs, z, p, c, n, hat, hzone, hshows⟩ := resolveNightModeCalendar_spec hok hws
  exact ⟨atMs, z, p, c, n, ws, hat, hzone, hshows, ha⟩

/-- Whatever was asked before, the answer is the one from an empty map. -/
def CacheFree {α : Type} (zones : Zones) (x : CalendarM α) : Prop :=
  ∀ history r, (x []).1 = .ok r → (x (afterCalls zones history)).1 = .ok r

theorem cacheFree_pure {α : Type} (zones : Zones) (a : α) : CacheFree zones (pure a) :=
  fun _ _ h => h

theorem cacheFree_withCalendar {α : Type} {at' : Option Int}
    {answer : List NightModeCalendarWindow → Except String α}
    (hanswer : ∀ {atMs z p c n ws ws'}, at' = some atMs → zones.zone value.timezone = some z →
      Shows z value atMs ws p c n → Shows z value atMs ws' p c n → answer ws = answer ws') :
    CacheFree zones (withCalendar zones value at' answer) := by
  intro history r hr
  obtain ⟨ws, hws, ha⟩ := withCalendar_eq_ok.mp hr
  obtain ⟨ws', hws'⟩ := resolveNightModeCalendar_found (afterCalls zones history) hws
  obtain ⟨atMs, z, p, c, n, hat, hzone, hshows⟩ := resolveNightModeCalendar_spec (.nil zones) hws
  obtain ⟨atMs', z', p', c', n', hat', hzone', hshows'⟩ :=
    resolveNightModeCalendar_spec (afterCalls_ok zones history) hws'
  obtain rfl := Option.some.inj (hat.symm.trans hat')
  obtain rfl := Option.some.inj (hzone.symm.trans hzone')
  obtain ⟨rfl, rfl, rfl⟩ := hshows.around.unique hshows'.around
  refine withCalendar_eq_ok.mpr ⟨ws', hws', ?_⟩
  rw [← hanswer hat hzone hshows hshows', ha]

theorem CacheFree.map {α β : Type} {x : CalendarM α} (h : CacheFree zones x) (f : α → β) :
    CacheFree zones (x >>= fun a => pure (f a)) := by
  intro history r hr
  rw [CalendarM.bind_apply] at hr ⊢
  rcases hx : x [] with ⟨e | a, calendars⟩
  · rw [hx] at hr
    cases hr
  · rw [hx] at hr
    have ha := h history a (by rw [hx])
    rcases hx' : x (afterCalls zones history) with ⟨e | a', calendars'⟩
    · rw [hx'] at ha
      cases ha
    · rw [hx'] at ha
      obtain rfl := Except.ok.inj ha
      exact hr

/-! ## Instants of occurrences and sessions -/

theorem IsOccurrence.current {kind : NightModeTransitionKind} (hblock : (nights z value).IsBlock r)
    (h : Shows z value (occurrence (window z value r) value kind).dueAt ws p c n) : r = c := by
  have hlt : (nights z value).closes r.1 < (nights z value).opens r.2 := hblock.closes_lt_opens
  have hdue : (nights z value).closes r.1 ≤ (occurrence (window z value r) value kind).dueAt ∧
      (occurrence (window z value r) value kind).dueAt ≤ (nights z value).opens r.2 := by
    unfold occurrence
    dsimp only [window, windowOf]
    split <;> omega
  exact h.around.eq_current hblock hdue.1 hdue.2

/-- Noon of its date is near the start of a night, in every zone. -/
theorem Shows.around_noon (hblock : (nights z value).IsBlock r)
    (h : Shows z value (noon r.1) ws p c n) : r = p ∨ r = c ∨ r = n := by
  have hge : ∀ day, day * DAY_MS - 14 * HOUR_MS ≤ (nights z value).closes day := fun day => by
    have hge := z.boundary_ge day value.startMinutes
    have hminutes : 0 ≤ (value.startMinutes.val : Int) * MINUTE_MS := by
      unfold MINUTE_MS
      omega
    change day * DAY_MS - 14 * HOUR_MS ≤ z.resolveBoundary day value.startMinutes
    omega
  have hle : ∀ day, (nights z value).closes day < (day + 1) * DAY_MS + 12 * HOUR_MS := fun day => by
    have hle := z.boundary_le day value.startMinutes
    have hminutes : (value.startMinutes.val : Int) * MINUTE_MS < DAY_MS := by
      have hlt := value.startMinutes.isLt
      unfold MINUTE_MS DAY_MS
      omega
    have hday : (day + 1) * DAY_MS = day * DAY_MS + DAY_MS := by
      rw [Int.add_mul, Int.one_mul]
    change z.resolveBoundary day value.startMinutes < (day + 1) * DAY_MS + 12 * HOUR_MS
    omega
  have hnoon : noon r.1 = r.1 * DAY_MS + 12 * HOUR_MS := rfl
  by_cases hstarted : (nights z value).closes r.1 ≤ noon r.1
  · have hfirst := h.around.le_current hblock hstarted
    rcases Int.lt_or_eq_of_le hfirst with hlt | heq
    · -- the current night starts on the next date, and this one was the night before it
      have hnext : c.1 = r.1 + 1 := by
        have hc := hge c.1
        have hcurrent := h.around.started
        unfold DAY_MS HOUR_MS at *
        omega
      have hlast := hblock.disjoint h.around.current hlt
      have hprior := h.around.priorCurrent.le_last hlast hblock.last
      have hbefore := h.around.priorCurrent.lt
      have hle' := hblock.le
      exact .inl (hblock.eq_of_last h.around.prior (by omega))
    · exact .inr (.inl (hblock.eq_of_first h.around.current heq))
  · have hfirst := h.around.next_le hblock (not_le.mp hstarted)
    rcases Int.lt_or_eq_of_le hfirst with hlt | heq
    · have hn := hle n.1
      have hearly := h.around.early
      unfold DAY_MS HOUR_MS at *
      omega
    · exact .inr (.inr (hblock.eq_of_first h.around.next heq.symm))

def IsOccurrence (z : ZoneClock) (value : NightModeCalendarGeometry)
    (item : NightModeTransitionOccurrence) : Prop :=
  ∃ r kind, (nights z value).IsBlock r ∧ item = occurrence (window z value r) value kind

/-- A session of the nights of a zone, or one of a night that never ends. -/
def IsSession (zones : Zones) (value : NightModeCalendarGeometry) (key : String) : Prop :=
  (value.startMinutes = value.endMinutes ∧ ∃ day, key = buildNightModeTransitionSessionKey value day) ∨
  ∃ z r, zones.zone value.timezone = some z ∧ (nights z value).IsBlock r ∧
    key = sessionKey (window z value r) value

theorem find?_session (hblock : (nights z value).IsBlock r)
    (h : Shows z value (noon r.1) ws p c n) :
    (ws.find? fun w => decide (w.sessionDateKey = (window z value r).sessionDateKey)) =
      some (window z value r) := by
  obtain ⟨before, after, hordered⟩ := h.ordered
  refine find?_key hordered ?_ fun w => decide_eq_true_iff
  rcases h.around_noon hblock with rfl | rfl | rfl
  · exact .inl rfl
  · exact .inr (.inl rfl)
  · exact .inr (.inr rfl)

theorem absoluteSession_cacheFree {key : String} (h : IsSession zones value key) :
    CacheFree zones (absoluteSession zones key) := by
  unfold absoluteSession
  split
  · exact cacheFree_pure zones none
  · next parsed hparsed =>
    split
    · exact cacheFree_pure zones none
    · next hdaily =>
      rcases h with ⟨hcontinuous, day, rfl⟩ | ⟨z, r, hzone, hblock, rfl⟩
      · obtain rfl := parse_sessionKey hparsed
        exact absurd hcontinuous hdaily
      · obtain rfl := parse_sessionKey hparsed
        refine cacheFree_withCalendar fun {atMs z' p c n ws ws'} hat hzone' hshows hshows' => ?_
        obtain rfl := Option.some.inj hat
        obtain rfl := Option.some.inj (hzone.symm.trans hzone')
        dsimp only
        rw [find?_session hblock hshows, find?_session hblock hshows']

/-! ## What the functions produce -/

variable {settings : NightModeTransitionScheduleSettings} {now : Option Int}
  {item : NightModeTransitionOccurrence}

theorem next_spec {items : List NightModeTransitionOccurrence} (hok : CacheOk zones calendars)
    (h : (resolveNextNightModeTransitionOccurrences zones settings now calendars).1 = .ok items)
    (hitem : item ∈ items) :
    ∃ z, zones.zone (geometry zones settings.toNightModeScheduleGeometry).timezone = some z ∧
      IsOccurrence z (geometry zones settings.toNightModeScheduleGeometry) item := by
  unfold resolveNextNightModeTransitionOccurrences at h
  split at h
  · obtain rfl := Except.ok.inj h
    cases hitem
  · split at h
    · obtain rfl := Except.ok.inj h
      cases hitem
    · obtain ⟨atMs, z, p, c, n, ws, rfl, hzone, hshows, ha⟩ := withCalendar_spec hok h
      obtain rfl := Except.ok.inj ha
      obtain ⟨before, after, hordered⟩ := hshows.ordered
      rw [Option.getD_some, occurrencesAfter_eq hordered hshows.around.started
        hshows.around.early] at hitem
      refine ⟨z, hzone, ?_⟩
      split at hitem
      · rcases List.mem_cons.mp hitem with rfl | hitem
        · exact ⟨c, .open, hshows.around.current, rfl⟩
        · rw [List.mem_singleton.mp hitem]
          exact ⟨n, .close, hshows.around.next, rfl⟩
      · rcases List.mem_cons.mp hitem with rfl | hitem
        · exact ⟨n, .close, hshows.around.next, rfl⟩
        · rw [List.mem_singleton.mp hitem]
          exact ⟨n, .open, hshows.around.next, rfl⟩

theorem latest_spec {latest : LatestOccurrences} (hok : CacheOk zones calendars)
    (h : (resolveLatestNightModeTransitionOccurrences zones settings.toNightModeScheduleGeometry now
      calendars).1 = .ok latest) (hitem : latest.close = some item ∨ latest.open = some item) :
    ∃ z, zones.zone (geometry zones settings.toNightModeScheduleGeometry).timezone = some z ∧
      IsOccurrence z (geometry zones settings.toNightModeScheduleGeometry) item := by
  unfold resolveLatestNightModeTransitionOccurrences at h
  split at h
  · obtain rfl := Except.ok.inj h
    rcases hitem with hitem | hitem <;> cases hitem
  · obtain ⟨atMs, z, p, c, n, ws, rfl, hzone, hshows, ha⟩ := withCalendar_spec hok h
    obtain rfl := Except.ok.inj ha
    obtain ⟨before, after, hordered⟩ := hshows.ordered
    rw [Option.getD_some, latestAt_eq hordered hshows.around.started hshows.around.early] at hitem
    refine ⟨z, hzone, ?_⟩
    rcases hitem with hitem | hitem
    · rw [← Option.some.inj hitem]
      exact ⟨c, .close, hshows.around.current, rfl⟩
    · rw [← Option.some.inj hitem]
      split
      · exact ⟨p, .open, hshows.around.prior, rfl⟩
      · exact ⟨c, .open, hshows.around.current, rfl⟩

theorem snapshot_spec {snapshot : NightModeTransitionSnapshot} (hok : CacheOk zones calendars)
    (h : (resolveNightModeTransitionSnapshot zones settings now calendars).1 = .ok (some snapshot)) :
    IsSession zones (geometry zones settings.toNightModeScheduleGeometry) snapshot.sessionKey := by
  unfold resolveNightModeTransitionSnapshot at h
  cases henabled : settings.nightModeEnabled with
  | false =>
    rw [henabled] at h
    cases h
  | true =>
    rw [henabled] at h
    cases now with
    | none => cases h
    | some atMs =>
      dsimp only at h
      split at h
      · next hcontinuous =>
        obtain rfl := Option.some.inj (Except.ok.inj h)
        exact .inl ⟨hcontinuous, _, rfl⟩
      · obtain ⟨atMs, z, p, c, n, ws, hat, hzone, hshows, ha⟩ := withCalendar_spec hok h
        obtain rfl := Option.some.inj hat
        obtain ⟨before, after, hordered⟩ := hshows.ordered
        rw [snapshotAt_eq hordered hshows.around.started hshows.around.early] at ha
        obtain rfl := Option.some.inj (Except.ok.inj ha)
        exact .inr ⟨z, c, hzone, hshows.around.current, rfl⟩

/-- The occurrences that the functions produce for some settings, at any time. -/
inductive Produced (zones : Zones) (settings : NightModeTransitionScheduleSettings)
    (item : NightModeTransitionOccurrence) : Prop
  | next (history : List (NightModeCalendarGeometry × Option Int)) (at' : Option Int)
    (items : List NightModeTransitionOccurrence)
    (h : (resolveNextNightModeTransitionOccurrences zones settings at'
      (afterCalls zones history)).1 = .ok items) (hitem : item ∈ items)
  | latest (history : List (NightModeCalendarGeometry × Option Int)) (at' : Option Int)
    (latest : LatestOccurrences)
    (h : (resolveLatestNightModeTransitionOccurrences zones settings.toNightModeScheduleGeometry at'
      (afterCalls zones history)).1 = .ok latest)
    (hitem : latest.close = some item ∨ latest.open = some item)

/-- The session keys that the functions produce for some settings, at any time. -/
inductive ProducedKey (zones : Zones) (settings : NightModeTransitionScheduleSettings) : String → Prop
  | occurrence (item : NightModeTransitionOccurrence) (h : Produced zones settings item) :
    ProducedKey zones settings item.sessionKey
  | snapshot (history : List (NightModeCalendarGeometry × Option Int)) (at' : Option Int)
    (snapshot : NightModeTransitionSnapshot)
    (h : (resolveNightModeTransitionSnapshot zones settings at' (afterCalls zones history)).1 =
      .ok (some snapshot)) : ProducedKey zones settings snapshot.sessionKey

theorem Produced.isOccurrence (h : Produced zones settings item) :
    ∃ z, zones.zone (geometry zones settings.toNightModeScheduleGeometry).timezone = some z ∧
      IsOccurrence z (geometry zones settings.toNightModeScheduleGeometry) item := by
  cases h with
  | next history at' items hnext hitem => exact next_spec (afterCalls_ok zones history) hnext hitem
  | latest history at' latest hlatest hitem =>
    exact latest_spec (afterCalls_ok zones history) hlatest hitem

theorem ProducedKey.isSession {key : String} (h : ProducedKey zones settings key) :
    IsSession zones (geometry zones settings.toNightModeScheduleGeometry) key := by
  cases h with
  | occurrence item hitem =>
    obtain ⟨z, hzone, r, kind, hblock, rfl⟩ := hitem.isOccurrence
    exact .inr ⟨z, r, hzone, hblock, rfl⟩
  | snapshot history at' snapshot hsnapshot =>
    exact snapshot_spec (afterCalls_ok zones history) hsnapshot

/-! ## Independence -/

theorem snapshot_cacheFree (zones settings now) :
    CacheFree zones (resolveNightModeTransitionSnapshot zones settings now) := by
  unfold resolveNightModeTransitionSnapshot
  cases settings.nightModeEnabled with
  | false => exact cacheFree_pure zones none
  | true =>
    cases now with
    | none => exact cacheFree_pure zones none
    | some atMs =>
      dsimp only
      split
      · exact cacheFree_pure zones _
      · refine cacheFree_withCalendar fun hat hzone hshows hshows' => ?_
        obtain rfl := Option.some.inj hat
        obtain ⟨before, after, hordered⟩ := hshows.ordered
        obtain ⟨before', after', hordered'⟩ := hshows'.ordered
        rw [snapshotAt_eq hordered hshows.around.started hshows.around.early,
          snapshotAt_eq hordered' hshows.around.started hshows.around.early]

theorem next_cacheFree (zones settings now) :
    CacheFree zones (resolveNextNightModeTransitionOccurrences zones settings now) := by
  unfold resolveNextNightModeTransitionOccurrences
  split
  · exact cacheFree_pure zones []
  · dsimp only
    split
    · exact cacheFree_pure zones []
    · refine cacheFree_withCalendar fun hat hzone hshows hshows' => ?_
      subst hat
      obtain ⟨before, after, hordered⟩ := hshows.ordered
      obtain ⟨before', after', hordered'⟩ := hshows'.ordered
      rw [Option.getD_some, occurrencesAfter_eq hordered hshows.around.started hshows.around.early,
        occurrencesAfter_eq hordered' hshows.around.started hshows.around.early]

theorem latest_cacheFree (zones settings now) :
    CacheFree zones (resolveLatestNightModeTransitionOccurrences zones settings now) := by
  unfold resolveLatestNightModeTransitionOccurrences
  dsimp only
  split
  · exact cacheFree_pure zones _
  · refine cacheFree_withCalendar fun hat hzone hshows hshows' => ?_
    subst hat
    obtain ⟨before, after, hordered⟩ := hshows.ordered
    obtain ⟨before', after', hordered'⟩ := hshows'.ordered
    rw [Option.getD_some, latestAt_eq hordered hshows.around.started hshows.around.early,
      latestAt_eq hordered' hshows.around.started hshows.around.early]

theorem catchUp_cacheFree (hitem : Produced zones settings item) (now : Option Int) :
    CacheFree zones (resolveNightModeNoticeCatchUpWindow zones item
      settings.toNightModeScheduleGeometry now) := by
  obtain ⟨z, hzone, r, kind, hblock, rfl⟩ := hitem.isOccurrence
  refine cacheFree_withCalendar fun hat hzone' hshows hshows' => ?_
  obtain rfl := Option.some.inj hat
  obtain rfl := Option.some.inj (hzone.symm.trans hzone')
  obtain rfl := IsOccurrence.current hblock hshows
  obtain ⟨before, after, hordered⟩ := hshows.ordered
  obtain ⟨before', after', hordered'⟩ := hshows'.ordered
  rw [catchUpAt_eq hordered _ rfl, catchUpAt_eq hordered' _ rfl]

/-- No decision about the night depends on the calendars that earlier calls have left behind. -/
theorem cache_independent (zones : Zones) (settings : NightModeTransitionScheduleSettings)
    (now : Option Int) :
    CacheFree zones (resolveNightModeTransitionSnapshot zones settings now) ∧
    CacheFree zones (resolveNextNightModeTransitionOccurrences zones settings now) ∧
    CacheFree zones (resolveLatestNightModeTransitionOccurrences zones
      settings.toNightModeScheduleGeometry now) ∧
    (∀ item, Produced zones settings item →
      CacheFree zones (resolveNightModeNoticeCatchUpWindow zones item
        settings.toNightModeScheduleGeometry now)) ∧
    ∀ key, ProducedKey zones settings key →
      CacheFree zones (resolveNightModeTransitionSessionCloseAt zones key) ∧
      CacheFree zones (resolveNightModeTransitionSessionOpenAt zones key) := by
  refine ⟨snapshot_cacheFree zones settings now, next_cacheFree zones settings now,
    latest_cacheFree zones _ now, fun item hitem => catchUp_cacheFree hitem now, fun key hkey => ?_⟩
  have hsession := absoluteSession_cacheFree hkey.isSession
  exact ⟨hsession.map _, hsession.map _⟩

def utcClock : ZoneClock where
  localDay t := t / DAY_MS
  fromObject day minutes := day * DAY_MS + minutes * MINUTE_MS
  possibleOffsets t := [t]
  mem_possibleOffsets := List.mem_singleton_self
  boundary_mono m := fun day day' hle => by
    change day * DAY_MS + m * MINUTE_MS ≤ day' * DAY_MS + m * MINUTE_MS
    unfold DAY_MS
    omega
  boundary_ge day m := by
    change _ ≤ day * DAY_MS + m * MINUTE_MS
    unfold HOUR_MS
    omega
  boundary_le day m := by
    change day * DAY_MS + m * MINUTE_MS ≤ _
    unfold HOUR_MS
    omega

def utcOnly : Zones where
  zone name := if name = "UTC" then some utcClock else none
  intl name := name == "UTC"
  zonedDay _ t := some (t / DAY_MS)

def nightly : NightModeTransitionScheduleSettings where
  nightModeStartTimeMinutes := 1380
  nightModeEndTimeMinutes := 480
  nightModeTimezone := "UTC"
  nightModeEnabled := true

/-- Earlier calls: another night, and the same night ten days later. -/
def earlier : List (NightModeCalendarGeometry × Option Int) :=
  [({ timezone := "UTC", startMinutes := 60, endMinutes := 120 }, some 0),
    (geometry utcOnly nightly.toNightModeScheduleGeometry, some 864000000)]

def opening : NightModeTransitionOccurrence where
  transition := .open
  dueAt := 28800000
  sessionKey := "v1:UTC:23:00:08:00:1969-12-31"

def closing : NightModeTransitionOccurrence where
  transition := .close
  dueAt := 82800000
  sessionKey := "v1:UTC:23:00:08:00:1970-01-01"

theorem nightly_cache_independent :
    (resolveNextNightModeTransitionOccurrences utcOnly nightly (some 0)
      (afterCalls utcOnly earlier)).1 = .ok [opening, closing] ∧
    (resolveNightModeNoticeCatchUpWindow utcOnly opening nightly.toNightModeScheduleGeometry
      (some 36000000) (afterCalls utcOnly earlier)).1 =
        .ok { withinWindow := true, endsAt := 36000000 } ∧
    (resolveNightModeTransitionSessionOpenAt utcOnly opening.sessionKey
      (afterCalls utcOnly earlier)).1 = .ok (some 28800000) := by
  obtain ⟨-, hnext, -, -⟩ := cache_independent utcOnly nightly (some 0)
  obtain ⟨-, -, -, hcatchUp, hkeys⟩ := cache_independent utcOnly nightly (some 36000000)
  have hopening : Produced utcOnly nightly opening :=
    .next [] (some 0) [opening, closing] (by decide +kernel) List.mem_cons_self
  exact ⟨hnext earlier _ (by decide +kernel), hcatchUp opening hopening earlier _ (by decide +kernel),
    (hkeys _ (.occurrence opening hopening)).2 earlier _ (by decide +kernel)⟩

end Maxim.Moderation.NightMode
