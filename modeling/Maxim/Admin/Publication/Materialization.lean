import Maxim.Library.CivilTime
import Maxim.Library.InitialSegment
import Mathlib.Data.List.Sort
import Maxim.Library.Fallible

/-!
# Expansion of a publication recurrence

A rule names days, counted from the day on which it starts, and local times of
them. The expansion of a window lists the occurrences in it, in order and up to
a limit.
-/

namespace Maxim.Admin.Publication

open Maxim.Library

inductive Frequency
  | daily
  | weekly
  deriving DecidableEq, Repr

instance hoursNeZero : NeZero 24 := ⟨by decide⟩

instance minutesNeZero : NeZero 60 := ⟨by decide⟩

structure LocalTime where
  hour : Fin 24
  minute : Fin 60
  deriving DecidableEq

def LocalTime.minutes (time : LocalTime) : Nat := time.hour * 60 + time.minute

/-- A recurrence; `latePolicy` is whether the rule carries a readable late policy. -/
structure Recurrence where
  frequency : Frequency
  interval : Nat
  weekdays : List Nat
  times : List LocalTime
  startsAt : Option Int
  endsAt : Option Int
  maxOccurrences : Option Nat
  latePolicy : Bool
  deriving DecidableEq

def weekday (day : Int) : Int := (day + 3) % 7 + 1

def startOfWeek (day : Int) : Int := day - (weekday day - 1)

def recurrenceIncludesDay (rule : Recurrence) (day anchor : Int) : Bool :=
  match rule.frequency with
  | .daily =>
    let dayOffset := day - anchor
    decide (0 ≤ dayOffset) && dayOffset % rule.interval == 0
  | .weekly =>
    let weeks := startOfWeek day - startOfWeek anchor
    let weekOffset := weeks / 7
    decide (0 ≤ weekOffset) && weeks % 7 == 0 && weekOffset % rule.interval == 0 &&
      rule.weekdays.contains (weekday day).toNat

def assertRecurrenceShape (rule : Recurrence) : Except String Unit :=
  if rule.interval < 1 then
    .error "Publication recurrence interval must be a positive integer."
  else if rule.times = [] then
    .error "Publication recurrence must contain at least one local time."
  else if rule.frequency = .weekly ∧ (rule.weekdays = [] ∨ ∃ w ∈ rule.weekdays, w < 1 ∨ 7 < w) then
    .error "Weekly publication recurrence must contain ISO weekdays from 1 to 7."
  else if rule.maxOccurrences = some 0 then
    .error "maxOccurrences must be a positive integer or null."
  else .ok ()

/-- The smaller of two limits; `none` is no limit. -/
def minLimit : Option Nat → Option Nat → Option Nat
  | none, m => m
  | n, none => n
  | some n, some m => some (min n m)

def remainingOccurrences (rule : Recurrence) (existingCount : Nat) (maxResults : Option Nat) :
    Option Nat :=
  minLimit maxResults (rule.maxOccurrences.map (· - existingCount))

/-- The instants that the two nested loops visit, in this order. -/
def candidates (z : Zone) (rule : Recurrence) (anchor firstDay lastDay : Int) : List Int :=
  let times := (rule.times.map LocalTime.minutes).insertionSort (· ≤ ·)
  (days firstDay lastDay).flatMap fun day =>
    if recurrenceIncludesDay rule day anchor then
      times.filterMap (z.resolve day)
    else []

/-- `expandRecurrenceSchedule`. The loop returns when the limit is reached, so that later candidates
change nothing. -/
def expandRecurrenceSchedule (z : Zone) (rule : Recurrence) (fromMs toMs : Int)
    (existingCount : Nat) (maxResults : Option Nat) : Except String (List Int) := do
  assertRecurrenceShape rule
  let startsAtMs := rule.startsAt.getD fromMs
  let endsAtMs := rule.endsAt.getD toMs
  if endsAtMs < startsAtMs then
    .error "Publication recurrence must end after it starts."
  else
    let effectiveFromMs := max fromMs startsAtMs
    let effectiveToMs := min toMs endsAtMs
    let limit := remainingOccurrences rule existingCount maxResults
    if effectiveToMs < effectiveFromMs ∨ limit = some 0 then .ok []
    else
      .ok ((candidates z rule (z.localDay startsAtMs) (z.localDay effectiveFromMs)
        (z.localDay effectiveToMs)).foldl
          (collect limit fun ms => decide (effectiveFromMs ≤ ms) && decide (ms ≤ effectiveToMs)) [])

def expandPublicationSchedule (z : Zone) (rule : Recurrence) (fromMs toMs : Int)
    (existingCount : Nat) (maxResults : Option Nat) : Except String (List Int) :=
  if toMs < fromMs then
    .error "Publication schedule window must end at or after it starts."
  else if maxResults = some 0 then .error "maxResults must be a positive integer."
  else expandRecurrenceSchedule z rule fromMs toMs existingCount maxResults

/-! ## Occurrences -/

/-- The instants at which a rule that starts at `startsAt` calls for a publication. -/
def Occurs (z : Zone) (rule : Recurrence) (startsAt t : Int) : Prop :=
  startsAt ≤ t ∧ (∀ endsAt, rule.endsAt = some endsAt → t ≤ endsAt) ∧
    ∃ day, ∃ time ∈ rule.times,
      recurrenceIncludesDay rule day (z.localDay startsAt) = true ∧
        z.resolve day time.minutes = some t

variable {z : Zone} {rule : Recurrence}

variable {t fromMs toMs startsAt : Int}

theorem mem_candidates {anchor firstDay lastDay : Int} :
    t ∈ candidates z rule anchor firstDay lastDay ↔ ∃ day, firstDay ≤ day ∧ day ≤ lastDay ∧
      recurrenceIncludesDay rule day anchor = true ∧
      ∃ time ∈ rule.times, z.resolve day time.minutes = some t := by
  simp only [candidates, List.mem_flatMap, mem_days]
  constructor
  · rintro ⟨day, ⟨hfirst, hlast⟩, ht⟩
    split at ht
    · next hday =>
      obtain ⟨minute, hminute, hres⟩ := List.mem_filterMap.mp ht
      rw [(List.perm_insertionSort _ _).mem_iff, List.mem_map] at hminute
      obtain ⟨time, htime, rfl⟩ := hminute
      exact ⟨day, hfirst, hlast, hday, time, htime, hres⟩
    · cases ht
  · rintro ⟨day, hfirst, hlast, hday, time, htime, hres⟩
    refine ⟨day, ⟨hfirst, hlast⟩, ?_⟩
    rw [if_pos hday]
    refine List.mem_filterMap.mpr ⟨time.minutes, ?_, hres⟩
    rw [(List.perm_insertionSort _ _).mem_iff]
    exact List.mem_map_of_mem htime

theorem candidates_sorted (z : Zone) (rule : Recurrence) (anchor firstDay lastDay : Int) :
    (candidates z rule anchor firstDay lastDay).Pairwise (· ≤ ·) := by
  refine List.pairwise_flatMap.mpr ⟨fun day _ => ?_, (days_sorted _ _).imp fun hlt => ?_⟩
  · split
    · refine List.pairwise_filterMap.mpr ((List.pairwise_insertionSort _ _).imp fun hle => ?_)
      exact fun t ht t' ht' => z.resolve_le ht ht' hle
    · exact .nil
  · intro t ht t' ht'
    split at ht <;> split at ht'
    · obtain ⟨m, -, hres⟩ := List.mem_filterMap.mp ht
      obtain ⟨m', -, hres'⟩ := List.mem_filterMap.mp ht'
      exact Int.le_of_lt (z.resolve_lt_of_day hres hres' hlt)
    · cases ht'
    · cases ht
    · cases ht

/-- What an expansion returns: the occurrences of the window in order, all of them below the limit. -/
structure Expanded (P : Int → Prop) (fromMs toMs : Int) (limit : Option Nat) (slots : List Int) :
    Prop where
  segment : InitialSegment (fun t => P t ∧ fromMs ≤ t ∧ t ≤ toMs) slots
  bounded : ∀ n, limit = some n → slots.length ≤ n
  complete : (∀ n, limit = some n → slots.length < n) →
    ∀ t, P t → fromMs ≤ t → t ≤ toMs → t ∈ slots

theorem Expanded.empty {P : Int → Prop} {limit : Option Nat}
    (h : limit = some 0 ∨ ∀ t, P t → fromMs ≤ t → ¬t ≤ toMs) : Expanded P fromMs toMs limit [] := by
  refine ⟨.nil, fun _ _ => Nat.zero_le _, fun hroom t ht hfrom hto => ?_⟩
  rcases h with hzero | hnone
  · exact absurd (hroom 0 hzero) (Nat.lt_irrefl 0)
  · exact absurd hto (hnone t ht hfrom)

theorem expanded_of_collected {P : Int → Prop} {effFrom effTo : Int}
    {limit : Option Nat} {seen slots : List Int}
    (h : Collected limit (fun ms => decide (effFrom ≤ ms) && decide (ms ≤ effTo)) seen slots)
    (hseen : ∀ t, (t ∈ seen ∧ effFrom ≤ t ∧ t ≤ effTo) ↔ P t ∧ fromMs ≤ t ∧ t ≤ toMs) :
    Expanded P fromMs toMs limit slots := by
  have hkeep : ∀ t, (decide (effFrom ≤ t) && decide (t ≤ effTo)) = true ↔ effFrom ≤ t ∧ t ≤ effTo :=
    fun t => by simp
  refine ⟨⟨h.sorted, fun t ht => ?_, fun t u ht hu hle => ?_⟩, h.bounded, ?_⟩
  · obtain ⟨hs, hk⟩ := h.sound t ht
    exact (hseen t).mp ⟨hs, (hkeep t).mp hk⟩
  · obtain ⟨hs, hk⟩ := (hseen t).mpr ht
    exact h.closed t hs ((hkeep t).mpr hk) u hu hle
  · intro hroom t ht hfrom hto
    obtain ⟨hs, hk⟩ := (hseen t).mpr ⟨ht, hfrom, hto⟩
    exact h.complete hroom t hs ((hkeep t).mpr hk)

theorem occurs_window :
    (∃ day, ∃ time ∈ rule.times, recurrenceIncludesDay rule day (z.localDay startsAt) = true ∧
      z.resolve day time.minutes = some t) ∧
      max fromMs startsAt ≤ t ∧ t ≤ min toMs (rule.endsAt.getD toMs) ↔
    Occurs z rule startsAt t ∧ fromMs ≤ t ∧ t ≤ toMs := by
  rw [max_le_iff, le_min_iff, Occurs]
  constructor
  · rintro ⟨hday, ⟨hfrom, hstart⟩, hto, hend⟩
    refine ⟨⟨hstart, fun endsAt he => ?_, hday⟩, hfrom, hto⟩
    rwa [he] at hend
  · rintro ⟨⟨hstart, hend, hday⟩, hfrom, hto⟩
    refine ⟨hday, ⟨hfrom, hstart⟩, hto, ?_⟩
    cases he : rule.endsAt with
    | none => exact hto
    | some endsAt => exact hend endsAt he

theorem mem_candidates_window :
    (t ∈ candidates z rule (z.localDay startsAt) (z.localDay fromMs) (z.localDay toMs) ∧
      fromMs ≤ t ∧ t ≤ toMs) ↔
    (∃ day, ∃ time ∈ rule.times, recurrenceIncludesDay rule day (z.localDay startsAt) = true ∧
      z.resolve day time.minutes = some t) ∧ fromMs ≤ t ∧ t ≤ toMs := by
  rw [mem_candidates]
  constructor
  · rintro ⟨⟨day, -, -, hday, time, htime, hres⟩, hbounds⟩
    exact ⟨⟨day, time, htime, hday, hres⟩, hbounds⟩
  · rintro ⟨⟨day, time, htime, hday, hres⟩, hfrom, hto⟩
    have hlocal := (z.resolve_eq_some hres).1
    refine ⟨⟨day, ?_, ?_, hday, time, htime, hres⟩, hfrom, hto⟩
    · rw [← hlocal]
      exact z.localDay_mono _ _ hfrom
    · rw [← hlocal]
      exact z.localDay_mono _ _ hto

theorem expandRecurrenceSchedule_spec {existingCount : Nat}
    {maxResults : Option Nat} {slots : List Int} (hstart : rule.startsAt = some startsAt)
    (h : expandRecurrenceSchedule z rule fromMs toMs existingCount maxResults = .ok slots) :
    Expanded (Occurs z rule startsAt) fromMs toMs
      (remainingOccurrences rule existingCount maxResults) slots := by
  obtain ⟨-, -, h⟩ := bind_eq_ok.mp h
  rw [hstart, Option.getD_some] at h
  dsimp only at h
  split at h
  · cases h
  · split at h
    · next hempty =>
      obtain rfl := Except.ok.inj h
      refine .empty (hempty.symm.imp_right fun hlt t ht hfrom hto => ?_)
      obtain ⟨-, hlo, hhi⟩ := occurs_window.mpr ⟨ht, hfrom, hto⟩
      exact absurd (le_trans hlo hhi) (not_le.mpr hlt)
    · obtain rfl := Except.ok.inj h
      refine expanded_of_collected (collected_foldl (candidates_sorted _ _ _ _ _)) fun t => ?_
      rw [mem_candidates_window, occurs_window]

theorem expandPublicationSchedule_spec {existingCount : Nat}
    {maxResults : Option Nat} {slots : List Int} (hstart : rule.startsAt = some startsAt)
    (h : expandPublicationSchedule z rule fromMs toMs existingCount maxResults = .ok slots) :
    fromMs ≤ toMs ∧ Expanded (Occurs z rule startsAt) fromMs toMs
      (remainingOccurrences rule existingCount maxResults) slots := by
  unfold expandPublicationSchedule at h
  split at h
  · cases h
  · next hle =>
    split at h
    · cases h
    · exact ⟨Int.not_lt.mp hle, expandRecurrenceSchedule_spec hstart h⟩

theorem maxOccurrences_pos {existingCount : Nat} {maxResults : Option Nat}
    {slots : List Int}
    (h : expandPublicationSchedule z rule fromMs toMs existingCount maxResults = .ok slots) :
    rule.maxOccurrences ≠ some 0 := by
  intro hzero
  unfold expandPublicationSchedule at h
  split at h
  · cases h
  · split at h
    · cases h
    · obtain ⟨_, hshape, -⟩ := bind_eq_ok.mp h
      unfold assertRecurrenceShape at hshape
      rw [if_pos hzero] at hshape
      split at hshape
      · cases hshape
      · split at hshape
        · cases hshape
        · split at hshape <;> cases hshape

end Maxim.Admin.Publication

/-!
## Materialization of a recurring publication

The schedule stores the occurrences of its revision. Its creation expands the
rule over the next two weeks; every later tick resumes after the latest stored
occurrence and moves the horizon on.
-/

namespace Maxim.Admin.Publication

open Maxim.Library

def PUBLICATION_RECURRENCE_HORIZON_MS : Int := 14 * 24 * 60 * 60000

def PUBLICATION_RECURRENCE_LOOKAHEAD_MS : Int := 450 * 24 * 60 * 60000

def PUBLICATION_RECURRENCE_REFRESH_MS : Int := 12 * 60 * 60000

def MAX_RESULTS : Nat := 300

structure Occurrence where
  scheduledAt : Int
  canceled : Bool := false
  deriving DecidableEq

/-- The stored schedule and the occurrences of its revision. -/
structure Schedule where
  createdAt : Int
  lastMaterializedAt : Option Int
  nextMaterializeAt : Option Int
  occurrences : List Occurrence
  deriving DecidableEq

def Schedule.stored (s : Schedule) : List Int := s.occurrences.map Occurrence.scheduledAt

/-- The occurrences that the queries see: a rule without a late policy skips the canceled ones. -/
def Schedule.visible (s : Schedule) (rule : Recurrence) : List Int :=
  (s.occurrences.filter fun o => rule.latePolicy || !o.canceled).map Occurrence.scheduledAt

def createMany (occurrences : List Occurrence) (slots : List Int) : List Occurrence :=
  occurrences ++ (slots.filter fun t => !(occurrences.map Occurrence.scheduledAt).contains t).map
    fun t => { scheduledAt := t }

def findNextRecurrenceSlot (z : Zone) (rule : Recurrence) (fromMs : Int) (existingCount : Nat) :
    Except String (Option Int) :=
  let startsAt := rule.startsAt.getD fromMs
  let searchFrom := max startsAt fromMs
  let lookaheadEnd := searchFrom + PUBLICATION_RECURRENCE_LOOKAHEAD_MS
  let searchTo := min (rule.endsAt.getD lookaheadEnd) lookaheadEnd
  if searchTo < searchFrom then .ok none
  else (expandPublicationSchedule z rule searchFrom searchTo existingCount none).map List.head?

def resolveRecurrenceHorizonEntry (nextSlot now : Int) : Int :=
  max now (nextSlot - PUBLICATION_RECURRENCE_HORIZON_MS)

/-! ## Creation -/

def expandInitialSchedule (z : Zone) (rule : Recurrence) (now : Int) : Except String (List Int) :=
  expandPublicationSchedule z rule now (now + PUBLICATION_RECURRENCE_HORIZON_MS) 0 none

def isInitialRecurrenceExhausted (rule : Recurrence) (initialSlots : List Int) (now : Int) : Bool :=
  rule.maxOccurrences.any (fun n => decide (n ≤ initialSlots.length)) ||
    rule.endsAt.any fun endsAt => decide (endsAt ≤ now + PUBLICATION_RECURRENCE_HORIZON_MS)

def assertPublishableSchedule (z : Zone) (rule : Recurrence) (initialSlots : List Int) (now : Int) :
    Except String Unit :=
  if initialSlots ≠ [] ∨ rule.endsAt = none then .ok ()
  else do
    match ← findNextRecurrenceSlot z rule now 0 with
    | some _ => .ok ()
    | none => .error "Расписание не содержит ни одного будущего запуска."

def resolveInitialRecurrenceMaterializeAt (z : Zone) (rule : Recurrence) (initialSlots : List Int)
    (exhausted : Bool) (now : Int) : Except String (Option Int) :=
  if exhausted then .ok none
  else if initialSlots ≠ [] then .ok (some (now + PUBLICATION_RECURRENCE_REFRESH_MS))
  else do
    match ← findNextRecurrenceSlot z rule now 0 with
    | some nextSlot => .ok (some (resolveRecurrenceHorizonEntry nextSlot now))
    | none => .ok (some now)

/-- The schedule that `create` stores for a published recurrence, with its initial slots. -/
def createSchedule (z : Zone) (rule : Recurrence) (now : Int) :
    Except String (List Int × Schedule) := do
  let initialSlots ← expandInitialSchedule z rule now
  let exhausted := isInitialRecurrenceExhausted rule initialSlots now
  assertPublishableSchedule z rule initialSlots now
  let nextMaterializeAt ← resolveInitialRecurrenceMaterializeAt z rule initialSlots exhausted now
  .ok (initialSlots, {
    createdAt := now, lastMaterializedAt := some now, nextMaterializeAt
    occurrences := createMany [] initialSlots })

/-! ## Ticks -/

/-- `latest` of the tick: the greatest instant the query sees. -/
def latestScheduledAt (visible : List Int) : Option Int := visible.max?

def resolvePublicationRecurrenceFrom (rule : Recurrence) (s : Schedule) (latest : Option Int)
    (now : Int) : Int :=
  match latest with
  | some scheduledAt =>
    if now < scheduledAt ∨ rule.latePolicy = true then scheduledAt + 1
    else now
  | none => if rule.latePolicy then s.lastMaterializedAt.getD s.createdAt else now

/-- `nextSlot` of the tick; only an empty expansion searches for it. -/
def searchNextSlot (z : Zone) (rule : Recurrence) (searches : Bool) (fromMs : Int)
    (existingCount : Nat) : Except String (Option Int) :=
  if searches then findNextRecurrenceSlot z rule fromMs existingCount else .ok none

/-- The next tick, from what the expansion has reached. -/
def nextMaterializeAt (reachedMax reachedEnd : Bool) (slots : List Int) (nextSlot : Option Int)
    (now : Int) : Option Int :=
  if reachedMax || reachedEnd then none
  else if slots.length = MAX_RESULTS then some now
  else
    match nextSlot with
    | some nextSlot => some (resolveRecurrenceHorizonEntry nextSlot now)
    | none => some (now + PUBLICATION_RECURRENCE_REFRESH_MS)

/-- One schedule of `materializeRecurringSchedules`; an error leaves the schedule as it was. -/
def materialize (z : Zone) (rule : Recurrence) (s : Schedule) (now : Int) :
    Except String (List Int × Schedule) := do
  if s.nextMaterializeAt.all fun t => decide (now < t) then .error "not due"
  else
    let latest := latestScheduledAt (s.visible rule)
    let existingCount := (s.visible rule).length
    let fromMs := resolvePublicationRecurrenceFrom rule s latest now
    let horizon := now + PUBLICATION_RECURRENCE_HORIZON_MS
    let slots ← expandPublicationSchedule z rule fromMs horizon existingCount (some MAX_RESULTS)
    let reachedMax := rule.maxOccurrences.any fun n => decide (n ≤ existingCount + slots.length)
    let reachedEnd := rule.endsAt.any (fun endsAt => decide (endsAt ≤ horizon)) &&
      decide (slots.length < MAX_RESULTS)
    if slots = [] ∧ existingCount = 0 ∧ reachedEnd = true then
      .error "Расписание не содержит ни одного будущего запуска."
    else
      let searches := slots.isEmpty && !reachedMax && !reachedEnd
      let nextSlot ← searchNextSlot z rule searches fromMs existingCount
      if searches && nextSlot.isNone then
        .error "Не удалось определить следующий запуск публикации."
      else
        .ok (slots, { s with
          lastMaterializedAt := some now
          nextMaterializeAt := nextMaterializeAt reachedMax reachedEnd slots nextSlot now
          occurrences := createMany s.occurrences slots })

/-- The schedule after its creation at `t₀` and any number of successful ticks, the last of them at
`t`; `slots` is what the last step has added. Between ticks occurrences may change their status. -/
inductive Reached (z : Zone) (rule : Recurrence) (t₀ : Int) : Int → List Int → Schedule → Prop
  | created {slots : List Int} {s : Schedule} (h : createSchedule z rule t₀ = .ok (slots, s)) :
    Reached z rule t₀ t₀ slots s
  | settled {t : Int} {slots : List Int} {s : Schedule} (hr : Reached z rule t₀ t slots s)
    {occurrences : List Occurrence}
    (h : occurrences.map Occurrence.scheduledAt = s.stored) :
    Reached z rule t₀ t slots { s with occurrences }
  | tick {t now : Int} {slots slots' : List Int} {s s' : Schedule} (hr : Reached z rule t₀ t slots s)
    (hle : t ≤ now) (h : materialize z rule s now = .ok (slots', s')) :
    Reached z rule t₀ now slots' s'

variable {z : Zone} {rule : Recurrence} {startsAt t₀ t now : Int}

/-- The occurrences that are to be stored: those from the creation on. -/
def Due (z : Zone) (rule : Recurrence) (startsAt t₀ t : Int) : Prop :=
  Occurs z rule startsAt t ∧ t₀ ≤ t

def Full (rule : Recurrence) (stored : List Int) : Prop :=
  ∃ n, rule.maxOccurrences = some n ∧ n ≤ stored.length

/-! ## One expansion -/

theorem createMany_scheduledAt {occurrences : List Occurrence} {slots : List Int}
    (h : ∀ t ∈ slots, t ∉ occurrences.map Occurrence.scheduledAt) :
    (createMany occurrences slots).map Occurrence.scheduledAt =
      occurrences.map Occurrence.scheduledAt ++ slots := by
  have hfilter : (slots.filter fun t => !(occurrences.map Occurrence.scheduledAt).contains t) =
      slots := List.filter_eq_self.mpr fun t ht => by simpa using h t ht
  rw [createMany, hfilter, List.map_append, List.map_map]
  congr 1
  exact List.map_id _

theorem length_le_of_remaining {k m : Nat} {maxResults : Option Nat}
    (h : ∀ n, remainingOccurrences rule k maxResults = some n → m ≤ n) :
    (∀ n, rule.maxOccurrences = some n → m ≤ n - k) ∧ ∀ n, maxResults = some n → m ≤ n := by
  unfold remainingOccurrences at h
  constructor
  · intro n hn
    cases maxResults with
    | none => exact h _ (by rw [hn]; rfl)
    | some r =>
      have hle := h (min r (n - k)) (by rw [hn]; rfl)
      omega
  · intro r hr
    cases hn : rule.maxOccurrences with
    | none => exact h r (by rw [hn, hr]; rfl)
    | some n =>
      have hle := h (min r (n - k)) (by rw [hn, hr]; rfl)
      omega

theorem remaining_or (rule : Recurrence) (k m : Nat) (maxResults : Option Nat) :
    (∃ n, rule.maxOccurrences = some n ∧ n ≤ k + m) ∨ (∃ r, maxResults = some r ∧ r ≤ m) ∨
      ∀ n, remainingOccurrences rule k maxResults = some n → m < n := by
  by_cases hmax : ∃ n, rule.maxOccurrences = some n ∧ n ≤ k + m
  · exact .inl hmax
  by_cases hres : ∃ r, maxResults = some r ∧ r ≤ m
  · exact .inr (.inl hres)
  refine .inr (.inr fun limit hlimit => ?_)
  have hlt : ∀ n, rule.maxOccurrences = some n → k + m < n := fun n hn =>
    Nat.lt_of_not_le fun hle => hmax ⟨n, hn, hle⟩
  have hlt' : ∀ r, maxResults = some r → m < r := fun r hr =>
    Nat.lt_of_not_le fun hle => hres ⟨r, hr, hle⟩
  unfold remainingOccurrences at hlimit
  cases hn : rule.maxOccurrences with
  | none =>
    cases hr : maxResults with
    | none => simp [hn, hr, minLimit] at hlimit
    | some r =>
      obtain rfl : r = limit := by simpa [hn, hr, minLimit] using hlimit
      exact hlt' r hr
  | some n =>
    have := hlt n hn
    cases hr : maxResults with
    | none =>
      obtain rfl : n - k = limit := by simpa [hn, hr, minLimit] using hlimit
      omega
    | some r =>
      have := hlt' r hr
      obtain rfl : min r (n - k) = limit := by simpa [hn, hr, minLimit] using hlimit
      omega

/-- An expansion from `fromMs` continues what is stored. -/
structure Resumes (z : Zone) (rule : Recurrence) (startsAt t₀ : Int) (stored : List Int)
    (fromMs : Int) : Prop where
  before : ∀ x ∈ stored, x < fromMs
  start : t₀ ≤ fromMs
  passed : ∀ x, Due z rule startsAt t₀ x → x < fromMs → x ∈ stored

/-- What is stored is a beginning of what is due, and not more than the rule allows. -/
structure Stored (z : Zone) (rule : Recurrence) (startsAt t₀ : Int) (stored : List Int) : Prop where
  segment : InitialSegment (Due z rule startsAt t₀) stored
  bounded : ∀ n, rule.maxOccurrences = some n → stored.length ≤ n

theorem Stored.advance (occurrences : List Occurrence) {fromMs toMs : Int}
    {maxResults : Option Nat} {slots : List Int} (hstart : rule.startsAt = some startsAt)
    (hs : Stored z rule startsAt t₀ (occurrences.map Occurrence.scheduledAt))
    (hr : Resumes z rule startsAt t₀ (occurrences.map Occurrence.scheduledAt) fromMs)
    (h : expandPublicationSchedule z rule fromMs toMs occurrences.length maxResults = .ok slots) :
    (createMany occurrences slots).map Occurrence.scheduledAt =
        occurrences.map Occurrence.scheduledAt ++ slots ∧
      Stored z rule startsAt t₀ (occurrences.map Occurrence.scheduledAt ++ slots) ∧
      (∀ r, maxResults = some r → slots.length ≤ r) ∧
      (Full rule (occurrences.map Occurrence.scheduledAt ++ slots) ∨
        (∃ r, maxResults = some r ∧ r ≤ slots.length) ∨
        Through (Due z rule startsAt t₀) toMs
          (occurrences.map Occurrence.scheduledAt ++ slots)) := by
  obtain ⟨-, he⟩ := expandPublicationSchedule_spec hstart h
  obtain ⟨hmax, hres⟩ := length_le_of_remaining he.bounded
  have hsum : (occurrences.map Occurrence.scheduledAt ++ slots).length =
      occurrences.length + slots.length := by rw [List.length_append, List.length_map]
  have hfrom : ∀ y ∈ slots, fromMs ≤ y := fun y hy => (he.segment.sound y hy).2.1
  refine ⟨createMany_scheduledAt fun y hy hmem => ?_, ⟨?_, fun n hn => ?_⟩, hres, ?_⟩
  · exact absurd (hr.before y hmem) (not_lt.mpr (hfrom y hy))
  · refine hs.segment.append he.segment (fun x hx => ⟨hx.1, le_trans hr.start hx.2.1⟩)
      (fun x hx y hy => lt_of_lt_of_le (hr.before x hx) (hfrom y hy)) fun x y hx hy hle => ?_
    by_cases hlt : x < fromMs
    · exact .inl (hr.passed x hx hlt)
    · exact .inr ⟨hx.1, not_lt.mp hlt, le_trans hle (he.segment.sound y hy).2.2⟩
  · have hold := hs.bounded n hn
    have hnew := hmax n hn
    rw [List.length_map] at hold
    omega
  · rcases remaining_or rule occurrences.length slots.length maxResults with
      ⟨n, hn, hle⟩ | hfull | hroom
    · exact .inl ⟨n, hn, hsum ▸ hle⟩
    · exact .inr (.inl hfull)
    · refine .inr (.inr fun x hx hto => ?_)
      by_cases hlt : x < fromMs
      · exact List.mem_append_left _ (hr.passed x hx hlt)
      · exact List.mem_append_right _ (he.complete hroom x hx.1 (not_lt.mp hlt) hto)

end Maxim.Admin.Publication
