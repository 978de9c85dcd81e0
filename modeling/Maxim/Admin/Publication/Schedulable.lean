import Maxim.Admin.Publication.Batches
import Mathlib.Data.Int.LeastGreatest

/-!
# The first horizon of a recurrence

A publication is created with the occurrences of its first two weeks. A rule that
has none in them is materialized when its next occurrence enters the horizon.
-/

namespace Maxim.Admin.Publication

open Maxim.Library

def MAX_PUBLICATION_RECURRENCE_OCCURRENCES : Nat := 365

/-- `publicationRecurrenceScheduleSchema`, on a rule whose dates and times have been read. -/
def publicationRecurrenceScheduleSchema (rule : Recurrence) : Bool :=
  decide (1 ≤ rule.interval) && decide (rule.interval ≤ 31) &&
  rule.weekdays.all (fun w => decide (1 ≤ w) && decide (w ≤ 7)) &&
  decide (rule.weekdays.length ≤ 7) &&
  decide (1 ≤ rule.times.length) && decide (rule.times.length ≤ 12) &&
  rule.maxOccurrences.all (fun n =>
    decide (1 ≤ n) && decide (n ≤ MAX_PUBLICATION_RECURRENCE_OCCURRENCES)) &&
  !(rule.frequency == .weekly && rule.weekdays.isEmpty) &&
  decide rule.weekdays.Nodup && decide rule.times.Nodup &&
  !(match rule.startsAt, rule.endsAt with
    | some startsAt, some endsAt => decide (endsAt ≤ startsAt)
    | _, _ => false)

/-- What the expansion needs of a rule that starts at `startsAt`. -/
structure Publishable (rule : Recurrence) (startsAt : Int) : Prop where
  start : rule.startsAt = some startsAt
  shape : assertRecurrenceShape rule = .ok ()
  ends : ∀ endsAt, rule.endsAt = some endsAt → startsAt ≤ endsAt

variable {z : Zone} {rule : Recurrence} {startsAt now fromMs toMs : Int} {existingCount : Nat}
  {slots : List Int}

theorem shape_of_schema (h : publicationRecurrenceScheduleSchema rule = true) :
    assertRecurrenceShape rule = .ok () := by
  simp only [publicationRecurrenceScheduleSchema, Bool.and_eq_true, decide_eq_true_eq,
    List.all_eq_true, Bool.not_eq_true', Option.all_eq_true] at h
  obtain ⟨⟨⟨⟨⟨⟨⟨⟨⟨⟨hpos, -⟩, hdays⟩, -⟩, htimes⟩, -⟩, hmax⟩, hweekly⟩, -⟩, -⟩, -⟩ := h
  have hinterval : ¬rule.interval < 1 := Nat.not_lt.mpr hpos
  have hnonempty : rule.times ≠ [] := List.length_pos_iff.mp htimes
  have hweek : ¬(rule.frequency = .weekly ∧
      (rule.weekdays = [] ∨ ∃ w ∈ rule.weekdays, w < 1 ∨ 7 < w)) := by
    rintro ⟨hfreq, hempty | ⟨w, hw, hout⟩⟩
    · rw [hfreq, hempty] at hweekly
      cases hweekly
    · have hin := hdays w hw
      omega
  have hlimit : rule.maxOccurrences ≠ some 0 := fun h0 => by
    have := (hmax 0 h0).1
    omega
  rw [assertRecurrenceShape, if_neg hinterval, if_neg hnonempty, if_neg hweek, if_neg hlimit]

theorem publishable_of_schema (h : publicationRecurrenceScheduleSchema rule = true)
    (hstart : rule.startsAt = some startsAt) : Publishable rule startsAt := by
  refine ⟨hstart, shape_of_schema h, fun endsAt he => ?_⟩
  have hends := (Bool.and_eq_true_iff.mp h).2
  rw [hstart, he] at hends
  have hlt : ¬endsAt ≤ startsAt := by simpa using hends
  omega

/-! ## Windows -/

theorem Publishable.maxOccurrences_ne (hp : Publishable rule startsAt) :
    rule.maxOccurrences ≠ some 0 := by
  intro hzero
  have hshape := hp.shape
  unfold assertRecurrenceShape at hshape
  rw [if_pos hzero] at hshape
  split at hshape
  · cases hshape
  · split at hshape
    · cases hshape
    · split at hshape <;> cases hshape

theorem Publishable.expands (hp : Publishable rule startsAt) (z : Zone) (existingCount : Nat)
    (hwindow : fromMs ≤ toMs) (hto : rule.endsAt = none → startsAt ≤ toMs) :
    ∃ slots, expandPublicationSchedule z rule fromMs toMs existingCount none = .ok slots := by
  refine Publication.expands z existingCount hp.start hp.shape hwindow nofun ?_
  cases he : rule.endsAt with
  | none => exact hto he
  | some endsAt => exact hp.ends endsAt he

theorem Publishable.expand_error (hp : Publishable rule startsAt) (hwindow : fromMs ≤ toMs)
    (hend : rule.endsAt = none) (hto : toMs < startsAt) :
    expandPublicationSchedule z rule fromMs toMs existingCount none =
      .error "Publication recurrence must end after it starts." :=
  expand_of_ends hp.start hp.shape hwindow nofun (by rwa [hend])

theorem Publishable.expand_before (hp : Publishable rule startsAt) (hwindow : fromMs ≤ toMs)
    (hto : toMs < startsAt) :
    expandPublicationSchedule z rule fromMs toMs existingCount none = .ok [] ↔
      rule.endsAt ≠ none := by
  constructor
  · intro h hend
    rw [hp.expand_error hwindow hend hto] at h
    cases h
  · intro hend
    obtain ⟨slots, h⟩ := hp.expands z existingCount hwindow
      fun hnone => absurd hnone hend
    have hspec := (expandPublicationSchedule_spec hp.start h).2
    have hnil : slots = [] := List.eq_nil_iff_forall_not_mem.mpr fun t ht => by
      obtain ⟨hocc, -, hle⟩ := hspec.segment.sound t ht
      have hge := hocc.1
      omega
    rw [h, hnil]

theorem remaining_initial (rule : Recurrence) :
    remainingOccurrences rule 0 none = rule.maxOccurrences := by
  cases h : rule.maxOccurrences with
  | none => rw [remainingOccurrences, h]; rfl
  | some n => rw [remainingOccurrences, h]; rfl

theorem Expanded.mem_iff {P : Int → Prop} {limit : Option Nat}
    (h : Expanded P fromMs toMs limit slots) {t : Int} :
    t ∈ slots ↔ Enumerated (fun t => P t ∧ fromMs ≤ t ∧ t ≤ toMs) limit t := by
  refine ⟨(h.segment.enumerated h.bounded).sound t, fun ht => ?_⟩
  by_cases hfull : ∃ n, limit = some n ∧ n ≤ slots.length
  · obtain ⟨n, hn, hle⟩ := hfull
    rw [hn] at ht
    exact h.segment.mem_of_full hle ht
  · refine h.complete (fun n hn => ?_) t ht.1.1 ht.1.2.1 ht.1.2.2
    exact Nat.lt_of_not_le fun hle => hfull ⟨n, hn, hle⟩

theorem Expanded.none_of_nil {P : Int → Prop} {limit : Option Nat}
    (h : Expanded P fromMs toMs limit []) (hlimit : limit ≠ some 0) {t : Int} (ht : P t)
    (hfrom : fromMs ≤ t) : toMs < t := by
  by_contra hle
  have hroom : ∀ n, limit = some n → ([] : List Int).length < n := fun n hn =>
    Nat.pos_of_ne_zero fun hzero => hlimit (hzero ▸ hn)
  exact absurd (h.complete hroom t ht hfrom (Int.not_lt.mp hle)) List.not_mem_nil

/-! ## The next occurrence -/

/-- The occurrences of a rule from `now` on. -/
def Upcoming (z : Zone) (rule : Recurrence) (startsAt now : Int) : Set Int :=
  {t | Occurs z rule startsAt t ∧ now ≤ t}

theorem exists_isLeast_upcoming {t : Int} (ht : t ∈ Upcoming z rule startsAt now) :
    ∃ next, IsLeast (Upcoming z rule startsAt now) next := by
  obtain ⟨next, hnext, hleast⟩ := Int.exists_least_of_bdd
    (P := fun t => t ∈ Upcoming z rule startsAt now) ⟨now, fun _ h => h.2⟩ ⟨t, ht⟩
  exact ⟨next, hnext, fun u hu => hleast u hu⟩

/-- The search looks 450 days ahead and finds the next occurrence if it is among them. -/
theorem Publishable.findNext (hp : Publishable rule startsAt) {next : Int}
    (hnext : IsLeast (Upcoming z rule startsAt now) next)
    (hnear : next ≤ max startsAt now + PUBLICATION_RECURRENCE_LOOKAHEAD_MS) :
    findNextRecurrenceSlot z rule now 0 = .ok (some next) := by
  obtain ⟨⟨hocc, hnow⟩, hleast⟩ := hnext
  have hfrom : max startsAt now ≤ next := max_le hocc.1 hnow
  have hto : next ≤ min (rule.endsAt.getD (max startsAt now + PUBLICATION_RECURRENCE_LOOKAHEAD_MS))
      (max startsAt now + PUBLICATION_RECURRENCE_LOOKAHEAD_MS) := by
    refine le_min ?_ hnear
    cases he : rule.endsAt with
    | none => exact hnear
    | some endsAt => exact hocc.2.1 endsAt he
  have hwindow := le_trans hfrom hto
  have hstart : rule.endsAt = none → startsAt ≤ _ := fun _ =>
    le_trans (le_max_left startsAt now) hwindow
  obtain ⟨slots, h⟩ := hp.expands z 0 hwindow hstart
  have hspec := (expandPublicationSchedule_spec hp.start h).2
  rw [remaining_initial] at hspec
  unfold findNextRecurrenceSlot
  rw [hp.start, Option.getD_some]
  dsimp only
  rw [if_neg (not_lt.mpr hwindow), h]
  cases slots with
  | nil => exact absurd hto (not_le.mpr (hspec.none_of_nil hp.maxOccurrences_ne hocc hfrom))
  | cons first rest =>
    have hfirst := hspec.segment.sound first List.mem_cons_self
    have hle : first ≤ next := hspec.segment.head_le ⟨hocc, hfrom, hto⟩
    have hge : next ≤ first := hleast ⟨hfirst.1, le_trans (le_max_right _ _) hfirst.2.1⟩
    exact congrArg (fun t => Except.ok (some t)) (le_antisymm hle hge)

theorem Publishable.findNext_near (hp : Publishable rule startsAt) {next : Int}
    (h : findNextRecurrenceSlot z rule now 0 = .ok (some next)) :
    next ≤ max startsAt now + PUBLICATION_RECURRENCE_LOOKAHEAD_MS := by
  unfold findNextRecurrenceSlot at h
  rw [hp.start, Option.getD_some] at h
  dsimp only at h
  split at h
  · cases h
  · cases hexp : expandPublicationSchedule z rule (max startsAt now)
      (min (rule.endsAt.getD (max startsAt now + PUBLICATION_RECURRENCE_LOOKAHEAD_MS))
        (max startsAt now + PUBLICATION_RECURRENCE_LOOKAHEAD_MS)) 0 none with
    | error e =>
      rw [hexp] at h
      cases h
    | ok slots =>
      rw [hexp] at h
      have hmem := List.mem_of_head? (Except.ok.inj h)
      have hspec := (expandPublicationSchedule_spec hp.start hexp).2
      exact le_trans (hspec.segment.sound next hmem).2.2 (min_le_right _ _)

/-! ## Creation -/

/-- What the creation of a publication at `now` promises: the occurrences of the first horizon and,
if there are none, a materialization whose horizon holds the next occurrence. -/
structure Scheduled (z : Zone) (rule : Recurrence) (startsAt now : Int) (slots : List Int) :
    Prop where
  expanded : expandInitialSchedule z rule now = .ok slots
  sorted : slots.Pairwise (· < ·)
  exact : ∀ t, t ∈ slots ↔ Enumerated (fun t => Occurs z rule startsAt t ∧ now ≤ t ∧
    t ≤ now + PUBLICATION_RECURRENCE_HORIZON_MS) rule.maxOccurrences t
  deferred : slots = [] → (∃ t, Occurs z rule startsAt t ∧ now < t) →
    ∃ next atMs, findNextRecurrenceSlot z rule now 0 = .ok (some next) ∧
      IsLeast (Upcoming z rule startsAt now) next ∧
      resolveInitialRecurrenceMaterializeAt z rule slots
        (isInitialRecurrenceExhausted rule slots now) now = .ok (some atMs) ∧
      atMs ≤ next ∧ next ≤ atMs + PUBLICATION_RECURRENCE_HORIZON_MS

theorem Publishable.not_exhausted (hp : Publishable rule startsAt) {next : Int}
    (hocc : Occurs z rule startsAt next) (hfar : now + PUBLICATION_RECURRENCE_HORIZON_MS < next) :
    isInitialRecurrenceExhausted rule [] now = false := by
  refine Bool.or_eq_false_iff.mpr ⟨?_, ?_⟩
  · cases hn : rule.maxOccurrences with
    | none => rfl
    | some n =>
      have hne : n ≠ 0 := fun hzero => hp.maxOccurrences_ne (hzero ▸ hn)
      simpa using hne
  · cases he : rule.endsAt with
    | none => rfl
    | some endsAt =>
      have hle := hocc.2.1 endsAt he
      have hlt : ¬endsAt ≤ now + PUBLICATION_RECURRENCE_HORIZON_MS := by omega
      simpa using hlt

theorem Publishable.scheduled (hp : Publishable rule startsAt)
    (hto : rule.endsAt = none → startsAt ≤ now + PUBLICATION_RECURRENCE_HORIZON_MS)
    (hnear : ∀ t, IsLeast (Upcoming z rule startsAt now) t →
      t ≤ max startsAt now + PUBLICATION_RECURRENCE_LOOKAHEAD_MS) :
    ∃ slots, Scheduled z rule startsAt now slots := by
  have hwindow : now ≤ now + PUBLICATION_RECURRENCE_HORIZON_MS := by
    unfold PUBLICATION_RECURRENCE_HORIZON_MS
    omega
  obtain ⟨slots, h⟩ := hp.expands z 0 hwindow hto
  have hspec := (expandPublicationSchedule_spec hp.start h).2
  rw [remaining_initial] at hspec
  refine ⟨slots, h, hspec.segment.sorted, fun t => hspec.mem_iff, ?_⟩
  rintro rfl ⟨t, hocc, hlt⟩
  obtain ⟨next, hnext⟩ := exists_isLeast_upcoming ⟨hocc, le_of_lt hlt⟩
  have hfar := hspec.none_of_nil hp.maxOccurrences_ne hnext.1.1 hnext.1.2
  have hfind := hp.findNext hnext (hnear next hnext)
  refine ⟨next, resolveRecurrenceHorizonEntry next now, hfind, hnext, ?_, ?_, ?_⟩
  · rw [hp.not_exhausted hnext.1.1 hfar, resolveInitialRecurrenceMaterializeAt, hfind]
    rfl
  · refine max_le hnext.1.2 ?_
    unfold PUBLICATION_RECURRENCE_HORIZON_MS
    omega
  · have hle := le_max_right now (next - PUBLICATION_RECURRENCE_HORIZON_MS)
    unfold resolveRecurrenceHorizonEntry
    omega

theorem Publishable.start_of_expanded (hp : Publishable rule startsAt)
    (h : expandInitialSchedule z rule now = .ok slots) (hend : rule.endsAt = none) :
    startsAt ≤ now + PUBLICATION_RECURRENCE_HORIZON_MS := by
  by_contra hlt
  have hwindow : now ≤ now + PUBLICATION_RECURRENCE_HORIZON_MS := by
    unfold PUBLICATION_RECURRENCE_HORIZON_MS
    omega
  rw [expandInitialSchedule, hp.expand_error hwindow hend (Int.not_le.mp hlt)] at h
  cases h

theorem Scheduled.near (hp : Publishable rule startsAt) (h : Scheduled z rule startsAt now slots)
    {t : Int} (ht : IsLeast (Upcoming z rule startsAt now) t) :
    t ≤ max startsAt now + PUBLICATION_RECURRENCE_LOOKAHEAD_MS := by
  by_cases hin : t ≤ now + PUBLICATION_RECURRENCE_HORIZON_MS
  · have hmax := le_max_right startsAt now
    unfold PUBLICATION_RECURRENCE_HORIZON_MS at hin
    unfold PUBLICATION_RECURRENCE_LOOKAHEAD_MS
    omega
  · have hlt := Int.not_le.mp hin
    have hnil : slots = [] := by
      refine List.eq_nil_iff_forall_not_mem.mpr fun u hu => ?_
      obtain ⟨⟨hocc, hnow, hle⟩, -⟩ := (h.exact u).mp hu
      exact absurd (ht.2 ⟨hocc, hnow⟩) (by omega)
    have hnow : now < t := by
      unfold PUBLICATION_RECURRENCE_HORIZON_MS at hlt
      omega
    obtain ⟨next, -, hfind, hnext, -⟩ := h.deferred hnil ⟨t, ht.1.1, hnow⟩
    rw [ht.unique hnext]
    exact hp.findNext_near hfind

/-- A rule is scheduled at its creation unless it has no end and starts after the first horizon, or
its next occurrence lies behind the search; and a window that ends before the rule starts expands to
nothing exactly if the rule has an end. -/
theorem scheduled_iff (hp : Publishable rule startsAt) :
    ((∃ slots, Scheduled z rule startsAt now slots) ↔
      (rule.endsAt = none → startsAt ≤ now + PUBLICATION_RECURRENCE_HORIZON_MS) ∧
      ∀ t, IsLeast (Upcoming z rule startsAt now) t →
        t ≤ max startsAt now + PUBLICATION_RECURRENCE_LOOKAHEAD_MS) ∧
    ∀ fromMs toMs existingCount, fromMs ≤ toMs → toMs < startsAt →
      (expandPublicationSchedule z rule fromMs toMs existingCount none = .ok [] ↔
        rule.endsAt ≠ none) := by
  refine ⟨⟨?_, ?_⟩, fun _ _ _ => hp.expand_before⟩
  · rintro ⟨slots, h⟩
    exact ⟨hp.start_of_expanded h.expanded, fun t ht => h.near hp ht⟩
  · rintro ⟨hto, hnear⟩
    exact hp.scheduled hto hnear

def tenDaily (startsAt : Int) : Recurrence where
  frequency := .daily
  interval := 1
  weekdays := []
  times := [⟨10, 0⟩]
  startsAt := some startsAt
  endsAt := none
  maxOccurrences := none
  latePolicy := true

theorem tenDaily_publishable (startsAt : Int) : Publishable (tenDaily startsAt) startsAt :=
  publishable_of_schema (by rfl) rfl

/-- A rule that the schema accepts, created two months before it starts. -/
theorem scheduled_far_future :
    publicationRecurrenceScheduleSchema (tenDaily (62 * DAY_MS)) = true ∧
      expandInitialSchedule utc (tenDaily (62 * DAY_MS)) 0 =
        .error "Publication recurrence must end after it starts." ∧
      ¬∃ slots, Scheduled utc (tenDaily (62 * DAY_MS)) (62 * DAY_MS) 0 slots := by
  have herror : expandInitialSchedule utc (tenDaily (62 * DAY_MS)) 0 =
      .error "Publication recurrence must end after it starts." := by decide +kernel
  refine ⟨by decide +kernel, herror, ?_⟩
  rintro ⟨slots, h⟩
  rw [h.expanded] at herror
  cases herror

theorem scheduled_iff_ten_daily :
    ((∃ slots, Scheduled utc (tenDaily 0) 0 0 slots) ↔
      ((tenDaily 0).endsAt = none → 0 ≤ 0 + PUBLICATION_RECURRENCE_HORIZON_MS) ∧
      ∀ t, IsLeast (Upcoming utc (tenDaily 0) 0 0) t →
        t ≤ max 0 0 + PUBLICATION_RECURRENCE_LOOKAHEAD_MS) ∧
    (expandPublicationSchedule utc (tenDaily 0) (-2) (-1) 0 none = .ok [] ↔
      (tenDaily 0).endsAt ≠ none) := by
  obtain ⟨hiff, hbefore⟩ := @scheduled_iff utc _ 0 0 (tenDaily_publishable 0)
  exact ⟨hiff, hbefore (-2) (-1) 0 (by decide) (by decide)⟩

end Maxim.Admin.Publication
