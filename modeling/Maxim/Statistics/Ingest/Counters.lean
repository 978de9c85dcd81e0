import Maxim.Statistics.Ingest.Moves
import Mathlib.Data.Set.Card

/-!
# The membership counters count event records

The counters of a day are the numbers of accepted events that were captured
after the delete fence of the day. An event is recorded once, so it is counted
once.
-/

namespace Maxim.Statistics.Ingest

variable {δ : Type} {hash : Subject → δ} {request : IngestRequest} {s s' : Rows δ}

/-- The record of an accepted event of this day and kind, captured after the fence. -/
def Counts (hash : Subject → δ) (day : StatsDay) (type : EventType) (fence : Nat) (id : String)
    (record : EventRecord δ) : Prop :=
  record.status = .applied ∧ ∃ entity event, record.bodyHash = hash (.event entity event) ∧
    event.eventId = id ∧ event.eventAt.day = day ∧ event.eventType = type ∧
    fence < event.capturedRevision

def countedIds (hash : Subject → δ) (s : Rows δ) (day : StatsDay) (type : EventType) (fence : Nat) :
    Set String :=
  {id | ∃ record, s.events id = some record ∧ Counts hash day type fence id record}

def acceptedIds (s : Rows δ) (day : StatsDay) : Set String :=
  {id | ∃ record, s.events id = some record ∧ record.status = .applied ∧ record.day = day}

/-- What the row of a membership day is worth. -/
structure RowCounts (hash : Subject → δ) (s : Rows δ) (day : StatsDay) (row : FactRow δ) : Prop where
  fence_le : row.deleteFence ≤ row.seenRevision
  not_complete : ∀ c, row.coverage = some c → c.state ≠ .complete
  counters : ∀ type, counter (carried (some row)) type =
    some (countedIds hash s day type row.deleteFence).ncard

/-- What the record of an event says about the event and its day. -/
structure Recorded (hash : Subject → δ) (s : Rows δ) (id : String) (record : EventRecord δ)
    (entity : Entity) (event : MembershipEvent) (row : FactRow δ) : Prop where
  body : record.bodyHash = hash (.event entity event)
  eventId : event.eventId = id
  day : record.day = event.eventAt.day
  stored : s.measurements (membershipDay event.eventAt.day) = some row
  seen : event.capturedRevision ≤ row.seenRevision
  fenced : record.status ≠ .applied → event.capturedRevision ≤ row.deleteFence

/-- The counters, the records and the rows agree. -/
structure Counted (hash : Subject → δ) (s : Rows δ) : Prop where
  finite : {id | s.events id ≠ none}.Finite
  records : ∀ id record, s.events id = some record →
    ∃ entity event row, Recorded hash s id record entity event row
  rows : ∀ day row, s.measurements (membershipDay day) = some row → RowCounts hash s day row

theorem counted_initial : Counted hash (Rows.initial : Rows δ) where
  finite := by simp [Rows.initial]
  records := by simp [Rows.initial]
  rows := by simp [Rows.initial]

variable {day : StatsDay}

theorem membershipDay_injective {day' : StatsDay} (h : membershipDay day = membershipDay day') :
    day = day' := (DayKey.mk.inj h).2

/-! ## Records -/

variable {id : String} {record : EventRecord δ}

theorem events_recordEvent {id' : String} :
    (s.recordEvent id record).events id' = if id' = id then some record else s.events id' :=
  Function.update_apply _ _ _ _

variable {type : EventType} {fence : Nat}

theorem countedIds_recordEvent
    :
    countedIds hash (s.recordEvent id record) day type fence =
      {id' | id' = id ∧ Counts hash day type fence id record ∨
        id' ≠ id ∧ id' ∈ countedIds hash s day type fence} := by
  ext id'
  by_cases hid : id' = id
  · subst hid
    simp [countedIds, Rows.recordEvent]
  · simp [countedIds, Rows.recordEvent, hid]

variable {row : FactRow δ}

theorem countedIds_write {key : DayKey}
    : countedIds hash (s.write key row) day type fence =
      countedIds hash s day type fence := rfl

theorem not_mem_countedIds
    (h : s.events id = none) : id ∉ countedIds hash s day type fence := by
  simp [countedIds, h]

theorem countedIds_of_not
    (h : s.events id = none) (hnot : ¬Counts hash day type fence id record) :
    countedIds hash (s.recordEvent id record) day type fence =
      countedIds hash s day type fence := by
  rw [countedIds_recordEvent]
  ext id'
  by_cases hid : id' = id
  · subst hid
    simp [hnot, not_mem_countedIds h]
  · simp [hid]

theorem countedIds_of_counts
    (hcounts : Counts hash day type fence id record) :
    countedIds hash (s.recordEvent id record) day type fence =
      insert id (countedIds hash s day type fence) := by
  rw [countedIds_recordEvent]
  ext id'
  by_cases hid : id' = id
  · subst hid
    simp [hcounts]
  · simp [hid]

theorem finite_countedIds (h : {id | s.events id ≠ none}.Finite) (day : StatsDay)
    (type : EventType) (fence : Nat) : (countedIds hash s day type fence).Finite := by
  refine h.subset ?_
  rintro id ⟨record, hrecord, -⟩
  simp [hrecord]

theorem finite_recordEvent
    (h : {id | s.events id ≠ none}.Finite) :
    {id' | (s.recordEvent id record).events id' ≠ none}.Finite := by
  refine (h.insert id).subset ?_
  intro id' hid'
  by_cases hid : id' = id
  · exact .inl hid
  · exact .inr (by simpa [Rows.recordEvent, hid] using hid')

theorem countedIds_eq_empty (hinj : Function.Injective hash) (hc : Counted hash s)
    (h : ∀ row, s.measurements (membershipDay day) = some row → row.seenRevision ≤ fence)
    (type : EventType) : countedIds hash s day type fence = ∅ := by
  refine Set.eq_empty_of_forall_notMem ?_
  rintro id ⟨record, hrecord, -, entity, event, hbody, -, hday, -, hlt⟩
  obtain ⟨entity', event', row, hr⟩ := hc.records id record hrecord
  obtain ⟨-, rfl⟩ := Subject.event.inj (hinj (hbody.symm.trans hr.body))
  have hrow := hr.stored
  rw [hday] at hrow
  have hle := h row hrow
  have hseen := hr.seen
  omega

/-! ## Moves -/

/-- The rows of the membership days stay, and their revisions do not go back. -/
def Grown (s s' : Rows δ) : Prop :=
  ∀ day row, s.measurements (membershipDay day) = some row →
    ∃ row', s'.measurements (membershipDay day) = some row' ∧
      row.seenRevision ≤ row'.seenRevision ∧ row.deleteFence ≤ row'.deleteFence

theorem Grown.refl (s : Rows δ) : Grown s s := fun _ row hrow =>
  ⟨row, hrow, Nat.le_refl _, Nat.le_refl _⟩

theorem Recorded.grown {entity : Entity}
    {event : MembershipEvent} (hr : Recorded hash s id record entity event row)
    (hg : Grown s s') : ∃ row', Recorded hash s' id record entity event row' := by
  obtain ⟨row', hrow', hseen, hfence⟩ := hg _ row hr.stored
  exact ⟨row', hr.body, hr.eventId, hr.day, hrow', Nat.le_trans hr.seen hseen,
    fun hnot => Nat.le_trans (hr.fenced hnot) hfence⟩

theorem records_recordEvent {s₁ : Rows δ} (h : Counted hash s) (hg : Grown s s₁)
    (he : s₁.events = s.events) {new : EventRecord δ}
    (hnew : ∃ entity event row, Recorded hash (s₁.recordEvent id new) id new entity event row)
    (id' : String) (record : EventRecord δ)
    (hrecord : (s₁.recordEvent id new).events id' = some record) :
    ∃ entity event row, Recorded hash (s₁.recordEvent id new) id' record entity event row := by
  rw [events_recordEvent, he] at hrecord
  by_cases hid : id' = id
  · rw [if_pos hid, Option.some.injEq] at hrecord
    rwa [hid, ← hrecord]
  · rw [if_neg hid] at hrecord
    obtain ⟨entity, event, row, hr⟩ := h.records id' record hrecord
    exact ⟨entity, event, hr.grown hg⟩

theorem countedIds_congr (he : s'.events = s.events) (day : StatsDay) (type : EventType)
    (fence : Nat) : countedIds hash s' day type fence = countedIds hash s day type fence := by
  unfold countedIds
  rw [he]

theorem RowCounts.congr (h : RowCounts hash s day row)
    (he : s'.events = s.events) : RowCounts hash s' day row where
  fence_le := h.fence_le
  not_complete := h.not_complete
  counters type := by rw [h.counters type, countedIds_congr he]

/-- A change that no membership day and no record sees. -/
theorem Counted.congr (h : Counted hash s) (he : s'.events = s.events)
    (hm : ∀ day, s'.measurements (membershipDay day) = s.measurements (membershipDay day)) :
    Counted hash s' where
  finite := by
    rw [he]
    exact h.finite
  records := by
    rw [he]
    intro id record hrecord
    obtain ⟨entity, event, row, hr⟩ := h.records id record hrecord
    have hgrown : Grown s s' := fun day row hrow =>
      ⟨row, (hm day).trans hrow, Nat.le_refl _, Nat.le_refl _⟩
    exact ⟨entity, event, hr.grown hgrown⟩
  rows := by
    intro day row hrow
    rw [hm] at hrow
    exact (h.rows day row hrow).congr he

theorem measurements_write {key key' : DayKey} :
    (s.write key row).measurements key' = if key' = key then some row else s.measurements key' :=
  Function.update_apply _ _ _ _

theorem Counted.write_other (h : Counted hash s) {key : DayKey} (row : FactRow δ)
    (hkey : ∀ day, membershipDay day ≠ key) : Counted hash (s.write key row) := by
  refine h.congr rfl fun day => ?_
  rw [measurements_write, if_neg (hkey day)]

theorem Counted.supersede (h : Counted hash s) {event : MembershipEvent} {old : FactRow δ}
    (hnew : s.events event.eventId = none)
    (hold : s.measurements (membershipDay event.eventAt.day) = some old)
    (hfence : event.capturedRevision ≤ old.deleteFence) :
    Counted hash
      (s.recordEvent event.eventId (eventRecord hash request event .superseded)) where
  finite := finite_recordEvent h.finite
  records := by
    refine records_recordEvent h (Grown.refl s) rfl ⟨request.entity, event, old, ?_⟩
    have hle := (h.rows _ old hold).fence_le
    exact ⟨rfl, rfl, rfl, hold, Nat.le_trans hfence hle, fun _ => hfence⟩
  rows := by
    intro day row hrow
    obtain ⟨hle, hpartial, hcounters⟩ := h.rows day row hrow
    refine ⟨hle, hpartial, fun type => ?_⟩
    rw [hcounters type, countedIds_of_not hnew fun hcounts => by cases hcounts.1]

theorem Counted.carried_counter (hinj : Function.Injective hash) (h : Counted hash s)
    (day : StatsDay) (type : EventType) :
    counter (carried (s.measurements (membershipDay day))) type =
      some (countedIds hash s day type
        ((s.measurements (membershipDay day)).elim 0 (·.deleteFence))).ncard := by
  cases hrow : s.measurements (membershipDay day) with
  | some row => exact (h.rows day row hrow).counters type
  | none =>
    have hempty : countedIds hash s day type 0 = ∅ :=
      countedIds_eq_empty hinj h (fun row hrow' => by rw [hrow] at hrow'; cases hrow') type
    rw [Option.elim_none, hempty, Set.ncard_empty]
    cases type <;> rfl

theorem counter_countEvent (event : MembershipEvent) (v : MembershipValue) (type : EventType) :
    counter (countEvent event v) type =
      if event.eventType = type then some ((counter v type).getD 0 + 1) else counter v type := by
  cases type <;> rfl

theorem grown_count (authority : Authority) (event : MembershipEvent) :
    Grown s (s.write (membershipDay event.eventAt.day) (eventRow hash request authority event
      (s.measurements (membershipDay event.eventAt.day)))) := by
  intro day row hrow
  rw [measurements_write]
  by_cases hday : membershipDay day = membershipDay event.eventAt.day
  · rw [if_pos hday]
    rw [hday] at hrow
    refine ⟨_, rfl, ?_, ?_⟩
    · rw [hrow]
      exact Nat.le_max_left _ _
    · rw [hrow]
      exact Nat.le_refl _
  · rw [if_neg hday]
    exact ⟨row, hrow, Nat.le_refl _, Nat.le_refl _⟩

/-- One more accepted event is one more event counted. -/
theorem Counted.count (hinj : Function.Injective hash) (h : Counted hash s) (authority : Authority)
    {event : MembershipEvent} (hnew : s.events event.eventId = none)
    (hfence : ∀ old, s.measurements (membershipDay event.eventAt.day) = some old →
      old.deleteFence < event.capturedRevision) (hpos : 0 < event.capturedRevision) :
    Counted hash ((s.write (membershipDay event.eventAt.day) (eventRow hash request authority event
      (s.measurements (membershipDay event.eventAt.day)))).recordEvent event.eventId
        (eventRecord hash request event .applied)) where
  finite := finite_recordEvent h.finite
  records := by
    refine records_recordEvent h (grown_count authority event) rfl ⟨request.entity, event,
      eventRow hash request authority event
        (s.measurements (membershipDay event.eventAt.day)), ?_⟩
    exact ⟨rfl, rfl, rfl, measurements_write.trans (if_pos rfl), Nat.le_max_right _ _,
      fun hnot => absurd rfl hnot⟩
  rows := by
    intro day row hrow
    change (s.write _ _).measurements _ = _ at hrow
    rw [measurements_write] at hrow
    by_cases hday : membershipDay day = membershipDay event.eventAt.day
    · rw [if_pos hday, Option.some.injEq] at hrow
      subst hrow
      obtain rfl := membershipDay_injective hday
      have hlt : (s.measurements (membershipDay event.eventAt.day)).elim 0 (·.deleteFence) <
          event.capturedRevision := by
        cases hold : s.measurements (membershipDay event.eventAt.day) with
        | none => exact hpos
        | some old => exact hfence old hold
      refine ⟨?_, fun c hc => ?_, fun type => ?_⟩
      · exact Nat.le_trans (Nat.le_of_lt hlt) (Nat.le_max_right _ _)
      · rw [← Option.some.inj hc]
        exact nofun
      · change counter (countEvent event (carried _)) type = _
        rw [counter_countEvent, h.carried_counter hinj]
        change _ = some (countedIds _ _ _ _ (Option.elim _ 0 _)).ncard
        by_cases htype : event.eventType = type
        · rw [if_pos htype, countedIds_of_counts ⟨rfl, _, event, rfl, rfl, rfl, htype, hlt⟩,
            countedIds_write, Set.ncard_insert_of_notMem (not_mem_countedIds hnew) (finite_countedIds h.finite _ _ _)]
          rfl
        · rw [if_neg htype, countedIds_of_not]
          · rfl
          · exact hnew
          · rintro ⟨-, entity, event', hbody, -, -, htype', -⟩
            obtain ⟨-, rfl⟩ := Subject.event.inj (hinj hbody)
            exact htype htype'
    · rw [if_neg hday] at hrow
      obtain ⟨hle, hpartial, hcounters⟩ := h.rows day row hrow
      refine ⟨hle, hpartial, fun type => ?_⟩
      rw [hcounters type, countedIds_of_not]
      · rfl
      · exact hnew
      · rintro ⟨-, entity, event', hbody, -, hday', -, -⟩
        obtain ⟨-, rfl⟩ := Subject.event.inj (hinj hbody)
        exact hday (congrArg membershipDay hday'.symm)

/-- A deleted day counts nothing. -/
theorem Counted.delete (hinj : Function.Injective hash) (h : Counted hash s)
    {sourceRevision : Nat} (authority : Authority)
    (hnew : ∀ old, s.measurements (membershipDay day) = some old →
      old.seenRevision < sourceRevision) :
    Counted hash (s.write (membershipDay day) (dayRow hash request (membershipDay day)
      sourceRevision authority none (s.measurements (membershipDay day)))) where
  finite := h.finite
  records := by
    intro id record hrecord
    obtain ⟨entity, event, row, hr⟩ := h.records id record hrecord
    refine ⟨entity, event, hr.grown fun day' row hrow => ?_⟩
    rw [measurements_write]
    by_cases hday : membershipDay day' = membershipDay day
    · rw [if_pos hday]
      rw [hday] at hrow
      have hlt := hnew row hrow
      have hle := (h.rows day row hrow).fence_le
      refine ⟨_, rfl, Nat.le_of_lt hlt, ?_⟩
      change row.deleteFence ≤ sourceRevision
      omega
    · rw [if_neg hday]
      exact ⟨row, hrow, Nat.le_refl _, Nat.le_refl _⟩
  rows := by
    intro day' row hrow
    rw [measurements_write] at hrow
    by_cases hday : membershipDay day' = membershipDay day
    · rw [if_pos hday, Option.some.injEq] at hrow
      subst hrow
      obtain rfl := membershipDay_injective hday
      refine ⟨Nat.le_refl _, nofun, fun type => ?_⟩
      have hempty : countedIds hash s day' type sourceRevision = ∅ :=
        countedIds_eq_empty hinj h (fun row hrow => Nat.le_of_lt (hnew row hrow)) type
      change _ = some (countedIds hash s day' type sourceRevision).ncard
      rw [hempty, Set.ncard_empty]
      cases type <;> rfl
    · rw [if_neg hday] at hrow
      exact (h.rows day' row hrow).congr rfl

theorem Moved.keeps_counted (hinj : Function.Injective hash) (hm : Moved hash request s s')
    (h : Counted hash s) : Counted hash s' := by
  cases hm with
  | touched cause => exact h.congr rfl fun _ => rfl
  | reported key entry hnew => exact h.congr rfl fun _ => rfl
  | superseded event old hnew hold hfence => exact h.supersede hnew hold hfence
  | counted authority event hpos hnew hfence => exact h.count hinj authority hnew hfence hpos
  | skipped key sourceRevision content old hold hnew hless =>
    refine h.write_other _ fun day hkey => ?_
    -- The coverage of a membership day is never complete.
    subst hkey
    simp only [losesComplete, Option.any_some, Bool.and_eq_true, Option.any_eq_true] at hless
    obtain ⟨⟨-, c, hc, hcomplete⟩, -⟩ := hless
    exact (h.rows day old hold).not_complete c hc (by simpa using hcomplete)
  | stored key sourceRevision authority content hop hscope hnew =>
    cases content with
    | some content =>
      refine h.write_other _ fun day hkey => hscope rfl ?_
      rw [← hkey]
      rfl
    | none =>
      by_cases hkey : key.scope = membershipScope
      · obtain ⟨scope, day⟩ := key
        obtain rfl : scope = membershipScope := hkey
        exact h.delete hinj authority fun old hold => (hnew old hold).1
      · refine h.write_other _ fun day hday => hkey ?_
        rw [← hday]
        rfl

/-! ## What is counted -/

theorem counted_once (hinj : Function.Injective hash) {day' : StatsDay}
    {type' : EventType} {fence' : Nat} (h : id ∈ countedIds hash s day type fence)
    (h' : id ∈ countedIds hash s day' type' fence') : day = day' ∧ type = type' := by
  obtain ⟨record, hrecord, -, entity, event, hbody, -, hday, htype, -⟩ := h
  obtain ⟨record', hrecord', -, entity', event', hbody', -, hday', htype', -⟩ := h'
  obtain rfl := Option.some.inj (hrecord.symm.trans hrecord')
  obtain ⟨-, rfl⟩ := Subject.event.inj (hinj (hbody.symm.trans hbody'))
  exact ⟨hday.symm.trans hday', htype.symm.trans htype'⟩

theorem countedIds_subset (hinj : Function.Injective hash) (hc : Counted hash s) (day : StatsDay)
    (type : EventType) (fence : Nat) : countedIds hash s day type fence ⊆ acceptedIds s day := by
  rintro id ⟨record, hrecord, hstatus, entity, event, hbody, -, hday, -, -⟩
  obtain ⟨entity', event', row, hr⟩ := hc.records id record hrecord
  obtain ⟨-, rfl⟩ := Subject.event.inj (hinj (hbody.symm.trans hr.body))
  exact ⟨record, hrecord, hstatus, hr.day.trans hday⟩

theorem joined_add_left_le (hinj : Function.Injective hash) (hc : Counted hash s)
    (hrow : s.measurements (membershipDay day) = some row) :
    ((carried (some row)).joined.getD 0) + ((carried (some row)).left.getD 0) ≤
      (acceptedIds s day).ncard := by
  have hjoined : (carried (some row)).joined = _ := (hc.rows day row hrow).counters .join
  have hleft : (carried (some row)).left = _ := (hc.rows day row hrow).counters .leave
  have hdisjoint : Disjoint (countedIds hash s day .join row.deleteFence)
      (countedIds hash s day .leave row.deleteFence) := by
    refine Set.disjoint_left.mpr fun id hjoin hleave => ?_
    cases (counted_once hinj hjoin hleave).2
  have hfinite : (acceptedIds s day).Finite := by
    refine hc.finite.subset ?_
    rintro id ⟨record, hrecord, -⟩
    simp [hrecord]
  rw [hjoined, hleft, Option.getD_some, Option.getD_some,
    ← Set.ncard_union_eq hdisjoint (finite_countedIds hc.finite _ _ _)
      (finite_countedIds hc.finite _ _ _)]
  refine Set.ncard_le_ncard ?_ hfinite
  exact Set.union_subset (countedIds_subset hinj hc _ _ _) (countedIds_subset hinj hc _ _ _)

end Maxim.Statistics.Ingest
