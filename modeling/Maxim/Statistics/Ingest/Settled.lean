import Maxim.Statistics.Ingest.Counters
import Mathlib.Data.List.Forall2

/-!
# What the rows never take back

Revisions do not decrease, a complete day gives way only to a complete one or to
a deletion, and an operation that was applied has nothing left to do.
-/

namespace Maxim.Statistics.Ingest

open Maxim.Library Relation

variable {δ : Type} {hash : Subject → δ} {clock : Clock} {request : IngestRequest}
  {s s' : Rows δ}

/-! ## Revisions -/

/-- No seen revision of a scope and no revision of its health is below that of `s`. -/
structure Later (s s' : Rows δ) : Prop where
  measurements : ∀ key row, s.measurements key = some row →
    ∃ row', s'.measurements key = some row' ∧ row.seenRevision ≤ row'.seenRevision
  health : ∀ key entry, s.health key = some entry →
    ∃ entry', s'.health key = some entry' ∧ entry.revision ≤ entry'.revision

theorem Later.refl (s : Rows δ) : Later s s :=
  ⟨fun _ row h => ⟨row, h, Nat.le_refl _⟩, fun _ entry h => ⟨entry, h, Nat.le_refl _⟩⟩

theorem Later.trans {s'' : Rows δ} (h : Later s s') (h' : Later s' s'') : Later s s'' where
  measurements key row hrow := by
    obtain ⟨row', hrow', hle⟩ := h.measurements key row hrow
    obtain ⟨row'', hrow'', hle'⟩ := h'.measurements key row' hrow'
    exact ⟨row'', hrow'', Nat.le_trans hle hle'⟩
  health key entry hentry := by
    obtain ⟨entry', hentry', hle⟩ := h.health key entry hentry
    obtain ⟨entry'', hentry'', hle'⟩ := h'.health key entry' hentry'
    exact ⟨entry'', hentry'', Nat.le_trans hle hle'⟩

variable {key : DayKey} {row : FactRow δ}

theorem later_write
    (h : ∀ old, s.measurements key = some old → old.seenRevision ≤ row.seenRevision) :
    Later s (s.write key row) where
  measurements key' row' hrow' := by
    rw [measurements_write]
    by_cases hkey : key' = key
    · subst hkey
      exact ⟨row, if_pos rfl, h row' hrow'⟩
    · exact ⟨row', by rw [if_neg hkey, hrow'], Nat.le_refl _⟩
  health _ entry hentry := ⟨entry, hentry, Nat.le_refl _⟩

theorem health_reportHealth {key key' : String} {entry : HealthEntry δ} :
    (s.reportHealth key entry).health key' = if key' = key then some entry else s.health key' :=
  Function.update_apply _ _ _ _

theorem later_reportHealth {key : String} {entry : HealthEntry δ}
    (h : ∀ old, s.health key = some old → old.revision ≤ entry.revision) :
    Later s (s.reportHealth key entry) where
  measurements _ row hrow := ⟨row, hrow, Nat.le_refl _⟩
  health key' entry' hentry' := by
    rw [health_reportHealth]
    by_cases hkey : key' = key
    · subst hkey
      exact ⟨entry, if_pos rfl, h entry' hentry'⟩
    · exact ⟨entry', by rw [if_neg hkey, hentry'], Nat.le_refl _⟩

theorem Moved.later (h : Moved hash request s s') : Later s s' := by
  cases h with
  | touched cause => exact ⟨(Later.refl s).measurements, (Later.refl s).health⟩
  | reported key entry hnew => exact later_reportHealth fun old hold => Nat.le_of_lt (hnew old hold)
  | superseded event old hnew hold hfence =>
    exact ⟨(Later.refl s).measurements, (Later.refl s).health⟩
  | counted authority event hpos hnew hfence =>
    have hlater : Later s (s.write (membershipDay event.eventAt.day) (eventRow hash request authority
        event (s.measurements (membershipDay event.eventAt.day)))) := by
      refine later_write fun old hold => ?_
      rw [hold]
      exact Nat.le_max_left _ _
    exact ⟨hlater.measurements, hlater.health⟩
  | skipped key sourceRevision content old hold hnew hless =>
    refine later_write fun old' hold' => ?_
    rw [hold, Option.some.injEq] at hold'
    rw [← hold']
    exact Nat.le_of_lt hnew
  | stored key sourceRevision authority content hop hscope hnew =>
    exact later_write fun old hold => Nat.le_of_lt (hnew old hold).1

/-! ## Complete days -/

def Complete (row : FactRow δ) : Prop :=
  row.deleted = false ∧ ∃ c, row.coverage = some c ∧ c.state = .complete

/-- The day of a complete row keeps its value, or has a newer complete one. -/
def KeepsComplete (key : DayKey) (row : FactRow δ) (s : Rows δ) : Prop :=
  ∃ row', s.measurements key = some row' ∧ Complete row' ∧ row.seenRevision ≤ row'.seenRevision ∧
    (row'.value = row.value ∧ row'.coverage = row.coverage ∧
        row'.valueRevision = row.valueRevision ∨
      row.seenRevision < row'.valueRevision)

def DeletedBy (key : DayKey) (row : FactRow δ) (request : IngestRequest) : Prop :=
  ∃ sourceRevision authority, row.seenRevision < sourceRevision ∧
    Operation.deleteDay key sourceRevision authority ∈ request.operations

theorem keepsComplete_self (h : s.measurements key = some row)
    (hrow : Complete row) : KeepsComplete key row s :=
  ⟨row, h, hrow, Nat.le_refl _, .inl ⟨rfl, rfl, rfl⟩⟩

theorem KeepsComplete.congr (h : KeepsComplete key row s)
    (hm : s'.measurements key = s.measurements key) : KeepsComplete key row s' := by
  obtain ⟨row', hrow', hrest⟩ := h
  exact ⟨row', hm.trans hrow', hrest⟩

theorem not_losesComplete {old : FactRow δ} {content : Value × Coverage} (hold : Complete old)
    (h : losesComplete old (some content) = false) : content.2.state = .complete := by
  obtain ⟨hdeleted, c, hc, hcomplete⟩ := hold
  by_contra hstate
  simp [losesComplete, hdeleted, hc, hcomplete, hstate] at h

theorem Moved.keepsComplete (hc : Counted hash s)
    (hm : Moved hash request s s') (h : KeepsComplete key row s) :
    KeepsComplete key row s' ∨ DeletedBy key row request := by
  obtain ⟨row', hrow', hcomplete, hle, hvalue⟩ := h
  have hother : ∀ key' new, key ≠ key' → KeepsComplete key row (s.write key' new) := by
    intro key' new hkey
    refine ⟨row', ?_, hcomplete, hle, hvalue⟩
    rw [measurements_write, if_neg hkey, hrow']
  cases hm with
  | touched cause => exact .inl ⟨row', hrow', hcomplete, hle, hvalue⟩
  | reported key' entry hnew => exact .inl ⟨row', hrow', hcomplete, hle, hvalue⟩
  | superseded event old hnew hold hfence => exact .inl ⟨row', hrow', hcomplete, hle, hvalue⟩
  | counted authority event hpos hnew hfence =>
    by_cases hkey : key = membershipDay event.eventAt.day
    · -- A membership day is never complete.
      subst hkey
      obtain ⟨-, c, hcoverage, hstate⟩ := hcomplete
      exact absurd hstate ((hc.rows _ row' hrow').not_complete c hcoverage)
    · exact .inl ((hother _ _ hkey).congr rfl)
  | skipped key' sourceRevision content old hold hnew hless =>
    by_cases hkey : key = key'
    · subst hkey
      obtain rfl := Option.some.inj (hrow'.symm.trans hold)
      refine .inl ⟨_, measurements_write.trans (if_pos rfl), hcomplete, ?_, hvalue⟩
      exact Nat.le_trans hle (Nat.le_of_lt hnew)
    · exact .inl (hother _ _ hkey)
  | stored key' sourceRevision authority content hop hscope hnew =>
    by_cases hkey : key = key'
    · subst hkey
      obtain ⟨hlt, hless⟩ := hnew row' hrow'
      have hrev : row.seenRevision < sourceRevision := by omega
      cases content with
      | none => exact .inr ⟨sourceRevision, authority, hrev, hop⟩
      | some content =>
        refine .inl ⟨_, measurements_write.trans (if_pos rfl), ⟨rfl, content.2, rfl, ?_⟩,
          Nat.le_of_lt hrev, .inr hrev⟩
        exact not_losesComplete hcomplete hless
    · exact .inl (hother _ _ hkey)

theorem Moves.keepsComplete (hinj : Function.Injective hash) {request : IngestRequest}
    (hm : Moves hash request s s') (hc : Counted hash s)
    (hs : KeepsComplete key row s) : KeepsComplete key row s' ∨ DeletedBy key row request := by
  refine (Moves.keeps (I := fun s => Counted hash s ∧
    (KeepsComplete key row s ∨ DeletedBy key row request)) ?_ hm ⟨hc, .inl hs⟩).2
  rintro s s' hmove ⟨hc, hs | hdeleted⟩
  · exact ⟨hmove.keeps_counted hinj hc, hmove.keepsComplete hc hs⟩
  · exact ⟨hmove.keeps_counted hinj hc, .inr hdeleted⟩

/-! ## Applied operations -/

/-- The scope has seen the operation, or a later revision. -/
def DaySettled (hash : Subject → δ) (key : DayKey) (sourceRevision : Nat)
    (content : Option (Value × Coverage)) (s : Rows δ) : Prop :=
  ∃ row, s.measurements key = some row ∧ (sourceRevision < row.seenRevision ∨
    row.seenRevision = sourceRevision ∧ row.seenHash = hash (.fact key sourceRevision content) ∧
      (key.scope = membershipScope → row.deleteFence = sourceRevision))

def HealthSettled (hash : Subject → δ) (scope : MetricKey) (sourceRevision : Nat) (health : Health)
    (s : Rows δ) : Prop :=
  ∃ entry, s.health (keyOf scope) = some entry ∧ (sourceRevision < entry.revision ∨
    entry.revision = sourceRevision ∧
      entry.hash = hash (.health (keyOf scope) health sourceRevision))

def Settled (hash : Subject → δ) (s : Rows δ) : Operation → Prop
  | .replaceDay key sourceRevision _ value coverage =>
    DaySettled hash key sourceRevision (some (value, coverage)) s
  | .deleteDay key sourceRevision _ => DaySettled hash key sourceRevision none s
  | .reportHealth scope sourceRevision _ health => HealthSettled hash scope sourceRevision health s
  | .addEvents _ _ => True

theorem DaySettled.moved {sourceRevision : Nat} {content : Option (Value × Coverage)}
    (hm : Moved hash request s s') (h : DaySettled hash key sourceRevision content s) :
    DaySettled hash key sourceRevision content s' := by
  obtain ⟨row, hrow, hseen⟩ := h
  have hwrite : ∀ key' new, (key = key' → sourceRevision < FactRow.seenRevision new) →
      DaySettled hash key sourceRevision content (s.write key' new) := by
    intro key' new hlt
    by_cases hkey : key = key'
    · exact ⟨new, measurements_write.trans (if_pos hkey), .inl (hlt hkey)⟩
    · exact ⟨row, by rw [measurements_write, if_neg hkey, hrow], hseen⟩
  have hle : sourceRevision ≤ row.seenRevision := by
    rcases hseen with hlt | ⟨heq, -⟩ <;> omega
  cases hm with
  | touched cause => exact ⟨row, hrow, hseen⟩
  | reported key' entry hnew => exact ⟨row, hrow, hseen⟩
  | superseded event old hnew hold hfence => exact ⟨row, hrow, hseen⟩
  | counted authority event hpos hnew hfence =>
    refine hwrite _ _ fun hkey => ?_
    subst hkey
    have hmax : sourceRevision < max row.seenRevision event.capturedRevision := by
      rcases hseen with hlt | ⟨heq, -, hfenced⟩
      · omega
      · have hlt := hfence row hrow
        rw [hfenced rfl] at hlt
        omega
    rwa [hrow]
  | skipped key' rev content' old hold hnew hless =>
    refine hwrite _ _ fun hkey => ?_
    subst hkey
    obtain rfl := Option.some.inj (hrow.symm.trans hold)
    exact Nat.lt_of_le_of_lt hle hnew
  | stored key' rev authority content' hop hscope hnew =>
    refine hwrite _ _ fun hkey => ?_
    subst hkey
    exact Nat.lt_of_le_of_lt hle (hnew row hrow).1

theorem HealthSettled.moved {scope : MetricKey} {sourceRevision : Nat} {health : Health}
    (hm : Moved hash request s s') (h : HealthSettled hash scope sourceRevision health s) :
    HealthSettled hash scope sourceRevision health s' := by
  obtain ⟨entry, hentry, hseen⟩ := h
  cases hm with
  | reported key new hnew =>
    by_cases hkey : keyOf scope = key
    · subst hkey
      have hlt := hnew entry hentry
      refine ⟨new, health_reportHealth.trans (if_pos rfl), .inl ?_⟩
      rcases hseen with h | ⟨h, -⟩ <;> omega
    · exact ⟨entry, by rw [health_reportHealth, if_neg hkey, hentry], hseen⟩
  | touched => exact ⟨entry, hentry, hseen⟩
  | superseded => exact ⟨entry, hentry, hseen⟩
  | counted => exact ⟨entry, hentry, hseen⟩
  | skipped => exact ⟨entry, hentry, hseen⟩
  | stored => exact ⟨entry, hentry, hseen⟩

theorem Settled.moved {op : Operation} (hm : Moved hash request s s') (h : Settled hash s op) :
    Settled hash s' op := by
  cases op with
  | replaceDay => exact DaySettled.moved hm h
  | deleteDay => exact DaySettled.moved hm h
  | reportHealth => exact HealthSettled.moved hm h
  | addEvents => trivial

theorem Moves.settled {op : Operation} (hm : Moves hash request s s') (h : Settled hash s op) :
    Settled hash s' op :=
  Moves.keeps (fun _ _ hmove hs => Settled.moved hmove hs) hm h

section Handlers

variable [DecidableEq δ]

theorem not_applied_of_old {status : Status} (h : Old status) : status ≠ .applied := by
  rcases h with rfl | rfl <;> exact nofun

variable {index sourceRevision : Nat}

theorem storeDay_settles {key : DayKey} {authority : Authority}
    {content : Option (Value × Coverage)} {p p' : Tx δ}
    (hscope : content.isSome = true → key.scope ≠ membershipScope)
    (h : storeDay hash request index key sourceRevision authority content p = .ok p') :
    ∃ result, p'.results = p.results ++ [result] ∧
      (result.status = .applied → DaySettled hash key sourceRevision content p'.rows) := by
  rcases storeDay_cases h with ⟨old, result, -, -, -, hstatus, rfl⟩ |
    ⟨old, result, -, -, -, hstatus, rfl⟩ | ⟨-, cause, rfl⟩
  · exact ⟨result, rfl, fun happlied => absurd happlied (not_applied_of_old hstatus)⟩
  · refine ⟨result, rfl, fun happlied => ?_⟩
    rw [hstatus] at happlied
    cases happlied
  · refine ⟨_, rfl, fun _ => ⟨_, measurements_write.trans (if_pos rfl), .inr ⟨rfl, rfl, ?_⟩⟩⟩
    intro hmembership
    cases content with
    | none => rfl
    | some content => exact absurd hmembership (hscope rfl)

/-- Every operation adds one answer; if it was applied, it is settled. -/
theorem operate_settles {op : Operation} {p p' : Tx δ}
    (hop : operationSchema op = true) (h : operate hash clock request index op p = .ok p') :
    ∃ result, p'.results = p.results ++ [result] ∧
      (result.status = .applied → Settled hash p'.rows op) := by
  cases op with
  | reportHealth scope sourceRevision authority health =>
    rcases reportHealth_cases h with ⟨old, result, -, -, -, hstatus, rfl⟩ | ⟨-, rfl⟩
    · exact ⟨result, rfl, fun happlied => absurd happlied (not_applied_of_old hstatus)⟩
    · exact ⟨_, rfl, fun _ => ⟨_, health_reportHealth.trans (if_pos rfl), .inr ⟨rfl, rfl⟩⟩⟩
  | addEvents authority events =>
    obtain ⟨b, -, h⟩ := bind_eq_ok.mp h
    dsimp only at h
    split at h
    · exact ⟨_, by rw [← Except.ok.inj h]; rfl, fun _ => trivial⟩
    · exact ⟨_, by rw [← Except.ok.inj h]; rfl, fun _ => trivial⟩
  | replaceDay key sourceRevision authority value coverage =>
    simp only [operationSchema, Bool.and_eq_true] at hop
    unfold operate at h
    dsimp only at h
    split at h
    · cases h
    split at h
    · cases h
    exact storeDay_settles (fun _ => scope_ne_membership hop.1.1.1) h
  | deleteDay key sourceRevision authority =>
    unfold operate at h
    dsimp only at h
    split at h
    · cases h
    exact storeDay_settles (by simp) h

theorem operateFrom_settles {ops : List Operation} {p p' : Tx δ}
    (hops : ∀ op ∈ ops, op ∈ request.operations ∧ operationSchema op = true)
    (h : operateFrom hash clock request index ops p = .ok p') :
    ∃ results, p'.results = p.results ++ results ∧
      List.Forall₂ (fun op result => result.status = .applied → Settled hash p'.rows op) ops
        results := by
  induction ops generalizing index p with
  | nil =>
    rw [← Except.ok.inj h]
    exact ⟨[], (List.append_nil _).symm, .nil⟩
  | cons op ops ih =>
    obtain ⟨q, hq, hrest⟩ := bind_eq_ok.mp h
    have htail : ∀ op' ∈ ops, op' ∈ request.operations ∧ operationSchema op' = true :=
      fun op' hop' => hops op' (List.mem_cons_of_mem _ hop')
    obtain ⟨result, hresult, hsettled⟩ := operate_settles (hops op List.mem_cons_self).2 hq
    obtain ⟨results, hresults, hall⟩ := ih htail hrest
    refine ⟨result :: results, ?_, .cons (fun happlied => ?_) hall⟩
    · rw [hresults, hresult, List.append_assoc, List.singleton_append]
    · exact (operateFrom_moves htail hrest).settled (hsettled happlied)

/-! ## Operations sent again -/

/-- The same operation under another authority. -/
def resend (authority : Authority) : Operation → Operation
  | .replaceDay key sourceRevision _ value coverage =>
    .replaceDay key sourceRevision authority value coverage
  | .deleteDay key sourceRevision _ => .deleteDay key sourceRevision authority
  | .addEvents _ events => .addEvents authority events
  | .reportHealth scope sourceRevision _ health =>
    .reportHealth scope sourceRevision authority health

/-- An answer that changes no row, or a refusal by a check against the clock. -/
def ChangesNothing (p : Tx δ) : Except StatsFailure (Tx δ) → Prop
  | .ok p' => ∃ result, Old result.status ∧ p' = p.answer result
  | .error failure => failure.code = .invalidRequest

theorem storeDay_changesNothing {key : DayKey} {authority : Authority}
    {content : Option (Value × Coverage)} {p : Tx δ}
    (hepoch : ∀ key row, p.rows.measurements key = some row →
      row.producerEpoch = request.producerEpoch)
    (h : DaySettled hash key sourceRevision content p.rows) :
    ChangesNothing p (storeDay hash request index key sourceRevision authority content p) := by
  obtain ⟨row, hrow, hseen⟩ := h
  unfold storeDay
  simp only [hrow, hepoch key row hrow, ne_eq, not_true_eq_false, if_false]
  rcases hseen with hlt | ⟨heq, hhash, -⟩
  · rw [if_pos hlt]
    exact ⟨_, .inr rfl, rfl⟩
  · rw [if_neg (by omega), if_pos heq.symm, if_neg (not_not.mpr hhash)]
    exact ⟨_, .inl rfl, rfl⟩

theorem reportHealth_changesNothing {scope : MetricKey}
    {health : Health} {p : Tx δ} (h : HealthSettled hash scope sourceRevision health p.rows) :
    ChangesNothing p
      (reportHealth hash clock request index scope sourceRevision health p) := by
  obtain ⟨entry, hentry, hseen⟩ := h
  unfold reportHealth
  dsimp only
  split
  · exact rfl
  rw [hentry]
  dsimp only
  rcases hseen with hlt | ⟨heq, hhash⟩
  · rw [if_pos hlt]
    exact ⟨_, .inr rfl, rfl⟩
  · rw [if_neg (by omega), if_pos heq.symm, if_neg (not_not.mpr hhash)]
    exact ⟨_, .inl rfl, rfl⟩

theorem operate_resend {op : Operation} {p : Tx δ} (authority : Authority)
    (hepoch : ∀ key row, p.rows.measurements key = some row →
      row.producerEpoch = request.producerEpoch)
    (hevents : op.isAddEvents = false) (h : Settled hash p.rows op) :
    ChangesNothing p (operate hash clock request index (resend authority op) p) := by
  cases op with
  | replaceDay key sourceRevision authority' value coverage =>
    simp only [resend, operate]
    split
    · exact rfl
    split
    · exact rfl
    exact storeDay_changesNothing hepoch h
  | deleteDay key sourceRevision authority' =>
    simp only [resend, operate]
    split
    · exact rfl
    exact storeDay_changesNothing hepoch h
  | reportHealth scope sourceRevision authority' health => exact reportHealth_changesNothing h
  | addEvents => cases hevents

end Handlers

end Maxim.Statistics.Ingest
