import Maxim.Statistics.Contract
import Mathlib.Logic.Function.Basic

/-!
# The ingest of the central statistics

`StatsIngestService.ingest` is one transaction on the rows of one entity. The
operations of a request follow each other; the first that fails undoes the
whole request. What the code hashes are canonical texts of values, here the
values themselves.
-/

namespace Maxim.Statistics.Ingest

/-- The values that the ingest hashes. -/
inductive Subject
  | request (request : IngestRequest)
  | health (scope : String) (health : Health) (sourceRevision : Nat)
  | event (entity : Entity) (event : MembershipEvent)
  | membership (revision : Nat)
  | membershipValue (value : MembershipValue)
  /-- A replacement with its content or a deletion without, the authority removed. -/
  | fact (key : DayKey) (sourceRevision : Nat) (content : Option (Value × Coverage))
  deriving DecidableEq

/-- A row of `stats_measurements`. -/
structure FactRow (δ : Type) where
  producerEpoch : String
  seenRevision : Nat
  seenHash : δ
  valueRevision : Nat
  valueHash : δ
  deleted : Bool
  value : Option Value
  coverage : Option Coverage
  observed : Option StatsTime × Option StatsTime
  deleteFence : Nat
  collectedAuthority : String

structure HealthEntry (δ : Type) where
  revision : Nat
  hash : δ
  health : Health

inductive Status
  | applied
  | duplicate
  | superseded
  | skippedIncomplete
  deriving DecidableEq

structure OperationResult where
  index : Nat
  status : Status
  seenRevision : Option Nat
  valueRevision : Option Nat
  acceptedEvents : Option Nat
  deriving DecidableEq

structure IngestResult where
  requestId : String
  entityRevision : Nat
  results : List OperationResult
  deriving DecidableEq

/-- A row of `stats_ingest_requests` of the kind `REQUEST`. -/
structure RequestRecord (δ : Type) where
  bodyHash : δ
  result : IngestResult

/-- A row of the kind `EVENT`, with what its result tells. -/
structure EventRecord (δ : Type) where
  bodyHash : δ
  entity : Entity
  day : StatsDay
  capturedRevision : Nat
  status : Status

inductive Cause
  | data
  | authority
  | delete
  deriving DecidableEq

/-- A row of `stats_changes`. -/
structure Change where
  entityRevision : Nat
  cause : Cause
  deriving DecidableEq

structure Rows (δ : Type) where
  dataRevision : Nat
  health : String → Option (HealthEntry δ)
  measurements : DayKey → Option (FactRow δ)
  requests : String → Option (RequestRecord δ)
  events : String → Option (EventRecord δ)
  changes : List Change

def Rows.initial {δ : Type} : Rows δ :=
  ⟨0, fun _ => none, fun _ => none, fun _ => none, fun _ => none, []⟩

inductive ErrorCode
  | invalidRequest
  | idempotencyConflict
  | revisionConflict
  | eventConflict
  | retiredProducerEpoch
  deriving DecidableEq

structure StatsFailure where
  code : ErrorCode
  status : Nat
  requestId : String
  deriving DecidableEq

/-- What the range checks against the clock answer in one call. The health of an operation or its
observation is more than 30 seconds ahead; an event is ahead or older than 30 days; a day is not
one of the last 90. -/
structure Clock where
  healthAhead : Nat → Bool
  observedAhead : Nat → Bool
  eventOut : Nat → Nat → Bool
  dayOut : Nat → Bool

variable {δ : Type}

namespace Rows

def touch (s : Rows δ) (cause : Cause) : Rows δ :=
  { s with
    dataRevision := s.dataRevision + 1
    changes := s.changes ++ [⟨s.dataRevision + 1, cause⟩] }

/-- `write`, and the update of a row. -/
def write (s : Rows δ) (key : DayKey) (row : FactRow δ) : Rows δ :=
  { s with measurements := Function.update s.measurements key (some row) }

def reportHealth (s : Rows δ) (key : String) (entry : HealthEntry δ) : Rows δ :=
  { s with health := Function.update s.health key (some entry) }

def recordEvent (s : Rows δ) (eventId : String) (record : EventRecord δ) : Rows δ :=
  { s with events := Function.update s.events eventId (some record) }

def recordRequest (s : Rows δ) (requestId : String) (record : RequestRecord δ) : Rows δ :=
  { s with requests := Function.update s.requests requestId (some record) }

end Rows

/-- Where a transaction stands between two operations. -/
structure Tx (δ : Type) where
  rows : Rows δ
  revision : Nat
  results : List OperationResult

/-- `results.push` without a change of the rows. -/
def Tx.answer (p : Tx δ) (result : OperationResult) : Tx δ :=
  { p with results := p.results ++ [result] }

/-- The rows changed, and the entity with them. -/
def Tx.apply (p : Tx δ) (rows : Rows δ) (cause : Cause) (result : OperationResult) : Tx δ where
  rows := rows.touch cause
  revision := (rows.touch cause).dataRevision
  results := p.results ++ [result]

section Handlers

variable [DecidableEq δ] (hash : Subject → δ) (clock : Clock) (request : IngestRequest)

def successAfterAttempt (health : Health) : Bool :=
  health.lastSuccessAt.any fun success =>
    health.lastAttemptAt.any fun attempt => attempt.parse < success.parse

def reportHealth (index : Nat) (scope : MetricKey) (sourceRevision : Nat) (health : Health)
    (p : Tx δ) : Except StatsFailure (Tx δ) :=
  let key := keyOf scope
  let old := p.rows.health key
  let digest := hash (.health key health sourceRevision)
  if clock.healthAhead index || successAfterAttempt health then
    .error ⟨.invalidRequest, 400, request.requestId⟩
  else
    let applied : OperationResult := ⟨index, .applied, some sourceRevision, none, none⟩
    let stored := p.apply (p.rows.reportHealth key ⟨sourceRevision, digest, health⟩) .data applied
    match old with
    | none => .ok stored
    | some old =>
      if sourceRevision < old.revision then
        .ok (p.answer ⟨index, .superseded, some old.revision, none, none⟩)
      else if sourceRevision = old.revision then
        if old.hash ≠ digest then .error ⟨.revisionConflict, 409, request.requestId⟩
        else .ok (p.answer ⟨index, .duplicate, some old.revision, none, none⟩)
      else .ok stored

/-- Where an operation `ADD_EVENTS` stands between two events. -/
structure Batch (δ : Type) where
  rows : Rows δ
  accepted : Nat
  duplicate : Nat
  high : Nat

def carried (old : Option (FactRow δ)) : MembershipValue :=
  match old.bind fun row => if row.deleted then none else row.value with
  | some (.membership v) => v
  | _ => ⟨some 0, some 0, none, none⟩

/-- The earlier of a stored time and a new one, by their texts. -/
def earlier (stored : Option StatsTime) (t : StatsTime) : StatsTime :=
  match stored with
  | some s => if s.text < t.text then s else t
  | none => t

/-- The later of a stored time and a new one, by their texts. -/
def later (stored : Option StatsTime) (t : StatsTime) : StatsTime :=
  match stored with
  | some s => if t.text < s.text then s else t
  | none => t

def countEvent (event : MembershipEvent) (v : MembershipValue) : MembershipValue where
  joined := if event.eventType = .join then some (v.joined.getD 0 + 1) else v.joined
  left := if event.eventType = .leave then some (v.left.getD 0 + 1) else v.left
  observedFrom := some (earlier v.observedFrom event.observedAt)
  observedTo := some (later v.observedTo event.observedAt)

/-- `v[n]`, the counter of a kind of event. -/
def counter (v : MembershipValue) : EventType → Option Nat
  | .join => v.joined
  | .leave => v.left

/-- The row of a membership day after one more event. -/
def eventRow (authority : Authority) (event : MembershipEvent) (old : Option (FactRow δ)) :
    FactRow δ :=
  let v := countEvent event (carried old)
  let revision := max (old.elim 0 (·.seenRevision)) event.capturedRevision
  { producerEpoch := request.producerEpoch
    seenRevision := revision
    seenHash := hash (.membership revision)
    valueRevision := revision
    valueHash := hash (.membershipValue v)
    deleted := false
    value := some (.membership v)
    coverage := some ⟨.partially, [], false⟩
    observed := (v.observedFrom, v.observedTo)
    deleteFence := old.elim 0 (·.deleteFence)
    collectedAuthority := authority.id }

def eventRecord (event : MembershipEvent) (status : Status) : EventRecord δ where
  bodyHash := hash (.event request.entity event)
  entity := request.entity
  day := event.eventAt.day
  capturedRevision := event.capturedRevision
  status := status

def addEvent (out : Bool) (authority : Authority) (event : MembershipEvent) (b : Batch δ) :
    Except StatsFailure (Batch δ) :=
  if out then .error ⟨.invalidRequest, 400, request.requestId⟩
  else
    let scope := membershipDay event.eventAt.day
    match b.rows.events event.eventId with
    | some prior =>
      if prior.bodyHash ≠ hash (.event request.entity event) then
        .error ⟨.eventConflict, 409, request.requestId⟩
      else .ok { b with duplicate := b.duplicate + 1 }
    | none =>
      let old := b.rows.measurements scope
      let high := max b.high event.capturedRevision
      if old.any (event.capturedRevision ≤ ·.deleteFence) then
        .ok { b with
          rows := b.rows.recordEvent event.eventId (eventRecord hash request event .superseded)
          high := high }
      else if (counter (countEvent event (carried old)) event.eventType).any (2147483647 < ·) then
        .error ⟨.invalidRequest, 400, request.requestId⟩
      else
        .ok { b with
          rows := (b.rows.write scope (eventRow hash request authority event old)).recordEvent
            event.eventId (eventRecord hash request event .applied)
          accepted := b.accepted + 1
          high := high }

def addEventsFrom (index : Nat) (authority : Authority) :
    Nat → List MembershipEvent → Batch δ → Except StatsFailure (Batch δ)
  | _, [], b => .ok b
  | position, event :: events, b => do
    let b ← addEvent hash request (clock.eventOut index position) authority event b
    addEventsFrom index authority (position + 1) events b

def batchStatus (events : List MembershipEvent) (b : Batch δ) : Status :=
  if b.accepted ≠ 0 then .applied
  else if b.duplicate = events.length then .duplicate
  else .superseded

def addEvents (index : Nat) (authority : Authority) (events : List MembershipEvent) (p : Tx δ) :
    Except StatsFailure (Tx δ) := do
  let b ← addEventsFrom hash clock request index authority 0 events ⟨p.rows, 0, 0, 0⟩
  let valueRevision := if b.accepted ≠ 0 then some b.high else none
  let result := ⟨index, batchStatus events b, some b.high, valueRevision, some b.accepted⟩
  if b.accepted ≠ 0 then pure (p.apply b.rows .data result)
  else pure ({ p with rows := b.rows }.answer result)

/-- A snapshot without its time, a time without its snapshot, or a time of another day. -/
def snapshotMismatch (day : StatsDay) : Value → Bool
  | .audience value observedAt =>
    (value.isNone != observedAt.isNone) || observedAt.any (·.day ≠ day)
  | _ => false

def Value.isSnapshot : Value → Bool
  | .audience _ (some _) => true
  | _ => false

/-- An interval that begins on another day or ends after the day. -/
def intervalOutside (day : StatsDay) (interval : Interval) : Bool :=
  interval.start.day ≠ day || (day.number + 1) * 86400000 < interval.stop.parse

def replacementInvalid (index : Nat) (key : DayKey) (value : Value) (coverage : Coverage) : Bool :=
  snapshotMismatch key.day value || (Value.isSnapshot value && clock.observedAhead index) ||
    coverage.intervals.any (intervalOutside key.day)

def losesComplete (old : FactRow δ) (content : Option (Value × Coverage)) : Bool :=
  content.any fun c =>
    !old.deleted && old.coverage.any (·.state = .complete) && decide (c.2.state ≠ .complete)

def FactRow.seen (old : FactRow δ) (sourceRevision : Nat) (digest : δ) : FactRow δ :=
  { old with seenRevision := sourceRevision, seenHash := digest }

/-- The row that a replacement or a deletion writes. -/
def dayRow (key : DayKey) (sourceRevision : Nat) (authority : Authority)
    (content : Option (Value × Coverage)) (old : Option (FactRow δ)) : FactRow δ :=
  let digest := hash (.fact key sourceRevision content)
  { producerEpoch := request.producerEpoch
    seenRevision := sourceRevision
    seenHash := digest
    valueRevision := sourceRevision
    valueHash := digest
    deleted := content.isNone
    value := content.map (·.1)
    coverage := content.map (·.2)
    observed := content.elim (none, none) fun c => c.1.observed
    deleteFence := if content.isNone then sourceRevision else old.elim 0 (·.deleteFence)
    collectedAuthority := authority.id }

/-- `REPLACE_DAY` with its content, and `DELETE_DAY` without, after their checks. -/
def storeDay (index : Nat) (key : DayKey) (sourceRevision : Nat) (authority : Authority)
    (content : Option (Value × Coverage)) (p : Tx δ) : Except StatsFailure (Tx δ) :=
  let digest := hash (.fact key sourceRevision content)
  let cause := if content.isNone then Cause.delete else Cause.data
  let applied : OperationResult :=
    ⟨index, .applied, some sourceRevision, some sourceRevision, none⟩
  let row := dayRow hash request key sourceRevision authority content (p.rows.measurements key)
  let stored := p.apply (p.rows.write key row) cause applied
  match p.rows.measurements key with
  | none => .ok stored
  | some old =>
    if old.producerEpoch ≠ request.producerEpoch then
      .error ⟨.retiredProducerEpoch, 403, request.requestId⟩
    else if sourceRevision < old.seenRevision then
      .ok (p.answer ⟨index, .superseded, some old.seenRevision, some old.valueRevision, none⟩)
    else if sourceRevision = old.seenRevision then
      if old.seenHash ≠ digest then .error ⟨.revisionConflict, 409, request.requestId⟩
      else .ok (p.answer ⟨index, .duplicate, some old.seenRevision, some old.valueRevision, none⟩)
    else if losesComplete old content then
      .ok ({ p with rows := p.rows.write key (old.seen sourceRevision digest) }.answer
        ⟨index, .skippedIncomplete, some sourceRevision, some old.valueRevision, none⟩)
    else .ok stored

def operate (index : Nat) (op : Operation) (p : Tx δ) : Except StatsFailure (Tx δ) :=
  match op with
  | .reportHealth scope sourceRevision _ health =>
    reportHealth hash clock request index scope sourceRevision health p
  | .addEvents authority events => addEvents hash clock request index authority events p
  | .replaceDay key sourceRevision authority value coverage =>
    if clock.dayOut index then .error ⟨.invalidRequest, 400, "statistics"⟩
    else if replacementInvalid clock index key value coverage then
      .error ⟨.invalidRequest, 400, request.requestId⟩
    else storeDay hash request index key sourceRevision authority (some (value, coverage)) p
  | .deleteDay key sourceRevision authority =>
    if clock.dayOut index then .error ⟨.invalidRequest, 400, "statistics"⟩
    else storeDay hash request index key sourceRevision authority none p

def operateFrom : Nat → List Operation → Tx δ → Except StatsFailure (Tx δ)
  | _, [], p => .ok p
  | index, op :: ops, p => do
    let p ← operate hash clock request index op p
    operateFrom (index + 1) ops p

def transact (s : Rows δ) : Except StatsFailure (Rows δ × IngestResult) :=
  match s.requests request.requestId with
  | some receipt =>
    if receipt.bodyHash ≠ hash (.request request) then
      .error ⟨.idempotencyConflict, 409, request.requestId⟩
    else .ok (s, receipt.result)
  | none => do
    let p ← operateFrom hash clock request 0 request.operations ⟨s, s.dataRevision, []⟩
    let result := ⟨request.requestId, p.revision, p.results⟩
    pure (p.rows.recordRequest request.requestId ⟨hash (.request request), result⟩, result)

/-- `ingest`: a request that fails is rolled back. -/
def ingest (s : Rows δ) : Rows δ × Except StatsFailure IngestResult :=
  match transact hash clock request s with
  | .ok (s', result) => (s', .ok result)
  | .error failure => (s, .error failure)

end Handlers

end Maxim.Statistics.Ingest
