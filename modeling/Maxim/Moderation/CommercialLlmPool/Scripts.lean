import Maxim.Library.Decimal
import Maxim.Library.Table

/-!
# The scripts of the model pool

Each node of the pool has a lease, a heartbeat, one slot and one response; each
job has a record. A script reads and writes them in one step. Stored texts are
written with `JSON.stringify` or `cjson.encode` of the records below, so two
texts are equal when the records are; `cjson.encode` keeps 14 digits of a
number.
-/

namespace Maxim.Moderation.CommercialLlmPool

open Maxim.Library

inductive CommercialLlmPoolNodeId
  | server9b
  | pcA4b
  | pcB9b
  deriving DecidableEq, Repr

/-- The model of the node is `9b`. -/
def CommercialLlmPoolNodeId.large : CommercialLlmPoolNodeId → Bool
  | .server9b | .pcB9b => true
  | .pcA4b => false

def MAX_SAFE_INTEGER : Nat := 9007199254740991
def COMMERCIAL_LLM_POOL_LEASE_MS : Nat := 10000
def COMMERCIAL_LLM_POOL_HEARTBEAT_MS : Nat := 6000
def COMMERCIAL_LLM_POOL_TIMEOUT_MS : Nat := 20000
def COMMERCIAL_LLM_POOL_REQUEST_BYTES : Nat := 32 * 1024
def COMMERCIAL_LLM_POOL_RESPONSE_BYTES : Nat := 16 * 1024

/-- The first attempt of a job, or the second. -/
inductive Attempt
  | one
  | two
  deriving DecidableEq, Repr

structure Heartbeat where
  nodeId : CommercialLlmPoolNodeId
  session : String
  ready : Bool
  deriving DecidableEq

/-- A slot, and the reservation that its owner keeps of it; `attemptId` is `id`. -/
structure Reservation where
  nodeId : CommercialLlmPoolNodeId
  session : String
  id : String
  jobId : String
  attempt : Attempt
  deadlineAtMs : Nat
  body : String
  payloadSha256 : String
  deriving DecidableEq

inductive JobState
  | pending
  | released
  | complete
  deriving DecidableEq, Repr

structure Job where
  jobId : String
  attempt : Attempt
  id : String
  nodeId : CommercialLlmPoolNodeId
  session : String
  deadlineAtMs : Nat
  payloadSha256 : String
  state : JobState
  deriving DecidableEq

structure Response where
  session : String
  id : String
  body : String
  deriving DecidableEq

def Reservation.job (r : Reservation) : Job :=
  ⟨r.jobId, r.attempt, r.id, r.nodeId, r.session, r.deadlineAtMs, r.payloadSha256, .pending⟩

def Job.encoded (j : Job) (state : JobState) : Job :=
  { j with deadlineAtMs := significant 14 j.deadlineAtMs, state }

/-! ## Stored data -/

structure Node where
  lease : Slot String
  heartbeat : Slot Heartbeat
  slot : Slot Reservation
  response : Slot Response

/-- A message that waits for its dispatch; the store keeps it under its nonce. -/
structure Waiting where
  worker : String
  nonce : String
  deadlineAtMs : Nat
  deriving DecidableEq

/-- What other components keep: their two pending slots, the messages that wait for a dispatch
(`none` when the text cannot be read), and their worker. -/
structure Others where
  pending : Bool × Bool
  dispatchPending : Table String (Option Waiting)
  admissionWorker : Option String

structure Store where
  node : CommercialLlmPoolNodeId → Node
  job : Slots String Job
  others : Others

def Store.empty : Store := ⟨fun _ => ⟨none, none, none, none⟩, fun _ => none, ⟨(false, false), ∅, none⟩⟩

def Node.purge (now : Nat) (n : Node) : Node :=
  ⟨Library.purge now n.lease, Library.purge now n.heartbeat, Library.purge now n.slot,
    Library.purge now n.response⟩

def Store.purge (now : Nat) (s : Store) : Store :=
  { s with node := fun n => (s.node n).purge now, job := fun j => Library.purge now (s.job j) }

def Store.setNode (s : Store) (nodeId : CommercialLlmPoolNodeId) (n : Node) : Store :=
  { s with node := Function.update s.node nodeId n }

/-- `PTTL`; zero when there is none. -/
def pttl {α : Type} (now : Nat) (s : Slot α) : Nat := (expiry s).elim 0 (· - now)

def Reservation.same (r : Reservation) (id session : String) : Bool := r.id == id && r.session == session
def Job.same (j : Job) (id session : String) : Bool := j.id == id && j.session == session
def Response.same (r : Response) (id session : String) : Bool := r.id == id && r.session == session

/-! ## Workers -/

def acquireWorker (now : Nat) (nodeId : CommercialLlmPoolNodeId) (session : String) (s : Store) :
    Store × Bool :=
  let n := s.node nodeId
  match content n.lease with
  | some owner => (s, owner == session)
  | none => (s.setNode nodeId { n with lease := cell session (now + COMMERCIAL_LLM_POOL_LEASE_MS) }, true)

/-- The slot of the worker with its remaining time; `none` when the session is lost. -/
def refreshWorker (now : Nat) (nodeId : CommercialLlmPoolNodeId) (session : String) (ready : Bool)
    (s : Store) : Store × Option (Option (Reservation × Nat)) :=
  let n := s.node nodeId
  if content n.lease ≠ some session then (s, none)
  else
    (s.setNode nodeId { n with
        lease := expireAt (now + COMMERCIAL_LLM_POOL_LEASE_MS) n.lease
        heartbeat := cell ⟨nodeId, session, ready⟩ (now + COMMERCIAL_LLM_POOL_HEARTBEAT_MS) },
      some (((content n.slot).filter fun slot => slot.session == session).map fun slot =>
        (slot, pttl now n.slot)))

def releaseWorker (nodeId : CommercialLlmPoolNodeId) (session : String) (s : Store) : Store :=
  let n := s.node nodeId
  if content n.lease ≠ some session then s
  else
    s.setNode nodeId
      { lease := none
        heartbeat := n.heartbeat.filter fun c => c.value.session != session
        slot := n.slot.filter fun c => c.value.session != session
        response := n.response.filter fun c => c.value.session != session }

/-! ## Reservation -/

def stale (now : Nat) (worker : Option String) (nonce : String) : Option Waiting → Bool
  | none => true
  | some item => item.deadlineAtMs ≤ now || worker != some item.worker || item.nonce != nonce

/-- A consultation yields to everything that waits: whether it may go on, and what is left. -/
def yields (now : Nat) (o : Others) : Others × Bool :=
  if o.pending.1 || o.pending.2 then (o, false)
  else if o.dispatchPending.entries.length > 3 then (o, false)
  else
    let old := o.dispatchPending.entries.filter fun e => stale now o.admissionWorker e.1 e.2
    ({ o with dispatchPending := old.foldl (fun t e => t.erase e.1) o.dispatchPending },
      old.length == o.dispatchPending.entries.length)

/-- The job may have this attempt now. -/
def fenceAllows (next : Reservation) : Option Job → Bool
  | none => next.attempt == .one
  | some previous => next.attempt == .two && previous.attempt == .one && previous.state == .released &&
      previous.nodeId != next.nodeId && previous.deadlineAtMs == next.deadlineAtMs &&
      previous.payloadSha256 == next.payloadSha256

/-- The script of `reserve`, with the slot to write and the heartbeat that was read. -/
def reserve (now : Nat) (next : Reservation) (heartbeat : Heartbeat) (consultation : Bool) (s : Store) :
    Store × Bool :=
  let n := s.node next.nodeId
  if next.deadlineAtMs ≤ now ∨ next.deadlineAtMs - now > COMMERCIAL_LLM_POOL_TIMEOUT_MS then (s, false)
  else if content n.lease ≠ some next.session ∨ content n.heartbeat ≠ some heartbeat then (s, false)
  else if (content n.slot).any fun slot => slot.session == next.session then (s, false)
  else
    let (others, free) := if consultation then yields now s.others else (s.others, true)
    let s := { s with others }
    if ¬free then (s, false)
    else if ¬fenceAllows next (content (s.job next.jobId)) then (s, false)
    else
      ({ node := Function.update s.node next.nodeId
           { n with slot := cell next next.deadlineAtMs, response := none }
         job := put s.job next.jobId (cell next.job next.deadlineAtMs)
         others := if consultation then s.others else
           { s.others with dispatchPending := s.others.dispatchPending.erase next.jobId } }, true)

/-! ## Response and release -/

/-- The script of `respond`, with the slot that was read. -/
def respond (now : Nat) (nodeId : CommercialLlmPoolNodeId) (session id body : String)
    (slot : Reservation) (s : Store) : Store × Bool :=
  let n := s.node nodeId
  if content n.lease ≠ some session ∨ content n.slot ≠ some slot then (s, false)
  else if pttl now n.slot = 0 then (s, false)
  else if ¬(content (s.job slot.jobId)).any fun job => job.same id session && job.state == .pending then
    (s.setNode nodeId { n with slot := none, response := none }, false)
  else if (content n.response).isSome then (s, false)
  else (s.setNode nodeId { n with response := cell ⟨session, id, body⟩ (now + pttl now n.slot) }, true)

/-- The state of a job in its record, for as long as the record lives. -/
def setState (now : Nat) (jobId : String) (job : Job) (state : JobState) (s : Store) : Store :=
  { s with job := put s.job jobId (cell (job.encoded state) (now + pttl now (s.job jobId))) }

def releasable (now : Nat) (r : Reservation) (s : Store) : Option Job :=
  (content (s.job r.jobId)).filter fun job =>
    job.same r.id r.session && job.state == .pending && decide (0 < pttl now (s.job r.jobId))

/-- The slot and the response of a reservation that needs them no more. -/
def cleanUp (r : Reservation) (s : Store) : Store :=
  let n := s.node r.nodeId
  let finished := (content (s.job r.jobId)).any fun job =>
    job.same r.id r.session && job.state == .complete
  if finished || (content n.response).any fun response => response.same r.id r.session then
    s.setNode r.nodeId { n with
      slot := n.slot.filter fun c => !c.value.same r.id r.session
      response := n.response.filter fun c => !c.value.same r.id r.session }
  else s

/-- The script of `release`, and whether it released the job. -/
def release (now : Nat) (r : Reservation) (s : Store) : Store × Bool :=
  match releasable now r s with
  | some job => (cleanUp r (setState now r.jobId job .released s), true)
  | none => (cleanUp r s, false)

def releaseUndispatched (now : Nat) (r : Reservation) (s : Store) : Store × Bool :=
  let n := s.node r.nodeId
  if content n.lease ≠ some r.session ∨ content n.slot ≠ some r ∨ (content n.response).isSome then
    (s, false)
  else match releasable now r s with
  | some job => ((setState now r.jobId job .released s).setNode r.nodeId { n with slot := none }, true)
  | none => (s, false)

/-- The script of `wait`, with the response and the job that were read. -/
def accept (now : Nat) (r : Reservation) (response : Response) (job : Job) (s : Store) : Store × Bool :=
  let n := s.node r.nodeId
  if content n.lease ≠ some r.session ∨ content n.slot ≠ some r ∨ content n.response ≠ some response ∨
      content (s.job r.jobId) ≠ some job then (s, false)
  else if job.state ≠ .pending ∨ pttl now (s.job r.jobId) = 0 ∨ job.deadlineAtMs ≤ now then (s, false)
  else (setState now r.jobId job .complete s, true)

end Maxim.Moderation.CommercialLlmPool
