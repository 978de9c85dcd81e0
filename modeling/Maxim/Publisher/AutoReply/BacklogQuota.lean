import Maxim.Library.RankedSet
import Maxim.Library.Run
import Mathlib.Data.Finset.Card
import Mathlib.Data.List.ReduceOption

/-!
# The backlog quota of the automatic replies

The deliveries in the live lists of the queue and the leases of the deliveries
that are being added to it share one limit. An operation has one lease, which
its attempts share; a lease that lapses or that its last attempt releases ends
its generation.
-/

namespace Maxim.Publisher.AutoReply.BacklogQuota

open Maxim.Library

/-- The lists of the queue. In `wait` and `paused` the queue can keep a deprecated marker, `none`. -/
structure Queue (ι : Type) where
  wait : List (Option ι)
  paused : List (Option ι)
  active : List ι
  delayed : List ι
  prioritized : List ι
  waitingChildren : List ι
  finished : List ι

variable {δ τ ι : Type}

def Queue.empty : Queue ι := ⟨[], [], [], [], [], [], []⟩

def Queue.liveBacklog (q : Queue ι) : Nat :=
  q.wait.length + q.paused.length + q.active.length + q.delayed.length + q.prioritized.length +
    q.waitingChildren.length

def Queue.entries (q : Queue ι) : List ι :=
  q.wait.reduceOption ++ q.paused.reduceOption ++ q.active ++ q.delayed ++ q.prioritized ++
    q.waitingChildren

theorem Queue.entries_length_le (q : Queue ι) : q.entries.length ≤ q.liveBacklog := by
  have hwait := List.reduceOption_length_le q.wait
  have hpaused := List.reduceOption_length_le q.paused
  simp only [Queue.entries, Queue.liveBacklog, List.length_append]
  omega

section Jobs

variable [DecidableEq ι]

def Queue.jobs (q : Queue ι) : Finset ι := q.entries.toFinset

theorem Queue.card_jobs_le (q : Queue ι) : q.jobs.card ≤ q.liveBacklog :=
  Nat.le_trans (List.toFinset_card_le _) q.entries_length_le

/-- `queue.add`: a job whose id is still known is not added again. -/
def Queue.add (q : Queue ι) (job : ι) (isDelayed : Bool) : Queue ι :=
  if job ∈ q.jobs ∨ job ∈ q.finished then q
  else if isDelayed then { q with delayed := job :: q.delayed }
  else { q with prioritized := job :: q.prioritized }

theorem Queue.jobs_add (q : Queue ι) (job : ι) (isDelayed : Bool) :
    (q.add job isDelayed).jobs ⊆ insert job q.jobs := by
  intro j hj
  simp only [Queue.add] at hj
  split at hj
  · exact Finset.mem_insert_of_mem hj
  · simp only [Queue.jobs, Queue.entries] at hj ⊢
    split at hj <;> simp at hj ⊢ <;> tauto

end Jobs

/-- The limit, and how long a lease lasts. -/
structure Quota where
  limit : Nat
  inflightLeaseTtlMs : Nat

/-- The keys of the quota, and the queue: the leases with the time at which each lapses, and the
attempt tokens of every operation. -/
structure Scope (δ τ ι : Type) where
  inflight : Slot (Table δ Nat)
  attempts : Slots δ (Finset τ)
  queue : Queue ι

def Scope.empty : Scope δ τ ι := ⟨none, fun _ => none, .empty⟩

/-- What a script answers: the status, the live backlog and the number of leases. -/
abbrev Raw := Int × Nat × Nat

section Scripts

variable [LinearOrder δ] [DecidableEq τ]

/-- The leases after `ZREMRANGEBYSCORE`. -/
def Scope.trim (s : Scope δ τ ι) (now : Nat) : Scope δ τ ι :=
  { s with inflight := removeScored (purge now s.inflight) now }

def preflight (quota : Quota) (now deadlineMs : Nat) (s : Scope δ τ ι) : Scope δ τ ι × Raw :=
  if deadlineMs ≤ now then (s, -2, 0, 0)
  else if quota.limit < 1 then (s, -1, 0, 0)
  else
    let s := s.trim now
    let liveBacklog := s.queue.liveBacklog
    let leaseCount := zcard s.inflight
    if quota.limit ≤ liveBacklog + leaseCount then (s, 0, liveBacklog, leaseCount)
    else (s, 1, liveBacklog, leaseCount)

def Scope.tokens (s : Scope δ τ ι) (now : Nat) (operationId : δ) : Finset τ :=
  (content (purge now (s.attempts operationId))).getD ∅

/-- The attempts of the operation are these, and its lease lasts from now on. -/
def Scope.lease (quota : Quota) (now : Nat) (operationId : δ) (tokens : Finset τ)
    (s : Scope δ τ ι) : Scope δ τ ι :=
  { s with
    attempts := put s.attempts operationId (cell tokens (now + quota.inflightLeaseTtlMs))
    inflight := expireAt (now + quota.inflightLeaseTtlMs * 2)
      (setField s.inflight operationId (now + quota.inflightLeaseTtlMs)) }

def claimInflight (quota : Quota) (now deadlineMs : Nat) (operationId : δ) (attemptToken : τ)
    (s : Scope δ τ ι) : Scope δ τ ι × Raw :=
  if deadlineMs ≤ now then (s, -2, 0, 0)
  else if quota.inflightLeaseTtlMs < 1 ∨ quota.limit < 1 then (s, -1, 0, 0)
  else
    let s := s.trim now
    let liveBacklog := s.queue.liveBacklog
    let leaseCount := zcard s.inflight
    match field s.inflight operationId with
    | some _ =>
      (s.lease quota now operationId (insert attemptToken (s.tokens now operationId)),
        2, liveBacklog, leaseCount)
    | none =>
      -- What is left of the attempts belongs to an earlier generation.
      if quota.limit ≤ liveBacklog + leaseCount then
        ({ s with attempts := put s.attempts operationId none }, 0, liveBacklog, leaseCount)
      else
        (s.lease quota now operationId {attemptToken}, 1, liveBacklog, leaseCount + 1)

/-- `RELEASE_INFLIGHT_SCRIPT`. It answers whether the attempt was removed. -/
def releaseAttempt (now : Nat) (operationId : δ) (attemptToken : τ) (s : Scope δ τ ι) :
    Scope δ τ ι × Bool :=
  if attemptToken ∈ s.tokens now operationId then
    let left := (s.tokens now operationId).erase attemptToken
    if left = ∅ then
      ({ s with
        attempts := put s.attempts operationId none
        inflight := delField (purge now s.inflight) operationId }, true)
    else
      ({ s with
        attempts := put s.attempts operationId
          ((s.attempts operationId).map fun c => { c with value := left }) }, true)
  else (s, false)

end Scripts

/-! ## The callers -/

/-- How far a call of `ensureDeliveryJob` has come: it waits for the answer to its claim, has given
up waiting for it, is adding the job, releases its attempt, or was refused. -/
inductive Stage
  | claiming
  | timedOut
  | adding
  | releasing
  | refused
  deriving DecidableEq

structure Caller (ι : Type) where
  job : ι
  stage : Stage

/-- The quota, and the callers under the tokens they draw. -/
structure World (δ τ ι : Type) where
  scope : Scope δ τ ι
  callers : τ → Option (Caller ι)

def World.empty : World δ τ ι := ⟨.empty, fun _ => none⟩

/-- What happens next. A caller that crashes is one that nothing happens to any more. -/
inductive Call (τ ι : Type)
  | preflight (deadlineMs : Nat)
  | ensureDeliveryJob (attemptToken : τ) (job : ι)
  | claim (attemptToken : τ) (deadlineMs : Nat) (answered : Bool)
  | timeout (attemptToken : τ)
  | add (attemptToken : τ) (isDelayed : Bool)
  | addFailed (attemptToken : τ)
  | release (attemptToken : τ)
  | transition (queue : Queue ι)

inductive Shown (δ τ : Type)
  | claimed (operationId : δ) (attemptToken : τ) (status : Int)
  | added (operationId : δ) (attemptToken : τ)
  | released (operationId : δ) (attemptToken : τ)
  deriving DecidableEq

variable [LinearOrder δ] [DecidableEq τ] [DecidableEq ι]

def World.advance (w : World δ τ ι) (attemptToken : τ) (job : ι) (stage : Stage) : World δ τ ι :=
  { w with callers := Function.update w.callers attemptToken (some ⟨job, stage⟩) }

def answeredStage (status : Int) : Stage := if status = 1 ∨ status = 2 then .adding else .refused

def step (digest : ι → δ) (quota : Quota) (now : Nat) (call : Call τ ι) (w : World δ τ ι) :
    World δ τ ι × Option (Shown δ τ) :=
  match call with
  | .preflight deadlineMs => ({ w with scope := (preflight quota now deadlineMs w.scope).1 }, none)
  | .ensureDeliveryJob attemptToken job =>
    match w.callers attemptToken with
    | none => (w.advance attemptToken job .claiming, none)
    | some _ => (w, none)
  | .claim attemptToken deadlineMs answered =>
    match w.callers attemptToken with
    | some ⟨job, stage⟩ =>
      let (scope, status, _) := claimInflight quota now deadlineMs (digest job) attemptToken w.scope
      let shown := Shown.claimed (digest job) attemptToken status
      match stage, answered with
      | .claiming, true =>
        ({ w with scope }.advance attemptToken job (answeredStage status), some shown)
      -- The answer is lost, or the caller no longer waits for it.
      | .claiming, false | .timedOut, _ => ({ w with scope }, some shown)
      | _, _ => (w, none)
    | none => (w, none)
  | .timeout attemptToken =>
    match w.callers attemptToken with
    | some ⟨job, .claiming⟩ => (w.advance attemptToken job .timedOut, none)
    | _ => (w, none)
  | .add attemptToken isDelayed =>
    match w.callers attemptToken with
    | some ⟨job, .adding⟩ =>
      ({ w with scope := { w.scope with queue := w.scope.queue.add job isDelayed } }.advance
        attemptToken job .releasing, some (.added (digest job) attemptToken))
    | _ => (w, none)
  | .addFailed attemptToken =>
    match w.callers attemptToken with
    | some ⟨job, .adding⟩ => (w.advance attemptToken job .releasing, none)
    | _ => (w, none)
  | .release attemptToken =>
    match w.callers attemptToken with
    | some ⟨job, .timedOut⟩ | some ⟨job, .releasing⟩ =>
      ({ w with scope := (releaseAttempt now (digest job) attemptToken w.scope).1 },
        some (.released (digest job) attemptToken))
    | _ => (w, none)
  -- Jobs move between the live lists or leave them; markers come and go.
  | .transition queue =>
    if queue.jobs ⊆ w.scope.queue.jobs then ({ w with scope := { w.scope with queue } }, none)
    else (w, none)

end Maxim.Publisher.AutoReply.BacklogQuota
