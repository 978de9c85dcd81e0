import Maxim.Library.Run
import Maxim.Library.Expiry
import Mathlib.Data.Rat.Floor
import Mathlib.Data.List.Basic

/-!
# The lock around the sanction state of one member

`runExclusive` takes a lock in Redis, runs an operation under a heartbeat and
releases the lock. The operation gets a guard whose `assertOwned` renews the
lock first. Below are the three scripts, the lease that a call keeps in memory
and the steps of all calls for one member. A request may be lost, may reach
Redis late, and once more while its call still waits; its answer may be late or lost.
-/

namespace Maxim.Moderation.SanctionStateLock

open Maxim.Library

def ttlMs : Nat := 60000

/-- `MODERATION_SANCTION_STATE_LOCK_WAIT_TIMEOUT_MS`. -/
def defaultWaitTimeoutMs : Int := 1000

/-- `MODERATION_SANCTION_STATE_LOCK_RETRY_DELAY_MS`. -/
def retryDelayMs : Int := 25

def heartbeatMs : Int := ttlMs / 3

/-- `MODERATION_SANCTION_STATE_LOCK_HEARTBEAT_RETRY_MS`. -/
def heartbeatRetryMs : Int := 1000

variable {ι : Type} [DecidableEq ι]

/-! ## The scripts -/

def acquireLockBeforeDeadline (now : Nat) (token : ι) (deadlineAtMs : Int) (lock : Slot ι) :
    Slot ι × Nat :=
  if deadlineAtMs ≤ now then (purge now lock, 0)
  else if purge now lock = none then (cell token (now + ttlMs), 1)
  else (purge now lock, 2)

def renewLock (now : Nat) (token : ι) (lock : Slot ι) : Slot ι × Nat :=
  if content (purge now lock) = some token then (expireAt (now + ttlMs) (purge now lock), 1)
  else (purge now lock, 0)

def releaseLock (now : Nat) (token : ι) (lock : Slot ι) : Slot ι × Nat :=
  if content (purge now lock) = some token then (none, 1) else (purge now lock, 0)

/-- What a call asks of Redis. -/
inductive Command
  | acquire (deadlineAtMs : Int)
  /-- The renewal of the heartbeat. -/
  | heartbeat
  /-- The renewal of an `assertOwned`. -/
  | assertOwned
  | release
  deriving DecidableEq

def Command.perform (now : Nat) (token : ι) (lock : Slot ι) : Command → Slot ι × Nat
  | .acquire deadlineAtMs => acquireLockBeforeDeadline now token deadlineAtMs lock
  | .heartbeat | .assertOwned => renewLock now token lock
  | .release => releaseLock now token lock

/-- The reply says that the caller has the lock. -/
def Command.Grants : Command → Nat → Prop
  | .acquire _, status => status = 1
  | .heartbeat, renewed | .assertOwned, renewed => 0 < renewed
  | .release, _ => False

/-! ## The lease of one call -/

/-- `LockLease` and the variables of `startHeartbeat`. The causes of errors are not kept. -/
structure Lease where
  conservativeExpiresAtMs : Int
  stopped : Bool := false
  /-- The date of the timer, when one is set. -/
  timer : Option Int := none
  /-- `renewal` is pending. -/
  renewing : Bool := false
  /-- `leaseLostError` is set. -/
  lost : Bool := false
  deriving DecidableEq

namespace Lease

def markLeaseLost (lease : Lease) : Lease := { lease with lost := true }

def recordSuccessfulRenewal (date renewalStartedAtMs : Int) (lease : Lease) : Lease × Bool :=
  if renewalStartedAtMs + ttlMs ≤ date then (lease.markLeaseLost, false)
  else
    ({ lease with
        conservativeExpiresAtMs := max lease.conservativeExpiresAtMs (renewalStartedAtMs + ttlMs) },
      true)

def assertNotExpired (date : Int) (lease : Lease) : Lease × Bool :=
  if lease.lost then (lease, false)
  else if lease.conservativeExpiresAtMs ≤ date then (lease.markLeaseLost, false)
  else (lease, true)

def schedule (date requestedDelayMs : Int) (lease : Lease) : Lease :=
  let remainingLeaseMs := lease.conservativeExpiresAtMs - date
  if lease.stopped || lease.lost then lease
  else if remainingLeaseMs ≤ 0 then lease.markLeaseLost
  else { lease with timer := some (date + max 1 (min requestedDelayMs remainingLeaseMs)) }

/-- The lease of an acquisition, and `startHeartbeat`. -/
def start (date acquisitionStartedAtMs : Int) : Lease :=
  schedule date heartbeatMs { conservativeExpiresAtMs := acquisitionStartedAtMs + ttlMs }

/-- The callback of the timer, and whether it renews. -/
def beat (date : Int) (lease : Lease) : Lease × Bool :=
  if lease.stopped || lease.lost then ({ lease with timer := none }, false)
  else if lease.conservativeExpiresAtMs ≤ date then
    ({ lease with timer := none }.markLeaseLost, false)
  else ({ lease with timer := none, renewing := true }, true)

/-- The heartbeat after the answer to its renewal. -/
def beatAnswered (date renewalStartedAtMs : Int) (renewed : Nat) (lease : Lease) : Lease :=
  let ended := { lease with renewing := false }
  if renewed = 0 then ended.markLeaseLost
  else match ended.recordSuccessfulRenewal date renewalStartedAtMs with
    | (recorded, true) => recorded.schedule date heartbeatMs
    | (recorded, false) => recorded

/-- The heartbeat after a transport error. -/
def beatFailed (date : Int) (lease : Lease) : Lease :=
  let ended := { lease with renewing := false }
  if ended.conservativeExpiresAtMs ≤ date then ended.markLeaseLost
  else ended.schedule date heartbeatRetryMs

/-- `assertOwned` after the answer to its renewal, and whether it resolves. -/
def assertAnswered (date renewalStartedAtMs : Int) (renewed : Nat) (lease : Lease) : Lease × Bool :=
  if renewed = 0 then (lease.markLeaseLost, false)
  else match lease.recordSuccessfulRenewal date renewalStartedAtMs with
    | (recorded, true) => recorded.assertNotExpired date
    | (recorded, false) => (recorded, false)

/-- `stop` up to its `await`. -/
def halt (lease : Lease) : Lease := { lease with stopped := true, timer := none }

/-- `stop` after its `await`. -/
def settle (date : Int) (lease : Lease) : Lease :=
  if !lease.lost && lease.conservativeExpiresAtMs ≤ date then lease.markLeaseLost else lease

end Lease

/-! ## Calls, requests and steps -/

/-- What `runExclusive` throws, or `assertOwned`. -/
inductive Failure
  /-- The `TypeError` of `normalizeWaitTimeoutMs`. -/
  | invalidWaitTimeout
  | busy
  | unavailable
  | leaseLost
  /-- The error of the operation. -/
  | operation
  deriving DecidableEq

/-- Where a call that has acquired the lock is. -/
inductive Stage
  | operating
  /-- In `heartbeat.stop()`. -/
  | stopping (operationFailed : Bool)
  /-- In `releaseLock`. -/
  | releasing (operationFailed leaseLostError : Bool)
  | over
  deriving DecidableEq

inductive Call
  | idle
  /-- In `acquireLockBeforeDeadline`. -/
  | acquiring (deadlineAtMs : Int)
  /-- Between two attempts. -/
  | waiting (deadlineAtMs resumeAtMs : Int)
  | leased (lease : Lease) (stage : Stage)
  | refused
  deriving DecidableEq

structure Request (ι : Type) where
  owner : ι
  command : Command
  startedAtMs : Int
  /-- The last reply of Redis. -/
  reply : Option Nat := none
  /-- The caller still waits. -/
  awaited : Bool := true
  deriving DecidableEq

def Request.Granted (request : Request ι) : Prop :=
  ∃ status, request.reply = some status ∧ request.command.Grants status

/-- The key of the member, the calls, and every request sent so far. The token
of a call is its index. -/
structure World (ι : Type) where
  lock : Slot ι := none
  call : ι → Call := fun _ => .idle
  wire : List (Request ι) := []

def World.init : World ι := {}

def World.setCall (world : World ι) (i : ι) (call : Call) : World ι :=
  { world with call := Function.update world.call i call }

def World.send (world : World ι) (request : Request ι) : World ι :=
  { world with wire := world.wire ++ [request] }

/-- The caller of request `n` has its answer. -/
def World.heard (world : World ι) (n : Nat) : World ι :=
  { world with wire := world.wire.modify n fun request => { request with awaited := false } }

inductive Event (ι : Type)
  | runExclusive (i : ι) (waitTimeoutMs : Option Rat)
  /-- Redis performs request `n`. -/
  | perform (n : Nat)
  /-- The reply to request `n` arrives. -/
  | reply (n : Nat)
  /-- The client of request `n` reports an error. -/
  | error (n : Nat)
  /-- The wait between two attempts ends. -/
  | resume (i : ι)
  /-- The timer of the heartbeat fires. -/
  | beat (i : ι)
  /-- Whoever has the guard of call `i` calls it. -/
  | assertOwned (i : ι)
  /-- The operation settles. -/
  | settle (i : ι) (failed : Bool)
  /-- No renewal of the heartbeat is pending. -/
  | stop (i : ι)
  deriving DecidableEq

inductive Outcome (ι : Type)
  | silent
  | performed (owner : ι) (command : Command) (reply : Nat)
  /-- The operation is called. -/
  | entered (i : ι)
  /-- An `assertOwned` resolves; its renewal was started at this date. -/
  | resolved (i : ι) (renewalStartedAtMs : Int)
  | rejected (i : ι) (error : Failure)
  /-- `runExclusive` returns the result of the operation. -/
  | returned (i : ι)
  | threw (i : ι) (error : Failure)
  deriving DecidableEq

def normalizeWaitTimeoutMs : Option Rat → Option Int
  | none => some defaultWaitTimeoutMs
  | some value => if value < 0 then none else some ⌊value⌋

/-- One round of the loop of `acquireRedisLock`. -/
def attempt (date : Int) (i : ι) (deadlineAtMs : Int) (world : World ι) : World ι × Outcome ι :=
  -- `acquireLockBeforeDeadline` refuses such a deadline before it asks Redis
  if deadlineAtMs ≤ 0 then (world.setCall i .refused, .threw i .unavailable)
  else
    ((world.setCall i (.acquiring deadlineAtMs)).send
      { owner := i, command := .acquire deadlineAtMs, startedAtMs := date }, .silent)

/-- `acquireRedisLock` after the status of an attempt. -/
def acquireAnswered (date : Int) (i : ι) (deadlineAtMs startedAtMs : Int) (status : Nat)
    (world : World ι) : World ι × Outcome ι :=
  if status = 1 then
    (world.setCall i (.leased (Lease.start date startedAtMs) .operating), .entered i)
  else if status = 0 then (world.setCall i .refused, .threw i .busy)
  else if status ≠ 2 then (world.setCall i .refused, .threw i .unavailable)
  else if deadlineAtMs ≤ date then (world.setCall i .refused, .threw i .busy)
  else
    (world.setCall i
      (.waiting deadlineAtMs (date + max 1 (min retryDelayMs (deadlineAtMs - date)))), .silent)

/-- The end of `runExclusive`. -/
def finish (i : ι) (operationFailed leaseLostError : Bool) : Outcome ι :=
  if operationFailed then .threw i .operation
  else if leaseLostError then .threw i .leaseLost
  else .returned i

/-- The caller goes on with the reply. -/
def answered (date : Int) (request : Request ι) (status : Nat) (world : World ι) :
    World ι × Outcome ι :=
  let i := request.owner
  match request.command, world.call i with
  | .acquire _, .acquiring deadlineAtMs =>
    acquireAnswered date i deadlineAtMs request.startedAtMs status world
  | .heartbeat, .leased lease stage =>
    (world.setCall i (.leased (lease.beatAnswered date request.startedAtMs status) stage), .silent)
  | .assertOwned, .leased lease stage =>
    match lease.assertAnswered date request.startedAtMs status with
    | (next, true) => (world.setCall i (.leased next stage), .resolved i request.startedAtMs)
    | (next, false) => (world.setCall i (.leased next stage), .rejected i .leaseLost)
  | .release, .leased lease (.releasing operationFailed leaseLostError) =>
    (world.setCall i (.leased lease .over), finish i operationFailed leaseLostError)
  | _, _ => (world, .silent)

/-- The caller goes on after a transport error. -/
def failed (date : Int) (request : Request ι) (world : World ι) : World ι × Outcome ι :=
  let i := request.owner
  match request.command, world.call i with
  | .acquire _, .acquiring _ => (world.setCall i .refused, .threw i .unavailable)
  | .heartbeat, .leased lease stage =>
    (world.setCall i (.leased (lease.beatFailed date) stage), .silent)
  | .assertOwned, .leased _ _ => (world, .rejected i .unavailable)
  -- the release is only logged
  | .release, .leased lease (.releasing operationFailed leaseLostError) =>
    (world.setCall i (.leased lease .over), finish i operationFailed leaseLostError)
  | _, _ => (world, .silent)

/-- `guard.assertOwned` up to its renewal. -/
def assertOwned (date : Int) (i : ι) (lease : Lease) (stage : Stage) (world : World ι) :
    World ι × Outcome ι :=
  match lease.assertNotExpired date with
  | (next, false) => (world.setCall i (.leased next stage), .rejected i .leaseLost)
  | (next, true) =>
    ((world.setCall i (.leased next stage)).send
      { owner := i, command := .assertOwned, startedAtMs := date }, .silent)

/-- One step at `now` on the clock of Redis. The clock of call `i` shows `now + offset i`. -/
def step (offset : ι → Int) (now : Nat) (event : Event ι) (world : World ι) :
    World ι × Outcome ι :=
  match event with
  | .runExclusive i waitTimeoutMs =>
    match world.call i, normalizeWaitTimeoutMs waitTimeoutMs with
    | .idle, none => (world.setCall i .refused, .threw i .invalidWaitTimeout)
    | .idle, some waitTimeoutMs =>
      attempt (now + offset i) i (now + offset i + max 1 waitTimeoutMs) world
    | _, _ => (world, .silent)
  | .perform n =>
    match world.wire[n]? with
    | none => (world, .silent)
    | some request =>
      -- the client sends a request again only while it waits
      if request.reply.isSome && !request.awaited then (world, .silent)
      else
        let (lock, status) := request.command.perform now request.owner world.lock
        ({ world with lock, wire := world.wire.set n { request with reply := some status } },
          .performed request.owner request.command status)
  | .reply n =>
    match world.wire[n]? with
    | some { awaited := true, reply := some status, owner, command, startedAtMs } =>
      answered (now + offset owner) { owner, command, startedAtMs } status (world.heard n)
    | _ => (world, .silent)
  | .error n =>
    match world.wire[n]? with
    | some { awaited := true, reply, owner, command, startedAtMs } =>
      failed (now + offset owner) { owner, command, startedAtMs, reply } (world.heard n)
    | _ => (world, .silent)
  | .resume i =>
    match world.call i with
    | .waiting deadlineAtMs resumeAtMs =>
      if now + offset i < resumeAtMs then (world, .silent)
      else attempt (now + offset i) i deadlineAtMs world
    | _ => (world, .silent)
  | .beat i =>
    match world.call i with
    | .leased lease stage =>
      if lease.timer.any fun date => date ≤ now + offset i then
        match lease.beat (now + offset i) with
        | (next, true) =>
          ((world.setCall i (.leased next stage)).send
            { owner := i, command := .heartbeat, startedAtMs := now + offset i }, .silent)
        | (next, false) => (world.setCall i (.leased next stage), .silent)
      else (world, .silent)
    | _ => (world, .silent)
  | .assertOwned i =>
    match world.call i with
    | .leased lease stage => assertOwned (now + offset i) i lease stage world
    | _ => (world, .silent)
  | .settle i operationFailed =>
    match world.call i with
    | .leased lease .operating =>
      (world.setCall i (.leased lease.halt (.stopping operationFailed)), .silent)
    | _ => (world, .silent)
  | .stop i =>
    match world.call i with
    | .leased lease (.stopping operationFailed) =>
      if lease.renewing then (world, .silent)
      else
        let next := lease.settle (now + offset i)
        ((world.setCall i (.leased next (.releasing operationFailed next.lost))).send
          { owner := i, command := .release, startedAtMs := now + offset i }, .silent)
    | _ => (world, .silent)

end Maxim.Moderation.SanctionStateLock
