import Maxim.Library.Text
import Mathlib.Data.List.AList

/-!
# Rows of the MAX action ledger

One row for each job, found by the idempotency key of the job. A mutation
names the columns it writes: a column is left out, set to null or set to a
value.
-/

namespace Maxim.Max.ActionLedger

open Maxim.Library

inductive ActionType
  | deleteMessage
  | sendMessage
  | kickMember
  | banMember
  | unbanMember
  | tryUnbanMember
  | notifyModerators
  deriving DecidableEq, Repr

inductive Status
  | enqueued
  | inProgress
  | succeeded
  | skipped
  | ambiguous
  | failedRetryable
  | failedTerminal
  deriving DecidableEq, Repr

def ActionType.name : ActionType → String
  | .deleteMessage => "DELETE_MESSAGE"
  | .sendMessage => "SEND_MESSAGE"
  | .kickMember => "KICK_MEMBER"
  | .banMember => "BAN_MEMBER"
  | .unbanMember => "UNBAN_MEMBER"
  | .tryUnbanMember => "TRY_UNBAN_MEMBER"
  | .notifyModerators => "NOTIFY_MODERATORS"

def Status.name : Status → String
  | .enqueued => "ENQUEUED"
  | .inProgress => "IN_PROGRESS"
  | .succeeded => "SUCCEEDED"
  | .skipped => "SKIPPED"
  | .ambiguous => "AMBIGUOUS"
  | .failedRetryable => "FAILED_RETRYABLE"
  | .failedTerminal => "FAILED_TERMINAL"

def ActionType.irreversible : ActionType → Bool
  | .sendMessage | .kickMember | .banMember | .tryUnbanMember => true
  | _ => false

def ActionType.crashFenced : ActionType → Bool
  | .kickMember | .banMember | .tryUnbanMember => true
  | _ => false

/-- What the ledger reads of a job. `sendAutoDelete` is the marker, and whether it is verified. -/
structure Job where
  idempotencyKey : String
  actionType : ActionType
  chatId : String
  botId : Option String := none
  messageId : Option String := none
  userId : Option String := none
  sourceTag : Option String := none
  trafficClass : Option String := none
  actionHealthLane : Option String := none
  attempt : Nat := 0
  sendAutoDelete : Option Bool := none
  requiredBotId : Option String := none
  deriving DecidableEq

structure Row where
  actionType : ActionType
  chatId : String
  botId : Option String
  messageId : Option String
  userId : Option String
  sourceTag : Option String
  trafficClass : Option String
  actionHealthLane : Option String
  status : Status := .enqueued
  ambiguous : Bool := false
  terminal : Bool := false
  attemptCount : Nat := 0
  lastStatusCode : Option Nat := none
  lastErrorCode : Option String := none
  lastError : Option String := none
  dispatchToken : Option String := none
  dispatchStartedAt : Option Nat := none
  dispatchBotId : Option String := none
  remoteMessageId : Option String := none
  enqueuedAt : Option Nat := none
  firstAttemptAt : Option Nat := none
  lastAttemptAt : Option Nat := none
  completedAt : Option Nat := none
  deriving DecidableEq

/-- `MaxActionLedgerMutation`: a column that is left out is `none`, null is `some none`. -/
structure Mutation where
  status : Status
  ambiguous : Bool
  terminal : Bool
  enqueuedAt : Option (Option Nat) := none
  firstAttemptAt : Option (Option Nat) := none
  lastAttemptAt : Option (Option Nat) := none
  completedAt : Option (Option Nat) := none
  lastStatusCode : Option (Option Nat) := none
  lastErrorCode : Option (Option String) := none
  lastError : Option (Option String) := none
  incrementAttempt : Bool := false
  deriving DecidableEq

def buildCreateInput (job : Job) : Row where
  actionType := job.actionType
  chatId := job.chatId
  botId := nullableString job.botId
  messageId := nullableString job.messageId
  userId := nullableString job.userId
  sourceTag := nullableString job.sourceTag
  trafficClass := nullableString job.trafficClass
  actionHealthLane := nullableString job.actionHealthLane

def buildUpdateInput (job : Job) (row : Row) : Row :=
  { row with
    actionType := job.actionType
    chatId := job.chatId
    botId := nullableString job.botId
    messageId := nullableString job.messageId
    userId := nullableString job.userId
    sourceTag := nullableString job.sourceTag
    trafficClass := nullableString job.trafficClass
    actionHealthLane := nullableString job.actionHealthLane }

def buildPlainMutationInput (m : Mutation) (row : Row) : Row :=
  { row with
    status := m.status
    ambiguous := m.ambiguous
    terminal := m.terminal
    enqueuedAt := m.enqueuedAt.getD row.enqueuedAt
    firstAttemptAt := m.firstAttemptAt.getD row.firstAttemptAt
    lastAttemptAt := m.lastAttemptAt.getD row.lastAttemptAt
    completedAt := m.completedAt.getD row.completedAt
    lastStatusCode := m.lastStatusCode.getD row.lastStatusCode
    lastErrorCode := m.lastErrorCode.getD row.lastErrorCode
    lastError := m.lastError.getD row.lastError }

/-- The update of a job under a mutation, without the attempt count. -/
def recordData (job : Job) (m : Mutation) (row : Row) : Row :=
  buildPlainMutationInput m (buildUpdateInput job row)

/-- The same update, with the attempt counted if the mutation says so. -/
def startData (job : Job) (m : Mutation) (row : Row) : Row :=
  { recordData job m row with
    attemptCount := if m.incrementAttempt then row.attemptCount + 1 else row.attemptCount }

/-- No dispatch has ever been claimed for the row, or the claim was released. -/
def Row.unfenced (row : Row) : Bool :=
  row.dispatchToken.isNone && row.dispatchStartedAt.isNone && row.dispatchBotId.isNone &&
    row.remoteMessageId.isNone

def Row.unsettled (row : Row) : Bool := !row.ambiguous && !row.terminal

def Row.unattempted (row : Row) : Bool :=
  row.attemptCount == 0 && row.firstAttemptAt.isNone && row.lastAttemptAt.isNone && row.unfenced

abbrev Ledger := AList fun _ : String => Row

/-- `updateMany` on one job: the row that meets the condition is rewritten, and counted. -/
def Ledger.update (l : Ledger) (jobId : String) (guard : Row → Bool) (data : Row → Row) :
    Ledger × Bool :=
  match l.lookup jobId with
  | some row => if guard row then (l.insert jobId (data row), true) else (l, false)
  | none => (l, false)

/-- `createMany` with `skipDuplicates`. -/
def Ledger.createIfAbsent (l : Ledger) (jobId : String) (row : Row) : Ledger × Bool :=
  match l.lookup jobId with
  | some _ => (l, false)
  | none => (l.insert jobId row, true)

/-- `deleteMany` on one job. -/
def Ledger.delete (l : Ledger) (jobId : String) (guard : Row → Bool) : Ledger × Bool :=
  match l.lookup jobId with
  | some row => if guard row then (l.erase jobId, true) else (l, false)
  | none => (l, false)

def Ledger.upsert (l : Ledger) (jobId : String) (create : Row) (data : Row → Row) : Ledger :=
  match l.lookup jobId with
  | some row => l.insert jobId (data row)
  | none => l.insert jobId create

theorem Ledger.update_cases (l : Ledger) (jobId : String) (guard : Row → Bool)
    (data : Row → Row) :
    l.update jobId guard data = (l, false) ∨ ∃ row, l.lookup jobId = some row ∧
      guard row = true ∧ l.update jobId guard data = (l.insert jobId (data row), true) := by
  unfold Ledger.update
  split
  · next row hrow =>
    split
    · next hg => exact .inr ⟨row, hrow, hg, rfl⟩
    · exact .inl rfl
  · exact .inl rfl

theorem Ledger.createIfAbsent_cases (l : Ledger) (jobId : String) (row : Row) :
    l.createIfAbsent jobId row = (l, false) ∨
      l.lookup jobId = none ∧ l.createIfAbsent jobId row = (l.insert jobId row, true) := by
  unfold Ledger.createIfAbsent
  split
  · exact .inl rfl
  · next hnone => exact .inr ⟨hnone, rfl⟩

theorem Ledger.delete_cases (l : Ledger) (jobId : String) (guard : Row → Bool) :
    l.delete jobId guard = (l, false) ∨ ∃ row, l.lookup jobId = some row ∧
      guard row = true ∧ l.delete jobId guard = (l.erase jobId, true) := by
  unfold Ledger.delete
  split
  · next row hrow =>
    split
    · next hg => exact .inr ⟨row, hrow, hg, rfl⟩
    · exact .inl rfl
  · exact .inl rfl

end Maxim.Max.ActionLedger

/-!
## The operations of the MAX action ledger

Every statement that the ledger service awaits is one operation: a conditional
update, an insertion that skips duplicates, an upsert, a deletion, a read, or
the transaction that starts a crash-fenced member action.
-/

namespace Maxim.Max.ActionLedger

open Maxim.Library

def LEGACY_PRE_DISPATCH_WATCHDOG_ERROR_CODE : String := "ledger.watchdog.pre_dispatch_orphan"

def LEGACY_PRE_DISPATCH_WATCHDOG_ERROR : String :=
  "Pre-dispatch MAX SEND_MESSAGE ledger entry has no retained dispatch fence; " ++
    "BullMQ states missing. The action was not requeued."

def LEGACY_MANAGED_BROADCAST_UPLOAD_ERROR : String :=
  "не удалось загрузить видео: max upload payload is missing"

def NIGHT_MODE_TRANSITION_SOURCE_TAG : String := "night_mode_transition"

def MAX_MEMBER_PRE_DISPATCH_GUARD_REJECTED_CODE : String := "max_member_pre_dispatch_guard_rejected"

def MAX_SEND_PRE_DISPATCH_GUARD_REJECTED_CODE : String := "max_send_pre_dispatch_guard_rejected"

def MAX_MEMBER_ACTION_PRE_DISPATCH_RETRY_ERROR_CODES : List String :=
  ["max_api_circuit_open", "max_api_internal_rate_limit", "max_api_external_rate_limit",
    "moderation_sanction_state_lock_lease_lost", "moderation_sanction_state_lock_unavailable",
    MAX_MEMBER_PRE_DISPATCH_GUARD_REJECTED_CODE]

/-- `getNightModeTransitionAccessRecoveryMarker`; `true` stands for the opening transition. -/
def getNightModeTransitionAccessRecoveryMarker (opens : Bool) : String :=
  if opens then "Night mode open retry prepared after a definitive access rejection"
  else "Night mode close retry prepared after a definitive access rejection"

def buildMaxActionNoExecutableRouteMessage (actionType : ActionType) (chatId : String) : String :=
  "MAX " ++ actionType.name ++ " has no executable routed bot candidate for chat " ++ chatId

/-- The condition under which a start may take over an existing row. -/
inductive StartKind
  | send
  | member
  | plain
  deriving DecidableEq

def StartKind.executable : StartKind → Row → Bool
  | .send, row => row.unfenced
  | .member, row =>
    row.status == .enqueued || row.status == .failedRetryable &&
      (row.lastErrorCode.any (· ∈ MAX_MEMBER_ACTION_PRE_DISPATCH_RETRY_ERROR_CODES) ||
        row.unattempted)
  | .plain, row =>
    row.status == .enqueued || row.status == .inProgress || row.status == .failedRetryable

def StartKind.guard (kind : StartKind) (row : Row) : Bool := kind.executable row && row.unsettled

/-- The reply of the transaction that starts a member action. -/
inductive StartReply
  | held
  | blocked
  | started
  | notExecutable (row : Option Row)
  deriving DecidableEq

/-- Arguments of the update that prepares a rejected night-mode notice for another attempt. -/
structure NightModeRetry where
  jobId : String
  chatId : String
  recoveryMarker : String
  now : Nat
  deriving DecidableEq

/-- What a failed send leaves in the columns of the last error. -/
structure ErrorColumns where
  statusCode : Option Nat
  errorCode : Option String
  error : Option String
  deriving DecidableEq

/-- `fault` of `complete` is the answer lost on the way, after or before the update is applied. -/
inductive Op
  | read (jobId : String)
  | createIfAbsent (job : Job) (m : Mutation)
  | createStarted (job : Job) (m : Mutation)
  | startFirst (kind : StartKind) (job : Job) (m : Mutation)
  | startAgain (kind : StartKind) (job : Job) (m : Mutation)
  | startMember (job : Job) (m : Mutation) (held : Bool)
  | prepare (job : Job)
  | succeed (job : Job) (m : Mutation)
  | settleFailure (job : Job) (m : Mutation)
  | enqueueState (job : Job) (statuses : List Status) (m : Mutation)
  | upsert (job : Job) (m : Mutation)
  | claim (jobId token : String) (startedAt : Nat) (botId : String)
  | complete (jobId token remoteMessageId : String) (completedAt : Nat) (fault : Option Bool)
  | release (jobId token : String)
  | quarantine (jobId token : String) (error : ErrorColumns) (completedAt : Nat)
  | clearNoRoute (job : Job)
  | clearManagedBroadcast (job : Job)
  | prepareRetry (r : NightModeRetry) (freshAccess : Bool)

/-- The answer of an operation: a row, the reply of a transaction, or whether a row was counted.
A lost answer is `none`. -/
abbrev Op.Answer : Op → Type
  | .read _ => Option Row
  | .startMember _ _ _ => StartReply
  | .complete _ _ _ _ _ => Option Bool
  | .prepareRetry _ _ => Option Bool
  | _ => Bool

/-- The row that `recordGuardedStart` creates. -/
def startedRow (job : Job) (m : Mutation) : Row :=
  { buildPlainMutationInput m (buildCreateInput job) with attemptCount := max 1 job.attempt }

def withoutFirstAttempt (m : Mutation) : Mutation := { m with firstAttemptAt := none }

def Ledger.startFirst (l : Ledger) (kind : StartKind) (job : Job) (m : Mutation) : Ledger × Bool :=
  l.update job.idempotencyKey (fun row => kind.guard row && row.firstAttemptAt.isNone)
    (startData job m)

def Ledger.startAgain (l : Ledger) (kind : StartKind) (job : Job) (m : Mutation) : Ledger × Bool :=
  l.update job.idempotencyKey (fun row => kind.guard row && row.firstAttemptAt.isSome)
    (startData job (withoutFirstAttempt m))

/-- `updateStartedRowPreservingFirstAttempt` inside one transaction. -/
def Ledger.updateStarted (l : Ledger) (kind : StartKind) (job : Job) (m : Mutation) :
    Ledger × Bool :=
  let (l', updated) := l.startFirst kind job m
  if updated then (l', true) else l.startAgain kind job m

/-- A row of another job that must be settled before the member action may start. -/
def Row.blocks (job : Job) (jobId : String) (row : Row) : Bool :=
  row.chatId == job.chatId && row.userId == job.userId && jobId != job.idempotencyKey &&
    row.actionType.crashFenced &&
    (row.status == .inProgress || row.ambiguous ||
      (job.actionType != .tryUnbanMember && row.actionType == .banMember &&
        row.status == .succeeded))

/-- The transaction of `recordStarted`, under the lock of the chat and the user. `held` is a
permanent hold on the action. -/
def Ledger.startMember (l : Ledger) (job : Job) (m : Mutation) (held : Bool) :
    Ledger × StartReply :=
  if held then (l, .held)
  else if l.entries.any (fun e => e.2.blocks job e.1) then (l, .blocked)
  else
    match l.updateStarted .member job m with
    | (l', true) => (l', .started)
    | (_, false) =>
      match l.createIfAbsent job.idempotencyKey (startedRow job m) with
      | (l', true) => (l', .started)
      | (_, false) => (l, .notExecutable (l.lookup job.idempotencyKey))

def isLegacyPreDispatchNoRouteRow (chatId : String) (row : Row) : Bool :=
  row.status == .failedTerminal && !row.ambiguous && row.terminal && row.lastStatusCode.isNone &&
    row.lastErrorCode.isNone &&
    row.lastError == some (buildMaxActionNoExecutableRouteMessage .sendMessage chatId) &&
    row.unfenced

/-- The last error of the deletion that clears a legacy broadcast failure. -/
def isClearableManagedBroadcastError (row : Row) : Bool :=
  row.lastErrorCode.isNone &&
      row.lastError.any (fun e => lowerCase e == LEGACY_MANAGED_BROADCAST_UPLOAD_ERROR) ||
    row.lastErrorCode == some LEGACY_PRE_DISPATCH_WATCHDOG_ERROR_CODE &&
      row.lastError == some LEGACY_PRE_DISPATCH_WATCHDOG_ERROR

/-- A night-mode notice whose rejection by MAX is definitive, or that is already prepared. -/
def NightModeRetry.applies (r : NightModeRetry) (row : Row) : Bool :=
  row.actionType == .sendMessage && row.chatId == r.chatId &&
    row.sourceTag == some NIGHT_MODE_TRANSITION_SOURCE_TAG && !row.ambiguous && row.unfenced &&
    (row.lastStatusCode.any (fun c => c == 403 || c == 404) ||
      row.lastStatusCode.isNone &&
        row.lastErrorCode.any (· ∈ ["access.denied", "chat.denied", "chat.not.found"])) &&
    (row.status == .failedTerminal && row.terminal && decide (1 ≤ row.attemptCount) &&
        row.firstAttemptAt.isSome && row.lastAttemptAt.isSome && row.completedAt.isSome ||
      row.status == .enqueued && !row.terminal && row.attemptCount == 0 &&
        row.enqueuedAt.isSome && row.firstAttemptAt.isNone && row.lastAttemptAt.isNone &&
        row.completedAt.isNone && row.lastError == some r.recoveryMarker)

def NightModeRetry.data (r : NightModeRetry) (row : Row) : Row :=
  { row with
    status := .enqueued, ambiguous := false, terminal := false, attemptCount := 0
    enqueuedAt := some r.now, firstAttemptAt := none, lastAttemptAt := none, completedAt := none
    lastError := some r.recoveryMarker
    dispatchToken := none, dispatchStartedAt := none, dispatchBotId := none
    remoteMessageId := none }

/-- The claim of a dispatch that holds the fence and has no remote message yet. -/
def Row.claimedBy (token : String) (row : Row) : Bool :=
  row.dispatchToken == some token && row.remoteMessageId.isNone

def completeData (remoteMessageId : String) (completedAt : Nat) (row : Row) : Row :=
  { row with
    remoteMessageId := some remoteMessageId, status := .succeeded, ambiguous := false
    terminal := true, completedAt := some completedAt, lastStatusCode := none
    lastErrorCode := none, lastError := none }

def releaseData (row : Row) : Row :=
  { row with
    dispatchToken := none, dispatchStartedAt := none, dispatchBotId := none
    status := .inProgress, ambiguous := false, terminal := false, completedAt := none }

def quarantineData (error : ErrorColumns) (completedAt : Nat) (row : Row) : Row :=
  { row with
    status := .ambiguous, ambiguous := true, terminal := true, completedAt := some completedAt
    lastStatusCode := error.statusCode, lastErrorCode := error.errorCode, lastError := error.error }

def Op.run : (op : Op) → Ledger → Ledger × op.Answer
  | .read jobId, l => (l, l.lookup jobId)
  | .createIfAbsent job m, l =>
    l.createIfAbsent job.idempotencyKey (buildPlainMutationInput m (buildCreateInput job))
  | .createStarted job m, l => l.createIfAbsent job.idempotencyKey (startedRow job m)
  | .startFirst kind job m, l => l.startFirst kind job m
  | .startAgain kind job m, l => l.startAgain kind job m
  | .startMember job m held, l => l.startMember job m held
  | .prepare job, l =>
    l.update job.idempotencyKey (fun row => row.unfenced && row.unsettled) (buildUpdateInput job)
  | .succeed job m, l =>
    l.update job.idempotencyKey (fun row => row.remoteMessageId.isNone) (recordData job m)
  | .settleFailure job m, l =>
    l.update job.idempotencyKey (fun row => row.remoteMessageId.isNone && row.unsettled)
      (recordData job m)
  | .enqueueState job statuses m, l =>
    l.update job.idempotencyKey
      (fun row => statuses.contains row.status && row.unsettled && row.unattempted &&
        row.completedAt.isNone) (recordData job m)
  | .upsert job m, l =>
    (l.upsert job.idempotencyKey
      { buildPlainMutationInput m (buildCreateInput job) with
        attemptCount := if m.incrementAttempt then max 1 job.attempt else 0 }
      (startData job m), true)
  | .claim jobId token startedAt botId, l =>
    l.update jobId (fun row => row.unfenced && row.unsettled) fun row =>
      { row with
        dispatchToken := some token, dispatchStartedAt := some startedAt
        dispatchBotId := some botId }
  | .complete jobId token remoteMessageId completedAt fault, l =>
    match fault with
    | none =>
      let (l', counted) := l.update jobId (Row.claimedBy token)
        (completeData remoteMessageId completedAt)
      (l', some counted)
    | some true =>
      ((l.update jobId (Row.claimedBy token) (completeData remoteMessageId completedAt)).1, none)
    | some false => (l, none)
  | .release jobId token, l => l.update jobId (Row.claimedBy token) releaseData
  | .quarantine jobId token error completedAt, l =>
    l.update jobId (Row.claimedBy token) (quarantineData error completedAt)
  | .clearNoRoute job, l =>
    l.delete job.idempotencyKey fun row =>
      row.actionType == .sendMessage && row.chatId == job.chatId &&
        isLegacyPreDispatchNoRouteRow job.chatId row
  | .clearManagedBroadcast job, l =>
    l.delete job.idempotencyKey fun row =>
      row.actionType == .sendMessage && row.chatId == job.chatId &&
        row.status == .failedTerminal && !row.ambiguous && row.terminal &&
        row.lastStatusCode.isNone && row.unfenced && isClearableManagedBroadcastError row
  | .prepareRetry r freshAccess, l =>
    if freshAccess then
      let (l', counted) := l.update r.jobId r.applies r.data
      (l', some counted)
    else (l, none)

end Maxim.Max.ActionLedger
