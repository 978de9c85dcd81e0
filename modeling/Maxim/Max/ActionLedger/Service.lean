import Maxim.Library.Interleave
import Maxim.Max.ActionLedger.Operations

/-!
# The methods of the MAX action ledger

Every method is a program over the operations of the ledger. Clock readings,
fresh tokens and the outcome of checks outside the ledger are arguments of the
call. An error is what the ledger reads of it.
-/

namespace Maxim.Max.ActionLedger

open Maxim.Library

structure Thrown where
  message : String
  unrecoverable : Bool := false
  code : Option String := none
  ledgerFinalized : Bool := false
  guardRejected : Bool := false
  deriving DecidableEq

/-- An error that a method is given: what `extractStatusCode`, `extractErrorCode` and
`extractErrorMessage` read of it, and its marks. -/
structure Failure where
  statusCode : Option Nat
  errorCode : Option String
  message : String
  saysAmbiguousMax : Bool := false
  unrecoverable : Bool := false
  ledgerFinalized : Bool := false
  guardRejected : Bool := false
  sendAttempted : Bool := false
  memberAttempted : Bool := false
  memberConfirmed : Bool := false
  autoDeleteVerification : Option String := none
  deriving DecidableEq

abbrev Service (α : Type) := Prog Op Op.Answer Thrown α

abbrev await (op : Op) : Service op.Answer := Prog.perform op

def unrecoverable (message : String) : Thrown := { message, unrecoverable := true }

inductive Claim
  | claimed (dispatchToken : String)
  | recovered (remoteMessageId : String) (dispatchBotId : Option String) (completedAt : Option Nat)
  deriving DecidableEq

structure Completed where
  remoteMessageId : String
  dispatchBotId : Option String
  completedAt : Option Nat
  deriving DecidableEq

inductive Recovery
  | ready (jobId : String)
  | noFreshAccess (jobId : String)
  | unsafePriorProvenance (jobId : String)
  deriving DecidableEq

/-! ## Reading a row -/

def readCompletedSendDispatchFromState (job : Job) (state : Option Row) :
    Except Thrown (Option Completed) :=
  if job.actionType ≠ .sendMessage then .ok none
  else
    match nullableString (state.bind Row.remoteMessageId) with
    | none => .ok none
    | some remoteMessageId =>
      let dispatchBotId := nullableString (state.bind Row.dispatchBotId)
      match nullableString job.requiredBotId with
      | some requiredBotId =>
        if dispatchBotId ≠ some requiredBotId then
          .error (unrecoverable ("Completed MAX SEND_MESSAGE " ++ job.idempotencyKey ++
            " is not bound to required bot " ++ requiredBotId))
        else .ok (some ⟨remoteMessageId, dispatchBotId, state.bind Row.completedAt⟩)
      | none => .ok (some ⟨remoteMessageId, dispatchBotId, state.bind Row.completedAt⟩)

def liftExcept {α : Type} : Except Thrown α → Service α
  | .ok a => .ret a
  | .error e => .fail e

def isLegacyPreDispatchNoRouteSendState (job : Job) (row : Row) : Bool :=
  job.actionType == .sendMessage && isLegacyPreDispatchNoRouteRow job.chatId row

def isLegacyManagedBroadcastPreDispatchSendState (job : Job) (row : Row) : Bool :=
  if job.actionType != .sendMessage ||
      !"managed-broadcast:send:".toList.isPrefixOf job.idempotencyKey.toList ||
      row.status != .failedTerminal || row.ambiguous || !row.terminal ||
      row.lastStatusCode.isSome || !row.unfenced then false
  else
    let lastError := trim (row.lastError.getD "")
    row.lastErrorCode.isNone && lowerCase lastError == LEGACY_MANAGED_BROADCAST_UPLOAD_ERROR ||
      row.lastErrorCode == some LEGACY_PRE_DISPATCH_WATCHDOG_ERROR_CODE &&
        lastError == LEGACY_PRE_DISPATCH_WATCHDOG_ERROR

def isExecutableCrashFencedMemberState (row : Row) : Bool :=
  if row.terminal || row.ambiguous then false
  else if row.status == .enqueued then true
  else if row.status != .failedRetryable then false
  else
    let errorCode := lowerCase (trim (row.lastErrorCode.getD ""))
    MAX_MEMBER_ACTION_PRE_DISPATCH_RETRY_ERROR_CODES.contains errorCode || row.unattempted

/-! ## Reading an error -/

def isMaxMutationOutcomeAmbiguous (e : Failure) (requireAttempt : Bool) : Bool :=
  let attempted := e.memberAttempted || e.sendAttempted
  if e.memberConfirmed then true
  else if requireAttempt && !attempted then e.saysAmbiguousMax
  else if e.statusCode.any (fun c => c == 408 || decide (500 ≤ c)) then true
  else if attempted && e.statusCode.isNone then true
  else e.saysAmbiguousMax

def hasMaxInsufficientRightsMessage (message : String) : Bool :=
  ["insufficient rights", "not enough rights", "does not have sufficient rights",
    "doesn't have sufficient rights", "do not have sufficient rights",
    "don't have sufficient rights", "does not have enough rights", "doesn't have enough rights",
    "do not have enough rights", "don't have enough rights"].any
    (includes (lowerCase (trim message)))

def saysAlreadyDeleted (message : String) : Bool :=
  includes message "already deleted" || includes message "already been deleted"

def isAmbiguousFailure (job : Job) (e : Failure) : Bool :=
  isMaxMutationOutcomeAmbiguous e true ||
    job.actionType.crashFenced && e.memberAttempted &&
      e.statusCode.any (fun c => decide (500 ≤ c ∧ c ≤ 599))

def isIntrinsicallyTerminalFailure (job : Job) (e : Failure) : Bool :=
  if e.statusCode == some 404 || e.errorCode == some "chat.not.found" then true
  else if (job.actionType.crashFenced || job.actionType == .unbanMember) &&
      e.statusCode == some 200 &&
      (saysAlreadyDeleted e.message || hasMaxInsufficientRightsMessage e.message) then true
  else job.actionType == .sendMessage && includes e.message "max upload payload is missing"

def isProvenMemberPreDispatchFailure (job : Job) (e : Failure) : Bool :=
  job.actionType.crashFenced && e.guardRejected && !e.memberAttempted

def isProvenSendPreDispatchFailure (job : Job) (e : Failure) : Bool :=
  job.actionType == .sendMessage && e.guardRejected && !e.sendAttempted &&
    !isMaxMutationOutcomeAmbiguous e true

def extractPersistedFailureErrorCode (job : Job) (e : Failure) : Option String :=
  if isProvenSendPreDispatchFailure job e then some MAX_SEND_PRE_DISPATCH_GUARD_REJECTED_CODE
  else if isProvenMemberPreDispatchFailure job e then
    some MAX_MEMBER_PRE_DISPATCH_GUARD_REJECTED_CODE
  else if job.actionType.crashFenced && e.statusCode == some 429 then
    some "max_api_external_rate_limit"
  else if truthy e.errorCode then e.errorCode
  else if !job.actionType.crashFenced then none
  else
    match saysAlreadyDeleted e.message, hasMaxInsufficientRightsMessage e.message with
    | true, true => some "max_member_already_deleted_or_insufficient_rights"
    | true, false => some "max_member_already_deleted"
    | false, true => some "max_member_insufficient_rights"
    | false, false =>
      match e.statusCode with
      | some c => some (truncate ("max_http_" ++ toString c) 128)
      | none =>
        if job.actionType = .tryUnbanMember then some "max_member_unban_attempt_failed"
        else if job.actionType = .kickMember then some "max_kick_member_failed"
        else some "max_ban_member_failed"

/-- The diagnostic of a verified auto-delete, for the deletions that carry its marker. -/
def readAutoDeleteVerificationDiagnostic (job : Job) (e : Failure) : Option String :=
  if job.actionType = .deleteMessage ∧ job.sendAutoDelete.isSome then e.autoDeleteVerification
  else none

/-! ## Mutations -/

def normalizeEnqueuedAt (value : Option Nat) (upperBound : Nat) : Option Nat :=
  value.map fun v => min v upperBound

def startedMutation (enqueuedAt : Option Nat) (now : Nat) : Mutation where
  status := .inProgress
  ambiguous := false
  terminal := false
  enqueuedAt := (normalizeEnqueuedAt enqueuedAt now).map some
  firstAttemptAt := some (some now)
  lastAttemptAt := some (some now)
  completedAt := some none
  incrementAttempt := true

def succeededMutation (now : Nat) : Mutation where
  status := .succeeded
  ambiguous := false
  terminal := true
  completedAt := some (some now)
  lastStatusCode := some none
  lastErrorCode := some none
  lastError := some none

def skippedMutation (reason : String) (now : Nat) : Mutation where
  status := .skipped
  ambiguous := false
  terminal := true
  completedAt := some (some now)
  lastError := some (some (truncate reason 2000))

def failedMutation (job : Job) (e : Failure) (exhausted : Bool) (now : Nat) : Mutation :=
  let autoDelete := readAutoDeleteVerificationDiagnostic job e
  let sendPreDispatch := isProvenSendPreDispatchFailure job e
  let ambiguous := isAmbiguousFailure job e
  let intrinsicallyTerminal := !ambiguous && !sendPreDispatch &&
    !isProvenMemberPreDispatchFailure job e && isIntrinsicallyTerminalFailure job e
  let terminal := ambiguous || intrinsicallyTerminal || e.unrecoverable || exhausted
  { status :=
      if ambiguous then .ambiguous
      else if terminal && (e.unrecoverable || intrinsicallyTerminal) then .failedTerminal
      else .failedRetryable
    ambiguous
    terminal
    completedAt := some (if terminal then some now else none)
    lastStatusCode := some (if autoDelete.isSome || sendPreDispatch then none else e.statusCode)
    lastErrorCode := some (match autoDelete with
      | some kind => some ("send_auto_delete_exact_verification_" ++ kind)
      | none => extractPersistedFailureErrorCode job e)
    lastError := some (some (match autoDelete with
      | some kind => "Send-side auto-delete exact presence verification failed (" ++ kind ++ ")"
      | none => e.message)) }

def enqueuedMutation (enqueuedAt : Option Nat) (recordedAt : Nat) : Mutation where
  status := .enqueued
  ambiguous := false
  terminal := false
  enqueuedAt := some (some ((normalizeEnqueuedAt enqueuedAt recordedAt).getD recordedAt))
  completedAt := some none
  lastStatusCode := some none
  lastErrorCode := some none
  lastError := some none

def enqueueFailedMutation (job : Job) (e : Failure) : Mutation where
  status := .failedRetryable
  ambiguous := false
  terminal := false
  completedAt := some none
  lastStatusCode := some e.statusCode
  lastErrorCode := some (extractPersistedFailureErrorCode job e)
  lastError := some (some e.message)

def enqueueAmbiguousMutation (e : Failure) (now : Nat) : Mutation where
  status := .ambiguous
  ambiguous := true
  terminal := true
  completedAt := some (some now)
  lastStatusCode := some none
  lastErrorCode := some (some "queue.enqueue_ambiguous")
  lastError := some (some e.message)

/-! ## Checks before enqueueing and executing -/

def clearLegacySend (job : Job) (op : Op) (h : op.Answer = Bool) (kind : String) : Service Unit :=
  (await op).bind fun cleared =>
    if cast h cleared = true then .ret ()
    else .fail (unrecoverable ("Legacy " ++ kind ++ " ledger entry " ++ job.idempotencyKey ++
      " changed before recovery"))

/-- The two legacy failures that may be cleared before a retry; `none` when the row is neither. -/
def clearLegacyStates (job : Job) (row : Row) : Option (Service Unit) :=
  if isLegacyPreDispatchNoRouteSendState job row then
    some (clearLegacySend job (.clearNoRoute job) rfl "pre-dispatch MAX SEND_MESSAGE")
  else if isLegacyManagedBroadcastPreDispatchSendState job row then
    some (clearLegacySend job (.clearManagedBroadcast job) rfl "managed-broadcast pre-dispatch")
  else none

def assertCanEnqueue (job : Job) : Service Unit :=
  if job.actionType.irreversible = false then .ret ()
  else
    (await (.read job.idempotencyKey)).bind fun
      | none => .ret ()
      | some row =>
        match clearLegacyStates job row with
        | some clear => clear
        | none =>
          if job.actionType.crashFenced then
            if isExecutableCrashFencedMemberState row then .ret ()
            else .fail (unrecoverable ("Retained MAX " ++ job.actionType.name ++
              " ledger entry " ++ job.idempotencyKey ++ " is no longer executable (" ++
              row.status.name ++ ")"))
          else
            (liftExcept (readCompletedSendDispatchFromState job (some row))).bind fun
              | some _ => .ret ()
              | none =>
                if truthy row.dispatchToken || row.dispatchStartedAt.isSome then
                  .fail (unrecoverable ("Retained unresolved MAX " ++ job.actionType.name ++
                    " dispatch " ++ job.idempotencyKey ++
                    " requires manual review before retry"))
                else if job.actionType = .sendMessage ∧ row.terminal = true then
                  .fail (unrecoverable ("Retained terminal MAX SEND_MESSAGE ledger entry " ++
                    job.idempotencyKey ++ " has no recoverable remote message id"))
                else if !row.ambiguous || !row.terminal || row.status != .ambiguous then .ret ()
                else .fail (unrecoverable ("Retained ambiguous MAX " ++ job.actionType.name ++
                  " ledger entry " ++ job.idempotencyKey ++
                  " requires manual review before retry"))

def notExecutable (job : Job) (row : Row) : Thrown :=
  unrecoverable ("MAX " ++ job.actionType.name ++ " ledger entry " ++ job.idempotencyKey ++
    " is no longer executable (" ++ row.status.name ++ ")")

def changedBeforeClaim (job : Job) : Thrown :=
  unrecoverable ("MAX " ++ job.actionType.name ++ " ledger entry " ++ job.idempotencyKey ++
    " changed before execution claim")

def assertCanExecute (job : Job) : Service Unit :=
  (await (.read job.idempotencyKey)).bind fun
    | none => .ret ()
    | some row =>
      (liftExcept (readCompletedSendDispatchFromState job (some row))).bind fun
        | some _ => .ret ()
        | none =>
          match clearLegacyStates job row with
          | some clear => clear
          | none =>
            if job.actionType.crashFenced then
              if isExecutableCrashFencedMemberState row then .ret ()
              else .fail (notExecutable job row)
            else if row.unsettled && StartKind.plain.executable row &&
                (job.actionType != .sendMessage ||
                  (!truthy row.dispatchToken && row.dispatchStartedAt.isNone)) then .ret ()
            else .fail (notExecutable job row)

/-! ## Enqueue records -/

def recordEnqueuedIfAbsent (job : Job) (enqueuedAt : Option Nat) (recordedAt : Nat) :
    Service Unit :=
  (await (.createIfAbsent job (enqueuedMutation enqueuedAt recordedAt))).bind fun created =>
    if created = true then .ret ()
    else (await (.enqueueState job [.failedRetryable]
      (enqueuedMutation enqueuedAt recordedAt))).bind fun _ => .ret ()

def recordEnqueueFailedIfAbsent (job : Job) (e : Failure) : Service Unit :=
  (await (.createIfAbsent job (enqueueFailedMutation job e))).bind fun _ => .ret ()

def recordEnqueueAmbiguousIfAbsent (job : Job) (e : Failure) (now : Nat) : Service Unit :=
  (await (.createIfAbsent job (enqueueAmbiguousMutation e now))).bind fun created =>
    if created = true then .ret ()
    else (await (.enqueueState job [.enqueued, .failedRetryable]
      (enqueueAmbiguousMutation e now))).bind fun _ => .ret ()

/-! ## Starts -/

/-- `updateStartedRowPreservingFirstAttempt` outside a transaction. -/
def updateStarted (kind : StartKind) (job : Job) (m : Mutation) : Service Bool :=
  (await (.startFirst kind job m)).bind fun first =>
    if first = true then .ret true else await (.startAgain kind job m)

def recordProtectedSendTransition (job : Job) (m : Mutation) : Service Unit :=
  (await (.createIfAbsent job m)).bind fun _ =>
    (updateStarted .send job m).bind fun updated =>
      if updated = true then .ret ()
      else
        (await (.read job.idempotencyKey)).bind fun row =>
          (liftExcept (readCompletedSendDispatchFromState job row)).bind fun
            | some _ => .ret ()
            | none => (assertCanExecute job).bind fun _ => .fail (changedBeforeClaim job)

def recordGuardedStart (job : Job) (m : Mutation) : Service Unit :=
  (updateStarted .plain job m).bind fun updated =>
    if updated = true then .ret ()
    else
      (await (.createStarted job m)).bind fun created =>
        if created = true then .ret ()
        else
          (updateStarted .plain job m).bind fun updated =>
            if updated = true then .ret ()
            else (assertCanExecute job).bind fun _ => .fail (changedBeforeClaim job)

/-- `recordStarted`; `held` is a permanent hold that the check inside the transaction finds. -/
def recordStarted (job : Job) (enqueuedAt : Option Nat) (now : Nat) (held : Bool) : Service Unit :=
  let m := startedMutation enqueuedAt now
  if job.actionType = .sendMessage then recordProtectedSendTransition job m
  else if job.actionType.crashFenced then
    if trim (job.userId.getD "") = "" ∨ trim job.chatId = "" then
      .fail (unrecoverable "Member action requires an exact chat and user")
    else
      (await (.startMember job m held)).bind fun
        | .started => .ret ()
        | .held => .fail { message := "held", guardRejected := true }
        | .blocked => .fail
          { message := "Retained member action requires settlement before another bot or " ++
              "operation can act"
            code := some MAX_MEMBER_PRE_DISPATCH_GUARD_REJECTED_CODE
            guardRejected := true }
        | .notExecutable (some row) =>
          if isExecutableCrashFencedMemberState row then .fail (changedBeforeClaim job)
          else .fail (notExecutable job row)
        | .notExecutable none => .fail (changedBeforeClaim job)
  else recordGuardedStart job m

/-! ## Outcomes -/

def assertSendAction (job : Job) : Service Unit :=
  if job.actionType = .sendMessage then .ret ()
  else .fail
    { message := "Dispatch fence is only valid for SEND_MESSAGE, received " ++
        job.actionType.name }

def preparedSendFailure (jobId : String) (row : Option Row) : Thrown :=
  match row with
  | none =>
    { unrecoverable ("MAX SEND_MESSAGE ledger row is missing before dispatch " ++ jobId) with
      code := some "MAX_SEND_LEDGER_PREPARATION_MISSING_ROW" }
  | some row =>
    if row.remoteMessageId.isSome then
      { unrecoverable ("MAX SEND_MESSAGE ledger entry " ++ jobId ++
          " already has a remote message id; refusing another dispatch") with
        code := some "MAX_SEND_LEDGER_PREPARATION_ALREADY_COMPLETED", ledgerFinalized := true }
    else if row.terminal || row.ambiguous || row.status == .succeeded || row.status == .skipped ||
        row.status == .ambiguous || row.status == .failedTerminal then
      { unrecoverable ("MAX SEND_MESSAGE ledger entry " ++ jobId ++
          " is terminal or ambiguous before dispatch") with
        code := some "MAX_SEND_LEDGER_PREPARATION_TERMINAL_OR_AMBIGUOUS", ledgerFinalized := true }
    else if row.dispatchToken.isSome || row.dispatchStartedAt.isSome ||
        row.dispatchBotId.isSome then
      { unrecoverable ("MAX SEND_MESSAGE ledger entry " ++ jobId ++
          " already has a dispatch fence; refusing another dispatch") with
        code := some "MAX_SEND_LEDGER_PREPARATION_DISPATCH_FENCE_EXISTS", ledgerFinalized := true }
    else
      { unrecoverable ("MAX SEND_MESSAGE ledger entry " ++ jobId ++
          " is in an unexpected state before dispatch") with
        code := some "MAX_SEND_LEDGER_PREPARATION_UNEXPECTED_STATE" }

def recordPrepared (job : Job) : Service Unit :=
  (assertSendAction job).bind fun _ =>
    (await (.prepare job)).bind fun prepared =>
      if prepared = true then .ret ()
      else
        (await (.read job.idempotencyKey)).bind fun row =>
          (liftExcept (readCompletedSendDispatchFromState job row)).bind fun
            | some _ => .ret ()
            | none => .fail (preparedSendFailure job.idempotencyKey row)

def recordSucceeded (job : Job) (now : Nat) : Service Unit :=
  if job.sendAutoDelete.any (fun verified => job.actionType != .deleteMessage || !verified) then
    .fail { message := "Refusing to mark unverified send-side auto-delete " ++
      job.idempotencyKey ++ " as succeeded" }
  else if job.actionType = .sendMessage then
    (await (.createIfAbsent job (succeededMutation now))).bind fun _ =>
      (await (.succeed job (succeededMutation now))).bind fun _ => .ret ()
  else (await (.upsert job (succeededMutation now))).bind fun _ => .ret ()

def recordSkipped (job : Job) (reason : String) (now : Nat) : Service Unit :=
  (await (.upsert job (skippedMutation reason now))).bind fun _ => .ret ()

def recordFailed (job : Job) (e : Failure) (exhausted : Bool) (now : Nat) : Service Unit :=
  if e.ledgerFinalized then .ret ()
  else if job.actionType = .sendMessage then
    (await (.createIfAbsent job (failedMutation job e exhausted now))).bind fun _ =>
      (await (.settleFailure job (failedMutation job e exhausted now))).bind fun _ => .ret ()
  else (await (.upsert job (failedMutation job e exhausted now))).bind fun _ => .ret ()

/-! ## The dispatch fence -/

def requireDispatchToken (value : String) : Service String :=
  match nullableString (some value) with
  | some token => .ret token
  | none => .fail { message := "dispatchToken is required for MAX SEND_MESSAGE dispatch fence" }

def recordAmbiguousSendDispatch (job : Job) (dispatchToken : String) (error : ErrorColumns)
    (now : Nat) : Service Bool :=
  (assertSendAction job).bind fun _ =>
    (requireDispatchToken dispatchToken).bind fun token =>
      await (.quarantine job.idempotencyKey token error now)

/-- One attempt to claim: a fresh token and the clock readings of the attempt. -/
structure ClaimAttempt where
  dispatchToken : String
  startedAt : Nat
  quarantinedAt : Nat
  deriving DecidableEq

def claimFenceError (job : Job) : Thrown :=
  unrecoverable ("Ambiguous MAX SEND_MESSAGE dispatch fence for job " ++ job.idempotencyKey ++
    " requires manual review before retry")

/-- One turn of the loop of `claimSendDispatch`; `none` is `continue`. -/
def claimOnce (job : Job) (botId : String) (a : ClaimAttempt) : Service (Option Claim) :=
  (await (.claim job.idempotencyKey a.dispatchToken a.startedAt botId)).bind fun claimed =>
    if claimed = true then .ret (some (.claimed a.dispatchToken))
    else
      (await (.read job.idempotencyKey)).bind fun row =>
        (liftExcept (readCompletedSendDispatchFromState job row)).bind fun
          | some c => .ret (some (.recovered c.remoteMessageId c.dispatchBotId c.completedAt))
          | none =>
            let error := claimFenceError job
            let finalized := { error with ledgerFinalized := true }
            match row.bind Row.dispatchToken with
            | some token =>
              if token = "" then
                if row.any (fun r => r.ambiguous && r.terminal) then .fail finalized
                else .fail error
              else
                (recordAmbiguousSendDispatch job token
                  ⟨none, none, some (truncate (lowerCase (trim error.message)) 2000)⟩
                  a.quarantinedAt).bind fun quarantined =>
                  if quarantined = true then .fail finalized else .ret none
            | none =>
              if row.any (fun r => r.ambiguous && r.terminal) then .fail finalized
              else .fail error

def claimSendDispatch (job : Job) (botId : String) (first second : ClaimAttempt) : Service Claim :=
  (assertSendAction job).bind fun _ =>
    match nullableString (some botId) with
    | none => .fail
      { message := "botId is required to claim MAX SEND_MESSAGE dispatch " ++ job.idempotencyKey }
    | some bot =>
      (claimOnce job bot first).bind fun
        | some c => .ret c
        | none =>
          (claimOnce job bot second).bind fun
            | some c => .ret c
            | none =>
              (await (.read job.idempotencyKey)).bind fun row =>
                (liftExcept (readCompletedSendDispatchFromState job row)).bind fun
                  | some c => .ret (.recovered c.remoteMessageId c.dispatchBotId c.completedAt)
                  | none => .fail (unrecoverable
                    ("Ambiguous MAX SEND_MESSAGE dispatch fence race for job " ++
                      job.idempotencyKey ++ " requires manual review"))

/-- `completeSendDispatch`; `fault` is a lost answer of the update, and `failure` its error. -/
def completeSendDispatch (job : Job) (dispatchToken remoteMessageId : String) (now : Nat)
    (fault : Option Bool) (failure : Thrown) : Service (Option Nat) :=
  (assertSendAction job).bind fun _ =>
    (requireDispatchToken dispatchToken).bind fun token =>
      match nullableString (some remoteMessageId) with
      | none => .fail
        { message := "remoteMessageId is required to complete MAX SEND_MESSAGE " ++
            job.idempotencyKey }
      | some remote =>
        (await (.complete job.idempotencyKey token remote now fault)).bind fun
          | some true => .ret (some now)
          | some false =>
            (await (.read job.idempotencyKey)).bind fun row =>
              (liftExcept (readCompletedSendDispatchFromState job row)).bind fun recovered =>
                match recovered.filter (fun c => c.remoteMessageId == remote) with
                | some c => .ret c.completedAt
                | none => .fail (unrecoverable
                  ("Ambiguous MAX SEND_MESSAGE completion fence for job " ++
                    job.idempotencyKey ++ ": remote message id was not persisted"))
          | none =>
            (await (.read job.idempotencyKey)).bind fun row =>
              (liftExcept (readCompletedSendDispatchFromState job row)).bind fun recovered =>
                match recovered.filter (fun c => c.remoteMessageId == remote) with
                | some c => .ret c.completedAt
                | none => .fail failure

def releaseSendDispatch (job : Job) (dispatchToken : String) : Service Unit :=
  (assertSendAction job).bind fun _ =>
    (requireDispatchToken dispatchToken).bind fun token =>
      (await (.release job.idempotencyKey token)).bind fun released =>
        if released = true then .ret ()
        else
          (await (.read job.idempotencyKey)).bind fun row =>
            (liftExcept (readCompletedSendDispatchFromState job row)).bind fun completed =>
              if completed.isSome || !truthy (row.bind Row.dispatchToken) then .ret ()
              else .fail
                { message := "MAX SEND_MESSAGE dispatch fence changed before release for " ++
                    job.idempotencyKey }

/-! ## The night-mode retry -/

def buildNightModeNoticeIdempotencyKey (opens : Bool) (chatId sessionKey : String) : String :=
  "night-mode:" ++ (if opens then "open" else "close") ++ ":" ++ trim chatId ++ ":session:" ++
    trim sessionKey

/-- `prepareDefinitivelyRejectedNightModeTransitionRetry`; `freshAccess` is what the membership
query of the transaction finds. -/
def prepareRetry (chatId sessionKey : String) (opens : Bool) (actionableBotIds : List String)
    (freshAccess : Bool) (now : Nat) : Service Recovery :=
  let chat := trim chatId
  let jobId := buildNightModeNoticeIdempotencyKey opens chat (trim sessionKey)
  let botIds := (actionableBotIds.map trim).filter (· ≠ "")
  if chat = "" ∨ trim sessionKey = "" ∨ botIds = [] then .ret (.noFreshAccess jobId)
  else
    (await (.prepareRetry ⟨jobId, chat, getNightModeTransitionAccessRecoveryMarker opens, now⟩
      freshAccess)).bind fun
      | none => .ret (.noFreshAccess jobId)
      | some true => .ret (.ready jobId)
      | some false => .ret (.unsafePriorProvenance jobId)

/-! ## Calls -/

inductive Call
  | prepareRetry (chatId sessionKey : String) (opens : Bool) (actionableBotIds : List String)
      (freshAccess : Bool) (now : Nat)
  | assertCanEnqueue (job : Job)
  | assertCanExecute (job : Job)
  | recordEnqueuedIfAbsent (job : Job) (enqueuedAt : Option Nat) (recordedAt : Nat)
  | recordEnqueueFailedIfAbsent (job : Job) (e : Failure)
  | recordEnqueueAmbiguousIfAbsent (job : Job) (e : Failure) (now : Nat)
  | recordStarted (job : Job) (enqueuedAt : Option Nat) (now : Nat) (held : Bool)
  | recordPrepared (job : Job)
  | recordSucceeded (job : Job) (now : Nat)
  | recordSkipped (job : Job) (reason : String) (now : Nat)
  | claimSendDispatch (job : Job) (botId : String) (first second : ClaimAttempt)
  | completeSendDispatch (job : Job) (dispatchToken remoteMessageId : String) (now : Nat)
      (fault : Option Bool) (failure : Thrown)
  | releaseSendDispatch (job : Job) (dispatchToken : String)
  | recordAmbiguousSendDispatch (job : Job) (dispatchToken : String) (error : ErrorColumns)
      (now : Nat)
  | recordFailed (job : Job) (e : Failure) (exhausted : Bool) (now : Nat)
  deriving DecidableEq

inductive Result
  | done
  | claim (c : Claim)
  | completedAt (at_ : Option Nat)
  | quarantined (b : Bool)
  | recovery (r : Recovery)
  deriving DecidableEq

def Call.program : Call → Service Result
  | .prepareRetry chatId sessionKey opens botIds freshAccess now =>
    (ActionLedger.prepareRetry chatId sessionKey opens botIds freshAccess now).bind
      fun r => .ret (.recovery r)
  | .assertCanEnqueue job => (ActionLedger.assertCanEnqueue job).bind fun _ => .ret .done
  | .assertCanExecute job => (ActionLedger.assertCanExecute job).bind fun _ => .ret .done
  | .recordEnqueuedIfAbsent job enqueuedAt recordedAt =>
    (ActionLedger.recordEnqueuedIfAbsent job enqueuedAt recordedAt).bind fun _ => .ret .done
  | .recordEnqueueFailedIfAbsent job e =>
    (ActionLedger.recordEnqueueFailedIfAbsent job e).bind fun _ => .ret .done
  | .recordEnqueueAmbiguousIfAbsent job e now =>
    (ActionLedger.recordEnqueueAmbiguousIfAbsent job e now).bind fun _ => .ret .done
  | .recordStarted job enqueuedAt now held =>
    (ActionLedger.recordStarted job enqueuedAt now held).bind fun _ => .ret .done
  | .recordPrepared job => (ActionLedger.recordPrepared job).bind fun _ => .ret .done
  | .recordSucceeded job now => (ActionLedger.recordSucceeded job now).bind fun _ => .ret .done
  | .recordSkipped job reason now =>
    (ActionLedger.recordSkipped job reason now).bind fun _ => .ret .done
  | .claimSendDispatch job botId first second =>
    (ActionLedger.claimSendDispatch job botId first second).bind fun c => .ret (.claim c)
  | .completeSendDispatch job token remote now fault failure =>
    (ActionLedger.completeSendDispatch job token remote now fault failure).bind
      fun d => .ret (.completedAt d)
  | .releaseSendDispatch job token =>
    (ActionLedger.releaseSendDispatch job token).bind fun _ => .ret .done
  | .recordAmbiguousSendDispatch job token error now =>
    (ActionLedger.recordAmbiguousSendDispatch job token error now).bind
      fun b => .ret (.quarantined b)
  | .recordFailed job e exhausted now =>
    (ActionLedger.recordFailed job e exhausted now).bind fun _ => .ret .done

end Maxim.Max.ActionLedger
