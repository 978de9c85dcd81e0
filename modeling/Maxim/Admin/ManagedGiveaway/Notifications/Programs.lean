import Maxim.Admin.ManagedGiveaway.Winners.Programs

/-!
# The outbox of winner notifications

One row of the outbox, and the calls that write it. A worker claims the row,
lets the client await `beforeSend`, and then records what became of the send. A
statement may fail before or after it has written. The clock, the results and
the answers of the client are part of the call, and the client sends once, after
`beforeSend`, or not at all.
-/

namespace Maxim.Admin.ManagedGiveaway.Notifications

open Maxim.Library

variable {α : Type}

def GIVEAWAY_WINNER_NOTIFICATION_MAX_ATTEMPTS : Nat := 5

def GIVEAWAY_WINNER_NOTIFICATION_RETRY_BASE_MS : Nat := 30000

def GIVEAWAY_WINNER_NOTIFICATION_RETRY_MAX_MS : Nat := 30 * 60000

def winnerNotificationRetryDelayMs (attemptCount : Nat) : Nat :=
  min GIVEAWAY_WINNER_NOTIFICATION_RETRY_MAX_MS
    (GIVEAWAY_WINNER_NOTIFICATION_RETRY_BASE_MS * 2 ^ min 10 (attemptCount - 1))

/-- The row, and what it is joined with. -/
structure Outbox where
  notification : Notification
  winnerStatus : WinnerStatus
  giveawayStatus : Status
  deriving DecidableEq, Repr

/-! ## Statements -/

def isOpen (status : NotificationStatus) : Bool := status = .pending ∨ status = .retryable

/-- `OR: [{ lockedAt: null }, { lockedAt: { lt: staleLockBefore } }]`. -/
def unlocked (now : Nat) (n : Notification) : Bool :=
  n.lockedAt.all (· + GIVEAWAY_LOCK_STALE_MS < now)

inductive Update
  | expireDispatch (now : Nat)
  | failExhausted (now : Nat)
  | defer (deferredAt : Nat)
  | claim (status : NotificationStatus) (attemptStartedAt leaseAt : Nat)
  | beforeSend (status : NotificationStatus) (leaseAt : Nat)
  | complete (leaseAt completedAt : Nat)
  | ambiguous (status : NotificationStatus) (leaseAt : Nat)
  | release (status : NotificationStatus) (leaseAt failedAt attemptCount : Nat)
  deriving DecidableEq, Repr

def Update.guard : Update → Notification → Bool
  | .expireDispatch now, n =>
    n.status = .dispatching ∧ n.lockedAt.any (· + GIVEAWAY_LOCK_STALE_MS < now)
  | .failExhausted now, n => isOpen n.status ∧
    GIVEAWAY_WINNER_NOTIFICATION_MAX_ATTEMPTS ≤ n.attemptCount ∧ unlocked now n
  | .defer deferredAt, n => isOpen n.status ∧ n.nextAttemptAt ≤ deferredAt ∧ unlocked deferredAt n
  | .claim status attemptStartedAt _, n => n.status = status ∧ n.nextAttemptAt ≤ attemptStartedAt ∧
    n.attemptCount < GIVEAWAY_WINNER_NOTIFICATION_MAX_ATTEMPTS ∧ unlocked attemptStartedAt n
  | .beforeSend status leaseAt, n => n.status = status ∧ n.lockedAt = some leaseAt
  | .complete leaseAt _, n => n.status = .dispatching ∧ n.lockedAt = some leaseAt
  | .ambiguous status leaseAt, n =>
    n.lockedAt = some leaseAt ∧ (n.status = status ∨ n.status = .dispatching)
  | .release status leaseAt _ _, n => n.status = status ∧ n.lockedAt = some leaseAt

def Update.data : Update → Notification → Notification
  | .expireDispatch _, n => { n with status := .ambiguous, lockedAt := none }
  | .failExhausted _, n => { n with status := .failedTerminal, lockedAt := none }
  | .defer deferredAt, n =>
    { n with nextAttemptAt := deferredAt + GIVEAWAY_WINNER_NOTIFICATION_RETRY_BASE_MS }
  | .claim _ _ leaseAt, n => { n with lockedAt := some leaseAt, attemptCount := n.attemptCount + 1 }
  | .beforeSend _ _, n => { n with status := .dispatching }
  | .complete _ completedAt, n =>
    { n with status := .sent, lockedAt := none, nextAttemptAt := completedAt }
  | .ambiguous _ _, n => { n with status := .ambiguous, lockedAt := none }
  | .release _ _ failedAt attemptCount, n =>
    if GIVEAWAY_WINNER_NOTIFICATION_MAX_ATTEMPTS ≤ attemptCount then
      { n with status := .failedTerminal, nextAttemptAt := failedAt, lockedAt := none }
    else
      { n with status := .retryable
               nextAttemptAt := failedAt + winnerNotificationRetryDelayMs attemptCount
               lockedAt := none }

/-- What a reroll makes of the row of the winner that it replaces. -/
def cancel (now : Nat) (n : Notification) : Notification :=
  if isOpen n.status then { n with status := .canceled, lockedAt := none, nextAttemptAt := now } else n

theorem reroll_cancels {υ ρ : Type} [DecidableEq υ] (s : Records υ ρ) (r : Winners.Reroll υ ρ) :
    (r.write s).notifications =
      (s.notifications.map fun n => if n.winnerId = r.winnerId then cancel r.now n else n) ++
        [{ winnerId := r.nextWinnerId, nextAttemptAt := r.now }] := by
  refine congrArg (· ++ _) (List.map_congr_left fun n _ => ?_)
  by_cases hid : n.winnerId = r.winnerId <;> simp [hid, cancel, isOpen]

inductive Op
  | update (u : Update) (fate : Fate)
  /-- `inBatch`: the row is on the page of the statement. -/
  | findDue (now : Nat) (inBatch : Bool) (error : Option String)
  | findWinner
  | send
  | reroll (status : WinnerStatus) (now : Nat) (fate : Fate)

def Op.Reply : Op → Type
  | .update _ _ => Except String Bool
  | .findDue _ _ _ => Except String (Option Notification)
  | .findWinner => WinnerStatus
  | .send => Unit
  | .reroll _ _ _ => Option String

def isDue (now : Nat) (s : Outbox) : Bool :=
  isOpen s.notification.status ∧ s.notification.nextAttemptAt ≤ now ∧
    s.notification.attemptCount < GIVEAWAY_WINNER_NOTIFICATION_MAX_ATTEMPTS ∧
    unlocked now s.notification ∧ s.winnerStatus ≠ .rerolled ∧ s.giveawayStatus = .completed

/-- Whether a statement has written, or its error. -/
def Fate.answer (fate : Fate) (found : Bool) : Except String Bool :=
  match fate with
  | .committed => .ok found
  | .lost error | .rolledBack error => .error error

def updateMany (s : Outbox) (u : Update) (fate : Fate) : Outbox × Except String Bool :=
  (if fate.commits ∧ u.guard s.notification then
      { s with notification := u.data s.notification }
    else s, Fate.answer fate (u.guard s.notification))

/-- The transaction of a reroll, as far as it concerns the row. -/
def rerolled (s : Outbox) (status : WinnerStatus) (now : Nat) (fate : Fate) :
    Outbox × Option String :=
  if s.winnerStatus = status then
    (if fate.commits then
        { s with winnerStatus := .rerolled, notification := cancel now s.notification }
      else s,
      match fate with
      | .committed => none
      | .lost error | .rolledBack error => some error)
  else (s, some "P2025")

def Op.run : (e : Op) → Outbox → Outbox × e.Reply
  | .update u fate, s => updateMany s u fate
  | .findDue now inBatch error, s =>
    (s, match error with
      | some error => .error error
      | none => .ok (if inBatch ∧ isDue now s then some s.notification else none))
  | .findWinner, s => (s, s.winnerStatus)
  | .send, s => (s, ())
  | .reroll status now fate, s => rerolled s status now fate

abbrev Service (α : Type) := Prog Op Op.Reply String α

def write (u : Update) (fate : Fate) : Service (Except String Bool) := Prog.perform (Op.update u fate)

def findDue (now : Nat) (inBatch : Bool) (error : Option String) :
    Service (Except String (Option Notification)) := Prog.perform (Op.findDue now inBatch error)

def findWinner : Service WinnerStatus := Prog.perform Op.findWinner

def sendMessage : Service Unit := Prog.perform Op.send

def reroll (status : WinnerStatus) (now : Nat) (fate : Fate) : Service (Option String) :=
  Prog.perform (Op.reroll status now fate)

/-! ## Calls -/

/-- An error, and what `wasMaxMessageSendAttempted` says of it. -/
structure SendError where
  message : String
  attempted : Bool

/-- One attempt: its clock, the fates of its statements and the answers of the client. -/
structure AttemptInputs where
  attemptStartedAt : Nat
  leaseAt : Nat
  claim : Fate
  /-- The bot, the text and the options, and what the client does before it awaits `beforeSend`. -/
  prepared : Except SendError Unit
  beforeSend : Fate
  /-- Of the error that the client throws on when `beforeSend` has thrown. -/
  attempted : Bool
  sent : Except SendError String
  completedAt : Nat
  complete : Fate
  completedAgainAt : Nat
  completeAgain : Fate
  failedAt : Nat
  fail : Fate

structure OutboxInputs where
  now : Nat
  /-- The ids that the call is for have the row among them. -/
  selected : Bool
  expire : Fate
  exhaust : Fate
  inBatch : Bool
  findError : Option String
  synchronizeResultsBeforeDispatch : Bool
  resultsConfirmed : Bool
  deferredAt : Nat
  defer : Fate
  dispatchNow : Nat
  refreshError : Option String
  attempt : AttemptInputs

structure RerollInputs where
  now : Nat
  /-- The giveaway is completed and there is a candidate. -/
  ready : Bool
  fate : Fate

/-- What a worker does after an error. -/
def settleFailure (notification : Notification) (i : AttemptInputs) (attempted : Bool) :
    Service Unit := do
  let _ ←
    if attempted then write (.ambiguous notification.status i.leaseAt) i.fail
    else write (.release notification.status i.leaseAt i.failedAt (notification.attemptCount + 1)) i.fail
  pure ()

/-- What a worker does after the client has answered with a message id. -/
def settleSent (notification : Notification) (i : AttemptInputs) (messageId : String) :
    Service Unit := do
  let saved ← write (.complete i.leaseAt i.completedAt) i.complete
  match saved with
  | .ok _ => pure ()
  | .error _ =>
    if messageId ≠ "" then do
      let _ ← write (.complete i.leaseAt i.completedAgainAt) i.completeAgain
      pure ()
    else settleFailure notification i true

/-- `processWinnerNotification`. Its errors are logged by `processWinnerNotifications`. -/
def processWinnerNotification (notification : Notification) (i : AttemptInputs) : Service Unit := do
  let claimed ← write (.claim notification.status i.attemptStartedAt i.leaseAt) i.claim
  match claimed with
  | .error _ | .ok false => pure ()
  | .ok true =>
    match i.prepared with
    | .error error => settleFailure notification i error.attempted
    | .ok () => do
      let transitioned ← write (.beforeSend notification.status i.leaseAt) i.beforeSend
      match transitioned with
      | .error _ | .ok false => settleFailure notification i i.attempted
      | .ok true => do
        sendMessage
        match i.sent with
        | .error _ => settleFailure notification i true
        | .ok messageId => settleSent notification i messageId

def synchronizeResultsAndProcess (i : OutboxInputs) : Service Unit :=
  if i.resultsConfirmed then do
    let refreshed ← findDue i.dispatchNow true i.refreshError
    match refreshed with
    | .error _ | .ok none => pure ()
    | .ok (some notification) => processWinnerNotification notification i.attempt
  else do
    let _ ← write (.defer i.deferredAt) i.defer
    pure ()

def processWinnerNotificationOutbox (i : OutboxInputs) : Service Unit :=
  if i.selected then do
    let expired ← write (.expireDispatch i.now) i.expire
    match expired with
    | .error _ => pure ()
    | .ok _ => do
      let exhausted ← write (.failExhausted i.now) i.exhaust
      match exhausted with
      | .error _ => pure ()
      | .ok _ => do
        let notifications ← findDue i.now i.inBatch i.findError
        match notifications with
        | .error _ | .ok none => pure ()
        | .ok (some notification) =>
          if i.synchronizeResultsBeforeDispatch then synchronizeResultsAndProcess i
          else processWinnerNotification notification i.attempt
  else pure ()

def rerollManagedGiveawayWinner (i : RerollInputs) : Service Unit := do
  let status ← findWinner
  if status ≠ .selected ∧ status ≠ .claimed ∧ status ≠ .expired ∨ ¬i.ready then
    .fail "Реролл доступен только для актуального или просроченного места."
  else do
    let error ← reroll status i.now i.fate
    match error with
    | some error => .fail error
    | none => pure ()

inductive Call
  | outbox (i : OutboxInputs)
  | reroll (i : RerollInputs)

def Call.program : Call → Service Unit
  | .outbox i => processWinnerNotificationOutbox i
  | .reroll i => rerollManagedGiveawayWinner i

end Maxim.Admin.ManagedGiveaway.Notifications
