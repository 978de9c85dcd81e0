import Maxim.Admin.ManagedGiveaway.Row
import Maxim.Library.Interleave

/-!
# The actors of a managed giveaway

Each call reads the row and updates it, with the checks of the service between
the statements. What the clock, the ledger of the routed sends and the sends
themselves answer is part of the call.
-/

namespace Maxim.Admin.ManagedGiveaway

open Maxim.Library

/-- Every operation is one statement on the row. -/
inductive Op
  | find
  | update (now : Nat) (u : Update)
  deriving DecidableEq, Repr

def Op.Reply : Op → Type
  | .find => Giveaway
  | .update _ _ => Bool

def Op.run : (e : Op) → Giveaway → Giveaway × e.Reply
  | .find, row => (row, row)
  | .update now u, row => row.update now u

inductive Result
  | done
  | published (row : Giveaway)
  | results (confirmed : Bool)
  deriving DecidableEq, Repr

abbrev Service (α : Type) := Prog Op Op.Reply String α

def find : Service Giveaway := Prog.perform Op.find

def update (now : Nat) (u : Update) : Service Bool := Prog.perform (Op.update now u)

def ROUTED_PUBLICATION_REQUIRED : String :=
  "Routed MAX publication service is required for production managed giveaways"

def CLOSE_REFUSED : String := "Завершить можно только активный или запланированный розыгрыш."

/-! ## Stale send locks -/

/-- What the ledger of the routed sends says about a send. -/
inductive Ledger
  | unavailable
  | completed (messageId : String) (botId : Option String)
  /-- `assertCanEnqueue` throws. -/
  | unresolved
  | free
  deriving DecidableEq, Repr

inductive Reconciliation
  | blocked
  | completed (messageId : String)
  | retryable
  deriving DecidableEq, Repr

/-- The services of a process: whether the sends are routed, and whether it is in production, where
they have to be. -/
structure Services where
  keys : LockKeys
  routed : Bool
  production : Bool

/-- `this.maxRoutedPublicationService ? key : null`. -/
def Services.lockKey (v : Services) (key : String) : Option String := if v.routed then some key else none

def reconcileStaleGiveawaySendLock (v : Services) (giveaway : Giveaway) (phase : Phase) (now : Nat)
    (ledger : Ledger) : Service Reconciliation :=
  let expectedLockKey := v.keys.resolveGiveawaySendLockKey giveaway phase
  match giveaway.lockedAt with
  | none => pure .blocked
  | some lockedAt =>
    if now < lockedAt + GIVEAWAY_LOCK_STALE_MS ∨
        nullableString giveaway.sendLockKey ≠ some expectedLockKey ∨ ¬v.routed then pure .blocked
    else
      match ledger with
      | .unavailable | .unresolved => pure .blocked
      | .completed messageId botId =>
        pure (if (nullableString botId).isSome then .completed messageId else .blocked)
      | .free => do
        let kept := v.keys.keptKey phase expectedLockKey
        let released ← update now (.release phase lockedAt expectedLockKey kept)
        pure (if released then .retryable else .blocked)

/-- What a send comes to: it is accepted, or it fails. A failure after the send was attempted may be
ambiguous. -/
inductive SendResult
  | accepted (messageId : Option String)
  | failed (message : String) (ambiguous : Bool)
  deriving DecidableEq, Repr

/-! ## Publication -/

structure PublishInputs where
  now : Nat
  ledger : Ledger
  recoveredAt : Nat
  retryAt : Nat
  concurrent : Bool
  lockAt : Nat
  send : SendResult
  writtenAt : Nat
  deriving DecidableEq, Repr

def nextStatus (giveaway : Giveaway) (now : Nat) : Status :=
  if giveaway.startsAt.any (now < ·) then .scheduled else .active

def publishLocked (v : Services) (i : PublishInputs) (giveaway : Giveaway) (next : Status) :
    Service Result := do
  if i.concurrent then .fail "У чата уже есть текущий розыгрыш. Завершите или отмените его."
  else if trim giveaway.description = "" then 
    .fail "Добавьте текст розыгрыша в чат-боте перед публикацией."
  else if ¬v.routed ∧ v.production then .fail ROUTED_PUBLICATION_REQUIRED
  else
    let key := v.lockKey (v.keys.buildGiveawaySendLockKey .publication)
    let locked ← update i.lockAt (.acquirePublication giveaway.updatedAt i.lockAt key)
    if ¬locked then .fail "Публикация розыгрыша уже выполняется или требует ручной проверки."
    else
      match i.send with
      | .accepted messageId => do
        let _ ← update i.writtenAt (.publish next messageId)
        pure .done
      | .failed message ambiguous => do
        if ¬ambiguous then
          let _ ← update i.writtenAt (.unlockPublication i.lockAt key)
        .fail message

def publishManagedGiveaway (v : Services) (i : PublishInputs) : Service Result := do
  let giveaway ← find
  if giveaway.status ≠ .draft then .fail "Публиковать можно только черновик розыгрыша."
  else if giveaway.lockedAt = none ∧ giveaway.endsAt ≤ i.now then
    .fail "Время завершения уже прошло. Измените сроки черновика."
  else
    match giveaway.lockedAt with
    | none => publishLocked v i giveaway (nextStatus giveaway i.now)
    | some lockedAt => do
      let reconciliation ← reconcileStaleGiveawaySendLock v giveaway .publication i.now i.ledger
      match reconciliation with
      | .blocked =>
        .fail "Публикация розыгрыша уже отправлялась и требует ручной проверки перед повтором."
      | .completed messageId => do
        let key := v.keys.buildGiveawaySendLockKey .publication
        let recovered ← update i.recoveredAt
          (.recoverPublication lockedAt key (nextStatus giveaway i.now) messageId)
        if recovered then pure .done
        else do
          let current ← find
          if (nullableString current.publicationMessageId).isSome then pure (.published current)
          else
            .fail "Публикация розыгрыша уже восстанавливается. Проверьте чат перед повтором."
      | .retryable => do
        let giveaway ← find
        publishLocked v i giveaway (nextStatus giveaway i.retryAt)

def cancelManagedGiveaway (canceledAt : Nat) : Service Result := do
  let giveaway ← find
  if giveaway.status = .draft ∨ giveaway.status = .scheduled ∨ giveaway.status = .active then do
    let canceled ← update canceledAt (.cancel giveaway.status)
    if canceled then pure .done
    else .fail "Розыгрыш уже изменён или публикуется. Обновите экран."
  else .fail "Отменить можно только текущий черновик или активный розыгрыш."

/-! ## Results -/

/-- One publication of the results. `attempted` is whether a routed send was dispatched now. -/
structure ResultsInputs where
  now : Nat
  ledger : Ledger
  recoveredAt : Nat
  lockAt : Nat
  send : SendResult
  attempted : Bool
  writtenAt : Nat
  deriving DecidableEq, Repr

/-- `republishGiveawayResults` from the lock on, given how a message that was sent before is edited. -/
def sendResults (v : Services) (edit : Giveaway → Service Bool) (i : ResultsInputs)
    (giveaway : Giveaway) : Service Bool := do
  let key := v.keys.resolveGiveawaySendLockKey giveaway .results
  let locked ← update i.lockAt (.lockResults i.lockAt (v.lockKey key))
  if ¬locked then pure false
  else
    match i.send with
    | .accepted messageId => do
      let _ ← update i.writtenAt (.writeResults messageId)
      if v.routed ∧ ¬i.attempted then edit { giveaway.unlock with resultsMessageId := messageId }
      else pure true
    | .failed _ ambiguous =>
      if ambiguous then pure false
      else do
        let kept := v.keys.keptKey .results key
        let _ ← update i.writtenAt (.unlockResults i.lockAt (v.lockKey key) kept)
        pure false

/-- `republishGiveawayResults`, given how an existing message is edited. -/
def republishWith (v : Services) (edit : Giveaway → Service Bool) (i : ResultsInputs)
    (giveaway : Giveaway) : Service Bool :=
  if (nullableString giveaway.resultsMessageId).isSome then edit giveaway
  else if ¬v.routed ∧ v.production then .fail ROUTED_PUBLICATION_REQUIRED
  else
    match giveaway.lockedAt with
    | none => sendResults v edit i giveaway
    | some lockedAt => do
      let reconciliation ← reconcileStaleGiveawaySendLock v giveaway .results i.now i.ledger
      match reconciliation with
      | .blocked => pure false
      | .retryable => sendResults v edit i giveaway
      | .completed messageId => do
        let key := v.keys.resolveGiveawaySendLockKey giveaway .results
        let recovered ← update i.recoveredAt (.recoverResults lockedAt key messageId)
        if recovered then edit { giveaway.unlock with resultsMessageId := some messageId }
        else pure false

/-- How the results are edited: each message that cannot be edited is replaced by another
publication, and the last edit comes to `edited`. -/
structure EditInputs where
  edited : Bool
  replacements : List (Nat × ResultsInputs)
  deriving DecidableEq, Repr

def editGiveawayResultsMessage (v : Services) (edited : Bool) :
    List (Nat × ResultsInputs) → Giveaway → Service Bool
  | [], giveaway => pure (edited && (nullableString giveaway.resultsMessageId).isSome)
  | (now, i) :: rest, giveaway =>
    match nullableString giveaway.resultsMessageId with
    | none => pure false
    | some resultsMessageId => do
      let key := v.keys.buildGiveawayResultsReplacementSendLockKey resultsMessageId
      let replaced ← update now
        (.replaceResults resultsMessageId giveaway.lockedAt giveaway.sendLockKey key)
      if replaced then
        republishWith v (editGiveawayResultsMessage v edited rest) i { giveaway with
          resultsMessageId := none, lockedAt := none, sendLockKey := some key }
      else pure false

def republishGiveawayResults (v : Services) (i : ResultsInputs) (e : EditInputs)
    (giveaway : Giveaway) : Service Bool :=
  republishWith v (editGiveawayResultsMessage v e.edited e.replacements) i giveaway

/-! ## The draw -/

/-- `runner` draws for the schedule; the others draw for an administrator. -/
structure DrawInputs where
  runner : Bool
  now : Nat
  drawSeed : String
  /-- The error of the evaluation of the entries, if it fails. -/
  failure : Option String
  completedAt : Nat
  restoredAt : Nat
  results : ResultsInputs
  edits : EditInputs
  deriving DecidableEq, Repr

inductive DrawClaim
  | claimed (giveaway : Giveaway) (drawSeed : String)
  | completed
  deriving DecidableEq, Repr

/-- `claimGiveawayForDraw` after its claim was refused. -/
def resumeClaim (current : Giveaway) (drawSeed : String) (now : Nat) : Service DrawClaim :=
  if current.status = .completed then pure .completed
  else if current.status = .drawing ∧ current.lockedBefore (now - GIVEAWAY_LOCK_STALE_MS) then do
    let resumedSeed := (nullableString current.drawSeed).getD drawSeed
    let resumed ← update now (.resumeDraw resumedSeed (current.drawnAt.getD now) now)
    if resumed then do
      let giveaway ← find
      pure (.claimed giveaway resumedSeed)
    else .fail "Итоги уже подводятся."
  else if current.status = .drawing then .fail "Итоги уже подводятся."
  else .fail CLOSE_REFUSED

def claimGiveawayForDraw (giveaway : Giveaway) (drawSeed : String) (now : Nat) :
    Service DrawClaim := do
  if giveaway.status = .completed then pure .completed
  else
    let claimed ← update now (.claimDraw giveaway drawSeed now)
    if claimed then do
      let giveaway ← find
      pure (.claimed giveaway drawSeed)
    else do
      let current ← find
      resumeClaim current drawSeed now

def restoredStatus (runner : Bool) (initial : Status) : Status :=
  if runner ∨ initial = .drawing then .drawing else initial

/-- A failed draw gives the giveaway back and rethrows its error. -/
def restoreDraw (i : DrawInputs) (initial : Status) (giveaway : Giveaway) (drawSeed message : String) :
    Service Result := do
  let _ ← update i.restoredAt
    (.restoreDraw giveaway.lockedAt drawSeed (restoredStatus i.runner initial))
  .fail message

def drawClaimed (v : Services) (i : DrawInputs) (initial : Status) (giveaway : Giveaway)
    (drawSeed : String) : Service Result :=
  match i.failure with
  | some message => restoreDraw i initial giveaway drawSeed message
  | none => do
    let completed ← update i.completedAt (.completeDraw giveaway.lockedAt drawSeed)
    if ¬completed then
      restoreDraw i initial giveaway drawSeed "Итоги уже обрабатывает другой исполнитель."
    else do
      let row := { giveaway.unlock with status := .completed }
      let confirmed ← republishGiveawayResults v i.results i.edits row
      let _ ← find
      pure (.results confirmed)

def drawGiveaway (v : Services) (i : DrawInputs) : Service Result := do
  let initial ← find
  let initialDrawSeed := (nullableString initial.drawSeed).getD i.drawSeed
  let claim ← claimGiveawayForDraw initial initialDrawSeed i.now
  match claim with
  | .completed => pure .done
  | .claimed giveaway drawSeed => drawClaimed v i initial.status giveaway drawSeed

def closeManagedGiveaway (v : Services) (i : DrawInputs) : Service Result := do
  let giveaway ← find
  if giveaway.status = .active ∨ giveaway.status = .scheduled then
    drawGiveaway v { i with runner := false }
  else .fail CLOSE_REFUSED

/-! ## The schedule -/

def activateScheduledGiveawayIfDue (now : Nat) : Service Result := do
  let giveaway ← find
  if giveaway.status = .scheduled ∧ giveaway.startsAt.any (· ≤ now) then do
    let activated ← update now (.activate now)
    if activated then do
      let _ ← find
      pure .done
    else pure .done
  else pure .done

def processDueManagedGiveaway (v : Services) (now staleLockBefore : Nat) (i : DrawInputs) :
    Service Result := do
  let giveaway ← find
  if giveaway.status = .drawing ∨ giveaway.endsAt ≤ now then drawGiveaway v { i with runner := true }
  else if giveaway.status = .scheduled ∧ giveaway.startsAt.any (· ≤ now) then do
    let claimed ← update now (.activateDue staleLockBefore)
    if claimed then do
      let _ ← find
      pure .done
    else pure .done
  else pure .done

def refreshResults (v : Services) (i : ResultsInputs) (e : EditInputs) : Service Result := do
  let giveaway ← find
  if giveaway.status = .completed then do
    let confirmed ← republishGiveawayResults v i e giveaway
    pure (.results confirmed)
  else pure .done

def updateManagedGiveaway (now : Nat) (description : String) (startsAt : Option Nat) (endsAt : Nat) :
    Service Result := do
  let giveaway ← find
  if giveaway.status ≠ .draft then .fail "Изменять можно только черновик розыгрыша."
  else do
    let edited ← update now (.edit description startsAt endsAt)
    if edited then pure .done
    else .fail "Черновик уже изменён или публикуется. Обновите экран."

inductive Call
  | publish (v : Services) (i : PublishInputs)
  | cancel (canceledAt : Nat)
  | close (v : Services) (i : DrawInputs)
  | processDue (v : Services) (now staleLockBefore : Nat) (i : DrawInputs)
  | activate (now : Nat)
  | refresh (v : Services) (i : ResultsInputs) (e : EditInputs)
  | edit (now : Nat) (description : String) (startsAt : Option Nat) (endsAt : Nat)

def Call.program : Call → Service Result
  | .publish v i => publishManagedGiveaway v i
  | .cancel canceledAt => cancelManagedGiveaway canceledAt
  | .close v i => closeManagedGiveaway v i
  | .processDue v now staleLockBefore i => processDueManagedGiveaway v now staleLockBefore i
  | .activate now => activateScheduledGiveawayIfDue now
  | .refresh v i e => refreshResults v i e
  | .edit now description startsAt endsAt => updateManagedGiveaway now description startsAt endsAt

end Maxim.Admin.ManagedGiveaway
