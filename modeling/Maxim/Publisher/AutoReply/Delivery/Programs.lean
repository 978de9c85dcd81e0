import Maxim.Publisher.AutoReply.Delivery.Statements

/-!
# The workers and the producer

The worker of a delivery claims it, records the send fence, enters the HTTP
send and settles what comes back. The producer admits a source message and
creates its delivery, or cancels both when the message is edited or removed.
A recovery sweep gives stale deliveries back. What the services outside the
database answer is part of the call.
-/

namespace Maxim.Publisher.AutoReply.Delivery

open Maxim.Library

variable {κ : Type}

/-- What the HTTP send comes to: the id of the answer, or an error with its status code and whether
it speaks of an attachment. -/
inductive SendOutcome
  | sent (messageId : String)
  | failed (statusCode : Option Nat) (aboutAttachment : Bool)
  deriving DecidableEq, Repr

def SendOutcome.definitiveInvalidAttachment : SendOutcome → Bool
  | .failed statusCode aboutAttachment =>
    (statusCode == some 400 || statusCode == some 422) && aboutAttachment
  | .sent _ => false

def SendOutcome.definitiveNonDelivery : SendOutcome → Bool
  | .failed (some status) _ => 400 ≤ status && status < 500 && status != 408
  | _ => false

def SendOutcome.rateLimited : SendOutcome → Bool
  | .failed statusCode _ => statusCode == some 429
  | .sent _ => false

inductive Op (κ : Type)
  | find (key : Key)
  | update (key : Key) (u : Update)
  | load (key : Key) (lockToken : String)
  | readFence (source : SourceIdentity)
  | recordSendFence (cfg : Config) (d : LeasedDelivery) (lockToken : String) (ready : Bool)
    (e : Elapsed)
  | send (key : Key) (outcome : SendOutcome)
  | admitSource (source : SourceIdentity)
  | cancelSource (source : SourceIdentity)
  | create (d : NewDelivery)
  /-- The other writers: the clock goes on, and an administrator changes the configuration. -/
  | tick (us : Nat)
  | writeRule (ruleId : String) (rule : Rule)
  | writeTrigger (triggerId : String) (trigger : Trigger)
  | writeContent (contentRevisionId : String) (content : Content)
  | writeChat (chatId : String) (chat : Chat)

/-- What an operation is answered. -/
def Op.Reply : Op κ → Type
  | .find _ => Option Row
  | .update _ _ => Bool
  | .load _ _ => Option LeasedDelivery
  | .readFence _ => Option FenceStatus
  | .recordSendFence _ _ _ _ _ => Except FenceError Nat
  | .send _ _ => SendOutcome
  | .admitSource _ | .cancelSource _ | .create _ | .tick _ | .writeRule _ _ | .writeTrigger _ _
  | .writeContent _ _ | .writeChat _ _ => Unit

/-- Every write of a rule counts its version, and none moves it to another chat. -/
def Rule.after (rule : Rule) : Option Rule → Rule
  | some old => { rule with chatId := old.chatId, version := old.version + 1 }
  | none => { rule with version := 1 }

def Op.run (semanticKey : SourceIdentity → κ) [DecidableEq κ] :
    (e : Op κ) → Db κ → Db κ × e.Reply
  | .find key, s => (s, s.deliveries key)
  | .update key u, s => s.update key u
  | .load key lockToken, s =>
    (s, ((s.deliveries key).filter fun row =>
      row.status == .sending && row.lockToken == some lockToken &&
        row.dispatchStartedAt.isNone).bind s.lease)
  | .readFence source, s => (s, s.fences (semanticKey source))
  | .recordSendFence cfg d lockToken ready e, s =>
    Delivery.recordSendFence semanticKey cfg d lockToken ready e s
  | .send _ outcome, s => (s, outcome)
  -- `createMany` with `skipDuplicates`; a cancellation also overwrites.
  | .admitSource source, s =>
    match s.fences (semanticKey source) with
    | some _ => (s, ())
    | none => ({ s with fences := Function.update s.fences (semanticKey source) (some .ready) }, ())
  | .cancelSource source, s =>
    ({ s with fences := Function.update s.fences (semanticKey source) (some .completed) }, ())
  | .create d, s => (s.create d, ())
  | .tick us, s => ({ s with clock := s.clock + us }, ())
  | .writeRule ruleId rule, s =>
    ({ s with rules := Function.update s.rules ruleId (some (rule.after (s.rules ruleId))) }, ())
  | .writeTrigger triggerId trigger, s =>
    ({ s with triggers := Function.update s.triggers triggerId (some trigger) }, ())
  | .writeContent contentRevisionId content, s =>
    ({ s with contents := Function.update s.contents contentRevisionId (some content) }, ())
  | .writeChat chatId chat, s => ({ s with chats := Function.update s.chats chatId (some chat) }, ())

/-- An error that the job or the webhook is retried after. -/
inductive ServiceError
  | due (delayMs : Nat)
  | failed (message : String)
  deriving DecidableEq, Repr

inductive Disposition
  | noMatch
  | selected
  | suppressed
  deriving DecidableEq, Repr

inductive Result
  | done
  | observed (disposition : Disposition)
  deriving DecidableEq, Repr

abbrev Service (κ α : Type) := Prog (Op κ) Op.Reply ServiceError α

def find (key : Key) : Service κ (Option Row) := Prog.perform (Op.find key)

def update (key : Key) (u : Update) : Service κ Bool := Prog.perform (Op.update key u)

def load (key : Key) (lockToken : String) : Service κ (Option LeasedDelivery) :=
  Prog.perform (Op.load key lockToken)

def readFence (source : SourceIdentity) : Service κ (Option FenceStatus) :=
  Prog.perform (Op.readFence source)

def startFence (cfg : Config) (d : LeasedDelivery) (lockToken : String) (a : Bool) (e : Elapsed) :
    Service κ (Except FenceError Nat) := Prog.perform (Op.recordSendFence cfg d lockToken a e)

def send (key : Key) (outcome : SendOutcome) : Service κ SendOutcome :=
  Prog.perform (Op.send key outcome)

def run (e : Op κ) : Service κ Unit :=
  (Prog.perform e).bind fun _ => .ret ()

/-! ## The worker -/

/-- What the readiness service and the dispatch health say before a send. -/
inductive Preparation
  | ready
  | epochChanged
  | failed
  deriving DecidableEq, Repr

/-- What `prepareAssetPayloads` comes to; `invalid` is its unrecoverable error. -/
inductive Uploads
  | prepared
  | failed
  | invalid
  deriving DecidableEq, Repr

structure AttemptInputs where
  route : Preparation
  ready : Bool
  elapsed : Elapsed
  outcome : SendOutcome
  deriving DecidableEq, Repr

/-- A run of `process`: its clock and lock token, whether the job will not be tried again, and what
the services outside the database answer. -/
structure ProcessInputs where
  key : Key
  now : Nat
  lockToken : String
  final : Bool
  route : Preparation
  uploads : Uploads
  hasPayloads : Bool
  first : AttemptInputs
  refreshed : Bool
  second : AttemptInputs
  deriving DecidableEq, Repr

def DeliveryStatus.isTerminal : DeliveryStatus → Bool
  | .sent | .failed | .ambiguous | .canceled => true
  | .pending | .sending => false

/-- `retryOrFailClaim`, and the error is rethrown when the job will be tried again. -/
def retryOrFailClaim (key : Key) (lockToken : String) (final : Bool) (message : String) :
    Service κ Result := do
  let _ ← update key (if final then .failClaim lockToken else .retryClaim lockToken)
  if final then pure .done else .fail (.failed message)

def cancelClaim (key : Key) (lockToken : String) : Service κ Result := do
  let _ ← update key (.cancelClaim lockToken)
  pure .done

/-- `completeSent`, which is tried again while attempts are left. -/
def completeSent (d : LeasedDelivery) (dispatchStartedAt : Nat) (remoteMessageId : String) :
    Nat → Service κ Result
  | 0 => .fail (.failed "Confirmed Publisher auto-reply message id could not be persisted")
  | attempts + 1 => do
    let completed ← update d.key (.completeSent d.toNewDelivery dispatchStartedAt remoteMessageId)
    if completed then pure .done else completeSent d dispatchStartedAt remoteMessageId attempts

/-- What follows an HTTP send that was refused or whose outcome is unknown. `refresh` is there while
the attachments were not refreshed yet. -/
def settleFailure (d : LeasedDelivery) (lockToken : String) (final : Bool) (outcome : SendOutcome)
    (refresh : Option (Service κ Result)) : Service κ Result :=
  match refresh.filter fun _ => outcome.definitiveInvalidAttachment with
  | some continue_ => do
    let cleared ← update d.key (.clearDefinitiveSendFence lockToken)
    if cleared then continue_ else pure .done
  | none =>
    if outcome.definitiveNonDelivery then do
      let _ ← update d.key (.clearDefinitiveSendFence lockToken)
      if outcome.rateLimited then
        retryOrFailClaim d.key lockToken final "RATE_LIMITED"
      else do
        let _ ← update d.key (.failClaim lockToken)
        pure .done
    else do
      let _ ← update d.key (.quarantineAmbiguous (some lockToken))
      pure .done

/-- One turn of the loop of `process`. -/
def dispatch (cfg : Config) (d : LeasedDelivery) (lockToken : String) (final : Bool)
    (a : AttemptInputs) (refresh : Option (Service κ Result)) : Service κ Result :=
  match a.route with
  | .epochChanged => cancelClaim d.key lockToken
  | .failed => retryOrFailClaim d.key lockToken final "SEND_PREP_FAILED"
  | .ready => do
    let source ← readFence d.source
    if source ≠ some .ready then cancelClaim d.key lockToken
    else do
      let started ← startFence cfg d lockToken a.ready a.elapsed
      match started with
      | .error _ => cancelClaim d.key lockToken
      | .ok dispatchStartedAt => do
        let outcome ← send d.key a.outcome
        match outcome with
        | .sent messageId =>
          completeSent d dispatchStartedAt messageId CONFIRMED_RECEIPT_WRITE_ATTEMPTS
        | .failed _ _ => settleFailure d lockToken final outcome refresh

/-- The part of `process` after the claim. -/
def deliver (cfg : Config) (i : ProcessInputs) : Service κ Result := do
  let loaded ← load i.key i.lockToken
  match loaded with
  | none => retryOrFailClaim i.key i.lockToken i.final "PREPARATION_FAILED"
  | some d =>
    if ¬d.currentEpoch cfg then cancelClaim i.key i.lockToken
    else do
      let source ← readFence d.source
      if source ≠ some .ready ∨ i.route = .epochChanged then cancelClaim i.key i.lockToken
      else if i.route = .failed then
        retryOrFailClaim i.key i.lockToken i.final "PREPARATION_FAILED"
      else
        match i.uploads with
        | .failed => retryOrFailClaim i.key i.lockToken i.final "UPLOAD_FAILED"
        | .invalid => retryOrFailClaim i.key i.lockToken true "INVALID_ASSET"
        | .prepared =>
          dispatch cfg d i.lockToken i.final i.first (if i.hasPayloads then some (
            if i.refreshed then dispatch cfg d i.lockToken i.final i.second none
            else retryOrFailClaim d.key i.lockToken i.final "ATTACHMENT_REFRESH_FAILED") else none)

def process (cfg : Config) (i : ProcessInputs) : Service κ Result := do
  let initial ← find i.key
  match initial with
  | none => pure .done
  | some initial =>
    if initial.status.isTerminal then pure .done
    else if initial.status = .sending ∧ initial.dispatchStartedAt.isSome then do
      let _ ← update i.key (.quarantineAmbiguous none)
      pure .done
    else if initial.status = .pending ∧ i.now < initial.dueAt then
      .fail (.due (max 100 (min 60000 (initial.dueAt - i.now))))
    else do
      let claimed ← update i.key (.claim i.now i.lockToken)
      if claimed then deliver cfg i else pure .done

/-! ## The producer -/

/-- What the receipt of a webhook admits: it is open, it is closed, or there is none. -/
inductive Receipt
  | isOpen
  | held
  | missing
  deriving DecidableEq, Repr

def admitSource (source : SourceIdentity) (receipt : Receipt) : Service κ (Option FenceStatus) := do
  let existing ← readFence source
  match existing with
  | some status =>
    if receipt = .held then .fail (.failed "Publisher auto-reply source receipt is held")
    else pure (some status)
  | none =>
    if receipt = .missing then
      .fail (.failed "Publisher auto-reply source fence webhookEventId is required")
    else if receipt = .held then .fail (.failed "Publisher auto-reply source receipt is held")
    else do
      run (.admitSource source)
      readFence source

def ensureDeliveryJob (delivery : Row) (dispatchDisabled : Bool) : Service κ Unit := do
  if delivery.dispatchStartedAt.isNone ∧ ¬delivery.status.isTerminal ∧ dispatchDisabled then
    let _ ← update delivery.key .cancelQueued

/-- `observeWebhook` on a new message. `selected` is the delivery that the settings, the rules, the
matching and the flood gate select for it. -/
structure MessageInputs where
  publisherBotId : String
  chatId : String
  sourceMessageId : String
  duplicateRepair : Bool
  receipt : Receipt
  selected : Option NewDelivery
  dispatchDisabled : Bool
  deriving DecidableEq, Repr

def MessageInputs.source (i : MessageInputs) : SourceIdentity :=
  ⟨i.publisherBotId, i.chatId, i.sourceMessageId⟩

def MessageInputs.key (i : MessageInputs) : Key := (i.chatId, i.sourceMessageId)

def observeNewMessage (i : MessageInputs) : Service κ Result :=
  match i.selected with
  | none => pure (.observed .noMatch)
  | some selected => do
    let sourceState ← admitSource i.source i.receipt
    if sourceState ≠ some .ready then pure (.observed .suppressed)
    else do
      run (.create { selected with
        publisherBotId := i.publisherBotId
        chatId := i.chatId
        sourceMessageId := i.sourceMessageId })
      let delivery ← find i.key
      match delivery with
      | none => .fail (.failed "Publisher auto-reply durable job is not confirmed yet")
      | some delivery => do
        let confirmed ← readFence i.source
        if confirmed ≠ some .ready then do
          let _ ← update i.key .cancelPending
          pure (.observed .suppressed)
        else do
          ensureDeliveryJob delivery i.dispatchDisabled
          pure (.observed .selected)

def observeMessage (i : MessageInputs) : Service κ Result :=
  if i.duplicateRepair then do
    let delivery ← find i.key
    match delivery with
    | none => observeNewMessage i
    | some delivery => do
      let sourceState ← admitSource i.source i.receipt
      if sourceState ≠ some .ready then do
        let _ ← update i.key .cancelPending
        pure (.observed .suppressed)
      else do
        ensureDeliveryJob delivery i.dispatchDisabled
        pure (.observed .selected)
  else observeNewMessage i

/-- `cancelPendingSourceDelivery`, for a message that was edited or removed. `laterHeld` is whether
the receipt was closed before the second transaction. -/
structure ChangeInputs where
  publisherBotId : String
  chatId : String
  sourceMessageId : String
  receipt : Receipt
  laterHeld : Bool
  deriving DecidableEq, Repr

def ChangeInputs.source (i : ChangeInputs) : SourceIdentity :=
  ⟨i.publisherBotId, i.chatId, i.sourceMessageId⟩

/-- The journal write of a change, and then the error of the fence, if there was one. -/
def cancelDelivery (i : ChangeInputs) (fenceFailed : Bool) : Service κ Result := do
  if ¬i.laterHeld then
    let _ ← update (i.chatId, i.sourceMessageId) (.cancelSource i.publisherBotId)
  if fenceFailed then .fail (.failed "Publisher auto-reply durable job is not confirmed yet")
  else pure (.observed .noMatch)

def observeChange (i : ChangeInputs) : Service κ Result := do
  let existing ← readFence i.source
  if i.receipt = .held then pure (.observed .noMatch)
  else if existing = some .completed then cancelDelivery i false
  else if i.receipt = .missing then cancelDelivery i true
  else do
    run (.cancelSource i.source)
    cancelDelivery i false

/-! ## The recovery -/

/-- One delivery of a recovery sweep. -/
def recover (key : Key) (now : Nat) : Service κ Result := do
  let row ← find key
  match row with
  | none => pure .done
  | some row =>
    if row.status = .sending ∧ row.lockedAt.all (· + DELIVERY_LEASE_MS ≤ now) then
      match row.dispatchStartedAt with
      | some dispatchStartedAt => do
        let _ ← update key (.quarantineStale dispatchStartedAt)
        pure .done
      | none => do
        let _ ← update key (.resetStale row.lockToken)
        pure .done
    else pure .done

inductive Call (κ : Type)
  | process (cfg : Config) (i : ProcessInputs)
  | observeMessage (i : MessageInputs)
  | observeChange (i : ChangeInputs)
  | recover (key : Key) (now : Nat)
  | tick (us : Nat)
  | writeRule (ruleId : String) (rule : Rule)
  | writeTrigger (triggerId : String) (trigger : Trigger)
  | writeContent (contentRevisionId : String) (content : Content)
  | writeChat (chatId : String) (chat : Chat)

def Call.program : Call κ → Service κ Result
  | .process cfg i => Delivery.process cfg i
  | .observeMessage i => Delivery.observeMessage i
  | .observeChange i => Delivery.observeChange i
  | .recover key now => Delivery.recover key now
  | .tick us => do
    run (.tick us)
    pure .done
  | .writeRule ruleId rule => do
    run (.writeRule ruleId rule)
    pure .done
  | .writeTrigger triggerId trigger => do
    run (.writeTrigger triggerId trigger)
    pure .done
  | .writeContent contentRevisionId content => do
    run (.writeContent contentRevisionId content)
    pure .done
  | .writeChat chatId chat => do
    run (.writeChat chatId chat)
    pure .done

end Maxim.Publisher.AutoReply.Delivery
