import Maxim.Library.Keyed
import Maxim.Library.Text
import Maxim.Library.Interleave

/-!
# The row of a managed poll and its ballots

The transactions that hold the row lock, and the statements with a WHERE clause.
Users and callbacks are known by their HMAC. A vote names its voter by the
identity hash, which is unique in the poll.
-/

namespace Maxim.Admin.ManagedPoll

open Maxim.Library

def MANAGED_POLL_RECENT_EVENT_HASH_LIMIT : Nat := 16

def MANAGED_POLL_RENDER_FORMAT_VERSION : Nat := 7

def MANAGED_POLL_PUBLICATION_CLAIM_TTL_MS : Nat := 60000

def MANAGED_POLL_AMBIGUOUS_PUBLICATION_ERROR : String := "Публикация требует ручной проверки."

inductive PollStatus
  | draft
  | active
  | closed
  deriving DecidableEq, Repr

structure Poll where
  chatId : String
  identitySalt : String
  options : List String
  imageCount : Nat := 0
  status : PollStatus := .draft
  renderRevision : Nat := 0
  renderedRevision : Nat := 0
  renderFormatVersion : Nat := 1
  publicationMessageId : Option String := none
  publicationBotId : Option String := none
  lockedAt : Option Nat := none
  lockToken : Option String := none
  lastError : Option String := none
  lastRenderError : Option String := none
  deriving DecidableEq, Repr

structure Voter (η : Type) where
  identityHash : η
  lastEventAt : Option Nat
  recentEventHashes : List η
  deriving DecidableEq, Repr

structure Vote (η : Type) where
  voter : η
  optionId : String
  deriving DecidableEq, Repr

structure Ballots (η : Type) where
  poll : Poll
  voters : List (Voter η)
  votes : List (Vote η)
  deriving DecidableEq, Repr

/-- `createHmac('sha256')` in hexadecimal. -/
structure Hmac (η : Type) where
  digest : String → String → η
  injective : ∀ salt, Function.Injective (digest salt)

variable {η : Type}

def Hmac.buildIdentityHash (hmac : Hmac η) (identitySalt userId : String) : η :=
  hmac.digest identitySalt userId

def Hmac.buildVoteEventHash (hmac : Hmac η) (identitySalt eventId : String) : η :=
  hmac.digest identitySalt ("event:" ++ eventId)

structure Callback where
  optionId : String
  chatId : String
  messageId : String
  callbackBotId : Option String
  publicationToken : Option String
  eventId : String
  eventAt : Nat
  userId : String
  deriving DecidableEq, Repr

inductive Outcome
  | stale
  | closed (needsRender : Bool)
  | recorded (changed replayed needsRender : Bool)
  deriving DecidableEq, Repr

def Outcome.isRecorded : Outcome → Bool
  | .recorded _ _ _ => true
  | _ => false

/-! ## The row -/

def Poll.pollNeedsRenderRepair (poll : Poll) : Bool :=
  truthy poll.publicationMessageId &&
    (truthy poll.lastRenderError || poll.renderedRevision < poll.renderRevision ||
      poll.renderFormatVersion < MANAGED_POLL_RENDER_FORMAT_VERSION)

def Poll.publicationNeedsReview (poll : Poll) (now : Nat) : Bool :=
  poll.status = .draft &&
    poll.lockedAt.any fun lockedAt =>
      poll.lastError = some MANAGED_POLL_AMBIGUOUS_PUBLICATION_ERROR ||
        lockedAt + MANAGED_POLL_PUBLICATION_CLAIM_TTL_MS ≤ now

/-! ## `recordVote` -/

def appendRecentEventHash [DecidableEq η] (existing : List η) (eventHash : η) : List η :=
  (eventHash :: existing.filter (· ≠ eventHash)).take MANAGED_POLL_RECENT_EVENT_HASH_LIMIT

/-- A callback is of the publication that the row is about, as far as the token, the bot and the
option tell. -/
def Poll.matches (poll : Poll) (c : Callback) : Bool :=
  poll.chatId = c.chatId ∧ nullableString poll.lockToken = nullableString c.publicationToken ∧
    ¬(truthy poll.publicationBotId ∧ truthy c.callbackBotId ∧
      poll.publicationBotId ≠ c.callbackBotId) ∧
    c.optionId ∈ poll.options

/-- A claimed draft that a callback proves to be published. -/
def Poll.recoverable (poll : Poll) (c : Callback) : Bool :=
  poll.status = .draft ∧ poll.lockedAt ≠ none ∧ truthy poll.lockToken ∧
    truthy poll.publicationBotId ∧ c.callbackBotId = poll.publicationBotId ∧
    ¬truthy poll.publicationMessageId

def Poll.recover (poll : Poll) (c : Callback) : Poll :=
  if poll.recoverable c then
    { poll with
      status := .active, publicationMessageId := some c.messageId, lockedAt := none
      lastError := none }
  else poll

section Votes

variable [DecidableEq η] (hmac : Hmac η)

def Ballots.findVoter (s : Ballots η) (identityHash : η) : Option (Voter η) :=
  findKey Voter.identityHash identityHash s.voters

def Ballots.optionOf (s : Ballots η) (identityHash : η) : Option String :=
  (findKey Vote.voter identityHash s.votes).map Vote.optionId

/-- The end of `recordVote`, for a callback of the current publication of an active poll. -/
def Ballots.castVote (s : Ballots η) (c : Callback) : Ballots η × Outcome :=
  let needsRender := s.poll.pollNeedsRenderRepair
  let identityHash := hmac.buildIdentityHash s.poll.identitySalt c.userId
  let eventHash := hmac.buildVoteEventHash s.poll.identitySalt c.eventId
  let existing := ((s.findVoter identityHash).map Voter.recentEventHashes).getD []
  let lastEventAt := (s.findVoter identityHash).bind Voter.lastEventAt
  if eventHash ∈ existing then (s, .recorded false true needsRender)
  else
    let saveVoter lastEventAt := upsert Voter.identityHash
      ⟨identityHash, lastEventAt, appendRecentEventHash existing eventHash⟩ s.voters
    if lastEventAt.any (c.eventAt < ·) then
      ({ s with voters := saveVoter lastEventAt }, .recorded false true needsRender)
    else if s.optionOf identityHash = some c.optionId then
      ({ s with voters := saveVoter (some c.eventAt) }, .recorded false false needsRender)
    else
      ({ poll := { s.poll with renderRevision := s.poll.renderRevision + 1 }
         voters := saveVoter (some c.eventAt)
         votes := upsert Vote.voter ⟨identityHash, c.optionId⟩ s.votes },
        .recorded true false true)

def Ballots.recordVote (s : Ballots η) (c : Callback) : Ballots η × Outcome :=
  if ¬s.poll.matches c then (s, .stale)
  else
    let s := { s with poll := s.poll.recover c }
    if (s.poll.publicationMessageId.map trim).getD "" ≠ c.messageId then (s, .stale)
    else if s.poll.status ≠ .active then (s, .closed s.poll.pollNeedsRenderRepair)
    else s.castVote hmac c

end Votes

/-! ## The other transactions -/

def Poll.close (poll : Poll) : Except String (Poll × Bool) :=
  match poll.status with
  | .draft => .error "Черновик ещё не опубликован."
  | .closed => .ok (poll, false)
  | .active => .ok ({ poll with status := .closed, renderRevision := poll.renderRevision + 1 }, true)

def Poll.reset (poll : Poll) (now : Nat) : Except String Poll :=
  if poll.status ≠ .draft ∨ poll.lockedAt = none ∨ ¬poll.publicationNeedsReview now then
    .error "Публикация не требует сброса."
  else
    .ok { poll with lockedAt := none, lockToken := none, publicationBotId := none, lastError := none }

/-! ## Statements -/

inductive Update
  /-- The lock of `publishChannelPoll`. -/
  | claim (lockToken : String) (publicationBotId : Option String) (lockedAt : Nat)
  | renew (lockToken : String) (lockedAt : Nat)
  | bind (lockToken botId : String) (lockedAt : Nat)
  | promote (lockToken messageId botId : String) (renderRevision renderFormatVersion : Nat)
  | keepAmbiguous (lockToken : String)
  | release (lockToken message : String)
  | markRendered (renderRevision : Nat)
  | renderError (renderRevision : Nat) (message : String)
  /-- Of a publication that is absent, with what was read of the poll. -/
  | reconcile (status : PollStatus) (publicationMessageId : String) (renderRevision : Nat)
  deriving DecidableEq, Repr

def Update.guard : Update → Poll → Bool
  | .claim _ _ _, poll => poll.status = .draft ∧ poll.lockedAt = none
  | .renew lockToken _, poll | .bind lockToken _ _, poll | .promote lockToken _ _ _ _, poll
  | .keepAmbiguous lockToken, poll | .release lockToken _, poll =>
    poll.lockToken = some lockToken ∧ poll.status = .draft
  | .markRendered renderRevision, poll | .renderError renderRevision _, poll =>
    poll.renderRevision = renderRevision
  | .reconcile status publicationMessageId renderRevision, poll => poll.status = status ∧
    poll.publicationMessageId = some publicationMessageId ∧ poll.renderRevision = renderRevision

def Update.data : Update → Poll → Poll
  | .claim lockToken publicationBotId lockedAt, poll =>
    { poll with lockedAt := some lockedAt, lockToken := some lockToken, publicationBotId
                lastError := none }
  | .renew _ lockedAt, poll => { poll with lockedAt := some lockedAt }
  | .bind _ botId lockedAt, poll =>
    { poll with publicationBotId := some botId, lockedAt := some lockedAt }
  | .promote _ messageId botId renderRevision renderFormatVersion, poll =>
    { poll with
      status := .active, publicationMessageId := some messageId, publicationBotId := some botId
      renderedRevision := renderRevision, renderFormatVersion, lockedAt := none, lastError := none
      lastRenderError := none }
  | .keepAmbiguous _, poll =>
    { poll with lastError := some MANAGED_POLL_AMBIGUOUS_PUBLICATION_ERROR }
  | .release _ message, poll =>
    { poll with lockedAt := none, lockToken := none, publicationBotId := none
                lastError := some message }
  | .markRendered renderRevision, poll =>
    { poll with renderedRevision := renderRevision
                renderFormatVersion := MANAGED_POLL_RENDER_FORMAT_VERSION, lastRenderError := none }
  | .renderError _ message, poll => { poll with lastRenderError := some message }
  | .reconcile _ _ renderRevision, poll =>
    { poll with
      status := if poll.status = .active then .closed else poll.status
      publicationMessageId := none, renderedRevision := renderRevision
      renderFormatVersion := MANAGED_POLL_RENDER_FORMAT_VERSION, lastRenderError := none }

end Maxim.Admin.ManagedPoll

/-!
## Calls on a managed poll

Callbacks, publications, closes, resets and renders of one poll. A transaction
under the row lock is one operation, and so is an edit of the published message.
An edit that fails may have been applied, may be applied later, or may be lost.
The clock, the tokens and the answers of MAX and Redis are part of the call.
-/

namespace Maxim.Admin.ManagedPoll

open Maxim.Library

variable {η α : Type}

def MANAGED_POLL_RENDER_MAX_ATTEMPTS : Nat := 2

/-- What the buttons of a publication are built from. -/
structure Keyboard where
  status : PollStatus
  counts : List (String × Nat)
  deriving DecidableEq, Repr

/-- The published message: what it shows, and an edit that may still arrive. -/
structure Message where
  shown : Option Keyboard := none
  inFlight : Option Keyboard := none
  deriving DecidableEq, Repr

structure World (η : Type) where
  ballots : Ballots η
  message : Message := {}
  /-- The token that holds the render lock. -/
  renderLock : Option String := none
  deriving DecidableEq, Repr

/-- What becomes of a statement: it commits, it commits and the answer is lost, or it is rolled
back. -/
inductive Fate
  | committed
  | lost (error : String)
  | rolledBack (error : String)
  deriving DecidableEq, Repr

def Fate.commits : Fate → Bool
  | .rolledBack _ => false
  | _ => true

def Fate.answer (fate : Fate) (a : α) : Except String α :=
  match fate with
  | .committed => .ok a
  | .lost error | .rolledBack error => .error error

structure EditError where
  message : String
  /-- The answer is 404, and the lookup then finds the message absent. -/
  absent : Bool := false
  /-- `isTerminalCallbackError`. -/
  terminal : Bool := false
  deriving DecidableEq, Repr

inductive EditFate
  | applied
  | appliedUnanswered (error : EditError)
  | delayed (error : EditError)
  | lost (error : EditError)
  deriving DecidableEq, Repr

inductive Op
  | findPoll
  | loadVoteCounts
  | recordVote (c : Callback) (fate : Fate)
  | close (fate : Fate)
  | reset (now : Nat) (fate : Fate)
  | update (u : Update) (fate : Fate)
  | acquireLock (token : String) (expired : Bool)
  | releaseLock (token : String)
  | edit (keyboard : Keyboard) (fate : EditFate)
  /-- An edit that was delayed arrives. -/
  | arrive

def Op.Reply : Op → Type
  | .findPoll => Poll
  | .loadVoteCounts => List (String × Nat)
  | .recordVote _ _ => Except String Outcome
  | .close _ => Except String Bool
  | .reset _ _ => Except String Unit
  | .update _ _ => Except String Bool
  | .acquireLock _ _ => Bool
  | .releaseLock _ => Unit
  | .edit _ _ => Except EditError Unit
  | .arrive => Unit

/-! ## Operations -/

/-- The votes by option, as `groupBy` counts them. -/
def Ballots.voteCounts (s : Ballots η) : List (String × Nat) :=
  (s.votes.map Vote.optionId).dedup.map fun optionId =>
    (optionId, (s.votes.map Vote.optionId).count optionId)

def Ballots.close (s : Ballots η) (fate : Fate) : Ballots η × Except String Bool :=
  match s.poll.close with
  | .error error => (s, .error error)
  | .ok (poll, changed) => (if fate.commits then { s with poll } else s, fate.answer changed)

def Ballots.reset (s : Ballots η) (now : Nat) (fate : Fate) : Ballots η × Except String Unit :=
  match s.poll.reset now with
  | .error error => (s, .error error)
  | .ok poll => (if fate.commits then { s with poll } else s, fate.answer ())

def Ballots.update (s : Ballots η) (u : Update) (fate : Fate) : Ballots η × Except String Bool :=
  (if fate.commits ∧ u.guard s.poll then { s with poll := u.data s.poll } else s,
    fate.answer (u.guard s.poll))

def Message.edit (m : Message) (keyboard : Keyboard) : EditFate → Message × Except EditError Unit
  | .applied => ({ shown := some keyboard }, .ok ())
  | .appliedUnanswered error => ({ shown := some keyboard }, .error error)
  | .delayed error => ({ m with inFlight := some keyboard }, .error error)
  | .lost error => (m, .error error)

def Message.arrive (m : Message) : Message :=
  match m.inFlight with
  | some keyboard => { shown := some keyboard }
  | none => m

section Methods

variable [DecidableEq η] (hmac : Hmac η)

def Ballots.vote (s : Ballots η) (c : Callback) (fate : Fate) : Ballots η × Except String Outcome :=
  (if fate.commits then (s.recordVote hmac c).1 else s, fate.answer (s.recordVote hmac c).2)

def Op.run : (e : Op) → World η → World η × e.Reply
  | .findPoll, s => (s, s.ballots.poll)
  | .loadVoteCounts, s => (s, s.ballots.voteCounts)
  | .recordVote c fate, s =>
    ({ s with ballots := (s.ballots.vote hmac c fate).1 }, (s.ballots.vote hmac c fate).2)
  | .close fate, s => ({ s with ballots := (s.ballots.close fate).1 }, (s.ballots.close fate).2)
  | .reset now fate, s =>
    ({ s with ballots := (s.ballots.reset now fate).1 }, (s.ballots.reset now fate).2)
  | .update u fate, s =>
    ({ s with ballots := (s.ballots.update u fate).1 }, (s.ballots.update u fate).2)
  | .acquireLock token expired, s =>
    if s.renderLock = none ∨ expired then ({ s with renderLock := some token }, true) else (s, false)
  | .releaseLock token, s =>
    (if s.renderLock = some token then { s with renderLock := none } else s, ())
  | .edit keyboard fate, s =>
    ({ s with message := (s.message.edit keyboard fate).1 }, (s.message.edit keyboard fate).2)
  | .arrive, s => ({ s with message := s.message.arrive }, ())

end Methods

abbrev Service (α : Type) := Prog Op Op.Reply String α

def findPoll : Service Poll := Prog.perform Op.findPoll

def loadVoteCounts : Service (List (String × Nat)) := Prog.perform Op.loadVoteCounts

def recordVote (c : Callback) (fate : Fate) : Service (Except String Outcome) :=
  Prog.perform (Op.recordVote c fate)

def closePoll (fate : Fate) : Service (Except String Bool) := Prog.perform (Op.close fate)

def resetPoll (now : Nat) (fate : Fate) : Service (Except String Unit) :=
  Prog.perform (Op.reset now fate)

def update (u : Update) (fate : Fate) : Service (Except String Bool) := Prog.perform (Op.update u fate)

def acquireLock (token : String) (expired : Bool) : Service Bool :=
  Prog.perform (Op.acquireLock token expired)

def releaseLock (token : String) : Service Unit := Prog.perform (Op.releaseLock token)

def editMessage (keyboard : Keyboard) (fate : EditFate) : Service (Except EditError Unit) :=
  Prog.perform (Op.edit keyboard fate)

/-! ## Renders -/

/-- `loadPollAggregate`: the row, and then the counts of its options. -/
def loadPollAggregate : Service (Poll × Keyboard) := do
  let poll ← findPoll
  let counts ← loadVoteCounts
  pure (poll, {
    status := poll.status
    counts := poll.options.map fun option => (option, (counts.lookup option).getD 0) })

/-- The extra buttons of a channel are resolved, or it is not known which ones there are. -/
inductive Engagement
  | resolved
  | inconclusive
  deriving DecidableEq, Repr

structure RenderInputs where
  backoff : Bool
  /-- The bot, the text and the extra buttons. -/
  prepared : Except EditError Engagement
  edit : EditFate
  mark : Fate
  reconcile : Fate
  renderError : Fate

/-- The catch of `renderPollPublication`. -/
def renderFailed (i : RenderInputs) (poll : Poll) (error : EditError) : Service Bool := do
  let recordError : Service Bool := do
    let _ ← update (.renderError poll.renderRevision error.message) i.renderError
    pure false
  match poll.publicationMessageId with
  | none => recordError
  | some messageId =>
    if error.absent then do
      let reconciled ← update (.reconcile poll.status messageId poll.renderRevision) i.reconcile
      match reconciled with
      | .error error => .fail error
      | .ok true => pure true
      | .ok false => recordError
    else recordError

/-- One attempt: its result, or none when another one is due. -/
def renderAttempt (i : RenderInputs) : Service (Option Bool) := do
  let (poll, keyboard) ← loadPollAggregate
  if ¬truthy poll.publicationMessageId then pure (some true)
  else if i.backoff then pure (some false)
  else
    match i.prepared with
    | .error error => do
      let rendered ← renderFailed i poll error
      pure (some rendered)
    | .ok engagement => do
      let edited ← editMessage keyboard i.edit
      match edited, engagement with
      | .error error, _ => do
        let rendered ← renderFailed i poll error
        pure (some rendered)
      | .ok (), .inconclusive => do
        let _ ← update (.renderError poll.renderRevision "engagement") i.renderError
        pure (some false)
      | .ok (), .resolved => do
        let marked ← update (.markRendered poll.renderRevision) i.mark
        match marked with
        | .ok true => pure (some true)
        | .ok false => pure none
        | .error error => do
          let rendered ← renderFailed i poll { message := error }
          pure (some rendered)

/-- `renderPollPublication`, as many attempts as are left. -/
def renderAttempts (i : Nat → RenderInputs) : Nat → Service Bool
  | 0 => pure false
  | attempts + 1 => do
    let rendered ← renderAttempt (i attempts)
    match rendered with
    | some rendered => pure rendered
    | none => renderAttempts i attempts

def renderPollPublication (i : Nat → RenderInputs) : Service Bool :=
  renderAttempts i MANAGED_POLL_RENDER_MAX_ATTEMPTS

structure LockInputs where
  token : String
  /-- The lock of another one has run out. -/
  expired : Bool
  /-- Redis fails before the lock is taken. -/
  broken : Bool
  /-- The lock was renewed all the time. -/
  lockHealthy : Bool

def runPollRenderSerialized (i : LockInputs) (operation : Service Unit) : Service Bool :=
  if i.broken then pure false
  else do
    let acquired ← acquireLock i.token i.expired
    if acquired then do
      let result ← operation.attempt
      releaseLock i.token
      match result with
      | .error error => .fail error
      | .ok () => pure i.lockHealthy
    else pure false

/-! ## Callbacks -/

structure CallbackInputs where
  callback : Callback
  hasCallbackId : Bool
  lock : LockInputs
  vote : Fate
  voteUnserialized : Fate
  /-- The edit that answers the callback, if it is attempted. -/
  prepared : Except EditError Engagement
  answer : EditFate
  mark : Fate
  renderError : Fate
  render : Nat → RenderInputs

def renderIf (needsRender : Bool) (i : Nat → RenderInputs) : Service Unit :=
  if needsRender then do
    let _ ← renderPollPublication i
    pure ()
  else pure ()

/-- The answer to a callback whose vote was recorded. -/
def answerVote (i : CallbackInputs) (needsRender : Bool) : Service Unit := do
  let (poll, keyboard) ← loadPollAggregate
  if ¬i.hasCallbackId ∨ 0 < poll.imageCount then renderIf needsRender i.render
  else
    match i.prepared with
    | .error error => do
      let _ ← update (.renderError poll.renderRevision error.message) i.renderError
      pure ()
    | .ok engagement => do
      let answered ← editMessage keyboard i.answer
      match answered, engagement with
      | .ok (), .resolved =>
        if needsRender then do
          let _ ← update (.markRendered poll.renderRevision) i.mark
          pure ()
        else pure ()
      | .ok (), .inconclusive => pure ()
      | .error error, _ => renderIf error.terminal i.render

/-- What `tryHandleCallback` does under the render lock. -/
def serveCallback (i : CallbackInputs) : Service Unit := do
  let outcome ← recordVote i.callback i.vote
  match outcome with
  | .error error => .fail error
  | .ok .stale => pure ()
  | .ok (.closed needsRender) => renderIf needsRender i.render
  | .ok (.recorded _ _ needsRender) => answerVote i needsRender

def tryHandleCallback (i : CallbackInputs) : Service Unit := do
  let serialized ← runPollRenderSerialized i.lock (serveCallback i)
  if serialized then pure ()
  else do
    let outcome ← recordVote i.callback i.voteUnserialized
    match outcome with
    | .error error => .fail error
    | .ok _ => pure ()

/-! ## The calls of administrators -/

structure CloseInputs where
  lock : LockInputs
  fate : Fate
  render : Nat → RenderInputs

/-- What `closeChannelPoll` does under the render lock. -/
def closeAndRender (i : CloseInputs) : Service Unit := do
  let closed ← closePoll i.fate
  match closed with
  | .error error => .fail error
  | .ok _ => renderIf true i.render

def closeChannelPoll (i : CloseInputs) : Service Unit := do
  let serialized ← runPollRenderSerialized i.lock (closeAndRender i)
  if serialized then pure () else .fail "Опрос сейчас обновляется. Повторите закрытие."

structure RenderCall where
  lock : LockInputs
  render : Nat → RenderInputs

def refreshChannelPollPublication (i : RenderCall) : Service Unit := do
  let poll ← findPoll
  if poll.status = .draft then .fail "Черновик ещё не опубликован."
  else do
    let serialized ← runPollRenderSerialized i.lock (renderIf true i.render)
    if serialized then pure () else .fail "Опрос сейчас обновляется. Повторите попытку."

def repairPollPublication (i : RenderCall) : Service Unit := do
  let _ ← runPollRenderSerialized i.lock (renderIf true i.render)
  pure ()

/-- How one attempt to send the publication ends. -/
inductive SendResult
  | sent (messageId : String)
  | ambiguous
  /-- It is not sent, and another attempt is due or not. -/
  | failed (message : String) (retry : Bool)

structure SendInputs where
  botId : String
  lockedAt : Nat
  bind : Fate
  result : SendResult

structure PublishInputs where
  lockToken : String
  publicationBotId : Option String
  lockedAt : Nat
  claim : Fate
  renewedAt : Nat
  renew : Fate
  attempts : List SendInputs
  /-- The heartbeat still held the claim after the send. -/
  claimStillOwned : Bool
  renderFormatVersion : Nat
  promote : Fate
  release : Fate

/-- The catch of `publishChannelPoll`. -/
def publishFailed (i : PublishInputs) (ambiguous : Bool) (message : String) : Service Unit := do
  let _ ← update (if ambiguous then .keepAmbiguous i.lockToken else .release i.lockToken message)
    i.release
  .fail message

/-- `sendPollPublicationWithRetry`, and what follows it. -/
def sendAndPromote (i : PublishInputs) (renderRevision : Nat) : List SendInputs → Service Unit
  | [] => publishFailed i false "No bot is available for managed poll publish"
  | a :: attempts => do
    let bound ← update (.bind i.lockToken a.botId a.lockedAt) a.bind
    match bound with
    | .error error => publishFailed i false error
    | .ok false => publishFailed i false "Публикация опроса была сброшена."
    | .ok true =>
      match a.result with
      | .ambiguous => publishFailed i true "ambiguous"
      | .failed _ true => sendAndPromote i renderRevision attempts
      | .failed message false => publishFailed i false message
      | .sent messageId =>
        if ¬i.claimStillOwned then publishFailed i true "Публикация опроса была сброшена."
        else do
          let promoted ← update (.promote i.lockToken messageId a.botId renderRevision
            i.renderFormatVersion) i.promote
          match promoted with
          | .ok true => pure ()
          | .ok false => publishFailed i true "Публикация опроса была сброшена."
          | .error error => publishFailed i true error

def publishChannelPoll (i : PublishInputs) : Service Unit := do
  let poll ← findPoll
  if poll.status ≠ .draft then .fail "Опубликовать можно только черновик."
  else if poll.lockedAt ≠ none then .fail "Публикация уже выполняется."
  else do
    let claimed ← update (.claim i.lockToken i.publicationBotId i.lockedAt) i.claim
    match claimed with
    | .error error => .fail error
    | .ok false => .fail "Публикация уже выполняется."
    | .ok true => do
      let publicationPoll ← findPoll
      let renewed ← update (.renew i.lockToken i.renewedAt) i.renew
      match renewed with
      | .error _ | .ok false => publishFailed i false "Публикация опроса была сброшена."
      | .ok true => sendAndPromote i publicationPoll.renderRevision i.attempts

def resetChannelPollPublication (now : Nat) (fate : Fate) : Service Unit := do
  let reset ← resetPoll now fate
  match reset with
  | .error error => .fail error
  | .ok () => pure ()

inductive Call
  | callback (i : CallbackInputs)
  | publish (i : PublishInputs)
  /-- The heartbeat of a publication. -/
  | renew (lockToken : String) (lockedAt : Nat) (fate : Fate)
  | close (i : CloseInputs)
  | refresh (i : RenderCall)
  | repair (i : RenderCall)
  | reset (now : Nat) (fate : Fate)
  /-- MAX applies an edit that was delayed. -/
  | arrive

def Call.program : Call → Service Unit
  | .callback i => tryHandleCallback i
  | .publish i => publishChannelPoll i
  | .renew lockToken lockedAt fate => do
    let _ ← update (.renew lockToken lockedAt) fate
    pure ()
  | .close i => closeChannelPoll i
  | .refresh i => refreshChannelPollPublication i
  | .repair i => repairPollPublication i
  | .reset now fate => resetChannelPollPublication now fate
  | .arrive => Prog.perform Op.arrive

end Maxim.Admin.ManagedPoll
