import Maxim.Moderation.AttachMarker.Statements

/-!
# The methods of the marker store

Every method is a program over the statements on one marker. Clock readings,
drawn identifiers, and what a call reads outside the marker tables (the audit
log, the settings of the chat, the error that is handed over) are arguments of
the call.
-/

namespace Maxim.Moderation.AttachMarker

open Maxim.Library

inductive Claim
  | claimed (lockToken : String) (markerId : Option String)
  | recoverAudit (markerId replyMessageId : String) (botId : Option String)
  | done
  | inProgress
  | recoveredAudit
  | settingsChanged
  deriving DecidableEq

inductive DispatchState
  | ready
  | done
  | sendFenced
  | lost
  deriving DecidableEq

inductive Answer
  | unit
  | claim (c : Claim)
  | probe (c : Option Claim)
  | pending (markerId : Option (String × String × Option LockEpoch))
  | dispatch (state : DispatchState)
  | started (sendStartedAt : Nat)
  | settingsChanged
  | claimLost
  | done (did : Bool)
  deriving DecidableEq

abbrev Store (α : Type) := Prog Op Op.Answer String α

abbrev find (kind : MarkerKind) : Store (Option MarkerRow) := Prog.perform (Op.find kind)

abbrev create (c : Creation) : Store Bool := Prog.perform (Op.create c)

abbrev update (u : Update) : Store Bool := Prog.perform (Op.update u)

def liftExcept {α : Type} : Except String α → Store α
  | .ok a => .ret a
  | .error e => .fail e

/-! ## The audit log -/

structure CommentAudit where
  replyMessageId : Option String
  messageId : Option String
  threadId : Option String
  deliveryMode : Option String

/-- The payload of the audit of a skipped edit, when it is an object. -/
structure SkipAudit where
  deliveryMode : Option String
  linkType : Option String
  terminalEditAttemptExhausted : Bool
  error : Option String

/-- `isRecoverableLegacyChannelEditAudit`. -/
def isRecoverableAudit : Option SkipAudit → Bool
  | none => false
  | some record =>
    record.deliveryMode == some "edit_message" && record.linkType != some "forward" &&
      !record.terminalEditAttemptExhausted && !isAmbiguousError (nullableString record.error)

/-- What a claim reads of the audit log: the audit of the comment, whether the message has been
attached, and the audit of a skipped edit. -/
structure Audits where
  comment : Option (Option CommentAudit)
  attached : Bool
  skipped : Option (Option SkipAudit)

/-- The audit of a comment names this message and this marker. -/
def CommentAudit.confirms (messageId markerId : String) (a : CommentAudit) : Option String :=
  if nullableString a.messageId = some messageId ∧ nullableString a.threadId = some markerId ∧
      nullableString a.deliveryMode = some "reply_message" then nullableString a.replyMessageId
  else none

def resolveAuditRecovery (messageId : String) (expectedMarkerId expectedLockToken : Option String)
    (audit : Option (Option CommentAudit)) : Store (Option Claim) :=
  find .chatAutoComment >>= fun read =>
    match read, read.bind fun marker => nullableString (some marker.id) with
    | some marker, some markerId =>
      if (buildAuditId markerId).isNone ∨ marker.status = .skipped then .ret none
      else if truthy expectedMarkerId ∧ some markerId ≠ expectedMarkerId ∨
          truthy expectedLockToken ∧ marker.status = .inProgress ∧
            marker.lockToken ≠ expectedLockToken then .ret none
      else
        match nullableString marker.replyMessageId with
        | none =>
          match audit.bind fun payload => payload.bind (·.confirms messageId markerId) with
          | none => .ret none
          | some replyMessageId =>
            update (.recoverAudit markerId replyMessageId) >>= fun repaired =>
              if repaired then .ret (some .recoveredAudit)
              else .fail "Failed to repair the chat auto-comment marker from its audit"
        | some replyMessageId =>
          if marker.deliveryMode ≠ some "reply_message" then .ret none
          else if audit.isNone then
            .ret (some (.recoverAudit markerId replyMessageId (nullableString marker.botId)))
          else
            update (.finalizeAudit markerId replyMessageId) >>= fun finalized =>
              if finalized then .ret (some .done)
              else .fail "Failed to finalize the chat auto-comment marker from its audit"
    | _, _ => .ret none

inductive CompletionState
  | none
  | done
  | recoverLegacyChannelEdit
  deriving DecidableEq

def resolveCompletionState (kind : MarkerKind) (allowRecovery : Bool) (audits : Audits) :
    Store CompletionState :=
  find kind >>= fun marker =>
    let recoverableMarker := allowRecovery && marker.any MarkerRow.recoverable
    if marker.any (·.status = .succeeded) then .ret .done
    else if marker.any (·.status = .skipped) ∧ !recoverableMarker then .ret .done
    else if audits.attached then .ret .done
    else if recoverableMarker then .ret .recoverLegacyChannelEdit
    else if kind ≠ .channelAutoPost then .ret .none
    else
      match audits.skipped with
      | none => .ret .none
      | some payload =>
        if allowRecovery && isRecoverableAudit payload then .ret .recoverLegacyChannelEdit
        else .ret .done

/-! ## Claims -/

/-- What a claim draws and when it reads its clock: at its start, when it looks at a stale lock,
and in its last update. -/
structure Draws where
  lockUuid : String
  markerUuid : String
  now : Nat
  checkedAt : Nat
  updatedAt : Nat

def claimedAs (kind : MarkerKind) (lockToken markerId : String) : Claim :=
  .claimed lockToken (if kind = .chatAutoComment then some markerId else none)

def ClaimParams.editRecovery (kind : MarkerKind) (params : ClaimParams) (row : MarkerRow) : Bool :=
  kind == .channelAutoPost && params.replaySafeEdit && params.linkType != some "forward" &&
    row.status == .inProgress && row.linkType != some "forward" &&
    row.deliveryMode == some "edit_message"

def preDispatchRecovery (kind : MarkerKind) (row : MarkerRow) : Bool :=
  kind == .channelAutoPost && row.status == .inProgress && hasPreDispatchEvidence row.lastError

/-- The last update of `claim`. -/
def reclaim (kind : MarkerKind) (params : ClaimParams) (draws : Draws) (existing : Option MarkerRow)
    (recoveryClaim : Bool) (lockToken markerId : String) : Update :=
  let existingMarkerId := existing.bind fun row => nullableString (some row.id)
  .reclaim
    { kind
      id := if kind = .chatAutoComment then existingMarkerId.or (some markerId) else none
      lastError := (existing.filter fun row =>
        kind = .channelAutoPost ∧ row.status = .inProgress).map MarkerRow.lastError
      editLock := (existing.filter (params.editRecovery kind)).map MarkerRow.lockToken
      unlocked := existing.any (preDispatchRecovery kind)
      staleBefore := draws.updatedAt - ATTACH_LOCK_TTL_MS
      newId := if kind = .chatAutoComment ∧ existingMarkerId.any (· ≠ markerId) then some markerId
        else none
      lockToken
      now := draws.now
      source := params.source
      botId := params.botId
      linkType := params.linkType
      replaySafeEdit := params.replaySafeEdit
      newError := if existing.any (preDispatchRecovery kind) then
          some CHANNEL_AUTO_POST_PRE_DISPATCH_PROOF_CONSUMED
        else if recoveryClaim then
          some (withChannelEditRecoveryEvidence (existing.bind MarkerRow.lastError))
        else none }

/-- `claim`, after it has read the row that it is about. -/
def claimExisting (kind : MarkerKind) (params : ClaimParams) (draws : Draws)
    (epoch : Option LockEpoch) (allowRecovery : Bool) (completionState : CompletionState)
    (existing : Option MarkerRow) : Store Claim :=
  let recoveryClaim := completionState == .recoverLegacyChannelEdit ||
    hasChannelEditRecoveryEvidence (existing.bind MarkerRow.lastError)
  let lockToken := match epoch with
    | some epoch => createPublisherLockToken epoch draws.lockUuid
    | none => createLockToken recoveryClaim draws.lockUuid
  let markerId := ((existing.bind fun row => nullableString (some row.id)).filter
    fun id => (buildAuditId id).isSome).getD (createMarkerId draws.markerUuid)
  let take : Store Claim :=
    update (reclaim kind params draws existing recoveryClaim lockToken markerId) >>= fun claimed =>
      .ret (if claimed then claimedAs kind lockToken markerId else .inProgress)
  match existing with
  | none =>
    create ⟨kind, markerId, lockToken, draws.now, params, recoveryClaim⟩ >>= fun created =>
      if created then .ret (claimedAs kind lockToken markerId)
      else if kind = .channelAutoPost then .ret .inProgress
      else take
  | some row =>
    if row.status = .succeeded then .ret .done
    else if row.status = .skipped then
      if allowRecovery && row.recoverable then
        update (.repairSkipped row.lastError (createLockToken true draws.lockUuid) draws.now
          params) >>= fun claimed =>
          .ret (if claimed then .claimed (createLockToken true draws.lockUuid) none
            else .inProgress)
      else .ret .done
    else if truthy row.replacementMessageId || truthy row.replyMessageId ||
        row.replacementSendStartedAt.isSome then .ret .inProgress
    else if kind = .channelAutoPost ∧ !preDispatchRecovery kind row ∧
        !params.editRecovery kind row then .ret .inProgress
    else if kind = .chatAutoComment ∧ row.stale (draws.checkedAt - ATTACH_LOCK_TTL_MS) ∧
        epoch.isSome ∧ readLockEpoch (row.lockToken.getD "") ≠ epoch then
      update (.skipStale row params.source params.botId) >>= fun skipped =>
        .ret (if skipped then .settingsChanged else .inProgress)
    else take

def claim (kind : MarkerKind) (messageId : String) (params : ClaimParams) (draws : Draws)
    (audits : Audits) : Store Claim :=
  let epoch : Except String (Option LockEpoch) :=
    if kind = .chatAutoComment then
      resolveInputEpoch params.publisherSettingsRevision params.publicationPolicyRevision
    else .ok none
  liftExcept epoch >>= fun epoch =>
    let auditRecovery : Store (Option Claim) :=
      if kind = .chatAutoComment then resolveAuditRecovery messageId none none audits.comment
      else .ret none
    auditRecovery >>= fun recovered =>
      match recovered with
      | some answer => .ret answer
      | none =>
        let allowRecovery := kind == .channelAutoPost && params.hasEngagementButtons &&
          params.linkType != some "forward"
        resolveCompletionState kind allowRecovery audits >>= fun completionState =>
          if completionState = .done then .ret .done
          else
            find kind >>= fun existing =>
              claimExisting kind params draws epoch allowRecovery completionState existing

/-! ## The other methods -/

def MarkerKind.label : MarkerKind → String
  | .channelAutoPost => "channel auto-post"
  | .chatAutoComment => "chat auto-comment"

def updateOrFail (u : Update) (message : String) : Store Answer :=
  update u >>= fun updated => if updated then .ret .unit else .fail message

def updateAnyway (u : Update) : Store Answer := update u >>= fun _ => .ret .unit

def recordSendStarted (kind : MarkerKind) (lockToken : String) (reply : Bool) (now : Nat) :
    Store Answer :=
  updateOrFail (.sendStarted kind lockToken reply now)
    ("Failed to persist the " ++ kind.label ++ (if reply then " reply" else " replacement") ++
      " send fence")

def inspectDispatchClaim (markerId lockToken : String) : Store DispatchState :=
  find .chatAutoComment >>= fun marker =>
    match marker.filter fun row => row.id == markerId && row.lockToken == some lockToken with
    | none => .ret .lost
    | some row =>
      if row.status ≠ .inProgress ∨ truthy row.replyMessageId then .ret .done
      else if truthy row.replacementMessageId ∨ row.replacementSendStartedAt.isSome then
        .ret .sendFenced
      else .ret .ready

def refreshDispatchClaim (markerId lockToken : String) (now : Nat) : Store DispatchState :=
  inspectDispatchClaim markerId lockToken >>= fun state =>
    if state ≠ .ready then .ret state
    else
      update (.refresh markerId lockToken now) >>= fun refreshed =>
        .ret (if refreshed then .ready else .lost)

structure ReplyFence where
  markerId : String
  lockToken : String
  senderBotId : Option String := none
  publisherSettingsRevision : Option Int := none
  publicationPolicyRevision : Option Int := none
  publisherSourceContentHash : Option String := none

/-- `recordChatReplySendFence`. `settingsMatch` is whether the settings and the policy of the chat
carry the epoch when the update runs, `settingsStillMatch` when they are read afterwards. -/
def recordChatReplySendFence (f : ReplyFence) (now : Nat) (settingsMatch settingsStillMatch : Bool) :
    Store Answer :=
  liftExcept (resolveInputEpoch f.publisherSettingsRevision f.publicationPolicyRevision) >>=
    fun epoch =>
      match epoch with
      | none => .fail "Publisher chat-comment settings epoch is required"
      | some epoch =>
        if readLockEpoch f.lockToken ≠ some epoch then .ret .settingsChanged
        else
          update (.replyFence f.markerId f.lockToken settingsMatch f.publisherSourceContentHash now
            f.senderBotId) >>= fun updated =>
            if updated then .ret (.started now)
            else
              inspectDispatchClaim f.markerId f.lockToken >>= fun state =>
                .ret (if state ≠ .ready ∨ settingsStillMatch then .claimLost else .settingsChanged)

def readPendingJobIdentity : Store Answer :=
  find .chatAutoComment >>= fun marker =>
    match marker.filter (·.status = .inProgress) with
    | none => .ret (.pending none)
    | some row =>
      match nullableString (some row.id), nullableString row.lockToken with
      | some markerId, some lockToken =>
        .ret (.pending (if (buildAuditId markerId).isSome then
          some (markerId, lockToken, readLockEpoch lockToken) else none))
      | _, _ => .ret (.pending none)

inductive Call
  | claim (kind : MarkerKind) (messageId : String) (params : ClaimParams) (draws : Draws)
    (audits : Audits)
  | probeAuditRecovery (messageId : String) (expectedMarkerId expectedLockToken : Option String)
    (audit : Option (Option CommentAudit))
  | complete (kind : MarkerKind) (lockToken : String) (c : Completion)
  | skipAfterAdmissionFailure (markerId lockToken : String) (botId : Option String) (reason : String)
  | skipAfterSettingsChange (markerId lockToken : String) (botId : Option String)
  | completeAuditRecovery (markerId replyMessageId : String)
  | recordReplacementMessage (kind : MarkerKind) (lockToken replacementMessageId : String)
    (publishedUrl : Option String)
  | recordChatReplyMessage (lockToken replyMessageId : String) (senderBotId : Option String)
  | recordChannelReplyMessage (lockToken replyMessageId : String) (publishedUrl : Option String)
  | recordReplacementSendStarted (kind : MarkerKind) (lockToken : String) (now : Nat)
  | recordChannelReplySendStarted (lockToken : String) (now : Nat)
  | recordChatReplySendStarted (f : ReplyFence) (now : Nat) (settingsMatch settingsStillMatch : Bool)
  | readPendingJobIdentity
  | refreshDispatchClaim (markerId lockToken : String) (now : Nat)
  | inspectDispatchClaim (markerId lockToken : String)
  | recordRetryableFailure (markerId lockToken : String) (senderBotId : Option String)
    (sendStartedAt : Option Nat) (now : Nat) (lastError : String) (lastStatusCode : Option Nat)
  | release (kind : MarkerKind) (lockToken : String) (r : Release)
  /-- `deferChannelEditBeforeDispatch` and `deferChannelRouteBeforeDispatch`; `admitted` is their
  judgement of the error and of the input. -/
  | deferBeforeDispatch (admitted : Bool) (lockToken : String) (botId linkType : Option String)
    (source : Source) (now : Nat) (reason : String)
  | assertEditClaimCurrent (lockToken : String) (now : Nat)

def Call.program : Call → Store Answer
  | .claim kind messageId params draws audits =>
    AttachMarker.claim kind messageId params draws audits >>= fun answer => .ret (.claim answer)
  | .probeAuditRecovery messageId expectedMarkerId expectedLockToken audit =>
    resolveAuditRecovery messageId expectedMarkerId expectedLockToken audit >>= fun answer =>
      .ret (.probe answer)
  | .complete kind lockToken c => updateAnyway (.complete kind lockToken c)
  | .skipAfterAdmissionFailure markerId lockToken botId reason =>
    updateOrFail (.skipAdmission markerId lockToken botId reason)
      "Failed to terminalize the publisher chat-comment admission marker"
  | .skipAfterSettingsChange markerId lockToken botId =>
    update (.skipSettings markerId lockToken botId) >>= fun updated => .ret (.done updated)
  | .completeAuditRecovery markerId replyMessageId =>
    updateOrFail (.recoverAudit markerId replyMessageId)
      "Failed to finalize the recovered chat auto-comment audit marker"
  | .recordReplacementMessage kind lockToken replacementMessageId publishedUrl =>
    updateOrFail (.recordReplacement kind lockToken replacementMessageId publishedUrl)
      ("Failed to persist the " ++ kind.label ++ " replacement message marker")
  | .recordChatReplyMessage lockToken replyMessageId senderBotId =>
    updateOrFail (.chatReplyResult lockToken replyMessageId senderBotId)
      "Failed to persist the chat auto-comment reply message marker"
  | .recordChannelReplyMessage lockToken replyMessageId publishedUrl =>
    updateOrFail (.channelReplyResult lockToken replyMessageId publishedUrl)
      "Failed to persist the channel auto-post reply message marker"
  | .recordReplacementSendStarted kind lockToken now => recordSendStarted kind lockToken false now
  | .recordChannelReplySendStarted lockToken now =>
    recordSendStarted .channelAutoPost lockToken true now
  | .recordChatReplySendStarted f now settingsMatch settingsStillMatch =>
    recordChatReplySendFence f now settingsMatch settingsStillMatch
  | .readPendingJobIdentity => AttachMarker.readPendingJobIdentity
  | .refreshDispatchClaim markerId lockToken now =>
    AttachMarker.refreshDispatchClaim markerId lockToken now >>= fun state => .ret (.dispatch state)
  | .inspectDispatchClaim markerId lockToken =>
    AttachMarker.inspectDispatchClaim markerId lockToken >>= fun state => .ret (.dispatch state)
  | .recordRetryableFailure markerId lockToken senderBotId sendStartedAt now lastError
      lastStatusCode =>
    updateAnyway (.retryableFailure markerId lockToken senderBotId sendStartedAt now lastError
      lastStatusCode)
  | .release kind lockToken r => updateAnyway (.release kind lockToken r)
  | .deferBeforeDispatch admitted lockToken botId linkType source now reason =>
    if ¬admitted ∨ linkType = some "forward" then .ret (.done false)
    else
      update (.handOff lockToken botId linkType source (now - ATTACH_LOCK_TTL_MS) reason) >>=
        fun updated =>
          if updated then .ret (.done true)
          else .fail "Channel post edit handoff did not commit."
  | .assertEditClaimCurrent lockToken now =>
    updateOrFail (.assertEdit lockToken now) "Channel post edit claim is no longer current."

end Maxim.Moderation.AttachMarker
