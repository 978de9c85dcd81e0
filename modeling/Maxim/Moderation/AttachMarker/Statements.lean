import Maxim.Library.Text
import Maxim.Library.Interleave

/-!
# Markers of replacements and automatic comments

One row for each kind, chat and message. The row carries the lock of its
holder and three columns of evidence: the replacement, the reply, and the time
at which a send was started. The texts of a row that decide anything are the
lock token, the delivery mode and the last error.
-/

namespace Maxim.Moderation.AttachMarker

open Maxim.Library

inductive MarkerKind
  | channelAutoPost
  | chatAutoComment
  deriving DecidableEq

inductive MarkerStatus
  | inProgress
  | succeeded
  | skipped
  deriving DecidableEq

inductive Source
  | webhook
  | poll
  deriving DecidableEq

/-- Only channel markers have a link type, only chat markers a content hash. -/
structure MarkerRow where
  id : String
  status : MarkerStatus := .inProgress
  lockToken : Option String := none
  lockedAt : Option Nat := none
  source : Source := .webhook
  botId : Option String := none
  linkType : Option String := none
  deliveryMode : Option String := none
  publisherSourceContentHash : Option String := none
  replacementMessageId : Option String := none
  replyMessageId : Option String := none
  replacementSendStartedAt : Option Nat := none
  publishedUrl : Option String := none
  originalDeleted : Bool := false
  cleanupIntentId : Option String := none
  lastError : Option String := none
  lastStatusCode : Option Nat := none
  deriving DecidableEq

abbrev Markers := MarkerKind → Option MarkerRow

def ATTACH_LOCK_TTL_MS : Nat := 2 * 60000

def CHAT_AUTO_COMMENT_MARKER_ID_PREFIX : String := "ccr1_"

def CHAT_AUTO_COMMENT_AUDIT_ID_PREFIX : String := "aca1_"

def PUBLISHER_CHAT_COMMENT_LOCK_PREFIX : String := "publisher-chat-comment:v1:"

def CHANNEL_EDIT_RECOVERY_VERSION : String := "channel-engagement-edit-recovery:v1"

def CHANNEL_EDIT_RECOVERY_ERROR_PREFIX : String := "[" ++ CHANNEL_EDIT_RECOVERY_VERSION ++ "]"

def CHANNEL_EDIT_RECOVERY_LOCK_PREFIX : String := CHANNEL_EDIT_RECOVERY_VERSION ++ ":"

def CHANNEL_AUTO_POST_PRE_DISPATCH_FAILURE_PREFIX : String := "[channel-auto-post:pre-dispatch:v1]"

def CHANNEL_AUTO_POST_PRE_DISPATCH_FAILURE_CODES : List String :=
  ["MAX_API_CIRCUIT_OPEN", "MAX_API_INTERNAL_RATE_LIMIT"]

def CHANNEL_AUTO_POST_PRE_DISPATCH_PROOF_CONSUMED : String :=
  "[channel-auto-post:pre-dispatch-proof-consumed:v1] " ++
    "Recovery claim acquired; a stale outcome requires verification."

def LEGACY_MAX_API_CIRCUIT_OPEN_ERROR : String := "MAX API circuit breaker is open"

def MAX_SEND_AMBIGUOUS_ERROR_PREFIX : String := "[max.send_ambiguous]"

def startsWith (s start : String) : Bool := start.toList.isPrefixOf s.toList

/-- `hasPersistedChannelAutoPostPreDispatchEvidence`. -/
def hasPreDispatchEvidence (lastError : Option String) : Bool :=
  lastError == some LEGACY_MAX_API_CIRCUIT_OPEN_ERROR ||
    CHANNEL_AUTO_POST_PRE_DISPATCH_FAILURE_CODES.any fun code =>
      lastError.any (startsWith · (CHANNEL_AUTO_POST_PRE_DISPATCH_FAILURE_PREFIX ++ "[" ++ code ++ "]"))

def hasChannelEditRecoveryEvidence (lastError : Option String) : Bool :=
  lastError.any (startsWith · CHANNEL_EDIT_RECOVERY_ERROR_PREFIX)

def isAmbiguousError (lastError : Option String) : Bool :=
  lastError.any (startsWith · MAX_SEND_AMBIGUOUS_ERROR_PREFIX)

def withChannelEditRecoveryEvidence (lastError : Option String) : String :=
  match lastError with
  | none => CHANNEL_EDIT_RECOVERY_ERROR_PREFIX ++ " Legacy skipped edit selected for repair."
  | some e =>
    if startsWith e CHANNEL_EDIT_RECOVERY_ERROR_PREFIX then e
    else if e = "" then
      CHANNEL_EDIT_RECOVERY_ERROR_PREFIX ++ " Legacy skipped edit selected for repair."
    else CHANNEL_EDIT_RECOVERY_ERROR_PREFIX ++ " " ++ e

def isChannelEditRecoveryLock (lockToken : String) : Bool :=
  startsWith lockToken CHANNEL_EDIT_RECOVERY_LOCK_PREFIX

/-- `isRecoverableLegacyChannelEditMarker`. -/
def MarkerRow.recoverable (row : MarkerRow) : Bool :=
  row.status == .skipped && row.deliveryMode == some "edit_message" &&
    !truthy row.replacementMessageId && !truthy row.replyMessageId &&
    row.replacementSendStartedAt.isNone && !hasChannelEditRecoveryEvidence row.lastError &&
    !isAmbiguousError row.lastError

def MarkerRow.unsent (row : MarkerRow) : Bool :=
  row.replacementMessageId.isNone && row.replyMessageId.isNone &&
    row.replacementSendStartedAt.isNone

/-- `lockToken` and `status` of a row in progress under this token. -/
def MarkerRow.heldBy (lockToken : String) (row : MarkerRow) : Bool :=
  row.lockToken == some lockToken && row.status == .inProgress

/-- `{ lockedAt: null }` or `{ lockedAt: { lt: … } }`. -/
def MarkerRow.stale (before : Int) (row : MarkerRow) : Bool :=
  row.lockedAt.all fun lockedAt => (lockedAt : Int) < before

/-! ## Tokens and identifiers -/

structure LockEpoch where
  publisherSettingsRevision : Nat
  publicationPolicyRevision : Nat
  deriving DecidableEq

def MAX_SAFE_INTEGER : Nat := 9007199254740991

def splitColons : List Char → List (List Char)
  | [] => [[]]
  | c :: s =>
    match splitColons s with
    | [] => [[c]]
    | part :: rest => if c = ':' then [] :: part :: rest else (c :: part) :: rest

def readDigits (s : List Char) : Nat := s.foldl (fun n c => 10 * n + (c.toNat - 48)) 0

def readLockEpoch (lockToken : String) : Option LockEpoch :=
  if startsWith lockToken PUBLISHER_CHAT_COMMENT_LOCK_PREFIX then
    match splitColons (lockToken.toList.drop PUBLISHER_CHAT_COMMENT_LOCK_PREFIX.length) with
    | [settingsText, policyText, nonce] =>
      if settingsText.isEmpty || policyText.isEmpty || nonce.isEmpty ||
          !settingsText.all Char.isDigit || !policyText.all Char.isDigit then none
      else
        let settings := readDigits settingsText
        let policy := readDigits policyText
        if settings ≤ MAX_SAFE_INTEGER ∧ policy ≤ MAX_SAFE_INTEGER then some ⟨settings, policy⟩
        else none
    | _ => none
  else none

/-- `resolvePublisherChatCommentInputEpoch`, on the numbers that the caller passes. -/
def resolveInputEpoch (settings policy : Option Int) : Except String (Option LockEpoch) :=
  match settings, policy with
  | none, none => .ok none
  | some s, some p =>
    if 0 ≤ s ∧ s ≤ MAX_SAFE_INTEGER ∧ 0 ≤ p ∧ p ≤ MAX_SAFE_INTEGER then
      .ok (some ⟨s.toNat, p.toNat⟩)
    else .error "Publisher chat-comment settings epoch is invalid"
  | _, _ => .error "Publisher chat-comment settings epoch is invalid"

/-- `createLockToken`, with the identifier that `randomUUID` draws. -/
def createLockToken (channelEditRecovery : Bool) (uuid : String) : String :=
  if channelEditRecovery then CHANNEL_EDIT_RECOVERY_LOCK_PREFIX ++ uuid else uuid

def createPublisherLockToken (epoch : LockEpoch) (uuid : String) : String :=
  PUBLISHER_CHAT_COMMENT_LOCK_PREFIX ++ toString epoch.publisherSettingsRevision ++ ":" ++
    toString epoch.publicationPolicyRevision ++ ":" ++ uuid

def createMarkerId (uuid : String) : String :=
  CHAT_AUTO_COMMENT_MARKER_ID_PREFIX ++ String.ofList (uuid.toList.filter (· ≠ '-'))

def buildAuditId (markerId : String) : Option String :=
  let normalized := lowerCase (trim markerId)
  let digits := normalized.toList.drop CHAT_AUTO_COMMENT_MARKER_ID_PREFIX.length
  if startsWith normalized CHAT_AUTO_COMMENT_MARKER_ID_PREFIX ∧ digits.length = 32 ∧
      digits.all fun c => c.isDigit || 'a' ≤ c && c ≤ 'f' then
    some (CHAT_AUTO_COMMENT_AUDIT_ID_PREFIX ++ String.ofList digits)
  else none

end Maxim.Moderation.AttachMarker

/-!
## The statements on a marker

Every `findUnique`, `create` and `updateMany` of the store is one statement.
An update has the conditions of its WHERE clause as a guard on the row, and
answers whether the row was counted.
-/

namespace Maxim.Moderation.AttachMarker

open Maxim.Library

structure Completion where
  status : MarkerStatus
  final : status ≠ .inProgress := by decide
  source : Source
  botId : Option String
  linkType : Option String := none
  deliveryMode : Option String
  replacementMessageId : Option String := none
  replyMessageId : Option String := none
  publishedUrl : Option String := none
  originalDeleted : Bool := false
  terminalEditAttemptExhausted : Bool := false
  lastError : Option String
  lastStatusCode : Option Nat

structure Release where
  source : Source
  botId : Option String
  linkType : Option String := none
  lastError : Option String
  lastStatusCode : Option Nat

structure ClaimParams where
  source : Source
  botId : Option String
  linkType : Option String := none
  hasEngagementButtons : Bool := false
  replaySafeEdit : Bool := false
  publisherSettingsRevision : Option Int := none
  publicationPolicyRevision : Option Int := none

/-- The last `updateMany` of `claim`: what it demands of the row, and what it writes. -/
structure Reclaim where
  kind : MarkerKind
  /-- `id`, for a chat marker. -/
  id : Option String
  /-- `lastError`, for a channel marker that was read. -/
  lastError : Option (Option String)
  /-- `lockToken` of a replayed edit. -/
  editLock : Option (Option String)
  /-- `lockedAt: null`, for a proven rejection before dispatch. -/
  unlocked : Bool
  staleBefore : Int
  newId : Option String
  lockToken : String
  now : Nat
  source : Source
  botId : Option String
  linkType : Option String
  replaySafeEdit : Bool
  newError : Option String

inductive Update
  /-- A skipped edit is selected for repair. -/
  | repairSkipped (lastError : Option String) (lockToken : String) (now : Nat) (params : ClaimParams)
  /-- A stale claim whose settings have changed is given up. -/
  | skipStale (read : MarkerRow) (source : Source) (botId : Option String)
  | reclaim (r : Reclaim)
  /-- The marker is repaired from its audit, or finalised by the caller that wrote the audit. -/
  | recoverAudit (markerId replyMessageId : String)
  /-- The marker is finalised because its audit exists. -/
  | finalizeAudit (markerId replyMessageId : String)
  | complete (kind : MarkerKind) (lockToken : String) (c : Completion)
  | recordReplacement (kind : MarkerKind) (lockToken replacementMessageId : String)
    (publishedUrl : Option String)
  | replyFence (markerId lockToken : String) (settingsMatch : Bool) (contentHash : Option String)
    (now : Nat) (senderBotId : Option String)
  | sendStarted (kind : MarkerKind) (lockToken : String) (reply : Bool) (now : Nat)
  | chatReplyResult (lockToken replyMessageId : String) (senderBotId : Option String)
  | channelReplyResult (lockToken replyMessageId : String) (publishedUrl : Option String)
  | release (kind : MarkerKind) (lockToken : String) (r : Release)
  | skipAdmission (markerId lockToken : String) (botId : Option String) (reason : String)
  | skipSettings (markerId lockToken : String) (botId : Option String)
  | refresh (markerId lockToken : String) (now : Nat)
  | retryableFailure (markerId lockToken : String) (senderBotId : Option String)
    (sendStartedAt : Option Nat) (now : Nat) (lastError : String) (lastStatusCode : Option Nat)
  | handOff (lockToken : String) (botId linkType : Option String) (source : Source) (since : Int)
    (reason : String)
  | assertEdit (lockToken : String) (now : Nat)

def Update.kind : Update → MarkerKind
  | .repairSkipped _ _ _ _ | .channelReplyResult _ _ _ | .handOff _ _ _ _ _ _ | .assertEdit _ _ =>
    .channelAutoPost
  | .skipStale _ _ _ | .recoverAudit _ _ | .finalizeAudit _ _ | .replyFence _ _ _ _ _ _
  | .chatReplyResult _ _ _ | .skipAdmission _ _ _ _ | .skipSettings _ _ _ | .refresh _ _ _
  | .retryableFailure _ _ _ _ _ _ _ => .chatAutoComment
  | .reclaim r => r.kind
  | .complete kind _ _ | .recordReplacement kind _ _ _ | .sendStarted kind _ _ _
  | .release kind _ _ => kind

def Update.guard : Update → MarkerRow → Bool
  | .repairSkipped lastError _ _ _, row =>
    row.status == .skipped && row.deliveryMode == some "edit_message" && row.unsent &&
      row.lastError == lastError
  | .skipStale read _ _, row =>
    (read.id == "" || row.id == read.id) && row.status == .inProgress &&
      row.lockToken == read.lockToken && row.lockedAt == read.lockedAt &&
      row.deliveryMode.isNone && row.unsent
  | .reclaim r, row =>
    r.id.all (row.id == ·) && row.status == .inProgress && r.lastError.all (row.lastError == ·) &&
      r.editLock.all (fun lock => row.lockToken == lock && row.deliveryMode == some "edit_message") &&
      row.unsent && if r.unlocked then row.lockedAt.isNone else row.stale r.staleBefore
  | .recoverAudit markerId _, row =>
    row.id == markerId && (row.status == .inProgress || row.status == .succeeded)
  | .finalizeAudit markerId replyMessageId, row =>
    row.id == markerId && row.replyMessageId == some replyMessageId &&
      (row.status == .inProgress || row.status == .succeeded)
  | .complete _ lockToken _, row | .recordReplacement _ lockToken _ _, row
  | .chatReplyResult lockToken _ _, row | .channelReplyResult lockToken _ _, row
  | .release _ lockToken _, row => row.heldBy lockToken
  | .replyFence markerId lockToken settingsMatch _ _ _, row =>
    row.id == markerId && row.heldBy lockToken && row.deliveryMode.isNone && row.unsent &&
      settingsMatch
  | .sendStarted _ lockToken _ _, row =>
    row.heldBy lockToken && row.replacementMessageId.isNone && row.replacementSendStartedAt.isNone
  | .skipAdmission markerId lockToken _ _, row =>
    row.id == markerId && row.heldBy lockToken && row.deliveryMode.isNone && row.unsent &&
      row.publishedUrl.isNone && !row.originalDeleted && row.cleanupIntentId.isNone
  | .skipSettings markerId lockToken _, row =>
    row.id == markerId && row.heldBy lockToken && row.deliveryMode.isNone && row.unsent
  | .refresh markerId lockToken _, row =>
    row.id == markerId && row.heldBy lockToken && row.unsent
  | .retryableFailure markerId lockToken _ sendStartedAt _ _ _, row =>
    row.id == markerId && row.heldBy lockToken && row.replacementMessageId.isNone &&
      row.replyMessageId.isNone && row.replacementSendStartedAt == sendStartedAt
  | .handOff lockToken botId linkType source since _, row =>
    row.heldBy lockToken && row.botId == botId && row.linkType == linkType &&
      row.source == source && row.deliveryMode == some "edit_message" &&
      row.lockedAt.any (fun lockedAt => decide (since ≤ lockedAt)) && row.unsent &&
      row.publishedUrl.isNone && !row.originalDeleted && row.cleanupIntentId.isNone
  | .assertEdit lockToken _, row =>
    row.heldBy lockToken && row.deliveryMode == some "edit_message" && row.unsent

def Completion.preservesSendFence (c : Completion) : Bool :=
  !truthy c.replacementMessageId && !truthy c.replyMessageId && isAmbiguousError c.lastError

def Completion.editExhausted (kind : MarkerKind) (lockToken : String) (c : Completion) : Bool :=
  kind == .channelAutoPost && c.status == .skipped && c.deliveryMode == some "edit_message" &&
    (c.terminalEditAttemptExhausted || isChannelEditRecoveryLock lockToken)

def Completion.data (kind : MarkerKind) (lockToken : String) (c : Completion) (row : MarkerRow) :
    MarkerRow :=
  { row with
    status := c.status, lockToken := none, lockedAt := none, source := c.source, botId := c.botId
    linkType := if kind = .channelAutoPost then c.linkType else row.linkType
    deliveryMode := c.deliveryMode
    replacementMessageId := c.replacementMessageId, replyMessageId := c.replyMessageId
    replacementSendStartedAt := if c.preservesSendFence then row.replacementSendStartedAt else none
    publishedUrl := c.publishedUrl
    originalDeleted := c.originalDeleted || row.originalDeleted
    lastError := if c.editExhausted kind lockToken then
      some (withChannelEditRecoveryEvidence c.lastError) else c.lastError
    lastStatusCode := c.lastStatusCode }

/-- A text that the caller leaves out, or passes empty, changes nothing. -/
def orKept (value kept : Option String) : Option String := if truthy value then value else kept

def Update.data : Update → MarkerRow → MarkerRow
  | .repairSkipped lastError lockToken now params, row =>
    { row with
      status := .inProgress, lockToken := some lockToken, lockedAt := some now
      source := params.source, botId := params.botId, linkType := params.linkType
      lastError := some (withChannelEditRecoveryEvidence lastError) }
  | .skipStale _ source botId, row =>
    { row with
      status := .skipped, lockToken := none, lockedAt := none, source, botId
      deliveryMode := some "reply_message"
      lastError := some "Publisher chat-comment settings changed before stale claim recovery"
      lastStatusCode := none }
  | .reclaim r, row =>
    { row with
      id := r.newId.getD row.id
      lockToken := some r.lockToken, lockedAt := some r.now, source := r.source, botId := r.botId
      linkType := if r.kind = .channelAutoPost then r.linkType else row.linkType
      deliveryMode := if r.kind = .channelAutoPost ∧ r.replaySafeEdit ∧ r.linkType ≠ some "forward"
        then some "edit_message" else row.deliveryMode
      lastError := r.newError.or row.lastError }
  | .recoverAudit _ replyMessageId, row =>
    { row with
      status := .succeeded, lockToken := none, lockedAt := none
      deliveryMode := some "reply_message", replyMessageId := some replyMessageId
      replacementSendStartedAt := none, originalDeleted := false }
  | .finalizeAudit _ _, row =>
    { row with
      status := .succeeded, lockToken := none, lockedAt := none, replacementSendStartedAt := none }
  | .complete kind lockToken c, row => c.data kind lockToken row
  | .recordReplacement _ _ replacementMessageId publishedUrl, row =>
    { row with
      deliveryMode := some "replace_with_bot_message"
      replacementMessageId := some replacementMessageId, publishedUrl }
  | .replyFence _ _ _ contentHash now senderBotId, row =>
    { row with
      deliveryMode := some (if truthy contentHash then "publisher_replace_with_bot_message"
        else "reply_message")
      publisherSourceContentHash := orKept contentHash row.publisherSourceContentHash
      replacementSendStartedAt := some now
      botId := orKept senderBotId row.botId }
  | .sendStarted _ _ reply now, row =>
    { row with
      deliveryMode := some (if reply then "reply_message" else "replace_with_bot_message")
      replacementSendStartedAt := some now }
  | .chatReplyResult _ replyMessageId senderBotId, row =>
    { row with
      deliveryMode := some "reply_message", replyMessageId := some replyMessageId
      replacementSendStartedAt := none, botId := orKept senderBotId row.botId }
  | .channelReplyResult _ replyMessageId publishedUrl, row =>
    { row with
      deliveryMode := some "reply_message", replyMessageId := some replyMessageId
      publishedUrl, replacementSendStartedAt := none }
  | .release kind lockToken r, row =>
    let repair := kind == .channelAutoPost && isChannelEditRecoveryLock lockToken
    { row with
      status := if repair then .skipped else row.status
      deliveryMode := if repair then some "edit_message" else row.deliveryMode
      lockToken := none, lockedAt := none, replacementSendStartedAt := none
      source := r.source, botId := r.botId
      linkType := if kind = .channelAutoPost then r.linkType else row.linkType
      lastError := r.lastError, lastStatusCode := r.lastStatusCode }
  | .skipAdmission _ _ botId reason, row =>
    { row with
      status := .skipped, lockToken := none, lockedAt := none, source := .webhook, botId
      deliveryMode := none, replacementMessageId := none, replyMessageId := none
      replacementSendStartedAt := none, publishedUrl := none, originalDeleted := false
      cleanupIntentId := none
      lastError := some ("Publisher chat-comment admission failed: " ++ reason)
      lastStatusCode := none }
  | .skipSettings _ _ botId, row =>
    { row with
      status := .skipped, lockToken := none, lockedAt := none, source := .webhook, botId
      deliveryMode := some "reply_message", replacementMessageId := none, replyMessageId := none
      replacementSendStartedAt := none, publishedUrl := none, originalDeleted := false
      cleanupIntentId := none
      lastError := some "Publisher chat-comment settings changed before dispatch"
      lastStatusCode := none }
  | .refresh _ _ now, row | .assertEdit _ now, row => { row with lockedAt := some now }
  | .retryableFailure _ _ senderBotId _ now lastError lastStatusCode, row =>
    { row with
      lockedAt := some now, replacementSendStartedAt := none, deliveryMode := none
      publisherSourceContentHash := none, botId := senderBotId, lastError := some lastError
      lastStatusCode }
  | .handOff _ _ _ _ _ reason, row =>
    { row with
      lockToken := none, lockedAt := none
      lastError := some ("Channel edit deferred before dispatch: " ++ reason)
      lastStatusCode := none }

/-- What `claim` creates when it has found no row. -/
structure Creation where
  kind : MarkerKind
  id : String
  lockToken : String
  now : Nat
  params : ClaimParams
  recovery : Bool

def Creation.row (c : Creation) : MarkerRow :=
  { id := c.id, lockToken := some c.lockToken, lockedAt := some c.now, source := c.params.source
    botId := c.params.botId
    linkType := if c.kind = .channelAutoPost then c.params.linkType else none
    deliveryMode := if c.recovery ∨ c.kind = .channelAutoPost ∧ c.params.replaySafeEdit ∧
      c.params.linkType ≠ some "forward" then some "edit_message" else none
    lastError := if c.recovery then some (withChannelEditRecoveryEvidence none) else none }

inductive Op
  | find (kind : MarkerKind)
  | create (c : Creation)
  | update (u : Update)

abbrev Op.Answer : Op → Type
  | .find _ => Option MarkerRow
  | .create _ | .update _ => Bool

def Op.run : (op : Op) → Markers → Markers × op.Answer
  | .find kind, s => (s, s kind)
  | .create c, s =>
    match s c.kind with
    | none => (Function.update s c.kind (some c.row), true)
    | some _ => (s, false)
  | .update u, s =>
    match (s u.kind).filter u.guard with
    | none => (s, false)
    | some row => (Function.update s u.kind (some (u.data row)), true)

end Maxim.Moderation.AttachMarker
