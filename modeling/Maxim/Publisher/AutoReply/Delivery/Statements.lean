import Maxim.Library.Text
import Maxim.Library.Interleave

/-!
# The rows behind an automatic reply

A delivery answers one source message and is identified by it. The source
fence says whether the message may still be answered, and a cooldown keeps the
answers of a rule to one user apart.
-/

namespace Maxim.Publisher.AutoReply.Delivery

open Maxim.Library

inductive DeliveryStatus
  | pending
  | sending
  | sent
  | failed
  | ambiguous
  | canceled
  deriving DecidableEq, Repr

/-- The status of a source fence, which is missing, READY or COMPLETED. -/
inductive FenceStatus
  | ready
  | completed
  deriving DecidableEq, Repr

inductive MatchKind
  | exactFull
  | exactContext
  | fuzzyFull
  | fuzzyContext
  deriving DecidableEq, Repr

inductive ExtendedMatchingMode
  | off
  | shadow
  | on
  deriving DecidableEq, Repr

/-- `chatId` and `sourceMessageId`, which are unique together. -/
abbrev Key := String × String

structure SourceIdentity where
  publisherBotId : String
  chatId : String
  sourceMessageId : String
  deriving DecidableEq, Repr

/-- The columns that are written when a delivery is created. -/
structure NewDelivery where
  chatId : String
  ruleId : String
  contentRevisionId : String
  publisherBotId : String
  sourceMessageId : String
  sourceUserId : Option String
  matchedRuleVersion : Nat
  matchedNormalizedPhrase : String
  matchedTriggerId : Option String
  matchKind : MatchKind
  matcherVersion : Nat
  autoReplyConfigRevision : Nat
  publisherSettingsRevision : Nat
  publicationPolicyRevision : Nat
  dueAt : Nat
  deriving DecidableEq, Repr

def NewDelivery.key (d : NewDelivery) : Key := (d.chatId, d.sourceMessageId)

def NewDelivery.source (d : NewDelivery) : SourceIdentity :=
  ⟨d.publisherBotId, d.chatId, d.sourceMessageId⟩

/-- A row of `publisher_auto_reply_deliveries`. `dispatchStartedAt` is the send fence. -/
structure Row extends NewDelivery where
  status : DeliveryStatus := .pending
  lockedAt : Option Nat := none
  lockToken : Option String := none
  dispatchStartedAt : Option Nat := none
  remoteMessageId : Option String := none
  deriving DecidableEq, Repr

structure Rule where
  chatId : String
  version : Nat
  normalizedPhrase : String
  enabled : Bool
  archivedAt : Option Nat
  cooldownSeconds : Int
  currentContentRevisionId : Option String
  deriving DecidableEq, Repr

structure Trigger where
  id : String
  ruleId : String
  chatId : String
  normalizedPhrase : String
  archivedAt : Option Nat
  deriving DecidableEq, Repr

/-- A content revision, with the chats of its assets. -/
structure Content where
  id : String
  ruleId : String
  assetChatIds : List String
  deriving DecidableEq, Repr

structure Settings where
  autoRepliesEnabled : Bool
  autoReplyConfigRevision : Nat
  revision : Nat
  deriving DecidableEq, Repr

structure Policy where
  publikEnabled : Bool
  revision : Nat
  deriving DecidableEq, Repr

/-- The columns of a binding that are compared with something else than themselves. -/
structure Binding where
  publisherBotId : String
  active : Bool
  botAccessCheckedAt : Option Nat
  sendRouteQuarantinedUntil : Option Nat
  deriving DecidableEq, Repr

structure Chat where
  isChat : Bool
  settings : Option Settings
  policy : Option Policy
  binding : Option Binding
  deriving DecidableEq, Repr

structure Cooldown where
  nextAllowedAt : Nat
  lastSourceMessageId : String
  version : Nat
  deriving DecidableEq, Repr

/-- A delivery with the rows that are read with it. -/
structure LeasedDelivery extends Row where
  rule : Rule
  matchedTrigger : Option Trigger
  settings : Option Settings
  policy : Option Policy
  content : Content
  deriving DecidableEq, Repr

/-- The tables, and the database clock in microseconds. The other dates are in milliseconds. -/
structure Db (κ : Type) where
  fences : κ → Option FenceStatus
  deliveries : Key → Option Row
  rules : String → Option Rule
  triggers : String → Option Trigger
  contents : String → Option Content
  chats : String → Option Chat
  cooldowns : String × String → Option Cooldown
  clock : Nat

structure Config where
  publisherBotId : String
  extendedMatchingMode : ExtendedMatchingMode

def DELIVERY_LEASE_MS : Nat := 2 * 60000
def CONFIRMED_RECEIPT_WRITE_ATTEMPTS : Nat := 3

variable {κ : Type}

def Db.lease (s : Db κ) (row : Row) : Option LeasedDelivery :=
  match s.rules row.ruleId, s.contents row.contentRevisionId, s.chats row.chatId with
  | some rule, some content, some chat =>
    some { row with
      rule
      matchedTrigger := row.matchedTriggerId.bind s.triggers
      settings := chat.settings
      policy := chat.policy
      content }
  | _, _, _ => none

/-- `assertCurrentEpoch` does not throw. -/
def LeasedDelivery.currentEpoch (cfg : Config) (d : LeasedDelivery) : Bool :=
  d.publisherBotId == cfg.publisherBotId &&
  d.status == .sending &&
  truthy d.sourceUserId &&
  d.rule.archivedAt.isNone &&
  d.rule.enabled &&
  d.rule.version == d.matchedRuleVersion &&
  (cfg.extendedMatchingMode == .on || d.matchKind == .exactFull) &&
  d.matcherVersion == 1 &&
  (match d.matchedTriggerId.filter (· != "") with
    | some triggerId => d.matchedTrigger.any fun trigger =>
        trigger.id == triggerId && trigger.ruleId == d.ruleId && trigger.archivedAt.isNone &&
          trigger.normalizedPhrase == d.matchedNormalizedPhrase
    | none => d.rule.normalizedPhrase == d.matchedNormalizedPhrase) &&
  d.rule.currentContentRevisionId == some d.contentRevisionId &&
  d.content.id == d.contentRevisionId &&
  d.content.ruleId == d.ruleId &&
  (d.settings.any fun settings =>
    settings.autoRepliesEnabled && settings.revision == d.publisherSettingsRevision &&
      settings.autoReplyConfigRevision == d.autoReplyConfigRevision) &&
  d.policy.all (·.publikEnabled) &&
  (d.policy.elim 0 (·.revision)) == d.publicationPolicyRevision &&
  d.content.assetChatIds.all (· == d.chatId)

end Maxim.Publisher.AutoReply.Delivery

/-!
## The statements and transactions behind an automatic reply

An update of a delivery has the conditions of its WHERE clause as a guard on
the row, and answers whether the row was counted. The send fence is recorded in
one transaction: it locks the source fence, checks the epoch, claims the
cooldown and admits the send, and a refusal anywhere rolls everything back.
-/

namespace Maxim.Publisher.AutoReply.Delivery

open Maxim.Library

variable {κ : Type}

/-! ## Updates of a delivery -/

inductive Update
  | claim (now : Nat) (lockToken : String)
  | completeSent (d : NewDelivery) (dispatchStartedAt : Nat) (remoteMessageId : String)
  | clearDefinitiveSendFence (lockToken : String)
  | cancelClaim (lockToken : String)
  | failClaim (lockToken : String)
  | retryClaim (lockToken : String)
  | quarantineAmbiguous (lockToken : Option String)
  /-- `cancelPendingDelivery` of the producer. -/
  | cancelPending
  /-- The update of `cancelPendingSourceDelivery`. -/
  | cancelSource (publisherBotId : String)
  /-- The update of the producer when dispatch is disabled. -/
  | cancelQueued
  /-- The updates of a recovery sweep. -/
  | quarantineStale (dispatchStartedAt : Nat)
  | resetStale (lockToken : Option String)
  deriving DecidableEq, Repr

def Update.guard : Update → Row → Bool
  | .claim now _, row =>
    row.dispatchStartedAt.isNone &&
      (row.status == .pending ||
        row.status == .sending && row.lockedAt.all fun lockedAt => lockedAt + DELIVERY_LEASE_MS ≤ now)
  | .completeSent d dispatchStartedAt remoteMessageId, row =>
    row.chatId == d.chatId && row.ruleId == d.ruleId &&
      row.contentRevisionId == d.contentRevisionId && row.publisherBotId == d.publisherBotId &&
      row.sourceMessageId == d.sourceMessageId &&
      row.dispatchStartedAt == some dispatchStartedAt &&
      ((row.status == .sending || row.status == .ambiguous) && row.remoteMessageId.isNone ||
        (row.status == .sending || row.status == .ambiguous || row.status == .sent) &&
          row.remoteMessageId == some remoteMessageId)
  | .clearDefinitiveSendFence lockToken, row =>
    row.status == .sending && row.lockToken == some lockToken && row.dispatchStartedAt.isSome &&
      row.remoteMessageId.isNone
  | .cancelClaim lockToken, row | .failClaim lockToken, row | .retryClaim lockToken, row =>
    row.status == .sending && row.lockToken == some lockToken && row.dispatchStartedAt.isNone
  | .quarantineAmbiguous lockToken, row =>
    row.status == .sending && row.dispatchStartedAt.isSome &&
      lockToken.all fun token => token == "" || row.lockToken == some token
  | .cancelPending, row =>
    (row.status == .pending || row.status == .sending) && row.dispatchStartedAt.isNone
  | .cancelSource publisherBotId, row =>
    row.publisherBotId == publisherBotId && (row.status == .pending || row.status == .sending) &&
      row.dispatchStartedAt.isNone
  | .cancelQueued, row => row.status == .pending && row.dispatchStartedAt.isNone
  | .quarantineStale dispatchStartedAt, row =>
    row.status == .sending && row.dispatchStartedAt == some dispatchStartedAt
  | .resetStale lockToken, row =>
    row.status == .sending && row.dispatchStartedAt.isNone && row.lockToken == lockToken

def Row.unlock (row : Row) (status : DeliveryStatus) : Row :=
  { row with status, lockedAt := none, lockToken := none }

def Update.data : Update → Row → Row
  | .claim now lockToken, row =>
    { row with status := .sending, lockedAt := some now, lockToken := some lockToken }
  | .completeSent _ _ remoteMessageId, row =>
    { row.unlock .sent with remoteMessageId := some remoteMessageId }
  | .clearDefinitiveSendFence _, row => { row with dispatchStartedAt := none }
  | .cancelClaim _, row | .cancelPending, row | .cancelSource _, row => row.unlock .canceled
  | .failClaim _, row => row.unlock .failed
  | .retryClaim _, row | .resetStale _, row => row.unlock .pending
  | .quarantineAmbiguous _, row | .quarantineStale _, row => row.unlock .ambiguous
  | .cancelQueued, row => { row with status := .canceled }

/-- `updateMany` on one delivery. -/
def Db.update (s : Db κ) (key : Key) (u : Update) : Db κ × Bool :=
  match s.deliveries key with
  | some row =>
    if u.guard row then
      ({ s with deliveries := Function.update s.deliveries key (some (u.data row)) }, true)
    else (s, false)
  | none => (s, false)

/-- `createMany` with `skipDuplicates`. -/
def Db.create (s : Db κ) (d : NewDelivery) : Db κ :=
  match s.deliveries d.key with
  | some _ => s
  | none => { s with deliveries := Function.update s.deliveries d.key (some { d with }) }

/-! ## The send fence -/

inductive FenceError
  | epochChanged (message : String)
  | claimLost
  | cooldown
  deriving DecidableEq, Repr

/-- How long the transaction takes to each of its readings of the clock. -/
structure Elapsed where
  values : Nat
  conflict : Nat
  set : Nat
  final : Nat
  deriving DecidableEq, Repr

def Elapsed.insertAt (e : Elapsed) (clock : Nat) : Nat := clock + e.values
def Elapsed.conflictAt (e : Elapsed) (clock : Nat) : Nat := e.insertAt clock + e.conflict
def Elapsed.setAt (e : Elapsed) (clock : Nat) : Nat := e.conflictAt clock + e.set
def Elapsed.finalAt (e : Elapsed) (clock : Nat) : Nat := e.setAt clock + e.final

/-- A time in microseconds as it is stored in `TIMESTAMP(3)`. -/
def roundMs (us : Nat) : Nat := (us + 500) / 1000

def LeasedDelivery.cooldownSeconds (d : LeasedDelivery) : Nat := d.rule.cooldownSeconds.toNat

/-- The user and the seconds of the cooldown, when there is one. -/
def LeasedDelivery.cooldown? (d : LeasedDelivery) : Option (String × Nat) :=
  match nullableString d.sourceUserId with
  | some sourceUserId =>
    if 0 < d.cooldownSeconds then some (sourceUserId, d.cooldownSeconds) else none
  | none => none

def claimCooldown (d : LeasedDelivery) (e : Elapsed) (s : Db κ) : Except FenceError (Db κ) :=
  match d.cooldown? with
  | none => .ok s
  | some (sourceUserId, seconds) =>
    let key := (d.ruleId, sourceUserId)
    match s.cooldowns key with
    | none =>
      .ok { s with cooldowns := Function.update s.cooldowns key (some {
        nextAllowedAt := roundMs (e.insertAt s.clock + seconds * 1000000)
        lastSourceMessageId := d.sourceMessageId
        version := 1 }) }
    | some row =>
      let own := row.lastSourceMessageId = d.sourceMessageId
      if own ∨ row.nextAllowedAt * 1000 ≤ e.conflictAt s.clock then
        .ok { s with cooldowns := Function.update s.cooldowns key (some {
          nextAllowedAt :=
            if own then row.nextAllowedAt else roundMs (e.setAt s.clock + seconds * 1000000)
          lastSourceMessageId := d.sourceMessageId
          version := if own then row.version else row.version + 1 }) }
      else .error .cooldown

/-- The WHERE clause of the final update of the delivery. The binding is compared with itself in
the same transaction, except for its dates. -/
def admits (d : LeasedDelivery) (lockToken : String) (nowUs : Nat) (s : Db κ) (row : Row) : Bool :=
  row.ruleId == d.ruleId && row.contentRevisionId == d.contentRevisionId &&
  row.sourceMessageId == d.sourceMessageId && row.matchedRuleVersion == d.matchedRuleVersion &&
  row.matchedNormalizedPhrase == d.matchedNormalizedPhrase &&
  row.matchedTriggerId == d.matchedTriggerId &&
  row.publisherSettingsRevision == d.publisherSettingsRevision &&
  row.autoReplyConfigRevision == d.autoReplyConfigRevision &&
  row.publicationPolicyRevision == d.publicationPolicyRevision &&
  row.status == .sending && row.lockToken == some lockToken && row.dispatchStartedAt.isNone &&
  ((s.rules row.ruleId).any fun rule =>
    rule.chatId == row.chatId && rule.enabled && rule.archivedAt.isNone &&
    rule.version == row.matchedRuleVersion &&
    rule.currentContentRevisionId == some row.contentRevisionId &&
    (row.matchedTriggerId.isNone && rule.normalizedPhrase == row.matchedNormalizedPhrase ||
      (row.matchedTriggerId.bind s.triggers).any fun trigger =>
        trigger.ruleId == row.ruleId && trigger.chatId == row.chatId && trigger.archivedAt.isNone &&
          trigger.normalizedPhrase == row.matchedNormalizedPhrase)) &&
  ((s.chats row.chatId).any fun chat =>
    chat.isChat &&
    (chat.settings.any fun settings =>
      settings.autoRepliesEnabled && settings.revision == row.publisherSettingsRevision &&
        settings.autoReplyConfigRevision == row.autoReplyConfigRevision) &&
    (row.publicationPolicyRevision == 0 && chat.policy.isNone ||
      chat.policy.any fun policy =>
        policy.publikEnabled && policy.revision == row.publicationPolicyRevision) &&
    (chat.binding.any fun binding =>
      binding.publisherBotId == row.publisherBotId && binding.active &&
      (binding.botAccessCheckedAt.any fun checkedAt => checkedAt * 1000 ≤ nowUs) &&
      (binding.sendRouteQuarantinedUntil.all fun untilMs => untilMs * 1000 ≤ nowUs)))

/-- The second part of the final statement: the owned cooldown row is moved to the fence. -/
def rebaseCooldown (d : LeasedDelivery) (dispatchStartedAt : Nat) (s : Db κ) : Option (Db κ) :=
  match d.cooldown? with
  | none => some s
  | some (sourceUserId, seconds) =>
    let key := (d.ruleId, sourceUserId)
    match s.cooldowns key with
    | some row =>
      if row.lastSourceMessageId = d.sourceMessageId then
        some { s with cooldowns := Function.update s.cooldowns key (some { row with
          nextAllowedAt := max row.nextAllowedAt (dispatchStartedAt + seconds * 1000) }) }
      else none
    | none => none

/-- `assertFinalAutoReplyEpochAndBinding`. `ready` is the verdict of the readiness service on the
chat that it reads. -/
def assertFinalAutoReplyEpochAndBinding (d : LeasedDelivery) (lockToken : String) (ready : Bool)
    (e : Elapsed) (s : Db κ) : Except FenceError (Db κ × Nat) :=
  match s.deliveries d.key with
  | none => .error .claimLost
  | some row =>
    if ¬(row.publisherBotId = d.publisherBotId ∧ row.status = .sending ∧
        row.lockToken = some lockToken ∧ row.dispatchStartedAt = none) then .error .claimLost
    else if ¬(ready ∧ ((s.chats d.chatId).bind (·.binding)).any
        (·.publisherBotId == d.publisherBotId)) then
      .error (.epochChanged "Publisher auto-reply binding changed")
    else if admits d lockToken (e.finalAt s.clock) s row then
      let dispatchStartedAt := e.finalAt s.clock / 1000
      match rebaseCooldown d dispatchStartedAt s with
      | some s =>
        let started := { row with dispatchStartedAt := some dispatchStartedAt }
        .ok ({ s with deliveries := Function.update s.deliveries d.key (some started) },
          dispatchStartedAt)
      | none => .error (.epochChanged "Publisher auto-reply final epoch changed")
    else .error (.epochChanged "Publisher auto-reply final epoch changed")

def sendFenceTransaction (semanticKey : SourceIdentity → κ) (cfg : Config) (d : LeasedDelivery)
    (lockToken : String) (ready : Bool) (e : Elapsed) (s : Db κ) : Except FenceError (Db κ × Nat) :=
  if s.fences (semanticKey d.source) ≠ some .ready then
    .error (.epochChanged "Publisher auto-reply source changed")
  else
    match ((s.deliveries d.key).filter fun row =>
        row.status == .sending && row.lockToken == some lockToken &&
          row.dispatchStartedAt.isNone).bind s.lease with
    | none => .error .claimLost
    | some current =>
      -- The assets of the captured content stand for those of the current one.
      if ({ current with content := { current.content with
          assetChatIds := d.content.assetChatIds } } : LeasedDelivery).currentEpoch cfg then
        claimCooldown current e s >>= assertFinalAutoReplyEpochAndBinding d lockToken ready e
      else .error (.epochChanged "Publisher auto-reply epoch changed")

/-- `recordSendFence`: what throws rolls the transaction back. -/
def recordSendFence (semanticKey : SourceIdentity → κ) (cfg : Config) (d : LeasedDelivery)
    (lockToken : String) (ready : Bool) (e : Elapsed) (s : Db κ) : Db κ × Except FenceError Nat :=
  match sendFenceTransaction semanticKey cfg d lockToken ready e s with
  | .ok (s', dispatchStartedAt) =>
    ({ s' with clock := e.finalAt s.clock }, .ok dispatchStartedAt)
  | .error z => ({ s with clock := e.finalAt s.clock }, .error z)

end Maxim.Publisher.AutoReply.Delivery
