import Maxim.Library.Json
import Mathlib.Data.List.Dedup
import Mathlib.Logic.Function.Basic
import Mathlib.Data.List.Perm.Basic

/-!
# Candidates of the required-subscription rule

A candidate is one message of a member who may lack a required subscription.
Its row keeps the source, the deadline and the policy of the message, later the
frozen plan of the decision, and a journal of effects. Next to it stand the
tables that all rules share: the claims on message actions, the violations and
the moderation events. Other rules give their rows generated ids.
-/

namespace Maxim.Moderation.RequiredSubscription

open Maxim.Library

def RULE_CODE : String := "REQUIRED_SUBSCRIPTION"

def LEASE_MS : Nat := 30000

def REQUIRED_SUBSCRIPTION_MAX_CHANNELS : Nat := 10

/-! ## Sources -/

/-- What ties a record to the message and the policy of a candidate. -/
structure Binding where
  chatId : String
  userId : String
  messageId : String
  sourceAtMs : Nat
  deadlineAtMs : Nat
  policySha256 : String
  deriving DecidableEq

inductive UpdateType
  | messageCreated
  | messageEdited
  deriving DecidableEq

inductive MediaKind
  | mediaGroup
  | burst
  deriving DecidableEq

structure MediaScope where
  kind : MediaKind
  scopeDigest : String
  sourceCreatedAtMs : Nat
  deriving DecidableEq

structure Source extends Binding where
  originBotId : Option String
  updateType : UpdateType
  mediaScope : Option MediaScope
  userLabel : String
  maskedExcerpt : Option String
  rulesPublishedUrl : Option String
  rulesPublishedMessageId : Option String
  deriving DecidableEq

/-- `text(value, bytes, empty)`. -/
def text (bytes : Nat) (empty : Bool) (value : String) : Bool :=
  (empty || trim value ≠ "") && value.utf8ByteSize ≤ bytes

def nullableText (bytes : Nat) (empty : Bool) (value : Option String) : Bool :=
  value.all (text bytes empty)

/-- `/^[a-f0-9]{64}$/`. -/
def isSha256 (value : String) : Bool :=
  value.length = 64 && value.toList.all fun c => c.isDigit || ('a' ≤ c && c ≤ 'f')

def positiveTime (value : Nat) : Bool := 0 < value && value ≤ 9007199254740991

def validSource (s : Source) : Bool :=
  text 1024 false s.chatId && text 1024 false s.userId && text 1024 false s.messageId &&
  text 1024 false s.userLabel && positiveTime s.sourceAtMs && positiveTime s.deadlineAtMs &&
  s.deadlineAtMs = s.sourceAtMs + 300000 && isSha256 s.policySha256 &&
  nullableText 1024 false s.originBotId && nullableText 8192 true s.maskedExcerpt &&
  nullableText 2048 false s.rulesPublishedUrl && nullableText 1024 false s.rulesPublishedMessageId &&
  s.mediaScope.all fun media => isSha256 media.scopeDigest &&
    positiveTime media.sourceCreatedAtMs && media.sourceCreatedAtMs ≤ s.sourceAtMs

def readRequiredSubscriptionCandidateSource (s : Source) : Option Source :=
  if validSource s then some s else none

/-- `JSON.stringify` of an array of texts and numbers, each given as its text. -/
def jsonArray (items : List (List Char)) : String :=
  String.ofList ('[' :: [','].intercalate items ++ [']'])

def buildRequiredSubscriptionCandidateId (sha256 : String → String) (b : Binding) : String :=
  "required-subscription-candidate:v1:" ++ sha256 (jsonArray
    [Json.quoted b.chatId.toList, Json.quoted b.userId.toList, Json.quoted b.messageId.toList,
      Json.number b.sourceAtMs, Json.quoted b.policySha256.toList])

/-! ## Plans -/

/-- The id of a row: `:claim`, `:violation` or `:decision` of a candidate, or a generated one. -/
inductive RecordId
  | candidate (id : String)
  | generated (n : Nat)
  deriving DecidableEq

inductive Action
  | none
  | warn
  | mute
  | ban
  deriving DecidableEq

structure Qualification where
  requiredChannelIds : List String
  missingChannelIds : List String
  deriving DecidableEq

structure Sanction where
  action : Action
  issuedAtMs : Nat
  muteExpiresAtMs : Option Nat
  muteDurationHours : Nat
  eventId : RecordId
  noticeKey : String
  deriving DecidableEq

inductive MediaFieldKey
  | requiredSubscriptionBotMessageText
  | requiredSubscriptionWarnMessageText
  deriving DecidableEq

/-- `RequiredSubscriptionNoticePlan`; `messageOptions` is the text of a record, `bytes` the length
of the text of the notice. -/
structure Notice where
  action : Action
  renderedText : String
  messageOptions : Option String
  mediaFieldKey : Option MediaFieldKey
  deleteBotMessagesEnabled : Bool
  deleteBotMessagesDelayMinutes : Nat
  proofReasonKey : String
  proof : Binding
  bytes : Nat
  deriving DecidableEq

structure FrozenPlan where
  candidateId : String
  source : Source
  qualification : Qualification
  violationCount24h : Nat
  sanction : Sanction
  notice : Notice
  deriving DecidableEq

def validQualification (q : Qualification) : Bool :=
  q.requiredChannelIds ≠ [] && q.missingChannelIds ≠ [] &&
  q.requiredChannelIds.length ≤ REQUIRED_SUBSCRIPTION_MAX_CHANNELS &&
  q.requiredChannelIds.Nodup && q.missingChannelIds.Nodup &&
  q.requiredChannelIds.all (text 1024 false) &&
  q.missingChannelIds.all fun id => text 1024 false id && q.requiredChannelIds.contains id

def noticeKey (b : Binding) : String :=
  "required-subscription:notice:v1:" ++ b.chatId ++ ":" ++ b.messageId

def validSanction (s : Sanction) (b : Binding) (candidateId : String) : Bool :=
  positiveTime s.issuedAtMs && b.sourceAtMs ≤ s.issuedAtMs && s.issuedAtMs < b.deadlineAtMs &&
  s.eventId = .candidate candidateId && text 2048 false s.noticeKey && s.noticeKey = noticeKey b &&
  s.muteDurationHours ≤ 336 &&
  (if s.action = .mute then
    1 ≤ s.muteDurationHours && s.muteExpiresAtMs = some (s.issuedAtMs + s.muteDurationHours * 3600000)
  else s.muteExpiresAtMs = none)

def validNotice (n : Notice) (action : Action) (b : Binding) : Bool :=
  n.action = action && text (64 * 1024) false n.renderedText && n.messageOptions.isSome &&
  n.proofReasonKey = "REQUIRED_SUBSCRIPTION:message-delete" && n.proof = b && n.bytes ≤ 64 * 1024

def validPlan (plan : FrozenPlan) (source : Source) (candidateId : String) : Bool :=
  plan.candidateId = candidateId && text 1024 false candidateId && validSource plan.source &&
  validSource source && plan.source = source && validQualification plan.qualification &&
  1 ≤ plan.violationCount24h && plan.violationCount24h ≤ 9007199254740991 &&
  validSanction plan.sanction source.toBinding candidateId &&
  validNotice plan.notice plan.sanction.action source.toBinding

def readFrozenRequiredSubscriptionCandidatePlan (plan : FrozenPlan) (source : Source)
    (candidateId : String) : Option FrozenPlan :=
  if validPlan plan source candidateId then some plan else none

/-! ## The journal -/

inductive Phase
  | unstarted
  | banStarted
  | banConfirmed
  | unknown
  | sqlCommitted
  | settled
  deriving DecidableEq

inductive NoticeKind
  | noticeHandoff
  | mediaCoverage
  deriving DecidableEq

structure NoticeReceipt where
  candidateId : String
  binding : Binding
  kind : NoticeKind
  noticeKey : String
  receiptId : String
  deriving DecidableEq

inductive DeleteStatus
  | pending
  | inProgress
  | retryable
  | waitingCapability
  | succeeded
  | alreadyAbsent
  deriving DecidableEq

structure DeleteReceipt where
  candidateId : String
  binding : Binding
  intentId : String
  reasonKey : String
  rollout : String
  status : DeleteStatus
  deriving DecidableEq

inductive Reputation
  | started
  | done
  deriving DecidableEq

/-- The column `effects`; every field may be missing. -/
structure Effects where
  phase : Option Phase := none
  actionKey : Option String := none
  banBotId : Option String := none
  eventId : Option RecordId := none
  notice : Option NoticeReceipt := none
  delete : Option DeleteReceipt := none
  reputation : Option Reputation := none
  deriving DecidableEq

def Effects.currentPhase (effects : Effects) : Phase := effects.phase.getD .unstarted

inductive CandidateStatus
  | waitingCheck
  | running
  | unknown
  | done
  | noAction
  | expired
  deriving DecidableEq

def CandidateStatus.terminal (status : CandidateStatus) : Bool :=
  status = .done ∨ status = .noAction ∨ status = .expired

structure Row where
  /-- `chat_id`, `user_id`, `message_id`, `source_at`, `deadline_at` and `policy_sha256`. -/
  columns : Binding
  source : Source
  status : CandidateStatus := .waitingCheck
  frozenPlan : Option FrozenPlan := none
  claimId : Option RecordId := none
  effects : Effects := {}
  nextAttemptAt : Nat
  leaseToken : Option String := none
  leaseExpiresAt : Option Nat := none
  attemptCount : Nat := 0
  lastError : Option String := none
  completedAt : Option Nat := none
  createdAt : Nat
  updatedAt : Nat

/-- `assertOwnedLease`, and the condition of every update under a lease. -/
def Row.ownedBy (row : Row) (token : String) (now : Nat) : Bool :=
  row.status = .running && row.leaseToken = some token && row.leaseExpiresAt.any (now < ·)

/-! ## The other tables -/

structure MessageClaim where
  id : RecordId
  dedupeKey : String
  messageActionKey : Option String
  chatId : String
  userId : String
  messageId : String
  ruleCode : String
  updateType : String
  createdAt : Nat
  deriving DecidableEq

structure Violation where
  id : RecordId
  chatId : String
  userId : String
  ruleCode : String
  score : Nat := 1
  createdAt : Nat
  deriving DecidableEq

/-- The metadata that the candidate reads back. -/
structure EventMetadata where
  requiredSubscriptionCandidateId : Option String := none
  requiredSubscriptionViolationCount24h : Option Nat := none
  muteDurationHours : Option Nat := none
  muteExpiresAt : Option Nat := none
  deriving DecidableEq

structure ModerationEvent where
  id : RecordId
  chatId : String
  userId : String
  messageId : Option String
  botId : Option String
  eventType : String
  operator : String
  ruleCode : String
  action : Action
  maskedExcerpt : Option String
  createdAt : Nat
  metadata : EventMetadata
  deriving DecidableEq

/-- The settings of a chat with its type and its admins. `fingerprint` is
`fingerprintModerationSettings` of them. -/
structure ChatSettings where
  isChat : Bool
  admins : List String
  requiredSubscriptionEnabled : Bool
  /-- None when the setting is no array. -/
  requiredSubscriptionChannelIds : Option (List String)
  fingerprint : String
  deriving DecidableEq

structure Db where
  clock : Nat
  rows : String → Option Row
  claims : List MessageClaim
  /-- In the order in which they were committed. -/
  violations : List Violation
  events : List ModerationEvent
  settings : String → Option ChatSettings
  messageHeld : String → String → Bool
  memberHeld : String → String → Bool
  globalUserHeld : String → Bool

end Maxim.Moderation.RequiredSubscription

/-!
## Statements and transactions of the candidate store

Every statement and every transaction is one step on the tables. A transaction
reads the clock more than once, and the clock may go on between its readings. A
transaction that throws leaves the tables as they were.
-/

namespace Maxim.Moderation.RequiredSubscription

open Maxim.Library

/-! ## Reading a row -/

def Row.agrees (sha256 : String → String) (id : String) (row : Row) : Bool :=
  (readRequiredSubscriptionCandidateSource row.source).isSome &&
  id = buildRequiredSubscriptionCandidateId sha256 row.source.toBinding &&
  row.columns = row.source.toBinding && row.frozenPlan.all (validPlan · row.source id) &&
  row.claimId = row.frozenPlan.map fun _ => .candidate id

def readWith (sha256 : String → String) (db : Db) (id : String) : Except String (Option Row) :=
  match db.rows id with
  | none => .ok none
  | some row =>
    if row.agrees sha256 id then .ok (some row)
    else .error "Invalid stored required-subscription candidate authority"

def isHeld (db : Db) (b : Binding) : Bool :=
  db.messageHeld b.chatId b.messageId || db.memberHeld b.chatId b.userId || db.globalUserHeld b.userId

/-! ## Single statements -/

/-- `UPDATE … WHERE "id" = … AND guard`, and the number of rows. -/
def Db.update (db : Db) (id : String) (guard : Row → Bool) (data : Row → Row) : Db × Nat :=
  match db.rows id with
  | none => (db, 0)
  | some row =>
    if guard row then ({ db with rows := Function.update db.rows id (some (data row)) }, 1) else (db, 0)

/-- `INSERT … ON CONFLICT ("id") DO NOTHING` of `register`. -/
def Db.insert (sha256 : String → String) (db : Db) (source : Source) : Db × Nat :=
  let id := buildRequiredSubscriptionCandidateId sha256 source.toBinding
  match db.rows id with
  | some _ => (db, 0)
  | none =>
    ({ db with
        rows := Function.update db.rows id (some
          { columns := source.toBinding
            source := source
            nextAttemptAt := db.clock
            createdAt := db.clock
            updatedAt := db.clock }) }, 1)

def claimGuard (now : Nat) (row : Row) : Bool :=
  ((row.status = .waitingCheck || row.status = .unknown) && row.nextAttemptAt ≤ now) ||
    (row.status = .running && row.leaseExpiresAt.any (· ≤ now))

def claimData (now : Nat) (token : String) (row : Row) : Row :=
  { row with
      status := .running
      leaseToken := some token
      leaseExpiresAt := some (now + LEASE_MS)
      attemptCount := row.attemptCount + 1
      updatedAt := now }

/-- The statements of the journal that only need the lease. -/
inductive Patch
  | confirmBan (banBotId : Option String)
  | resetAfterProvenNoEffect
  | markUnknown
  | commitSqlEvent (eventId : RecordId)
  | completeReputation
  | settle
  deriving DecidableEq

/-- `"effects" || values`. -/
def Patch.apply (effects : Effects) : Patch → Effects
  | .confirmBan banBotId => { effects with phase := some .banConfirmed, banBotId }
  | .resetAfterProvenNoEffect => { effects with phase := some .unstarted }
  | .markUnknown => { effects with phase := some .unknown }
  | .commitSqlEvent eventId => { effects with phase := some .sqlCommitted, eventId := some eventId }
  | .completeReputation => { effects with reputation := some .done }
  | .settle => { effects with phase := some .settled }

/-- What `beginBan` needs besides the lease. -/
def beginBanGuard (id : String) (now : Nat) (row : Row) : Bool :=
  now < row.columns.deadlineAtMs && row.frozenPlan.any (·.sanction.action = .ban) &&
    row.claimId = some (.candidate id) && row.effects.currentPhase = .unstarted

inductive Receipt
  | notice (receipt : NoticeReceipt)
  | delete (receipt : DeleteReceipt)
  deriving DecidableEq

/-- The row has no receipt of this kind, or the same one; a DELETE may have gone on. -/
def Receipt.guard (effects : Effects) : Receipt → Bool
  | .notice receipt => effects.notice.all (· = receipt)
  | .delete receipt => effects.delete.all fun old => { old with status := receipt.status } = receipt

def Receipt.apply (effects : Effects) : Receipt → Effects
  | .notice receipt => { effects with notice := effects.notice.or (some receipt) }
  | .delete receipt => { effects with delete := effects.delete.or (some receipt) }

def Db.patch (db : Db) (id token : String) (guard : Row → Bool) (patch : Effects → Effects) :
    Db × Nat :=
  db.update id (fun row => row.ownedBy token db.clock && guard row)
    fun row => { row with effects := patch row.effects, updatedAt := db.clock }

def finishData (now : Nat) (status : CandidateStatus) (errorCode : Option String) (delayMs : Nat)
    (row : Row) : Row :=
  { row with
      status
      leaseToken := none
      leaseExpiresAt := none
      nextAttemptAt := now + delayMs
      lastError := errorCode
      completedAt := if status.terminal then some now else none
      updatedAt := now }

/-! ## `freezeOwnClaimAndDecision` -/

/-- What `buildPlan` is given. -/
structure FreezeContext where
  candidateId : String
  source : Source
  qualification : Qualification
  violationCount24h : Nat
  issuedAtMs : Nat
  eventId : RecordId
  settings : ChatSettings

structure FreezeInput where
  id : String
  leaseToken : String
  qualification : Qualification
  /-- None when it throws. -/
  buildPlan : FreezeContext → Option FrozenPlan

inductive FreezeResult
  | owned (plan : FrozenPlan)
  | foreignClaimBlocked
  | authorityRevoked (reason : String)

def policyRefuses (settings : ChatSettings) (b : Binding) : Bool :=
  !settings.isChat || settings.admins.contains b.userId || !settings.requiredSubscriptionEnabled ||
    settings.requiredSubscriptionChannelIds.isNone || settings.fingerprint ≠ b.policySha256

/-- The qualification is not for the channels of the settings. -/
def qualificationRefuses (settings : ChatSettings) (q : Qualification) : Bool :=
  q.requiredChannelIds = [] || q.missingChannelIds = [] || !decide q.requiredChannelIds.Nodup ||
    !decide q.missingChannelIds.Nodup ||
    q.missingChannelIds.any (fun id => !q.requiredChannelIds.contains id) ||
    -- the sorted copies differ
    !(q.requiredChannelIds.isPerm (settings.requiredSubscriptionChannelIds.getD []).dedup)

def buildMessageScopedModerationActionClaimKey (sha256 : String → String) (chatId messageId : String) :
    String :=
  "v1:" ++ sha256 (jsonArray [Json.quoted chatId.toList, Json.quoted messageId.toList])

/-- `dedupeKey` of `buildModerationMessageViolationProcessingClaimKey`. -/
def buildDedupeKey (sha256 : String → String) (chatId userId messageId ruleCode updateType : String) :
    String :=
  "v1:" ++ sha256
    (chatId ++ ":" ++ userId ++ ":" ++ messageId ++ ":" ++ ruleCode ++ ":" ++ updateType)

/-- The claim of a candidate on the message action. -/
def ownClaim (sha256 : String → String) (id : String) (b : Binding) (issuedAt : Nat) : MessageClaim where
  id := .candidate id
  dedupeKey := buildDedupeKey sha256 b.chatId b.userId b.messageId RULE_CODE "message_action"
  messageActionKey := some (buildMessageScopedModerationActionClaimKey sha256 b.chatId b.messageId)
  chatId := b.chatId
  userId := b.userId
  messageId := b.messageId
  ruleCode := RULE_CODE
  updateType := "message_action"
  createdAt := issuedAt

/-- The strike of a candidate. -/
def ownViolation (id : String) (b : Binding) (issuedAt : Nat) : Violation where
  id := .candidate id
  chatId := b.chatId
  userId := b.userId
  ruleCode := RULE_CODE
  createdAt := issuedAt

def conflicts (claims : List MessageClaim) (claim : MessageClaim) : Bool :=
  claims.any fun c => c.id = claim.id || c.dedupeKey = claim.dedupeKey ||
    (claim.messageActionKey.isSome && c.messageActionKey = claim.messageActionKey)

/-- The latest manual release of the member until `issuedAt`; 0 without one. -/
def latestRelease (events : List ModerationEvent) (chatId userId : String) (issuedAt : Nat) : Nat :=
  (events.filter fun e => e.chatId = chatId && e.userId = userId && e.createdAt ≤ issuedAt &&
    (e.ruleCode = "MANUAL_UNMUTE" || e.ruleCode = "MANUAL_UNBAN")).foldr
      (fun e latest => max e.createdAt latest) 0

def windowStart (events : List ModerationEvent) (chatId userId : String) (issuedAt : Nat) : Nat :=
  max (issuedAt - 86400000) (latestRelease events chatId userId issuedAt)

def strikes (violations : List Violation) (chatId userId : String) (since issuedAt : Nat) : Nat :=
  violations.countP fun v => v.chatId = chatId && v.userId = userId && v.ruleCode = RULE_CODE &&
    since ≤ v.createdAt && v.createdAt ≤ issuedAt

/-- The plan that `buildPlan` proposes, if it passes. -/
def checkedPlan (input : FreezeInput) (source : Source) (settings : ChatSettings)
    (violationCount24h issuedAt : Nat) : Option FrozenPlan :=
  (input.buildPlan
    { candidateId := input.id
      source
      qualification := input.qualification
      violationCount24h
      issuedAtMs := issuedAt
      eventId := .candidate input.id
      settings }).filter fun plan =>
        validPlan plan source input.id && plan.violationCount24h = violationCount24h &&
          plan.sanction.issuedAtMs = issuedAt && plan.sanction.eventId = .candidate input.id &&
          plan.qualification = input.qualification

/-- The transaction after its checks: claim, strike, count, plan. -/
def freezeDecision (sha256 : String → String) (input : FreezeInput) (row : Row) (settings : ChatSettings)
    (issuedAt savedAt : Nat) (db : Db) : Except String (Db × FreezeResult) :=
  let b := row.columns
  if b.deadlineAtMs ≤ issuedAt || !row.leaseExpiresAt.any (issuedAt < ·) then
    .error "Required-subscription candidate decision authority expired"
  else if conflicts db.claims (ownClaim sha256 input.id b issuedAt) then
    .ok (db, .foreignClaimBlocked)
  else if db.violations.any (·.id = .candidate input.id) then .error "P2002"
  else
    let violations := db.violations ++ [ownViolation input.id b issuedAt]
    let since := windowStart db.events b.chatId b.userId issuedAt
    match checkedPlan input row.source settings
        (strikes violations b.chatId b.userId since issuedAt) issuedAt with
    | none => .error "Invalid required-subscription frozen decision"
    | some plan =>
      if row.ownedBy input.leaseToken savedAt && savedAt < b.deadlineAtMs && row.frozenPlan.isNone &&
          row.claimId.isNone then
        .ok ({ db with
                rows := Function.update db.rows input.id (some
                  { row with
                      frozenPlan := some plan
                      claimId := some (.candidate input.id)
                      updatedAt := savedAt })
                claims := db.claims ++ [ownClaim sha256 input.id b issuedAt]
                violations }, .owned plan)
      else .error "Required-subscription candidate freeze lease lost"

/-- The whole transaction; it reads the clock at the start, at `issuedAt` and at `savedAt`. -/
def freezeOwnClaimAndDecision (sha256 : String → String) (input : FreezeInput)
    (issuedAt savedAt : Nat) (db : Db) : Except String (Db × FreezeResult) :=
  match readWith sha256 db input.id with
  | .error e => .error e
  | .ok none => .error "Required-subscription candidate missing"
  | .ok (some row) =>
    if !row.ownedBy input.leaseToken db.clock then .error "Required-subscription candidate lease lost"
    else
      match row.frozenPlan, db.settings row.columns.chatId with
      | some plan, _ => .ok (db, .owned plan)
      | none, settings =>
        if row.columns.deadlineAtMs ≤ db.clock then .ok (db, .authorityRevoked "deadline")
        else if isHeld db row.columns then .ok (db, .authorityRevoked "held_source")
        else match settings with
          | none => .ok (db, .authorityRevoked "policy_or_author")
          | some settings =>
            if policyRefuses settings row.columns then .ok (db, .authorityRevoked "policy_or_author")
            else if qualificationRefuses settings input.qualification then
              .ok (db, .authorityRevoked "qualification")
            else freezeDecision sha256 input row settings issuedAt savedAt db

/-! ## `persistDeterministicEvent` -/

def decisionEvent (id : String) (row : Row) (plan : FrozenPlan) : ModerationEvent where
  id := plan.sanction.eventId
  chatId := row.columns.chatId
  userId := row.columns.userId
  messageId := some row.columns.messageId
  botId := row.effects.banBotId.or row.source.originBotId
  eventType := "MESSAGE"
  operator := "BOT"
  ruleCode := RULE_CODE
  action := plan.sanction.action
  maskedExcerpt := row.source.maskedExcerpt
  createdAt := plan.sanction.issuedAtMs
  metadata :=
    { requiredSubscriptionCandidateId := some id
      requiredSubscriptionViolationCount24h := some plan.violationCount24h
      muteDurationHours :=
        if plan.sanction.action = .mute then some plan.sanction.muteDurationHours else none
      muteExpiresAt := if plan.sanction.action = .mute then plan.sanction.muteExpiresAtMs else none }

/-- The stored event is the one of the decision. Only a mute compares its duration. -/
def sameEvent (existing event : ModerationEvent) : Bool :=
  existing.chatId = event.chatId && existing.userId = event.userId &&
  existing.messageId = event.messageId && existing.ruleCode = event.ruleCode &&
  existing.action = event.action && existing.eventType = event.eventType &&
  existing.operator = event.operator && existing.createdAt = event.createdAt &&
  existing.maskedExcerpt = event.maskedExcerpt &&
  existing.metadata.requiredSubscriptionCandidateId = event.metadata.requiredSubscriptionCandidateId &&
  existing.metadata.requiredSubscriptionViolationCount24h =
    event.metadata.requiredSubscriptionViolationCount24h &&
  (event.action ≠ .mute || (existing.metadata.muteDurationHours = event.metadata.muteDurationHours &&
    existing.metadata.muteExpiresAt = event.metadata.muteExpiresAt))

def releasedSince (events : List ModerationEvent) (b : Binding) (since : Nat) : Bool :=
  events.any fun e => e.chatId = b.chatId && e.userId = b.userId &&
    (e.ruleCode = "MANUAL_UNMUTE" || e.ruleCode = "MANUAL_UNBAN") && since ≤ e.createdAt

/-- A new event has no authority any more. A confirmed ban needs none. -/
def eventRefused (row : Row) (plan : FrozenPlan) (finalNow : Nat) (db : Db) : Bool :=
  if plan.sanction.action = .ban && row.effects.phase = some .banConfirmed then false
  else if plan.sanction.action = .ban || isHeld db row.columns then true
  else match db.settings row.columns.chatId with
    | none => true
    | some settings =>
      !settings.isChat || settings.admins.contains row.columns.userId ||
        !settings.requiredSubscriptionEnabled || settings.fingerprint ≠ row.columns.policySha256 ||
        releasedSince db.events row.columns plan.sanction.issuedAtMs ||
        row.columns.deadlineAtMs ≤ finalNow || !row.leaseExpiresAt.any (finalNow < ·)

/-- The transaction reads the clock at the start, at `finalNow` and at `savedAt`. -/
def persistDeterministicEvent (sha256 : String → String) (id token : String) (finalNow savedAt : Nat)
    (db : Db) : Except String (Db × ModerationEvent) :=
  match readWith sha256 db id with
  | .error e => .error e
  | .ok none => .error "Required-subscription candidate has no owned decision"
  | .ok (some row) =>
    match row.frozenPlan with
    | none => .error "Required-subscription candidate has no owned decision"
    | some plan =>
      if !row.ownedBy token db.clock then .error "Required-subscription candidate lease lost"
      else
        let existing := db.events.find? fun e => e.id = plan.sanction.eventId
        if !existing.all (sameEvent · (decisionEvent id row plan)) then
          .error "Required-subscription candidate event identity changed"
        else if existing.isNone && eventRefused row plan finalNow db then
          .error "Moderation rule sanction rejected"
        else if !row.ownedBy token savedAt then
          .error "Required-subscription candidate event checkpoint lease lost"
        else
          let event := existing.getD (decisionEvent id row plan)
          .ok ({ db with
                  rows := Function.update db.rows id (some
                    { row with
                        effects := { row.effects with
                          phase := some .sqlCommitted
                          eventId := some plan.sanction.eventId }
                        updatedAt := savedAt })
                  events := if existing.isSome then db.events else db.events ++ [event] }, event)

end Maxim.Moderation.RequiredSubscription
