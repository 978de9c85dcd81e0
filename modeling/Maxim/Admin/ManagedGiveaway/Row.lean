import Maxim.Library.Text

/-!
# The row of a managed giveaway

Every statement on a giveaway is an update with the conditions of its WHERE
clause as a guard and the columns that it writes. `lockedAt` and `sendLockKey`
are the lock of a send, of the publication while the giveaway is a draft and of
the results when it is completed; `lockedAt` and `drawSeed` are the lease of a
draw.
-/

namespace Maxim.Admin.ManagedGiveaway

open Maxim.Library

inductive Status
  | draft
  | scheduled
  | active
  | drawing
  | completed
  | canceled
  deriving DecidableEq, Repr

/-- The columns that a statement reads or that the lifecycle writes. -/
structure Giveaway where
  status : Status := .draft
  description : String
  startsAt : Option Nat
  endsAt : Nat
  lockedAt : Option Nat := none
  sendLockKey : Option String := none
  publicationMessageId : Option String := none
  resultsMessageId : Option String := none
  drawSeed : Option String := none
  drawnAt : Option Nat := none
  updatedAt : Nat := 0
  deriving DecidableEq, Repr

inductive Phase
  | publication
  | results
  deriving DecidableEq, Repr

def GIVEAWAY_LOCK_STALE_MS : Nat := 60000

/-! ## Lock keys -/

/-- The id of the giveaway, and the digest of a replaced results message. -/
structure LockKeys where
  giveawayId : String
  digest : String → String

def Phase.name : Phase → String
  | .publication => "publication"
  | .results => "results"

def LockKeys.buildGiveawaySendLockKey (keys : LockKeys) (phase : Phase) : String :=
  "managed-giveaway:" ++ phase.name ++ ":" ++ keys.giveawayId

def LockKeys.replacementPrefix (keys : LockKeys) : String :=
  "managed-giveaway:results-replacement:" ++ keys.giveawayId ++ ":"

def LockKeys.buildGiveawayResultsReplacementSendLockKey (keys : LockKeys)
    (replacedMessageId : String) : String :=
  keys.replacementPrefix ++ keys.digest replacedMessageId

/-- `GIVEAWAY_RESULTS_REPLACEMENT_DIGEST_PATTERN`. -/
def isReplacementDigest (digest : List Char) : Bool :=
  digest.length == 24 && digest.all fun c => c.isDigit || (97 ≤ c.toNat && c.toNat ≤ 102)

def LockKeys.isGiveawayResultsReplacementSendLockKey (keys : LockKeys) (lockKey : String) : Bool :=
  keys.replacementPrefix.toList.isPrefixOf lockKey.toList &&
    isReplacementDigest (lockKey.toList.drop keys.replacementPrefix.length)

def LockKeys.resolveGiveawaySendLockKey (keys : LockKeys) (giveaway : Giveaway) (phase : Phase) :
    String :=
  match nullableString giveaway.sendLockKey with
  | some storedLockKey =>
    if phase = .results ∧ ¬truthy giveaway.resultsMessageId ∧
        keys.isGiveawayResultsReplacementSendLockKey storedLockKey then storedLockKey
    else keys.buildGiveawaySendLockKey phase
  | none => keys.buildGiveawaySendLockKey phase

def LockKeys.keptKey (keys : LockKeys) (phase : Phase) (key : String) : Option String :=
  if phase = .results ∧ keys.isGiveawayResultsReplacementSendLockKey key then some key else none

/-! ## Updates -/

inductive Update
  /-- `updateManagedGiveaway`. -/
  | edit (description : String) (startsAt : Option Nat) (endsAt : Nat)
  /-- The updates of `publishManagedGiveaway`. -/
  | acquirePublication (updatedAt : Nat) (lockAt : Nat) (key : Option String)
  | publish (nextStatus : Status) (messageId : Option String)
  | unlockPublication (lockAt : Nat) (key : Option String)
  | recoverPublication (lockedAt : Nat) (key : String) (nextStatus : Status) (messageId : String)
  /-- `reconcileStaleGiveawaySendLock`. -/
  | release (phase : Phase) (lockedAt : Nat) (key : String) (kept : Option String)
  /-- `cancelManagedGiveaway`. -/
  | cancel (status : Status)
  /-- `activateScheduledGiveawayIfDue` and `processDueManagedGiveaway`. -/
  | activate (now : Nat)
  | activateDue (staleLockBefore : Nat)
  /-- `claimGiveawayForDraw`. -/
  | claimDraw (initial : Giveaway) (drawSeed : String) (now : Nat)
  | resumeDraw (drawSeed : String) (drawnAt : Nat) (now : Nat)
  /-- `drawGiveaway`. -/
  | completeDraw (lockedAt : Option Nat) (drawSeed : String)
  | restoreDraw (lockedAt : Option Nat) (drawSeed : String) (status : Status)
  /-- `republishGiveawayResults` and the replacement of an uneditable results message. -/
  | lockResults (lockAt : Nat) (key : Option String)
  | writeResults (messageId : Option String)
  | unlockResults (lockAt : Nat) (key kept : Option String)
  | recoverResults (lockedAt : Nat) (key : String) (messageId : String)
  | replaceResults (resultsMessageId : String) (lockedAt : Option Nat) (key : Option String)
    (replacementKey : String)
  deriving DecidableEq, Repr

def Giveaway.lockedBefore (row : Giveaway) (staleLockBefore : Nat) : Bool :=
  row.lockedAt.all (· < staleLockBefore)

/-- The WHERE clause. The stale date of a draw is `now` less the timeout. -/
def Update.guard : Update → Giveaway → Bool
  | .edit _ _ _, row => row.status == .draft && row.lockedAt.isNone
  | .acquirePublication updatedAt lockAt _, row =>
    row.status == .draft && row.lockedAt.isNone && row.updatedAt == updatedAt && lockAt < row.endsAt
  | .publish _ _, _ => true
  | .unlockPublication lockAt key, row =>
    row.status == .draft && row.lockedAt == some lockAt && row.sendLockKey == key
  | .recoverPublication lockedAt key _ _, row =>
    row.status == .draft && row.publicationMessageId.isNone && row.lockedAt == some lockedAt &&
      row.sendLockKey == some key
  | .release phase lockedAt key _, row =>
    row.lockedAt == some lockedAt && row.sendLockKey == some key &&
      match phase with
      | .publication => row.status == .draft && row.publicationMessageId.isNone
      | .results => row.resultsMessageId.isNone
  | .cancel status, row => row.status == status && row.lockedAt.isNone
  | .activate now, row => row.status == .scheduled && row.lockedAt.isNone && now < row.endsAt
  | .activateDue staleLockBefore, row => row.status == .scheduled && row.lockedBefore staleLockBefore
  | .claimDraw _ _ now, row =>
    (row.status == .active || row.status == .scheduled) &&
      row.lockedBefore (now - GIVEAWAY_LOCK_STALE_MS)
  | .resumeDraw _ _ now, row =>
    row.status == .drawing && row.lockedBefore (now - GIVEAWAY_LOCK_STALE_MS)
  | .completeDraw lockedAt drawSeed, row | .restoreDraw lockedAt drawSeed _, row =>
    row.status == .drawing && row.lockedAt == lockedAt && row.drawSeed == some drawSeed
  | .lockResults _ _, row => row.resultsMessageId.isNone && row.lockedAt.isNone
  | .writeResults _, _ => true
  | .unlockResults lockAt key _, row =>
    row.resultsMessageId.isNone && row.lockedAt == some lockAt && row.sendLockKey == key
  | .recoverResults lockedAt key _, row =>
    row.resultsMessageId.isNone && row.lockedAt == some lockedAt && row.sendLockKey == some key
  | .replaceResults resultsMessageId lockedAt key _, row =>
    row.status == .completed && row.resultsMessageId == some resultsMessageId &&
      row.lockedAt == lockedAt && row.sendLockKey == key

def Giveaway.unlock (row : Giveaway) : Giveaway := { row with lockedAt := none, sendLockKey := none }

def Update.data : Update → Giveaway → Giveaway
  | .edit description startsAt endsAt, row => { row with description, startsAt, endsAt }
  | .acquirePublication _ lockAt key, row | .lockResults lockAt key, row =>
    { row with lockedAt := some lockAt, sendLockKey := key }
  | .publish nextStatus messageId, row =>
    { row.unlock with status := nextStatus, publicationMessageId := messageId }
  | .unlockPublication _ _, row => row.unlock
  | .recoverPublication _ _ nextStatus messageId, row =>
    { row.unlock with status := nextStatus, publicationMessageId := some messageId }
  | .release _ _ _ kept, row | .unlockResults _ _ kept, row =>
    { row with lockedAt := none, sendLockKey := kept }
  | .cancel _, row => { row.unlock with status := .canceled }
  | .activate _, row => { row with status := .active }
  | .activateDue _, row => { row.unlock with status := .active }
  | .claimDraw _ drawSeed now, row =>
    { row.unlock with
      status := .drawing, drawSeed := some drawSeed, drawnAt := some now, lockedAt := some now }
  | .resumeDraw drawSeed drawnAt now, row =>
    { row.unlock with drawSeed := some drawSeed, drawnAt := some drawnAt, lockedAt := some now }
  | .completeDraw _ _, row => { row.unlock with status := .completed }
  | .restoreDraw _ _ status, row => { row.unlock with status }
  | .writeResults messageId, row => { row.unlock with resultsMessageId := messageId }
  | .recoverResults _ _ messageId, row => { row.unlock with resultsMessageId := some messageId }
  | .replaceResults _ _ _ replacementKey, row =>
    { row with resultsMessageId := none, lockedAt := none, sendLockKey := some replacementKey }

def Giveaway.update (row : Giveaway) (now : Nat) (u : Update) : Giveaway × Bool :=
  if u.guard row then ({ u.data row with updatedAt := now }, true) else (row, false)

end Maxim.Admin.ManagedGiveaway
