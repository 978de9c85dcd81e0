import Mathlib.Data.String.Basic
import Maxim.Library.Decimal
import Maxim.Library.RankedSet
import Maxim.Library.Run

/-!
# The history of photo albums and its two scripts

`observeAlbum` classifies an album against the history of its key and leaves a
replay record for the message. `commitViolation` sanctions a duplicate later,
from that record. Sanctions of one author under one policy are counted in one
hash, with a field for each cluster. A Lua number printed by a script keeps 14
significant digits.
-/

namespace Maxim.Moderation.PhotoDuplicate

open Maxim.Library

def HISTORY_NAMESPACE : String := "photo-duplicate:history:v2"

def MAX_HISTORY_TTL_SECONDS : Nat := 31 * 24 * 60 * 60

def MAX_SAFE_INTEGER : Nat := 9007199254740991

inductive PhotoDuplicateMatchKind
  | platformId
  | canonicalSha256
  | pdq
  deriving DecidableEq, Repr

inductive PhotoDuplicateScope
  | sameAuthor
  | chat
  deriving DecidableEq, Repr

def PhotoDuplicateScope.text : PhotoDuplicateScope → String
  | .sameAuthor => "SAME_AUTHOR"
  | .chat => "CHAT"

inductive PhotoMatchPreset
  | sameImage
  | minorEdits
  deriving DecidableEq, Repr

def PhotoMatchPreset.text : PhotoMatchPreset → String
  | .sameImage => "SAME_IMAGE"
  | .minorEdits => "MINOR_EDITS"

inductive PhotoHistoryViolationAction
  | noAction
  | hit
  | warn
  | mute
  | ban
  deriving DecidableEq, Repr

inductive Classification
  | new
  | duplicate
  | outOfOrder
  deriving DecidableEq, Repr

/-! ## Inputs -/

structure PhotoHistoryObservationAuthorizationInput where
  eligible : Bool
  configDigest : String
  allowedMatchKinds : List PhotoDuplicateMatchKind

structure PhotoHistoryViolationActionBinding where
  intendedAction : PhotoHistoryViolationAction
  configDigest : String
  deriving DecidableEq, Repr

/-- What `validateInput` lets through. `perceptualAlbum` is the encoded album. -/
structure ObservePhotoAlbumInput where
  chatId : String
  senderId : String
  messageId : String
  occurredAtMs : Nat
  ttlSeconds : Nat
  scope : PhotoDuplicateScope
  fingerprintVersion : String
  albumHash : String
  exactMatchKind : PhotoDuplicateMatchKind
  perceptualAlbum : Option String
  perceptualPreset : Option PhotoMatchPreset
  authorization : PhotoHistoryObservationAuthorizationInput
  exact : exactMatchKind ≠ .pdq
  occurred : 0 < occurredAtMs ∧ occurredAtMs ≤ MAX_SAFE_INTEGER
  lives : 0 < ttlSeconds ∧ ttlSeconds ≤ MAX_HISTORY_TTL_SECONDS

/-- What `validateCommitInput` lets through. -/
structure CommitPhotoViolationInput where
  chatId : String
  senderId : String
  messageId : String
  ttlSeconds : Nat
  scope : PhotoDuplicateScope
  fingerprintVersion : String
  albumHash : String
  perceptualPreset : Option PhotoMatchPreset
  observationClusterId : String
  matchKind : PhotoDuplicateMatchKind
  expectedRepeatCount : Nat
  allowedMatchKinds : List PhotoDuplicateMatchKind
  authorizationConfigDigest : String
  actionBinding : PhotoHistoryViolationActionBinding
  counted : 0 < expectedRepeatCount ∧ expectedRepeatCount ≤ MAX_SAFE_INTEGER
  lives : 0 < ttlSeconds ∧ ttlSeconds ≤ MAX_HISTORY_TTL_SECONDS

theorem canonicalSha256_ne_pdq : PhotoDuplicateMatchKind.canonicalSha256 ≠ .pdq := by decide

theorem minute_lives : 0 < 60 ∧ 60 ≤ MAX_HISTORY_TTL_SECONDS := by decide

structure PerceptualMatch where
  clusterId : String
  messageId : String
  distance : Nat

/-! ## Names -/

section Names

-- the hexadecimal digest of a text
variable (sha256 : String → String)

def shortHash (value : String) : String := String.ofList ((sha256 value).toList.take 32)

def buildPolicyHash (scope : PhotoDuplicateScope) (preset : Option PhotoMatchPreset) : String :=
  shortHash sha256 (scope.text ++ ":" ++ (preset.map PhotoMatchPreset.text).getD "EXACT_ONLY")

def buildClusterId (fingerprintVersion albumHash : String) : String :=
  sha256 ("photo-cluster-v1" ++ "\x00" ++ fingerprintVersion ++ "\x00" ++ albumHash)

def buildCanonicalSanctionClusterId (fingerprintVersion albumHash : String) : String :=
  sha256 ("photo-sanction-cluster-v2:canonical" ++ "\x00" ++ fingerprintVersion ++ "\x00" ++ albumHash)

def buildPerceptualSanctionClusterId (fingerprintVersion observationClusterId : String) : String :=
  sha256 ("photo-sanction-cluster-v2:pdq" ++ "\x00" ++ fingerprintVersion ++ "\x00" ++
    observationClusterId)

def buildViolationSanctionClusterId (input : CommitPhotoViolationInput) : String :=
  if input.matchKind = .pdq then
    buildPerceptualSanctionClusterId sha256 input.fingerprintVersion input.observationClusterId
  else buildCanonicalSanctionClusterId sha256 input.fingerprintVersion input.albumHash

structure HistoryKeys where
  replayKey : String
  exactHistoryKey : String
  recentKey : String
  authorCounterKey : String

def buildKeys (chatId senderId messageId fingerprintVersion : String) (scope : PhotoDuplicateScope)
    (albumHash : String) (perceptualPreset : Option PhotoMatchPreset) : HistoryKeys :=
  let chatHash := shortHash sha256 chatId
  let senderHash := shortHash sha256 senderId
  let messageHash := shortHash sha256 messageId
  let policy := shortHash sha256 fingerprintVersion ++ ":" ++ buildPolicyHash sha256 scope perceptualPreset
  let scopeHash := match scope with
    | .chat => "chat:" ++ chatHash
    | .sameAuthor => "author:" ++ chatHash ++ ":" ++ senderHash
  { replayKey := HISTORY_NAMESPACE ++ ":replay:" ++ policy ++ ":" ++ chatHash ++ ":" ++ messageHash
    exactHistoryKey := HISTORY_NAMESPACE ++ ":exact:" ++ policy ++ ":" ++ scopeHash ++ ":" ++ albumHash
    recentKey := HISTORY_NAMESPACE ++ ":recent:" ++ policy ++ ":" ++ scopeHash
    authorCounterKey :=
      HISTORY_NAMESPACE ++ ":author-count:" ++ policy ++ ":" ++ chatHash ++ ":" ++ senderHash }

def ObservePhotoAlbumInput.keys (input : ObservePhotoAlbumInput) : HistoryKeys :=
  buildKeys sha256 input.chatId input.senderId input.messageId input.fingerprintVersion input.scope
    input.albumHash input.perceptualPreset

def CommitPhotoViolationInput.keys (input : CommitPhotoViolationInput) : HistoryKeys :=
  buildKeys sha256 input.chatId input.senderId input.messageId input.fingerprintVersion input.scope
    input.albumHash input.perceptualPreset

end Names

/-! ## Stored data -/

/-- `violation_action` and `violation_binding_digest` come with `violation_committed = 1`. -/
structure ReplayRecord where
  classification : Classification
  clusterId : String
  albumClusterId : String
  matchKind : Option PhotoDuplicateMatchKind
  distance : Option Nat
  repeatCount : Nat
  previousMessageId : Option String
  sanctionClusterId : String
  actionAuthorized : Bool
  authorizationDigest : String
  violation : Option PhotoHistoryViolationActionBinding
  deriving DecidableEq

abbrev RecentRecord := String ×ₗ String ×ₗ String

structure Store where
  replay : Slots String ReplayRecord
  exactHistory : Slots String (Table (String ×ₗ String) Nat)
  recent : Slots String (Table RecentRecord Nat)
  counters : Slots String (Table String Nat)

def Store.empty : Store := ⟨fun _ => none, fun _ => none, fun _ => none, fun _ => none⟩

def Store.purge (now : Nat) (s : Store) : Store where
  replay k := Library.purge now (s.replay k)
  exactHistory k := Library.purge now (s.exactHistory k)
  recent k := Library.purge now (s.recent k)
  counters k := Library.purge now (s.counters k)

/-- `tonumber(tostring(n))`. -/
def printed (n : Nat) : Nat := significant 14 n

def hlen (s : Slot (Table String Nat)) : Nat := (content s).elim 0 fun t => t.entries.length

/-- `HKEYS` lists the fields in no particular order; `order` is the choice. -/
def hkeys (order : List String) (s : Slot (Table String Nat)) : List String :=
  let fields := (content s).elim [] fun t => t.keys
  order.dedup.filter (fun c => decide (c ∈ fields)) ++ fields.filter fun c => decide (c ∉ order)

/-- Remove the members of lowest rank until `maxItems` are left. -/
def trim {μ : Type} [LinearOrder μ] (maxItems : Nat) (s : Slot (Table μ Nat)) : Slot (Table μ Nat) :=
  if zcard s > maxItems then removeLowest s (zcard s - maxItems) else s

/-! ## Observation -/

/-- The reply of the observation script; `status` is its first element. -/
structure ObservationReply where
  status : Nat
  classification : Classification
  clusterId : String
  matchKind : Option PhotoDuplicateMatchKind
  distance : Option Nat
  repeatCount : Nat
  previousMessageId : Option String
  sanctionClusterId : String
  violationCommitted : Bool
  actionAuthorized : Bool
  authorizationDigest : String
  deriving DecidableEq

/-- What a stored record answers to the next observation of its message. -/
def ReplayRecord.reply (r : ReplayRecord) : ObservationReply where
  status := 2
  classification := r.classification
  clusterId := r.clusterId
  matchKind := r.matchKind
  distance := r.distance
  repeatCount := r.repeatCount
  previousMessageId := r.previousMessageId
  sanctionClusterId := r.sanctionClusterId
  violationCommitted := r.violation.isSome
  actionAuthorized := r.actionAuthorized
  authorizationDigest := r.authorizationDigest

/-- The two latest exact matches that are not after `occurredAtMs`. -/
def priorRows (occurredAtMs : Nat) (cutoffAt : Int) (s : Slot (Table (String ×ₗ String) Nat)) :
    List (String × String) :=
  (((ranked s).reverse.filter fun e =>
    decide (cutoffAt ≤ ((ofLex e).1 : Int) ∧ (ofLex e).1 ≤ printed occurredAtMs)).take 2).map
      fun e => ofLex (ofLex e).2

structure Found where
  classification : Classification
  clusterId : String
  matchKind : Option PhotoDuplicateMatchKind
  distance : Option Nat
  previousMessageId : Option String
  sanctionClusterId : String

section Scripts

variable (sha256 : String → String) (maxItems : Nat)

/-- Exact history wins over the perceptual candidate. -/
def classify (input : ObservePhotoAlbumInput) (perceptualMatch : Option PerceptualMatch)
    (exactHistory : Slot (Table (String ×ₗ String) Nat)) : Found :=
  let canonical := buildCanonicalSanctionClusterId sha256 input.fingerprintVersion input.albumHash
  let cutoffAt : Int := input.occurredAtMs - (input.ttlSeconds * 1000 : Nat)
  match (priorRows input.occurredAtMs cutoffAt exactHistory).find? fun row => row.2 != input.messageId with
  | some prior => ⟨.duplicate, prior.1, some input.exactMatchKind, some 0, some prior.2, canonical⟩
  | none =>
    match perceptualMatch with
    | some found =>
      ⟨.duplicate, found.clusterId, some .pdq, some found.distance, some found.messageId,
        buildPerceptualSanctionClusterId sha256 input.fingerprintVersion found.clusterId⟩
    | none =>
      ⟨.new, buildClusterId sha256 input.fingerprintVersion input.albumHash, none, none, none, canonical⟩

/-- Whether the kind of a duplicate is one the policy may act on. -/
def authorized (authorization : PhotoHistoryObservationAuthorizationInput) (found : Found) : Bool :=
  authorization.eligible && (found.classification != .duplicate ||
    found.matchKind.any fun kind => decide (kind ∈ authorization.allowedMatchKinds))

/-- `OBSERVE_PHOTO_ALBUM_SCRIPT`. The sanction counters are read here, and a
counter is deleted when its cluster is new; none is incremented. -/
def observeAlbum (now : Nat) (input : ObservePhotoAlbumInput) (perceptualMatch : Option PerceptualMatch)
    (s : Store) : Store × ObservationReply :=
  let keys := input.keys sha256
  let albumClusterId := buildClusterId sha256 input.fingerprintVersion input.albumHash
  let canonical := buildCanonicalSanctionClusterId sha256 input.fingerprintVersion input.albumHash
  let ttlMs := input.ttlSeconds * 1000
  let cutoffAt : Int := input.occurredAtMs - (ttlMs : Nat)
  match content (s.replay keys.replayKey) with
  | some r => (s, r.reply)
  | none =>
    if (ranked (s.exactHistory keys.exactHistoryKey)).any fun e =>
        decide (printed input.occurredAtMs < (ofLex e).1) then
      (s, ⟨3, .outOfOrder, albumClusterId, none, none, 0, none, canonical, false, false,
        input.authorization.configDigest⟩)
    else
      let exactHistory := removeScored (s.exactHistory keys.exactHistoryKey) cutoffAt
      let recent := removeScored (s.recent keys.recentKey) cutoffAt
      let found := classify sha256 input perceptualMatch exactHistory
      let exactHistory := trim maxItems
        (setField exactHistory (toLex (found.clusterId, input.messageId)) input.occurredAtMs)
      let recent := match input.perceptualAlbum with
        | none => recent
        | some album =>
          expireAt (now + ttlMs) (trim maxItems
            (setField recent (toLex (found.clusterId, toLex (input.messageId, album)))
              input.occurredAtMs))
      let counters := s.counters keys.authorCounterKey
      let repeatCount :=
        if found.classification = .duplicate then
          (field counters found.sanctionClusterId).getD 0 + 1
        else 0
      let counters :=
        if found.classification = .new then delField counters found.sanctionClusterId else counters
      let actionAuthorized := authorized input.authorization found
      let record : ReplayRecord :=
        { classification := found.classification
          clusterId := found.clusterId
          albumClusterId
          matchKind := found.matchKind
          distance := found.distance
          repeatCount := printed repeatCount
          previousMessageId := found.previousMessageId
          sanctionClusterId := found.sanctionClusterId
          actionAuthorized
          authorizationDigest := input.authorization.configDigest
          violation := none }
      ({ replay := put s.replay keys.replayKey (cell record (now + ttlMs))
         exactHistory := put s.exactHistory keys.exactHistoryKey (expireAt (now + ttlMs) exactHistory)
         recent := put s.recent keys.recentKey recent
         counters := put s.counters keys.authorCounterKey counters },
        { record.reply with status := 1, repeatCount })

/-! ## Commit -/

/-- The reply of the commit script, by its first element: 0, 1 and 2. -/
inductive CommitReply
  | refused
  | committed (repeatCount : Nat) (sanctionClusterId : String)
      (binding : PhotoHistoryViolationActionBinding)
  | replayed (repeatCount : Nat) (sanctionClusterId : String)
      (binding : PhotoHistoryViolationActionBinding) (requestMatches : Bool)
  deriving DecidableEq

/-- Delete up to `removeCount` of the clusters, never the sanctioned one. -/
def removeClusters (sanctionClusterId : String) :
    List String → Nat → Slot (Table String Nat) → Slot (Table String Nat)
  | [], _, counters => counters
  | _, 0, counters => counters
  | candidate :: rest, removeCount + 1, counters =>
    if candidate ≠ sanctionClusterId then
      removeClusters sanctionClusterId rest removeCount (delField counters candidate)
    else removeClusters sanctionClusterId rest (removeCount + 1) counters

def ReplayRecord.names (r : ReplayRecord) (input : CommitPhotoViolationInput) : Bool :=
  r.classification == .duplicate && r.matchKind == some input.matchKind &&
    r.clusterId == input.observationClusterId &&
    r.sanctionClusterId == buildViolationSanctionClusterId sha256 input &&
    r.albumClusterId == buildClusterId sha256 input.fingerprintVersion input.albumHash

/-- The observation authorised what the request asks for. -/
def ReplayRecord.authorizes (r : ReplayRecord) (input : CommitPhotoViolationInput) : Bool :=
  r.repeatCount == input.expectedRepeatCount && r.actionAuthorized &&
    r.authorizationDigest == input.authorizationConfigDigest &&
    r.matchKind.any fun kind => decide (kind ∈ input.allowedMatchKinds)

def commitViolation (now : Nat) (input : CommitPhotoViolationInput) (order : List String)
    (s : Store) : Store × CommitReply :=
  let keys := input.keys sha256
  let ttlMs := input.ttlSeconds * 1000
  match content (s.replay keys.replayKey) with
  | none => (s, .refused)
  | some r =>
    if ¬r.names sha256 input then (s, .refused)
    else match r.violation with
    | some binding =>
      (s, .replayed (printed r.repeatCount) r.sanctionClusterId binding
        (r.authorizes input && binding == input.actionBinding))
    | none =>
      if ¬r.authorizes input then (s, .refused)
      else if (field (s.counters keys.authorCounterKey) r.sanctionClusterId).getD 0 + 1 ≠
          input.expectedRepeatCount then (s, .refused)
      else
        let repeatCount := (field (s.counters keys.authorCounterKey) r.sanctionClusterId).getD 0 + 1
        let counters := expireAt (now + ttlMs)
          (setField (s.counters keys.authorCounterKey) r.sanctionClusterId repeatCount)
        let record := { r with
          repeatCount := printed repeatCount
          violation := some input.actionBinding }
        let counters :=
          removeClusters r.sanctionClusterId (hkeys order counters) (hlen counters - maxItems) counters
        ({ s with
           replay := put s.replay keys.replayKey (cell record (now + ttlMs))
           counters := put s.counters keys.authorCounterKey counters },
          .committed (printed repeatCount) r.sanctionClusterId input.actionBinding)

/-! ## Requests -/

/-- One script call. A candidate of an earlier perceptual read comes with the observation. -/
inductive Request
  | observe (input : ObservePhotoAlbumInput) (perceptualMatch : Option PerceptualMatch)
  | commit (input : CommitPhotoViolationInput) (order : List String)

inductive Reply
  | observation (reply : ObservationReply)
  | commit (reply : CommitReply)
  deriving DecidableEq

/-- What has expired is gone before the script starts. -/
def step (now : Nat) (request : Request) (s : Store) : Store × Reply :=
  match request with
  | .observe input perceptualMatch =>
    let r := observeAlbum sha256 maxItems now input perceptualMatch (s.purge now)
    (r.1, .observation r.2)
  | .commit input order =>
    let r := commitViolation sha256 maxItems now input order (s.purge now)
    (r.1, .commit r.2)

end Scripts

abbrev Event := Entry Request Reply

abbrev HistoryRun (sha256 : String → String) (maxItems : Nat) : List Event → Nat → Store → Prop :=
  Run (step sha256 maxItems) (fun _ _ _ => True) Store.empty

end Maxim.Moderation.PhotoDuplicate
