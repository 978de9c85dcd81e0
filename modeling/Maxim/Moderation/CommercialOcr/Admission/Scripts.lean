import Maxim.Library.Total
import Maxim.Library.Run

/-!
# Admission of OCR jobs

The Redis scripts of the admission store. A reservation is a row of the global
metadata hash with a score in the global expiry set; while it holds capacity it
is counted in the global units and in the weights and units of its chat.
Expired rows are cleaned up in batches by later calls.

The metrics counters that a logical record increments are written and never
read, and are left out.
-/

namespace Maxim.Moderation.CommercialOcr.Admission

open Maxim.Library

def MIN_RESERVATION_TTL_MS : Nat := 5000
def MAX_RESERVATION_TTL_MS : Nat := 11 * 60000
def MAX_JOB_AGE_MS : Nat := 10 * 60000
def MAX_FUTURE_SKEW_MS : Nat := 60000
def MAX_GLOBAL_IMAGE_UNITS : Nat := 10000
def MAX_CHAT_IMAGE_UNITS : Nat := 1000
def ADMISSION_CLEANUP_BATCH_SIZE : Nat := 100

structure CommercialOcrAdmissionLimits where
  maxGlobalImageUnits : Nat
  maxChatImageUnits : Nat
  reservedActionableImageUnits : Nat
  maxJobAgeMs : Nat
  reservationTtlMs : Nat
  deriving DecidableEq, Repr

def validateBoundedInteger (value min max : Nat) (field : String) : Except String Nat :=
  if value < min ∨ max < value then .error (field ++ " is invalid") else .ok value

def validateLimits (limits : CommercialOcrAdmissionLimits) :
    Except String CommercialOcrAdmissionLimits := do
  let maxGlobalImageUnits ← validateBoundedInteger limits.maxGlobalImageUnits 1
    MAX_GLOBAL_IMAGE_UNITS "maxGlobalImageUnits"
  let maxChatImageUnits ← validateBoundedInteger limits.maxChatImageUnits 1
    (min maxGlobalImageUnits MAX_CHAT_IMAGE_UNITS) "maxChatImageUnits"
  let reservedActionableImageUnits ← validateBoundedInteger limits.reservedActionableImageUnits 0
    maxGlobalImageUnits "reservedActionableImageUnits"
  let maxJobAgeMs ← validateBoundedInteger limits.maxJobAgeMs 1000 MAX_JOB_AGE_MS "maxJobAgeMs"
  let reservationTtlMs ← validateBoundedInteger limits.reservationTtlMs MIN_RESERVATION_TTL_MS
    MAX_RESERVATION_TTL_MS "reservationTtlMs"
  if reservationTtlMs < maxJobAgeMs + MAX_FUTURE_SKEW_MS then
    throw "reservationTtlMs is invalid"
  return ⟨maxGlobalImageUnits, maxChatImageUnits, reservedActionableImageUnits, maxJobAgeMs,
    reservationTtlMs⟩

inductive CommercialOcrAdmissionState
  | pending
  | actionable
  | observation
  deriving DecidableEq, Repr

/-- `chatHash|imageUnits|state|capacityHeld`. -/
structure Metadata (χ : Type) where
  chatHash : χ
  imageUnits : Nat
  state : CommercialOcrAdmissionState
  capacityHeld : Bool
  deriving DecidableEq, Repr

def Metadata.observed {χ : Type} (m : Metadata χ) : Metadata χ :=
  { m with state := .observation, capacityHeld := false }

/-- The keys of the store, with the keys of each chat and the claims of each logical identity. -/
structure Keys (κ χ ι : Type) where
  globalExpiry : Slot (Table κ Nat)
  globalMetadata : Slot (Table κ (Metadata χ))
  globalUnits : Slot Int
  chatExpiry : Slots χ (Table κ Nat)
  chatWeights : Slots χ (Table κ Nat)
  chatUnits : Slots χ Int
  logical : Slots ι (Table String String)

variable {κ χ ι : Type}

def Keys.empty : Keys κ χ ι := ⟨none, none, none, fun _ => none, fun _ => none, fun _ => none, fun _ => none⟩

/-- Redis forgets the keys that have expired. -/
def Keys.purge (now : Nat) (k : Keys κ χ ι) : Keys κ χ ι where
  globalExpiry := Library.purge now k.globalExpiry
  globalMetadata := Library.purge now k.globalMetadata
  globalUnits := Library.purge now k.globalUnits
  chatExpiry chat := Library.purge now (k.chatExpiry chat)
  chatWeights chat := Library.purge now (k.chatWeights chat)
  chatUnits chat := Library.purge now (k.chatUnits chat)
  logical identity := Library.purge now (k.logical identity)

/-- `tonumber(redis.call('GET', key) or '0')`. -/
def counter (s : Slot Int) : Int := (content s).getD 0

def decrementOrDelete (s : Slot Int) (units : Nat) : Slot Int :=
  let remaining := counter s - units
  if remaining ≤ 0 then none else some ⟨remaining, s.bind Cell.expiresAt⟩

variable [DecidableEq χ]

section Shared

variable [DecidableEq κ]

def Keys.leaveChat (k : Keys κ χ ι) (chatHash : χ) (jobId : κ) : Keys κ χ ι :=
  { k with
    chatExpiry := put k.chatExpiry chatHash (delField (k.chatExpiry chatHash) jobId)
    chatWeights := put k.chatWeights chatHash (delField (k.chatWeights chatHash) jobId) }

/-- A chat counter gives the weight of a job back, when it has one. -/
def Keys.decrementChat (k : Keys κ χ ι) (chatHash : χ) (jobId : κ) : Keys κ χ ι :=
  let units := (field (k.chatWeights chatHash) jobId).getD 0
  if 0 < units then
    { k with chatUnits := put k.chatUnits chatHash (decrementOrDelete (k.chatUnits chatHash) units) }
  else k

/-- `release_capacity`, and the same lines of the scripts that do not name it. -/
def releaseCapacity (jobId : κ) (chatHash : χ) (units : Nat) (k : Keys κ χ ι) : Keys κ χ ι :=
  ({ k with globalUnits := decrementOrDelete k.globalUnits units }.decrementChat chatHash jobId).leaveChat
    chatHash jobId

/-- `HDEL` of the metadata and `ZREM` of the expiry. -/
def Keys.dropRow (k : Keys κ χ ι) (jobId : κ) : Keys κ χ ι :=
  { k with
    globalMetadata := delField k.globalMetadata jobId
    globalExpiry := delField k.globalExpiry jobId }

def Keys.setRow (k : Keys κ χ ι) (jobId : κ) (m : Metadata χ) : Keys κ χ ι :=
  { k with globalMetadata := setField k.globalMetadata jobId m }

def Keys.setScore (k : Keys κ χ ι) (jobId : κ) (score : Nat) : Keys κ χ ι :=
  { k with globalExpiry := setField k.globalExpiry jobId score }

/-- `extend_ttl` of the global expiry and metadata. -/
def Keys.extendRows (k : Keys κ χ ι) (now ttlMs : Nat) : Keys κ χ ι :=
  { k with
    globalExpiry := extendTtl now ttlMs k.globalExpiry
    globalMetadata := extendTtl now ttlMs k.globalMetadata }

/-- One expired row of the global cleanup. -/
def dropExpired (k : Keys κ χ ι) (jobId : κ) : Keys κ χ ι :=
  let released := match field k.globalMetadata jobId with
    | some m =>
      if m.capacityHeld = true ∧ 0 < m.imageUnits then releaseCapacity jobId m.chatHash m.imageUnits k
      else k
    | none => k
  released.dropRow jobId

def dropExpiredWeight (chatHash : χ) (k : Keys κ χ ι) (jobId : κ) : Keys κ χ ι :=
  (k.decrementChat chatHash jobId).leaveChat chatHash jobId

end Shared

variable [LinearOrder κ]

/-! ## Reserve -/

inductive CommercialOcrAdmissionResult
  | admitted (state : CommercialOcrAdmissionState)
  | duplicate (state : CommercialOcrAdmissionState)
  | rejectedGlobal
  | rejectedChat
  | rejectedAge
  | rejectedActionableReserve
  | unavailable
  deriving DecidableEq, Repr

structure Reservation (κ χ : Type) where
  jobId : κ
  chatHash : χ
  imageCount : Nat
  sourceCreatedAtMs : Nat
  actionEligible : Bool
  limits : CommercialOcrAdmissionLimits

def Reservation.desiredState (r : Reservation κ χ) : CommercialOcrAdmissionState :=
  if r.actionEligible then .pending else .observation

def grant (now : Nat) (r : Reservation κ χ) (k : Keys κ χ ι) : Keys κ χ ι :=
  let keyTtlMs := r.limits.reservationTtlMs * 2
  let expiresAtMs := now + r.limits.reservationTtlMs
  { k with
    globalExpiry := extendTtl now keyTtlMs (setField k.globalExpiry r.jobId expiresAtMs)
    globalMetadata := extendTtl now keyTtlMs (setField k.globalMetadata r.jobId
      ⟨r.chatHash, r.imageCount, r.desiredState, true⟩)
    globalUnits := cell (counter k.globalUnits + r.imageCount) (now + keyTtlMs)
    chatExpiry := put k.chatExpiry r.chatHash
      (extendTtl now keyTtlMs (setField (k.chatExpiry r.chatHash) r.jobId expiresAtMs))
    chatWeights := put k.chatWeights r.chatHash
      (extendTtl now keyTtlMs (setField (k.chatWeights r.chatHash) r.jobId r.imageCount))
    chatUnits := put k.chatUnits r.chatHash
      (cell (counter (k.chatUnits r.chatHash) + r.imageCount) (now + keyTtlMs)) }

/-- The rest of `RESERVE_SCRIPT` when the job has no row. -/
def admitNew (now : Nat) (r : Reservation κ χ) (k : Keys κ χ ι) :
    Keys κ χ ι × CommercialOcrAdmissionResult :=
  let globalUnits := counter k.globalUnits
  let chatUnits := counter (k.chatUnits r.chatHash)
  if (r.limits.maxGlobalImageUnits : Int) < globalUnits + r.imageCount then (k, .rejectedGlobal)
  else if r.desiredState = .observation ∧
      (r.limits.maxGlobalImageUnits : Int) - r.limits.reservedActionableImageUnits <
        globalUnits + r.imageCount then (k, .rejectedActionableReserve)
  else if (r.limits.maxChatImageUnits : Int) < chatUnits + r.imageCount then (k, .rejectedChat)
  else (grant now r k, .admitted r.desiredState)

/-- The rest of `RESERVE_SCRIPT` when the job has a row. -/
def again (r : Reservation κ χ) (m : Metadata χ) (k : Keys κ χ ι) :
    Keys κ χ ι × CommercialOcrAdmissionResult :=
  if m.chatHash ≠ r.chatHash ∨ m.imageUnits ≠ r.imageCount then (k, .unavailable)
  else if r.desiredState = .observation ∧ (m.state ≠ .observation ∨ m.capacityHeld = true) then
    let released := if m.capacityHeld then releaseCapacity r.jobId m.chatHash m.imageUnits k else k
    (released.setRow r.jobId m.observed, .duplicate .observation)
  else (k, .duplicate m.state)

def cleanGlobal (now : Nat) (k : Keys κ χ ι) : Keys κ χ ι :=
  (scoredUpTo k.globalExpiry now ADMISSION_CLEANUP_BATCH_SIZE).foldl dropExpired k

def cleanChat (now : Nat) (chatHash : χ) (k : Keys κ χ ι) : Keys κ χ ι :=
  (scoredUpTo (k.chatExpiry chatHash) now ADMISSION_CLEANUP_BATCH_SIZE).foldl
    (dropExpiredWeight chatHash) k

/-- `extend_ttl` of all keys of a reservation. -/
def extendAll (now ttlMs : Nat) (chatHash : χ) (k : Keys κ χ ι) : Keys κ χ ι :=
  { k.extendRows now ttlMs with
    globalUnits := extendTtl now ttlMs k.globalUnits
    chatExpiry := put k.chatExpiry chatHash (extendTtl now ttlMs (k.chatExpiry chatHash))
    chatWeights := put k.chatWeights chatHash (extendTtl now ttlMs (k.chatWeights chatHash))
    chatUnits := put k.chatUnits chatHash (extendTtl now ttlMs (k.chatUnits chatHash)) }

/-- What `RESERVE_SCRIPT` does before it looks at the job. -/
def tidy (now : Nat) (r : Reservation κ χ) (k : Keys κ χ ι) : Keys κ χ ι :=
  extendAll now (r.limits.reservationTtlMs * 2) r.chatHash
    (cleanChat now r.chatHash (cleanGlobal now k))

def reserve (now : Nat) (r : Reservation κ χ) (k : Keys κ χ ι) :
    Keys κ χ ι × CommercialOcrAdmissionResult :=
  if r.sourceCreatedAtMs + r.limits.maxJobAgeMs < now ∨
      now + MAX_FUTURE_SKEW_MS < r.sourceCreatedAtMs then (k, .rejectedAge)
  else
    let k := tidy now r k
    match field k.globalMetadata r.jobId with
    | some m => again r m k
    | none => admitNew now r k

/-! ## Activate and suppress -/

inductive CommercialOcrAdmissionActivationResult
  | activated
  | alreadyActionable
  | suppressed
  | expired
  | missing
  | unavailable
  deriving DecidableEq, Repr

def activate (now : Nat) (jobId : κ) (tombstoneTtlMs : Nat) (k : Keys κ χ ι) :
    Keys κ χ ι × CommercialOcrAdmissionActivationResult :=
  match field k.globalMetadata jobId with
  | none => (k, .missing)
  | some m =>
    if (field k.globalExpiry jobId).getD 0 ≤ now then
      let released :=
        if m.capacityHeld then
          { k with globalUnits := decrementOrDelete k.globalUnits m.imageUnits }.decrementChat
            m.chatHash jobId
        else k
      ((((released.leaveChat m.chatHash jobId).setRow jobId m.observed).setScore jobId
        (now + tombstoneTtlMs)).extendRows now (tombstoneTtlMs * 2), .expired)
    else if m.state = .observation then (k, .suppressed)
    else if m.capacityHeld = false then (k, .unavailable)
    else if m.state = .actionable then (k, .alreadyActionable)
    else (k.setRow jobId { m with state := .actionable, capacityHeld := true }, .activated)

/-- `SUPPRESS_SCRIPT`; it answers whether the job is suppressed. -/
def suppress (now : Nat) (jobId : κ) (chatHash : χ) (imageCount tombstoneTtlMs : Nat)
    (k : Keys κ χ ι) : Keys κ χ ι × Bool :=
  let k := ((scoredUpTo k.globalExpiry now ADMISSION_CLEANUP_BATCH_SIZE).filter fun expiredJobId =>
    decide (expiredJobId ≠ jobId)).foldl dropExpired k
  let bury (k : Keys κ χ ι) (m : Metadata χ) : Keys κ χ ι :=
    let k := k.setRow jobId m
    (k.setScore jobId (max ((field k.globalExpiry jobId).getD 0) (now + tombstoneTtlMs))).extendRows
      now (tombstoneTtlMs * 2)
  match field k.globalMetadata jobId with
  | some m =>
    if m.chatHash ≠ chatHash ∨ m.imageUnits < 1 then (k, false)
    else
      let released := if m.capacityHeld then releaseCapacity jobId chatHash m.imageUnits k else k
      (bury released m.observed, true)
  | none => (bury k ⟨chatHash, imageCount, .observation, false⟩, true)

/-! ## Resolve, release and record -/

inductive CommercialOcrAdmissionStateResult
  | available (state : CommercialOcrAdmissionState)
  | missing
  deriving DecidableEq, Repr

def resolveState (now : Nat) (jobId : κ) (k : Keys κ χ ι) : CommercialOcrAdmissionStateResult :=
  match field k.globalMetadata jobId with
  | none => .missing
  | some m => if (field k.globalExpiry jobId).getD 0 ≤ now then .missing else .available m.state

def finish (jobId : κ) (chatHash : χ) (m : Metadata χ) (k : Keys κ χ ι) : Keys κ χ ι :=
  (if m.capacityHeld then releaseCapacity jobId chatHash m.imageUnits k else k).setRow jobId m.observed

def release (jobId : κ) (chatHash : χ) (k : Keys κ χ ι) : Keys κ χ ι × Bool :=
  match field k.globalMetadata jobId with
  | none => (k, true)
  | some m => if m.chatHash ≠ chatHash then (k, false) else (finish jobId chatHash m k, true)

inductive Phase
  | started
  | terminal
  deriving DecidableEq, Repr

def Phase.text : Phase → String
  | .started => "started"
  | .terminal => "terminal"

inductive CommercialOcrLogicalRecordingResult
  | recorded
  | duplicate
  | missing
  | unavailable
  deriving DecidableEq, Repr

/-- The first record of a phase of a logical identity is kept. -/
def claimPhase [DecidableEq ι] (now : Nat) (phase : Phase) (outcome : String) (identity : ι)
    (k : Keys κ χ ι) : Keys κ χ ι × CommercialOcrLogicalRecordingResult :=
  if (field (k.logical identity) phase.text).isSome then (k, .duplicate)
  else
    ({ k with logical := put k.logical identity (expireAt (now + MAX_RESERVATION_TTL_MS * 2)
        (setField (k.logical identity) phase.text outcome)) }, .recorded)

def recordLogical [DecidableEq ι] (now : Nat) (jobId : κ) (chatHash : χ) (phase : Phase)
    (outcome : String) (identity : ι) (k : Keys κ χ ι) :
    Keys κ χ ι × CommercialOcrLogicalRecordingResult :=
  match field k.globalMetadata jobId with
  | none => (k, .missing)
  | some m =>
    if m.chatHash ≠ chatHash then (k, .unavailable)
    else claimPhase now phase outcome identity (if phase = .terminal then finish jobId chatHash m k else k)

/-! ## The store -/

inductive Request (κ χ ι : Type)
  | reserve (r : Reservation κ χ)
  | activate (jobId : κ) (tombstoneTtlMs : Nat)
  | suppress (jobId : κ) (chatHash : χ) (imageCount tombstoneTtlMs : Nat)
  | resolveState (jobId : κ)
  | release (jobId : κ) (chatHash : χ)
  | recordLogical (jobId : κ) (chatHash : χ) (phase : Phase) (outcome : String) (identity : ι)

inductive Reply
  | reserve (result : CommercialOcrAdmissionResult)
  | activate (result : CommercialOcrAdmissionActivationResult)
  | suppress (suppressed : Bool)
  | resolveState (result : CommercialOcrAdmissionStateResult)
  | release (released : Bool)
  | recordLogical (result : CommercialOcrLogicalRecordingResult)
  deriving DecidableEq, Repr

variable [DecidableEq ι]

/-- A script on the keys that are still readable. -/
def act (now : Nat) (request : Request κ χ ι) (k : Keys κ χ ι) : Keys κ χ ι × Reply :=
  match request with
  | .reserve r =>
    let a := Admission.reserve now r k
    (a.1, .reserve a.2)
  | .activate jobId tombstoneTtlMs =>
    let a := Admission.activate now jobId tombstoneTtlMs k
    (a.1, .activate a.2)
  | .suppress jobId chatHash imageCount tombstoneTtlMs =>
    let a := Admission.suppress now jobId chatHash imageCount tombstoneTtlMs k
    (a.1, .suppress a.2)
  | .resolveState jobId => (k, .resolveState (Admission.resolveState now jobId k))
  | .release jobId chatHash =>
    let a := Admission.release jobId chatHash k
    (a.1, .release a.2)
  | .recordLogical jobId chatHash phase outcome identity =>
    let a := Admission.recordLogical now jobId chatHash phase outcome identity k
    (a.1, .recordLogical a.2)

def step (now : Nat) (request : Request κ χ ι) (k : Keys κ χ ι) : Keys κ χ ι × Reply :=
  act now request (k.purge now)

end Maxim.Moderation.CommercialOcr.Admission
