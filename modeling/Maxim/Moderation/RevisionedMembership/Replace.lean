import Maxim.Library.Run
import Maxim.Library.Table
import Maxim.Library.Decimal
import Mathlib.Data.List.Dedup

/-!
# Revisioned replacement of set memberships

A caller reads the state key, decides locally, and then either verifies the
state it has read or replaces it together with the membership sets. Between
the calls to the store every other caller may run. A caller is a program
counter with what its code still holds, and each step is one awaited call with
the local code around it.
-/

namespace Maxim.Moderation.RevisionedMembership

open Maxim.Library

def REVISIONED_MEMBERSHIP_MAX_CAS_ATTEMPTS : Nat := 4
def MAX_SAFE_INTEGER : Nat := 2 ^ 53 - 1

/-- Numbers go through the text of the state, and through `tostring`, with 14 digits. -/
def printed (n : Nat) : Nat := significant 14 n

def printedInt (z : Int) : Int := if z < 0 then -(printed z.natAbs) else printed z.natAbs

/-- The state key. The text is determined by these values, so equal texts are equal records. -/
structure Stored (κ : Type) where
  revision : Nat
  scoreTimestampMs : Option Nat
  memberships : List (κ × Nat)
  deriving DecidableEq

structure Params (κ μ : Type) where
  member : μ
  revision : Nat
  scoreTimestampMs : Option Nat
  membershipKeys : List κ
  windowSeconds : Nat
  ttlSeconds : Nat
  countLimit : Option Nat
  deadlineAtMs : Nat
  sharedBaseline : Option (κ × κ)
  deriving DecidableEq

inductive Result
  | applied (counts : List Nat)
  | replayed (counts : List Nat)
  | stale
  | deadlineExceeded
  | failed
  deriving DecidableEq, Repr

variable {ω κ μ : Type}

def Stored.keys (c : Stored κ) : List κ := c.memberships.map Prod.fst

def Params.score (p : Params κ μ) : Nat := p.scoreTimestampMs.getD p.revision

def Params.limit (p : Params κ μ) : Nat := p.countLimit.getD 21

def Params.ttlMs (p : Params κ μ) : Nat := p.ttlSeconds * 1000

/-- Where a caller is: at the next read, or before a verification or a replacement with the state
it has read. -/
inductive Pc (κ μ : Type)
  | idle
  | get (p : Params κ μ) (attempt : Nat)
  | verify (p : Params κ μ) (attempt : Nat) (currentRaw : Stored κ)
  | replace (p : Params κ μ) (attempt : Nat) (currentRaw : Option (Stored κ))

/-- The state key, the membership sets and the callers. -/
structure System (ω κ μ : Type) where
  state : Slot (Stored κ)
  sets : Slots κ (Table μ Nat)
  pc : ω → Pc κ μ

/-- `resume` carries the two readings of the caller's own clock. `other` is a write or removal of
some other member, by a caller with another state key. -/
inductive Request (ω κ μ : Type)
  | call (w : ω) (p : Params κ μ)
  | resume (w : ω) (localNow localAfter : Nat)
  | other (key : κ) (member : μ) (score : Option Nat)

/-- The arguments and the result of a call that returns in this step. -/
abbrev Reply (κ μ : Type) := Option (Params κ μ × Result)

inductive Next (κ μ : Type)
  | goto (pc : Pc κ μ)
  | finish (p : Params κ μ) (r : Result)

def System.empty : System ω κ μ := ⟨none, fun _ => none, fun _ => .idle⟩

def System.purge (now : Nat) (s : System ω κ μ) : System ω κ μ :=
  ⟨Library.purge now s.state, fun k => Library.purge now (s.sets k), s.pc⟩

section Caller

variable [DecidableEq κ]

def Stored.count (c : Stored κ) (k : κ) : Nat := (c.memberships.lookup k).getD 0

def Params.Valid (p : Params κ μ) : Prop :=
  (∀ b, p.sharedBaseline = some b → p.scoreTimestampMs.isSome = true ∧ b.1 ≠ b.2 ∧
    b.1 ∈ p.membershipKeys ∧ b.2 ∈ p.membershipKeys) ∧
  p.membershipKeys.Nodup ∧ 0 < p.revision ∧ p.revision ≤ MAX_SAFE_INTEGER ∧
  0 < p.score ∧ p.score ≤ MAX_SAFE_INTEGER ∧
  0 < p.windowSeconds ∧ p.windowSeconds ≤ p.ttlSeconds ∧ p.ttlSeconds ≤ MAX_SAFE_INTEGER ∧
  0 < p.limit ∧ p.limit ≤ 100 ∧
  0 < p.deadlineAtMs ∧ p.deadlineAtMs ≤ MAX_SAFE_INTEGER

instance (p : Params κ μ) : Decidable p.Valid :=
  have : Decidable (∀ b, p.sharedBaseline = some b → p.scoreTimestampMs.isSome = true ∧ b.1 ≠ b.2 ∧
      b.1 ∈ p.membershipKeys ∧ b.2 ∈ p.membershipKeys) :=
    match p.sharedBaseline with
    | none => isTrue (by simp)
    | some b => decidable_of_iff (p.scoreTimestampMs.isSome = true ∧ b.1 ≠ b.2 ∧
        b.1 ∈ p.membershipKeys ∧ b.2 ∈ p.membershipKeys) (by simp)
  inferInstanceAs (Decidable (_ ∧ _ ∧ _ ∧ _ ∧ _ ∧ _ ∧ _ ∧ _ ∧ _ ∧ _ ∧ _ ∧ _ ∧ _))

/-- `parseRevisionedSetMembershipState`: a number that rounding made unsafe is malformed. -/
def parseRevisionedSetMembershipState (raw : Stored κ) : Option (Stored κ) :=
  if raw.revision = 0 ∨ MAX_SAFE_INTEGER < raw.revision ∨
      raw.scoreTimestampMs.any (fun x => x == 0 || MAX_SAFE_INTEGER < x) ∨ ¬ raw.keys.Nodup then none
  else some raw

def stringSetsEqual (left right : List κ) : Bool :=
  left.length == right.length && left.all (· ∈ right)

/-- `continue`, or the error after the last attempt. -/
def retry (p : Params κ μ) (attempt : Nat) : Next κ μ :=
  if attempt + 1 < REVISIONED_MEMBERSHIP_MAX_CAS_ATTEMPTS then .goto (.get p (attempt + 1))
  else .finish p .failed

def afterGet (p : Params κ μ) (attempt : Nat) (currentRaw : Option (Stored κ)) : Next κ μ :=
  match currentRaw with
  | none => .goto (.replace p attempt none)
  | some raw =>
    match parseRevisionedSetMembershipState raw with
    | none => .finish p .failed
    | some current =>
      if p.revision < current.revision then .finish p .stale
      else if p.revision = current.revision then
        if current.scoreTimestampMs.getD current.revision ≠ p.score then .finish p .stale
        else if stringSetsEqual current.keys p.membershipKeys = false then .finish p .stale
        else .goto (.verify p attempt raw)
      else .goto (.replace p attempt (some raw))

/-- `VERIFY_REVISIONED_MEMBERSHIP_STATE_SCRIPT` and the local code after it. -/
def verify (p : Params κ μ) (attempt : Nat) (raw : Stored κ) (state : Slot (Stored κ)) : Next κ μ :=
  if content state = some raw then .finish p (.replayed (p.membershipKeys.map raw.count))
  else retry p attempt

end Caller

section Script

variable [LinearOrder κ] [LinearOrder μ]

/-- Every key of the read state and of the call, once each, in order. -/
def allMembershipKeys (p : Params κ μ) (currentRaw : Option (Stored κ)) : List κ :=
  ((currentRaw.elim [] Stored.keys ++ p.membershipKeys).dedup).insertionSort (· ≤ ·)

def desiredKeys (p : Params κ μ) (keys : List κ) : List κ := keys.filter (· ∈ p.membershipKeys)

/-- The first loop: prune the set, then write or remove the member. -/
def replaceMembership (now : Nat) (p : Params κ μ) (sets : Slots κ (Table μ Nat)) (key : κ) :
    Slots κ (Table μ Nat) :=
  let pruned := removeScored (sets key) (now - p.ttlMs)
  put sets key
    (if key ∈ p.membershipKeys then expireAt (now + p.ttlMs) (setField pruned p.member p.score)
      else delField pruned p.member)

/-- The second loop, for one key. -/
def membershipCount (p : Params κ μ) (sets : Slots κ (Table μ Nat)) (key : κ) : Nat :=
  let lower := printedInt (p.score - p.windowSeconds * 1000)
  let count := (scoredWithin (sets key) lower p.score).length
  let count :=
    match p.sharedBaseline with
    | some (sharedKey, authorKey) =>
      match (scoredWithin (sets sharedKey) lower p.score).head? with
      | some first =>
        let x := (ofLex first).1
        if key = authorKey ∧ (scoredWithin (sets key) (x - 1) x).length = 0 then count + 1
        else count
      | none => count
    | none => count
  min count p.limit

/-- The reply of the script: the state has changed, the deadline has passed, or the counts. -/
inductive ScriptReply
  | mismatch
  | late
  | counts (response : List Nat)

/-- `REPLACE_REVISIONED_SET_MEMBERSHIPS_BEFORE_DEADLINE_SCRIPT`. -/
def replaceScript (now : Nat) (p : Params κ μ) (currentRaw : Option (Stored κ))
    (s : System ω κ μ) : System ω κ μ × ScriptReply :=
  if content s.state ≠ currentRaw then (s, .mismatch)
  else if p.deadlineAtMs ≤ now then (s, .late)
  else
    let keys := allMembershipKeys p currentRaw
    let sets := keys.foldl (replaceMembership now p) s.sets
    let stored := (desiredKeys p keys).map fun key => (key, membershipCount p sets key)
    ({ s with
        sets
        state := cell ⟨printed p.revision, some (printed p.score), stored⟩ (now + p.ttlMs) },
      .counts (stored.map Prod.snd))

def afterReplace (p : Params κ μ) (attempt : Nat) (currentRaw : Option (Stored κ)) :
    ScriptReply → Next κ μ
  | .mismatch => retry p attempt
  | .late => .finish p .deadlineExceeded
  | .counts response =>
    let sortedDesiredKeys := desiredKeys p (allMembershipKeys p currentRaw)
    if response.length ≠ sortedDesiredKeys.length then .finish p .failed
    else
      let countByKey := sortedDesiredKeys.zip response
      .finish p (.applied (p.membershipKeys.map fun key => (countByKey.lookup key).getD 0))

variable [DecidableEq ω]

def System.proceed (s : System ω κ μ) (w : ω) : Next κ μ → System ω κ μ × Reply κ μ
  | .goto pc => ({ s with pc := Function.update s.pc w pc }, none)
  | .finish p r => ({ s with pc := Function.update s.pc w .idle }, some (p, r))

/-- `replaceRevisionedSetMembershipsBeforeDeadline`, up to its next awaited call. -/
def System.resume (now localNow localAfter : Nat) (w : ω) (s : System ω κ μ) :
    System ω κ μ × Reply κ μ :=
  match s.pc w with
  | .idle => (s, none)
  | .get p attempt =>
    if p.deadlineAtMs ≤ localNow ∨ p.deadlineAtMs ≤ localAfter then
      s.proceed w (.finish p .deadlineExceeded)
    else s.proceed w (afterGet p attempt (content s.state))
  | .verify p attempt raw => s.proceed w (verify p attempt raw s.state)
  | .replace p attempt raw =>
    let (s, reply) := replaceScript now p raw s
    s.proceed w (afterReplace p attempt raw reply)

def step (now : Nat) (r : Request ω κ μ) (s : System ω κ μ) : System ω κ μ × Reply κ μ :=
  let s := s.purge now
  match r with
  | .call w p =>
    match s.pc w with
    | .idle => s.proceed w (if p.Valid then .goto (.get p 0) else .finish p .failed)
    | _ => (s, none)
  | .resume w localNow localAfter => s.resume now localNow localAfter w
  | .other key member score =>
    let set := match score with
      | some x => setField (s.sets key) member x
      | none => delField (s.sets key) member
    ({ s with sets := put s.sets key set }, none)

end Script

end Maxim.Moderation.RevisionedMembership
