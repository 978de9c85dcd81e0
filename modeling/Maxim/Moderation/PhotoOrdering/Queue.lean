import Maxim.Library.Run
import Maxim.Library.Table
import Mathlib.Data.String.Basic

/-!
# The scripts of the photo-duplicate ordering store

One ordering scope is a chat. Its jobs queue by the time of their source
message and then by the order of their registration, one worker at a time
holds the lease of the scope, and each job carries a permit that says whether
its result may still act. Every script runs in one step on keys that have not
expired.
-/

namespace Maxim.Moderation.PhotoOrdering

open Maxim.Library

def DUPLICATE_JOB_MAX_LIFETIME_MS : Nat := 10 * 60000
def PENDING_RECOVERY_GRACE_MS : Nat := 60000
def COMPLETED_TTL_MS : Nat := 7 * 24 * 60 * 60000
def AUTHORITY_TTL_MS : Nat := COMPLETED_TTL_MS
def ORDERING_RECOVERY_WAKEUP_MS : Nat := 30000
def LOCK_TTL_MS : Nat := 120000
def CLEANUP_BATCH_SIZE : Nat := 100

def ORDERING_TTL_MS : Nat := DUPLICATE_JOB_MAX_LIFETIME_MS + PENDING_RECOVERY_GRACE_MS * 2

/-- A pending member: the padded sequence number and the job, compared in this order. -/
abbrev Member := Nat ×ₗ String

def Member.sequence (m : Member) : Nat := (ofLex m).1
def Member.jobId (m : Member) : String := (ofLex m).2

/-- The field of `next-eligible` that marks a wakeup as explicit. -/
def explicit (jobId : String) : String := jobId ++ ":explicit"

/-- The hash of a permit; a field that was never written is `none`. -/
structure Permit where
  eligible : Option Bool
  admittedAtMs : Option Nat
  deadlineAtMs : Option Nat
  deriving DecidableEq

/-- The keys `pending`, `expiry`, `members` and `sequence`. -/
structure Queue where
  pending : Slot (Table Member Nat)
  expiry : Slot (Table String Nat)
  members : Slot (Table String Member)
  sequence : Slot Nat

structure Scope (τ : Type) where
  queue : Queue
  completed : Slot (Table String Nat)
  lock : Slot τ
  permit : Slots String Permit
  nextEligible : Slot (Table String Nat)

inductive Registration
  | initial
  | retry
  deriving DecidableEq, Repr

inductive WakeupKind
  | head
  | ordering
  deriving DecidableEq, Repr

/-- Arguments of `announce` as its script receives them. -/
structure Announce where
  jobId : String
  sourceCreatedAtMs : Nat
  deadlineAtMs : Nat
  actionEligible : Bool
  registration : Registration
  deriving DecidableEq

inductive Request (τ : Type)
  | announce (a : Announce)
  | claim (jobId : String) (token : τ) (deadlineAtMs : Nat)
  | resolve (jobId : String) (token : τ)
  | read (jobId : String)
  | revoke (jobId : String) (deadlineAtMs : Nat)
  | postpone (jobId : String) (nextEligibleAtMs : Nat) (kind : WakeupKind)
  | renew (token : τ)
  | complete (jobId : String) (token : τ)
  | release (jobId : String) (token : τ)
  | abandon (jobId : String)

/-- The head that a completion or an abandonment wakes, and when. -/
abbrev NextTurn := Option (String × Nat)

inductive Reply
  | registered (member : Member) (actionEligible : Bool) (admittedAtMs deadlineAtMs : Nat)
  | alreadyCompleted (actionEligible : Bool) (admittedAtMs deadlineAtMs : Nat)
  | announceExpired (admittedAtMs deadlineAtMs : Nat)
  | acquired (actionEligible : Bool)
  | notHead (nextEligibleAtMs : Nat)
  | busy (nextEligibleAtMs : Nat)
  | missing
  | deadline
  | scheduled (nextEligibleAtMs : Nat)
  | expired
  | leaseLost
  | eligible (actionEligible : Bool)
  | revoked
  | wakeup (nextEligibleAtMs : Nat)
  | renewed
  | released
  | turn (next : NextTurn)
  deriving DecidableEq

variable {τ : Type}

def Queue.empty : Queue := ⟨none, none, none, none⟩

def Scope.empty : Scope τ := ⟨.empty, none, none, fun _ => none, none⟩

def Queue.purge (now : Nat) (q : Queue) : Queue :=
  ⟨Library.purge now q.pending, Library.purge now q.expiry, Library.purge now q.members,
    Library.purge now q.sequence⟩

def Scope.purge (now : Nat) (s : Scope τ) : Scope τ :=
  ⟨s.queue.purge now, Library.purge now s.completed, Library.purge now s.lock,
    fun job => Library.purge now (s.permit job), Library.purge now s.nextEligible⟩

/-- Take a job out of the queue; its sequence number is not given back. -/
def Queue.dequeue (q : Queue) (job : String) : Queue :=
  let q := match field q.members job with
    | some member =>
      { q with pending := delField q.pending member, members := delField q.members job }
    | none => q
  { q with expiry := delField q.expiry job }

/-- Queue a job under the next sequence number and restart the lifetime of the queue keys. -/
def Queue.enqueue (q : Queue) (now : Nat) (job : String) (sourceCreatedAtMs deadlineAtMs : Nat) :
    Member × Queue :=
  let sequence := (content q.sequence).getD 0 + 1
  let member : Member := toLex (sequence, job)
  let x := now + ORDERING_TTL_MS
  (member,
    { pending := expireAt x (setField q.pending member sourceCreatedAtMs)
      expiry := expireAt x (setField q.expiry job (deadlineAtMs + PENDING_RECOVERY_GRACE_MS))
      members := expireAt x (setField q.members job member)
      sequence := cell sequence x })

def Scope.clearWakeup (s : Scope τ) (job : String) : Scope τ :=
  { s with nextEligible := delField (delField s.nextEligible job) (explicit job) }

def Scope.forget (s : Scope τ) (job : String) : Scope τ :=
  { s with queue := s.queue.dequeue job }.clearWakeup job

def Scope.cleanup (s : Scope τ) (now : Nat) : Scope τ :=
  (scoredUpTo s.queue.expiry now CLEANUP_BATCH_SIZE).foldl Scope.forget s

def Scope.cleanupCompleted (s : Scope τ) (now : Nat) : Scope τ :=
  { s with
    completed := (scoredUpTo s.completed now CLEANUP_BATCH_SIZE).foldl delField s.completed }

/-- `HSET` on a permit, then the lifetime if the key has none. -/
def writePermit (now : Nat) (p : Permit) (s : Slot Permit) : Slot Permit :=
  cell p ((expiry s).getD (now + AUTHORITY_TTL_MS))

def Scope.permitEligible (s : Scope τ) (job : String) : Option Bool :=
  (content (s.permit job)).bind Permit.eligible

def Scope.permitAdmittedAtMs (s : Scope τ) (job : String) : Option Nat :=
  (content (s.permit job)).bind Permit.admittedAtMs

def Scope.permitDeadlineAtMs (s : Scope τ) (job : String) : Option Nat :=
  (content (s.permit job)).bind Permit.deadlineAtMs

def Scope.setPermit (s : Scope τ) (now : Nat) (job : String) (p : Permit) : Scope τ :=
  { s with permit := put s.permit job (writePermit now p (s.permit job)) }

/-- The permit may act: it is eligible and its deadline is ahead. -/
def Scope.actionEligible (s : Scope τ) (now : Nat) (job : String) : Bool :=
  s.permitEligible job = some true ∧ now < (s.permitDeadlineAtMs job).getD 0

def announcedDeadline (now : Nat) (a : Announce) (s : Scope τ) : Nat :=
  min ((s.permitDeadlineAtMs a.jobId).getD (now + DUPLICATE_JOB_MAX_LIFETIME_MS)) a.deadlineAtMs

/-- `effective_action_eligible` of `ANNOUNCE_SCRIPT`. -/
def announcedEligible (now : Nat) (a : Announce) (s : Scope τ) : Bool :=
  (match s.permitEligible a.jobId with
    | none => a.registration = .initial && a.actionEligible
    | some stored => stored && a.actionEligible) &&
  decide (now < announcedDeadline now a s)

def announce (now : Nat) (a : Announce) (s : Scope τ) : Scope τ × Reply :=
  let s := (s.cleanup now).cleanupCompleted now
  let existing := field s.queue.members a.jobId
  let admittedAtMs := (s.permitAdmittedAtMs a.jobId).getD now
  let deadlineAtMs := announcedDeadline now a s
  let effective := announcedEligible now a s
  let s := s.setPermit now a.jobId ⟨some effective, some admittedAtMs, some deadlineAtMs⟩
  if (field s.completed a.jobId).isSome then
    (s, .alreadyCompleted effective admittedAtMs deadlineAtMs)
  else if deadlineAtMs ≤ now then (s, .announceExpired admittedAtMs deadlineAtMs)
  else
    match existing with
    | some member => (s, .registered member effective admittedAtMs deadlineAtMs)
    | none =>
      let (member, queue) := s.queue.enqueue now a.jobId a.sourceCreatedAtMs deadlineAtMs
      ({ s with queue, nextEligible := expireAt (now + ORDERING_TTL_MS) s.nextEligible },
        .registered member effective admittedAtMs deadlineAtMs)

/-- When a follower of the head should look again. -/
def headWakeup (now : Nat) (s : Scope τ) : Nat :=
  let headId := ((first s.queue.pending).map Member.jobId).getD ""
  let headNext := (field s.nextEligible headId).getD (now + ORDERING_RECOVERY_WAKEUP_MS)
  let headNext := if headNext ≤ now then now + ORDERING_RECOVERY_WAKEUP_MS else headNext
  let headNext := match field s.queue.expiry headId with
    | some headExpiry => min headNext headExpiry
    | none => headNext
  max (now + 1000) headNext

def claimTurn (now : Nat) (job : String) (token : τ) (deadlineAtMs : Nat) (s : Scope τ) :
    Scope τ × Reply :=
  if deadlineAtMs ≤ now then (s, .deadline)
  else
    let s := s.cleanup now
    match field s.queue.members job with
    | none => (s, .missing)
    | some member =>
      if first s.queue.pending ≠ some member then (s, .notHead (headWakeup now s))
      else if now < (field s.nextEligible job).getD 0 then
        (s, .scheduled ((field s.nextEligible job).getD 0))
      else if (s.permitDeadlineAtMs job).getD 0 ≤ now then (s, .expired)
      else
        match s.lock with
        | some _ => (s, .busy (now + ORDERING_RECOVERY_WAKEUP_MS))
        | none =>
          let wakeups := setField s.nextEligible job (now + ORDERING_RECOVERY_WAKEUP_MS)
          ({ s with
              lock := cell token (now + LOCK_TTL_MS)
              nextEligible := expireAt (now + ORDERING_TTL_MS) (delField wakeups (explicit job)) },
            .acquired (s.permitEligible job = some true))

def resolveActionEligibility [DecidableEq τ] (now : Nat) (job : String) (token : τ) (s : Scope τ) :
    Scope τ × Reply :=
  if content s.lock ≠ some token then (s, .leaseLost)
  else (s, .eligible (s.actionEligible now job))

def revokeActionEligibility (now : Nat) (job : String) (deadlineAtMs : Nat) (s : Scope τ) :
    Scope τ × Reply :=
  let admittedAtMs := (s.permitAdmittedAtMs job).getD now
  let deadlineAtMs := (s.permitDeadlineAtMs job).getD
    (min (now + DUPLICATE_JOB_MAX_LIFETIME_MS) deadlineAtMs)
  (s.setPermit now job ⟨some false, some admittedAtMs, some deadlineAtMs⟩, .revoked)

def postpone (now : Nat) (job : String) (nextEligibleAtMs : Nat) (kind : WakeupKind) (s : Scope τ) :
    Scope τ × Reply :=
  match field s.queue.members job with
  | none => (s, .wakeup nextEligibleAtMs)
  | some member =>
    let deadlineAtMs := (s.permitDeadlineAtMs job).getD 0
    let existingExplicit := field s.nextEligible (explicit job) = some 1
    let next := min nextEligibleAtMs deadlineAtMs
    let next :=
      if kind = .ordering ∧ ¬ existingExplicit ∧ first s.queue.pending = some member ∧
          s.lock.isNone then min next now
      else next
    if kind = .head ∨ ¬ existingExplicit then
      let wakeups := setField (setField s.nextEligible job next) (explicit job)
        (if kind = .head then 1 else 0)
      ({ s with nextEligible := expireAt (now + ORDERING_TTL_MS) wakeups }, .wakeup next)
    else (s, .wakeup (min ((field s.nextEligible job).getD next) deadlineAtMs))

def renewTurn [DecidableEq τ] (now : Nat) (token : τ) (s : Scope τ) : Scope τ × Reply :=
  if content s.lock = some token then
    ({ s with lock := expireAt (now + LOCK_TTL_MS) s.lock }, .renewed)
  else (s, .leaseLost)

def nextTurn (now : Nat) (s : Scope τ) : Scope τ × Reply :=
  match first s.queue.pending with
  | none => (s, .turn none)
  | some head =>
    let job := head.jobId
    let next := (field s.nextEligible job).getD now
    if field s.nextEligible (explicit job) ≠ some 1 ∨ next ≤ now then
      (s.clearWakeup job, .turn (some (job, now)))
    else (s, .turn (some (job, next)))

def completeTurn [DecidableEq τ] (now : Nat) (job : String) (token : τ) (s : Scope τ) :
    Scope τ × Reply :=
  if content s.lock ≠ some token then (s, .leaseLost)
  else
    let completed := expireAt (now + (COMPLETED_TTL_MS + 60000))
      (setField s.completed job (now + COMPLETED_TTL_MS))
    let s := { s with queue := s.queue.dequeue job, completed }
    nextTurn now { s.clearWakeup job with lock := none }

def releaseTurn [DecidableEq τ] (job : String) (token : τ) (s : Scope τ) : Scope τ × Reply :=
  if content s.lock = some token then ({ s.clearWakeup job with lock := none }, .released)
  else (s, .leaseLost)

/-- `ABANDON_SCRIPT`: only `eligible` is written, the other fields stay. -/
def abandon (now : Nat) (job : String) (s : Scope τ) : Scope τ × Reply :=
  let permit : Permit :=
    ⟨some false, s.permitAdmittedAtMs job, s.permitDeadlineAtMs job⟩
  let s := { s with queue := s.queue.dequeue job }.setPermit now job permit
  nextTurn now (s.clearWakeup job)

def step [DecidableEq τ] (now : Nat) (r : Request τ) (s : Scope τ) : Scope τ × Reply :=
  let s := s.purge now
  match r with
  | .announce a => announce now a s
  | .claim job token deadlineAtMs => claimTurn now job token deadlineAtMs s
  | .resolve job token => resolveActionEligibility now job token s
  | .read job => (s, .eligible (s.actionEligible now job))
  | .revoke job deadlineAtMs => revokeActionEligibility now job deadlineAtMs s
  | .postpone job nextEligibleAtMs kind => postpone now job nextEligibleAtMs kind s
  | .renew token => renewTurn now token s
  | .complete job token => completeTurn now job token s
  | .release job token => releaseTurn job token s
  | .abandon job => abandon now job s

end Maxim.Moderation.PhotoOrdering

/-!
## The queue keys of an ordering scope

`pending`, `members` and `expiry` name the same jobs. They expire together
with `sequence`, so the numbering restarts only when no job is left.
-/

namespace Maxim.Moderation.PhotoOrdering

open Maxim.Library

structure Queue.Consistent (q : Queue) : Prop where
  lifetime : ∃ x, ExpiresAt x q.pending ∧ ExpiresAt x q.expiry ∧ ExpiresAt x q.members ∧
    ExpiresAt x q.sequence
  pending : ∀ m ts, field q.pending m = some ts → field q.members m.jobId = some m
  expiry : ∀ job x, field q.expiry job = some x → ∃ m, field q.members job = some m
  member : ∀ job m, field q.members job = some m → m.jobId = job ∧
    (∃ ts, field q.pending m = some ts) ∧ ∃ x, field q.expiry job = some x
  numbered : ∀ job m, field q.members job = some m →
    ∃ n, content q.sequence = some n ∧ m.sequence ≤ n
  distinct : ∀ job job' m m', field q.members job = some m → field q.members job' = some m' →
    m.sequence = m'.sequence → job = job'

theorem Queue.consistent_empty : Queue.empty.Consistent where
  lifetime := ⟨0, expiresAt_none 0, expiresAt_none 0, expiresAt_none 0, expiresAt_none 0⟩
  pending := by simp [Queue.empty]
  expiry := by simp [Queue.empty]
  member := by simp [Queue.empty]
  numbered := by simp [Queue.empty]
  distinct := by simp [Queue.empty]

variable {q : Queue}

theorem Queue.Consistent.purge (h : q.Consistent) (now : Nat) :
    q.purge now = q ∨ q.purge now = Queue.empty := by
  obtain ⟨x, hp, he, hm, hs⟩ := h.lifetime
  rcases Nat.lt_or_ge x now with hlt | hle
  · right
    simp only [Queue.purge, hp.purge_of_lt hlt, he.purge_of_lt hlt, hm.purge_of_lt hlt,
      hs.purge_of_lt hlt, Queue.empty]
  · left
    simp only [Queue.purge, hp.purge_of_le hle, he.purge_of_le hle, hm.purge_of_le hle,
      hs.purge_of_le hle]

theorem Queue.Consistent.purged (h : q.Consistent) (now : Nat) :
    (q.purge now).Consistent := by
  rcases h.purge now with hq | hq <;> rw [hq]
  · exact h
  · exact Queue.consistent_empty

/-! ## Taking a job out -/

theorem Queue.dequeue_members (q : Queue) (job k : String) :
    field (q.dequeue job).members k = if k = job then none else field q.members k := by
  cases hm : field q.members job with
  | some m => simp only [Queue.dequeue, hm, field_delField]
  | none =>
    simp only [Queue.dequeue, hm]
    split
    · next hk => rw [hk, hm]
    · rfl

theorem Queue.dequeue_expiry (q : Queue) (job k : String) :
    field (q.dequeue job).expiry k = if k = job then none else field q.expiry k := by
  cases hm : field q.members job <;> simp only [Queue.dequeue, hm, field_delField]

theorem Queue.dequeue_sequence (q : Queue) (job : String) :
    (q.dequeue job).sequence = q.sequence := by
  cases hm : field q.members job <;> simp only [Queue.dequeue, hm]

theorem Queue.Consistent.dequeue_pending (h : q.Consistent) (job : String) (m : Member) :
    field (q.dequeue job).pending m = if m.jobId = job then none else field q.pending m := by
  cases hm : field q.members job with
  | some m' =>
    simp only [Queue.dequeue, hm, field_delField]
    by_cases heq : m = m'
    · rw [if_pos heq, heq, if_pos (h.member job m' hm).1]
    · rw [if_neg heq]
      split
      · next hj =>
        cases hp : field q.pending m with
        | none => rfl
        | some ts =>
          have hmem := h.pending m ts hp
          rw [hj, hm, Option.some.injEq] at hmem
          exact absurd hmem.symm heq
      · rfl
  | none =>
    simp only [Queue.dequeue, hm]
    split
    · next hj =>
      cases hp : field q.pending m with
      | none => rfl
      | some ts =>
        have hmem := h.pending m ts hp
        rw [hj, hm] at hmem
        simp at hmem
    · rfl

theorem Queue.Consistent.dequeue (h : q.Consistent) (job : String) :
    (q.dequeue job).Consistent where
  lifetime := by
    obtain ⟨x, hp, he, hm, hs⟩ := h.lifetime
    refine ⟨x, ?_, ?_, ?_, by rwa [q.dequeue_sequence job]⟩
    all_goals cases hj : field q.members job <;> simp only [Queue.dequeue, hj]
    · exact hp
    · exact hp.delField _
    · exact he.delField _
    · exact he.delField _
    · exact hm
    · exact hm.delField _
  pending := by
    intro m ts hm
    rw [h.dequeue_pending] at hm
    rw [Queue.dequeue_members]
    split at hm
    · simp at hm
    · next hj => rw [if_neg hj]; exact h.pending m ts hm
  expiry := by
    intro k x hx
    rw [Queue.dequeue_expiry] at hx
    rw [Queue.dequeue_members]
    split at hx
    · simp at hx
    · next hj => rw [if_neg hj]; exact h.expiry k x hx
  member := by
    intro k m hm
    rw [Queue.dequeue_members] at hm
    split at hm
    · simp at hm
    · next hk =>
      obtain ⟨hj, hp, hx⟩ := h.member k m hm
      rw [h.dequeue_pending, Queue.dequeue_expiry, hj, if_neg hk, if_neg hk]
      exact ⟨rfl, hp, hx⟩
  numbered := by
    intro k m hm
    rw [Queue.dequeue_members] at hm
    rw [Queue.dequeue_sequence]
    split at hm
    · simp at hm
    · exact h.numbered k m hm
  distinct := by
    intro k k' m m' hm hm' hs
    rw [Queue.dequeue_members] at hm hm'
    split at hm
    · simp at hm
    · split at hm'
      · simp at hm'
      · exact h.distinct k k' m m' hm hm' hs

def Queue.without (q : Queue) (jobs : List String) : Queue := jobs.foldl Queue.dequeue q

theorem Queue.Consistent.without (h : q.Consistent) (jobs : List String) :
    (q.without jobs).Consistent := by
  induction jobs generalizing q with
  | nil => exact h
  | cons job jobs ih => exact ih (h.dequeue job)

theorem Queue.without_members (q : Queue) (jobs : List String) (k : String) :
    field (q.without jobs).members k = if k ∈ jobs then none else field q.members k := by
  induction jobs generalizing q with
  | nil => simp [Queue.without]
  | cons job jobs ih =>
    have hih := ih (q.dequeue job)
    rw [Queue.dequeue_members] at hih
    rw [show q.without (job :: jobs) = (q.dequeue job).without jobs from rfl, hih]
    by_cases hk : k = job <;> simp [hk]

theorem Queue.Consistent.without_pending (h : q.Consistent) (jobs : List String)
    (m : Member) :
    field (q.without jobs).pending m = if m.jobId ∈ jobs then none else field q.pending m := by
  induction jobs generalizing q with
  | nil => simp [Queue.without]
  | cons job jobs ih =>
    have hih := ih (h.dequeue job)
    rw [h.dequeue_pending] at hih
    rw [show q.without (job :: jobs) = (q.dequeue job).without jobs from rfl, hih]
    by_cases hk : m.jobId = job <;> simp [hk]

/-! ## Queueing a job -/

theorem Queue.enqueue_members (q : Queue) (now ts dl : Nat) (job k : String) :
    field (q.enqueue now job ts dl).2.members k =
      if k = job then some (q.enqueue now job ts dl).1 else field q.members k := by
  simp only [Queue.enqueue, field_expireAt, field_setField]

theorem Queue.enqueue_pending (q : Queue) (now ts dl : Nat) (job : String) (m : Member) :
    field (q.enqueue now job ts dl).2.pending m =
      if m = (q.enqueue now job ts dl).1 then some ts else field q.pending m := by
  have heq : (q.enqueue now job ts dl).2.pending =
      expireAt (now + ORDERING_TTL_MS) (setField q.pending (q.enqueue now job ts dl).1 ts) := rfl
  rw [heq, field_expireAt, field_setField]

theorem Queue.enqueue_expiry (q : Queue) (now ts dl : Nat) (job k : String) :
    field (q.enqueue now job ts dl).2.expiry k =
      if k = job then some (dl + PENDING_RECOVERY_GRACE_MS) else field q.expiry k := by
  simp only [Queue.enqueue, field_expireAt, field_setField]

theorem Queue.Consistent.sequence_lt (h : q.Consistent) (now ts dl : Nat)
    (job : String) {k : String} {m : Member} (hm : field q.members k = some m) :
    m.sequence < (q.enqueue now job ts dl).1.sequence := by
  obtain ⟨n, hn, hle⟩ := h.numbered k m hm
  simp only [Queue.enqueue, hn, Option.getD_some, Member.sequence, ofLex_toLex]
  exact Nat.lt_succ_of_le hle

/-- A job that is not in the queue joins it with the highest number so far. -/
theorem Queue.Consistent.enqueue (h : q.Consistent) {job : String}
    (hnew : field q.members job = none) (now ts dl : Nat) :
    (q.enqueue now job ts dl).2.Consistent := by
  have hself : (q.enqueue now job ts dl).1.jobId = job := rfl
  have hother : ∀ k m, field q.members k = some m → k ≠ job ∧ m ≠ (q.enqueue now job ts dl).1 := by
    intro k m hm
    refine ⟨fun hk => ?_, fun heq => ?_⟩
    · rw [hk, hnew] at hm
      simp at hm
    · have hlt := h.sequence_lt now ts dl job hm
      rw [heq] at hlt
      omega
  refine ⟨⟨now + ORDERING_TTL_MS, ?_, ?_, ?_, ?_⟩, ?_, ?_, ?_, ?_, ?_⟩
  · exact expiresAt_expireAt _ _
  · exact expiresAt_expireAt _ _
  · exact expiresAt_expireAt _ _
  · intro c hc
    simp only [Queue.enqueue, cell, Option.some.injEq] at hc
    rw [← hc]
  · intro m x hx
    rw [Queue.enqueue_pending] at hx
    rw [Queue.enqueue_members]
    split at hx
    · next heq => rw [heq, hself, if_pos rfl]
    · have hm := h.pending m x hx
      rw [if_neg (hother _ m hm).1]
      exact hm
  · intro k x hx
    rw [Queue.enqueue_expiry] at hx
    rw [Queue.enqueue_members]
    split at hx
    · next hk => exact ⟨_, if_pos hk⟩
    · next hk => rw [if_neg hk]; exact h.expiry k x hx
  · intro k m hm
    rw [Queue.enqueue_members] at hm
    rw [Queue.enqueue_pending, Queue.enqueue_expiry]
    split at hm
    · next hk =>
      rw [Option.some.injEq] at hm
      rw [← hm, if_pos rfl, if_pos hk, hself]
      exact ⟨hk.symm, ⟨ts, rfl⟩, ⟨_, rfl⟩⟩
    · next hk =>
      rw [if_neg (hother k m hm).2, if_neg hk]
      exact h.member k m hm
  · intro k m hm
    rw [Queue.enqueue_members] at hm
    refine ⟨(q.enqueue now job ts dl).1.sequence, rfl, ?_⟩
    split at hm
    · rw [Option.some.injEq] at hm
      rw [hm]
    · exact Nat.le_of_lt (h.sequence_lt now ts dl job hm)
  · intro k k' m m' hm hm' hs
    rw [Queue.enqueue_members] at hm hm'
    split at hm <;> split at hm'
    · next hk hk' => rw [hk, hk']
    · have hlt := h.sequence_lt now ts dl job hm'
      rw [Option.some.injEq] at hm
      rw [hm] at hlt
      omega
    · have hlt := h.sequence_lt now ts dl job hm
      rw [Option.some.injEq] at hm'
      rw [hm'] at hlt
      omega
    · exact h.distinct k k' m m' hm hm' hs

theorem Queue.Consistent.first_minimal (h : q.Consistent) {m : Member}
    (hm : first q.pending = some m) :
    ∃ ts, field q.pending m = some ts ∧ ∀ m' ts', field q.pending m' = some ts' → m' ≠ m →
      ts < ts' ∨ ts = ts' ∧ m.sequence < m'.sequence := by
  obtain ⟨ts, hts, hmin⟩ := first_eq_some hm
  refine ⟨ts, hts, fun m' ts' hm' hne => ?_⟩
  have hle := hmin m' ts' hm'
  rw [Prod.Lex.toLex_le_toLex] at hle
  rcases hle with hlt | ⟨heq, hle⟩
  · exact .inl hlt
  · refine .inr ⟨heq, ?_⟩
    change toLex (ofLex m) ≤ toLex (ofLex m') at hle
    rw [Prod.Lex.toLex_le_toLex] at hle
    rcases hle with hlt | ⟨hseq, -⟩
    · exact hlt
    · have hmem := h.pending m ts hts
      have hmem' := h.pending m' ts' hm'
      have hjob := h.distinct _ _ _ _ hmem hmem' hseq
      rw [hjob, hmem', Option.some.injEq] at hmem
      exact absurd hmem hne

end Maxim.Moderation.PhotoOrdering
