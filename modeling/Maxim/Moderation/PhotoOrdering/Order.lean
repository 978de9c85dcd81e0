import Maxim.Moderation.PhotoOrdering.Queue

/-!
# Ordered mutual exclusion

Workers run the scripts in any order and their leases expire at any moment.
A turn is acquired only by the first pending job and only without a lease, and
within the completion lifetime a completed job is neither acquired nor
completed again. Nothing is assumed about the arguments of a script except
that a lease token is fresh when it is claimed and that a job is completed
with a token that acquired the turn of this job.
-/

namespace Maxim.Moderation.PhotoOrdering

open Maxim.Library

variable {τ : Type}

/-! ## The effect of one script -/

theorem foldl_forget (jobs : List String) (s : Scope τ) :
    (jobs.foldl Scope.forget s).queue = s.queue.without jobs ∧
      (jobs.foldl Scope.forget s).completed = s.completed ∧
      (jobs.foldl Scope.forget s).lock = s.lock ∧
      (jobs.foldl Scope.forget s).permit = s.permit := by
  induction jobs generalizing s with
  | nil => exact ⟨rfl, rfl, rfl, rfl⟩
  | cons job jobs ih => exact ih (s.forget job)

theorem nextTurn_frame (now : Nat) (s : Scope τ) :
    (nextTurn now s).1.queue = s.queue ∧ (nextTurn now s).1.completed = s.completed ∧
      (nextTurn now s).1.lock = s.lock ∧ (nextTurn now s).1.permit = s.permit ∧
      ∃ next, (nextTurn now s).2 = .turn next := by
  unfold nextTurn
  split
  · exact ⟨rfl, rfl, rfl, rfl, _, rfl⟩
  · simp only []
    split <;> exact ⟨rfl, rfl, rfl, rfl, _, rfl⟩

/-- Completions are only dropped when they are due. -/
structure Tidied (now : Nat) (c c' : Slot (Table String Nat)) : Prop where
  kept : ∀ job x, field c job = some x → now < x → field c' job = some x
  only : ∀ job x, field c' job = some x → field c job = some x
  lifetime : ∀ x, ExpiresAt x c → ExpiresAt x c'

theorem Tidied.refl (now : Nat) (c : Slot (Table String Nat)) : Tidied now c c :=
  ⟨fun _ _ h _ => h, fun _ _ h => h, fun _ h => h⟩

theorem tidied_cleanupCompleted (now : Nat) (s : Scope τ) :
    Tidied now s.completed (s.cleanupCompleted now).completed := by
  refine ⟨fun job x hx hlt => ?_, fun job x hx => ?_, fun x hx => hx.foldl_delField _⟩
  · rw [Scope.cleanupCompleted, field_foldl_delField, if_neg, hx]
    intro hmem
    obtain ⟨y, hy, hfield⟩ := mem_scoredUpTo hmem
    rw [hx, Option.some.injEq] at hfield
    omega
  · rw [Scope.cleanupCompleted, field_foldl_delField] at hx
    split at hx
    · simp at hx
    · exact hx

/-- What a script can do to the queue, the completions and the lease of a purged scope. -/
inductive Effect (now : Nat) (s s' : Scope τ) (r : Request τ) (o : Reply) : Prop
  | upkeep (jobs : List String) (queue : s'.queue = s.queue.without jobs)
      (completed : Tidied now s.completed s'.completed)
      (lock : ∀ token, content s'.lock = some token → content s.lock = some token)
      (acquired : ∀ b, o ≠ .acquired b)
      (turn : ∀ job token next, r = .complete job token → o ≠ .turn next)
  | registers (jobs : List String) (job : String) (ts dl : Nat)
      (queue : s'.queue = ((s.queue.without jobs).enqueue now job ts dl).2)
      (new : field (s.queue.without jobs).members job = none)
      (unfinished : field s'.completed job = none)
      (completed : Tidied now s.completed s'.completed) (lock : s'.lock = s.lock)
      (acquired : ∀ b, o ≠ .acquired b) (turn : ∀ next, o ≠ .turn next)
  | acquires (jobs : List String) (job : String) (token : τ) (dl : Nat) (b : Bool) (m : Member)
      (request : r = .claim job token dl) (reply : o = .acquired b)
      (queue : s'.queue = s.queue.without jobs)
      (due : ∀ k ∈ jobs, ∃ x ≤ now, field s.queue.expiry k = some x)
      (completed : s'.completed = s.completed) (free : s.lock = none)
      (lock : content s'.lock = some token) (member : field s'.queue.members job = some m)
      (head : first s'.queue.pending = some m)
  | completes (job : String) (token : τ) (next : NextTurn)
      (request : r = .complete job token) (reply : o = .turn next)
      (owner : content s.lock = some token) (lock : s'.lock = none)
      (queue : s'.queue = s.queue.dequeue job)
      (completed : s'.completed = expireAt (now + (COMPLETED_TTL_MS + 60000))
        (setField s.completed job (now + COMPLETED_TTL_MS)))

variable {now c t : Nat} {s s' : Scope τ} {r : Request τ}

theorem Effect.quiet {o : Reply}
    (hq : s'.queue = s.queue) (hc : s'.completed = s.completed) (hl : s'.lock = s.lock)
    (ha : ∀ b, o ≠ .acquired b) (ht : ∀ next, o ≠ .turn next) : Effect now s s' r o :=
  .upkeep [] hq (by rw [hc]; exact .refl _ _) (by rw [hl]; exact fun _ h => h) ha
    fun _ _ next _ => ht next

theorem announce_effect (now : Nat) (a : Announce) (s : Scope τ) :
    Effect now s (announce now a s).1 (.announce a) (announce now a s).2 := by
  obtain ⟨hq, hc, hl, -⟩ := foldl_forget (scoredUpTo s.queue.expiry now CLEANUP_BATCH_SIZE) s
  have htidy := tidied_cleanupCompleted now (s.cleanup now)
  have hcleaned : (s.cleanup now).completed = s.completed := hc
  rw [hcleaned] at htidy
  have hlock : ∀ token, content (s.cleanup now).lock = some token → content s.lock = some token := by
    intro token h
    rwa [show (s.cleanup now).lock = s.lock from hl] at h
  simp only [announce]
  split
  · exact .upkeep _ hq htidy hlock (by simp) (by simp)
  split
  · exact .upkeep _ hq htidy hlock (by simp) (by simp)
  · next hdone _ =>
    split
    · exact .upkeep _ hq htidy hlock (by simp) (by simp)
    · next hnew =>
      have hqueue : ((s.cleanup now).cleanupCompleted now).queue = s.queue.without _ := hq
      rw [hqueue] at hnew
      refine .registers _ a.jobId a.sourceCreatedAtMs
        (announcedDeadline now a ((s.cleanup now).cleanupCompleted now)) ?_ hnew
        (by simpa using hdone) htidy hl (by simp) (by simp)
      simp only [Scope.setPermit]
      rw [hqueue]

theorem claimTurn_effect (now : Nat) (job : String) (token : τ) (dl : Nat) (s : Scope τ) :
    Effect now s (claimTurn now job token dl s).1 (.claim job token dl)
      (claimTurn now job token dl s).2 := by
  obtain ⟨hq, hc, hl, -⟩ := foldl_forget (scoredUpTo s.queue.expiry now CLEANUP_BATCH_SIZE) s
  have hcleaned : Tidied now s.completed (s.cleanup now).completed := by
    rw [show (s.cleanup now).completed = s.completed from hc]
    exact .refl _ _
  have hlock : ∀ token, content (s.cleanup now).lock = some token → content s.lock = some token := by
    intro token h
    rwa [show (s.cleanup now).lock = s.lock from hl] at h
  simp only [claimTurn]
  split
  · exact .quiet rfl rfl rfl (by simp) (by simp)
  split
  · exact .upkeep _ hq hcleaned hlock (by simp) (by simp)
  · next m hm =>
    split
    · exact .upkeep _ hq hcleaned hlock (by simp) (by simp)
    · next hhead =>
      split
      · exact .upkeep _ hq hcleaned hlock (by simp) (by simp)
      split
      · exact .upkeep _ hq hcleaned hlock (by simp) (by simp)
      split
      · exact .upkeep _ hq hcleaned hlock (by simp) (by simp)
      · next hfree =>
        exact .acquires _ job token dl _ m rfl rfl hq (fun k hk => mem_scoredUpTo hk) hc
          (hl.symm.trans hfree) rfl hm (by simpa using hhead)

theorem postpone_effect (now : Nat) (job : String) (next : Nat) (kind : WakeupKind) (s : Scope τ) :
    Effect now s (postpone now job next kind s).1 (.postpone job next kind)
      (postpone now job next kind s).2 := by
  unfold postpone
  split
  · exact .quiet rfl rfl rfl (by simp) (by simp)
  · simp only []
    split <;> exact .quiet rfl rfl rfl (by simp) (by simp)

variable [DecidableEq τ]

theorem renewTurn_effect (now : Nat) (token : τ) (s : Scope τ) :
    Effect now s (renewTurn now token s).1 (.renew token) (renewTurn now token s).2 := by
  unfold renewTurn
  split
  · refine .upkeep [] rfl (.refl _ _) ?_ (by simp) (by simp)
    intro token' h
    rwa [content_expireAt] at h
  · exact .quiet rfl rfl rfl (by simp) (by simp)

theorem completeTurn_effect (now : Nat) (job : String) (token : τ) (s : Scope τ) :
    Effect now s (completeTurn now job token s).1 (.complete job token)
      (completeTurn now job token s).2 := by
  unfold completeTurn
  split
  · exact .quiet rfl rfl rfl (by simp) (by simp)
  · next howner =>
    simp only []
    generalize hs : ({ Scope.clearWakeup (τ := τ) _ job with lock := none } : Scope τ) = s'
    obtain ⟨hq, hc, hl, -, next, hrep⟩ := nextTurn_frame now s'
    subst hs
    exact .completes job token next rfl hrep (by simpa using howner) hl hq hc

theorem releaseTurn_effect (now : Nat) (job : String) (token : τ) (s : Scope τ) :
    Effect now s (releaseTurn job token s).1 (.release job token) (releaseTurn job token s).2 := by
  unfold releaseTurn
  split
  · exact .upkeep [] rfl (.refl _ _) (by simp) (by simp) (by simp)
  · exact .quiet rfl rfl rfl (by simp) (by simp)

omit [DecidableEq τ] in
theorem abandon_effect (now : Nat) (job : String) (s : Scope τ) :
    Effect now s (abandon now job s).1 (.abandon job) (abandon now job s).2 := by
  simp only [abandon]
  generalize hs : Scope.clearWakeup (τ := τ) _ job = s'
  obtain ⟨hq, hc, hl, -, next, hrep⟩ := nextTurn_frame now s'
  subst hs
  refine .upkeep [job] hq ?_ ?_ (by simp [hrep]) (by simp)
  · rw [hc]
    exact .refl _ _
  · rw [hl]
    exact fun _ h => h

theorem step_effect (now : Nat) (r : Request τ) (s : Scope τ) :
    Effect now (s.purge now) (step now r s).1 r (step now r s).2 := by
  cases r with
  | announce a => exact announce_effect now a _
  | claim job token dl => exact claimTurn_effect now job token dl _
  | resolve job token =>
    simp only [step, resolveActionEligibility]
    split <;> exact .quiet rfl rfl rfl (by simp) (by simp)
  | read job => exact .quiet rfl rfl rfl (by simp [step]) (by simp [step])
  | revoke job dl =>
    simp only [step, revokeActionEligibility]
    exact .quiet rfl rfl rfl (by simp) (by simp)
  | postpone job next kind => exact postpone_effect now job next kind _
  | renew token => exact renewTurn_effect now token _
  | complete job token => exact completeTurn_effect now job token _
  | release job token => exact releaseTurn_effect now job token _
  | abandon job => exact abandon_effect now job _

/-! ## Consistency -/

omit [DecidableEq τ]

/-- The queue keys agree, and no completed job is queued. -/
structure Scope.Consistent (s : Scope τ) : Prop where
  queue : s.queue.Consistent
  completed : ∀ job x, field s.completed job = some x → field s.queue.members job = none

theorem Scope.consistent_empty : (Scope.empty : Scope τ).Consistent :=
  ⟨Queue.consistent_empty, by simp [Scope.empty]⟩

theorem Scope.Consistent.purged (h : s.Consistent) (now : Nat) :
    (s.purge now).Consistent := by
  refine ⟨h.queue.purged now, fun job x hx => ?_⟩
  have hnone := h.completed job x (field_purge_eq_some hx)
  change field (s.queue.purge now).members job = none
  rcases h.queue.purge now with hq | hq <;> rw [hq]
  · exact hnone
  · rfl

theorem Effect.consistent {o : Reply}
    (he : Effect now s s' r o) (h : s.Consistent) : s'.Consistent := by
  have hwithout : ∀ jobs job, field s.queue.members job = none →
      field (s.queue.without jobs).members job = none := by
    intro jobs job hnone
    rw [Queue.without_members, hnone, ite_self]
  cases he with
  | upkeep jobs queue completed =>
    refine ⟨by rw [queue]; exact h.queue.without jobs, fun job x hx => ?_⟩
    rw [queue]
    exact hwithout jobs job (h.completed job x (completed.only job x hx))
  | registers jobs job ts dl queue new unfinished completed =>
    refine ⟨by rw [queue]; exact (h.queue.without jobs).enqueue new _ _ _, fun k x hx => ?_⟩
    rw [queue, Queue.enqueue_members]
    have hne : k ≠ job := by
      rintro rfl
      rw [unfinished] at hx
      simp at hx
    rw [if_neg hne]
    exact hwithout jobs k (h.completed k x (completed.only k x hx))
  | acquires jobs _ _ _ _ _ _ _ queue _ completed =>
    refine ⟨by rw [queue]; exact h.queue.without jobs, fun job x hx => ?_⟩
    rw [completed] at hx
    rw [queue]
    exact hwithout jobs job (h.completed job x hx)
  | completes job _ _ _ _ _ _ queue completed =>
    refine ⟨by rw [queue]; exact h.queue.dequeue job, fun k x hx => ?_⟩
    rw [completed, field_expireAt, field_setField] at hx
    rw [queue, Queue.dequeue_members]
    split at hx
    · next hk => rw [if_pos hk]
    · rw [h.completed k x hx, ite_self]

/-! ## Runs -/

abbrev Record (τ : Type) := Entry (Request τ) Reply

def Acquires (e : Record τ) (job : String) (token : τ) : Prop :=
  (∃ dl, e.request = .claim job token dl) ∧ ∃ b, e.reply = .acquired b

def Completes (e : Record τ) (job : String) : Prop :=
  (∃ token, e.request = .complete job token) ∧ ∃ next, e.reply = .turn next

/-- What `runInOrder` promises: a fresh token for each claim, and a completion only for a turn that
was acquired with the same job and token. -/
def Accepted (h : List (Record τ)) (_now : Nat) : Request τ → Prop
  | .claim _ token _ => ∀ e ∈ h, ∀ job dl, e.request ≠ .claim job token dl
  | .complete job token => ∃ e ∈ h, Acquires e job token
  | _ => True

/-- The job comes before every other pending job, by source time and then by sequence number. -/
def Foremost (q : Queue) (job : String) : Prop :=
  ∃ m ts, field q.members job = some m ∧ field q.pending m = some ts ∧
    ∀ m' ts', field q.pending m' = some ts' → m' ≠ m →
      ts < ts' ∨ ts = ts' ∧ m.sequence < m'.sequence

/-- Of the pending jobs of `q` only those that are due for cleanup are missing in `q'`. -/
def OnlyDueRemoved (now : Nat) (q q' : Queue) : Prop :=
  ∀ m ts, field q.pending m = some ts →
    field q'.pending m = some ts ∨ ∃ x ≤ now, field q.expiry m.jobId = some x

variable {job : String}

theorem Effect.foremost {o : Reply}
    (he : Effect now s s' r o) (h : s.Consistent) {token : τ}
    (ha : Acquires ⟨now, r, o⟩ job token) :
    s.lock = none ∧ Foremost s'.queue job ∧ OnlyDueRemoved now s.queue s'.queue := by
  obtain ⟨⟨dl, hr⟩, b, ho⟩ := ha
  simp only at hr ho
  subst hr
  cases he with
  | upkeep _ _ _ _ acquired => exact absurd ho (acquired b)
  | registers _ _ _ _ _ _ _ _ _ acquired => exact absurd ho (acquired b)
  | completes _ _ _ request => simp at request
  | acquires jobs job' token' dl' b' m request reply queue due completed free lock member head =>
    simp only [Request.claim.injEq] at request
    obtain ⟨rfl, rfl, rfl⟩ := request
    have hwithout : s'.queue.Consistent := by
      rw [queue]
      exact h.queue.without jobs
    obtain ⟨ts, hts, hmin⟩ := hwithout.first_minimal head
    refine ⟨free, ⟨m, ts, member, hts, hmin⟩, fun m' ts' hm' => ?_⟩
    by_cases hmem : m'.jobId ∈ jobs
    · exact .inr (due _ hmem)
    · left
      rw [queue, h.queue.without_pending, if_neg hmem]
      exact hm'

/-- Until the completion lifetime is over, a job completed at `c` is recorded and holds no lease. -/
structure Settled (c : Nat) (job : String) (h : List (Record τ)) (s : Scope τ) : Prop where
  recorded : ∃ x y, c + COMPLETED_TTL_MS ≤ x ∧ c + COMPLETED_TTL_MS ≤ y ∧
    ExpiresAt x s.completed ∧ field s.completed job = some y
  lease : ∀ token, content s.lock = some token → ∀ e ∈ h, ¬ Acquires e job token

variable {h : List (Record τ)}

theorem Settled.purged
    (hs : Settled c job h s) (ht : t < c + COMPLETED_TTL_MS) : Settled c job h (s.purge t) := by
  obtain ⟨⟨x, y, hx, hy, hexp, hrec⟩, hlease⟩ := hs
  refine ⟨⟨x, y, hx, hy, ?_⟩, fun token htok => hlease token ?_⟩
  · change ExpiresAt x (Library.purge t s.completed) ∧
      field (Library.purge t s.completed) job = some y
    rw [hexp.purge_of_le (by omega)]
    exact ⟨hexp, hrec⟩
  · obtain ⟨d, hd, hval⟩ := Option.map_eq_some_iff.mp htok
    rw [(purge_eq_some.mp hd).1, content_some, hval]

theorem Settled.refuses
    {o : Reply} (hs : Settled c job h s) (hc : s.Consistent)
    (hok : Accepted h now r) (he : Effect now s s' r o) :
    (∀ token, ¬ Acquires ⟨now, r, o⟩ job token) ∧ ¬ Completes ⟨now, r, o⟩ job := by
  obtain ⟨-, y, -, -, -, hrec⟩ := hs.recorded
  refine ⟨fun token ha => ?_, fun hcomp => ?_⟩
  · obtain ⟨⟨dl, hr⟩, b, ho⟩ := ha
    simp only at hr ho
    subst hr
    cases he with
    | upkeep _ _ _ _ acquired => exact acquired b ho
    | registers _ _ _ _ _ _ _ _ _ acquired => exact acquired b ho
    | completes _ _ _ request => simp at request
    | acquires jobs job' token' dl' b' m request reply queue due completed free lock member =>
      simp only [Request.claim.injEq] at request
      rw [queue, Queue.without_members, ← request.1, hc.completed job y hrec, ite_self] at member
      simp at member
  · obtain ⟨⟨token, hr⟩, next, ho⟩ := hcomp
    simp only at hr ho
    subst hr
    obtain ⟨e, hmem, hacq⟩ := hok
    cases he with
    | upkeep _ _ _ _ _ turn => exact turn job token next rfl ho
    | registers _ _ _ _ _ _ _ _ _ _ turn => exact turn next ho
    | acquires _ _ _ _ _ _ request => simp at request
    | completes job' token' _ request _ owner =>
      simp only [Request.complete.injEq] at request
      obtain ⟨rfl, rfl⟩ := request
      exact hs.lease token owner e hmem hacq

theorem Effect.settles {o : Reply}
    (he : Effect now s s' r o) (hcomp : Completes ⟨now, r, o⟩ job)
    : Settled now job h s' := by
  obtain ⟨⟨token, hr⟩, next, ho⟩ := hcomp
  simp only at hr ho
  subst hr
  cases he with
  | upkeep _ _ _ _ _ turn => exact absurd ho (turn job token next rfl)
  | registers _ _ _ _ _ _ _ _ _ _ turn => exact absurd ho (turn next)
  | acquires _ _ _ _ _ _ request => simp at request
  | completes job' token' _ request _ owner lock queue completed =>
    simp only [Request.complete.injEq] at request
    obtain ⟨rfl, rfl⟩ := request
    refine ⟨⟨now + (COMPLETED_TTL_MS + 60000), now + COMPLETED_TTL_MS, by omega, Nat.le_refl _,
      ?_, ?_⟩, by simp [lock]⟩
    · rw [completed]
      exact expiresAt_expireAt _ _
    · rw [completed, field_expireAt, field_setField, if_pos rfl]

theorem Settled.step
    {o : Reply} (hs : Settled c job h s) (hc : s.Consistent)
    (hlt : now < c + COMPLETED_TTL_MS) (hcn : c ≤ now) (hok : Accepted h now r)
    (he : Effect now s s' r o) : Settled c job (h ++ [⟨now, r, o⟩]) s' := by
  obtain ⟨hno, hnot⟩ := hs.refuses hc hok he
  obtain ⟨x, y, hx, hy, hexp, hrec⟩ := hs.recorded
  have hhist : ∀ token, (∀ e ∈ h, ¬ Acquires e job token) →
      ∀ e ∈ h ++ [⟨now, r, o⟩], ¬ Acquires e job token := by
    intro token hold e hmem
    rcases List.mem_append.mp hmem with hmem | hmem
    · exact hold e hmem
    · rw [List.mem_singleton.mp hmem]
      exact hno token
  cases he with
  | upkeep jobs queue completed lock =>
    exact ⟨⟨x, y, hx, hy, completed.lifetime x hexp, completed.kept job y hrec (by omega)⟩,
      fun token htok => hhist token (hs.lease token (lock token htok))⟩
  | registers jobs job' ts dl queue new unfinished completed lock =>
    refine ⟨⟨x, y, hx, hy, completed.lifetime x hexp, completed.kept job y hrec (by omega)⟩,
      fun token htok => hhist token (hs.lease token ?_)⟩
    rwa [lock] at htok
  | acquires jobs job' token dl b m request reply queue due completed free lock =>
    refine ⟨⟨x, y, hx, hy, by rwa [completed], by rwa [completed]⟩, fun token' htok => ?_⟩
    rw [lock, Option.some.injEq] at htok
    subst htok
    subst request
    refine hhist token fun e hmem hacq => ?_
    obtain ⟨⟨dl', hr⟩, -⟩ := hacq
    exact hok e hmem job dl' hr
  | completes job' token next request reply owner lock queue completed =>
    have hne : job ≠ job' := by
      rintro rfl
      exact hnot ⟨⟨token, request⟩, next, reply⟩
    have hlater : c + COMPLETED_TTL_MS ≤ now + (COMPLETED_TTL_MS + 60000) :=
      Nat.add_le_add hcn (Nat.le_add_right _ _)
    refine ⟨⟨_, y, hlater, hy, ?_, ?_⟩, by simp [lock]⟩
    · rw [completed]
      exact expiresAt_expireAt _ _
    · rw [completed, field_expireAt, field_setField, if_neg hne]
      exact hrec

variable [DecidableEq τ]

theorem scope_consistent
    (hr : Run step Accepted Scope.empty h t s) : s.Consistent := by
  refine hr.invariant (fun _ _ s => s.Consistent) Scope.consistent_empty (fun _ _ _ _ hc _ => hc) ?_
  intro h t s r hc _
  exact (step_effect t r s).consistent (hc.purged t)

theorem settled_since {pre post : List (Record τ)} {e : Record τ}
    (hr : Run step Accepted Scope.empty (pre ++ [e] ++ post) t s)
    (hcomp : Completes e job) (ht : t < e.now + COMPLETED_TTL_MS) :
    Settled e.now job (pre ++ [e] ++ post) s := by
  have hq := hr.since
    (fun h t s => e.now ≤ t ∧ (t < e.now + COMPLETED_TTL_MS → Settled e.now job h s)) ?_ ?_ ?_
  · exact hq.2 ht
  · intro t s hr
    obtain ⟨t₁, s₁, hr₁, hle, hok, rfl, hrep, rfl⟩ := hr.snoc_inv
    refine ⟨Nat.le_refl _, fun _ => ?_⟩
    have he := step_effect e.now e.request s₁
    rw [← hrep] at he
    exact he.settles hcomp
  · rintro h t t' s ⟨hle, hs⟩ hle'
    exact ⟨by omega, fun hlt => hs (by omega)⟩
  · rintro h t₀ t s r hr hle ⟨hle', hs⟩ hok
    exact ⟨hle', fun hlt => ((hs hlt).purged hlt).step ((scope_consistent hr).purged t) hlt hle' hok
      (step_effect t r s)⟩

/-- In every run a turn is acquired only by the foremost job and only without a lease, a completed
job is neither acquired nor completed again within the completion lifetime, and the scope is
consistent whenever it is read. -/
theorem ordered_mutual_exclusion {h : List (Record τ)} {t : Nat} {s : Scope τ}
    (hr : Run step Accepted Scope.empty h t s) :
    (∀ pre e post job token, h = pre ++ [e] ++ post → Acquires e job token →
      ∃ t₁ s₁, Run step Accepted Scope.empty pre t₁ s₁ ∧ t₁ ≤ e.now ∧
        (s₁.purge e.now).lock = none ∧
        Foremost (step e.now e.request s₁).1.queue job ∧
        OnlyDueRemoved e.now (s₁.purge e.now).queue (step e.now e.request s₁).1.queue) ∧
    (∀ pre e mid e' post job, h = pre ++ [e] ++ mid ++ [e'] ++ post → Completes e job →
      e'.now < e.now + COMPLETED_TTL_MS →
      (∀ token, ¬ Acquires e' job token) ∧ ¬ Completes e' job) ∧
    (∀ now, t ≤ now → (s.purge now).Consistent) := by
  refine ⟨?_, ?_, fun now _ => (scope_consistent hr).purged now⟩
  · rintro pre e post job token rfl ha
    obtain ⟨t', s', hr', -⟩ := hr.of_append
    obtain ⟨t₁, s₁, hr₁, hle, -, -, hrep, -⟩ := hr'.snoc_inv
    have he := step_effect e.now e.request s₁
    rw [← hrep] at he
    exact ⟨t₁, s₁, hr₁, hle, he.foremost ((scope_consistent hr₁).purged e.now) ha⟩
  · rintro pre e mid e' post job rfl hcomp hlt
    obtain ⟨t', s', hr', -⟩ := hr.of_append
    obtain ⟨t₁, s₁, hr₁, hle, hok, -, hrep, -⟩ := hr'.snoc_inv
    have he := step_effect e'.now e'.request s₁
    rw [← hrep] at he
    exact ((settled_since hr₁ hcomp (by omega)).purged hlt).refuses
      ((scope_consistent hr₁).purged e'.now) hok he

/-- The later registration has the earlier source, acquires the turn and is completed. -/
theorem ordered_mutual_exclusion_two_jobs :
    ∃ (h : List (Record Nat)) (t : Nat) (s : Scope Nat), Run step Accepted Scope.empty h t s ∧
      h.map (·.reply) = [.registered (toLex (1, "a")) true 100 600100,
        .registered (toLex (2, "b")) true 200 600200, .notHead 30300, .acquired true,
        .scheduled 31250, .turn (some ("a", 2000))] ∧
      (s.purge 3000).Consistent := by
  have hr : Run (step (τ := Nat)) Accepted Scope.empty _ _ _ :=
    .snoc 2000 (.complete "b" 1)
      (.snoc 1300 (.claim "b" 2 9000)
        (.snoc 1250 (.claim "b" 1 9000)
          (.snoc 300 (.claim "a" 0 9000)
            (.snoc 200 (.announce ⟨"b", 10, 700000, true, .initial⟩)
              (.snoc 100 (.announce ⟨"a", 20, 700000, true, .initial⟩) .nil (by decide)
                (by trivial))
              (by decide) (by trivial))
            (by decide) (by simp [Accepted]))
          (by decide) (by simp [Accepted]))
        (by decide) (by simp [Accepted]))
      (by decide) (by
        refine ⟨_, List.mem_append_left _ (List.mem_append_right _ List.mem_cons_self), ?_⟩
        exact ⟨⟨_, rfl⟩, true, by decide⟩)
  exact ⟨_, _, _, hr, by decide, (ordered_mutual_exclusion hr).2.2 3000 (by decide)⟩

end Maxim.Moderation.PhotoOrdering
