import Maxim.Moderation.CommercialLlmPool.Effects

/-!
# What a step of the pool does

A step of a client is quiet, or it is the one step of its call that writes: a
reservation, a response, or a job record that is written back. A `wait` gets
its outcome from the acceptance of its job and from nothing else.
-/

namespace Maxim.Moderation.CommercialLlmPool

open Maxim.Library

variable {ω : Type}

/-- What the phases of a client say about what it has read. -/
def PhaseOk (deadline : String → Nat) : Phase → Prop
  | .reserve next _ _ => next.deadlineAtMs = deadline next.jobId
  | .respond _ session id _ slot => slot.same id session = true
  | .accept r response _ => response.same r.id r.session = true
  | .wait _ | .finish _ _ => True

/-- A phase in which a client may be after a quiet step. -/
inductive Arises (move : Move ω) (w : ω) : Phase → Prop
  | reserve (next : Reservation) (heartbeat : Heartbeat) (consultation : Bool) (request : PoolRequest)
      (hmove : move = .call w (.reserve next.nodeId request consultation next.id))
      (job : next.jobId = request.jobId) (deadline : next.deadlineAtMs = request.deadlineAtMs) :
      Arises move w (.reserve next heartbeat consultation)
  | respond (nodeId : CommercialLlmPoolNodeId) (session id body : String) (slot : Reservation)
      (same : slot.same id session = true) : Arises move w (.respond nodeId session id body slot)
  | wait (r : Reservation) : Arises move w (.wait r)
  | accept (r : Reservation) (response : Response) (job : Job)
      (same : response.same r.id r.session = true) : Arises move w (.accept r response job)
  | finish (r : Reservation) (outcome : Option CommercialLlmPoolOutcome)
      (open_ : ∀ body, outcome ≠ some (.complete body)) : Arises move w (.finish r outcome)

/-- The reply shows nothing that was written. -/
def Reply.quiet : Reply → Prop
  | .reserved _ granted => granted = false
  | .responded _ _ _ _ sent => sent = false
  | .released _ did | .accepted _ did => did = false
  | .returned _ _ _ => False
  | .worker _ | .slot _ | .refused | .silent => True

theorem arises_poll (P : Protocol) (move : Move ω) (w : ω) (late : Bool) (r : Reservation) (s : Store) :
    Arises move w (poll P late r s) := by
  have hopen : ∀ body, some (if late then CommercialLlmPoolOutcome.timeout else .failed) ≠
      some (.complete body) := by
    intro body
    cases late <;> simp
  rw [poll]
  split
  · exact .finish r _ (by simp)
  split
  · exact .finish r _ hopen
  split
  · exact .finish r _ hopen
  split
  · exact .wait r
  · rename_i response hresponse
    split
    · have hall := (Option.filter_eq_some_iff.mp hresponse).2
      rw [Bool.and_eq_true] at hall
      exact .accept r response _ hall.2
    · exact .finish r _ (by simp)

theorem arises_expire (move : Move ω) (w : ω) {phase : Phase} :
    phase.expire = phase ∨ Arises move w phase.expire := by
  cases phase with
  | wait r => exact .inr (.finish r _ (by simp))
  | _ => exact .inl rfl

theorem arises_stop (move : Move ω) (w : ω) {phase : Phase} :
    phase.stop = phase ∨ Arises move w phase.stop := by
  cases phase with
  | wait r => exact .inr (.finish r _ (by simp))
  | accept r response job => exact .inr (.finish r _ (by simp))
  | _ => exact .inl rfl

variable [DecidableEq ω]

inductive Effect (now : Nat) (move : Move ω) (p p' : Pool ω) : Reply → Prop
  | quiet (reply : Reply) (shows : reply.quiet) (store : Quiet (p.store.purge now) p'.store)
      (clients : ∀ w phase, p'.client w = some phase → p.client w = some phase ∨ Arises move w phase) :
      Effect now move p p' reply
  | granted (w : ω) (next : Reservation) (heartbeat : Heartbeat) (consultation : Bool)
      (phase : p.client w = some (.reserve next heartbeat consultation))
      (client : p'.client = Function.update p.client w none)
      (store : Granted now next (p.store.purge now) p'.store) :
      Effect now move p p' (.reserved next true)
  | sent (w : ω) (nodeId : CommercialLlmPoolNodeId) (session id body : String) (slot : Reservation)
      (phase : p.client w = some (.respond nodeId session id body slot))
      (client : p'.client = Function.update p.client w none)
      (store : Sent nodeId session id body slot (p.store.purge now) p'.store) :
      Effect now move p p' (.responded nodeId session id body true)
  | released (r : Reservation) (job : Job) (client : p'.client = p.client)
      (same : job.same r.id r.session = true)
      (store : Rewritten now r.jobId job .released (p.store.purge now) p'.store) :
      Effect now move p p' (.released r true)
  | accepted (w : ω) (r : Reservation) (response : Response) (job : Job) (lost : Bool)
      (phase : p.client w = some (.accept r response job))
      (client : p'.client = Function.update p.client w
        (some (.finish r (some (if lost then .failed else .complete response.body)))))
      (read : content ((p.store.purge now).node r.nodeId).response = some response)
      (store : Rewritten now r.jobId job .complete (p.store.purge now) p'.store) :
      Effect now move p p' (.accepted r true)
  | returned (w : ω) (r : Reservation) (outcome : Option CommercialLlmPoolOutcome) (did : Bool)
      (phase : p.client w = some (.finish r outcome))
      (client : p'.client = Function.update p.client w none)
      (store : did = false ∧ Quiet (p.store.purge now) p'.store ∨
        did = true ∧ ∃ job, job.same r.id r.session = true ∧
          Rewritten now r.jobId job .released (p.store.purge now) p'.store) :
      Effect now move p p' (.returned r outcome did)

/-- One client goes on, the others stay as they are. -/
theorem clients_update {move : Move ω} {w : ω} {client : ω → Option Phase} {phase : Option Phase}
    (h : ∀ ph, phase = some ph → Arises move w ph) (w' : ω) (ph : Phase)
    (hph : Function.update client w phase w' = some ph) :
    client w' = some ph ∨ Arises move w' ph := by
  by_cases hw : w' = w
  · subst hw
    rw [Function.update_self] at hph
    exact .inr (h ph hph)
  · rw [Function.update_of_ne hw] at hph
    exact .inl hph

theorem update_none_self {client : ω → Option Phase} {w : ω} (h : client w = none) :
    Function.update client w none = client := by
  rw [← h, Function.update_eq_self]

theorem effect_call (P : Protocol) (now : Nat) (w : ω) (c : Call) (p : Pool ω)
    (hidle : p.client w = none) :
    Effect now (.call w c) p
      ⟨(c.start P now (p.store.purge now)).1,
        Function.update p.client w (c.start P now (p.store.purge now)).2.1⟩
      (c.start P now (p.store.purge now)).2.2 := by
  have hnone : ∀ ph, (none : Option Phase) = some ph → Arises (.call w c) w ph := by
    intro ph h
    cases h
  cases c with
  | acquireWorker nodeId session =>
    rw [Call.start]
    split
    · exact .quiet _ trivial (.refl _) (clients_update hnone)
    · exact .quiet _ trivial (quiet_acquireWorker nodeId session) (clients_update hnone)
  | refreshWorker nodeId session ready =>
    rw [Call.start]
    split
    · exact .quiet _ trivial (.refl _) (clients_update hnone)
    · exact .quiet _ trivial (quiet_refreshWorker nodeId session ready) (clients_update hnone)
  | releaseWorker nodeId session =>
    exact .quiet _ trivial (quiet_releaseWorker nodeId session) (clients_update hnone)
  | reserve nodeId request consultation id =>
    rw [Call.start]
    split
    · exact .quiet _ trivial (.refl _) (clients_update hnone)
    split
    · split
      · refine .quiet _ trivial (.refl _) (clients_update fun ph hph => ?_)
        rw [Option.some.injEq] at hph
        subst hph
        exact .reserve _ _ _ request rfl rfl rfl
      · exact .quiet _ trivial (.refl _) (clients_update hnone)
    · exact .quiet _ trivial (.refl _) (clients_update hnone)
  | respond nodeId session id body =>
    rw [Call.start]
    split
    · exact .quiet _ trivial (.refl _) (clients_update hnone)
    split
    · rename_i slot hslot
      refine .quiet _ trivial (.refl _) (clients_update fun ph hph => ?_)
      rw [Option.some.injEq] at hph
      subst hph
      have hall := (Option.filter_eq_some_iff.mp hslot).2
      rw [Bool.and_eq_true] at hall
      exact .respond nodeId session id body slot hall.2
    · exact .quiet _ trivial (.refl _) (clients_update hnone)
  | release r =>
    rw [Call.start]
    rcases @release_spec now (p.store.purge now) r with ⟨hdid, hquiet⟩ | ⟨hdid, job, hsame, hw⟩
    · dsimp only
      rw [hdid]
      exact .quiet _ rfl hquiet (clients_update hnone)
    · dsimp only
      rw [hdid]
      exact .released r job (update_none_self hidle) hsame hw
  | releaseUndispatched r =>
    rw [Call.start]
    split
    · exact .quiet _ trivial (.refl _) (clients_update hnone)
    rcases @releaseUndispatched_spec now (p.store.purge now) r with ⟨hdid, hquiet⟩ | ⟨hdid, job, hsame, hw⟩
    · dsimp only
      rw [hdid]
      exact .quiet _ rfl hquiet (clients_update hnone)
    · dsimp only
      rw [hdid]
      exact .released r job (update_none_self hidle) hsame hw
  | wait r =>
    refine .quiet _ trivial (.refl _) (clients_update fun ph hph => ?_)
    obtain rfl := Option.some.inj hph
    exact .wait r

theorem effect_resume (P : Protocol) (now : Nat) (w : ω) (late lost : Bool) (phase : Phase) (p : Pool ω)
    (hphase : p.client w = some phase) :
    Effect now (.resume w late lost) p
      ⟨(phase.next P now late lost (p.store.purge now)).1,
        Function.update p.client w (phase.next P now late lost (p.store.purge now)).2.1⟩
      (phase.next P now late lost (p.store.purge now)).2.2 := by
  have hnone : ∀ ph, (none : Option Phase) = some ph → Arises (.resume w late lost) w ph := by
    intro ph h
    cases h
  cases phase with
  | reserve next heartbeat consultation =>
    rw [Phase.next]
    rcases @reserve_spec now (p.store.purge now) next heartbeat consultation with
      ⟨hdid, hquiet⟩ | ⟨hdid, hw⟩
    · dsimp only
      rw [hdid]
      exact .quiet _ rfl hquiet (clients_update hnone)
    · dsimp only
      rw [hdid]
      exact .granted w next heartbeat consultation hphase rfl hw
  | respond nodeId session id body slot =>
    rw [Phase.next]
    rcases @respond_spec now (p.store.purge now) nodeId session id body slot with
      ⟨hdid, hquiet⟩ | ⟨hdid, hw⟩
    · dsimp only
      rw [hdid]
      exact .quiet _ rfl hquiet (clients_update hnone)
    · dsimp only
      rw [hdid]
      exact .sent w nodeId session id body slot hphase rfl hw
  | wait r =>
    refine .quiet _ trivial (.refl _) (clients_update fun ph hph => ?_)
    obtain rfl := Option.some.inj hph
    cases lost with
    | true => exact .finish r _ (by simp)
    | false => exact arises_poll P _ w late r _
  | accept r response job =>
    rw [Phase.next]
    rcases @accept_spec now (p.store.purge now) r response job with ⟨hdid, hquiet⟩ | ⟨hdid, hread, hw⟩
    · dsimp only
      rw [hdid]
      refine .quiet _ rfl hquiet (clients_update fun ph hph => ?_)
      rw [Option.some.injEq] at hph
      subst hph
      exact .finish r _ (by simp)
    · dsimp only
      rw [hdid]
      refine .accepted w r response job lost hphase ?_ hread hw
      cases lost <;> rfl
  | finish r outcome =>
    rw [Phase.next]
    cases lost with
    | true => exact .returned w r outcome false hphase rfl (.inl ⟨rfl, .refl _⟩)
    | false =>
      exact .returned w r outcome _ hphase rfl (release_spec r)

/-- A step that only changes the phase of one client. -/
theorem effect_silent (now : Nat) (move : Move ω) (w : ω) (p : Pool ω) (f : Phase → Phase)
    (h : ∀ phase, f phase = phase ∨ Arises move w (f phase)) :
    Effect now move p ⟨p.store.purge now, Function.update p.client w ((p.client w).map f)⟩ .silent := by
  refine .quiet _ trivial (.refl _) fun w' ph hph => ?_
  dsimp only at hph
  by_cases hw : w' = w
  · subst hw
    rw [Function.update_self] at hph
    obtain ⟨phase, hphase, rfl⟩ := Option.map_eq_some_iff.mp hph
    exact (h phase).imp_left fun heq => by rw [heq, hphase]
  · rw [Function.update_of_ne hw] at hph
    exact .inl hph

theorem step_effect (P : Protocol) (now : Nat) (move : Move ω) (p : Pool ω) :
    Effect now move p (step P now move p).1 (step P now move p).2 := by
  cases move with
  | call w c =>
    rw [step]
    cases hw : p.client w with
    | some phase => exact .quiet _ trivial (.refl _) fun _ _ h => .inl h
    | none => exact effect_call P now w c p hw
  | resume w late lost =>
    rw [step]
    cases hw : p.client w with
    | none => exact .quiet _ trivial (.refl _) fun _ _ h => .inl h
    | some phase => exact effect_resume P now w late lost phase p hw
  | expire w => exact effect_silent now _ w p _ fun _ => arises_expire _ w
  | stop w => exact effect_silent now _ w p _ fun _ => arises_stop _ w
  | crash w =>
    refine .quiet _ trivial (.refl _) (clients_update fun ph h => ?_)
    cases h
  | others o => exact .quiet _ trivial (.of_others _ o) fun _ _ h => .inl h

end Maxim.Moderation.CommercialLlmPool
