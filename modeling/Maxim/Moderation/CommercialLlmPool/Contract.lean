import Maxim.Moderation.CommercialLlmPool.OneResult

/-!
# The contract of the pool

What the steps of one reservation leave alone, and what every run of the pool
promises about its jobs.
-/

namespace Maxim.Moderation.CommercialLlmPool

open Maxim.Library

variable {now : Nat} {s : Store} {r : Reservation} {id : String}

/-! ## Late steps -/

/-- Everything that names the identifier is as before. -/
structure Untouched (id : String) (s s' : Store) : Prop where
  job : ∀ j job, content (s.job j) = some job → job.id = id → s'.job j = s.job j
  slot : ∀ n slot, content (s.node n).slot = some slot → slot.id = id →
    (s'.node n).slot = (s.node n).slot
  response : ∀ n response, content (s.node n).response = some response → response.id = id →
    (s'.node n).response = (s.node n).response

def Paired (s : Store) : Prop := ∀ n response slot, content (s.node n).response = some response →
  content (s.node n).slot = some slot → response.id = slot.id

theorem Untouched.refl (s : Store) : Untouched id s s :=
  ⟨fun _ _ _ _ => rfl, fun _ _ _ _ => rfl, fun _ _ _ _ => rfl⟩

/-- A change of one node that keeps what names the identifier. -/
theorem Untouched.setNode {nodeId : CommercialLlmPoolNodeId} {n : Node}
    (hslot : ∀ slot, content (s.node nodeId).slot = some slot → slot.id = id →
      n.slot = (s.node nodeId).slot)
    (hresponse : ∀ response, content (s.node nodeId).response = some response → response.id = id →
      n.response = (s.node nodeId).response) : Untouched id s (s.setNode nodeId n) := by
  constructor
  · intro j job _ _
    rfl
  · intro m slot hs hid
    by_cases hm : m = nodeId
    · subst hm
      rw [setNode_node_same]
      exact hslot slot hs hid
    · rw [setNode_node_other s n hm]
  · intro m response hr hid
    by_cases hm : m = nodeId
    · subst hm
      rw [setNode_node_same]
      exact hresponse response hr hid
    · rw [setNode_node_other s n hm]

theorem untouched_respond (hpaired : Paired s) (nodeId : CommercialLlmPoolNodeId)
    {session ownId body : String} {slot : Reservation} (hsame : slot.same ownId session = true)
    (hid : id ≠ ownId) : Untouched id s (respond now nodeId session ownId body slot s).1 := by
  rw [Reservation.same, Bool.and_eq_true, beq_iff_eq, beq_iff_eq] at hsame
  rw [respond]
  split
  · exact .refl s
  rename_i hread
  rw [not_or, not_not, not_not] at hread
  have hown : ∀ slot', content (s.node nodeId).slot = some slot' → slot'.id ≠ id := by
    intro slot' hslot heq
    rw [hread.2, Option.some.injEq] at hslot
    exact hid (by rw [← heq, ← hslot, hsame.1])
  have hresponse : ∀ response, content (s.node nodeId).response = some response → response.id ≠ id := by
    intro response hr heq
    have hpair := hpaired nodeId response slot hr hread.2
    exact hid (by rw [← heq, hpair, hsame.1])
  split
  · exact .refl s
  split
  · exact .setNode (fun slot' hs heq => absurd heq (hown slot' hs))
      fun response hr heq => absurd heq (hresponse response hr)
  split
  · exact .refl s
  · exact .setNode (fun _ _ _ => rfl) fun response hr heq => absurd heq (hresponse response hr)

theorem filter_of_content {α : Type} {o : Slot α} {v : α} {f : α → Bool} (h : content o = some v)
    (hf : f v = true) : (o.filter fun c => f c.value) = o := by
  obtain ⟨c, rfl, rfl⟩ := Option.map_eq_some_iff.mp h
  simp [Option.filter, hf]

theorem untouched_cleanUp (hid : id ≠ r.id) : Untouched id s (cleanUp r s) := by
  rw [cleanUp]
  split
  · refine .setNode (fun slot hs heq => ?_) fun response hr heq => ?_
    · exact @filter_of_content _ _ _ (fun v => !v.same r.id r.session) hs
        (by simp [Reservation.same, heq, hid])
    · exact @filter_of_content _ _ _ (fun v => !v.same r.id r.session) hr
        (by simp [Response.same, heq, hid])
  · exact .refl s

theorem Untouched.after_setState {job : Job} {state : JobState} {s' : Store}
    (h : Untouched id (setState now r.jobId job state s) s') (hjob : s'.job = (setState now r.jobId job state s).job)
    (hstored : content (s.job r.jobId) = some job) (hne : job.id ≠ id) : Untouched id s s' where
  job j other hother heq := by
    have hj : j ≠ r.jobId := by
      rintro rfl
      rw [hstored, Option.some.injEq] at hother
      exact hne (hother ▸ heq)
    rw [hjob, setState]
    exact put_other _ hj _
  slot := h.slot
  response := h.response

theorem untouched_release (hid : id ≠ r.id) : Untouched id s (release now r s).1 := by
  rw [release]
  cases hjob : releasable now r s with
  | none => exact untouched_cleanUp hid
  | some job =>
    obtain ⟨hstored, hsame, -⟩ := releasable_eq_some hjob
    rw [Job.same, Bool.and_eq_true, beq_iff_eq] at hsame
    exact Untouched.after_setState (untouched_cleanUp hid) (cleanUp_job _ _) hstored
      fun heq => hid (heq ▸ hsame.1)

theorem untouched_releaseUndispatched (hid : id ≠ r.id) :
    Untouched id s (releaseUndispatched now r s).1 := by
  rw [releaseUndispatched]
  split
  · exact .refl s
  rename_i hread
  simp only [not_or, not_not] at hread
  cases hjob : releasable now r s with
  | none => exact .refl s
  | some job =>
    obtain ⟨hstored, hsame, -⟩ := releasable_eq_some hjob
    rw [Job.same, Bool.and_eq_true, beq_iff_eq] at hsame
    have hnode : Untouched id (setState now r.jobId job .released s)
        ((setState now r.jobId job .released s).setNode r.nodeId { s.node r.nodeId with slot := none }) := by
      refine .setNode (fun slot hs heq => ?_) fun _ _ _ => rfl
      have hslot : content (s.node r.nodeId).slot = some slot := hs
      rw [hread.2.1, Option.some.injEq] at hslot
      exact absurd heq (hslot ▸ fun heq => hid heq.symm)
    exact Untouched.after_setState hnode rfl hstored fun heq => hid (heq ▸ hsame.1)

/-- The step runs `respond`, `release` or `releaseUndispatched` for the identifier. -/
def Reply.serves (id : String) : Reply → Prop
  | .responded _ _ ownId _ _ => ownId = id
  | .released r _ | .returned r _ _ => r.id = id
  | _ => False

variable {ω : Type} [DecidableEq ω] {P : Protocol} {deadline : String → Nat} {h : List (Event ω)}
  {t : Nat} {p : Pool ω}

theorem untouched_step {ownId : String} (hp : PhasesOk deadline p) (hpaired : Paired (p.store.purge now))
    (move : Move ω) (hserves : (step P now move p).2.serves ownId) (hid : id ≠ ownId) :
    Untouched id (p.store.purge now) (step P now move p).1.store := by
  cases move with
  | call w c =>
    rw [step] at hserves ⊢
    cases hw : p.client w with
    | some phase => exact .refl _
    | none =>
      rw [hw] at hserves
      cases c with
      | release r => exact untouched_release (hserves ▸ hid)
      | releaseUndispatched r =>
        dsimp only at hserves ⊢
        rw [Call.start] at hserves ⊢
        split
        · exact .refl _
        · rename_i hnode
          rw [if_neg hnode] at hserves
          exact untouched_releaseUndispatched (hserves ▸ hid)
      | _ =>
        exfalso
        revert hserves
        dsimp only [Call.start]
        repeat' split
        all_goals exact fun h => h
  | resume w late lost =>
    rw [step] at hserves ⊢
    cases hw : p.client w with
    | none => exact .refl _
    | some phase =>
      rw [hw] at hserves
      cases phase with
      | respond nodeId session respondId body slot =>
        exact untouched_respond hpaired nodeId (hp w _ hw) (hserves ▸ hid)
      | finish r outcome =>
        dsimp only at hserves ⊢
        rw [Phase.next] at hserves ⊢
        split
        · exact .refl _
        · rename_i hlost
          rw [if_neg hlost] at hserves
          exact untouched_release (hserves ▸ hid)
      | reserve => exact absurd hserves fun h => h
      | wait => exact absurd hserves fun h => h
      | accept => exact absurd hserves fun h => h
  | _ => exact absurd hserves fun h => h

/-! ## The contract -/

/-- What a history of the pool promises. -/
structure OneResult (P : Protocol) (h : List (Event ω)) : Prop where
  /-- Two reservations granted to one job are its two attempts. -/
  once : ∀ pre e₁ mid e₂ post r₁ r₂, h = pre ++ e₁ :: (mid ++ e₂ :: post) → Grants r₁ e₁ →
    Grants r₂ e₂ → r₁.jobId = r₂.jobId → r₁.attempt = .one ∧ r₂.attempt = .two
  /-- The second attempt repeats a first one that was released, on another node. -/
  retry : ∀ pre e post r, h = pre ++ e :: post → Grants r e → r.attempt = .two →
    ∃ e₁ ∈ pre, ∃ r₁, Grants r₁ e₁ ∧ r₁.jobId = r.jobId ∧ r₁.attempt = .one ∧ r₁.nodeId ≠ r.nodeId ∧
      r₁.deadlineAtMs = r.deadlineAtMs ∧ r₁.payloadSha256 = r.payloadSha256 ∧
      ∃ e₂ ∈ pre, ∃ r₂, Releases r₂ e₂ ∧ r₂.jobId = r.jobId ∧ r₂.id = r₁.id ∧ r₂.session = r₁.session
  /-- One `wait` of a job returns a body. -/
  complete : ∀ pre e₁ mid e₂ post r₁ r₂ b₁ b₂, h = pre ++ e₁ :: (mid ++ e₂ :: post) →
    Returns r₁ b₁ e₁ → Returns r₂ b₂ e₂ → r₁.jobId ≠ r₂.jobId
  /-- It is what a worker with the session of the reservation sent for the reservation. -/
  body : ∀ pre e post r b, h = pre ++ e :: post → Returns r b e →
    SentBy P r.nodeId r.session r.id b pre
  /-- A reservation does not take the place of a slot whose session holds the lease. -/
  replaces : ∀ pre e post r slot session, h = pre ++ e :: post → Grants r e →
    content (((stateAfter P pre).store.purge e.now).node r.nodeId).slot = some slot →
    content (((stateAfter P pre).store.purge e.now).node r.nodeId).lease = some session →
      slot.session ≠ session
  /-- Late steps of a reservation leave everything of another one as it is. -/
  late : ∀ pre e post e₁ mid₁ e₂ mid₂ pre₁ r₁ r₂, h = pre ++ e :: post →
    pre = pre₁ ++ e₁ :: (mid₁ ++ e₂ :: mid₂) → Grants r₁ e₁ → Grants r₂ e₂ →
      e.reply.serves r₁.id → Untouched r₂.id ((stateAfter P pre).store.purge e.now)
        (stateAfter P (pre ++ [e])).store

theorem before {pre post : List (Event ω)} {e : Event ω} (hr : PoolRun P deadline h t p)
    (heq : h = pre ++ e :: post) : ∃ t₁ p₁, PoolRun P deadline pre t₁ p₁ ∧ t₁ ≤ e.now ∧
      e.reply = (step P e.now e.request p₁).2 ∧
      stateAfter P (pre ++ [e]) = (step P e.now e.request p₁).1 := by
  rw [heq, List.append_cons] at hr
  obtain ⟨t', p', hr', -⟩ := hr.of_append
  have hstate := (sane_run hr').state
  obtain ⟨t₁, p₁, hr₁, hle, -, -, hreply, rfl⟩ := hr'.snoc_inv
  exact ⟨t₁, p₁, hr₁, hle, hreply, hstate⟩

theorem granted_of_grants {pre post : List (Event ω)} {e : Event ω} (hr : PoolRun P deadline h t p)
    (heq : h = pre ++ e :: post) (hg : Grants r e) : ∃ t₁ p₁, PoolRun P deadline pre t₁ p₁ ∧ t₁ ≤ e.now ∧
      (∃ w hb c, p₁.client w = some (.reserve r hb c)) ∧
      Granted e.now r (p₁.store.purge e.now) (stateAfter P (pre ++ [e])).store := by
  obtain ⟨t₁, p₁, hr₁, hle, hreply, hstate⟩ := before hr heq
  refine ⟨t₁, p₁, hr₁, hle, ?_⟩
  have hx := step_effect P e.now e.request p₁
  rw [← hreply, ← hstate, hg] at hx
  cases hx with
  | quiet _ shows => cases shows
  | granted w _ hb c phase _ store => exact ⟨⟨w, hb, c, phase⟩, store⟩

theorem finishing_of_returns {pre post : List (Event ω)} {e : Event ω} {b : String}
    (hr : PoolRun P deadline h t p) (heq : h = pre ++ e :: post) (hb : Returns r b e) :
    ∃ t₁ p₁ w, PoolRun P deadline pre t₁ p₁ ∧ p₁.client w = some (.finish r (some (.complete b))) := by
  obtain ⟨t₁, p₁, hr₁, -, hreply, hstate⟩ := before hr heq
  obtain ⟨did, hb⟩ := hb
  have hx := step_effect P e.now e.request p₁
  rw [← hreply, ← hstate, hb] at hx
  cases hx with
  | quiet _ shows => cases shows
  | returned w _ _ _ phase => exact ⟨t₁, p₁, w, hr₁, phase⟩

theorem ids_differ {pre mid post : List (Event ω)} {e₁ e₂ : Event ω} {r₁ r₂ : Reservation}
    (hr : PoolRun P deadline h t p) (heq : h = pre ++ e₁ :: (mid ++ e₂ :: post)) (h₁ : Grants r₁ e₁)
    (h₂ : Grants r₂ e₂) : r₂.id ≠ r₁.id := by
  rw [← List.cons_append, ← List.append_assoc] at heq
  obtain ⟨t₁, p₁, hr₁, -, ⟨w, hb, c, phase⟩, -⟩ := granted_of_grants hr heq h₂
  exact (drawn_run hr₁).spent e₁ (by simp) r₁ h₁ w r₂ hb c phase

theorem one_result (hr : PoolRun P deadline h t p) : OneResult P h where
  once pre e₁ mid e₂ post r₁ r₂ heq h₁ h₂ hjob := by
    rw [← List.cons_append, ← List.append_assoc] at heq
    obtain ⟨t₁, p₁, hr₁, hle, ⟨w, hb, c, phase⟩, hgranted⟩ := granted_of_grants hr heq h₂
    have hsane := sane_run hr₁
    have hbooked := hsane.booked.purge hle
    have hmem : e₁ ∈ pre ++ e₁ :: mid := by simp
    obtain ⟨htwo, cell, hcell, hone⟩ := (hgranted.fresh hbooked (hsane.phases w _ phase)).1
      ⟨e₁, hmem, r₁, .inl h₁, hjob⟩
    refine ⟨?_, htwo⟩
    cases hattempt : r₁.attempt with
    | one => rfl
    | two =>
      have hlatest := (hbooked.kept _ cell hcell).latest e₁ hmem r₁ h₁ hjob hattempt
      rw [hone] at hlatest
      cases hlatest
  retry pre e post r heq hg htwo := by
    obtain ⟨t₁, p₁, hr₁, hle, ⟨w, hb, c, phase⟩, hgranted⟩ := granted_of_grants hr heq hg
    have hsane := sane_run hr₁
    have hbooked := hsane.booked.purge hle
    have hfence := hgranted.fence
    cases hcell : (p₁.store.purge e.now).job r.jobId with
    | none =>
      rw [hcell] at hfence
      rw [fenceAllows_none hfence] at htwo
      cases htwo
    | some cell =>
      rw [hcell] at hfence
      obtain ⟨-, hone, hreleased, hnode, hdeadline, hpayload⟩ := fenceAllows_some hfence
      have hrecorded := hbooked.kept _ cell hcell
      obtain ⟨e₁, he₁, r₁, hg₁, hjob, hd₁, hattempt, hid, hsession, hnodeId, hsha⟩ := hrecorded.granted
      obtain ⟨e₂, he₂, r₂, hr₂, hjob₂, hid₂, hsession₂⟩ := hrecorded.released hreleased
      refine ⟨e₁, he₁, r₁, hg₁, hjob, hattempt.symm.trans hone, hnodeId ▸ hnode, ?_, hsha.symm.trans hpayload,
        e₂, he₂, r₂, hr₂, hjob₂, hid₂.trans hid, hsession₂.trans hsession⟩
      exact hd₁.trans (hsane.phases w _ phase).symm
  complete pre e₁ mid e₂ post r₁ r₂ b₁ b₂ heq h₁ h₂ hjob := by
    rw [← List.cons_append, ← List.append_assoc] at heq
    obtain ⟨t₁, p₁, w, hr₁, hphase⟩ := finishing_of_returns hr heq h₂
    exact (sane_run hr₁).finished.once e₁ (by simp) r₁ b₁ h₁ w r₂ b₂ hphase hjob.symm
  body pre e post r b heq hb := by
    obtain ⟨t₁, p₁, w, hr₁, hphase⟩ := finishing_of_returns hr heq hb
    exact (sane_run hr₁).supplied.finishing w r b hphase
  replaces pre e post r slot session heq hg hslot hlease hsame := by
    obtain ⟨t₁, p₁, hr₁, -, -, hgranted⟩ := granted_of_grants hr heq hg
    rw [(sane_run hr₁).state] at hslot hlease
    rw [hgranted.lease, Option.some.injEq] at hlease
    exact hgranted.replaced slot hslot (hsame.trans hlease.symm)
  late pre e post e₁ mid₁ e₂ mid₂ pre₁ r₁ r₂ heq hpre h₁ h₂ hserves := by
    obtain ⟨t₁, p₁, hr₁, -, hreply, hstate⟩ := before hr heq
    have hsane := sane_run hr₁
    rw [hsane.state, hstate]
    rw [hreply] at hserves
    exact untouched_step hsane.phases (hsane.supplied.purge e.now).paired _ hserves
      (ids_differ hr₁ hpre h₁ h₂)

/-! ## One job of one worker -/

omit [DecidableEq ω] in
theorem asks_of_not_drawn {now : Nat} {move : Move ω} (hm : move.drawn = none) :
    Asks deadline h now move := by
  constructor
  · rintro w nodeId request consultation id rfl
    cases hm
  · intro id hid
    rw [hm] at hid
    cases hid

def openProtocol : Protocol := ⟨fun _ body => some body, fun m => m, fun _ => true, fun _ => true, fun _ => true,
  fun _ _ => true⟩

def sampleSession : String := "00000000-0000-0000-0000-00000000000a"
def sampleId : String := "00000000-0000-0000-0000-00000000000b"
def sampleJob : String := "00000000-0000-0000-0000-00000000000c"

def sampleReservation : Reservation :=
  ⟨.server9b, sampleSession, sampleId, sampleJob, .one, 1000, "request", "request"⟩

def extend (P : Protocol) (h : List (Event ω)) (now : Nat) (move : Move ω) : List (Event ω) :=
  h ++ [⟨now, move, (step P now move (stateAfter P h)).2⟩]

theorem extend_run {move : Move ω} (hr : ∃ p, PoolRun P deadline h t p) (hle : t ≤ now)
    (ha : Asks deadline h now move) : ∃ p, PoolRun P deadline (extend P h now move) now p := by
  obtain ⟨p, hr⟩ := hr
  rw [extend, (sane_run hr).state]
  exact ⟨_, hr.snoc now move hle ha⟩

theorem extend_undrawn {move : Move ω} (hr : ∃ p, PoolRun P deadline h t p) (hle : t ≤ now)
    (hm : move.drawn = none) : ∃ p, PoolRun P deadline (extend P h now move) now p :=
  extend_run hr hle (asks_of_not_drawn hm)

/-- A worker that is ready, and a reservation for it. -/
def sampleGranted : List (Event Bool) :=
  extend openProtocol (extend openProtocol (extend openProtocol (extend openProtocol []
    1 (.call true (.acquireWorker .server9b sampleSession)))
    2 (.call true (.refreshWorker .server9b sampleSession true)))
    3 (.call false (.reserve .server9b ⟨sampleJob, .one, 1000, "request"⟩ false sampleId)))
    4 (.resume false false false)

/-- Its answer, and the `wait` that returns it. -/
def sampleReturned : List (Event Bool) :=
  extend openProtocol (extend openProtocol (extend openProtocol (extend openProtocol
    (extend openProtocol (extend openProtocol sampleGranted
    5 (.call true (.respond .server9b sampleSession sampleId "answer"))) 6 (.resume true false false))
    7 (.call false (.wait sampleReservation))) 8 (.resume false false false))
    9 (.resume false false false)) 10 (.resume false false false)

theorem sampleGranted_run : ∃ p, PoolRun openProtocol (fun _ => 1000) sampleGranted 4 p := by
  refine extend_undrawn (extend_run (extend_undrawn (extend_undrawn ⟨_, .nil⟩ (Nat.zero_le 1) rfl)
    (Nat.le_succ 1) rfl) (Nat.le_succ 2) ⟨?_, ?_⟩) (Nat.le_succ 3) rfl
  · rintro w nodeId request consultation id hmove
    rw [Move.call.injEq, Call.reserve.injEq] at hmove
    rw [← hmove.2.2.1]
  · intro id _ e he
    have hnone : ∀ x ∈ (extend openProtocol (extend openProtocol []
        1 (.call true (.acquireWorker .server9b sampleSession)))
        2 (.call true (.refreshWorker .server9b sampleSession true)) : List (Event Bool)),
        x.request.drawn = none := by
      simp [extend, Move.drawn]
    rw [hnone e he]
    exact (Option.some_ne_none id).symm

theorem sampleReturned_run : ∃ p, PoolRun openProtocol (fun _ => 1000) sampleReturned 10 p := by
  have hr₆ := extend_undrawn (extend_undrawn sampleGranted_run (Nat.le_succ 4)
    (show Move.drawn (.call true (.respond .server9b sampleSession sampleId "answer")) = none from rfl))
    (Nat.le_succ 5) (show Move.drawn (.resume true false false) = none from rfl)
  exact extend_undrawn (extend_undrawn (extend_undrawn (extend_undrawn hr₆ (Nat.le_succ 6) rfl)
    (Nat.le_succ 7) rfl) (Nat.le_succ 8) rfl) (Nat.le_succ 9) rfl

theorem answer_returned : ∃ p, PoolRun openProtocol (fun _ => 1000) sampleReturned 10 p ∧
    OneResult openProtocol sampleReturned ∧ (sampleReturned.map Entry.reply).getLast? =
      some (.returned sampleReservation (some (.complete "answer")) false) := by
  obtain ⟨p, hr⟩ := sampleReturned_run
  exact ⟨p, hr, one_result hr, by decide +kernel⟩

end Maxim.Moderation.CommercialLlmPool
