import Maxim.Moderation.CommercialLlmPool.Runs

/-!
# One result for each job

The contract of the pool: a job is granted once for each of its two attempts,
and one `wait` gets its body. What is left of a reservation, an answer on its
way or a release that comes late, does not touch another one.
-/

namespace Maxim.Moderation.CommercialLlmPool

open Maxim.Library

variable {ω : Type} [DecidableEq ω] {P : Protocol} {deadline : String → Nat} {h : List (Event ω)}
  {t now : Nat} {move : Move ω} {reply : Reply} {p p' : Pool ω}

/-! ## Completion -/

/-- The `wait` returned the body. -/
def Returns (r : Reservation) (body : String) (e : Event ω) : Prop :=
  ∃ did, e.reply = .returned r (some (.complete body)) did

/-- The clients that are about to return a body, and those that have, are one for each job. -/
structure Finished (h : List (Event ω)) (p : Pool ω) : Prop where
  accepted : ∀ w r body, p.client w = some (.finish r (some (.complete body))) → ∃ e ∈ h, Accepts r e
  returned : ∀ e ∈ h, ∀ r body, Returns r body e → ∃ e' ∈ h, Accepts r e'
  apart : ∀ w w' r r' body body', p.client w = some (.finish r (some (.complete body))) →
    p.client w' = some (.finish r' (some (.complete body'))) → r.jobId = r'.jobId → w = w'
  once : ∀ e ∈ h, ∀ r body, Returns r body e → ∀ w r' body',
    p.client w = some (.finish r' (some (.complete body'))) → r'.jobId ≠ r.jobId

omit [DecidableEq ω] in
theorem Finished.snoc {e : Event ω} (hf : Finished h p)
    (hclients : ∀ w r body, p'.client w = some (.finish r (some (.complete body))) →
      p.client w = some (.finish r (some (.complete body))))
    (hreturns : ∀ r body, Returns r body e → ∃ w,
      p.client w = some (.finish r (some (.complete body))) ∧ p'.client w = none) :
    Finished (h ++ [e]) p' := by
  constructor
  · intro w r body hw
    obtain ⟨x, hx, hr⟩ := hf.accepted w r body (hclients w r body hw)
    exact ⟨x, List.mem_append_left _ hx, hr⟩
  · intro x hx r body hr
    rcases List.mem_append.mp hx with hx | hx
    · obtain ⟨y, hy, hr⟩ := hf.returned x hx r body hr
      exact ⟨y, List.mem_append_left _ hy, hr⟩
    · rw [List.mem_singleton.mp hx] at hr
      obtain ⟨w, hw, -⟩ := hreturns r body hr
      obtain ⟨y, hy, hr⟩ := hf.accepted w r body hw
      exact ⟨y, List.mem_append_left _ hy, hr⟩
  · intro w w' r r' body body' hw hw'
    exact hf.apart w w' r r' body body' (hclients w r body hw) (hclients w' r' body' hw')
  · intro x hx r body hr w r' body' hw hjob
    rcases List.mem_append.mp hx with hx | hx
    · exact hf.once x hx r body hr w r' body' (hclients w r' body' hw) hjob
    · rw [List.mem_singleton.mp hx] at hr
      obtain ⟨w₀, hw₀, hnone⟩ := hreturns r body hr
      have heq := hf.apart w w₀ r' r body' body (hclients w r' body' hw) hw₀ hjob
      rw [heq, hnone] at hw
      cases hw

/-- The client that gets the acceptance of a job is the only one for it. -/
theorem finished_accepted {e : Event ω} {w : ω} {r : Reservation} {phase : Phase} (hf : Finished h p)
    (hopen : ∀ e ∈ h, ∀ r', Accepts r' e → r'.jobId ≠ r.jobId)
    (hclient : p'.client = Function.update p.client w (some phase))
    (hphase : ∀ r' body, phase = .finish r' (some (.complete body)) → r' = r)
    (he : e.reply = .accepted r true) : Finished (h ++ [e]) p' := by
  have hmem : e ∈ h ++ [e] := List.mem_append_right _ (List.mem_singleton.mpr rfl)
  have hcases : ∀ w' r' body, p'.client w' = some (.finish r' (some (.complete body))) →
      w' = w ∧ r' = r ∨ p.client w' = some (.finish r' (some (.complete body))) := by
    intro w' r' body hw'
    rw [hclient] at hw'
    by_cases hw : w' = w
    · rw [hw, Function.update_self] at hw'
      exact .inl ⟨hw, hphase r' body (Option.some.inj hw')⟩
    · rw [Function.update_of_ne hw] at hw'
      exact .inr hw'
  have hold : ∀ w' r' body, p.client w' = some (.finish r' (some (.complete body))) →
      r'.jobId ≠ r.jobId := by
    intro w' r' body hw' hjob
    obtain ⟨x, hx, hr'⟩ := hf.accepted w' r' body hw'
    exact hopen x hx r' hr' hjob
  have hnot : ∀ r' body, ¬Returns r' body e := by
    rintro r' body ⟨did, hr'⟩
    rw [he] at hr'
    cases hr'
  constructor
  · intro w' r' body hw'
    rcases hcases w' r' body hw' with ⟨-, rfl⟩ | hw'
    · exact ⟨e, hmem, he⟩
    · obtain ⟨x, hx, hr'⟩ := hf.accepted w' r' body hw'
      exact ⟨x, List.mem_append_left _ hx, hr'⟩
  · intro x hx r' body hr'
    rcases List.mem_append.mp hx with hx | hx
    · obtain ⟨y, hy, hr'⟩ := hf.returned x hx r' body hr'
      exact ⟨y, List.mem_append_left _ hy, hr'⟩
    · rw [List.mem_singleton.mp hx] at hr'
      exact absurd hr' (hnot r' body)
  · intro w₁ w₂ r₁ r₂ b₁ b₂ h₁ h₂ hjob
    rcases hcases w₁ r₁ b₁ h₁ with ⟨hw₁, rfl⟩ | h₁
    · rcases hcases w₂ r₂ b₂ h₂ with ⟨hw₂, -⟩ | h₂
      · rw [hw₁, hw₂]
      · exact absurd hjob.symm (hold w₂ r₂ b₂ h₂)
    · rcases hcases w₂ r₂ b₂ h₂ with ⟨-, rfl⟩ | h₂
      · exact absurd hjob (hold w₁ r₁ b₁ h₁)
      · exact hf.apart w₁ w₂ r₁ r₂ b₁ b₂ h₁ h₂ hjob
  · intro x hx r' body hr' w' r'' body'' hw' hjob
    rcases List.mem_append.mp hx with hx | hx
    · rcases hcases w' r'' body'' hw' with ⟨-, rfl⟩ | hw'
      · obtain ⟨y, hy, hacc⟩ := hf.returned x hx r' body hr'
        exact hopen y hy r' hacc hjob.symm
      · exact hf.once x hx r' body hr' w' r'' body'' hw' hjob
    · rw [List.mem_singleton.mp hx] at hr'
      exact absurd hr' (hnot r' body)

omit [DecidableEq ω] in
theorem open_of_pending {r : Reservation} {job : Job} {state : JobState} {s s' : Store}
    (hb : Booked deadline h now s) (hw : Rewritten now r.jobId job state s s') :
    ∀ e ∈ h, ∀ r', Accepts r' e → r'.jobId ≠ r.jobId := by
  intro e he r' hr' hjob
  obtain ⟨c, hc, hvalue⟩ := Option.map_eq_some_iff.mp hw.stored
  have hcomplete := (hb.kept r.jobId c hc).complete e he r' hr' hjob
  rw [hvalue, hw.pending] at hcomplete
  cases hcomplete

theorem finished_effect (hf : Finished h p) (hb : Booked deadline h now (p.store.purge now))
    (hx : Effect now move p p' reply) : Finished (h ++ [⟨now, move, reply⟩]) p' := by
  have hupdate : ∀ {w : ω}, p'.client = Function.update p.client w none → ∀ w' r body,
      p'.client w' = some (.finish r (some (.complete body))) →
        p.client w' = some (.finish r (some (.complete body))) := by
    intro w hclient w' r body hw'
    rw [hclient] at hw'
    by_cases hw : w' = w
    · rw [hw, Function.update_self] at hw'
      cases hw'
    · rwa [Function.update_of_ne hw] at hw'
  cases hx with
  | quiet _ shows _ clients =>
    refine hf.snoc (fun w r body hw => ?_) ?_
    · rcases clients w _ hw with hold | harises
      · exact hold
      · cases harises with
        | finish _ _ hopen => exact absurd rfl (hopen body)
    · rintro r body ⟨did, rfl⟩
      exact absurd shows id
  | granted w _ _ _ _ client =>
    refine hf.snoc (hupdate client) ?_
    rintro r body ⟨did, hr⟩
    cases hr
  | sent w _ _ _ _ _ _ client =>
    refine hf.snoc (hupdate client) ?_
    rintro r body ⟨did, hr⟩
    cases hr
  | released _ _ client =>
    refine hf.snoc (fun w r body hw => by rw [← client]; exact hw) ?_
    rintro r body ⟨did, hr⟩
    cases hr
  | accepted w r response job lost _ client _ store =>
    refine finished_accepted hf (open_of_pending hb store) client (fun r' body heq => ?_) rfl
    rw [Phase.finish.injEq] at heq
    exact heq.1.symm
  | returned w r outcome did phase client =>
    refine hf.snoc (hupdate client) ?_
    rintro r' body ⟨did', hr'⟩
    rw [Reply.returned.injEq] at hr'
    obtain ⟨rfl, rfl, -⟩ := hr'
    exact ⟨w, phase, by rw [client, Function.update_self]⟩

/-! ## Bodies -/

def stateAfter (P : Protocol) (h : List (Event ω)) : Pool ω := replay (step P) Pool.start h

/-- A worker sent the body for the identifier, while its session held the lease of the node. -/
def SentBy (P : Protocol) (nodeId : CommercialLlmPoolNodeId) (session id body : String)
    (h : List (Event ω)) : Prop :=
  Sometime (fun h e => e.reply = .responded nodeId session id body true ∧
    content (((stateAfter P h).store.purge e.now).node nodeId).lease = some session) [] h

theorem SentBy.snoc {nodeId : CommercialLlmPoolNodeId} {session id body : String}
    (hs : SentBy P nodeId session id body h) (e : Event ω) : SentBy P nodeId session id body (h ++ [e]) :=
  sometime_snoc.mpr (.inl hs)

/-- Stored responses and bodies about to be returned have been sent; a response belongs to the
slot of its node. -/
structure Supplied (P : Protocol) (h : List (Event ω)) (p : Pool ω) : Prop where
  stored : ∀ n response, content (p.store.node n).response = some response →
    SentBy P n response.session response.id response.body h
  paired : ∀ n response slot, content (p.store.node n).response = some response →
    content (p.store.node n).slot = some slot → response.id = slot.id
  finishing : ∀ w r body, p.client w = some (.finish r (some (.complete body))) →
    SentBy P r.nodeId r.session r.id body h

/-- Responses and slots of a state that shrank were there before. -/
theorem Shrinks.read {s s' : Store} (h : Shrinks s s') (n : CommercialLlmPoolNodeId) :
    (∀ response, content (s'.node n).response = some response →
      content (s.node n).response = some response) ∧
    ∀ slot, content (s'.node n).slot = some slot → content (s.node n).slot = some slot := by
  constructor
  · intro response hr
    rcases h.response n with heq | hnone
    · rwa [heq] at hr
    · rw [hnone] at hr
      cases hr
  · intro slot hs
    rcases h.slot n with heq | hnone
    · rwa [heq] at hs
    · rw [hnone] at hs
      cases hs

theorem Supplied.purge (hs : Supplied P h p) (now : Nat) :
    Supplied P h { p with store := p.store.purge now } where
  stored n response hr := hs.stored n response (content_purge_eq_some hr)
  paired n response slot hr hslot :=
    hs.paired n response slot (content_purge_eq_some hr) (content_purge_eq_some hslot)
  finishing := hs.finishing

theorem Supplied.snoc_shrinks {e : Event ω} {store : Store} {client : ω → Option Phase}
    (hs : Supplied P h ⟨store, client⟩) (hstore : Shrinks store p'.store)
    (hclient : ∀ w r body, p'.client w = some (.finish r (some (.complete body))) →
      client w = some (.finish r (some (.complete body))) ∨ SentBy P r.nodeId r.session r.id body h) :
    Supplied P (h ++ [e]) p' where
  stored n response hr := (hs.stored n response ((hstore.read n).1 response hr)).snoc e
  paired n response slot hr hslot :=
    hs.paired n response slot ((hstore.read n).1 response hr) ((hstore.read n).2 slot hslot)
  finishing w r body hw := by
    rcases hclient w r body hw with hold | hsent
    · exact (hs.finishing w r body hold).snoc e
    · exact hsent.snoc e

theorem supplied_effect (hs : Supplied P h p) (hp : PhasesOk deadline p) (hstate : stateAfter P h = p)
    (hx : Effect now move p p' reply) : Supplied P (h ++ [⟨now, move, reply⟩]) p' := by
  have hpurge := hs.purge now
  have hupdate : ∀ {w : ω}, p'.client = Function.update p.client w none → ∀ w' r body,
      p'.client w' = some (.finish r (some (.complete body))) →
        p.client w' = some (.finish r (some (.complete body))) := by
    intro w hclient w' r body hw'
    rw [hclient] at hw'
    by_cases hw : w' = w
    · rw [hw, Function.update_self] at hw'
      cases hw'
    · rwa [Function.update_of_ne hw] at hw'
  cases hx with
  | quiet _ _ store clients =>
    refine hpurge.snoc_shrinks store.toShrinks fun w r body hw => ?_
    rcases clients w _ hw with hold | harises
    · exact .inl hold
    · cases harises with
      | finish _ _ hopen => exact absurd rfl (hopen body)
  | granted w next _ _ _ client store =>
    have hnode : ∀ n, n ≠ next.nodeId → (p'.store.node n) = (p.store.purge now).node n := store.node
    constructor
    · intro n response hr
      by_cases hn : n = next.nodeId
      · rw [hn, store.response] at hr
        cases hr
      · rw [hnode n hn] at hr
        exact (hpurge.stored n response hr).snoc _
    · intro n response slot hr hslot
      by_cases hn : n = next.nodeId
      · rw [hn, store.response] at hr
        cases hr
      · rw [hnode n hn] at hr hslot
        exact hpurge.paired n response slot hr hslot
    · intro w' r body hw'
      exact (hs.finishing w' r body (hupdate client w' r body hw')).snoc _
  | sent w nodeId session id body slot phase client store =>
    obtain ⟨x, hresponse⟩ := store.response
    have hsame := hp w _ phase
    constructor
    · intro n response hr
      by_cases hn : n = nodeId
      · subst hn
        rw [hresponse, content_cell, Option.some.injEq] at hr
        subst hr
        refine sometime_snoc.mpr (.inr ⟨rfl, ?_⟩)
        rw [List.nil_append, hstate]
        exact store.lease
      · rw [store.node n hn] at hr
        exact (hpurge.stored n response hr).snoc _
    · intro n response slot' hr hslot
      by_cases hn : n = nodeId
      · subst hn
        rw [hresponse, content_cell, Option.some.injEq] at hr
        rw [store.kept, store.slot, Option.some.injEq] at hslot
        subst hr hslot
        rw [PhaseOk, Reservation.same, Bool.and_eq_true, beq_iff_eq] at hsame
        exact hsame.1.symm
      · rw [store.node n hn] at hr hslot
        exact hpurge.paired n response slot' hr hslot
    · intro w' r body hw'
      exact (hs.finishing w' r body (hupdate client w' r body hw')).snoc _
  | released _ _ client _ store =>
    exact hpurge.snoc_shrinks store.toShrinks fun w r body hw => .inl (by rw [← client]; exact hw)
  | accepted w r response job lost phase client read store =>
    refine hpurge.snoc_shrinks store.toShrinks fun w' r' body hw' => ?_
    rw [client] at hw'
    by_cases hw : w' = w
    · refine .inr ?_
      rw [hw, Function.update_self, Option.some.injEq, Phase.finish.injEq] at hw'
      obtain ⟨rfl, hbody⟩ := hw'
      have hsame := hp w _ phase
      rw [PhaseOk, Response.same, Bool.and_eq_true, beq_iff_eq, beq_iff_eq] at hsame
      have hsent := hpurge.stored r.nodeId response read
      rw [hsame.1, hsame.2] at hsent
      cases lost with
      | true => cases hbody
      | false =>
        cases hbody
        exact hsent
    · rw [Function.update_of_ne hw] at hw'
      exact .inl hw'
  | returned w r outcome did _ client store =>
    have hshrinks : Shrinks (p.store.purge now) p'.store := by
      rcases store with ⟨-, hquiet⟩ | ⟨-, job, -, hw⟩
      · exact hquiet.toShrinks
      · exact hw.toShrinks
    exact hpurge.snoc_shrinks hshrinks fun w' r' body hw' => .inl (hupdate client w' r' body hw')

structure Sane (P : Protocol) (deadline : String → Nat) (h : List (Event ω)) (t : Nat) (p : Pool ω) : Prop
    where
  state : stateAfter P h = p
  phases : PhasesOk deadline p
  booked : Booked deadline h t p.store
  finished : Finished h p
  supplied : Supplied P h p

theorem sane_run (hr : PoolRun P deadline h t p) : Sane P deadline h t p := by
  refine hr.invariant (Sane P deadline) ?_ (fun h t t' p hs hle => ?_) fun h t p move hs ha => ?_
  · obtain ⟨hphases, hbooked⟩ := booked_run (.nil : PoolRun P deadline [] 0 (Pool.start : Pool ω))
    refine ⟨rfl, hphases, hbooked, ⟨?_, ?_, ?_, ?_⟩, ⟨?_, ?_, ?_⟩⟩
    · intro w r body hw
      cases hw
    · intro e he
      cases he
    · intro w w' r r' body body' hw
      cases hw
    · intro e he
      cases he
    · intro n response hr
      cases hr
    · intro n response slot hr
      cases hr
    · intro w r body hw
      cases hw
  · exact ⟨hs.state, hs.phases, ⟨fun j hnone hu => Nat.lt_of_lt_of_le (hs.booked.gone j hnone hu) hle,
      hs.booked.kept⟩, hs.finished, hs.supplied⟩
  · have hx := step_effect P t move p
    have hb := hs.booked.purge (le_refl t)
    refine ⟨?_, phases_effect hs.phases ha hx, booked_effect hb hs.phases hx,
      finished_effect hs.finished hb hx, supplied_effect hs.supplied hs.phases hs.state hx⟩
    rw [stateAfter, replay_snoc, ← hs.state, stateAfter]

end Maxim.Moderation.CommercialLlmPool
