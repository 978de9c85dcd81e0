import Maxim.Moderation.CommercialLlmPool.Steps

/-!
# The record of a job

A job record lives until the deadline of its job, and no reservation is granted
from the deadline on. While it lives it names the last reservation of the job,
and it tells whether that was released or completed.
-/

namespace Maxim.Moderation.CommercialLlmPool

open Maxim.Library

variable {ω : Type}

/-! ## What a history shows -/

def Grants (r : Reservation) (e : Event ω) : Prop := e.reply = .reserved r true

def Accepts (r : Reservation) (e : Event ω) : Prop := e.reply = .accepted r true

/-- The job of the reservation was pending under it and is released. -/
def Releases (r : Reservation) (e : Event ω) : Prop :=
  e.reply = .released r true ∨ ∃ outcome, e.reply = .returned r outcome true

def Used (jobId : String) (h : List (Event ω)) : Prop :=
  ∃ e ∈ h, ∃ r, (Grants r e ∨ Accepts r e) ∧ r.jobId = jobId

/-- What the history says about a record that lives. -/
structure Recorded (deadline : String → Nat) (h : List (Event ω)) (jobId : String) (c : Cell Job) :
    Prop where
  expires : c.expiresAt = some (deadline jobId)
  granted : ∃ e ∈ h, ∃ r, Grants r e ∧ r.jobId = jobId ∧ r.deadlineAtMs = deadline jobId ∧
    c.value.attempt = r.attempt ∧ c.value.id = r.id ∧ c.value.session = r.session ∧
    c.value.nodeId = r.nodeId ∧ c.value.payloadSha256 = r.payloadSha256
  released : c.value.state = .released → ∃ e ∈ h, ∃ r, Releases r e ∧ r.jobId = jobId ∧
    r.id = c.value.id ∧ r.session = c.value.session
  latest : ∀ e ∈ h, ∀ r, Grants r e → r.jobId = jobId → r.attempt = .two → c.value.attempt = .two
  complete : ∀ e ∈ h, ∀ r, Accepts r e → r.jobId = jobId → c.value.state = .complete

structure Booked (deadline : String → Nat) (h : List (Event ω)) (t : Nat) (s : Store) : Prop where
  gone : ∀ j, s.job j = none → Used j h → deadline j < t
  kept : ∀ j c, s.job j = some c → Recorded deadline h j c

def PhasesOk (deadline : String → Nat) (p : Pool ω) : Prop :=
  ∀ w phase, p.client w = some phase → PhaseOk deadline phase

variable {deadline : String → Nat} {h : List (Event ω)} {e : Event ω} {t now : Nat} {jobId : String}
  {c : Cell Job} {s : Store} {p p' : Pool ω}

theorem used_snoc (hu : Used jobId (h ++ [e])) :
    Used jobId h ∨ ∃ r, (Grants r e ∨ Accepts r e) ∧ r.jobId = jobId := by
  obtain ⟨x, hx, hr⟩ := hu
  rcases List.mem_append.mp hx with hx | hx
  · exact .inl ⟨x, hx, hr⟩
  · rw [List.mem_singleton.mp hx] at hr
    exact .inr hr

theorem Recorded.snoc (hc : Recorded deadline h jobId c)
    (hg : ∀ r, Grants r e → r.jobId = jobId → r.attempt = .two → c.value.attempt = .two)
    (ha : ∀ r, Accepts r e → r.jobId = jobId → c.value.state = .complete) :
    Recorded deadline (h ++ [e]) jobId c where
  expires := hc.expires
  granted := by
    obtain ⟨x, hx, hr⟩ := hc.granted
    exact ⟨x, List.mem_append_left _ hx, hr⟩
  released hstate := by
    obtain ⟨x, hx, hr⟩ := hc.released hstate
    exact ⟨x, List.mem_append_left _ hx, hr⟩
  latest x hx r hr := by
    rcases List.mem_append.mp hx with hx | hx
    · exact hc.latest x hx r hr
    · rw [List.mem_singleton.mp hx] at hr
      exact hg r hr
  complete x hx r hr := by
    rcases List.mem_append.mp hx with hx | hx
    · exact hc.complete x hx r hr
    · rw [List.mem_singleton.mp hx] at hr
      exact ha r hr

/-- An event that neither grants nor completes a job. -/
theorem Booked.snoc_quiet (hb : Booked deadline h t s) (hg : ∀ r, ¬Grants r e) (ha : ∀ r, ¬Accepts r e) :
    Booked deadline (h ++ [e]) t s where
  gone j hnone hu := by
    rcases used_snoc hu with hu | ⟨r, hr | hr, -⟩
    · exact hb.gone j hnone hu
    · exact absurd hr (hg r)
    · exact absurd hr (ha r)
  kept j c hc := (hb.kept j c hc).snoc (fun r hr => absurd hr (hg r)) fun r hr => absurd hr (ha r)

theorem Booked.congr {s' : Store} (hb : Booked deadline h t s) (hjob : s'.job = s.job) :
    Booked deadline h t s' := by
  constructor
  · rw [hjob]
    exact hb.gone
  · rw [hjob]
    exact hb.kept

theorem Booked.purge (hb : Booked deadline h t s) (hle : t ≤ now) :
    Booked deadline h now (s.purge now) where
  gone j hnone hu := by
    cases hc : s.job j with
    | none =>
      have hlt := hb.gone j hc hu
      omega
    | some c =>
      have hdead := purge_eq_none.mp hnone c hc
      rw [Cell.live, (hb.kept j c hc).expires] at hdead
      simpa using hdead
  kept j c hc := hb.kept j c (purge_eq_some.mp hc).1

/-- A used job whose record is gone gets no reservation. -/
theorem Booked.stored_of_used {r : Reservation} (hb : Booked deadline h now s)
    (hdeadline : r.deadlineAtMs = deadline r.jobId) (hearly : now < r.deadlineAtMs)
    (hu : Used r.jobId h) : ∃ c, s.job r.jobId = some c := by
  cases hc : s.job r.jobId with
  | some c => exact ⟨c, rfl⟩
  | none =>
    have hlt := hb.gone r.jobId hc hu
    omega

/-- What the fence says about the record it finds. -/
theorem fenceAllows_some {next : Reservation} {job : Job} (hf : fenceAllows next (some job) = true) :
    next.attempt = .two ∧ job.attempt = .one ∧ job.state = .released ∧ job.nodeId ≠ next.nodeId ∧
      job.deadlineAtMs = next.deadlineAtMs ∧ job.payloadSha256 = next.payloadSha256 := by
  simp only [fenceAllows, Bool.and_eq_true, beq_iff_eq, bne_iff_ne] at hf
  exact ⟨hf.1.1.1.1.1, hf.1.1.1.1.2, hf.1.1.1.2, hf.1.1.2, hf.1.2, hf.2⟩

theorem fenceAllows_none {next : Reservation} (hf : fenceAllows next none = true) :
    next.attempt = .one := by
  simpa [fenceAllows] using hf

/-- A granted reservation finds no completion, and no second attempt unless it is one. -/
theorem Granted.fresh {s' : Store} {next : Reservation} (hg : Granted now next s s')
    (hb : Booked deadline h now s) (hdeadline : next.deadlineAtMs = deadline next.jobId) :
    (Used next.jobId h → next.attempt = .two ∧ ∃ c, s.job next.jobId = some c ∧
      c.value.attempt = .one) ∧ ∀ e ∈ h, ∀ r, Accepts r e → r.jobId ≠ next.jobId := by
  have hfound : Used next.jobId h → ∃ c, s.job next.jobId = some c ∧
      fenceAllows next (some c.value) = true := by
    intro hu
    obtain ⟨c, hc⟩ := hb.stored_of_used hdeadline hg.early hu
    refine ⟨c, hc, ?_⟩
    have hf := hg.fence
    rwa [hc] at hf
  constructor
  · intro hu
    obtain ⟨c, hc, hf⟩ := hfound hu
    obtain ⟨htwo, hone, -⟩ := fenceAllows_some hf
    exact ⟨htwo, c, hc, hone⟩
  · intro e he r hr hjob
    obtain ⟨c, hc, hf⟩ := hfound ⟨e, he, r, .inr hr, hjob⟩
    obtain ⟨-, -, hreleased, -⟩ := fenceAllows_some hf
    rw [(hb.kept _ c hc).complete e he r hr hjob] at hreleased
    cases hreleased

theorem booked_granted {s' : Store} {next : Reservation} (hb : Booked deadline h now s)
    (hg : Granted now next s s') (hdeadline : next.deadlineAtMs = deadline next.jobId)
    (he : e.reply = .reserved next true) : Booked deadline (h ++ [e]) now s' := by
  obtain ⟨hlatest, hopen⟩ := hg.fresh hb hdeadline
  have hnone : ∀ r, ¬Accepts r e := by
    intro r hr
    rw [Accepts, he] at hr
    cases hr
  have hself : ∀ r, Grants r e → r = next := by
    intro r hr
    rw [Grants, he, Reply.reserved.injEq] at hr
    exact hr.1.symm
  constructor
  · intro j hj hu
    rw [hg.job, put_apply] at hj
    split at hj
    · cases hj
    · rename_i hne
      rcases used_snoc hu with hu | ⟨r, hr | hr, hjob⟩
      · exact hb.gone j hj hu
      · rw [hself r hr] at hjob
        exact absurd hjob.symm hne
      · exact absurd hr (hnone r)
  · intro j c hc
    rw [hg.job, put_apply] at hc
    split at hc
    · rename_i heq
      subst heq
      obtain rfl := Option.some.inj hc
      have hmem : e ∈ h ++ [e] := List.mem_append_right _ (List.mem_singleton.mpr rfl)
      refine ⟨congrArg some hdeadline, ⟨e, hmem, next, he, rfl, hdeadline, rfl, rfl, rfl, rfl, rfl⟩,
        fun hstate => (by cases hstate), fun x hx r hr hjob htwo => ?_, fun x hx r hr hjob => ?_⟩
      · rcases List.mem_append.mp hx with hx | hx
        · exact (hlatest ⟨x, hx, r, .inl hr, hjob⟩).1
        · rw [List.mem_singleton.mp hx] at hr
          rw [hself r hr] at htwo
          exact htwo
      · rcases List.mem_append.mp hx with hx | hx
        · exact absurd hjob (hopen x hx r hr)
        · rw [List.mem_singleton.mp hx] at hr
          exact absurd hr (hnone r)
    · rename_i hne
      refine (hb.kept j c hc).snoc (fun r hr hjob => ?_) fun r hr => absurd hr (hnone r)
      rw [hself r hr] at hjob
      exact absurd hjob.symm hne

/-- A record written back still expires at the deadline. -/
theorem rewritten_expires {s' : Store} {job : Job} {state : JobState} (hb : Booked deadline h now s)
    (hw : Rewritten now jobId job state s s') : now + pttl now (s.job jobId) = deadline jobId := by
  obtain ⟨c, hc, -⟩ := Option.map_eq_some_iff.mp hw.stored
  have hlives := hw.lives
  have hexpires := (hb.kept jobId c hc).expires
  rw [pttl, hc, expiry, Option.bind_some, hexpires, Option.elim_some] at hlives ⊢
  omega

theorem booked_rewritten {s' : Store} {job : Job} {state : JobState} {r : Reservation}
    (hb : Booked deadline h now s) (hw : Rewritten now r.jobId job state s s')
    (hgrants : ∀ r, ¬Grants r e)
    (hstate : state = .complete ∧ e.reply = .accepted r true ∨
      state = .released ∧ Releases r e ∧ (∀ r, ¬Accepts r e) ∧ job.same r.id r.session = true) :
    Booked deadline (h ++ [e]) now s' := by
  obtain ⟨c, hc, hvalue⟩ := Option.map_eq_some_iff.mp hw.stored
  have hold := hb.kept r.jobId c hc
  have hmem : e ∈ h ++ [e] := List.mem_append_right _ (List.mem_singleton.mpr rfl)
  have hother : ∀ r', Accepts r' e → r'.jobId = r.jobId := by
    intro r' hr'
    rcases hstate with ⟨-, he⟩ | ⟨-, -, hnone, -⟩
    · rw [Accepts, he, Reply.accepted.injEq] at hr'
      rw [hr'.1]
    · exact absurd hr' (hnone r')
  have hopen : ∀ x ∈ h, ∀ r', Accepts r' x → r'.jobId ≠ r.jobId := by
    intro x hx r' hr' hjob
    have hcomplete := hold.complete x hx r' hr' hjob
    rw [hvalue, hw.pending] at hcomplete
    cases hcomplete
  constructor
  · intro j hj hu
    rw [hw.job, put_apply] at hj
    split at hj
    · cases hj
    · rename_i hne
      rcases used_snoc hu with hu | ⟨r', hr' | hr', hjob⟩
      · exact hb.gone j hj hu
      · exact absurd hr' (hgrants r')
      · exact absurd (hjob.symm.trans (hother r' hr')) hne
  · intro j c' hc'
    rw [hw.job, put_apply] at hc'
    split at hc'
    · rename_i heq
      subst heq
      obtain rfl := Option.some.inj hc'
      refine ⟨congrArg some (rewritten_expires hb hw), ?_, fun hreleased => ?_, fun x hx r' hr' hjob htwo => ?_,
        fun x hx r' hr' hjob => ?_⟩
      · obtain ⟨x, hx, hr⟩ := hold.granted
        rw [hvalue] at hr
        exact ⟨x, List.mem_append_left _ hx, hr⟩
      · rcases hstate with ⟨hcomplete, -⟩ | ⟨-, hreleases, -, hsame⟩
        · have hfalse : state = .released := hreleased
          rw [hcomplete] at hfalse
          cases hfalse
        · rw [Job.same, Bool.and_eq_true, beq_iff_eq, beq_iff_eq] at hsame
          exact ⟨e, hmem, r, hreleases, rfl, hsame.1.symm, hsame.2.symm⟩
      · rcases List.mem_append.mp hx with hx | hx
        · have htwo' := hold.latest x hx r' hr' hjob htwo
          rwa [hvalue] at htwo'
        · rw [List.mem_singleton.mp hx] at hr'
          exact absurd hr' (hgrants r')
      · rcases List.mem_append.mp hx with hx | hx
        · exact absurd hjob (hopen x hx r' hr')
        · rcases hstate with ⟨hcomplete, -⟩ | ⟨-, -, hnone, -⟩
          · exact hcomplete
          · rw [List.mem_singleton.mp hx] at hr'
            exact absurd hr' (hnone r')
    · rename_i hne
      exact (hb.kept j c' hc').snoc (fun r' hr' => absurd hr' (hgrants r')) fun r' hr' hjob =>
        absurd (hjob.symm.trans (hother r' hr')) hne

end Maxim.Moderation.CommercialLlmPool

/-!
## Invariants of the pool

Identifiers are drawn once, so that a reservation is granted under an
identifier of its own. A job is completed once, and only a worker that holds
the session of the reservation supplies the body.
-/

namespace Maxim.Moderation.CommercialLlmPool

open Maxim.Library

variable {ω : Type} [DecidableEq ω] {P : Protocol} {deadline : String → Nat} {h : List (Event ω)}
  {t now : Nat} {move : Move ω} {reply : Reply} {p p' : Pool ω}

/-! ## Phases and jobs -/

theorem phases_update (hp : PhasesOk deadline p) {w : ω} {phase : Option Phase}
    (hphase : ∀ ph, phase = some ph → PhaseOk deadline ph)
    (hclient : p'.client = Function.update p.client w phase) : PhasesOk deadline p' := by
  intro w' ph hph
  rw [hclient] at hph
  by_cases hw : w' = w
  · subst hw
    rw [Function.update_self] at hph
    exact hphase ph hph
  · rw [Function.update_of_ne hw] at hph
    exact hp w' ph hph

theorem phases_effect (hp : PhasesOk deadline p) (ha : Asks deadline h now move)
    (hx : Effect now move p p' reply) : PhasesOk deadline p' := by
  have hnone : ∀ ph, (none : Option Phase) = some ph → PhaseOk deadline ph := by
    intro ph hph
    cases hph
  cases hx with
  | quiet _ _ _ clients =>
    intro w ph hph
    rcases clients w ph hph with hold | harises
    · exact hp w ph hold
    · cases harises with
      | reserve next heartbeat consultation request hmove job hdeadline =>
        exact hdeadline.trans ((ha.1 w _ request consultation _ hmove).trans (by rw [job]))
      | respond _ _ _ _ _ same => exact same
      | wait => trivial
      | accept _ _ _ same => exact same
      | finish => trivial
  | granted w _ _ _ _ client => exact phases_update hp hnone client
  | sent w _ _ _ _ _ _ client => exact phases_update hp hnone client
  | released _ _ client =>
    intro w ph hph
    rw [client] at hph
    exact hp w ph hph
  | accepted w r _ _ _ _ client =>
    refine phases_update hp (fun ph hph => ?_) client
    rw [Option.some.injEq] at hph
    rw [← hph]
    trivial
  | returned w _ _ _ _ client => exact phases_update hp hnone client

theorem quiet_shows (hq : reply.quiet) (r : Reservation) :
    reply ≠ .reserved r true ∧ reply ≠ .accepted r true := by
  constructor
  · rintro rfl
    cases hq
  · rintro rfl
    cases hq

theorem booked_effect (hb : Booked deadline h now (p.store.purge now)) (hp : PhasesOk deadline p)
    (hx : Effect now move p p' reply) : Booked deadline (h ++ [⟨now, move, reply⟩]) now p'.store := by
  cases hx with
  | quiet _ shows store =>
    exact (hb.congr store.job).snoc_quiet (fun r => (quiet_shows shows r).1)
      fun r => (quiet_shows shows r).2
  | granted w next heartbeat consultation phase _ store =>
    exact booked_granted hb store (hp w _ phase) rfl
  | sent _ _ _ _ _ _ _ _ store =>
    refine (hb.congr store.job).snoc_quiet (fun r hr => ?_) fun r hr => ?_
    · cases hr
    · cases hr
  | released r job _ same store =>
    refine booked_rewritten hb store (fun r' hr' => ?_) (.inr ⟨rfl, .inl rfl, fun r' hr' => ?_, same⟩)
    · cases hr'
    · cases hr'
  | accepted w r response job lost _ _ _ store =>
    refine booked_rewritten hb store (fun r' hr' => ?_) (.inl ⟨rfl, rfl⟩)
    cases hr'
  | returned w r outcome did _ _ store =>
    rcases store with ⟨rfl, hquiet⟩ | ⟨rfl, job, same, store⟩
    · refine (hb.congr hquiet.job).snoc_quiet (fun r' hr' => ?_) fun r' hr' => ?_
      · cases hr'
      · cases hr'
    · refine booked_rewritten hb store (fun r' hr' => ?_)
        (.inr ⟨rfl, .inr ⟨outcome, rfl⟩, fun r' hr' => ?_, same⟩)
      · cases hr'
      · cases hr'

theorem booked_run (hr : PoolRun P deadline h t p) : PhasesOk deadline p ∧ Booked deadline h t p.store := by
  refine hr.invariant (fun h t p => PhasesOk deadline p ∧ Booked deadline h t p.store) ?_ ?_ ?_
  · refine ⟨fun w ph hph => ?_, fun j _ hu => ?_, fun j c hc => ?_⟩
    · cases hph
    · obtain ⟨x, hx, -⟩ := hu
      cases hx
    · cases hc
  · rintro h t t' p ⟨hp, hb⟩ hle
    exact ⟨hp, fun j hnone hu => Nat.lt_of_lt_of_le (hb.gone j hnone hu) hle, hb.kept⟩
  · rintro h t p move ⟨hp, hb⟩ ha
    have hx := step_effect P t move p
    exact ⟨phases_effect hp ha hx, booked_effect (hb.purge (le_refl t)) hp hx⟩

/-! ## Identifiers -/

/-- Identifiers of reservations in progress and of granted ones are drawn and all different. -/
structure Drawn (h : List (Event ω)) (p : Pool ω) : Prop where
  open_ : ∀ w next hb c, p.client w = some (.reserve next hb c) → ∃ e ∈ h, e.request.drawn = some next.id
  apart : ∀ w w' next next' hb hb' c c', p.client w = some (.reserve next hb c) →
    p.client w' = some (.reserve next' hb' c') → next.id = next'.id → w = w'
  granted : ∀ e ∈ h, ∀ r, Grants r e → ∃ e' ∈ h, e'.request.drawn = some r.id
  spent : ∀ e ∈ h, ∀ r, Grants r e → ∀ w next hb c, p.client w = some (.reserve next hb c) →
    next.id ≠ r.id

omit [DecidableEq ω] in
/-- A step that grants nothing and starts at most the reservation that its move draws. -/
theorem Drawn.snoc {e : Event ω} (hd : Drawn h p) (ha : Asks deadline h now e.request)
    (hclients : ∀ w next hb c, p'.client w = some (.reserve next hb c) →
      p.client w = some (.reserve next hb c) ∨
        ∃ request, e.request = .call w (.reserve next.nodeId request c next.id))
    (hgrants : ∀ r, ¬Grants r e) : Drawn (h ++ [e]) p' := by
  have hfresh : ∀ w next hb c, p'.client w = some (.reserve next hb c) →
      (∃ x ∈ h, x.request.drawn = some next.id) → p.client w = some (.reserve next hb c) := by
    intro w next hb c hc hx
    rcases hclients w next hb c hc with hold | ⟨request, hmove⟩
    · exact hold
    · obtain ⟨x, hx, hdrawn⟩ := hx
      exact absurd hdrawn (ha.2 next.id (by rw [hmove]; rfl) x hx)
  have hstart : ∀ w next hb c, p'.client w = some (.reserve next hb c) →
      p.client w = some (.reserve next hb c) ∨
        (∀ x ∈ h, x.request.drawn ≠ some next.id) ∧ e.request.drawn = some next.id ∧
          ∃ request, e.request = .call w (.reserve next.nodeId request c next.id) := by
    intro w next hb c hc
    rcases hclients w next hb c hc with hold | ⟨request, hmove⟩
    · exact .inl hold
    · have hdrawn : e.request.drawn = some next.id := by rw [hmove]; rfl
      exact .inr ⟨ha.2 _ hdrawn, hdrawn, request, hmove⟩
  constructor
  · intro w next hb c hc
    rcases hstart w next hb c hc with hold | ⟨-, hdrawn, -⟩
    · obtain ⟨x, hx, hdrawn⟩ := hd.open_ w next hb c hold
      exact ⟨x, List.mem_append_left _ hx, hdrawn⟩
    · exact ⟨e, List.mem_append_right _ (List.mem_singleton.mpr rfl), hdrawn⟩
  · intro w w' next next' hb hb' c c' hc hc' hid
    rcases hstart w next hb c hc with hold | ⟨hnew, -, request, hmove⟩
    · obtain ⟨x, hx, hdrawn⟩ := hd.open_ w next hb c hold
      have hold' := hfresh w' next' hb' c' hc' ⟨x, hx, by rw [hdrawn, hid]⟩
      exact hd.apart w w' next next' hb hb' c c' hold hold' hid
    · rcases hstart w' next' hb' c' hc' with hold' | ⟨-, -, request', hmove'⟩
      · obtain ⟨x, hx, hdrawn⟩ := hd.open_ w' next' hb' c' hold'
        exact absurd (hdrawn.trans (congrArg some hid.symm)) (hnew x hx)
      · rw [hmove, Move.call.injEq] at hmove'
        exact hmove'.1
  · intro x hx r hr
    rcases List.mem_append.mp hx with hx | hx
    · obtain ⟨y, hy, hdrawn⟩ := hd.granted x hx r hr
      exact ⟨y, List.mem_append_left _ hy, hdrawn⟩
    · rw [List.mem_singleton.mp hx] at hr
      exact absurd hr (hgrants r)
  · intro x hx r hr w next hb c hc hid
    rcases List.mem_append.mp hx with hx | hx
    · obtain ⟨y, hy, hdrawn⟩ := hd.granted x hx r hr
      exact hd.spent x hx r hr w next hb c (hfresh w next hb c hc ⟨y, hy, by rw [hdrawn, hid]⟩) hid
    · rw [List.mem_singleton.mp hx] at hr
      exact absurd hr (hgrants r)

theorem drawn_granted {e : Event ω} {w : ω} {next : Reservation} {hb : Heartbeat} {c : Bool}
    (hd : Drawn h p) (hphase : p.client w = some (.reserve next hb c))
    (hclient : p'.client = Function.update p.client w none) (he : e.reply = .reserved next true) :
    Drawn (h ++ [e]) p' := by
  have hold : ∀ w' next' hb' c', p'.client w' = some (.reserve next' hb' c') →
      w' ≠ w ∧ p.client w' = some (.reserve next' hb' c') := by
    intro w' next' hb' c' hc
    rw [hclient] at hc
    by_cases hw : w' = w
    · rw [hw, Function.update_self] at hc
      cases hc
    · rw [Function.update_of_ne hw] at hc
      exact ⟨hw, hc⟩
  have hself : ∀ r, Grants r e → r = next := by
    intro r hr
    rw [Grants, he, Reply.reserved.injEq] at hr
    exact hr.1.symm
  constructor
  · intro w' next' hb' c' hc
    obtain ⟨x, hx, hdrawn⟩ := hd.open_ w' next' hb' c' (hold w' next' hb' c' hc).2
    exact ⟨x, List.mem_append_left _ hx, hdrawn⟩
  · intro w₁ w₂ n₁ n₂ hb₁ hb₂ c₁ c₂ h₁ h₂
    exact hd.apart w₁ w₂ n₁ n₂ hb₁ hb₂ c₁ c₂ (hold _ _ _ _ h₁).2 (hold _ _ _ _ h₂).2
  · intro x hx r hr
    rcases List.mem_append.mp hx with hx | hx
    · obtain ⟨y, hy, hdrawn⟩ := hd.granted x hx r hr
      exact ⟨y, List.mem_append_left _ hy, hdrawn⟩
    · rw [List.mem_singleton.mp hx] at hr
      rw [hself r hr]
      obtain ⟨y, hy, hdrawn⟩ := hd.open_ w next hb c hphase
      exact ⟨y, List.mem_append_left _ hy, hdrawn⟩
  · intro x hx r hr w' next' hb' c' hc hid
    obtain ⟨hw, hc⟩ := hold w' next' hb' c' hc
    rcases List.mem_append.mp hx with hx | hx
    · exact hd.spent x hx r hr w' next' hb' c' hc hid
    · rw [List.mem_singleton.mp hx] at hr
      rw [hself r hr] at hid
      exact hw (hd.apart w' w next' next hb' hb c' c hc hphase hid)

theorem drawn_effect (hd : Drawn h p) (ha : Asks deadline h now move)
    (hx : Effect now move p p' reply) : Drawn (h ++ [⟨now, move, reply⟩]) p' := by
  have hupdate : ∀ {w : ω} {phase : Option Phase}, (∀ next hb c, phase ≠ some (.reserve next hb c)) →
      p'.client = Function.update p.client w phase → ∀ w' next hb c,
        p'.client w' = some (.reserve next hb c) → p.client w' = some (.reserve next hb c) ∨
          ∃ request, move = .call w' (.reserve next.nodeId request c next.id) := by
    intro w phase hphase hclient w' next hb c hc
    rw [hclient] at hc
    by_cases hw : w' = w
    · rw [hw, Function.update_self] at hc
      exact absurd hc (hphase next hb c)
    · rw [Function.update_of_ne hw] at hc
      exact .inl hc
  cases hx with
  | quiet _ shows _ clients =>
    refine hd.snoc ha (fun w next hb c hc => ?_) fun r => (quiet_shows shows r).1
    refine (clients w _ hc).imp_right fun harises => ?_
    cases harises with
    | reserve _ _ _ request hmove => exact ⟨request, hmove⟩
  | granted w next hb c phase client => exact drawn_granted hd phase client rfl
  | sent w _ _ _ _ _ _ client =>
    refine hd.snoc ha (hupdate (fun _ _ _ => by simp) client) fun r hr => ?_
    cases hr
  | released _ _ client =>
    refine hd.snoc ha (fun w next hb c hc => .inl (by rw [← client]; exact hc)) fun r hr => ?_
    cases hr
  | accepted w _ _ _ _ _ client =>
    refine hd.snoc ha (hupdate (fun _ _ _ => by simp) client) fun r hr => ?_
    cases hr
  | returned w _ _ _ _ client =>
    refine hd.snoc ha (hupdate (fun _ _ _ => by simp) client) fun r hr => ?_
    cases hr

theorem drawn_run (hr : PoolRun P deadline h t p) : Drawn h p := by
  refine hr.invariant (fun h _ p => Drawn h p) ?_ (fun _ _ _ _ hd _ => hd) fun h t p move hd ha =>
    drawn_effect hd ha (step_effect P t move p)
  constructor
  · intro w next hb c hc
    cases hc
  · intro w w' next next' hb hb' c c' hc
    cases hc
  · intro e he
    cases he
  · intro e he
    cases he

end Maxim.Moderation.CommercialLlmPool
