import Maxim.Moderation.SanctionStateLock.Exclusion

/-!
# Runs of the lock around the sanction state

What a history of all calls for one member shows of a guard that has resolved,
of a lost lease and of a returned result. A guard that an operation has left
behind may still be answered after the release; everything else of a call ends
before it.
-/

namespace Maxim.Moderation.SanctionStateLock

open Maxim.Library

variable {ι : Type} [DecidableEq ι] {offset : ι → Int} {now : Nat} {event : Event ι}
  {world : World ι}

/-! ## Steps that answer somebody -/

theorem goes_of_outcome {outcome : Outcome ι} (ho : (step offset now event world).2 = outcome)
    (hsilent : outcome ≠ .silent) (hrejected : ∀ i error, outcome ≠ .rejected i error)
    (hperformed : ∀ i command status, outcome ≠ .performed i command status) :
    ∃ i, Goes world (now + offset i) event i (world.call i)
      ((step offset now event world).1.call i) outcome := by
  have heff := step_effect offset now event world
  rw [ho] at heff
  generalize (step offset now event world).1 = next at heff ⊢
  cases heff with
  | idle hidle _ =>
    rcases hidle with rfl | ⟨i, error, rfl⟩
    · exact absurd rfl hsilent
    · exact absurd rfl (hrejected i error)
  | performs => exact absurd rfl (hperformed _ _ _)
  | @moves i _ _ _ hg _ => exact ⟨i, by simpa using hg⟩

omit [DecidableEq ι] in
theorem finish_cases (i : ι) (operationFailed leaseLostError : Bool) :
    (∃ error, finish i operationFailed leaseLostError = .threw i error) ∨
      finish i operationFailed leaseLostError = .returned i ∧
        operationFailed = false ∧ leaseLostError = false := by
  cases operationFailed <;> cases leaseLostError <;> simp [finish]

theorem resolved_inv {i : ι} {startedAtMs : Int}
    (ho : (step offset now event world).2 = .resolved i startedAtMs) :
    Earned world i (startedAtMs + ttlMs) ∧ now + offset i < startedAtMs + ttlMs ∧
      ¬world.Lost i ∧
      (∃ request ∈ world.wire, request.owner = i ∧ request.command = .assertOwned ∧
        request.awaited = true) ∧
      ∃ lease stage, (step offset now event world).1.call i = .leased lease stage ∧
        startedAtMs + ttlMs ≤ lease.conservativeExpiresAtMs := by
  obtain ⟨j, hg⟩ := goes_of_outcome ho (by simp) (by simp) (by simp)
  generalize hcall : world.call j = call at hg
  generalize hnext : (step offset now event world).1.call j = next at hg
  generalize hout : Outcome.resolved i startedAtMs = outcome at hg
  cases hg with
  | waits _ _ hw => rcases hw with rfl | ⟨_, rfl⟩ <;> cases hout
  | follows _ hf => rcases hf with rfl | ⟨_, rfl⟩ <;> cases hout
  | @resolves lease _ stage _ _ he hw hlost hdate hle =>
    cases hout
    refine ⟨he, hdate, ?_, hw, _, _, hnext, hle⟩
    rintro ⟨lease', stage', hc, hl⟩
    rw [hcall] at hc
    cases hc
    rw [hlost] at hl
    cases hl
  | @ends _ failed lost =>
    rcases finish_cases j failed lost with ⟨_, he⟩ | ⟨he, -⟩ <;> rw [he] at hout <;> cases hout
  | _ => cases hout

theorem entered_inv {i : ι} (ho : (step offset now event world).2 = .entered i) :
    (world.call i).Unleased ∧ ((step offset now event world).1.Lost i ∨
      ∃ b, Earned world i b ∧ now + offset i < b) := by
  obtain ⟨j, hg⟩ := goes_of_outcome ho (by simp) (by simp) (by simp)
  generalize hcall : world.call j = call at hg
  generalize hnext : (step offset now event world).1.call j = next at hg
  generalize hout : Outcome.entered i = outcome at hg
  cases hg with
  | waits _ _ hw => rcases hw with rfl | ⟨_, rfl⟩ <;> cases hout
  | @enters _ startedAtMs hu he =>
    cases hout
    refine ⟨hcall ▸ hu, ?_⟩
    rcases Lease.start_lost (now + offset i) startedAtMs with hl | hd
    · exact .inl ⟨_, _, hnext, hl⟩
    · exact .inr ⟨_, he, hd⟩
  | follows _ hf => rcases hf with rfl | ⟨_, rfl⟩ <;> cases hout
  | @ends _ failed lost =>
    rcases finish_cases j failed lost with ⟨_, he⟩ | ⟨he, -⟩ <;> rw [he] at hout <;> cases hout
  | _ => cases hout

theorem returned_inv {i : ι} (ho : (step offset now event world).2 = .returned i) :
    ∃ lease, world.call i = .leased lease (.releasing false false) := by
  obtain ⟨j, hg⟩ := goes_of_outcome ho (by simp) (by simp) (by simp)
  generalize hcall : world.call j = call at hg
  generalize (step offset now event world).1.call j = next at hg
  generalize hout : Outcome.returned i = outcome at hg
  cases hg with
  | waits _ _ hw => rcases hw with rfl | ⟨_, rfl⟩ <;> cases hout
  | follows _ hf => rcases hf with rfl | ⟨_, rfl⟩ <;> cases hout
  | @ends lease failed lost =>
    rcases finish_cases j failed lost with ⟨_, he⟩ | ⟨he, rfl, rfl⟩
    · rw [he] at hout
      cases hout
    · rw [he] at hout
      cases hout
      exact ⟨lease, hcall⟩
  | _ => cases hout

theorem step_keeps (offset : ι → Int) (now : Nat) (event : Event ι) {i : ι} {lease : Lease}
    {stage : Stage} (hc : world.call i = .leased lease stage) :
    ∃ lease' stage', (step offset now event world).1.call i = .leased lease' stage' ∧
      lease.conservativeExpiresAtMs ≤ lease'.conservativeExpiresAtMs ∧
      (lease.lost = true → lease'.lost = true) := by
  have heff := step_effect offset now event world
  generalize (step offset now event world).1 = next at heff ⊢
  generalize (step offset now event world).2 = outcome at heff
  cases heff with
  | idle _ _ => exact ⟨lease, stage, hc, le_rfl, fun hl => hl⟩
  | performs _ => exact ⟨lease, stage, hc, le_rfl, fun hl => hl⟩
  | @moves j call _ _ hg _ =>
    by_cases hij : i = j
    · subst hij
      obtain ⟨lease', stage', hnext, hle⟩ := hg.keeps hc
      exact ⟨lease', stage', by simp [hnext], hle⟩
    · exact ⟨lease, stage, by simp [hij, hc], le_rfl, fun hl => hl⟩

/-- A call comes to its release by the end of `stop`. -/
theorem step_releasing {i : ι} {lease : Lease} {failed lost : Bool}
    (hc : (step offset now event world).1.call i = .leased lease (.releasing failed lost)) :
    (∃ lease₀, world.call i = .leased lease₀ (.releasing failed lost)) ∨
      event = .stop i ∧ ∃ lease₀ stage, world.call i = .leased lease₀ stage ∧
        lost = (lease₀.settle (now + offset i)).lost := by
  have heff := step_effect offset now event world
  generalize (step offset now event world).1 = next at heff hc
  generalize (step offset now event world).2 = outcome at heff
  cases heff with
  | idle _ _ => exact .inl ⟨lease, hc⟩
  | performs _ => exact .inl ⟨lease, hc⟩
  | @moves j call _ _ hg _ =>
    by_cases hij : i = j
    · subst hij
      dsimp only at hc
      rw [Function.update_self] at hc
      generalize hbefore : world.call i = before at hg ⊢
      cases hg with
      | waits _ hn => exact absurd hc (hn _ _)
      | enters => cases hc
      | follows =>
        cases hc
        exact .inl ⟨_, rfl⟩
      | resolves =>
        cases hc
        exact .inl ⟨_, rfl⟩
      | halts => cases hc
      | stops hev =>
        cases hc
        exact .inr ⟨hev, _, _, rfl, rfl⟩
      | ends => cases hc
    · dsimp only at hc
      rw [Function.update_of_ne hij] at hc
      exact .inl ⟨lease, hc⟩

/-! ## Histories -/

section Histories

variable {h h₁ h₂ : List (Entry (Event ι) (Outcome ι))} {t : Nat}

abbrev after (offset : ι → Int) (h : List (Entry (Event ι) (Outcome ι))) : World ι :=
  replay (step offset) World.init h

/-- Every guard that has resolved has left an estimate that is still there. -/
def Estimates (h : List (Entry (Event ι) (Outcome ι))) (world : World ι) : Prop :=
  ∀ e ∈ h, ∀ i startedAtMs, e.reply = .resolved i startedAtMs →
    ∃ lease stage, world.call i = .leased lease stage ∧
      startedAtMs + ttlMs ≤ lease.conservativeExpiresAtMs

theorem estimates_of_run (hr : AnyRun offset h t world) : Estimates h world := by
  refine hr.invariant (fun h _ world => Estimates h world) (fun e he => by cases he)
    (fun _ _ _ _ hkept _ => hkept) ?_
  intro h t world event hkept _ e he i startedAtMs hrep
  rcases List.mem_append.mp he with he | he
  · obtain ⟨lease, stage, hc, hle⟩ := hkept e he i startedAtMs hrep
    obtain ⟨lease', stage', hc', hle', -⟩ := step_keeps offset t event hc
    exact ⟨lease', stage', hc', by omega⟩
  · obtain rfl := List.mem_singleton.mp he
    exact (resolved_inv hrep).2.2.2.2

theorem lost_since (hr : AnyRun offset (h₁ ++ h₂) t world) {i : ι} (hl : (after offset h₁).Lost i) :
    world.Lost i := by
  refine Run.since (fun _ _ world => world.Lost i) (fun _ s hpre => ?_)
    (fun _ _ _ _ hlost _ => hlost) ?_ hr
  · rwa [← hpre.replay_eq]
  · rintro h t₀ t s event - - ⟨lease, stage, hc, hlost⟩ -
    obtain ⟨lease', stage', hc', -, hkeep⟩ := step_keeps offset t event hc
    exact ⟨lease', stage', hc', hkeep hlost⟩

/-- The heartbeat of call `i` has stopped, with a lease that was neither lost nor expired. -/
def StoppedInTime (offset : ι → Int) (h : List (Entry (Event ι) (Outcome ι))) (i : ι) : Prop :=
  ∃ h₁ e h₂, h = h₁ ++ e :: h₂ ∧ e.request = .stop i ∧
    ∃ lease stage, (after offset h₁).call i = .leased lease stage ∧ lease.lost = false ∧
      e.now + offset i < lease.conservativeExpiresAtMs

/-- A call that releases without an error of its lease was stopped in time. -/
def ReleasesInTime (offset : ι → Int) (h : List (Entry (Event ι) (Outcome ι))) (world : World ι) :
    Prop :=
  ∀ i lease failed, world.call i = .leased lease (.releasing failed false) →
    StoppedInTime offset h i

theorem releasesInTime_of_run (hr : AnyRun offset h t world) : ReleasesInTime offset h world := by
  have hrun : AnyRun offset ([] ++ h) t world := by simpa using hr
  rw [← List.nil_append h]
  refine Run.since (fun h _ world => ReleasesInTime offset h world) ?_
    (fun _ _ _ _ hq _ => hq) ?_ hrun
  · intro t s hnil i lease failed hc
    obtain ⟨-, rfl⟩ := hnil.nil_inv
    cases hc
  · intro h t₀ t s event hpre _ hq _ i lease failed hc
    rcases step_releasing hc with ⟨lease₀, hc₀⟩ | ⟨hev, lease₀, stage, hc₀, hlost⟩
    · obtain ⟨h₁, e, h₂, rfl, he⟩ := hq i lease₀ failed hc₀
      exact ⟨h₁, e, _, by rw [List.append_assoc, List.cons_append], he⟩
    · obtain ⟨hfine, hdate⟩ := Lease.settle_lost hlost.symm
      refine ⟨h, _, [], rfl, hev, lease₀, stage, ?_, hfine, hdate⟩
      rw [after, hpre.replay_eq]
      exact hc₀

/-! ## Operations that await their guards -/

/-- An operation settles only when all its guards are answered, and nobody uses them later. -/
def GuardsAwaited (world : World ι) : Event ι → Prop
  | .settle i _ => ∀ request ∈ world.wire, request.owner = i → request.command = .assertOwned →
      request.awaited = false
  | .assertOwned i => ∃ lease, world.call i = .leased lease .operating
  | _ => True

def Attentive (offset : ι → Int) (h : List (Entry (Event ι) (Outcome ι))) : Prop :=
  ∀ h₁ e h₂, h = h₁ ++ e :: h₂ → GuardsAwaited (after offset h₁) e.request

def Quiet (world : World ι) : Prop :=
  ∀ i, world.Settled i → ∀ request ∈ world.wire, request.owner = i →
    request.command = .assertOwned → request.awaited = false

omit [DecidableEq ι] in
theorem Carried.unawaited {request : Request ι} (hcar : Carried world request)
    (hold : ∀ sent ∈ world.wire, sent.owner = request.owner → sent.command = request.command →
      sent.awaited = false) : request.awaited = false := by
  obtain ⟨sent, hsent, awaited, rfl, ha⟩ := hcar
  have hfalse := hold sent hsent rfl rfl
  by_contra hne
  rw [ha (by simpa using hne)] at hfalse
  cases hfalse

theorem quiet_step (hq : Quiet world) (hg : GuardsAwaited world event) :
    Quiet (step offset now event world).1 := by
  have heff := step_effect offset now event world
  generalize (step offset now event world).1 = next at heff ⊢
  generalize (step offset now event world).2 = outcome at heff
  cases heff with
  | idle _ hwire =>
    intro i hs request hr ho hcmd
    exact (hwire request hr).unawaited fun sent hsent ho' hcmd' =>
      hq i hs sent hsent (ho'.trans ho) (hcmd'.trans hcmd)
  | @performs n sent hn =>
    intro i hs request hr ho hcmd
    rcases List.mem_or_eq_of_mem_set hr with hr | rfl
    · exact hq i hs request hr ho hcmd
    · exact hq i hs sent (List.mem_of_getElem? hn) ho hcmd
  | @moves i call _ wire hgoes hwire =>
    rintro j ⟨lease, stage, hc, hstage⟩ request hr ho hcmd
    dsimp only at hc
    by_cases hj : j = i
    · subst hj
      rw [Function.update_self] at hc
      rcases hgoes.settles hc hstage with ⟨lease₀, stage₀, hc₀, hs₀⟩ | ⟨failed, rfl⟩
      · rcases hwire request hr with hsend | hcar
        · rw [hsend.guard hcmd] at hg
          obtain ⟨lease₁, hc₁⟩ := hg
          rw [hc₀] at hc₁
          cases hc₁
          exact absurd rfl hs₀
        · exact hcar.unawaited fun sent hsent ho' hcmd' =>
            hq j ⟨lease₀, stage₀, hc₀, hs₀⟩ sent hsent (ho'.trans ho) (hcmd'.trans hcmd)
      · rcases hwire request hr with hsend | hcar
        · cases hsend.guard hcmd
        · exact hcar.unawaited fun sent hsent ho' hcmd' =>
            hg sent hsent (ho'.trans ho) (hcmd'.trans hcmd)
    · rw [Function.update_of_ne hj] at hc
      rcases hwire request hr with hsend | hcar
      · exact absurd (ho.symm.trans hsend.owner) hj
      · exact hcar.unawaited fun sent hsent ho' hcmd' =>
          hq j ⟨lease, stage, hc, hstage⟩ sent hsent (ho'.trans ho) (hcmd'.trans hcmd)

theorem quiet_of_run (hr : AnyRun offset h t world) (ha : Attentive offset h) : Quiet world := by
  induction hr with
  | nil =>
    rintro i ⟨lease, stage, hc, -⟩
    cases hc
  | @snoc h t s now event hpre hle _ ih =>
    have hprefix : Attentive offset h := by
      rintro h₁ e h₂ rfl
      exact ha h₁ e _ (by rw [List.append_assoc, List.cons_append])
    have hev := ha h _ [] rfl
    rw [after, hpre.replay_eq] at hev
    exact quiet_step (ih hprefix) hev

end Histories

/-! ## Sections -/

omit [DecidableEq ι] in
theorem Sound.held {h : List (Entry (Event ι) (Outcome ι))} (hs : Sound offset h now world) {i : ι}
    {lease : Lease} {stage : Stage} (hc : world.call i = .leased lease stage)
    (hn : ¬Released h i) (hlt : now + offset i < lease.conservativeExpiresAtMs) :
    content (purge now world.lock) = some i :=
  (hs.leased i lease stage hc hn).content (by omega)

/-- Nobody else gets the lock that Redis holds for `i`: no acquisition, no guard
that resolves before the release of its call, no operation that starts with a lease. -/
theorem held_excludes (event : Event ι) {h : List (Entry (Event ι) (Outcome ι))} (hs : Sound offset h now world)
    {i j : ι} (hheld : content (purge now world.lock) = some i) (hj : j ≠ i) :
    (∀ deadlineAtMs, (step offset now event world).2 ≠ .performed j (.acquire deadlineAtMs) 1) ∧
    (∀ startedAtMs, (step offset now event world).2 = .resolved j startedAtMs → Released h j) ∧
    ((step offset now event world).2 = .entered j → (step offset now event world).1.Lost j) := by
  -- a grant of another call is over, or that call is released
  have hover : ∀ {b : Int}, Earned world j b → now + offset j < b → Released h j := by
    intro b he hlt
    by_contra hn
    have hother := (hs.earned he hn).content (by omega)
    rw [hheld] at hother
    exact hj (Option.some.inj hother).symm
  refine ⟨fun deadlineAtMs ho => ?_, fun startedAtMs ho => ?_, fun ho => ?_⟩
  · have heff := step_effect offset now event world
    generalize (step offset now event world).1 = next at heff
    rw [ho] at heff
    generalize hout : Outcome.performed j (.acquire deadlineAtMs) 1 = outcome at heff
    cases heff with
    | idle hidle _ => rcases hidle with rfl | ⟨_, _, rfl⟩ <;> cases hout
    | @performs n request hn =>
      rw [Outcome.performed.injEq] at hout
      obtain ⟨-, hcmd, hst⟩ := hout
      rw [← hcmd, Command.perform, acquireLockBeforeDeadline] at hst
      split_ifs at hst with hd hp
      · rw [hp] at hheld
        cases hheld
      · simp at hst
    | moves hg _ => exact hg.ne_performed _ _ _ hout.symm
  · obtain ⟨he, hlt, -⟩ := resolved_inv ho
    exact hover he hlt
  · obtain ⟨hu, hl | ⟨b, he, hlt⟩⟩ := entered_inv ho
    · exact hl
    · obtain ⟨lease, stage, hc, -⟩ := hs.released j (hover he hlt)
      exact absurd hc (hu lease stage)

theorem performed_keeps {i j : ι} {command : Command} {status : Nat}
    (ho : (step offset now event world).2 = .performed i command status)
    (hcmd : ∀ deadlineAtMs, command ≠ .acquire deadlineAtMs) (hj : j ≠ i)
    (hheld : content (purge now world.lock) = some j) :
    (step offset now event world).1.lock = world.lock := by
  have heff := step_effect offset now event world
  generalize (step offset now event world).1 = next at heff ⊢
  rw [ho] at heff
  generalize hout : Outcome.performed i command status = outcome at heff
  have hpurge : purge now world.lock = world.lock := by
    rcases purge_eq_self_or_none now world.lock with he | he
    · exact he
    · rw [he] at hheld
      cases hheld
  cases heff with
  | idle hidle _ => rcases hidle with rfl | ⟨_, _, rfl⟩ <;> cases hout
  | @performs n request hn =>
    rw [Outcome.performed.injEq] at hout
    obtain ⟨rfl, rfl, -⟩ := hout
    dsimp only
    rcases perform_cases now request.owner world.lock request.command with
      ⟨hg, -, hc⟩ | ⟨-, he⟩ | ⟨-, -, hc⟩
    · exact absurd hheld (hc j hj)
    · rw [he, hpurge]
    · rw [hheld] at hc
      exact absurd (Option.some.inj hc) hj
  | moves hg _ => exact absurd hout.symm (hg.ne_performed _ _ _)

/-- Until the estimate of a guard that has resolved has passed, or Redis has performed the
release of its call, no other call acquires the lock or starts its operation with a lease
that is not lost, and a guard of another call resolves only when its operation has settled
without awaiting it and Redis has performed its release. A lost lease never resolves a guard
again, a result is returned only when the heartbeat has stopped in time, and a renewal or a
release leaves the lock of another call as it is. -/
theorem sections_never_overlap (offset : ι → Int) {h : List (Entry (Event ι) (Outcome ι))}
    {t : Nat} {world : World ι} (hr : AnyRun offset h t world) :
    (∀ h₁ x h₂ y h₃ i startedAtMs, h = (h₁ ++ x :: h₂) ++ y :: h₃ →
      x.reply = .resolved i startedAtMs →
      ∃ lease stage, (after offset (h₁ ++ x :: h₂)).call i = .leased lease stage ∧
        startedAtMs + ttlMs ≤ lease.conservativeExpiresAtMs ∧
        (¬Released (h₁ ++ x :: h₂) i → y.now + offset i < lease.conservativeExpiresAtMs →
          ∀ j ≠ i, (∀ deadlineAtMs, y.reply ≠ .performed j (.acquire deadlineAtMs) 1) ∧
            (∀ startedAtMs', y.reply = .resolved j startedAtMs' →
              Released (h₁ ++ x :: h₂) j ∧ ¬Attentive offset h) ∧
            (y.reply = .entered j → (after offset (h₁ ++ x :: h₂ ++ [y])).Lost j))) ∧
    (∀ h₁ h₂ y h₃ i, h = (h₁ ++ h₂) ++ y :: h₃ → (after offset h₁).Lost i →
      ∀ startedAtMs, y.reply ≠ .resolved i startedAtMs) ∧
    (∀ h₁ y h₂ i, h = h₁ ++ y :: h₂ → y.reply = .returned i → StoppedInTime offset h₁ i) ∧
    (∀ h₁ y h₂ i command status, h = h₁ ++ y :: h₂ → y.reply = .performed i command status →
      (∀ deadlineAtMs, command ≠ .acquire deadlineAtMs) →
      ∀ j ≠ i, content (purge y.now (after offset h₁).lock) = some j →
        (after offset (h₁ ++ [y])).lock = (after offset h₁).lock) := by
  -- every entry of the history is a step from a world that a run has led to
  have hcut : ∀ h₁ y h₂, h = h₁ ++ y :: h₂ → ∃ t₁, AnyRun offset h₁ t₁ (after offset h₁) ∧
      t₁ ≤ y.now ∧ y.reply = (step offset y.now y.request (after offset h₁)).2 ∧
      after offset (h₁ ++ [y]) = (step offset y.now y.request (after offset h₁)).1 := by
    rintro h₁ y h₂ rfl
    rw [← List.singleton_append, ← List.append_assoc] at hr
    obtain ⟨t₂, w₂, hr₂, -⟩ := hr.of_append
    obtain ⟨t₁, w₁, hr₁, hle, -, -, hrep, -⟩ := hr₂.snoc_inv
    obtain rfl := hr₁.replay_eq
    exact ⟨t₁, hr₁, hle, hrep, replay_snoc _ _⟩
  refine ⟨?_, ?_, ?_, ?_⟩
  · intro h₁ x h₂ y h₃ i startedAtMs heq hx
    obtain ⟨t₁, hr₁, hle, hrep, hafter⟩ := hcut _ y h₃ heq
    obtain ⟨lease, stage, hc, hest⟩ := estimates_of_run hr₁ x (by simp) i startedAtMs hx
    refine ⟨lease, stage, hc, hest, fun hn hlt j hj => ?_⟩
    have hs := (sound_of_run hr₁).clock hle
    obtain ⟨hacq, hres, hent⟩ := held_excludes y.request hs (hs.held hc hn hlt) hj
    rw [hrep, hafter]
    refine ⟨hacq, fun startedAtMs' ho => ⟨hres _ ho, fun hatt => ?_⟩, hent⟩
    -- an operation that has awaited its guards has none left to resolve
    have hquiet := quiet_of_run hr₁ fun a e b hab => hatt a e (b ++ y :: h₃) (by simp [heq, hab])
    obtain ⟨-, -, -, ⟨request, hmem, ho', hcmd, hawaited⟩, -⟩ := resolved_inv ho
    have hnot := hquiet j (hs.released j (hres _ ho)) request hmem ho' hcmd
    rw [hawaited] at hnot
    cases hnot
  · intro h₁ h₂ y h₃ i heq hl startedAtMs ho
    obtain ⟨t₁, hr₁, -, hrep, -⟩ := hcut _ y h₃ heq
    exact (resolved_inv (hrep ▸ ho)).2.2.1 (lost_since hr₁ hl)
  · intro h₁ y h₂ i heq ho
    obtain ⟨t₁, hr₁, -, hrep, -⟩ := hcut _ y h₂ heq
    obtain ⟨lease, hc⟩ := returned_inv (hrep ▸ ho)
    exact releasesInTime_of_run hr₁ i lease false hc
  · intro h₁ y h₂ i command status heq ho hcmd j hj hheld
    obtain ⟨t₁, hr₁, -, hrep, hafter⟩ := hcut _ y h₂ heq
    rw [hafter]
    exact performed_keeps (hrep ▸ ho) hcmd hj hheld

/-! ## A guard that its operation does not await -/

/-- Call 1 asks its guard and settles before the answer; call 0 gets the lock and
asserts it; then the answer to call 1 arrives. -/
def leakedGuard : List (Nat × Event (Fin 2)) :=
  [(1, .runExclusive 1 none), (1, .perform 0), (1, .reply 0), (2, .assertOwned 1), (2, .perform 1),
    (3, .settle 1 false), (3, .stop 1), (3, .perform 2), (4, .reply 2),
    (5, .runExclusive 0 none), (5, .perform 3), (5, .reply 3), (6, .assertOwned 0), (6, .perform 4),
    (6, .reply 4), (7, .reply 1)]

theorem run_leakedGuard : ∃ t, AnyRun (fun _ => 0) (play (step fun _ => 0) World.init leakedGuard).1
    t (play (step fun _ => 0) World.init leakedGuard).2 :=
  run_play (by decide) (accepted_of_forall (fun _ _ _ => trivial) _ _)

theorem sections_never_overlap_leakedGuard :
    ∃ t world, AnyRun (fun _ => 0) (play (step fun _ => 0) World.init leakedGuard).1 t world ∧
      ∀ h₁ y h₂ i command status,
        (play (step fun _ => 0) World.init leakedGuard).1 = h₁ ++ y :: h₂ →
        y.reply = .performed i command status →
        (∀ deadlineAtMs, command ≠ .acquire deadlineAtMs) →
        ∀ j ≠ i, content (purge y.now (after (fun _ => 0) h₁).lock) = some j →
          (after (fun _ => 0) (h₁ ++ [y])).lock = (after (fun _ => 0) h₁).lock := by
  obtain ⟨t, hr⟩ := run_leakedGuard
  exact ⟨t, _, hr, (sections_never_overlap _ hr).2.2.2⟩

/-- Until the estimate of a resolved guard has passed or its call is released, no guard of
another call resolves: not for an operation that leaves a guard behind. -/
theorem leakedGuard_resolves_late :
    ¬∀ (h : List (Entry (Event (Fin 2)) (Outcome (Fin 2)))) (t : Nat) (world : World (Fin 2)),
      AnyRun (fun _ => 0) h t world → ∀ h₁ x h₂ y h₃ i startedAtMs,
        h = (h₁ ++ x :: h₂) ++ y :: h₃ → x.reply = .resolved i startedAtMs →
        ∀ lease stage, (after (fun _ => 0) (h₁ ++ x :: h₂)).call i = .leased lease stage →
          ¬Released (h₁ ++ x :: h₂) i → y.now + 0 < lease.conservativeExpiresAtMs →
          ∀ j ≠ i, ∀ startedAtMs', y.reply ≠ .resolved j startedAtMs' := by
  intro hall
  obtain ⟨t, hr⟩ := run_leakedGuard
  generalize hh : (play (step fun _ => (0 : Int)) World.init leakedGuard).1 = h at hr
  refine hall h t _ hr (h.take 14) ⟨6, .reply 4, .resolved 0 6⟩ [] ⟨7, .reply 1, .resolved 1 2⟩ [] 0
    6 ?_ rfl { conservativeExpiresAtMs := 60006, timer := some 20005 } .operating ?_ ?_ ?_ 1
    ?_ 2 rfl
  all_goals subst hh
  · rfl
  · rfl
  · decide +kernel
  · decide
  · decide

end Maxim.Moderation.SanctionStateLock
