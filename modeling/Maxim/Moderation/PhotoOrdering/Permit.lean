import Maxim.Moderation.PhotoOrdering.Order

/-!
# The permit latch

The lifetime of a permit is fixed when its record is created. While the record
lives its eligibility can only be withdrawn and its deadline can only come
closer, whatever scripts run and whatever tokens they use. An eligible record
was created by an initial announcement.
-/

namespace Maxim.Moderation.PhotoOrdering

open Maxim.Library

variable {τ : Type}

def Grants (r : Request τ) (job : String) : Prop :=
  ∃ a, r = .announce a ∧ a.jobId = job ∧ a.registration = .initial ∧ a.actionEligible = true

/-- What a script can do to the permit `c` of a job. -/
inductive PermitEffect (now : Nat) (job : String) (r : Request τ) (c c' : Slot Permit) : Prop
  | keeps (same : c' = c)
  | writes (p : Permit) (slot : c' = writePermit now p c) (decided : ∃ b, p.eligible = some b)
      (latched : (content c).bind Permit.eligible = some false → p.eligible = some false)
      (granted : p.eligible = some true → (content c).bind Permit.eligible = some true ∨
        (content c).bind Permit.eligible = none ∧ Grants r job)
      (deadline : ∀ d, (content c).bind Permit.deadlineAtMs = some d →
        ∃ d' ≤ d, p.deadlineAtMs = some d')

theorem announcedEligible_cases (now : Nat) (a : Announce) (s : Scope τ)
    (h : announcedEligible now a s = true) : s.permitEligible a.jobId = some true ∨
      s.permitEligible a.jobId = none ∧ a.registration = .initial ∧ a.actionEligible = true := by
  rw [announcedEligible, Bool.and_eq_true] at h
  cases hp : s.permitEligible a.jobId with
  | none => simpa [hp] using h.1
  | some b =>
    left
    have hb : b = true := by
      simp only [hp, Bool.and_eq_true] at h
      exact h.1.1
    rw [hb]

theorem announcedDeadline_le (now : Nat) (a : Announce) (s : Scope τ) {d : Nat}
    (h : s.permitDeadlineAtMs a.jobId = some d) : announcedDeadline now a s ≤ d := by
  rw [announcedDeadline, h]
  exact Nat.min_le_left _ _

theorem setPermit_permit (s : Scope τ) (now : Nat) (job k : String) (p : Permit) :
    (s.setPermit now job p).permit k =
      if k = job then writePermit now p (s.permit job) else s.permit k := by
  simp only [Scope.setPermit, put_apply]

theorem PermitEffect.of_setPermit {now : Nat} {job₀ job : String} {r : Request τ} {s : Scope τ}
    {p : Permit} (hp : PermitEffect now job₀ r (s.permit job₀) (writePermit now p (s.permit job₀))) :
    PermitEffect now job r (s.permit job) ((s.setPermit now job₀ p).permit job) := by
  rw [setPermit_permit]
  split
  · next hjob =>
    subst hjob
    exact hp
  · exact .keeps rfl

theorem announce_permit (now : Nat) (a : Announce) (s : Scope τ) (job : String) :
    PermitEffect now job (.announce a : Request τ) (s.permit job)
      ((announce now a s).1.permit job) := by
  obtain ⟨-, -, -, hperm⟩ := foldl_forget (scoredUpTo s.queue.expiry now CLEANUP_BATCH_SIZE) s
  generalize hs : (s.cleanup now).cleanupCompleted now = s₁
  have hs₁ : s₁.permit = s.permit := by
    rw [← hs]
    exact hperm
  generalize hp : (⟨some (announcedEligible now a s₁), some ((s₁.permitAdmittedAtMs a.jobId).getD now),
    some (announcedDeadline now a s₁)⟩ : Permit) = p
  have hfinal : (announce now a s).1.permit = (s₁.setPermit now a.jobId p).permit := by
    subst hp
    simp only [announce, hs]
    split
    · rfl
    split
    · rfl
    split <;> rfl
  rw [hfinal, ← hs₁]
  apply PermitEffect.of_setPermit
  subst hp
  refine .writes _ rfl ⟨_, rfl⟩ ?_ ?_ ?_
  · intro hfalse
    cases he : announcedEligible now a s₁ with
    | false => rfl
    | true =>
      change s₁.permitEligible a.jobId = some false at hfalse
      rcases announcedEligible_cases now a s₁ he with h | ⟨h, -⟩ <;> simp [hfalse] at h
  · intro htrue
    rcases announcedEligible_cases now a s₁ (Option.some.inj htrue) with h | ⟨h, hi, ha⟩
    · exact .inl h
    · exact .inr ⟨h, a, rfl, rfl, hi, ha⟩
  · exact fun d hd => ⟨_, announcedDeadline_le now a s₁ hd, rfl⟩

theorem PermitEffect.withdraw {now : Nat} {job : String} {r : Request τ} {c : Slot Permit}
    {adm dl : Option Nat} (hdl : ∀ d, (content c).bind Permit.deadlineAtMs = some d → dl = some d) :
    PermitEffect now job r c (writePermit now ⟨some false, adm, dl⟩ c) :=
  .writes _ rfl ⟨_, rfl⟩ (fun _ => rfl) (by simp) fun d hd => ⟨d, Nat.le_refl d, hdl d hd⟩

variable [DecidableEq τ]

theorem step_permit (now : Nat) (r : Request τ) (s : Scope τ) (job : String) :
    PermitEffect now job r ((s.purge now).permit job) ((step now r s).1.permit job) := by
  generalize hq : s.purge now = q
  cases r with
  | announce a =>
    simp only [step, hq]
    exact announce_permit now a q job
  | claim job' token dl =>
    obtain ⟨-, -, -, hperm⟩ := foldl_forget (scoredUpTo q.queue.expiry now CLEANUP_BATCH_SIZE) q
    have hclean : (q.cleanup now).permit = q.permit := hperm
    simp only [step, hq, claimTurn]
    apply PermitEffect.keeps
    rw [← hclean]
    split
    · rw [hclean]
    split
    · rfl
    split
    · rfl
    split
    · rfl
    split
    · rfl
    split <;> rfl
  | resolve job' token =>
    simp only [step, hq, resolveActionEligibility]
    split <;> exact .keeps rfl
  | read job' =>
    simp only [step, hq]
    exact .keeps rfl
  | revoke job' dl =>
    simp only [step, hq, revokeActionEligibility]
    refine .of_setPermit (.withdraw fun d hd => ?_)
    change q.permitDeadlineAtMs job' = some d at hd
    rw [hd, Option.getD_some]
  | postpone job' next kind =>
    simp only [step, hq, postpone]
    split
    · exact .keeps rfl
    · split <;> exact .keeps rfl
  | renew token =>
    simp only [step, hq, renewTurn]
    split <;> exact .keeps rfl
  | complete job' token =>
    simp only [step, hq, completeTurn]
    split
    · exact .keeps rfl
    · rw [(nextTurn_frame now _).2.2.2.1]
      exact .keeps rfl
  | release job' token =>
    simp only [step, hq, releaseTurn]
    split <;> exact .keeps rfl
  | abandon job' =>
    simp only [step, hq, abandon]
    rw [(nextTurn_frame now _).2.2.2.1]
    exact .of_setPermit (s := { q with queue := q.queue.dequeue job' }) (.withdraw fun d hd => hd)

/-! ## Runs -/

variable {ok : List (Record τ) → Nat → Request τ → Prop}

/-- The record with expiry `x` was created by an initial announcement that may grant the permit. -/
def Minted (ok : List (Record τ) → Nat → Request τ → Prop) (h : List (Record τ)) (job : String)
    (x : Nat) : Prop :=
  ∃ pre e post t₁ s₁, h = pre ++ [e] ++ post ∧ Run step ok Scope.empty pre t₁ s₁ ∧
    (s₁.purge e.now).permit job = none ∧ Grants e.request job ∧ x = e.now + AUTHORITY_TTL_MS

/-- A permit record decides the eligibility, has a lifetime, and is eligible only if minted. -/
def PermitInv (ok : List (Record τ) → Nat → Request τ → Prop) (h : List (Record τ))
    (s : Scope τ) : Prop :=
  ∀ job c, s.permit job = some c → (∃ b, c.value.eligible = some b) ∧
    ∃ x, c.expiresAt = some x ∧ (c.value.eligible = some true → Minted ok h job x)

theorem Minted.append {h : List (Record τ)} {job : String} {x : Nat} (hm : Minted ok h job x)
    (e : Record τ) : Minted ok (h ++ [e]) job x := by
  obtain ⟨pre, e₀, post, t₁, s₁, rfl, hrest⟩ := hm
  exact ⟨pre, e₀, post ++ [e], t₁, s₁, by simp, hrest⟩

theorem permit_invariant {h : List (Record τ)} {t : Nat} {s : Scope τ}
    (hr : Run step ok Scope.empty h t s) : PermitInv ok h s := by
  induction hr with
  | nil => intro job c hc; simp [Scope.empty] at hc
  | @snoc h t s now r hr hle hok ih =>
    intro job c hc
    have hpre : ∀ c, (s.purge now).permit job = some c → s.permit job = some c :=
      fun c hc => (purge_eq_some.mp hc).1
    cases step_permit now r s job with
    | keeps same =>
      rw [hc] at same
      obtain ⟨hb, x, hx, hm⟩ := ih job c (hpre c same.symm)
      exact ⟨hb, x, hx, fun ht => (hm ht).append _⟩
    | writes p slot decided latched granted deadline =>
      rw [slot, writePermit, cell, Option.some.injEq] at hc
      subst hc
      refine ⟨decided, _, rfl, fun ht => ?_⟩
      cases hold : (s.purge now).permit job with
      | none =>
        rcases granted ht with hprev | ⟨-, hgrant⟩
        · simp [hold] at hprev
        · exact ⟨h, ⟨now, r, (step now r s).2⟩, [], t, s, by simp, hr, hold, hgrant, rfl⟩
      | some c₀ =>
        obtain ⟨⟨b, hb⟩, x, hx, hm⟩ := ih job c₀ (hpre c₀ hold)
        rcases granted ht with hprev | ⟨hprev, -⟩
        · have hexp : (expiry (some c₀)).getD (now + AUTHORITY_TTL_MS) = x := by
            simp [expiry, hx]
          rw [hexp]
          rw [hold] at hprev
          exact (hm hprev).append _
        · rw [hold] at hprev
          simp [hb] at hprev

/-- `c'` is the same record as `c`, at most as permissive. -/
structure Tightened (x : Nat) (p : Permit) (c' : Cell Permit) : Prop where
  lifetime : c'.expiresAt = some x
  latched : p.eligible = some false → c'.value.eligible = some false
  deadline : ∀ d, p.deadlineAtMs = some d → ∃ d' ≤ d, c'.value.deadlineAtMs = some d'

theorem Tightened.step {x now : Nat} {p : Permit} {c' : Cell Permit} (h : Tightened x p c')
    {s : Scope τ} {job : String} {r : Request τ} (hs : s.permit job = some c') (hle : now ≤ x) :
    ∃ c'', (PhotoOrdering.step now r s).1.permit job = some c'' ∧ Tightened x p c'' := by
  have hlive : (s.purge now).permit job = some c' := by
    change purge now (s.permit job) = some c'
    rw [hs]
    exact purge_some_of_live (by simp [Cell.live, h.lifetime, hle])
  have he := step_permit now r s job
  rw [hlive] at he
  cases he with
  | keeps same => exact ⟨c', same, h⟩
  | writes q slot decided latched granted deadline =>
    refine ⟨_, slot, by simp [expiry, h.lifetime], fun hp => latched ?_, fun d hd => ?_⟩
    · exact h.latched hp
    · obtain ⟨d', hd', hc'⟩ := h.deadline d hd
      obtain ⟨d'', hd'', hq⟩ := deadline d' hc'
      exact ⟨d'', Nat.le_trans hd'' hd', hq⟩

/-- Until the expiry of a permit record, the record stays, a withdrawn eligibility stays withdrawn
and the deadline does not increase; and an eligible record was created by an initial announcement
that found none. No promise about the requests is used. -/
theorem permit_latch {pre post : List (Record τ)} {t₁ t : Nat} {s₁ s : Scope τ}
    (hpre : Run step ok Scope.empty pre t₁ s₁) (hr : Run step ok Scope.empty (pre ++ post) t s) :
    (∀ job c x, s₁.permit job = some c → c.expiresAt = some x → t ≤ x →
      ∃ c', s.permit job = some c' ∧ Tightened x c.value c') ∧
    (∀ job c, s.permit job = some c → c.value.eligible = some true →
      ∃ x, c.expiresAt = some x ∧ Minted ok (pre ++ post) job x) := by
  constructor
  · intro job c x hc hx ht
    refine hr.since (fun _ t s => t ≤ x → ∃ c', s.permit job = some c' ∧ Tightened x c.value c')
      ?_ ?_ ?_ ht
    · intro t s hr' _
      rw [(hpre.unique hr').2]
      exact ⟨c, hc, hx, fun h => h, fun d hd => ⟨d, Nat.le_refl d, hd⟩⟩
    · exact fun _ t t' s hq hle hle' => hq (Nat.le_trans hle hle')
    · intro h t₀ t s r _ _ hq _ hle
      obtain ⟨c', hc', htight⟩ := hq hle
      exact htight.step hc' hle
  · intro job c hc ht
    obtain ⟨-, x, hx, hm⟩ := permit_invariant hr job c hc
    exact ⟨x, hx, hm ht⟩

/-- A redelivered initial announcement does not restore a revoked permit. -/
theorem permit_latch_revoked :
    ∃ (h : List (Record Nat)) (t : Nat) (s : Scope Nat),
      Run step (fun _ _ _ => True) Scope.empty h t s ∧
      h.map (·.reply) = [.registered (toLex (1, "a")) true 100 600100, .revoked,
        .registered (toLex (1, "a")) false 100 600100] ∧
      ∃ c, s.permit "a" = some c ∧ c.value.eligible = some false := by
  have hpre : Run (step (τ := Nat)) (fun _ _ _ => True) Scope.empty _ _ _ :=
    .snoc 200 (.revoke "a" 800000)
      (.snoc 100 (.announce ⟨"a", 20, 700000, true, .initial⟩) .nil (by decide) trivial)
      (by decide) trivial
  have hr := Run.snoc 300 (.announce ⟨"a", 20, 900000, true, .initial⟩) hpre (by decide) trivial
  obtain ⟨c, hc, htight⟩ := (permit_latch hpre hr).1 "a" _ _ rfl rfl (by decide)
  exact ⟨_, _, _, hr, by decide, c, hc, htight.latched rfl⟩

end Maxim.Moderation.PhotoOrdering
