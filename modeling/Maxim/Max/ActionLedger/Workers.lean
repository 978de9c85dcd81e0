import Maxim.Max.ActionLedger.Performs

/-!
# Workers over one ledger

Any number of workers run the calls of the ledger; their operations interleave
in any order. A step shows the operation with its answer and the result of a
call that ends.
-/

namespace Maxim.Max.ActionLedger

open Maxim.Library

def Call.job? : Call → Option Job
  | .prepareRetry _ _ _ _ _ _ => none
  | .assertCanEnqueue job | .assertCanExecute job | .recordEnqueuedIfAbsent job _ _
  | .recordEnqueueFailedIfAbsent job _ | .recordEnqueueAmbiguousIfAbsent job _ _
  | .recordStarted job _ _ _ | .recordPrepared job | .recordSucceeded job _
  | .recordSkipped job _ _ | .claimSendDispatch job _ _ _ | .completeSendDispatch job _ _ _ _ _
  | .releaseSendDispatch job _ | .recordAmbiguousSendDispatch job _ _ _
  | .recordFailed job _ _ _ => some job

abbrev Workers (ω : Type) := Pool ω Call Op Op.Answer Thrown Result Ledger

abbrev Record (ω : Type) := PoolEntry ω Call Op Op.Answer Thrown Result

abbrev step {ω : Type} [DecidableEq ω] (now : Nat) (m : Move ω Call) (p : Workers ω) :
    Workers ω × Option (Shown Call Op Op.Answer Thrown Result) :=
  Pool.step Op.run Call.program now m p

variable {ω : Type}

def granted (x : Record ω) : Option Grant :=
  x.reply.bind fun shown => shown.result.bind shown.call.grant

def answered (x : Record ω) : Option Answered := x.reply.bind Shown.op

def Grant.jobId : Grant → String
  | .send jobId _ => jobId
  | .member job => job.idempotencyKey

inductive Touches (C : Call → Prop) (jobId : String) (l l' : Ledger) (x : Record ω) : Prop
  | other (row : l'.lookup jobId = l.lookup jobId)
    (grants : ∀ g, granted x = some g → g.jobId ≠ jobId)
    (answers : ∀ a, answered x = some a → a.1.key ≠ jobId)
  | own (i : Call) (a : Answered) (accepted : C i) (performs : Performs i a.1)
    (key : a.1.key = jobId) (run : l' = (a.1.run l).1) (reply : a.2 = (a.1.run l).2)
    (row : a.Rewrites (l.lookup jobId) (l'.lookup jobId))
    (calls : x.reply.map Shown.call = some i) (answers : answered x = some a)
    (grants : granted x = a.grant)

theorem Answered.key_of_grant {a : Answered} {g : Grant} (h : a.grant = some g) :
    a.1.key = g.jobId := by
  obtain ⟨op, r⟩ := a
  cases op with
  | claim =>
    cases r with
    | true => exact Option.some.inj h ▸ rfl
    | false => simp [Answered.grant] at h
  | startMember =>
    cases r with
    | started => exact Option.some.inj h ▸ rfl
    | _ => simp [Answered.grant] at h
  | _ => simp [Answered.grant] at h

theorem start_grants_nothing (i : Call) : i.program.result?.bind i.grant = none := by
  cases i with
  | claimSendDispatch job botId first second =>
    simp only [Call.program, claimSendDispatch, assertSendAction]
    split
    · simp only [Prog.bind]
      split <;> rfl
    · rfl
  | recordStarted job enqueuedAt now held =>
    simp only [Call.program, recordStarted]
    split
    · rfl
    · split
      · split <;> rfl
      · rfl
  | _ => exact Option.bind_eq_none_iff.mpr fun _ _ => rfl

/-- The effect of a step, for the calls that `C` accepts. -/
abbrev Effect (C : Call → Prop) (l l' : Ledger) (x : Record ω) : Prop :=
  Pool.Effect Op.run Call.program C Performs Answers l l' x.reply

theorem touches {C : Call → Prop} {l l' : Ledger} {x : Record ω}
    (h : Effect C l l' x) (jobId : String) :
    Touches C jobId l l' x := by
  obtain ⟨now, m, reply⟩ := x
  cases h with
  | idle store => exact .other (by rw [store]) (by simp [granted]) (by simp [answered])
  | starts i store =>
    refine .other (by rw [store]) (fun g hg => ?_) (by simp [answered])
    exact absurd ((start_grants_nothing i).symm.trans hg) (by simp)
  | performs i op result store accepted performs answer =>
    have hgrant : granted (⟨now, m, some ⟨i, some ⟨op, (op.run l).2⟩, result⟩⟩ : Record ω) =
        Answered.grant ⟨op, (op.run l).2⟩ := answer.symm
    by_cases hkey : op.key = jobId
    · subst hkey
      refine .own i ⟨op, (op.run l).2⟩ accepted performs rfl store rfl ?_ rfl rfl hgrant
      rw [store]
      exact op.run_rewrites l
    · refine .other ?_ (fun g hg => ?_) ?_
      · rw [store]
        exact op.run_lookup_ne l (Ne.symm hkey)
      · rw [hgrant] at hg
        exact Answered.key_of_grant hg ▸ hkey
      · rintro a ha
        obtain rfl := Option.some.inj ha
        exact hkey

variable [DecidableEq ω] {ok : List (Record ω) → Nat → Move ω Call → Prop} {C : Call → Prop}
  {l₀ : Ledger}

theorem run_snoc (hok : ∀ h t w i, ok h t (.call w i) → C i) {h : List (Record ω)} {x : Record ω}
    {t : Nat} {p : Workers ω} (hr : Run step ok (Pool.start l₀) (h ++ [x]) t p) :
    ∃ t₁ p₁, Run step ok (Pool.start l₀) h t₁ p₁ ∧ p = (step x.now x.request p₁).1 ∧
      Effect C p₁.store p.store x := by
  obtain ⟨t₁, p₁, hr₁, -, hx, -, hrep, rfl⟩ := hr.snoc_inv
  have he := Pool.run_effect (fun i _ => program_sound i) hok hr₁ x.now hx
  rw [← hrep] at he
  exact ⟨t₁, p₁, hr₁, rfl, he⟩

end Maxim.Max.ActionLedger
