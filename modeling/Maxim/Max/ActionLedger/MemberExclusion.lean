import Maxim.Max.ActionLedger.Workers

/-!
# Exclusion of member actions

A crash-fenced member action starts in one transaction, which looks at every
other row of the chat and the user. A row becomes `IN_PROGRESS` in no other
way, so at most one of them is.
-/

namespace Maxim.Max.ActionLedger

open Maxim.Library

variable {ω : Type}

/-- A crash-fenced member action that has started and has no outcome yet. -/
def Row.Active (row : Row) : Prop := row.actionType.crashFenced = true ∧ row.status = .inProgress

def Ledger.Exclusive (l : Ledger) : Prop :=
  ∀ k k' row row', l.lookup k = some row → l.lookup k' = some row' → row.Active → row'.Active →
    row.chatId = row'.chatId → row.userId = row'.userId → k = k'

/-- What a row promises: it has the action type of its job, and its status does not say more than
its flag. -/
structure RowOk (kind : String → ActionType) (jobId : String) (row : Row) : Prop where
  kind : row.actionType = kind jobId
  flagged : row.status = .ambiguous → row.ambiguous = true

/-- The ledger when a member action may start. -/
structure Startable (l : Ledger) (job : Job) : Prop where
  others : ∀ k row, l.lookup k = some row → k ≠ job.idempotencyKey → row.chatId = job.chatId →
    row.userId = job.userId → row.actionType.crashFenced = true →
    row.status ≠ .inProgress ∧ row.ambiguous = false ∧
      (row.actionType = .banMember → row.status = .succeeded → job.actionType = .tryUnbanMember)
  own : ∀ row, l.lookup job.idempotencyKey = some row →
    row.status ≠ .inProgress ∧ row.status ≠ .ambiguous ∧ row.ambiguous = false

/-- The callers give every job of a key the same action type, and trimmed ids. -/
def Accepted (kind : String → ActionType) (i : Call) : Prop :=
  ∀ job, i.job? = some job → job.actionType = kind job.idempotencyKey ∧
    ∀ userId, job.userId = some userId → trim userId = userId

/-! ## Starts -/

theorem Answered.eq_of_grant_member {a : Answered} {job : Job} (h : a.grant = some (.member job)) :
    ∃ m held, a = ⟨.startMember job m held, .started⟩ := by
  obtain ⟨op, r⟩ := a
  cases op with
  | startMember job' m held =>
    cases r with
    | started =>
      obtain rfl := Grant.member.inj (Option.some.inj h)
      exact ⟨m, held, rfl⟩
    | _ => simp [Answered.grant] at h
  | claim => cases ‹Bool› <;> simp [Answered.grant] at h
  | _ => simp [Answered.grant] at h

theorem guard_member {row : Row} (h : StartKind.guard .member row = true) :
    row.status ≠ .inProgress ∧ row.status ≠ .ambiguous ∧ row.ambiguous = false := by
  simp only [StartKind.guard, StartKind.executable, Row.unsettled, Bool.and_eq_true,
    Bool.or_eq_true, beq_iff_eq, Bool.not_eq_true'] at h
  obtain ⟨hs, hu, -⟩ := h
  refine ⟨?_, ?_, hu⟩
  · rcases hs with hs | ⟨hs, -⟩ <;> simp [hs]
  · rcases hs with hs | ⟨hs, -⟩ <;> simp [hs]

theorem startable_of_grant {l : Ledger} {a : Answered} {job : Job} (hreply : a.2 = (a.1.run l).2)
    (h : a.grant = some (.member job)) : Startable l job := by
  obtain ⟨m, held, rfl⟩ := Answered.eq_of_grant_member h
  rcases l.startMember_cases job m held with ⟨-, hne⟩ | ⟨-, hfree, row, -, hrow⟩
  · exact absurd hreply.symm hne
  · refine ⟨fun k other hother hk hchat huser hfenced => ?_, fun old hold => ?_⟩
    · rw [List.any_eq_false] at hfree
      have hnot := hfree ⟨k, other⟩ (AList.mem_lookup_iff.mp hother)
      simp only [Row.blocks, hchat, huser, hfenced, beq_self_eq_true, Bool.true_and,
        Bool.and_eq_true, Bool.or_eq_true, bne_iff_ne, beq_iff_eq, not_and, not_or] at hnot
      obtain ⟨⟨hs, ha⟩, hb⟩ := hnot ⟨hk, trivial⟩
      refine ⟨hs, Bool.eq_false_iff.mpr ha, fun hban hsucc => ?_⟩
      by_contra hun
      exact hb ⟨hun, hban⟩ hsucc
    · rcases hrow with ⟨hnone, -⟩ | ⟨old', m', hold', -, hguard, -⟩
      · cases hnone.symm.trans hold
      · obtain rfl := Option.some.inj (hold'.symm.trans hold)
        exact guard_member hguard

/-! ## Writes -/

/-- The job and the mutation of an operation that writes one. -/
def Op.writes : Op → Option (Job × Mutation)
  | .createIfAbsent job m | .createStarted job m | .startFirst _ job m | .startAgain _ job m
  | .startMember job m _ | .succeed job m | .settleFailure job m | .enqueueState job _ m
  | .upsert job m => some (job, m)
  | _ => none

/-- A mutation with the status `AMBIGUOUS` sets the flag, and one with the status `IN_PROGRESS`
is a start: of a member action in its transaction, or of another action. -/
structure WritesOk (i : Call) (op : Op) (job : Job) (m : Mutation) : Prop where
  caller : i.job? = some job
  flagged : m.status = .ambiguous → m.ambiguous = true
  starts : m.status = .inProgress → job.actionType.crashFenced = false ∨
    ∃ held, op = .startMember job m held ∧ trim (job.userId.getD "") ≠ ""

theorem failedMutation_flagged (job : Job) (e : Failure) (exhausted : Bool) (now : Nat) :
    (failedMutation job e exhausted now).status = .ambiguous →
      (failedMutation job e exhausted now).ambiguous = true := by
  intro h
  simp only [failedMutation] at h ⊢
  split at h
  · assumption
  · split at h <;> cases h

theorem failedMutation_status (job : Job) (e : Failure) (exhausted : Bool) (now : Nat) :
    (failedMutation job e exhausted now).status ≠ .inProgress := by
  simp only [failedMutation]
  split
  · simp
  · split <;> simp

theorem Performs.writesOk {i : Call} {op : Op} (h : Performs i op) {job : Job} {m : Mutation}
    (hop : op.writes = some (job, m)) : WritesOk i op job m := by
  cases h with
  | checkEnqueue _ _ h | checkExecute _ _ h | startChecks _ _ _ _ _ h => cases h <;> cases hop
  | failCreates | failSettles | failUpserts =>
    cases hop
    exact ⟨rfl, failedMutation_flagged _ _ _ _, fun hs => absurd hs (failedMutation_status _ _ _ _)⟩
  | startMember job enqueuedAt now held hjob huser hchat =>
    cases hop
    exact ⟨rfl, nofun, fun _ => .inr ⟨held, rfl, huser⟩⟩
  | startFirst _ _ _ _ _ hjob | startAgain _ _ _ _ _ hjob | startPlain _ _ _ _ hjob =>
    cases hop
    exact ⟨rfl, nofun, fun _ => .inl hjob⟩
  | startSend _ _ _ _ hjob =>
    cases hop
    exact ⟨rfl, nofun, fun _ => .inl (by rw [hjob]; rfl)⟩
  | enqueueCreates | enqueueAgain | enqueueFails | succeedCreates | succeeds | succeedUpserts
  | skips =>
    cases hop
    exact ⟨rfl, nofun, nofun⟩
  | enqueueUnknown | enqueueUnknownAgain =>
    cases hop
    exact ⟨rfl, fun _ => rfl, nofun⟩
  | _ => cases hop

section Rows

variable {kind : String → ActionType} {i : Call} {jobId : String}

theorem RowOk.of_writes {op : Op} {job : Job} {m : Mutation} {row : Row} (hi : Accepted kind i)
    (hw : WritesOk i op job m) (hkey : job.idempotencyKey = jobId)
    (hrow : row.actionType = job.actionType ∧ row.status = m.status ∧ row.ambiguous = m.ambiguous) :
    RowOk kind jobId row := by
  obtain ⟨htype, hstatus, hambiguous⟩ := hrow
  refine ⟨?_, fun hs => ?_⟩
  · rw [htype, ← hkey]
    exact (hi job hw.caller).1
  · rw [hambiguous]
    exact hw.flagged (hstatus ▸ hs)

theorem Row.Active.of_writes {op : Op} {job : Job} {m : Mutation} {row : Row}
    (hw : WritesOk i op job m)
    (hrow : row.actionType = job.actionType ∧ row.status = m.status ∧ row.ambiguous = m.ambiguous)
    (hactive : row.Active) :
    ∃ held, op = .startMember job m held ∧ trim (job.userId.getD "") ≠ "" := by
  obtain ⟨htype, hstatus, -⟩ := hrow
  obtain ⟨hfenced, hprogress⟩ := hactive
  rcases hw.starts (hstatus ▸ hprogress) with hplain | hstart
  · rw [htype, hplain] at hfenced
    cases hfenced
  · exact hstart

theorem RowOk.not_active_of_send {row : Row} (h : row.actionType = .sendMessage) :
    ¬row.Active := by
  rintro ⟨hfenced, -⟩
  rw [h] at hfenced
  cases hfenced

theorem Op.writes_of_creates {op : Op} {job : Job} {m : Mutation}
    (h : op.creates = some (job, m)) : op.writes = some (job, m) ∧ op.key = job.idempotencyKey := by
  cases op with
  | createIfAbsent | createStarted | startMember | upsert =>
    obtain ⟨rfl, rfl⟩ := Prod.mk.inj (Option.some.inj h)
    exact ⟨rfl, rfl⟩
  | _ => cases h

theorem Op.writes_of_starts {op : Op} {kind : StartKind} {job : Job} {m : Mutation}
    (h : op.starts = some (kind, job, m)) :
    op.writes = some (job, m) ∧ op.key = job.idempotencyKey := by
  cases op with
  | startFirst | startAgain | startMember =>
    obtain ⟨rfl, rfl, rfl⟩ := by simpa [Op.starts] using h
    exact ⟨rfl, rfl⟩
  | _ => cases h

/-- The operations that follow the check that the action is a send. -/
def Op.sendOnly : Op → Bool
  | .prepare _ | .claim _ _ _ _ | .complete _ _ _ _ _ | .release _ _ | .quarantine _ _ _ _ => true
  | _ => false

theorem Performs.kind_of_sendOnly {op : Op} (h : Performs i op) (hi : Accepted kind i)
    (hop : op.sendOnly = true) (hkey : op.key = jobId) : kind jobId = .sendMessage := by
  have hjob : ∃ job, i.job? = some job ∧ op.key = job.idempotencyKey ∧
      job.actionType = .sendMessage := by
    cases h with
    | checkEnqueue _ _ h | checkExecute _ _ h | startChecks _ _ _ _ _ h => cases h <;> cases hop
    | prepares job hjob => exact ⟨job, rfl, rfl, hjob⟩
    | claims job _ _ _ _ _ _ hjob => exact ⟨job, rfl, rfl, hjob⟩
    | claimQuarantines job _ _ _ _ _ _ hjob => exact ⟨job, rfl, rfl, hjob⟩
    | completes job _ _ _ _ _ _ _ hjob => exact ⟨job, rfl, rfl, hjob⟩
    | releases job _ _ hjob => exact ⟨job, rfl, rfl, hjob⟩
    | quarantines job _ _ _ _ hjob => exact ⟨job, rfl, rfl, hjob⟩
    | _ => cases hop
  obtain ⟨job, hcaller, hk, hsend⟩ := hjob
  rw [← hkey, hk, ← (hi job hcaller).1, hsend]

theorem nullableString_userId {job : Job} (hi : ∀ userId, job.userId = some userId → trim userId = userId)
    (h : trim (job.userId.getD "") ≠ "") : nullableString job.userId = job.userId := by
  cases hu : job.userId with
  | none => rfl
  | some userId =>
    have ht := hi userId hu
    rw [hu, Option.getD_some, ht] at h
    exact nullableString_of_trimmed ht h

/-- What an operation leaves in the row of its job: an active row is the old one, or the operation
has just started the job. -/
structure RowStep (kind : String → ActionType) (jobId : String) (a : Answered) (o : Option Row)
    (row : Row) : Prop where
  ok : RowOk kind jobId row
  active : row.Active → o = some row ∨ ∃ job, a.grant = some (.member job) ∧
    job.idempotencyKey = jobId ∧ row.chatId = job.chatId ∧ row.userId = job.userId

theorem RowStep.of_writes {a : Answered} {o : Option Row} {job : Job} {m : Mutation} {row : Row}
    (hi : Accepted kind i) (hp : Performs i a.1) (hop : a.1.writes = some (job, m))
    (hkey : a.1.key = jobId) (hjob : a.1.key = job.idempotencyKey)
    (hgrant : ∀ held, a.1 = .startMember job m held → a.grant = some (.member job))
    (hrow : row.actionType = job.actionType ∧ row.status = m.status ∧ row.ambiguous = m.ambiguous)
    (hpair : row.chatId = job.chatId ∧ row.userId = nullableString job.userId) :
    RowStep kind jobId a o row := by
  have hw := hp.writesOk hop
  have hk : job.idempotencyKey = jobId := hjob.symm.trans hkey
  refine ⟨.of_writes hi hw hk hrow, fun hactive => .inr ?_⟩
  obtain ⟨held, hstart, huser⟩ := Row.Active.of_writes hw hrow hactive
  refine ⟨job, hgrant held hstart, hk, hpair.1, hpair.2.trans ?_⟩
  exact nullableString_userId (hi job hw.caller).2 huser

theorem RowStep.of_send {a : Answered} {o : Option Row} {row : Row}
    (hkind : kind jobId = .sendMessage) (hrow : row.actionType = kind jobId)
    (hflag : row.status = .ambiguous → row.ambiguous = true) : RowStep kind jobId a o row :=
  ⟨⟨hrow, hflag⟩, fun hactive => absurd hactive (RowOk.not_active_of_send (hrow.trans hkind))⟩

theorem row_step (hi : Accepted kind i) {a : Answered} (hp : Performs i a.1)
    {o o' : Option Row} (ha : a.Rewrites o o') (hkey : a.1.key = jobId)
    (hold : ∀ row, o = some row → RowOk kind jobId row) {row' : Row} (ho' : o' = some row') :
    RowStep kind jobId a o row' := by
  cases ha with
  | same => exact ⟨hold row' ho', fun _ => .inl ho'⟩
  | creates _ job m n hx hgrant =>
    obtain rfl := Option.some.inj ho'
    obtain ⟨hop, hjob⟩ := Op.writes_of_creates hx
    exact .of_writes hi hp hop hkey hjob hgrant ⟨rfl, rfl, rfl⟩ ⟨rfl, rfl⟩
  | starts _ startKind job m m' row hx hm hgrant =>
    obtain rfl := Option.some.inj ho'
    obtain ⟨hop, hjob⟩ := Op.writes_of_starts hx
    refine .of_writes hi hp hop hkey hjob hgrant ?_ ⟨rfl, rfl⟩
    rcases hm with rfl | rfl <;> exact ⟨rfl, rfl, rfl⟩
  | prepares job r row =>
    obtain rfl := Option.some.inj ho'
    have hkind := hp.kind_of_sendOnly hi rfl hkey
    have hjob : job.actionType = .sendMessage := by
      cases hp with
      | prepares _ hjob => exact hjob
      | checkEnqueue _ _ h | checkExecute _ _ h | startChecks _ _ _ _ _ h => cases h
    exact .of_send hkind (hjob.trans hkind.symm) (hold row rfl).flagged
  | claims j token t b row =>
    obtain rfl := Option.some.inj ho'
    exact .of_send (hp.kind_of_sendOnly hi rfl hkey) (hold row rfl).kind (hold row rfl).flagged
  | completes j token remote t fault r row | releases j token row =>
    obtain rfl := Option.some.inj ho'
    exact .of_send (hp.kind_of_sendOnly hi rfl hkey) (hold row rfl).kind nofun
  | quarantines j token e t r row =>
    obtain rfl := Option.some.inj ho'
    exact .of_send (hp.kind_of_sendOnly hi rfl hkey) (hold row rfl).kind fun _ => rfl
  | succeeds job m | settles job m | enqueues job _ m | upserts job m =>
    obtain rfl := Option.some.inj ho'
    exact .of_writes hi hp rfl hkey rfl nofun ⟨rfl, rfl, rfl⟩ ⟨rfl, rfl⟩
  | clears => cases ho'
  | retries r b row hrow =>
    obtain rfl := Option.some.inj ho'
    have hsend : row.actionType = .sendMessage := by
      simp only [NightModeRetry.applies, Bool.and_eq_true, beq_iff_eq] at hrow
      exact hrow.1.1.1.1.1.1
    exact .of_send ((hold row rfl).kind.symm.trans hsend) (hold row rfl).kind nofun

end Rows

/-! ## Runs -/

/-- Every row keeps its promise, and no two jobs of one pair are active. -/
structure Excluded (kind : String → ActionType) (l : Ledger) : Prop where
  rows : ∀ k row, l.lookup k = some row → RowOk kind k row
  exclusive : l.Exclusive

theorem excluded_empty (kind : String → ActionType) : Excluded kind ∅ :=
  ⟨fun k row h => by simp at h, fun k k' row row' h => by simp at h⟩

theorem touches_row {kind : String → ActionType} {k : String} {l l' : Ledger} {x : Record ω}
    (hx : Touches (Accepted kind) k l l' x) (hl : Excluded kind l) {row : Row}
    (hrow : l'.lookup k = some row) : RowOk kind k row ∧ (row.Active → l.lookup k = some row ∨
      ∃ job, job.idempotencyKey = k ∧ row.chatId = job.chatId ∧ row.userId = job.userId ∧
        Startable l job ∧ granted x = some (.member job)) := by
  cases hx with
  | other hsame => exact ⟨hl.rows k row (hsame ▸ hrow), fun _ => .inl (hsame ▸ hrow)⟩
  | own i a accepted performs key run reply rewrites calls answers grants =>
    obtain ⟨hok, hactive⟩ := row_step accepted performs rewrites key (hl.rows k) hrow
    refine ⟨hok, fun h => (hactive h).imp_right ?_⟩
    rintro ⟨job, hgrant, hjob, hchat, huser⟩
    exact ⟨job, hjob, hchat, huser, startable_of_grant reply hgrant, grants.trans hgrant⟩

theorem Startable.not_active {l : Ledger} {job : Job} (h : Startable l job) {k : String} {row : Row}
    (hk : k ≠ job.idempotencyKey) (hrow : l.lookup k = some row) (hchat : row.chatId = job.chatId)
    (huser : row.userId = job.userId) : ¬row.Active := by
  rintro ⟨hfenced, hprogress⟩
  exact (h.others k row hrow hk hchat huser hfenced).1 hprogress

theorem Excluded.step {kind : String → ActionType} {l l' : Ledger} {x : Record ω}
    (hl : Excluded kind l) (he : Effect (Accepted kind) l l' x) : Excluded kind l' := by
  refine ⟨fun k row hrow => (touches_row (touches he k) hl hrow).1, ?_⟩
  intro k k' row row' hrow hrow' ha ha' hchat huser
  rcases (touches_row (touches he k) hl hrow).2 ha with
    hold | ⟨job, rfl, hjchat, hjuser, hstart, hgrant⟩ <;>
  rcases (touches_row (touches he k') hl hrow').2 ha' with
    hold' | ⟨job', rfl, hjchat', hjuser', hstart', hgrant'⟩
  · exact hl.exclusive k k' row row' hold hold' ha ha' hchat huser
  · by_contra hne
    exact hstart'.not_active hne hold (hchat.trans hjchat') (huser.trans hjuser') ha
  · by_contra hne
    exact hstart.not_active (Ne.symm hne) hold' (hchat.symm.trans hjchat)
      (huser.symm.trans hjuser) ha'
  · rw [Grant.member.inj (Option.some.inj (hgrant.symm.trans hgrant'))]

theorem startable_of_granted {C : Call → Prop} {l l' : Ledger} {x : Record ω} {job : Job}
    (he : Effect C l l' x) (hx : granted x = some (.member job)) : Startable l job := by
  cases touches he job.idempotencyKey with
  | other row grants => exact absurd rfl (grants _ hx)
  | own i a accepted performs key run reply row calls answers grants =>
    exact startable_of_grant reply (grants.symm.trans hx)

variable [DecidableEq ω] {ok : List (Record ω) → Nat → Move ω Call → Prop}
  {kind : String → ActionType}

/-- In every run: no two jobs of one chat and one user are active, and a crash-fenced member action
starts only when no other one of the pair is in progress, of unknown outcome or, unless it is the
attempt to unban, a ban that succeeded; it never starts again from `IN_PROGRESS` or `AMBIGUOUS`. -/
theorem member_exclusion (hok : ∀ h t w i, ok h t (.call w i) → Accepted kind i)
    {h : List (Record ω)} {t : Nat} {p : Workers ω}
    (hr : Run step ok (Pool.start ∅) h t p) :
    p.store.Exclusive ∧ ∀ pre x post job, h = pre ++ [x] ++ post →
      granted x = some (.member job) → ∃ t₁ p₁,
        Run step ok (Pool.start ∅) pre t₁ p₁ ∧ Startable p₁.store job := by
  have hinv : Excluded kind p.store :=
    Pool.run_invariant (fun _ l => Excluded kind l) (fun i _ => program_sound i) hok
      (excluded_empty kind) (fun _ _ _ _ hl he => hl.step he) hr
  refine ⟨hinv.exclusive, ?_⟩
  rintro pre x post job rfl hx
  obtain ⟨t', p', hr', -⟩ := hr.of_append
  obtain ⟨t₁, p₁, hr₁, rfl, he⟩ := run_snoc hok hr'
  exact ⟨t₁, p₁, hr₁, startable_of_granted he hx⟩

/-! ## Two workers -/

def memberJob (key : String) (actionType : ActionType) : Job :=
  { idempotencyKey := key, actionType, chatId := "chat", userId := some "user" }

def memberKind (key : String) : ActionType :=
  if key = "kick" then .kickMember else if key = "ban" then .banMember else .unbanMember

def Promised (_h : List (Record Nat)) (_now : Nat) (m : Move Nat Call) : Prop :=
  ∀ w i, m = .call w i → Accepted memberKind i

theorem promised_started {h : List (Record Nat)} {now w : Nat} (key : String) (at_ : Nat) :
    Promised h now (.call w (.recordStarted (memberJob key (memberKind key)) none at_ false)) := by
  rintro _ _ ⟨⟩ job ⟨⟩
  refine ⟨rfl, ?_⟩
  rintro _ ⟨⟩
  decide

theorem promised_resume {h : List (Record Nat)} {now w : Nat} : Promised h now (.resume w) := by
  rintro _ _ ⟨⟩

/-- Worker 0 starts a kick; the ban of worker 1 is refused. -/
theorem member_exclusion_two_workers :
    ∃ (h : List (Record Nat)) (t : Nat) (p : Workers Nat),
      Run step Promised (Pool.start ∅) h t p ∧
      h.filterMap granted = [.member (memberJob "kick" .kickMember)] ∧
      (h.getLast?.bind fun x => x.reply.bind Shown.result).isSome = true ∧
      p.store.Exclusive ∧ ∀ pre x post job, h = pre ++ [x] ++ post →
        granted x = some (.member job) → ∃ t₁ p₁,
          Run step Promised (Pool.start ∅) pre t₁ p₁ ∧ Startable p₁.store job := by
  have hr₀ : Run step Promised (Pool.start ∅ : Workers Nat) [] 0 (Pool.start ∅) := .nil
  have hr₁ := hr₀.snoc 1 (.call 0 (.recordStarted (memberJob "kick" (memberKind "kick")) none 1 false))
    (by decide) (promised_started "kick" 1)
  have hr₂ := hr₁.snoc 1 (.call 1 (.recordStarted (memberJob "ban" (memberKind "ban")) none 1 false))
    (by decide) (promised_started "ban" 1)
  have hr₃ := hr₂.snoc 2 (.resume 0) (by decide) promised_resume
  have hr₄ := hr₃.snoc 3 (.resume 1) (by decide) promised_resume
  exact ⟨_, _, _, hr₄, by decide +kernel, by decide +kernel,
    member_exclusion (fun h t w i hok => hok w i rfl) hr₄⟩

def ActionType.onMember : ActionType → Bool
  | .kickMember | .banMember | .unbanMember | .tryUnbanMember => true
  | _ => false

/-- `UNBAN_MEMBER` is not crash-fenced: it starts while a kick of the same member is in progress. -/
theorem member_exclusion_unban :
    ¬∀ (h : List (Record Nat)) (t : Nat) (p : Workers Nat),
      Run step Promised (Pool.start ∅) h t p → ∀ k k' row row',
        p.store.lookup k = some row → p.store.lookup k' = some row' →
        row.actionType.onMember = true → row'.actionType.onMember = true →
        row.status = .inProgress → row'.status = .inProgress →
        row.chatId = row'.chatId → row.userId = row'.userId → k = k' := by
  intro hall
  have hr₀ : Run step Promised (Pool.start ∅ : Workers Nat) [] 0 (Pool.start ∅) := .nil
  have hr₂ := (hr₀.snoc 1
    (.call 0 (.recordStarted (memberJob "kick" (memberKind "kick")) none 1 false)) (by decide)
    (promised_started "kick" 1)).snoc 1 (.resume 0) (by decide) promised_resume
  have hr₃ := hr₂.snoc 2
    (.call 1 (.recordStarted (memberJob "unban" (memberKind "unban")) none 2 false)) (by decide)
    (promised_started "unban" 2)
  have hr₄ := hr₃.snoc 2 (.resume 1) (by decide) promised_resume
  have hr₅ := hr₄.snoc 2 (.resume 1) (by decide) promised_resume
  have hr₆ := hr₅.snoc 2 (.resume 1) (by decide) promised_resume
  have hkey := hall _ _ _ hr₆ "kick" "unban" _ _ rfl rfl rfl rfl rfl rfl rfl rfl
  exact absurd hkey (by decide)

end Maxim.Max.ActionLedger
