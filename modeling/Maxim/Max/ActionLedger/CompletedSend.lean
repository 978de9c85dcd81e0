import Maxim.Max.ActionLedger.SendFence

/-!
# A completed send

Every guarded update leaves a completed send as it is, and so does the fence of
its job. The one unguarded write that a job of this type reaches is the upsert
of `recordSkipped`.
-/

namespace Maxim.Max.ActionLedger

open Maxim.Library

variable {ω : Type}

/-- A row of a send that has succeeded with this remote message id. -/
structure SendCompleted (remoteMessageId : String) (row : Row) : Prop where
  actionType : row.actionType = .sendMessage
  remote : row.remoteMessageId = some remoteMessageId
  status : row.status = .succeeded
  terminal : row.terminal = true
  definite : row.ambiguous = false

def Ledger.SendCompleted (l : Ledger) (jobId remoteMessageId : String) : Prop :=
  ∃ row, l.lookup jobId = some row ∧ ActionLedger.SendCompleted remoteMessageId row

variable {remote jobId : String}

theorem SendCompleted.unfenced {row : Row} (h : SendCompleted remote row) :
    row.unfenced = false := by
  simp [Row.unfenced, h.remote]

theorem SendCompleted.unsettled {row : Row} (h : SendCompleted remote row) :
    row.unsettled = false := by
  simp [Row.unsettled, h.terminal]

theorem SendCompleted.claimedBy {token : String} {row : Row}
    (h : SendCompleted remote row) : row.claimedBy token = false := by
  simp [Row.claimedBy, h.remote]

theorem SendCompleted.rewrites {row : Row} (h : SendCompleted remote row)
    {a : Answered} {o : Option Row} (ha : a.Rewrites (some row) o) :
    o = some row ∨ ∃ job m, a.1 = .upsert job m ∧ o = some (startData job m row) := by
  generalize hrow : some row = o' at ha
  cases ha with
  | same => exact .inl rfl
  | creates => cases hrow
  | upserts job m r row' =>
    obtain rfl := Option.some.inj hrow
    exact .inr ⟨job, m, rfl, rfl⟩
  | starts _ kind job m m' row' hx hm hgrant hguard =>
    obtain rfl := Option.some.inj hrow
    simp [StartKind.guard, h.unsettled] at hguard
  | prepares job r row' hguard | claims job token startedAt botId row' hguard =>
    obtain rfl := Option.some.inj hrow
    simp [h.unsettled] at hguard
  | succeeds job m r row' hguard =>
    obtain rfl := Option.some.inj hrow
    simp [h.remote] at hguard
  | settles job m r row' hguard | enqueues job statuses m r row' hguard =>
    obtain rfl := Option.some.inj hrow
    simp [h.unsettled] at hguard
  | completes jobId token remote' completedAt fault r row' hguard
  | releases jobId token row' hguard | quarantines jobId token error completedAt r row' hguard =>
    obtain rfl := Option.some.inj hrow
    simp [h.claimedBy] at hguard
  | clears _ row' hx hfree hguard =>
    obtain rfl := Option.some.inj hrow
    simp [h.unfenced] at hguard
  | retries r b row' hguard =>
    obtain rfl := Option.some.inj hrow
    simp [NightModeRetry.applies, h.unfenced] at hguard

def Sends (jobId : String) (i : Call) : Prop :=
  ∀ job, i.job? = some job → job.idempotencyKey = jobId → job.actionType = .sendMessage

/-- The step is the write of a `recordSkipped` of the job. -/
def Skips (jobId : String) (x : Record ω) : Prop :=
  ∃ job reason now, x.reply.map Shown.call = some (.recordSkipped job reason now) ∧
    job.idempotencyKey = jobId ∧ (answered x).isSome = true

theorem Performs.skipped {i : Call} {job : Job} {m : Mutation}
    (h : Performs i (.upsert job m)) (hi : Sends jobId i) (hjob : job.idempotencyKey = jobId) :
    ∃ reason now, i = .recordSkipped job reason now := by
  cases h with
  | skips _ reason now => exact ⟨reason, now, rfl⟩
  | succeedUpserts _ _ hne => exact absurd (hi job rfl hjob) hne
  | failUpserts _ _ _ _ hne => exact absurd (hi job rfl hjob) hne
  | checkEnqueue _ _ h | checkExecute _ _ h | startChecks _ _ _ _ _ h => cases h

theorem lookup_skip {C : Call → Prop} {l l' : Ledger} {x : Record ω} {row : Row}
    (he : Effect C l l' x) (hx : Skips jobId x)
    (hrow : l.lookup jobId = some row) :
    ∃ row', l'.lookup jobId = some row' ∧ row'.status = .skipped := by
  obtain ⟨job, reason, now, hcall, rfl, hop⟩ := hx
  obtain ⟨_, _, reply⟩ := x
  cases he with
  | idle => cases hcall
  | starts => cases hop
  | performs i op result store accepted performs answer =>
    obtain rfl : i = .recordSkipped job reason now := Option.some.inj hcall
    cases performs
    refine ⟨startData job (skippedMutation reason now) row, ?_, rfl⟩
    rw [store]
    simp [Op.run, Ledger.upsert, hrow]

theorem step_completed {l l' : Ledger} {x : Record ω}
    (he : Effect (Sends jobId) l l' x) (hl : l.SendCompleted jobId remote) :
    l'.SendCompleted jobId remote ↔ ¬Skips jobId x := by
  obtain ⟨row, hrow, hc⟩ := hl
  constructor
  · rintro ⟨row', hrow', hc'⟩ hskip
    obtain ⟨row'', hrow'', hskipped⟩ := lookup_skip he hskip hrow
    obtain rfl := Option.some.inj (hrow'.symm.trans hrow'')
    cases hc'.status.symm.trans hskipped
  · intro hskip
    cases touches he jobId with
    | other hsame => exact ⟨row, hsame.trans hrow, hc⟩
    | own i a accepted performs key run reply rewrites calls answers grants =>
      rw [hrow] at rewrites
      rcases hc.rewrites rewrites with hsame | ⟨job, m, ha, -⟩
      · exact ⟨row, hsame, hc⟩
      · rw [ha] at performs key
        obtain ⟨reason, now, rfl⟩ := performs.skipped accepted key
        exact absurd ⟨job, reason, now, calls, key, by rw [answers]; rfl⟩ hskip

section Runs

variable [DecidableEq ω] {ok : List (Record ω) → Nat → Move ω Call → Prop} {jobId : String}
  {l₀ : Ledger}

theorem run_completed (hok : ∀ h t w i, ok h t (.call w i) → Sends jobId i) {remote : String}
    {h₁ h₂ : List (Record ω)} {t₁ : Nat} {p₁ : Workers ω}
    (hr₁ : Run step ok (Pool.start l₀) h₁ t₁ p₁) (hc : p₁.store.SendCompleted jobId remote)
    {t : Nat} {p : Workers ω} (hr : Run step ok (Pool.start l₀) (h₁ ++ h₂) t p)
    (hskip : ∀ x ∈ h₂, ¬Skips jobId x) : p.store.SendCompleted jobId remote := by
  induction h₂ using List.reverseRecOn generalizing t p with
  | nil =>
    rw [List.append_nil] at hr
    rwa [(hr₁.unique hr).2]
  | append_singleton h₂ x ih =>
    rw [← List.append_assoc] at hr
    obtain ⟨t₂, p₂, hr₂, -, he⟩ := run_snoc hok hr
    exact (step_completed he (ih hr₂ fun y hy => hskip y (by simp [hy]))).mpr
      (hskip x (by simp))

theorem run_closed {remote : String} {h₁ h₂ : List (Record ω)} {t₁ : Nat} {p₁ : Workers ω}
    (hr₁ : Run step ok (Pool.start l₀) h₁ t₁ p₁)
    (hc : (fence (p₁.store.lookup jobId)).2 = some remote)
    {t : Nat} {p : Workers ω} (hr : Run step ok (Pool.start l₀) (h₁ ++ h₂) t p) :
    (fence (p.store.lookup jobId)).2 = some remote ∧
      ∀ x ∈ h₂, ∀ token, ¬Claims jobId token x := by
  induction h₂ using List.reverseRecOn generalizing t p with
  | nil =>
    rw [List.append_nil] at hr
    rw [(hr₁.unique hr).2]
    exact ⟨hc, by simp⟩
  | append_singleton h₂ x ih =>
    rw [← List.append_assoc] at hr
    obtain ⟨t₂, p₂, hr₂, -, he⟩ := run_snoc (fun _ _ _ _ _ => trivial) hr
    obtain ⟨hf, hclaims⟩ := ih hr₂
    have hstep := (touches he jobId).fence
    refine ⟨hstep.final hf, fun y hy token hy' => ?_⟩
    rcases List.mem_append.mp hy with hy | hy
    · exact hclaims y hy token hy'
    · obtain rfl := List.mem_singleton.mp hy
      rw [hstep.free hy'] at hf
      cases hf

/-- After a send is completed, no step claims the job again, and the send stays completed in every
state reached exactly if no step skips the job. -/
theorem completed_send_stays (hok : ∀ h t w i, ok h t (.call w i) → Sends jobId i)
    {remote : String} {h₁ h₂ : List (Record ω)} {t₁ : Nat} {p₁ : Workers ω}
    (hr₁ : Run step ok (Pool.start l₀) h₁ t₁ p₁) (hc : p₁.store.SendCompleted jobId remote)
    {t : Nat} {p : Workers ω} (hr : Run step ok (Pool.start l₀) (h₁ ++ h₂) t p) :
    (∀ x ∈ h₂, ∀ token, ¬Claims jobId token x) ∧
      ((∀ h, h <+: h₂ → ∀ t' p', Run step ok (Pool.start l₀) (h₁ ++ h) t' p' →
          p'.store.SendCompleted jobId remote) ↔ ∀ x ∈ h₂, ¬Skips jobId x) := by
  have hfence : (fence (p₁.store.lookup jobId)).2 = some remote := by
    obtain ⟨row, hrow, hrowc⟩ := hc
    simp [fence, hrow, hrowc.remote]
  refine ⟨(run_closed hr₁ hfence hr).2, fun hall x hx hskip => ?_, fun hskip h hh t' p' hr' => ?_⟩
  · obtain ⟨pre, post, rfl⟩ := List.append_of_mem hx
    have hpre : pre ++ [x] <+: pre ++ x :: post := ⟨post, by simp⟩
    obtain ⟨t', p', hr', -⟩ : ∃ t' p', Run step ok (Pool.start l₀) (h₁ ++ (pre ++ [x])) t' p' ∧
        t' ≤ t := Run.of_append (by simpa using hr)
    have hafter := hall _ hpre t' p' hr'
    rw [← List.append_assoc] at hr'
    obtain ⟨t₂, p₂, hr₂, -, he⟩ := run_snoc hok hr'
    exact (step_completed he (hall pre (List.prefix_append _ _) t₂ p₂ hr₂)).mp hafter hskip
  · exact run_completed hok hr₁ hc hr' fun x hx => hskip x (hh.subset hx)

end Runs

def SendsOnly (jobId : String) (_h : List (Record Nat)) (_now : Nat) (m : Move Nat Call) : Prop :=
  ∀ w i, m = .call w i → Sends jobId i

theorem sendsOnly_call {h : List (Record Nat)} {now w : Nat} {i : Call} {job : Job}
    (hi : i.job? = some job) (hjob : job.actionType = .sendMessage) :
    SendsOnly jobId h now (.call w i) := by
  rintro _ _ ⟨⟩ job' hi' -
  obtain rfl := Option.some.inj (hi.symm.trans hi')
  exact hjob

theorem sendsOnly_resume {h : List (Record Nat)} {now w : Nat} :
    SendsOnly jobId h now (.resume w) := by
  rintro _ _ ⟨⟩

/-! ## A late skip -/

def sendJob : Job := { idempotencyKey := "job", actionType := .sendMessage, chatId := "chat" }

/-- Worker 0 has enqueued, claimed and completed the job. -/
def completedWorkers : Workers Nat :=
  [.call 0 (.recordEnqueuedIfAbsent sendJob none 1), .resume 0,
    .call 0 (.claimSendDispatch sendJob "bot" ⟨"t0", 3, 3⟩ ⟨"t1", 3, 3⟩), .resume 0,
    .call 0 (.completeSendDispatch sendJob "t0" "mid" 5 none { message := "" }),
    .resume 0].foldl (fun p m => (step 1 m p).1) (Pool.start ∅)

theorem run_completedWorkers :
    ∃ h, Run step (SendsOnly "job") (Pool.start ∅) h 1 completedWorkers := by
  have hr₀ : Run step (SendsOnly "job") (Pool.start ∅ : Workers Nat) [] 0 (Pool.start ∅) := .nil
  have hr₂ := (hr₀.snoc 1 (.call 0 (.recordEnqueuedIfAbsent sendJob none 1)) (by decide)
    (sendsOnly_call rfl rfl)).snoc 1 (.resume 0) (by decide) sendsOnly_resume
  have hr₄ := (hr₂.snoc 1 (.call 0 (.claimSendDispatch sendJob "bot" ⟨"t0", 3, 3⟩ ⟨"t1", 3, 3⟩))
    (by decide) (sendsOnly_call rfl rfl)).snoc 1 (.resume 0) (by decide) sendsOnly_resume
  have hr₆ := (hr₄.snoc 1
    (.call 0 (.completeSendDispatch sendJob "t0" "mid" 5 none { message := "" })) (by decide)
    (sendsOnly_call rfl rfl)).snoc 1 (.resume 0) (by decide) sendsOnly_resume
  exact ⟨_, hr₆⟩

theorem completedWorkers_completed : completedWorkers.store.SendCompleted "job" "mid" :=
  ⟨_, rfl, by constructor <;> rfl⟩

/-- A late retry of a completed send is refused; the send stays completed. -/
theorem completed_send_stays_retry :
    ∃ (h₁ h₂ : List (Record Nat)) (p : Workers Nat),
      Run step (SendsOnly "job") (Pool.start ∅) (h₁ ++ h₂) 2 p ∧ h₂ ≠ [] ∧
      (∀ x ∈ h₂, ∀ token, ¬Claims "job" token x) ∧
      ((∀ h, h <+: h₂ → ∀ t' p', Run step (SendsOnly "job") (Pool.start ∅) (h₁ ++ h) t' p' →
          p'.store.SendCompleted "job" "mid") ↔ ∀ x ∈ h₂, ¬Skips "job" x) := by
  obtain ⟨h₁, hr₁⟩ := run_completedWorkers
  have hr := (hr₁.snoc 2 (.call 1 (.recordStarted sendJob none 2 false)) (by decide)
    (sendsOnly_call rfl rfl)).snoc 2 (.resume 1) (by decide) sendsOnly_resume
  rw [List.append_assoc] at hr
  exact ⟨h₁, _, _, hr, by simp, completed_send_stays (fun h t w i hok => hok w i rfl) hr₁
    completedWorkers_completed hr⟩

/-- A late skip of a completed send: the row says that nothing was sent. -/
theorem completed_send_skipped :
    ¬∀ (h₁ h₂ : List (Record Nat)) (t₁ t : Nat) (p₁ p : Workers Nat) (remote : String),
      Run step (SendsOnly "job") (Pool.start ∅) h₁ t₁ p₁ →
      Run step (SendsOnly "job") (Pool.start ∅) (h₁ ++ h₂) t p →
      p₁.store.SendCompleted "job" remote → p.store.SendCompleted "job" remote := by
  intro hall
  obtain ⟨h₁, hr₁⟩ := run_completedWorkers
  have hr := (hr₁.snoc 2 (.call 1 (.recordSkipped sendJob "message not found" 2)) (by decide)
    (sendsOnly_call rfl rfl)).snoc 2 (.resume 1) (by decide) sendsOnly_resume
  rw [List.append_assoc] at hr
  obtain ⟨row, hrow, hc⟩ := hall h₁ _ _ _ _ _ "mid" hr₁ hr completedWorkers_completed
  have hstatus := hc.status
  obtain rfl := Option.some.inj hrow
  cases hstatus

end Maxim.Max.ActionLedger
