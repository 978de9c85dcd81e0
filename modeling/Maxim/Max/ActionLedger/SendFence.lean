import Maxim.Max.ActionLedger.Workers

/-!
# The fence of a remote send

The fence of a row is its dispatch token with its remote message id. A claim
takes the free fence, a release by the holding token frees it, a completion by
the holding token closes it for good, and no other operation changes it.
-/

namespace Maxim.Max.ActionLedger

open Maxim.Library

variable {ω : Type}

def fence (o : Option Row) : Option String × Option String :=
  (o.bind Row.dispatchToken, o.bind Row.remoteMessageId)

/-- What an answered operation does to the fence of its job. -/
inductive FenceMove :
    Answered → Option String × Option String → Option String × Option String → Prop
  | keeps (a : Answered) (f : Option String × Option String)
    (ha : ∀ jobId token, a.grant ≠ some (.send jobId token)) 
    (hfree : ∀ jobId token, a.freed ≠ some (jobId, token)) : FenceMove a f f
  | claims (jobId token : String) (startedAt : Nat) (botId : String) :
    FenceMove ⟨.claim jobId token startedAt botId, true⟩ (none, none) (some token, none)
  | releases (jobId token : String) :
    FenceMove ⟨.release jobId token, true⟩ (some token, none) (none, none)
  | completes (jobId token remoteMessageId : String) (completedAt : Nat) (fault : Option Bool)
    (r : Option Bool) :
    FenceMove ⟨.complete jobId token remoteMessageId completedAt fault, r⟩ (some token, none)
      (some token, some remoteMessageId)

theorem fence_of_unfenced {row : Row} (h : row.unfenced = true) :
    fence (some row) = (none, none) := by
  simp only [Row.unfenced, Bool.and_eq_true, Option.isNone_iff_eq_none] at h
  simp [fence, h]

variable {token jobId : String}

theorem fence_of_claimedBy {row : Row} (h : row.claimedBy token = true) :
    fence (some row) = (some token, none) := by
  simp only [Row.claimedBy, Bool.and_eq_true, beq_iff_eq, Option.isNone_iff_eq_none] at h
  simp [fence, h]

theorem Answered.Rewrites.fence {a : Answered} {o o' : Option Row} (h : a.Rewrites o o') :
    FenceMove a (fence o) (fence o') := by
  cases h with
  | same _ _ hx hfree => exact .keeps a _ (by simp [hx]) (by simp [hfree])
  | creates _ job m n hx =>
    refine .keeps a _ (fun jobId token hg => ?_) (fun jobId token hf => ?_)
    · obtain ⟨t, b, rfl⟩ := Answered.eq_of_grant_send hg
      cases hx
    · obtain rfl := Answered.eq_of_freed hf
      cases hx
  | starts _ kind job m m' row hx =>
    refine .keeps a _ (fun jobId token hg => ?_) (fun jobId token hf => ?_)
    · obtain ⟨t, b, rfl⟩ := Answered.eq_of_grant_send hg
      cases hx
    · obtain rfl := Answered.eq_of_freed hf
      cases hx
  | prepares | succeeds | settles | enqueues | upserts =>
    exact .keeps _ _ (fun _ _ => by simp [Answered.grant]) (fun _ _ => by simp [Answered.freed])
  | quarantines => exact .keeps _ _ (fun _ _ => by simp [Answered.grant]) (fun _ _ => by simp [Answered.freed])
  | claims jobId token startedAt botId row hrow =>
    have hf := fence_of_unfenced (Bool.and_eq_true_iff.mp hrow).1
    rw [hf]
    have hremote : row.remoteMessageId = none := congrArg Prod.snd hf
    have hnew : ActionLedger.fence (some { row with
        dispatchToken := some token, dispatchStartedAt := some startedAt
        dispatchBotId := some botId }) = (some token, none) := by
      simp [ActionLedger.fence, hremote]
    rw [hnew]
    exact .claims jobId token startedAt botId
  | completes jobId token remote completedAt fault r row hrow =>
    have hf := fence_of_claimedBy hrow
    have htoken : row.dispatchToken = some token := congrArg Prod.fst hf
    have hnew : ActionLedger.fence (some (completeData remote completedAt row)) =
        (some token, some remote) := by
      simp [ActionLedger.fence, completeData, htoken]
    rw [hf, hnew]
    exact .completes jobId token remote completedAt fault r
  | releases jobId token row hrow =>
    have hf := fence_of_claimedBy hrow
    have hremote : row.remoteMessageId = none := congrArg Prod.snd hf
    have hnew : ActionLedger.fence (some (releaseData row)) = (none, none) := by
      simp [ActionLedger.fence, releaseData, hremote]
    rw [hf, hnew]
    exact .releases jobId token
  | clears _ row hx hfree hrow =>
    rw [fence_of_unfenced hrow]
    exact .keeps a _ (by simp [hx]) (by simp [hfree])
  | retries r b row hrow =>
    have hfree : row.unfenced = true := by
      simp only [NightModeRetry.applies, Bool.and_eq_true] at hrow
      exact hrow.1.1.2
    rw [fence_of_unfenced hfree]
    exact .keeps _ _ (fun _ _ => by simp [Answered.grant]) (fun _ _ => by simp [Answered.freed])

/-! ## Histories -/

/-- The step returns `claimed` with this token for the job. -/
def Claims (jobId token : String) (x : Record ω) : Prop :=
  granted x = some (.send jobId token)

def Releases (jobId token : String) (x : Record ω) : Prop :=
  answered x = some ⟨.release jobId token, true⟩

/-- What a step does to the fence of a job, seen in the history. -/
inductive FenceStep (jobId : String) (x : Record ω) :
    Option String × Option String → Option String × Option String → Prop
  | keeps (f : Option String × Option String) (hclaims : ∀ token, ¬Claims jobId token x)
    (hreleases : ∀ token, ¬Releases jobId token x) : FenceStep jobId x f f
  | claims (token : String) (hx : Claims jobId token x) :
    FenceStep jobId x (none, none) (some token, none)
  | releases (token : String) (hx : Releases jobId token x)
    (hclaims : ∀ token, ¬Claims jobId token x) :
    FenceStep jobId x (some token, none) (none, none)
  | completes (token remote : String) (completedAt : Nat) (fault r : Option Bool)
    (hx : answered x = some ⟨.complete jobId token remote completedAt fault, r⟩)
    (hclaims : ∀ token, ¬Claims jobId token x) (hreleases : ∀ token, ¬Releases jobId token x) :
    FenceStep jobId x (some token, none) (some token, some remote)

variable {x : Record ω}

theorem Touches.fence {C : Call → Prop} {l l' : Ledger}
    (hx : Touches C jobId l l' x) :
    FenceStep jobId x (fence (l.lookup jobId)) (fence (l'.lookup jobId)) := by
  cases hx with
  | other row grants answers =>
    rw [row]
    exact .keeps _ (fun _ hc => grants _ hc rfl) fun _ hr => answers _ hr rfl
  | own i a accepted performs key run reply row calls answers grants =>
    have hm := row.fence
    generalize ActionLedger.fence (l.lookup jobId) = f at hm
    generalize ActionLedger.fence (l'.lookup jobId) = f' at hm
    cases hm with
    | keeps _ _ ha hfree =>
      refine .keeps f (fun token hc => ha jobId token (grants.symm.trans hc)) fun token hr => ?_
      obtain rfl := Option.some.inj (answers.symm.trans hr)
      exact hfree jobId token rfl
    | claims j token startedAt botId =>
      obtain rfl : j = jobId := key
      exact .claims token grants
    | releases j token =>
      obtain rfl : j = jobId := key
      exact .releases token answers fun _ hc => by cases grants.symm.trans hc
    | completes j token remote completedAt fault r =>
      obtain rfl : j = jobId := key
      exact .completes token remote completedAt fault r answers
        (fun _ hc => by cases grants.symm.trans hc) fun _ hr => by cases answers.symm.trans hr

theorem FenceStep.free
    {f f' : Option String × Option String} (h : FenceStep jobId x f f')
    (hx : Claims jobId token x) : f = (none, none) := by
  cases h with
  | claims => rfl
  | keeps _ hclaims | releases _ _ hclaims | completes _ _ _ _ _ _ hclaims =>
    exact absurd hx (hclaims token)

theorem FenceStep.final {remote : String}
    {f f' : Option String × Option String} (h : FenceStep jobId x f f')
    (hf : f.2 = some remote) : f'.2 = some remote := by
  cases h with
  | keeps => exact hf
  | claims | releases | completes => cases hf

theorem Claims.token_unique {token' : String}
    (h : Claims jobId token x) (h' : Claims jobId token' x) : token' = token :=
  (Grant.send.inj (Option.some.inj (h'.symm.trans h))).2

/-- The token that holds the job is that of a claim which no release has ended, or the one that the
row had before the run; a claim that no release has ended holds the job. -/
structure Held (jobId : String) (l₀ : Ledger) (h : List (Record ω)) (l : Ledger) : Prop where
  holder : ∀ token, (fence (l.lookup jobId)).1 = some token →
    Pending (Claims jobId token) (Releases jobId token) h ∨
      (fence (l₀.lookup jobId)).1 = some token ∧ ∀ x ∈ h, ¬Releases jobId token x
  holds : ∀ token, Pending (Claims jobId token) (Releases jobId token) h →
    (fence (l.lookup jobId)).1 = some token

theorem Held.start (jobId : String) (l₀ : Ledger) : Held jobId l₀ ([] : List (Record ω)) l₀ :=
  ⟨fun _ h => .inr ⟨h, by simp⟩, fun _ h => absurd h not_pending_nil⟩

theorem Held.keep {l₀ l l' : Ledger} {h : List (Record ω)}
    (hh : Held jobId l₀ h l)
    (htoken : (fence (l'.lookup jobId)).1 = (fence (l.lookup jobId)).1)
    (hclaims : ∀ token, ¬Claims jobId token x) (hreleases : ∀ token, ¬Releases jobId token x) :
    Held jobId l₀ (h ++ [x]) l' := by
  refine ⟨fun token ht => ?_, fun token hp => ?_⟩
  · rw [htoken] at ht
    rcases hh.holder token ht with hp | ⟨h₀, hr⟩
    · exact .inl (pending_snoc.mpr (.inr ⟨hp, hreleases token⟩))
    · refine .inr ⟨h₀, fun y hy => ?_⟩
      rcases List.mem_append.mp hy with hy | hy
      · exact hr y hy
      · exact List.mem_singleton.mp hy ▸ hreleases token
  · rw [htoken]
    rcases pending_snoc.mp hp with hc | ⟨hp, -⟩
    · exact absurd hc (hclaims token)
    · exact hh.holds token hp

theorem Held.step {l₀ l l' : Ledger} {h : List (Record ω)}
    (hh : Held jobId l₀ h l)
    (hx : FenceStep jobId x (fence (l.lookup jobId)) (fence (l'.lookup jobId))) :
    Held jobId l₀ (h ++ [x]) l' := by
  generalize hf : fence (l.lookup jobId) = f at hx
  generalize hf' : fence (l'.lookup jobId) = f' at hx
  cases hx with
  | keeps _ hclaims hreleases => exact hh.keep (by rw [hf, hf']) hclaims hreleases
  | completes token remote completedAt fault r hx hclaims hreleases =>
    exact hh.keep (by rw [hf, hf']) hclaims hreleases
  | claims token hx =>
    refine ⟨fun token' ht => ?_, fun token' hp => ?_⟩
    · rw [hf'] at ht
      obtain rfl := Option.some.inj ht
      exact .inl (pending_snoc.mpr (.inl hx))
    · rcases pending_snoc.mp hp with hc | ⟨hp, -⟩
      · rw [hf', hx.token_unique hc]
      · have htoken := hh.holds token' hp
        rw [hf] at htoken
        cases htoken
  | releases token hx hclaims =>
    refine ⟨fun token' ht => ?_, fun token' hp => ?_⟩
    · rw [hf'] at ht
      cases ht
    · rcases pending_snoc.mp hp with hc | ⟨hp, hr⟩
      · exact absurd hc (hclaims token')
      · have htoken := hh.holds token' hp
        rw [hf] at htoken
        obtain rfl := Option.some.inj htoken
        exact absurd hx hr

/-- What one step of a run, after `pre` and from the ledger `l` to `l'`, may do to a job. -/
structure Fenced (jobId : String) (l₀ : Ledger) (pre : List (Record ω)) (x : Record ω)
    (l l' : Ledger) : Prop where
  reclaims : ∀ token, Claims jobId token x → ∀ token',
    ¬Pending (Claims jobId token') (Releases jobId token') pre
  authorised : ∀ token, Claims jobId token x → fence (l.lookup jobId) = (none, none)
  final : ∀ remote, (fence (l.lookup jobId)).2 = some remote →
    (fence (l'.lookup jobId)).2 = some remote
  completed : ∀ remote, (fence (l.lookup jobId)).2 = none →
    (fence (l'.lookup jobId)).2 = some remote → ∃ token completedAt fault r,
      answered x = some ⟨.complete jobId token remote completedAt fault, r⟩ ∧
      (fence (l.lookup jobId)).1 = some token ∧
      (Pending (Claims jobId token) (Releases jobId token) pre ∨
        (fence (l₀.lookup jobId)).1 = some token ∧ ∀ y ∈ pre, ¬Releases jobId token y)

theorem Held.fenced {l₀ l l' : Ledger} {pre : List (Record ω)}
    (hh : Held jobId l₀ pre l)
    (hx : FenceStep jobId x (fence (l.lookup jobId)) (fence (l'.lookup jobId))) :
    Fenced jobId l₀ pre x l l' := by
  refine ⟨fun token hc token' hp => ?_, fun _ hc => hx.free hc, fun _ hr => hx.final hr,
    fun remote hn hr => ?_⟩
  · have htoken := hh.holds token' hp
    rw [hx.free hc] at htoken
    cases htoken
  · have hholder := hh.holder
    generalize fence (l.lookup jobId) = f at hx hn hholder
    generalize fence (l'.lookup jobId) = f' at hx hr
    cases hx with
    | keeps => cases hn.symm.trans hr
    | claims | releases => cases hr
    | completes token remote' completedAt fault r hx =>
      obtain rfl := Option.some.inj hr
      exact ⟨token, completedAt, fault, r, hx, rfl, hholder token rfl⟩

variable [DecidableEq ω] {ok : List (Record ω) → Nat → Move ω Call → Prop} {l₀ : Ledger}

theorem run_held (jobId : String) {h : List (Record ω)} {t : Nat} {p : Workers ω}
    (hr : Run step ok (Pool.start l₀) h t p) : Held jobId l₀ h p.store :=
  Pool.run_invariant (fun h l => Held jobId l₀ h l) (fun i _ => program_sound i)
    (fun _ _ _ _ _ => trivial) (Held.start jobId l₀)
    (fun _ _ _ _ hh he => hh.step (touches he jobId).fence) hr

/-- In every run of any number of workers, from any ledger: a job is claimed again only after every
earlier claim was released by its own token; its remote message id, once written, never changes and
rules out every later claim; and only the token that holds the job completes it. -/
theorem send_fence (jobId : String) {h : List (Record ω)} {t : Nat} {p : Workers ω}
    (hr : Run step ok (Pool.start l₀) h t p) :
    ∀ pre x post, h = pre ++ [x] ++ post → ∃ t₁ p₁,
      Run step ok (Pool.start l₀) pre t₁ p₁ ∧
      Fenced jobId l₀ pre x p₁.store (step x.now x.request p₁).1.store := by
  rintro pre x post rfl
  obtain ⟨t', p', hr', -⟩ := hr.of_append
  obtain ⟨t₁, p₁, hr₁, rfl, he⟩ := run_snoc (fun _ _ _ _ _ => trivial) hr'
  exact ⟨t₁, p₁, hr₁, (run_held jobId hr₁).fenced (touches he jobId).fence⟩

/-- Worker 0 claims the job and releases it; worker 1 claims it again and completes it. -/
theorem send_fence_two_workers :
    ∃ (h : List (Record Nat)) (t : Nat) (p : Workers Nat) (l₀ : Ledger),
      Run step (fun _ _ _ => True) (Pool.start l₀) h t p ∧
      h.filterMap granted = [.send "job" "t0", .send "job" "t1"] ∧
      fence (p.store.lookup "job") = (some "t1", some "mid") ∧
      ∀ pre x post, h = pre ++ [x] ++ post → ∃ t₁ p₁,
        Run step (fun _ _ _ => True) (Pool.start l₀) pre t₁ p₁ ∧
        Fenced "job" l₀ pre x p₁.store (step x.now x.request p₁).1.store := by
  let job : Job := { idempotencyKey := "job", actionType := .sendMessage, chatId := "chat" }
  let l₀ : Ledger := AList.insert "job" (buildCreateInput job) ∅
  have hr₀ : Run step (fun _ _ _ => True) (Pool.start l₀ : Workers Nat) [] 0 (Pool.start l₀) :=
    .nil
  have hr₁ := hr₀.snoc 1 (.call 0 (.claimSendDispatch job "bot" ⟨"t0", 1, 1⟩ ⟨"t2", 1, 1⟩))
    (by decide) trivial
  have hr₂ := hr₁.snoc 2 (.resume 0) (by decide) trivial
  have hr₃ := hr₂.snoc 3 (.call 0 (.releaseSendDispatch job "t0")) (by decide) trivial
  have hr₄ := hr₃.snoc 4 (.call 1 (.claimSendDispatch job "bot" ⟨"t1", 4, 4⟩ ⟨"t3", 4, 4⟩))
    (by decide) trivial
  have hr₅ := hr₄.snoc 5 (.resume 0) (by decide) trivial
  have hr₆ := hr₅.snoc 6 (.resume 1) (by decide) trivial
  have hr₇ := hr₆.snoc 7 (.call 1 (.completeSendDispatch job "t1" "mid" 7 none { message := "" }))
    (by decide) trivial
  have hr₈ := hr₇.snoc 8 (.resume 1) (by decide) trivial
  exact ⟨_, _, _, _, hr₈, by decide +kernel, by decide +kernel, send_fence "job" hr₈⟩

end Maxim.Max.ActionLedger
