import Maxim.Max.ModerationApiBudget.Bounds

/-!
# The bounds of the request budget

In any time the grants of one member in one chat, and those of one chat, are
bounded by the capacity of the bucket and its refill in that time. A refusal
costs nothing, and a granted attempt makes at most twelve requests.
-/

namespace Maxim.Max.ModerationApiBudget

open Maxim.Library

variable {γ α : Type} {sha256 : String → String} {h h₁ h₂ : List (Entry (Event γ α) Reply)}
  {e : Entry (Event γ α) Reply} {t : Nat} {w : World γ α}

/-! ## Grants -/

def granted? (e : Entry (Event γ α) Reply) : Option Scope :=
  if e.reply.reservation.any (·.granted) then e.request.scope? else none

def takes (sha256 : String → String) (side : Side) (key : String) (e : Entry (Event γ α) Reply) : Bool :=
  (granted? e).any fun scope =>
    (maxMuteApiBudgetKeys sha256 scope.chatId scope.subjectUserId).of side = key

def ofMember (chatId userId : String) (e : Entry (Event γ α) Reply) : Bool :=
  (granted? e).any fun scope => scope.chatId = chatId && scope.subjectUserId = userId

def ofChat (chatId : String) (e : Entry (Event γ α) Reply) : Bool :=
  (granted? e).any fun scope => scope.chatId = chatId

/-- What was taken from the key since `a`. -/
def taken (sha256 : String → String) (side : Side) (key : String) (a : Nat)
    (h : List (Entry (Event γ α) Reply)) : ℚ :=
  ((h.countP fun e => takes sha256 side key e && decide (a ≤ e.now) : Nat) : ℚ) * 12

theorem taken_snoc (side : Side) (key : String) (a : Nat) (h : List (Entry (Event γ α) Reply))
    (e : Entry (Event γ α) Reply) (hle : a ≤ e.now) :
    taken sha256 side key a (h ++ [e]) =
      taken sha256 side key a h + if takes sha256 side key e then 12 else 0 := by
  rw [taken, taken, List.countP_append, List.countP_singleton]
  by_cases ht : takes sha256 side key e = true
  · simp [ht, hle, add_mul]
  · simp [ht]

theorem taken_of_before {side : Side} {key : String} {a : Nat} (hdates : ∀ e ∈ h, e.now < a) :
    taken sha256 side key a h = 0 := by
  have hzero : (h.countP fun e => takes sha256 side key e && decide (a ≤ e.now)) = 0 := by
    rw [List.countP_eq_zero]
    intro e he
    have hlt := hdates e he
    simp [hlt]
  rw [taken, hzero, Nat.cast_zero, zero_mul]

/-- The store is sound, and every key has kept its books. -/
structure Books (sha256 : String → String) (h : List (Entry (Event γ α) Reply)) (t : Nat)
    (s : Store) : Prop where
  dates : ∀ e ∈ h, e.now ≤ t
  sound : SoundStore t s
  within : ∀ side key a, a ≤ t →
    SpentWithin side.capacity side.rate a t (taken sha256 side key a h) (bucket (s.slot side key))

theorem Books.later {t' : Nat} {s : Store} (hb : Books sha256 h t s) (hle : t ≤ t') :
    Books sha256 h t' s where
  dates e he := (hb.dates e he).trans hle
  sound side key := (hb.sound side key).mono hle
  within side key a ha := by
    by_cases hat : a ≤ t
    · exact (hb.within side key a hat).wait side.rate_nonneg hat hle
    · rw [taken_of_before fun e he => (hb.dates e he).trans_lt (not_le.mp hat)]
      exact (spentWithin_start _ _ a _).wait side.rate_nonneg le_rfl ha

theorem Books.purge {s : Store} (hb : Books sha256 h t s) : Books sha256 h t (s.purge t) where
  dates := hb.dates
  sound := hb.sound.purge
  within side key a ha := by
    refine (hb.within side key a ha).congr ?_
    rw [slot_purge]
    exact (hb.sound side key).tokensAt_purge le_rfl

theorem takes_of_reservation_none (hnone : e.reply.reservation = none) (side : Side) (key : String) :
    takes sha256 side key e = false := by
  simp [takes, granted?, hnone]

theorem Books.reserved {s next : Store} {answer : Answer} {scope : Scope} (hb : Books sha256 h e.now s)
    (heffect : Effect e.now (maxMuteApiBudgetKeys sha256 scope.chatId scope.subjectUserId) s next answer)
    (hscope : e.request.scope? = some scope) (hanswer : e.reply.reservation = some answer) :
    Books sha256 (h ++ [e]) e.now next where
  dates x hx := by
    rcases List.mem_append.mp hx with hx | hx
    · exact hb.dates x hx
    · rw [List.mem_singleton.mp hx]
  sound := heffect.sound hb.sound
  within side key a ha := by
    have hold := hb.within side key a ha
    rw [taken_snoc side key a h e ha]
    cases hgranted : answer.granted with
    | false =>
      have htakes : takes sha256 side key e = false := by
        simp [takes, granted?, hanswer, hgranted]
      rw [htakes, if_neg (by decide), add_zero]
      exact hold.congr (heffect.tokensAt_refused hb.sound hgranted side key le_rfl)
    | true =>
      have htakes : takes sha256 side key e = decide
          ((maxMuteApiBudgetKeys sha256 scope.chatId scope.subjectUserId).of side = key) := by
        simp [takes, granted?, hanswer, hgranted, hscope]
      obtain ⟨-, hbucket, hother⟩ := heffect.tokensAt_granted hgranted side
      rw [htakes]
      by_cases hkey : (maxMuteApiBudgetKeys sha256 scope.chatId scope.subjectUserId).of side = key
      · subst hkey
        rw [decide_eq_true rfl, if_pos rfl, hbucket]
        exact hold.spend (by norm_num)
      · rw [decide_eq_false hkey, if_neg (by decide), add_zero, hother key (Ne.symm hkey)]
        exact hold

variable [DecidableEq γ] [DecidableEq α]

theorem books_of_run (hr : BudgetRun sha256 h t w) : Books sha256 h t w.store := by
  refine hr.invariant (fun h t w => Books sha256 h t w.store) ?_ (fun _ _ _ _ hb hle => by exact hb.later hle) ?_
  · refine ⟨by simp, soundStore_empty 0, fun side key a ha => ?_⟩
    rw [taken_of_before (by simp)]
    obtain rfl := Nat.le_zero.mp ha
    exact spentWithin_start _ _ _ _
  · intro h t w event hb _
    rcases step_store t event w with ⟨hstore, hnone⟩ | ⟨scope, hscope, hstore, hanswer⟩
    · rw [hstore]
      have hp := hb.purge
      refine ⟨fun x hx => ?_, hp.sound, fun side key a ha => ?_⟩
      · rcases List.mem_append.mp hx with hx | hx
        · exact hp.dates x hx
        · rw [List.mem_singleton.mp hx]
      · rw [taken_snoc side key a h _ ha, takes_of_reservation_none hnone, if_neg (by decide), add_zero]
        exact hp.within side key a ha
    · rw [hstore]
      exact hb.purge.reserved (e := ⟨t, event, _⟩) (reserve_effect hb.purge.sound _) hscope hanswer

theorem taken_between (hr : BudgetRun sha256 h t w) (side : Side) (key : String) (a b : Nat) :
    ((h.countP fun e => takes sha256 side key e && decide (a ≤ e.now ∧ e.now ≤ b) : Nat) : ℚ) * 12 ≤
      side.capacity + ((b - a : Nat) : ℚ) * side.rate := by
  refine countP_between_le side.capacity_nonneg side.rate_nonneg hr.pairwise_now ?_ a b
  rintro pre x post rfl - a ha
  rw [List.append_cons] at hr
  obtain ⟨t₁, w₁, hr₁, -⟩ := hr.of_append
  have hbooks := books_of_run hr₁
  obtain ⟨-, -, -, -, -, rfl, -⟩ := hr₁.snoc_inv
  exact (hbooks.within side key a ha).spent_le ((hbooks.sound side key).tokensAt_nonneg x.now)

omit [DecidableEq γ] [DecidableEq α] in
theorem takes_ofMember (sha256 : String → String) {chatId userId : String} (he : ofMember chatId userId e = true) :
    takes sha256 .actor (maxMuteApiBudgetKeys sha256 chatId userId).actor e = true := by
  obtain ⟨scope, hscope, hmember⟩ := (Option.any_eq_true _ _).mp he
  simp only [Bool.and_eq_true, decide_eq_true_eq] at hmember
  obtain ⟨rfl, rfl⟩ := hmember
  exact (Option.any_eq_true _ _).mpr ⟨scope, hscope, decide_eq_true rfl⟩

omit [DecidableEq γ] [DecidableEq α] in
theorem takes_ofChat (sha256 : String → String) (userId : String) {chatId : String} (he : ofChat chatId e = true) :
    takes sha256 .chat (maxMuteApiBudgetKeys sha256 chatId userId).chat e = true := by
  obtain ⟨scope, hscope, hchat⟩ := (Option.any_eq_true _ _).mp he
  obtain rfl := of_decide_eq_true hchat
  exact (Option.any_eq_true _ _).mpr ⟨scope, hscope, decide_eq_true rfl⟩

theorem grants_between (hr : BudgetRun sha256 h t w) {side : Side} {key : String}
    {p : Entry (Event γ α) Reply → Bool} (hp : ∀ e, p e = true → takes sha256 side key e = true)
    (a b : Nat) :
    ((h.countP fun e => p e && decide (a ≤ e.now ∧ e.now ≤ b) : Nat) : ℚ) * 12 ≤
      side.capacity + ((b - a : Nat) : ℚ) * side.rate := by
  have hle : (h.countP fun e => p e && decide (a ≤ e.now ∧ e.now ≤ b)) ≤
      h.countP fun e => takes sha256 side key e && decide (a ≤ e.now ∧ e.now ≤ b) := by
    refine List.countP_mono_left fun e _ he => ?_
    rw [Bool.and_eq_true] at he ⊢
    exact ⟨hp e he.1, he.2⟩
  have hcast : ((h.countP fun e => p e && decide (a ≤ e.now ∧ e.now ≤ b) : Nat) : ℚ) ≤
      (h.countP fun e => takes sha256 side key e && decide (a ≤ e.now ∧ e.now ≤ b) : Nat) :=
    Nat.cast_le.mpr hle
  have htaken := taken_between hr side key a b
  linarith

/-! ## Requests -/

/-- A counted request of the attempt. -/
def consumes (context : α) (e : Entry (Event γ α) Reply) : Bool :=
  match e.request with
  | .consumeRequest _ c _ => decide (c = context) && decide (e.reply.outcome = .consumed)
  | _ => false

def remaining (w : World γ α) (context : α) : Nat :=
  (w.permits context).elim REQUESTS_PER_ATTEMPT (·.remaining)

omit [DecidableEq γ] in
theorem remaining_setPermit (w : World γ α) (context context' : α) (permit : AttemptPermit) :
    remaining (setPermit w context' permit) context =
      if context = context' then permit.remaining else remaining w context := by
  simp only [remaining, setPermit, Function.update_apply]
  split
  · rfl
  · rfl

theorem remaining_run (now : Nat) (client : γ) (c : α) (scope : Scope) (clock : Readings)
    (redis : Redis) (w : World γ α) (context : α) :
    remaining (run sha256 now client c scope clock redis w).1 context = remaining w context := by
  unfold run
  split
  · split
    · rfl
    split
    · rfl
    · rfl
  next hnone =>
    split
    · rfl
    · dsimp only
      split
      · rfl
      split
      · rfl
      unfold admission
      split
      · rw [remaining_setPermit]
        split
        next heq =>
          subst heq
          rw [remaining, hnone]
          rfl
        · rfl
      · rfl

omit [DecidableEq γ] in
theorem remaining_settle (c : α) (w : World γ α) (context : α) :
    remaining (settle c w).1 context = remaining w context := by
  unfold settle
  split
  · rfl
  next permit hpermit =>
    rw [remaining_setPermit]
    split
    next heq =>
      subst heq
      rw [remaining, hpermit]
      rfl
    · rfl

omit [DecidableEq γ] in
theorem remaining_consumeRequest (client : γ) (c : α) (localNow : Int) (w : World γ α) (context : α) :
    remaining (consumeRequest client c localNow w).1 context +
      (decide (c = context) && decide ((consumeRequest client c localNow w).2.outcome = .consumed)).toNat =
    remaining w context := by
  unfold consumeRequest
  split
  · simp
  next permit hpermit =>
    split
    · simp [expiredReply]
    split
    · simp
    next hleft =>
      rw [remaining_setPermit]
      by_cases heq : context = c
      · subst heq
        simp only [decide_true, Bool.and_self, Bool.toNat_true, if_true, remaining, hpermit,
          Option.elim_some]
        omega
      · simp [heq, Ne.symm heq]

theorem step_remaining (sha256 : String → String) (now : Nat) (event : Event γ α) (w : World γ α) (context : α) :
    remaining (step sha256 now event w).1 context +
      (consumes context ⟨now, event, (step sha256 now event w).2⟩).toNat = remaining w context := by
  cases event with
  | run client c scope clock redis => exact remaining_run now client c scope clock redis _ context
  | consumeRequest client c localNow => exact remaining_consumeRequest client c localNow _ context
  | assertRequestAllowed client c localNow =>
    show remaining (assertRequestAllowed client c localNow _).1 context = remaining w context
    unfold assertRequestAllowed
    split
    · rfl
    split
    · rfl
    · rfl
  | settle c => exact remaining_settle c _ context
  | close client => rfl

theorem requests_of_run (hr : BudgetRun sha256 h t w) (context : α) :
    h.countP (consumes context) + remaining w context = REQUESTS_PER_ATTEMPT := by
  refine hr.invariant (fun h _ w => h.countP (consumes context) + remaining w context =
    REQUESTS_PER_ATTEMPT) rfl (fun _ _ _ _ hi _ => by exact hi) ?_
  intro h t w event hi _
  have hstep := step_remaining sha256 t event w context
  rw [Bool.toNat, Bool.cond_eq_ite] at hstep
  rw [List.countP_append, List.countP_singleton]
  omega

/-! ## The contract -/

/-- The bounds of grants and requests, and what a refusal leaves alone. -/
theorem budget_bounds (hr : BudgetRun sha256 h t w) :
    (∀ chatId userId a b,
      ((h.countP fun e => ofMember chatId userId e && decide (a ≤ e.now ∧ e.now ≤ b) : Nat) : ℚ) ≤
        6 + 10 * (((b - a : Nat) : ℚ) / 60000)) ∧
    (∀ chatId a b,
      ((h.countP fun e => ofChat chatId e && decide (a ≤ e.now ∧ e.now ≤ b) : Nat) : ℚ) ≤
        12 + 40 * (((b - a : Nat) : ℚ) / 60000)) ∧
    (∀ h₁ e h₂ answer, h = h₁ ++ e :: h₂ → e.reply.reservation = some answer →
      answer.granted = false →
      (∀ key, Cooling e.now (purge e.now ((worldAfter sha256 h₁).store.actors key)) →
        (worldAfter sha256 (h₁ ++ [e])).store.actors key =
          purge e.now ((worldAfter sha256 h₁).store.actors key)) ∧
      (∀ side key t', e.now ≤ t' →
        tokensAt side t' ((worldAfter sha256 (h₁ ++ [e])).store.slot side key) =
          tokensAt side t' ((worldAfter sha256 h₁).store.slot side key)) ∧
      (answer.reason = 2 →
        (worldAfter sha256 (h₁ ++ [e])).store = (worldAfter sha256 h₁).store.purge e.now)) ∧
    ∀ context, h.countP (consumes context) ≤ 12 := by
  refine ⟨?_, ?_, ?_, ?_⟩
  · intro chatId userId a b
    have hbound := grants_between (p := ofMember chatId userId) hr (fun _ he => takes_ofMember sha256 he) a b
    simp only [Side.capacity, Side.rate] at hbound
    linarith
  · intro chatId a b
    have hbound := grants_between (p := ofChat chatId) hr (fun _ he => takes_ofChat sha256 chatId he) a b
    simp only [Side.capacity, Side.rate] at hbound
    linarith
  · rintro h₁ e h₂ answer rfl hanswer hrefused
    rw [List.append_cons] at hr
    obtain ⟨t₁, w₁, hr₁, -⟩ := hr.of_append
    have hafter : w₁ = worldAfter sha256 (h₁ ++ [e]) := hr₁.replay_eq.symm
    obtain ⟨t₀, w₀, hr₀, hle, -, -, hreply, hw⟩ := hr₁.snoc_inv
    have hbefore : w₀ = worldAfter sha256 h₁ := hr₀.replay_eq.symm
    have hbooks := (books_of_run hr₀).later hle
    rw [← hafter, ← hbefore, hw]
    rcases step_store e.now e.request w₀ with ⟨-, hnone⟩ | ⟨scope, -, hstore, hsome⟩
    · rw [hreply, hnone] at hanswer
      cases hanswer
    · rw [hreply, hsome] at hanswer
      cases hanswer
      have heffect := reserve_effect hbooks.purge.sound
        (maxMuteApiBudgetKeys sha256 scope.chatId scope.subjectUserId)
      rw [hstore]
      refine ⟨fun key hcooling => heffect.cooldown_kept hrefused hcooling, fun side key t' hle' => ?_,
        reserve_chatBudget⟩
      rw [heffect.tokensAt_refused hbooks.purge.sound hrefused side key hle', slot_purge]
      exact (hbooks.sound side key).tokensAt_purge hle'
  · intro context
    have hrequests := requests_of_run hr context
    rw [REQUESTS_PER_ATTEMPT] at hrequests
    omega

def ask (context : Nat) (chatId subjectUserId : String) : Event Unit Nat :=
  .run () context ⟨chatId, subjectUserId, "intent", 1, some 60000⟩ ⟨0, 0, 0⟩ .answered

def attemptCalls : List (Nat × Event Unit Nat) :=
  [(5, ask 0 "chat" "member"), (6, .consumeRequest () 0 1), (7, .consumeRequest () 0 2)]

theorem budget_bounds_sample :
    ((play (step id) World.start attemptCalls).1.countP (consumes 0) = 2) ∧ 2 ≤ 12 := by
  obtain ⟨t, hr⟩ : ∃ t, BudgetRun id (play (step id) World.start attemptCalls).1 t
      (play (step id) World.start attemptCalls).2 :=
    run_play (by decide) (accepted_of_forall (fun _ _ _ => trivial) _ _)
  have htwo : (play (step id) World.start attemptCalls).1.countP (consumes 0) = 2 := by
    decide +kernel
  have hbound := (budget_bounds hr).2.2.2 0
  rw [htwo] at hbound
  exact ⟨htwo, hbound⟩

/-- Six attempts of a member in one chat and one in another, at one moment. -/
def twoChatCalls : List (Nat × Event Unit Nat) :=
  (List.range 6).map (fun context => (5, ask context "chat" "member")) ++ [(5, ask 6 "other" "member")]

/-- The bucket of a member is of one chat: in two chats it gives more than six at one moment. -/
theorem member_exceeds_over_chats :
    ¬∀ (h : List (Entry (Event Unit Nat) Reply)) (t : Nat) (w : World Unit Nat), BudgetRun id h t w →
      ∀ userId a b,
        ((h.countP fun e => (granted? e).any (·.subjectUserId = userId) &&
          decide (a ≤ e.now ∧ e.now ≤ b) : Nat) : ℚ) ≤ 6 + 10 * (((b - a : Nat) : ℚ) / 60000) := by
  intro hall
  obtain ⟨t, hr⟩ : ∃ t, BudgetRun id (play (step id) World.start twoChatCalls).1 t
      (play (step id) World.start twoChatCalls).2 :=
    run_play (by decide) (accepted_of_forall (fun _ _ _ => trivial) _ _)
  have hseven : ((play (step id) World.start twoChatCalls).1.countP fun e =>
      (granted? e).any (·.subjectUserId = "member") && decide (5 ≤ e.now ∧ e.now ≤ 5)) = 7 := by
    decide +kernel
  have hbound := hall _ t _ hr "member" 5 5
  rw [hseven] at hbound
  norm_num at hbound

end Maxim.Max.ModerationApiBudget
