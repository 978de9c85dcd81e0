import Mathlib.Data.String.Basic
import Maxim.Publisher.AutoReply.FloodGate.Admissions

/-!
# The limits of the flood gate

Every admission finds its windows below their limits, because the sets hold
every admission that its windows count. A decision answers all later calls
about its message for as long as it is kept.
-/

namespace Maxim.Publisher.AutoReply.FloodGate

open Maxim.Library
open Maxim.Moderation.CommercialCampaign.SlidingWindow (tostring tostring_lt_iff)

variable {δ : Type} [LinearOrder δ] {digest : List String → δ} {limits : FloodGateLimits}

/-! ## Counting -/

def datesOf (P : Event → Bool) (h : List Event) : List Nat := (h.filter P).map Entry.now

theorem countP_datesOf (P : Event → Bool) (h : List Event) (W t : Nat) :
    (datesOf P h).countP (inWindow W t) = (h.filter fun e => inWindow W t e.now && P e).length := by
  rw [datesOf, List.countP_map, List.countP_filter, List.countP_eq_length_filter]
  rfl

variable {h : List Event} {t now : Nat} {g : Gate δ}

theorem Tracks.countP_le (ht : Tracks digest h now g) {P : Event → Bool} {W : Nat}
    (hW : W ≤ rollingWindowMs) {chat : δ}
    (hP : ∀ e ∈ h, P e = true → ∃ k, Admitted digest k e ∧ k.chat = chat)
    {entries : List (Nat ×ₗ δ)} (hentries : ∀ e ∈ h, P e = true → inWindow W now e.now = true →
      ∀ k, Admitted digest k e → toLex (e.now, k.decision) ∈ entries) :
    (datesOf P h).countP (inWindow W now) ≤ entries.length := by
  rw [countP_datesOf, ← @List.length_map _ _ entries some]
  apply @length_le_of_nodup_map _ _
    fun e : Event => (buildKeys digest e.request.identity).map fun k => toLex (e.now, k.decision)
  · rw [List.Nodup, List.pairwise_map]
    refine (ht.spaced.sublist List.filter_sublist).imp_of_mem fun {e e'} he he' hspaced heq => ?_
    obtain ⟨hmem, hin⟩ := List.mem_filter.mp he
    obtain ⟨hmem', hin'⟩ := List.mem_filter.mp he'
    obtain ⟨hwindow, hPe⟩ := Bool.and_eq_true_iff.mp hin
    obtain ⟨hwindow', hPe'⟩ := Bool.and_eq_true_iff.mp hin'
    obtain ⟨k, hk, hchat⟩ := hP e hmem hPe
    obtain ⟨k', hk', hchat'⟩ := hP e' hmem' hPe'
    rw [hk.1, hk'.1, Option.map_some, Option.map_some, Option.some.injEq, toLex_inj,
      Prod.mk.injEq] at heq
    have hgap := hspaced k k' hk hk' (by rw [Keys.decisionKey, Keys.decisionKey, hchat, hchat', heq.2])
    have hshort : W ≤ decisionTtlMs := Nat.le_trans hW (by decide)
    rw [inWindow_iff] at hwindow hwindow'
    omega
  · intro e he
    obtain ⟨hmem, hin⟩ := List.mem_filter.mp he
    obtain ⟨hwindow, hPe⟩ := Bool.and_eq_true_iff.mp hin
    obtain ⟨k, hk, -⟩ := hP e hmem hPe
    rw [hk.1, Option.map_some]
    exact List.mem_map_of_mem (hentries e hmem hPe hwindow k hk)

theorem Tracks.below (ht : Tracks digest h now g) {P : Event → Bool} {chat : δ}
    (hP : ∀ e, P e = true → ∃ k, Admitted digest k e ∧ k.chat = chat) {s : Slot (Table δ Nat)}
    (hs : ∀ e ∈ h, P e = true → now < e.now + rollingWindowMs → ∀ k, Admitted digest k e →
      field (trimmed now s) k.decision = some e.now) :
    (datesOf P h).countP (inWindow rollingWindowMs now) ≤ zcard (trimmed now s) ∧
      (now < 10 ^ 14 + burstWindowMs → (datesOf P h).countP (inWindow burstWindowMs now) ≤
        zcountAbove (trimmed now s) (tostring (now - burstWindowMs))) := by
  refine ⟨ht.countP_le (Nat.le_refl _) (fun e _ => hP e) fun e he hPe hin k hk => ?_,
    fun hnow => ht.countP_le (by decide) (fun e _ => hP e) fun e he hPe hin k hk => ?_⟩
  · exact mem_ranked.mpr (hs e he hPe (inWindow_iff.mp hin).1 k hk)
  · have hwindow := (inWindow_iff.mp hin).1
    have hshort : burstWindowMs ≤ rollingWindowMs := by decide
    refine List.mem_filter.mpr ⟨mem_ranked.mpr (hs e he hPe (by omega) k hk), ?_⟩
    rw [decide_eq_true_eq]
    exact (tostring_lt_iff (by omega) e.now).mpr (by omega)

def byUser (publisherBotId chatId senderUserId : String) (e : Event) : Bool :=
  e.reply == some (1, 0) && e.request.identity.normalize.any fun i =>
    i.publisherBotId == publisherBotId && i.chatId == chatId && i.senderUserId == senderUserId

def byChat (publisherBotId chatId : String) (e : Event) : Bool :=
  e.reply == some (1, 0) && e.request.identity.normalize.any fun i =>
    i.publisherBotId == publisherBotId && i.chatId == chatId

omit [LinearOrder δ] in
theorem byUser_admitted {bot chat user : String} {e : Event} (h : byUser bot chat user e = true) :
    ∃ k, Admitted digest k e ∧ k.chat = digest ["chat", bot, chat] ∧
      k.user = digest ["user", bot, chat, user] := by
  obtain ⟨hreply, hid⟩ := Bool.and_eq_true_iff.mp h
  obtain ⟨i, hi, hparts⟩ := (Option.any_eq_true _ _).mp hid
  simp only [Bool.and_eq_true, beq_iff_eq] at hparts
  obtain ⟨⟨rfl, rfl⟩, rfl⟩ := hparts
  exact ⟨_, ⟨by rw [buildKeys, hi, Option.map_some], eq_of_beq hreply⟩, rfl, rfl⟩

omit [LinearOrder δ] in
theorem byChat_admitted {bot chat : String} {e : Event} (h : byChat bot chat e = true) :
    ∃ k, Admitted digest k e ∧ k.chat = digest ["chat", bot, chat] := by
  obtain ⟨hreply, hid⟩ := Bool.and_eq_true_iff.mp h
  obtain ⟨i, hi, hparts⟩ := (Option.any_eq_true _ _).mp hid
  simp only [Bool.and_eq_true, beq_iff_eq] at hparts
  obtain ⟨rfl, rfl⟩ := hparts
  exact ⟨_, ⟨by rw [buildKeys, hi, Option.map_some], eq_of_beq hreply⟩, rfl⟩

/-! ## Runs -/

def gateAfter (digest : List String → δ) (limits : FloodGateLimits) (h : List Event) : Gate δ :=
  replay (step digest limits) Gate.empty h

variable {h₁ h₂ : List Event}

theorem run_upto {x : Event}
    (hr : GateRun digest limits (h₁ ++ x :: h₂) t g) :
    ∃ t₁, GateRun digest limits h₁ t₁ (gateAfter digest limits h₁) ∧ t₁ ≤ x.now ∧ x.now ≤ t ∧
      x.reply = (step digest limits x.now x.request (gateAfter digest limits h₁)).2 ∧
      gateAfter digest limits (h₁ ++ [x]) =
        (step digest limits x.now x.request (gateAfter digest limits h₁)).1 := by
  rw [List.append_cons] at hr
  obtain ⟨t₂, g₂, hr₂, hle⟩ := hr.of_append
  obtain ⟨t₁, g₁, hr₁, hle₁, -, rfl, hreply, -⟩ := hr₂.snoc_inv
  have hg : gateAfter digest limits h₁ = g₁ := hr₁.replay_eq
  rw [hg]
  exact ⟨t₁, hr₁, hle₁, hle, hreply, by rw [gateAfter, replay_snoc, ← gateAfter, hg]⟩

variable {k : Keys δ}

theorem reply_outcome {x : Event}
    (hr : GateRun digest limits (h₁ ++ x :: h₂) t g)
    (hk : buildKeys digest x.request.identity = some k) :
    ∃ raw, x.reply = some raw ∧ Outcome limits x.now k (gateAfter digest limits h₁)
      (gateAfter digest limits (h₁ ++ [x])) raw := by
  obtain ⟨-, -, -, -, hreply, hafter⟩ := run_upto hr
  have hstep : step digest limits x.now x.request (gateAfter digest limits h₁) =
      ((script limits x.now k x.request (gateAfter digest limits h₁)).1,
        some (script limits x.now k x.request (gateAfter digest limits h₁)).2) := by
    simp [step, hk]
  rw [hstep] at hreply hafter
  exact ⟨_, hreply, hafter ▸ script_outcome limits x.now k x.request _⟩

theorem admission_below {x : Event}
    (hr : GateRun digest limits (h₁ ++ x :: h₂) t g) (hx : Admitted digest k x) :
    zcountAbove (trimmed x.now ((gateAfter digest limits h₁).users k.userKey))
        (tostring (x.now - burstWindowMs)) < limits.userBurstLimit ∧
      zcard (trimmed x.now ((gateAfter digest limits h₁).users k.userKey)) < limits.userRollingLimit ∧
      zcountAbove (trimmed x.now ((gateAfter digest limits h₁).chats k.chat))
        (tostring (x.now - burstWindowMs)) < limits.chatBurstLimit ∧
      zcard (trimmed x.now ((gateAfter digest limits h₁).chats k.chat)) < limits.chatRollingLimit := by
  obtain ⟨raw, hreply, ho⟩ := reply_outcome hr hx.1
  obtain rfl := Option.some.inj (hreply.symm.trans hx.2)
  generalize gateAfter digest limits (h₁ ++ [x]) = g' at ho
  generalize hraw : ((1, 0) : Raw) = raw at ho
  cases ho with
  | answers decision =>
    unfold replayed at hraw
    split at hraw
    · cases hraw
    · split at hraw <;> cases hraw
  | refuses _ _ status => rcases status with rfl | rfl <;> cases hraw
  | denies | repeats | conflicts => cases hraw
  | admits _ _ _ userBurst userRolling chatBurst chatRolling =>
    exact ⟨userBurst, userRolling, chatBurst, chatRolling⟩

theorem window_le_limit {P : Event → Bool} {W limit : Nat} (hr : GateRun digest limits h t g)
    (hP : ∀ h₁ x h₂, h = h₁ ++ x :: h₂ → P x = true →
      (datesOf P h₁).countP (inWindow W x.now) < limit) (t' : Nat) :
    (datesOf P h).countP (inWindow W t') ≤ limit := by
  have hsorted : (datesOf P h).Pairwise (· ≤ ·) :=
    (run_tracks hr).sorted.sublist (List.filter_sublist.map Entry.now)
  refine countP_inWindow_le_limit hsorted (fun pre d post he => ?_) t'
  obtain ⟨l, l', hl, hpre, htail⟩ := List.map_eq_append_iff.mp he
  obtain ⟨x, l'', rfl, rfl, -⟩ := List.map_eq_cons_iff.mp htail
  obtain ⟨h₁, h₂, rfl, hfilter, htail'⟩ := List.filter_eq_append_iff.mp hl
  obtain ⟨h₃, h₄, rfl, hnone, hPx, -⟩ := List.filter_eq_cons_iff.mp htail'
  have hdates : datesOf P (h₁ ++ h₃) = pre := by
    rw [datesOf, List.filter_append, hfilter, List.filter_eq_nil_iff.mpr hnone, List.append_nil, hpre]
  rw [← hdates]
  exact hP (h₁ ++ h₃) x h₄ (by simp) hPx

theorem Tracks.user_held (ht : Tracks digest h now g) {bot chat user : String}
    (hk : k.chat = digest ["chat", bot, chat] ∧ k.user = digest ["user", bot, chat, user]) :
    ∀ e ∈ h, byUser bot chat user e = true → now < e.now + rollingWindowMs → ∀ k', Admitted digest k' e →
      field (trimmed now (g.users k.userKey)) k'.decision = some e.now := by
  intro e he hP hwindow k' hk'
  obtain ⟨k₂, hk₂, hchat, huser⟩ := @byUser_admitted _ digest _ _ _ _ hP
  obtain rfl := Option.some.inj (hk₂.1.symm.trans hk'.1)
  have hsame : k.userKey = k₂.userKey := by
    rw [Keys.userKey, Keys.userKey, hk.1, hk.2, hchat, huser]
  rw [hsame]
  exact (ht.users _).field_trimmed (ht.userEntry e he k₂ hk' hwindow) hwindow

theorem Tracks.chat_held (ht : Tracks digest h now g) {bot chat : String}
    (hk : k.chat = digest ["chat", bot, chat]) :
    ∀ e ∈ h, byChat bot chat e = true → now < e.now + rollingWindowMs → ∀ k', Admitted digest k' e →
      field (trimmed now (g.chats k.chat)) k'.decision = some e.now := by
  intro e he hP hwindow k' hk'
  obtain ⟨k₂, hk₂, hchat⟩ := @byChat_admitted _ digest _ _ _ hP
  obtain rfl := Option.some.inj (hk₂.1.symm.trans hk'.1)
  rw [hk, ← hchat]
  exact (ht.chats _).field_trimmed (ht.chatEntry e he k₂ hk' hwindow) hwindow

theorem user_below {x : Event} {bot chat user : String}
    (hr : GateRun digest limits (h₁ ++ x :: h₂) t g) (hx : byUser bot chat user x = true) :
    (datesOf (byUser bot chat user) h₁).countP (inWindow rollingWindowMs x.now) <
        limits.userRollingLimit ∧
      (x.now < 10 ^ 14 + burstWindowMs →
        (datesOf (byUser bot chat user) h₁).countP (inWindow burstWindowMs x.now) <
          limits.userBurstLimit) := by
  obtain ⟨t₁, hr₁, hle, -⟩ := run_upto hr
  have ht := (run_tracks hr₁).mono hle
  obtain ⟨k, hk, hkey⟩ := @byUser_admitted _ digest _ _ _ _ hx
  obtain ⟨hburst, hrolling, -⟩ := admission_below hr hk
  obtain ⟨hcard, hcount⟩ := ht.below
    (fun e he => (byUser_admitted he).imp fun _ hk => ⟨hk.1, hk.2.1⟩) (ht.user_held hkey)
  exact ⟨Nat.lt_of_le_of_lt hcard hrolling, fun hnow => Nat.lt_of_le_of_lt (hcount hnow) hburst⟩

theorem chat_below {x : Event} {bot chat : String}
    (hr : GateRun digest limits (h₁ ++ x :: h₂) t g) (hx : byChat bot chat x = true) :
    (datesOf (byChat bot chat) h₁).countP (inWindow rollingWindowMs x.now) <
        limits.chatRollingLimit ∧
      (x.now < 10 ^ 14 + burstWindowMs →
        (datesOf (byChat bot chat) h₁).countP (inWindow burstWindowMs x.now) <
          limits.chatBurstLimit) := by
  obtain ⟨t₁, hr₁, hle, -⟩ := run_upto hr
  have ht := (run_tracks hr₁).mono hle
  obtain ⟨k, hk, hkey⟩ := @byChat_admitted _ digest _ _ _ hx
  obtain ⟨-, -, hburst, hrolling⟩ := admission_below hr hk
  obtain ⟨hcard, hcount⟩ := ht.below
    (fun e he => byChat_admitted he) (ht.chat_held hkey)
  exact ⟨Nat.lt_of_le_of_lt hcard hrolling, fun hnow => Nat.lt_of_le_of_lt (hcount hnow) hburst⟩

/-! ## Decisions -/

def FloodGateResult.again : FloodGateResult → FloodGateResult
  | .allowed _ => .allowed true
  | .denied reason => .denied reason

def FloodGateResult.decided : FloodGateResult → Bool
  | .allowed _ => true
  | .denied reason => reason ≠ .decisionMissing ∧ reason ≠ .unavailable

/-- Two calls about one message of one chat. -/
def SameMessage (x y : Event) : Prop :=
  ∃ i i', x.request.identity.normalize = some i ∧ y.request.identity.normalize = some i' ∧
    i.publisherBotId = i'.publisherBotId ∧ i.chatId = i'.chatId ∧
    i.sourceMessageId = i'.sourceMessageId

@[simp] theorem evaluate_two (replayOnly : Bool) :
    evaluate replayOnly (some (2, 0)) = some (.allowed true) := by
  cases replayOnly <;> rfl

@[simp] theorem evaluate_zero (replayOnly : Bool) (reason : Nat) :
    evaluate replayOnly (some (0, reason)) = (denialReason reason).map .denied := by
  cases hr : denialReason reason <;> simp [evaluate, hr]

theorem replayed_deny {reason : Nat} (h : 1 ≤ reason ∧ reason ≤ 6) :
    replayed (reason + 10) = (0, reason) := by
  rw [replayed, if_neg (by omega), if_pos (by omega), Nat.add_sub_cancel]

theorem denied_of_zero {replayOnly : Bool} {reason : Nat} {res : FloodGateResult}
    (h : evaluate replayOnly (some (0, reason)) = some res) : ∃ r, res = .denied r := by
  rw [evaluate_zero] at h
  obtain ⟨r, -, rfl⟩ := Option.map_eq_some_iff.mp h
  exact ⟨r, rfl⟩

theorem evaluate_replayed {replayOnly replayOnly' : Bool} {d : Nat} {res : FloodGateResult}
    (h : evaluate replayOnly (some (replayed d)) = some res) (hd : res.decided = true) :
    evaluate replayOnly' (some (replayed d)) = some res.again := by
  unfold replayed at h ⊢
  split at h
  · next hone =>
    rw [if_pos hone, evaluate_two]
    rw [evaluate_two] at h
    obtain rfl := Option.some.inj h
    rfl
  · next hone =>
    rw [if_neg hone]
    split at h
    · next hcode =>
      rw [if_pos hcode, evaluate_zero, ← evaluate_zero replayOnly, h]
      obtain ⟨r, rfl⟩ := denied_of_zero h
      rfl
    · obtain rfl : FloodGateResult.denied .unavailable = res := Option.some.inj h
      cases hd

/-- What a decided call leaves behind. -/
theorem Outcome.decision {g g' : Gate δ} {raw : Raw}
    (h : Outcome limits now k g g' raw) {replayOnly : Bool} {res : FloodGateResult}
    (hres : evaluate replayOnly (some raw) = some res) (hd : res.decided = true) :
    ∃ c, g'.decisions k.decisionKey = some c ∧ c.live now = true ∧
      ∀ b, evaluate b (some (replayed c.value)) = some res.again := by
  have hcell : ∀ (g₁ : Gate δ) (d : Nat), (∀ b, evaluate b (some (replayed d)) = some res.again) →
      ∃ c, (g₁.decide now k d).decisions k.decisionKey = some c ∧ c.live now = true ∧
        ∀ b, evaluate b (some (replayed c.value)) = some res.again := by
    intro g₁ d hb
    refine ⟨⟨d, some (now + decisionTtlMs)⟩, put_same _ _ _, ?_, hb⟩
    rw [live_some, decide_eq_true_eq]
    exact Nat.le_add_right _ _
  cases h with
  | answers d stored =>
    obtain ⟨c, hc, rfl⟩ := Option.map_eq_some_iff.mp stored
    obtain ⟨hslot, hlive⟩ := purge_eq_some.mp hc
    exact ⟨c, hslot, hlive, fun b => evaluate_replayed hres hd⟩
  | refuses _ _ status =>
    rcases status with rfl | rfl
    · obtain rfl : FloodGateResult.denied .decisionMissing = res := Option.some.inj hres
      cases hd
    · obtain rfl : FloodGateResult.denied .unavailable = res := Option.some.inj hres
      cases hd
  | denies g₁ reason _ _ valid =>
    refine hcell g₁ (reason + 10) fun b => ?_
    rw [replayed_deny valid, evaluate_zero, ← evaluate_zero replayOnly, hres]
    obtain ⟨r, rfl⟩ := denied_of_zero hres
    rfl
  | repeats =>
    rw [evaluate_two] at hres
    obtain rfl := Option.some.inj hres
    exact hcell _ 1 fun b => evaluate_two b
  | conflicts =>
    obtain rfl : FloodGateResult.denied .unavailable = res := Option.some.inj hres
    cases hd
  | admits =>
    cases replayOnly with
    | true => cases hres
    | false =>
      obtain rfl : FloodGateResult.allowed false = res := Option.some.inj hres
      exact hcell _ 1 fun b => evaluate_two b

theorem decision_stays {pre post : List Event} {key : δ × δ} {c : Cell Nat}
    (hc : (gateAfter digest limits pre).decisions key = some c)
    (hr : GateRun digest limits (pre ++ post) t g) (hlive : c.live t = true) :
    g.decisions key = some c := by
  induction post using List.reverseRecOn generalizing t g with
  | nil =>
    rw [List.append_nil] at hr
    have hg : gateAfter digest limits pre = g := hr.replay_eq
    rwa [← hg]
  | append_singleton post e ih =>
    rw [← List.append_assoc] at hr
    obtain ⟨t₁, g₁, hr₁, hle, -, rfl, -, rfl⟩ := hr.snoc_inv
    have hold := ih hr₁ (live_mono hlive hle)
    cases hk : buildKeys digest e.request.identity with
    | none => simpa [step, hk] using hold
    | some k =>
      have hstep : (step digest limits e.now e.request g₁).1 =
          (script limits e.now k e.request g₁).1 := by simp [step, hk]
      rw [hstep]
      rcases (script_outcome limits e.now k e.request g₁).decisions key with hsame | ⟨-, hnone⟩
      · rw [hsame, hold]
      · rw [hold, purge_some_of_live hlive] at hnone
        cases hnone

theorem Outcome.of_live {g g' : Gate δ} {raw : Raw} {c : Cell Nat}
    (h : Outcome limits now k g g' raw) (hc : g.decisions k.decisionKey = some c)
    (hlive : c.live now = true) : g' = g ∧ raw = replayed c.value := by
  have hstored : content (purge now (g.decisions k.decisionKey)) = some c.value := by
    rw [hc, purge_some_of_live hlive, content_some]
  cases h with
  | answers d stored =>
    obtain rfl := Option.some.inj (hstored.symm.trans stored)
    exact ⟨rfl, rfl⟩
  | refuses _ missing | denies _ _ missing | repeats missing | conflicts missing
  | admits missing =>
    rw [hstored] at missing
    cases missing

/-! ## The contract -/

/-- Entries of the rolling window stay, and nothing is added. -/
structure KeepsWindow (now : Nat) (s s' : Slot (Table δ Nat)) : Prop where
  kept : ∀ m x, field s m = some x → now < x + rollingWindowMs → field s' m = some x
  added : ∀ m x, field s' m = some x → field s m = some x

/-- What the gate promises about a history that ends at `t`. -/
structure FloodContract (digest : List String → δ) (limits : FloodGateLimits) (h : List Event)
    (t : Nat) : Prop where
  /-- No burst window holds more admissions of a sender than the limit. -/
  userBurst : t < 10 ^ 14 + burstWindowMs → ∀ bot chat user t',
    (datesOf (byUser bot chat user) h).countP (inWindow burstWindowMs t') ≤ limits.userBurstLimit
  userRolling : ∀ bot chat user t',
    (datesOf (byUser bot chat user) h).countP (inWindow rollingWindowMs t') ≤
      limits.userRollingLimit
  chatBurst : t < 10 ^ 14 + burstWindowMs → ∀ bot chat t',
    (datesOf (byChat bot chat) h).countP (inWindow burstWindowMs t') ≤ limits.chatBurstLimit
  chatRolling : ∀ bot chat t',
    (datesOf (byChat bot chat) h).countP (inWindow rollingWindowMs t') ≤ limits.chatRollingLimit
  /-- While the decision about a message lives, every call about it gets the same answer, an
  admission as a replay, and changes nothing. -/
  decided : ∀ h₁ x h₂ res, h = h₁ ++ x :: h₂ →
    evaluate x.request.replayOnly x.reply = some res → res.decided = true →
    ∀ k, buildKeys digest x.request.identity = some k →
    ∃ c, (gateAfter digest limits (h₁ ++ [x])).decisions k.decisionKey = some c ∧
      c.live x.now = true ∧ ∀ h₃ y h₄, h₂ = h₃ ++ y :: h₄ → SameMessage x y → c.live y.now = true →
        evaluate y.request.replayOnly y.reply = some res.again ∧
        gateAfter digest limits (h₁ ++ x :: h₃ ++ [y]) = gateAfter digest limits (h₁ ++ x :: h₃)
  /-- A replay changes nothing and admits nothing that has no decision. -/
  replays : ∀ h₁ x h₂, h = h₁ ++ x :: h₂ → x.request.replayOnly = true →
    gateAfter digest limits (h₁ ++ [x]) = gateAfter digest limits h₁ ∧ x.reply ≠ some (1, 0) ∧
    ∀ k, buildKeys digest x.request.identity = some k →
      content (purge x.now ((gateAfter digest limits h₁).decisions k.decisionKey)) = none →
      evaluate x.request.replayOnly x.reply = some (.denied .decisionMissing)
  /-- A call that is not allowed leaves the admissions of both windows. -/
  denied : ∀ h₁ x h₂ reason, h = h₁ ++ x :: h₂ →
    evaluate x.request.replayOnly x.reply = some (.denied reason) →
    (∀ key, KeepsWindow x.now ((gateAfter digest limits h₁).users key)
      ((gateAfter digest limits (h₁ ++ [x])).users key)) ∧
    ∀ key, KeepsWindow x.now ((gateAfter digest limits h₁).chats key)
      ((gateAfter digest limits (h₁ ++ [x])).chats key)

omit [LinearOrder δ] in
theorem SameMessage.decisionKey {x y : Event} (h : SameMessage x y)
    (hk : buildKeys digest x.request.identity = some k) :
    ∃ k', buildKeys digest y.request.identity = some k' ∧ k'.decisionKey = k.decisionKey := by
  obtain ⟨i, i', hi, hi', hbot, hchat, hmessage⟩ := h
  rw [buildKeys, hi, Option.map_some, Option.some.injEq] at hk
  refine ⟨_, by rw [buildKeys, hi', Option.map_some], ?_⟩
  rw [← hk, Keys.decisionKey, Keys.decisionKey, hbot, hchat, hmessage]

def Quiet (now : Nat) (s s' : Slot (Table δ Nat)) : Prop := s' = s ∨ s' = trimmed now s

theorem Quiet.keepsWindow {s s' : Slot (Table δ Nat)} (h : Quiet now s s') (hs : Outlives t s) :
    KeepsWindow now s s' := by
  rcases h with rfl | rfl
  · exact ⟨fun _ _ hx _ => hx, fun _ _ hx => hx⟩
  · exact ⟨fun _ _ hx hwindow => hs.field_trimmed hx hwindow, fun _ _ hx => (field_trimmed hx).1⟩

theorem quiet_trim (now : Nat) (k : Keys δ) (g : Gate δ) :
    (∀ key, Quiet now (g.users key) ((g.trim now k).users key)) ∧
      ∀ key, Quiet now (g.chats key) ((g.trim now k).chats key) := by
  constructor <;> intro key
  · change Quiet now _ (put g.users k.userKey _ key)
    rw [put_apply]
    split
    · next hk => exact .inr (by rw [hk])
    · exact .inl rfl
  · change Quiet now _ (put g.chats k.chat _ key)
    rw [put_apply]
    split
    · next hk => exact .inr (by rw [hk])
    · exact .inl rfl

theorem Outcome.quiet {g g' : Gate δ} {raw : Raw} (h : Outcome limits now k g g' raw)
    {replayOnly : Bool} {reason : DenialReason}
    (hres : evaluate replayOnly (some raw) = some (.denied reason)) :
    (∀ key, Quiet now (g.users key) (g'.users key)) ∧
      ∀ key, Quiet now (g.chats key) (g'.chats key) := by
  have hsame : ∀ g₁ : Gate δ, (∀ key, Quiet now (g₁.users key) (g₁.users key)) ∧
      ∀ key, Quiet now (g₁.chats key) (g₁.chats key) := fun g₁ => ⟨fun _ => .inl rfl, fun _ => .inl rfl⟩
  cases h with
  | answers | refuses => exact hsame g
  | denies g₁ _ _ kept =>
    rcases kept with rfl | rfl
    · exact hsame g₁
    · exact quiet_trim now k g
  | repeats =>
    rw [evaluate_two] at hres
    cases hres
  | conflicts => exact quiet_trim now k g
  | admits => cases replayOnly <;> cases hres

/-- Every run keeps the contract. -/
theorem flood_gate (hr : GateRun digest limits h t g) : FloodContract digest limits h t := by
  have hlate : ∀ {h₁ h₂ : List Event} {x : Event}, h = h₁ ++ x :: h₂ → x.now ≤ t := by
    rintro h₁ h₂ x rfl
    exact (run_upto hr).choose_spec.2.2.1
  constructor
  · intro ht bot chat user
    refine window_le_limit hr ?_
    rintro h₁ x h₂ he hx
    exact (user_below (he ▸ hr) hx).2 (Nat.lt_of_le_of_lt (hlate he) ht)
  · intro bot chat user
    refine window_le_limit hr ?_
    rintro h₁ x h₂ rfl hx
    exact (user_below hr hx).1
  · intro ht bot chat
    refine window_le_limit hr ?_
    rintro h₁ x h₂ he hx
    exact (chat_below (he ▸ hr) hx).2 (Nat.lt_of_le_of_lt (hlate he) ht)
  · intro bot chat
    refine window_le_limit hr ?_
    rintro h₁ x h₂ rfl hx
    exact (chat_below hr hx).1
  · rintro h₁ x h₂ res rfl hres hd k hk
    obtain ⟨raw, hraw, ho⟩ := reply_outcome hr hk
    rw [hraw] at hres
    obtain ⟨c, hc, hlive, hagain⟩ := ho.decision hres hd
    refine ⟨c, hc, hlive, ?_⟩
    rintro h₃ y h₄ rfl hsame hlater
    obtain ⟨k', hk', hkey⟩ := hsame.decisionKey hk
    rw [← List.cons_append, ← List.append_assoc] at hr
    obtain ⟨t₁, hr₁, hle, -⟩ := run_upto hr
    obtain ⟨raw', hraw', ho'⟩ := reply_outcome hr hk'
    rw [List.append_cons] at hr₁
    have hstay := decision_stays hc hr₁ (live_mono hlater hle)
    rw [← List.append_cons] at hstay
    obtain ⟨hgate, hanswer⟩ := ho'.of_live (hkey ▸ hstay) hlater
    rw [hraw', hanswer]
    exact ⟨hagain _, hgate⟩
  · rintro h₁ x h₂ rfl honly
    obtain ⟨-, -, -, -, hreply, hafter⟩ := run_upto hr
    rw [hreply, hafter]
    cases hk : buildKeys digest x.request.identity with
    | none =>
      refine ⟨by simp [step, hk], by simp [step, hk], ?_⟩
      rintro k ⟨⟩
    | some k =>
      simp only [step, hk, script, honly, if_true]
      cases hc : content (purge x.now ((gateAfter digest limits h₁).decisions k.decisionKey)) with
      | none =>
        exact ⟨rfl, by simp, fun _ _ _ => rfl⟩
      | some d =>
        refine ⟨rfl, ?_, ?_⟩
        · dsimp only
          unfold replayed
          split
          · simp
          · split <;> simp
        · rintro k' hk' hnone
          obtain rfl := Option.some.inj hk'
          rw [hc] at hnone
          cases hnone
  · rintro h₁ x h₂ reason rfl hres
    obtain ⟨t₁, hr₁, -, -, hreply, hafter⟩ := run_upto hr
    have ht := run_tracks hr₁
    cases hk : buildKeys digest x.request.identity with
    | none =>
      have hsame : gateAfter digest limits (h₁ ++ [x]) = gateAfter digest limits h₁ := by
        rw [hafter]
        simp [step, hk]
      rw [hsame]
      exact ⟨fun key => Quiet.keepsWindow (.inl rfl) (ht.users key),
        fun key => Quiet.keepsWindow (.inl rfl) (ht.chats key)⟩
    | some k =>
      obtain ⟨raw, hraw, ho⟩ := reply_outcome hr hk
      rw [hraw] at hres
      obtain ⟨husers, hchats⟩ := ho.quiet hres
      exact ⟨fun key => (husers key).keepsWindow (ht.users key),
        fun key => (hchats key).keepsWindow (ht.chats key)⟩

/-! ## Three messages of one sender -/

def joined (parts : List String) : String := "|".intercalate parts

def oneEach : FloodGateLimits := ⟨1, 10, 30, 120⟩

def reserveOf (message : String) : Request := ⟨⟨"bot", "chat", "user", message⟩, none, false, 10 ^ 16⟩

def replayOf (message : String) : Request := ⟨⟨"bot", "chat", "user", message⟩, none, true, 10 ^ 16⟩

/-- The second message is admitted when the first has left the burst window; the third is denied
when the first has left the rolling window as well. -/
def threeMessages : List Event × Gate String :=
  play (step joined oneEach) Gate.empty
    [(0, reserveOf "m0"), (59000, reserveOf "m1"), (60000, reserveOf "m2"), (60000, replayOf "m1")]

def lateMessages : List Event × Gate String :=
  play (step joined oneEach) Gate.empty
    [(100000000000018, reserveOf "m0"), (100000000010015, reserveOf "m1")]

theorem flood_gate_three : (threeMessages.1.map fun e => evaluate e.request.replayOnly e.reply) =
      [some (.allowed false), some (.allowed false), some (.denied .userBurst),
        some (.allowed true)] ∧
    ∃ t, FloodContract joined oneEach threeMessages.1 t := by
  refine ⟨by decide +kernel, ?_⟩
  obtain ⟨t, hr⟩ : ∃ t, GateRun joined oneEach threeMessages.1 t threeMessages.2 :=
    run_play (by decide) ⟨trivial, trivial, trivial, trivial, trivial⟩
  exact ⟨t, flood_gate hr⟩

/-- Past 10^14 ms the printed bound of the burst window overtakes an admission of the window, and a
denied call removes what has left the rolling window. -/
theorem late_burst_and_trimmed_entry :
    (¬∀ h t g, GateRun joined oneEach h t g → ∀ bot chat user t',
      (datesOf (byUser bot chat user) h).countP (inWindow burstWindowMs t') ≤
        oneEach.userBurstLimit) ∧
    ¬∀ h t g, GateRun joined oneEach h t g → ∀ h₁ x h₂ reason, h = h₁ ++ x :: h₂ →
      evaluate x.request.replayOnly x.reply = some (.denied reason) → ∀ key m,
      field ((gateAfter joined oneEach (h₁ ++ [x])).users key) m =
        field ((gateAfter joined oneEach h₁).users key) m := by
  constructor
  · intro hall
    obtain ⟨t, hr⟩ : ∃ t, GateRun joined oneEach lateMessages.1 t lateMessages.2 :=
      run_play (by decide) ⟨trivial, trivial, trivial⟩
    have hle := hall _ t _ hr "bot" "chat" "user" 100000000010015
    revert hle
    decide +kernel
  · intro hall
    obtain ⟨t, hr⟩ : ∃ t, GateRun joined oneEach threeMessages.1 t threeMessages.2 :=
      run_play (by decide) ⟨trivial, trivial, trivial, trivial, trivial⟩
    have hsame := hall _ t _ hr (threeMessages.1.take 2) threeMessages.1[2] (threeMessages.1.drop 3)
      .userBurst (by rfl) (by decide +kernel) ("chat|bot|chat", "user|bot|chat|user")
      "decision|bot|chat|m0"
    revert hsame
    decide +kernel

end Maxim.Publisher.AutoReply.FloodGate
