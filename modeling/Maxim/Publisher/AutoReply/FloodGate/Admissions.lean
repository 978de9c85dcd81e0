import Maxim.Publisher.AutoReply.FloodGate

/-!
# What the flood gate remembers of its admissions

While a window can still count a message, both sets hold it, and its decision
is kept. So no message is admitted twice within the lifetime of its decision,
and the script counts every admission of the window.
-/

namespace Maxim.Publisher.AutoReply.FloodGate

open Maxim.Library
open Maxim.Moderation.CommercialCampaign.SlidingWindow (tostring tostring_lt_iff)

variable {δ : Type} [LinearOrder δ]

/-! ## One set -/

/-- The entries are not of the future, and the set lives longer than a window after each. -/
def Outlives (t : Nat) (s : Slot (Table δ Nat)) : Prop :=
  ∀ m x, field s m = some x → x ≤ t ∧ ∀ y, expiry s = some y → x + setTtlMs ≤ y

theorem outlives_none (t : Nat) : Outlives t (none : Slot (Table δ Nat)) := by
  intro m x hx
  cases hx

variable {t now : Nat} {s : Slot (Table δ Nat)}

theorem Outlives.mono (h : Outlives t s) (hle : t ≤ now) : Outlives now s := fun m x hx =>
  ⟨Nat.le_trans (h m x hx).1 hle, (h m x hx).2⟩

theorem field_trimmed {m : δ} {x : Nat} (h : field (trimmed now s) m = some x) :
    field s m = some x ∧ now < x + rollingWindowMs := by
  rw [trimmed, field_removeScored, Option.filter_eq_some_iff, decide_eq_true_eq] at h
  exact ⟨field_purge_eq_some h.1, by omega⟩

theorem expiry_trimmed {y : Nat} (h : expiry (trimmed now s) = some y) : expiry s = some y := by
  obtain ⟨c, hc, hy⟩ := Option.bind_eq_some_iff.mp (expiry_removeScored h)
  rw [(purge_eq_some.mp hc).1]
  exact hy

theorem Outlives.trimmed (h : Outlives t s) : Outlives t (trimmed now s) := fun m x hx =>
  ⟨(h m x (field_trimmed hx).1).1, fun y hy => (h m x (field_trimmed hx).1).2 y (expiry_trimmed hy)⟩

/-- Trimming keeps the entries of the rolling window. -/
theorem Outlives.field_trimmed (h : Outlives t s) {m : δ} {x : Nat} (hx : field s m = some x)
    (hwindow : now < x + rollingWindowMs) : field (FloodGate.trimmed now s) m = some x := by
  have hlive : purge now s = s := by
    obtain ⟨c, hc, -⟩ := Option.bind_eq_some_iff.mp hx
    rw [hc]
    apply purge_some_of_live
    cases hexp : c.expiresAt with
    | none => simp [Cell.live, hexp]
    | some y =>
      have hy := (h m x hx).2 y (by simp [expiry, hc, hexp])
      simp only [Cell.live, hexp, decide_eq_true_eq]
      have hshort : rollingWindowMs ≤ setTtlMs := by decide
      omega
  rw [FloodGate.trimmed, hlive, field_removeScored, hx, Option.filter_some, if_pos]
  simp only [decide_eq_true_eq]
  omega

theorem field_entered (member m : δ) :
    field (entered now member s) m = if m = member then some now else field s m := by
  rw [entered, field_expireAt, field_setField]

theorem expiry_entered (member : δ) : expiry (entered now member s) = some (now + setTtlMs) := by
  cases s <;> rfl

theorem Outlives.entered (h : Outlives t s) (hle : t ≤ now) (member : δ) :
    Outlives now (entered now member s) := by
  intro m x hx
  have hnow : x ≤ now := by
    rw [field_entered] at hx
    split at hx
    · exact Nat.le_of_eq (Option.some.inj hx).symm
    · exact Nat.le_trans (h m x hx).1 hle
  refine ⟨hnow, fun y hy => ?_⟩
  rw [expiry_entered, Option.some.injEq] at hy
  omega

/-! ## One run of the script -/

inductive Outcome (limits : FloodGateLimits) (now : Nat) (k : Keys δ) (g : Gate δ) :
    Gate δ → Raw → Prop
  | answers (decision : Nat)
    (stored : content (purge now (g.decisions k.decisionKey)) = some decision) :
    Outcome limits now k g g (replayed decision)
  | refuses (raw : Raw) (missing : content (purge now (g.decisions k.decisionKey)) = none)
    (status : raw = (3, 0) ∨ raw = (-2, 0)) : Outcome limits now k g g raw
  | denies (g' : Gate δ) (reason : Nat)
    (missing : content (purge now (g.decisions k.decisionKey)) = none)
    (kept : g' = g ∨ g' = g.trim now k) (valid : 1 ≤ reason ∧ reason ≤ 6) :
    Outcome limits now k g (g'.decide now k (reason + 10)) (0, reason)
  | repeats (missing : content (purge now (g.decisions k.decisionKey)) = none)
    (entry : (field (trimmed now (g.chats k.chat)) k.decision).isSome) :
    Outcome limits now k g ((g.trim now k).decide now k 1) (2, 0)
  | conflicts (missing : content (purge now (g.decisions k.decisionKey)) = none)
    (entry : (field (trimmed now (g.chats k.chat)) k.decision).isSome ∨
      (field (trimmed now (g.users k.userKey)) k.decision).isSome) :
    Outcome limits now k g (g.trim now k) (-1, 0)
  | admits (missing : content (purge now (g.decisions k.decisionKey)) = none)
    (freshUser : field (trimmed now (g.users k.userKey)) k.decision = none)
    (freshChat : field (trimmed now (g.chats k.chat)) k.decision = none)
    (userBurst : zcountAbove (trimmed now (g.users k.userKey)) (tostring (now - burstWindowMs)) <
      limits.userBurstLimit)
    (userRolling : zcard (trimmed now (g.users k.userKey)) < limits.userRollingLimit)
    (chatBurst : zcountAbove (trimmed now (g.chats k.chat)) (tostring (now - burstWindowMs)) <
      limits.chatBurstLimit)
    (chatRolling : zcard (trimmed now (g.chats k.chat)) < limits.chatRollingLimit) :
    Outcome limits now k g (((g.trim now k).enter now k).decide now k 1) (1, 0)

theorem denyReason_cases (limits : FloodGateLimits) (a b c d : Nat) :
    denyReason limits a b c d = 0 ∧ a < limits.userBurstLimit ∧ b < limits.userRollingLimit ∧
        c < limits.chatBurstLimit ∧ d < limits.chatRollingLimit ∨
      1 ≤ denyReason limits a b c d ∧ denyReason limits a b c d ≤ 6 := by
  unfold denyReason
  split
  · exact .inr (by decide)
  · split
    · exact .inr (by decide)
    · split
      · exact .inr (by decide)
      · split
        · exact .inr (by decide)
        · exact .inl ⟨rfl, by omega, by omega, by omega, by omega⟩

@[simp] theorem trim_users (g : Gate δ) (now : Nat) (k : Keys δ) :
    (g.trim now k).users k.userKey = trimmed now (g.users k.userKey) := put_same _ _ _

@[simp] theorem trim_chats (g : Gate δ) (now : Nat) (k : Keys δ) :
    (g.trim now k).chats k.chat = trimmed now (g.chats k.chat) := put_same _ _ _

theorem admission_outcome {limits : FloodGateLimits} {now : Nat} {k : Keys δ} {g : Gate δ}
    (missing : content (purge now (g.decisions k.decisionKey)) = none) :
    Outcome limits now k g (admission limits now k (g.trim now k)).1
      (admission limits now k (g.trim now k)).2 := by
  unfold admission
  simp only [trim_users, trim_chats]
  split
  · next hchat => exact .repeats missing (by simp [hchat])
  · next hfreshUser hfreshChat =>
    rcases denyReason_cases limits
      (zcountAbove (trimmed now (g.users k.userKey)) (tostring (now - burstWindowMs)))
      (zcard (trimmed now (g.users k.userKey)))
      (zcountAbove (trimmed now (g.chats k.chat)) (tostring (now - burstWindowMs)))
      (zcard (trimmed now (g.chats k.chat))) with ⟨hzero, h₁, h₂, h₃, h₄⟩ | hvalid
    · rw [if_neg (by rw [hzero]; simp)]
      exact .admits missing hfreshUser hfreshChat h₁ h₂ h₃ h₄
    · rw [if_pos (by omega)]
      exact .denies _ _ missing (.inr rfl) hvalid
  · next hnone hsome =>
    refine .conflicts missing ?_
    cases hu : field (trimmed now (g.users k.userKey)) k.decision with
    | some x => exact .inr rfl
    | none =>
      cases hc : field (trimmed now (g.chats k.chat)) k.decision with
      | some x => exact .inl rfl
      | none => exact absurd hc (hsome hu)

theorem script_outcome (limits : FloodGateLimits) (now : Nat) (k : Keys δ) (r : Request)
    (g : Gate δ) : Outcome limits now k g (script limits now k r g).1 (script limits now k r g).2 := by
  unfold script
  split
  · next decision hd => exact .answers decision hd
  · next missing =>
    split
    · exact .refuses _ missing (.inl rfl)
    · split
      · exact .refuses _ missing (.inr rfl)
      · dsimp only
        split
        · refine .denies g _ missing (.inl rfl) ?_
          cases hr : r.upstreamDenialReason with
          | none => simp_all [encodeUpstreamDenialReason]
          | some u => cases u <;> decide
        · exact admission_outcome missing

inductive SetMove (now : Nat) (member : δ) (s : Slot (Table δ Nat)) : Slot (Table δ Nat) → Prop
  | same : SetMove now member s s
  | trims : SetMove now member s (trimmed now s)
  | enters (fresh : field (trimmed now s) member = none) :
    SetMove now member s (entered now member (trimmed now s))

theorem SetMove.outlives {member : δ} {s' : Slot (Table δ Nat)} (h : SetMove now member s s')
    (hs : Outlives t s) (hle : t ≤ now) : Outlives now s' := by
  cases h with
  | same => exact hs.mono hle
  | trims => exact hs.trimmed.mono hle
  | enters => exact hs.trimmed.entered hle member

/-- The entries of the rolling window stay. -/
theorem SetMove.field {member : δ} {s' : Slot (Table δ Nat)} (h : SetMove now member s s')
    (hs : Outlives t s) {m : δ} {x : Nat} (hx : field s m = some x)
    (hwindow : now < x + rollingWindowMs) : Library.field s' m = some x := by
  have hkept := hs.field_trimmed hx hwindow
  cases h with
  | same => exact hx
  | trims => exact hkept
  | enters fresh =>
    have hne : m ≠ member := by
      rintro rfl
      rw [hkept] at fresh
      cases fresh
    rw [field_entered, if_neg hne, hkept]

variable {limits : FloodGateLimits} {k : Keys δ} {g g' : Gate δ} {raw : Raw}

theorem Outcome.users (h : Outcome limits now k g g' raw) (key : δ × δ) :
    SetMove now k.decision (g.users key) (g'.users key) := by
  have htrim : ∀ g₁ : Gate δ, g₁.users = (g.trim now k).users →
      SetMove now k.decision (g.users key) (g₁.users key) := by
    intro g₁ h₁
    rw [h₁]
    change SetMove _ _ _ (put g.users k.userKey _ key)
    rw [put_apply]
    split
    · next hk => rw [hk]; exact .trims
    · exact .same
  cases h with
  | answers | refuses => exact .same
  | denies g' _ _ kept =>
    rcases kept with rfl | rfl
    · exact .same
    · exact htrim _ rfl
  | repeats | conflicts => exact htrim _ rfl
  | admits _ freshUser =>
    change SetMove _ _ _ (put (g.trim now k).users k.userKey _ key)
    rw [put_apply]
    split
    · next hk => rw [hk, trim_users]; exact .enters freshUser
    · exact htrim _ rfl

theorem Outcome.chats (h : Outcome limits now k g g' raw) (key : δ) :
    SetMove now k.decision (g.chats key) (g'.chats key) := by
  have htrim : ∀ g₁ : Gate δ, g₁.chats = (g.trim now k).chats →
      SetMove now k.decision (g.chats key) (g₁.chats key) := by
    intro g₁ h₁
    rw [h₁]
    change SetMove _ _ _ (put g.chats k.chat _ key)
    rw [put_apply]
    split
    · next hk => rw [hk]; exact .trims
    · exact .same
  cases h with
  | answers | refuses => exact .same
  | denies g' _ _ kept =>
    rcases kept with rfl | rfl
    · exact .same
    · exact htrim _ rfl
  | repeats | conflicts => exact htrim _ rfl
  | admits _ _ freshChat =>
    change SetMove _ _ _ (put (g.trim now k).chats k.chat _ key)
    rw [put_apply]
    split
    · next hk => rw [hk, trim_chats]; exact .enters freshChat
    · exact htrim _ rfl

/-- A decision is written only where none can be read. -/
theorem Outcome.decisions (h : Outcome limits now k g g' raw) (key : δ × δ) :
    g'.decisions key = g.decisions key ∨
      key = k.decisionKey ∧ content (purge now (g.decisions key)) = none := by
  have hdecide : ∀ (g₁ : Gate δ) (d : Nat), g₁.decisions = g.decisions →
      content (purge now (g.decisions k.decisionKey)) = none →
      (g₁.decide now k d).decisions key = g.decisions key ∨
        key = k.decisionKey ∧ content (purge now (g.decisions key)) = none := by
    intro g₁ d h₁ missing
    by_cases hk : key = k.decisionKey
    · exact .inr ⟨hk, hk ▸ missing⟩
    · refine .inl ?_
      change put g₁.decisions k.decisionKey _ key = _
      rw [put_other _ hk, h₁]
  cases h with
  | answers | refuses | conflicts => exact .inl rfl
  | denies g' _ missing kept => exact hdecide g' _ (by rcases kept with rfl | rfl <;> rfl) missing
  | repeats missing | admits missing => exact hdecide _ _ rfl missing

/-! ## Histories -/

variable {digest : List String → δ}

def Admitted (digest : List String → δ) (k : Keys δ) (e : Event) : Prop :=
  buildKeys digest e.request.identity = some k ∧ e.reply = some (1, 0)

/-- The gate remembers the admissions of the history that still count. -/
structure Tracks (digest : List String → δ) (h : List Event) (t : Nat) (g : Gate δ) : Prop where
  users : ∀ key, Outlives t (g.users key)
  chats : ∀ key, Outlives t (g.chats key)
  dates : ∀ e ∈ h, e.now ≤ t
  sorted : (h.map Entry.now).Pairwise (· ≤ ·)
  decision : ∀ e ∈ h, ∀ k, Admitted digest k e → t ≤ e.now + decisionTtlMs →
    g.decisions k.decisionKey = cell 1 (e.now + decisionTtlMs)
  userEntry : ∀ e ∈ h, ∀ k, Admitted digest k e → t < e.now + rollingWindowMs →
    field (g.users k.userKey) k.decision = some e.now
  chatEntry : ∀ e ∈ h, ∀ k, Admitted digest k e → t < e.now + rollingWindowMs →
    field (g.chats k.chat) k.decision = some e.now
  spaced : h.Pairwise fun e e' => ∀ k k', Admitted digest k e → Admitted digest k' e' →
    k.decisionKey = k'.decisionKey → e.now + decisionTtlMs < e'.now

theorem tracks_start : Tracks digest [] 0 Gate.empty := by
  constructor <;> simp [Gate.empty, outlives_none]

theorem Tracks.mono {h : List Event} (ht : Tracks digest h t g) (hle : t ≤ now) :
    Tracks digest h now g where
  users key := (ht.users key).mono hle
  chats key := (ht.chats key).mono hle
  dates e he := Nat.le_trans (ht.dates e he) hle
  sorted := ht.sorted
  decision e he k hk hlive := ht.decision e he k hk (Nat.le_trans hle hlive)
  userEntry e he k hk hlive := ht.userEntry e he k hk (Nat.lt_of_le_of_lt hle hlive)
  chatEntry e he k hk hlive := ht.chatEntry e he k hk (Nat.lt_of_le_of_lt hle hlive)
  spaced := ht.spaced

theorem Tracks.readable {h : List Event} (ht : Tracks digest h now g) {e : Event} (he : e ∈ h)
    {k : Keys δ} (hk : Admitted digest k e) (hlive : now ≤ e.now + decisionTtlMs) :
    content (purge now (g.decisions k.decisionKey)) = some 1 := by
  rw [ht.decision e he k hk hlive, purge_cell, if_pos hlive, content_cell]

/-- One run of the script on a tracked gate. -/
theorem Tracks.script {h : List Event} (ht : Tracks digest h now g) {r : Request}
    (hkeys : buildKeys digest r.identity = some k) (ho : Outcome limits now k g g' raw) :
    Tracks digest (h ++ [⟨now, r, some raw⟩]) now g' := by
  have hkept : ∀ e ∈ h, ∀ k', Admitted digest k' e → now ≤ e.now + decisionTtlMs →
      g'.decisions k'.decisionKey = cell 1 (e.now + decisionTtlMs) := by
    intro e he k' hk' hlive
    rcases ho.decisions k'.decisionKey with hsame | ⟨-, hnone⟩
    · rw [hsame]
      exact ht.decision e he k' hk' hlive
    · rw [ht.readable he hk' hlive] at hnone
      cases hnone
  have hnew : ∀ k', Admitted digest k' ⟨now, r, some raw⟩ →
      k' = k ∧ content (purge now (g.decisions k.decisionKey)) = none ∧
        g' = ((g.trim now k).enter now k).decide now k 1 := by
    rintro k' ⟨hk', hraw⟩
    obtain rfl := Option.some.inj (hk'.symm.trans hkeys)
    obtain rfl := Option.some.inj hraw
    generalize hr : ((1, 0) : Raw) = raw' at ho
    cases ho with
    | answers decision =>
      unfold replayed at hr
      split at hr
      · cases hr
      · split at hr <;> cases hr
    | refuses _ _ status => rcases status with rfl | rfl <;> cases hr
    | denies | repeats | conflicts => cases hr
    | admits missing => exact ⟨rfl, missing, rfl⟩
  constructor
  · exact fun key => (ho.users key).outlives (ht.users key) (Nat.le_refl now)
  · exact fun key => (ho.chats key).outlives (ht.chats key) (Nat.le_refl now)
  · intro e he
    rcases List.mem_append.mp he with he | he
    · exact ht.dates e he
    · rw [List.mem_singleton.mp he]
  · rw [List.map_append, List.pairwise_append]
    refine ⟨ht.sorted, List.pairwise_singleton _ _, ?_⟩
    rintro a ha b hb
    obtain ⟨e, he, rfl⟩ := List.mem_map.mp ha
    rw [List.map_singleton, List.mem_singleton] at hb
    exact hb ▸ ht.dates e he
  · intro e he k' hk' hlive
    rcases List.mem_append.mp he with he | he
    · exact hkept e he k' hk' hlive
    · obtain rfl := List.mem_singleton.mp he
      obtain ⟨rfl, -, rfl⟩ := hnew k' hk'
      exact put_same _ _ _
  · intro e he k' hk' hlive
    rcases List.mem_append.mp he with he | he
    · exact (ho.users _).field (ht.users _) (ht.userEntry e he k' hk' hlive) hlive
    · obtain rfl := List.mem_singleton.mp he
      obtain ⟨rfl, -, rfl⟩ := hnew k' hk'
      change field (put _ k'.userKey _ k'.userKey) _ = _
      rw [put_same, field_entered, if_pos rfl]
  · intro e he k' hk' hlive
    rcases List.mem_append.mp he with he | he
    · exact (ho.chats _).field (ht.chats _) (ht.chatEntry e he k' hk' hlive) hlive
    · obtain rfl := List.mem_singleton.mp he
      obtain ⟨rfl, -, rfl⟩ := hnew k' hk'
      change field (put _ k'.chat _ k'.chat) _ = _
      rw [put_same, field_entered, if_pos rfl]
  · rw [List.pairwise_append]
    refine ⟨ht.spaced, List.pairwise_singleton _ _, ?_⟩
    rintro e he e' he' k₁ k₂ hk₁ hk₂ hsame
    obtain rfl := List.mem_singleton.mp he'
    obtain ⟨rfl, hnone, -⟩ := hnew k₂ hk₂
    by_contra hlate
    have hread := ht.readable he hk₁ (Nat.le_of_not_lt hlate)
    rw [hsame, hnone] at hread
    cases hread

/-- A call that does not reach the script. -/
theorem Tracks.unsent {h : List Event} (ht : Tracks digest h now g) (r : Request) :
    Tracks digest (h ++ [⟨now, r, none⟩]) now g := by
  have hold : ∀ e ∈ h ++ [⟨now, r, none⟩], ∀ k, Admitted digest k e → e ∈ h := by
    intro e he k hk
    rcases List.mem_append.mp he with he | he
    · exact he
    · rw [List.mem_singleton.mp he] at hk
      cases hk.2
  constructor
  · exact ht.users
  · exact ht.chats
  · intro e he
    rcases List.mem_append.mp he with he | he
    · exact ht.dates e he
    · rw [List.mem_singleton.mp he]
  · rw [List.map_append, List.pairwise_append]
    refine ⟨ht.sorted, List.pairwise_singleton _ _, ?_⟩
    rintro a ha b hb
    obtain ⟨e, he, rfl⟩ := List.mem_map.mp ha
    rw [List.map_singleton, List.mem_singleton] at hb
    exact hb ▸ ht.dates e he
  · exact fun e he k hk => ht.decision e (hold e he k hk) k hk
  · exact fun e he k hk => ht.userEntry e (hold e he k hk) k hk
  · exact fun e he k hk => ht.chatEntry e (hold e he k hk) k hk
  · rw [List.pairwise_append]
    refine ⟨ht.spaced, List.pairwise_singleton _ _, ?_⟩
    rintro e he e' he' k₁ k₂ - hk₂
    rw [List.mem_singleton.mp he'] at hk₂
    cases hk₂.2

theorem run_tracks {h : List Event} (hr : GateRun digest limits h t g) : Tracks digest h t g := by
  refine hr.invariant (fun h t g => Tracks digest h t g) tracks_start
    (fun _ _ _ _ ht hle => ht.mono hle) ?_
  intro h t g r ht _
  cases hkeys : buildKeys digest r.identity with
  | none =>
    have hstep : step digest limits t r g = (g, none) := by simp [step, hkeys]
    rw [hstep]
    exact ht.unsent r
  | some k =>
    have hstep : step digest limits t r g =
        ((script limits t k r g).1, some (script limits t k r g).2) := by simp [step, hkeys]
    rw [hstep]
    exact ht.script hkeys (script_outcome limits t k r g)

end Maxim.Publisher.AutoReply.FloodGate
