import Mathlib.Data.String.Basic
import Maxim.Publisher.AutoReply.Delivery.Tables

/-!
# The cooldown between two answers

While the answers of a rule to a user have a cooldown, the fences of two
messages are at least its seconds apart. A retry of the message that owns the
cooldown row is not refused by it, and a refused fence leaves the row alone.
-/

namespace Maxim.Publisher.AutoReply.Delivery

open Maxim.Library

variable {κ ω : Type} {semanticKey : SourceIdentity → κ} {s s' : Db κ} {d : LeasedDelivery}

/-- The fence that a step records: the delivery and `dispatchStartedAt`. -/
def fence? (x : Event κ ω) : Option (Key × Nat) :=
  match x.reply with
  | some ⟨_, some ⟨.recordSendFence _ d _ _ _, .ok started⟩, _⟩ => some (d.key, started)
  | _ => none

/-- The fence that a step is refused. -/
def refusal? (x : Event κ ω) : Option (Key × FenceError) :=
  match x.reply with
  | some ⟨_, some ⟨.recordSendFence _ d _ _ _, .error z⟩, _⟩ => some (d.key, z)
  | _ => none

inductive Cools (semanticKey : SourceIdentity → κ) (s s' : Db κ) (x : Event κ ω) : Prop
  | same (shown : fence? x = none) (cooldowns : s'.cooldowns = s.cooldowns)
  | fenced (d : LeasedDelivery) (lockToken : String) (e : Elapsed) (started : Nat)
    (shown : fence? x = some (d.key, started)) (known : Known s d)
    (records : Records semanticKey d lockToken e started s s')

/-- What is loaded by the calls of a history is known in the tables. -/
def KnownBy [DecidableEq ω] (h : List (Event κ ω)) (s : Db κ) : Prop :=
  ∀ w i q, worker.phase h w = some (i, q) → ∀ d, q.loaded = some d → Known s d

section Steps

variable [DecidableEq κ] [DecidableEq ω] {h : List (Event κ ω)} {x : Event κ ω}

theorem allowed_cools (hknown : KnownBy h s)
    (hx : Pool.Allowed (Op.run semanticKey) worker h s s' x) :
    Keeps s s' ∧ Cools semanticKey s s' x := by
  cases hx with
  | idle hshown hstore =>
    subst hstore
    exact ⟨.refl s', .same (by rw [fence?, hshown]) rfl⟩
  | starts w i result hrequest hshown hstore =>
    subst hstore
    exact ⟨.refl s', .same (by rw [fence?, hshown]) rfl⟩
  | performs w i q e r result hrequest hshown hq hmay hsem =>
    have hkeeps : Keeps s s' := (Prod.mk.inj hsem).1 ▸ e.run_keeps s
    refine ⟨hkeeps, ?_⟩
    cases e with
    | recordSendFence cfg d lockToken ready e =>
      obtain ⟨-, hloaded, hepoch, -⟩ := hmay
      have hd := hknown w i q hq d hloaded
      have hversion := LeasedDelivery.currentEpoch_version hepoch
      cases r with
      | ok started =>
        exact .fenced d lockToken e started (by rw [fence?, hshown]) hd
          (recordSendFence_ok hd hversion hsem)
      | error z =>
        refine .same (by rw [fence?, hshown]) ?_
        rw [(recordSendFence_error hd hversion hsem).1]
    | update key u =>
      refine .same (by rw [fence?, hshown]) ?_
      rcases s.update_cases key u with hsame | ⟨row, -, -, hwrite⟩
      · rw [← (Prod.mk.inj (hsame.symm.trans hsem)).1]
      · rw [← (Prod.mk.inj (hwrite.symm.trans hsem)).1]
    | create new =>
      refine .same (by rw [fence?, hshown]) ?_
      rw [← (Prod.mk.inj hsem).1, Db.create]
      split <;> rfl
    | admitSource source =>
      refine .same (by rw [fence?, hshown]) ?_
      rw [Op.run] at hsem
      split at hsem <;> rw [← (Prod.mk.inj hsem).1]
    | _ => exact .same (by rw [fence?, hshown]) (by rw [← (Prod.mk.inj hsem).1])

omit [DecidableEq κ] [DecidableEq ω] in
theorem Cools.of_fence (hx : Cools semanticKey s s' x) {key : Key} {started : Nat}
    (hfence : fence? x = some (key, started)) : ∃ d lockToken e, d.key = key ∧
      Known s d ∧ Records semanticKey d lockToken e started s s' := by
  cases hx with
  | same hshown hcooldowns => rw [hshown] at hfence; cases hfence
  | fenced d lockToken e started' hshown hknown hrecords =>
    obtain ⟨rfl, rfl⟩ := Prod.mk.inj (Option.some.inj (hshown.symm.trans hfence))
    exact ⟨d, lockToken, e, rfl, hknown, hrecords⟩

end Steps

/-- The cooldown row still keeps the others away until `due`: it is owned by the message and ends
no earlier, or that time is over. -/
structure Spaced (source : String) (cooldown : String × String) (chatId : String) (due : Nat)
    (s : Db κ) : Prop where
  rule : ∃ rule, s.rules cooldown.1 = some rule ∧ rule.chatId = chatId
  row : ∃ row, s.cooldowns cooldown = some row ∧
    (row.lastSourceMessageId = source ∧ due ≤ row.nextAllowedAt ∨ due * 1000 ≤ s.clock)

variable {source chatId : String} {cooldown : String × String} {due : Nat}

theorem Spaced.keeps (hs : Spaced source cooldown chatId due s) (hk : Keeps s s')
    (hrow : ∀ old, s.cooldowns cooldown = some old → ∃ row, s'.cooldowns cooldown = some row ∧
      (old.lastSourceMessageId = source ∧ due ≤ old.nextAllowedAt →
        row.lastSourceMessageId = source ∧ due ≤ row.nextAllowedAt ∨ due * 1000 ≤ s'.clock)) :
    Spaced source cooldown chatId due s' := by
  obtain ⟨rule, hrule, hchat⟩ := hs.rule
  obtain ⟨rule', hrule', hbefore⟩ := hk.rule _ rule hrule
  obtain ⟨old, hold, hdue⟩ := hs.row
  obtain ⟨row, hnew, hown⟩ := hrow old hold
  refine ⟨⟨rule', hrule', hbefore.chatId.trans hchat⟩, row, hnew, ?_⟩
  rcases hdue with hdue | hover
  · exact hown hdue
  · exact .inr (Nat.le_trans hover hk.clock)

theorem Elapsed.conflict_le_final (e : Elapsed) (clock : Nat) :
    e.conflictAt clock ≤ e.finalAt clock := by
  simp only [Elapsed.finalAt, Elapsed.setAt]
  omega

theorem Spaced.step (hs : Spaced source cooldown chatId due s) (hk : Keeps s s')
    {x : Event κ ω} (hx : Cools semanticKey s s' x) : Spaced source cooldown chatId due s' := by
  refine hs.keeps hk fun old hold => ?_
  cases hx with
  | same hshown hcooldowns => exact ⟨old, hcooldowns ▸ hold, .inl⟩
  | fenced d lockToken e started hshown hknown hrecords =>
    have huntouched (hcooldowns : s'.cooldowns cooldown = s.cooldowns cooldown) :
        ∃ row, s'.cooldowns cooldown = some row ∧
          (old.lastSourceMessageId = source ∧ due ≤ old.nextAllowedAt →
            row.lastSourceMessageId = source ∧ due ≤ row.nextAllowedAt ∨ due * 1000 ≤ s'.clock) :=
      ⟨old, hcooldowns.trans hold, .inl⟩
    cases hcooldown : s.cooldown? d.key with
    | none => exact huntouched (congrFun (hrecords.free hcooldown) cooldown)
    | some c =>
      obtain ⟨row, hset, hlast, -, htaken⟩ := hrecords.taken c.1 c.2 hcooldown
      by_cases hc : cooldown = c.1
      · subst hc
        refine ⟨row, by rw [hset, Function.update_self], ?_⟩
        rintro ⟨hsource, hdue⟩
        rcases htaken old hold with ⟨hown, hle⟩ | hover
        · exact .inl ⟨hlast.trans (hown.symm.trans hsource), Nat.le_trans hdue hle⟩
        · have hended : due * 1000 ≤ e.conflictAt s.clock :=
            Nat.le_trans (Nat.mul_le_mul_right 1000 hdue) hover
          exact .inr (hrecords.clock ▸ Nat.le_trans hended (e.conflict_le_final s.clock))
      · exact huntouched (by rw [hset, Function.update_of_ne hc])

def For (key : Key) (cooldown : String × String) (s : Db κ) : Prop :=
  ∃ row, s.deliveries key = some row ∧ row.ruleId = cooldown.1 ∧
    nullableString row.sourceUserId = some cooldown.2

theorem For.keeps {key : Key} (hs : For key cooldown s) (hk : Keeps s s') :
    For key cooldown s' := by
  obtain ⟨row, hrow, hid, huser⟩ := hs
  obtain ⟨row', hrow', hsame⟩ := hk.row key row hrow
  refine ⟨row', hrow', ?_, ?_⟩
  · exact (congrArg NewDelivery.ruleId hsame).trans hid
  · rw [← huser]
    exact congrArg (fun new : NewDelivery => nullableString new.sourceUserId) hsame

theorem for_of_cooldown? {key : Key} {seconds : Nat}
    (hcooldown : s.cooldown? key = some (cooldown, seconds)) : For key cooldown s := by
  obtain ⟨row, hrow, hcooldown⟩ := Option.bind_eq_some_iff.mp hcooldown
  obtain ⟨rule, -, hcooldown⟩ := Option.bind_eq_some_iff.mp hcooldown
  obtain ⟨user, huser, hcooldown⟩ := Option.bind_eq_some_iff.mp hcooldown
  split at hcooldown
  · obtain ⟨rfl, -⟩ := Prod.mk.inj (Option.some.inj hcooldown)
    exact ⟨row, hrow, rfl, huser⟩
  · cases hcooldown

theorem For.unique {key : Key} {cooldown' : String × String} (hs : For key cooldown s)
    (hs' : For key cooldown' s) : cooldown' = cooldown := by
  obtain ⟨row, hrow, hid, huser⟩ := hs
  obtain ⟨row', hrow', hid', huser'⟩ := hs'
  obtain rfl := Option.some.inj (hrow.symm.trans hrow')
  exact Prod.ext (hid'.symm.trans hid) (Option.some.inj (huser'.symm.trans huser))

theorem Known.cooldown_rule (hd : Known s d) {seconds : Nat}
    (hcooldown : s.cooldown? d.key = some (cooldown, seconds)) : cooldown.1 = d.ruleId := by
  obtain ⟨row, hrow, hsame⟩ := hd.row
  obtain ⟨row', hrow', hid, -⟩ := for_of_cooldown? hcooldown
  obtain rfl := Option.some.inj (hrow.symm.trans hrow')
  exact hid.symm.trans (congrArg NewDelivery.ruleId hsame)

theorem Records.spaced {lockToken : String} {e : Elapsed} {started seconds : Nat}
    (hr : Records semanticKey d lockToken e started s s') (hd : Known s d)
    (hcooldown : s.cooldown? d.key = some (cooldown, seconds)) :
    Spaced d.sourceMessageId cooldown d.chatId (started + seconds * 1000) s' := by
  obtain ⟨rule, hfound, hchat⟩ := hr.chat
  obtain ⟨row, hset, hlast, hdue, -⟩ := hr.taken cooldown seconds hcooldown
  refine ⟨⟨rule, by rw [hr.rules, hd.cooldown_rule hcooldown, hfound], hchat⟩, row, ?_,
    .inl ⟨hlast, hdue⟩⟩
  rw [hset, Function.update_self]

theorem Spaced.ended {lockToken : String} {e : Elapsed} {started seconds : Nat}
    (hs : Spaced source cooldown chatId due s) (hr : Records semanticKey d lockToken e started s s')
    (hd : Known s d) (hcooldown : s.cooldown? d.key = some (cooldown, seconds))
    (hother : d.key ≠ (chatId, source)) : due ≤ started := by
  have hfinal := e.conflict_le_final s.clock
  obtain ⟨row, hrow, hdue⟩ := hs.row
  obtain ⟨_, -, -, -, htaken⟩ := hr.taken cooldown seconds hcooldown
  have hended : due * 1000 ≤ e.finalAt s.clock := by
    rcases hdue with ⟨hsource, hdue⟩ | hover
    · rcases htaken row hrow with ⟨hown, -⟩ | hover
      · -- The row would be its own, and a rule has one chat.
        obtain ⟨rule, hrule, hchat⟩ := hs.rule
        obtain ⟨rule', hrule', hchat'⟩ := hr.chat
        rw [hd.cooldown_rule hcooldown, hrule'] at hrule
        obtain rfl := Option.some.inj hrule
        exact absurd (Prod.ext (hchat'.symm.trans hchat) (hown.symm.trans hsource)) hother
      · exact Nat.le_trans (Nat.le_trans (Nat.mul_le_mul_right 1000 hdue) hover) hfinal
    · have hlater : s.clock ≤ e.conflictAt s.clock := by
        simp only [Elapsed.conflictAt, Elapsed.insertAt]
        omega
      exact Nat.le_trans hover (Nat.le_trans hlater hfinal)
  rw [hr.time]
  exact (Nat.le_div_iff_mul_le (by omega)).mpr hended

def Owned (source : String) (cooldown : String × String) (s : Db κ) : Prop :=
  ∃ row, s.cooldowns cooldown = some row ∧ row.lastSourceMessageId = source

theorem Owned.step {x : Event κ ω} (hs : Owned source cooldown s)
    (hx : Cools semanticKey s s' x) (hothers : ∀ key started seconds,
      fence? x = some (key, started) → s.cooldown? key = some (cooldown, seconds) →
        key.2 = source) : Owned source cooldown s' := by
  obtain ⟨row, hrow, hsource⟩ := hs
  cases hx with
  | same hshown hcooldowns => exact ⟨row, hcooldowns ▸ hrow, hsource⟩
  | fenced d lockToken e started hshown hknown hrecords =>
    cases hcooldown : s.cooldown? d.key with
    | none => exact ⟨row, (congrFun (hrecords.free hcooldown) cooldown).trans hrow, hsource⟩
    | some c =>
      obtain ⟨row', hset, hlast, -, -⟩ := hrecords.taken c.1 c.2 hcooldown
      by_cases hc : cooldown = c.1
      · subst hc
        refine ⟨row', by rw [hset, Function.update_self], ?_⟩
        exact hlast.trans (hothers d.key started c.2 hshown hcooldown)
      · exact ⟨row, by rw [hset, Function.update_of_ne hc, hrow], hsource⟩

/-! ## Runs -/

section Runs

variable [DecidableEq κ] [DecidableEq ω] {s₀ : Db κ}
  {ok : List (Event κ ω) → Nat → Move ω (Call κ) → Prop} {h : List (Event κ ω)} {x : Event κ ω}
  {t : Nat} {p : Pool ω (Call κ) (Op κ) Op.Reply ServiceError Result (Db κ)}

theorem run_cools (hs₀ : Keyed s₀) (hr : DeliveryRun semanticKey ok s₀ (h ++ [x]) t p) :
    p.store = tablesAfter semanticKey s₀ (h ++ [x]) ∧
      Keeps (tablesAfter semanticKey s₀ h) p.store ∧
      Cools semanticKey (tablesAfter semanticKey s₀ h) p.store x := by
  obtain ⟨t₁, p₁, hr₁, -, hx⟩ := Pool.run_allowed program_follows hr
  have hbefore : tablesAfter semanticKey s₀ h = p₁.store := by rw [tablesAfter, hr₁.replay_eq]
  rw [hbefore]
  exact ⟨by rw [tablesAfter, hr.replay_eq], allowed_cools (run_known hs₀ hr₁).2 hx⟩

theorem run_since {I : Db κ → Prop} {h₁ h₂ : List (Event κ ω)} (hs₀ : Keyed s₀)
    (hinit : I (tablesAfter semanticKey s₀ (h₁ ++ [x])))
    (hstep : ∀ g z g' s', h₂ = g ++ z :: g' → I (tablesAfter semanticKey s₀ (h₁ ++ x :: g)) →
      Keeps (tablesAfter semanticKey s₀ (h₁ ++ x :: g)) s' →
      Cools semanticKey (tablesAfter semanticKey s₀ (h₁ ++ x :: g)) s' z → I s')
    (hr : DeliveryRun semanticKey ok s₀ (h₁ ++ x :: h₂) t p) :
    I (tablesAfter semanticKey s₀ (h₁ ++ x :: h₂)) := by
  rw [tablesAfter, hr.replay_eq]
  rw [List.append_cons] at hr
  refine Pool.since_allowed I program_follows (fun t₁ p₁ hr₁ => ?_)
    (fun g z g' t₁ p₁ s' hg hr₁ hi hz => ?_) hr
  · rwa [tablesAfter, hr₁.replay_eq] at hinit
  · have hbefore : tablesAfter semanticKey s₀ (h₁ ++ x :: g) = p₁.store := by
      rw [tablesAfter, List.append_cons, hr₁.replay_eq]
    obtain ⟨hk, hc⟩ := allowed_cools (run_known hs₀ hr₁).2 hz
    rw [← hbefore] at hi hk hc
    exact hstep g z g' s' hg hi hk hc

theorem run_refused {key : Key} {z : FenceError} (hs₀ : Keyed s₀)
    (hr : DeliveryRun semanticKey ok s₀ (h ++ [x]) t p) (hx : refusal? x = some (key, z)) :
    (tablesAfter semanticKey s₀ (h ++ [x])).cooldowns = (tablesAfter semanticKey s₀ h).cooldowns ∧
      (z = .cooldown → ∃ cooldown seconds,
        (tablesAfter semanticKey s₀ h).cooldown? key = some (cooldown, seconds) ∧
          ¬Owned key.2 cooldown (tablesAfter semanticKey s₀ h)) := by
  obtain ⟨t₁, p₁, hr₁, -, hallowed⟩ := Pool.run_allowed program_follows hr
  rw [tablesAfter, tablesAfter, hr.replay_eq, hr₁.replay_eq]
  cases hallowed with
  | idle hshown hstore => rw [refusal?, hshown] at hx; cases hx
  | starts w i result hrequest hshown hstore => rw [refusal?, hshown] at hx; cases hx
  | performs w i q e r result hrequest hshown hq hmay hsem =>
    rw [refusal?, hshown] at hx
    cases e with
    | recordSendFence cfg d lockToken ready e =>
      cases r with
      | ok started => cases hx
      | error z' =>
        obtain ⟨rfl, rfl⟩ := Prod.mk.inj (Option.some.inj hx)
        obtain ⟨-, hloaded, hepoch, -⟩ := hmay
        obtain ⟨hstore, hcooldown⟩ := recordSendFence_error ((run_known hs₀ hr₁).2 w i q hq d hloaded)
          (LeasedDelivery.currentEpoch_version hepoch) hsem
        refine ⟨by rw [hstore], fun hz => ?_⟩
        obtain ⟨cooldown, seconds, row, hsome, hrow, hother⟩ := hcooldown hz
        refine ⟨cooldown, seconds, hsome, ?_⟩
        rintro ⟨row', hrow', hsource⟩
        obtain rfl := Option.some.inj (hrow.symm.trans hrow')
        exact hother hsource
    | _ => cases hx

/-- The fences of two messages with one cooldown are its seconds apart. A message that was fenced is
refused by the cooldown only after the fence of another one, and a refusal leaves the rows alone. -/
structure CooldownContract (semanticKey : SourceIdentity → κ) (s₀ : Db κ) (h : List (Event κ ω)) :
    Prop where
  spaced : ∀ h₁ x h₂ y h₃ key key' started started' cooldown seconds seconds',
    h = h₁ ++ x :: h₂ ++ y :: h₃ → fence? x = some (key, started) →
    fence? y = some (key', started') → key' ≠ key →
    (tablesAfter semanticKey s₀ h₁).cooldown? key = some (cooldown, seconds) →
    (tablesAfter semanticKey s₀ (h₁ ++ x :: h₂)).cooldown? key' = some (cooldown, seconds') →
    started + seconds * 1000 ≤ started'
  retried : ∀ h₁ x h₂ y h₃ key started cooldown seconds, h = h₁ ++ x :: h₂ ++ y :: h₃ →
    fence? x = some (key, started) → refusal? y = some (key, .cooldown) →
    (tablesAfter semanticKey s₀ h₁).cooldown? key = some (cooldown, seconds) →
    ∃ g z g' key' started' seconds', h₂ = g ++ z :: g' ∧ fence? z = some (key', started') ∧
      key' ≠ key ∧
      (tablesAfter semanticKey s₀ (h₁ ++ x :: g)).cooldown? key' = some (cooldown, seconds')
  refused : ∀ h₁ x h₂ key z, h = h₁ ++ x :: h₂ → refusal? x = some (key, z) →
    (tablesAfter semanticKey s₀ (h₁ ++ [x])).cooldowns = (tablesAfter semanticKey s₀ h₁).cooldowns

theorem run_spaced {h₁ : List (Event κ ω)} {key : Key} {started seconds : Nat}
    {cooldown : String × String} (hs₀ : Keyed s₀)
    (hr : DeliveryRun semanticKey ok s₀ (h₁ ++ [x]) t p)
    (hx : fence? x = some (key, started))
    (hcooldown : (tablesAfter semanticKey s₀ h₁).cooldown? key = some (cooldown, seconds)) :
    Spaced key.2 cooldown key.1 (started + seconds * 1000)
      (tablesAfter semanticKey s₀ (h₁ ++ [x])) := by
  obtain ⟨hafter, -, hcools⟩ := run_cools hs₀ hr
  obtain ⟨d, lockToken, e, rfl, hknown, hrecords⟩ := hcools.of_fence hx
  exact hafter ▸ hrecords.spaced hknown hcooldown

theorem run_owned {h₁ : List (Event κ ω)} {key : Key} {started seconds : Nat}
    {cooldown : String × String} (hs₀ : Keyed s₀)
    (hr : DeliveryRun semanticKey ok s₀ (h₁ ++ [x]) t p)
    (hx : fence? x = some (key, started))
    (hcooldown : (tablesAfter semanticKey s₀ h₁).cooldown? key = some (cooldown, seconds)) :
    For key cooldown (tablesAfter semanticKey s₀ (h₁ ++ [x])) ∧
      Owned key.2 cooldown (tablesAfter semanticKey s₀ (h₁ ++ [x])) := by
  obtain ⟨hafter, hk, hcools⟩ := run_cools hs₀ hr
  obtain ⟨d, lockToken, e, rfl, hknown, hrecords⟩ := hcools.of_fence hx
  obtain ⟨row, hset, hlast, -, -⟩ := hrecords.taken cooldown seconds hcooldown
  rw [← hafter]
  exact ⟨(for_of_cooldown? hcooldown).keeps hk, row, by rw [hset, Function.update_self], hlast⟩

theorem fence_spacing (hs₀ : Keyed s₀) (hr : DeliveryRun semanticKey ok s₀ h t p) :
    CooldownContract semanticKey s₀ h := by
  constructor
  · rintro h₁ x h₂ y h₃ key key' started started' cooldown seconds seconds' rfl hx hy hother
      hcooldown hcooldown'
    rw [List.append_cons] at hr
    obtain ⟨t₃, p₃, hr₃, -⟩ := hr.of_append
    obtain ⟨t₂, p₂, hr₂, -⟩ := hr₃.of_append
    obtain ⟨t₁, p₁, hr₁, -⟩ := (List.append_cons h₁ x h₂ ▸ hr₂).of_append
    have hspaced := run_since hs₀ (run_spaced hs₀ hr₁ hx hcooldown)
      (fun g z g' s' _ hi hk hc => hi.step hk hc) hr₂
    obtain ⟨-, -, hcools⟩ := run_cools hs₀ hr₃
    obtain ⟨d, lockToken, e, rfl, hknown, hrecords⟩ := hcools.of_fence hy
    exact hspaced.ended hrecords hknown hcooldown' hother
  · rintro h₁ x h₂ y h₃ key started cooldown seconds rfl hx hy hcooldown
    rw [List.append_cons] at hr
    obtain ⟨t₃, p₃, hr₃, -⟩ := hr.of_append
    obtain ⟨t₂, p₂, hr₂, -⟩ := hr₃.of_append
    obtain ⟨t₁, p₁, hr₁, -⟩ := (List.append_cons h₁ x h₂ ▸ hr₂).of_append
    obtain ⟨cooldown', seconds', hcooldown', hlost⟩ := (run_refused hs₀ hr₃ hy).2 rfl
    by_contra hnone
    have hstill := run_since (I := fun s => For key cooldown s ∧ Owned key.2 cooldown s) hs₀
      (run_owned hs₀ hr₁ hx hcooldown) (fun g z g' s' hg hi hk hz => ?_) hr₂
    · obtain rfl := hstill.1.unique (for_of_cooldown? hcooldown')
      exact hlost hstill.2
    · refine ⟨hi.1.keeps hk, hi.2.step hz fun key' started' seconds' hfence hsame => ?_⟩
      by_cases he : key' = key
      · rw [he]
      · exact absurd ⟨g, z, g', key', started', seconds', hg, hfence, he, hsame⟩ hnone
  · rintro h₁ x h₂ key z rfl hx
    rw [List.append_cons] at hr
    obtain ⟨t₁, p₁, hr₁, -⟩ := hr.of_append
    exact (run_refused hs₀ hr₁ hx).1

end Runs

/-! ## An example -/

def minuteRule : Rule := ⟨"chat", 1, "price", true, none, 60, some "content"⟩

def openChat : Chat :=
  ⟨true, some ⟨true, 1, 1⟩, none, some ⟨"bot", true, some 0, none⟩⟩

/-- A delivery of the rule for one user. -/
def minuteDelivery (sourceMessageId : String) : Row where
  chatId := "chat"
  ruleId := "rule"
  contentRevisionId := "content"
  publisherBotId := "bot"
  sourceMessageId
  sourceUserId := some "user"
  matchedRuleVersion := 1
  matchedNormalizedPhrase := "price"
  matchedTriggerId := none
  matchKind := .exactFull
  matcherVersion := 1
  autoReplyConfigRevision := 1
  publisherSettingsRevision := 1
  publicationPolicyRevision := 0
  dueAt := 0

/-- Every message in the chat is to be answered. -/
def minuteTables : Db SourceIdentity where
  fences _ := some .ready
  deliveries key :=
    if key.1 = "chat" then some (minuteDelivery key.2) else none
  rules ruleId := if ruleId = "rule" then some minuteRule else none
  triggers _ := none
  contents contentRevisionId :=
    if contentRevisionId = "content" then some ⟨"content", "rule", []⟩ else none
  chats chatId := if chatId = "chat" then some openChat else none
  cooldowns _ := none
  clock := 1000000

theorem keyed_minuteTables : Keyed minuteTables := by
  intro key row hrow
  simp only [minuteTables] at hrow
  split at hrow
  · next hchat =>
    obtain rfl := Option.some.inj hrow
    exact Prod.ext hchat.symm rfl
  · cases hrow

def botConfig : Config := ⟨"bot", .off⟩

/-- An attempt to answer the message whose HTTP send comes to the outcome. -/
def attempt (sourceMessageId lockToken : String) (outcome : SendOutcome) : ProcessInputs where
  key := ("chat", sourceMessageId)
  now := 1000
  lockToken
  final := false
  route := .ready
  uploads := .prepared
  hasPayloads := false
  first := ⟨.ready, true, ⟨0, 0, 0, 0⟩, outcome⟩
  refreshed := false
  second := ⟨.ready, true, ⟨0, 0, 0, 0⟩, outcome⟩

/-- A worker makes a call and takes the given number of steps in it. -/
def steps (w : Nat) (i : Call SourceIdentity) (n : Nat) :
    List (Nat × Move Nat (Call SourceIdentity)) :=
  (0, .call w i) :: List.replicate n (0, Move.resume w)

/-- Message `a` is rejected for its rate and answered at the second attempt; `b` is refused in
between, and `c` is answered when the minute is over. -/
def minuteMoves : List (Nat × Move Nat (Call SourceIdentity)) :=
  steps 0 (.process botConfig (attempt "a" "t1" (.failed (some 429) false))) 9 ++
    steps 1 (.process botConfig (attempt "b" "t2" (.sent "answer to b"))) 7 ++
    steps 0 (.process botConfig (attempt "a" "t3" (.sent "answer to a"))) 8 ++
    steps 1 (.tick 60000000) 1 ++
    steps 0 (.process botConfig (attempt "c" "t4" (.sent "answer to c"))) 8

def minuteRun : List (Event SourceIdentity Nat) ×
    Pool Nat (Call SourceIdentity) (Op SourceIdentity) Op.Reply ServiceError Result
      (Db SourceIdentity) :=
  play (Pool.step (Op.run id) Call.program) (Pool.start minuteTables) minuteMoves

/-- Both messages are answered, a minute apart. -/
theorem fence_spacing_minute :
    minuteRun.1.filterMap fence? =
        [(("chat", "a"), 1000), (("chat", "a"), 1000), (("chat", "c"), 61000)] ∧
      minuteRun.1.filterMap refusal? = [(("chat", "b"), .cooldown)] ∧
      CooldownContract id minuteTables minuteRun.1 := by
  refine ⟨by decide +kernel, by decide +kernel, ?_⟩
  obtain ⟨t, hr⟩ : ∃ t, DeliveryRun id (fun _ _ _ => True) minuteTables minuteRun.1 t minuteRun.2 :=
    run_play (by decide) (accepted_of_forall (fun _ _ _ => trivial) _ _)
  exact fence_spacing keyed_minuteTables hr

end Maxim.Publisher.AutoReply.Delivery
