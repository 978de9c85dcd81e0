import Maxim.Library.Fallible
import Maxim.Publisher.AutoReply.Delivery.Programs

/-!
# What the transaction of the send fence does

A recorded fence needs an admitted source, a row that the caller's token still
leases and the rule version that was matched. A refusal changes nothing but the
clock.
-/

namespace Maxim.Publisher.AutoReply.Delivery

open Maxim.Library

variable {κ : Type} {semanticKey : SourceIdentity → κ} {cfg : Config} {d : LeasedDelivery}
  {lockToken : String} {ready : Bool} {e : Elapsed} {s s' : Db κ} {started : Nat}

/-- The token leases the row, and no fence is recorded. -/
structure Row.Leased (row : Row) (lockToken : String) : Prop where
  status : row.status = .sending
  lockToken : row.lockToken = some lockToken
  unfenced : row.dispatchStartedAt = none

/-- What was loaded of the delivery and its rule is still true, unless the rule has a later
version. -/
structure Known (s : Db κ) (d : LeasedDelivery) : Prop where
  row : ∃ row, s.deliveries d.key = some row ∧ row.toNewDelivery = d.toNewDelivery
  rule : ∃ rule, s.rules d.ruleId = some rule ∧ d.rule.version ≤ rule.version ∧
    (rule.version = d.rule.version → rule = d.rule)

/-- The user and the rule of the cooldown of a delivery, and its seconds, as the tables have them. -/
def Db.cooldown? (s : Db κ) (key : Key) : Option ((String × String) × Nat) :=
  (s.deliveries key).bind fun row => (s.rules row.ruleId).bind fun rule =>
    (nullableString row.sourceUserId).bind fun sourceUserId =>
      if 0 < rule.cooldownSeconds.toNat then
        some ((row.ruleId, sourceUserId), rule.cooldownSeconds.toNat)
      else none

theorem Db.lease_eq_some {row : Row} {current : LeasedDelivery}
    (h : s.lease row = some current) : s.rules row.ruleId = some current.rule ∧ current.toRow = row := by
  rw [Db.lease] at h
  split at h
  · next rule content chat hrule hcontent hchat =>
    obtain rfl := Option.some.inj h
    exact ⟨hrule, rfl⟩
  · cases h

/-- The row of a delivery as the transaction reads it. -/
structure Reads (s : Db κ) (d : LeasedDelivery) (lockToken : String) (row : Row)
    (current : LeasedDelivery) : Prop where
  found : s.deliveries d.key = some row
  leased : row.Leased lockToken
  lease : s.lease row = some current
  version : current.rule.version = row.matchedRuleVersion

theorem Reads.cooldown {row : Row} {current : LeasedDelivery} (hr : Reads s d lockToken row current)
    (hknown : Known s d) (hversion : d.rule.version = d.matchedRuleVersion) :
    current.toNewDelivery = d.toNewDelivery ∧ current.rule = d.rule ∧
      s.cooldown? d.key = d.cooldown?.map fun p => ((d.ruleId, p.1), p.2) := by
  obtain ⟨row', hfound, hsame⟩ := hknown.row
  obtain rfl := Option.some.inj (hr.found.symm.trans hfound)
  obtain ⟨hrule, hrow⟩ := Db.lease_eq_some hr.lease
  have hcurrent : current.toNewDelivery = d.toNewDelivery := by rw [hrow, hsame]
  have hid : row.ruleId = d.ruleId := congrArg NewDelivery.ruleId hsame
  obtain ⟨rule, hknownRule, -, hunchanged⟩ := hknown.rule
  rw [← hid, hrule] at hknownRule
  obtain rfl := Option.some.inj hknownRule
  have hkeep : current.rule = d.rule := by
    apply hunchanged
    rw [hr.version, hversion]
    exact congrArg NewDelivery.matchedRuleVersion hsame
  refine ⟨hcurrent, hkeep, ?_⟩
  have huser : row.sourceUserId = d.sourceUserId := congrArg NewDelivery.sourceUserId hsame
  rw [hid, hkeep] at hrule
  simp only [Db.cooldown?, hr.found, Option.bind_some, huser, hid, hrule,
    LeasedDelivery.cooldown?, LeasedDelivery.cooldownSeconds]
  cases nullableString d.sourceUserId with
  | none => rfl
  | some user =>
    by_cases hpos : 0 < d.rule.cooldownSeconds.toNat <;> simp [hpos]

theorem LeasedDelivery.currentEpoch_version (h : d.currentEpoch cfg = true) :
    d.rule.version = d.matchedRuleVersion := by
  simp only [LeasedDelivery.currentEpoch, Bool.and_eq_true, beq_iff_eq] at h
  tauto

theorem sendFenceTransaction_reads {answer : Except FenceError (Db κ × Nat)}
    (h : sendFenceTransaction semanticKey cfg d lockToken ready e s = answer)
    (hepochs : ∀ m, answer ≠ .error (.epochChanged m)) (hlost : answer ≠ .error .claimLost) :
    s.fences (semanticKey d.source) = some .ready ∧ ∃ row current, Reads s d lockToken row current ∧
      claimCooldown current e s >>= assertFinalAutoReplyEpochAndBinding d lockToken ready e =
        answer := by
  rw [sendFenceTransaction] at h
  split at h
  · exact absurd h.symm (hepochs _)
  next hfence =>
  split at h
  · exact absurd h.symm hlost
  next current hcurrent =>
  split at h
  · next hepoch =>
    obtain ⟨row, hrow, hlease⟩ := Option.bind_eq_some_iff.mp hcurrent
    obtain ⟨hfound, hguard⟩ := Option.filter_eq_some_iff.mp hrow
    simp only [Bool.and_eq_true, beq_iff_eq, Option.isNone_iff_eq_none] at hguard
    refine ⟨not_not.mp hfence, row, current,
      ⟨hfound, ⟨hguard.1.1, hguard.1.2, hguard.2⟩, hlease, ?_⟩, h⟩
    have hversion := LeasedDelivery.currentEpoch_version hepoch
    rw [← (Db.lease_eq_some hlease).2]
    exact hversion
  · exact absurd h.symm (hepochs _)

structure ClaimsCooldown (d : LeasedDelivery) (e : Elapsed) (s s' : Db κ) : Prop where
  rest : s' = { s with cooldowns := s'.cooldowns }
  unclaimed : d.cooldown? = none → s'.cooldowns = s.cooldowns
  claimed : ∀ user seconds, d.cooldown? = some (user, seconds) → ∃ row,
    s'.cooldowns = Function.update s.cooldowns (d.ruleId, user) (some row) ∧
      row.lastSourceMessageId = d.sourceMessageId ∧
      ∀ old, s.cooldowns (d.ruleId, user) = some old →
        old.lastSourceMessageId = d.sourceMessageId ∧ old.nextAllowedAt ≤ row.nextAllowedAt ∨
          old.nextAllowedAt * 1000 ≤ e.conflictAt s.clock

theorem claimCooldown_ok (h : claimCooldown d e s = .ok s') : ClaimsCooldown d e s s' := by
  rw [claimCooldown] at h
  split at h
  · next hnone =>
    obtain rfl := Except.ok.inj h
    exact ⟨rfl, fun _ => rfl, fun user seconds hsome => absurd hsome (by simp [hnone])⟩
  · next user seconds hsome =>
    have hkey : ∀ user' seconds', d.cooldown? = some (user', seconds') → user' = user := by
      intro user' seconds' hsome'
      rw [hsome] at hsome'
      exact (Prod.mk.inj (Option.some.inj hsome')).1.symm
    dsimp only at h
    split at h
    · next hrow =>
      obtain rfl := Except.ok.inj h
      refine ⟨rfl, fun hnone => absurd hnone (by simp [hsome]), fun user' seconds' hs => ?_⟩
      obtain rfl := hkey user' seconds' hs
      exact ⟨_, rfl, rfl, fun old hold => absurd hold (by simp [hrow])⟩
    · next row hrow =>
      split at h
      · next hfree =>
        obtain rfl := Except.ok.inj h
        refine ⟨rfl, fun hnone => absurd hnone (by simp [hsome]), fun user' seconds' hs => ?_⟩
        obtain rfl := hkey user' seconds' hs
        refine ⟨_, rfl, rfl, fun old hold => ?_⟩
        obtain rfl := Option.some.inj (hrow.symm.trans hold)
        by_cases hown : row.lastSourceMessageId = d.sourceMessageId
        · exact .inl ⟨hown, by simp [hown]⟩
        · exact .inr (hfree.resolve_left hown)
      · cases h

theorem claimCooldown_error {z : FenceError} (h : claimCooldown d e s = .error z) :
    z = .cooldown ∧ ∃ user seconds row, d.cooldown? = some (user, seconds) ∧
      s.cooldowns (d.ruleId, user) = some row ∧ row.lastSourceMessageId ≠ d.sourceMessageId := by
  rw [claimCooldown] at h
  split at h
  · cases h
  · next user seconds hsome =>
    dsimp only at h
    split at h
    · cases h
    · next row hrow =>
      split at h
      · cases h
      · next hfree =>
        exact ⟨(Except.error.inj h).symm, user, seconds, row, hsome, hrow, (not_or.mp hfree).1⟩

/-- What moving a cooldown to the fence makes of its row. -/
theorem rebaseCooldown_some (h : rebaseCooldown d started s = some s') :
    s' = { s with cooldowns := s'.cooldowns } ∧
      (d.cooldown? = none → s'.cooldowns = s.cooldowns) ∧
      ∀ user seconds, d.cooldown? = some (user, seconds) → ∃ row,
        s.cooldowns (d.ruleId, user) = some row ∧ row.lastSourceMessageId = d.sourceMessageId ∧
          s'.cooldowns = Function.update s.cooldowns (d.ruleId, user) (some { row with
            nextAllowedAt := max row.nextAllowedAt (started + seconds * 1000) }) := by
  rw [rebaseCooldown] at h
  split at h
  · next hnone =>
    obtain rfl := Option.some.inj h
    exact ⟨rfl, fun _ => rfl, fun user seconds hsome => absurd hsome (by simp [hnone])⟩
  · next user seconds hsome =>
    dsimp only at h
    split at h
    · next row hrow =>
      split at h
      · next hown =>
        obtain rfl := Option.some.inj h
        refine ⟨rfl, fun hnone => absurd hnone (by simp [hsome]), fun user' seconds' hs => ?_⟩
        rw [hsome, Option.some.injEq, Prod.mk.injEq] at hs
        obtain ⟨rfl, rfl⟩ := hs
        exact ⟨row, hrow, hown, rfl⟩
      · cases h
    · cases h

theorem assertFinal_ok {s₁ : Db κ}
    (h : assertFinalAutoReplyEpochAndBinding d lockToken ready e s₁ = .ok (s', started)) :
    ∃ row s₂, s₁.deliveries d.key = some row ∧ admits d lockToken (e.finalAt s₁.clock) s₁ row = true ∧
      started = e.finalAt s₁.clock / 1000 ∧ rebaseCooldown d started s₁ = some s₂ ∧
      s' = { s₂ with deliveries :=
        Function.update s₂.deliveries d.key (some { row with dispatchStartedAt := some started }) } := by
  rw [assertFinalAutoReplyEpochAndBinding] at h
  split at h
  · cases h
  next row hrow =>
  split at h
  · cases h
  split at h
  · cases h
  split at h
  · next hadmits =>
    dsimp only at h
    split at h
    · next s₂ hrebase =>
      obtain ⟨rfl, rfl⟩ := Prod.mk.inj (Except.ok.inj h)
      exact ⟨row, s₂, hrow, hadmits, rfl, hrebase, rfl⟩
    · cases h
  · cases h

theorem assertFinal_error {s₁ : Db κ} {z : FenceError}
    (h : assertFinalAutoReplyEpochAndBinding d lockToken ready e s₁ = .error z) : z ≠ .cooldown := by
  rw [assertFinalAutoReplyEpochAndBinding] at h
  split at h
  · cases h
    decide
  · split at h
    · cases h
      decide
    · split at h
      · cases h
        simp
      · split at h
        · dsimp only at h
          split at h
          · cases h
          · cases h
            simp
        · cases h
          simp

/-- What a recorded fence says about the tables. -/
structure Records (semanticKey : SourceIdentity → κ) (d : LeasedDelivery) (lockToken : String)
    (e : Elapsed) (started : Nat) (s s' : Db κ) : Prop where
  admitted : s.fences (semanticKey d.source) = some .ready
  row : ∃ row, s.deliveries d.key = some row ∧ row.Leased lockToken ∧
    s'.deliveries =
      Function.update s.deliveries d.key (some { row with dispatchStartedAt := some started })
  chat : ∃ rule, s.rules d.ruleId = some rule ∧ rule.chatId = d.chatId
  time : started = e.finalAt s.clock / 1000
  clock : s'.clock = e.finalAt s.clock
  fences : s'.fences = s.fences
  rules : s'.rules = s.rules
  free : s.cooldown? d.key = none → s'.cooldowns = s.cooldowns
  /-- The row of the cooldown is taken, and only when it was its own or is over. -/
  taken : ∀ key seconds, s.cooldown? d.key = some (key, seconds) → ∃ row,
    s'.cooldowns = Function.update s.cooldowns key (some row) ∧
      row.lastSourceMessageId = d.sourceMessageId ∧ started + seconds * 1000 ≤ row.nextAllowedAt ∧
      ∀ old, s.cooldowns key = some old →
        old.lastSourceMessageId = d.sourceMessageId ∧ old.nextAllowedAt ≤ row.nextAllowedAt ∨
          old.nextAllowedAt * 1000 ≤ e.conflictAt s.clock

theorem admits_rule {nowUs : Nat} {row : Row} (h : admits d lockToken nowUs s row = true) :
    row.ruleId = d.ruleId ∧ ∃ rule, s.rules row.ruleId = some rule ∧ rule.chatId = row.chatId := by
  simp only [admits, Bool.and_eq_true, beq_iff_eq, Option.any_eq_true] at h
  tauto

theorem recordSendFence_ok (hknown : Known s d) (hversion : d.rule.version = d.matchedRuleVersion)
    (h : recordSendFence semanticKey cfg d lockToken ready e s = (s', .ok started)) :
    Records semanticKey d lockToken e started s s' := by
  rw [recordSendFence] at h
  split at h
  next s₂ dispatchStartedAt hok =>
    obtain ⟨rfl, hstarted⟩ := Prod.mk.inj h
    obtain rfl := Except.ok.inj hstarted
    obtain ⟨hadmitted, row, current, hreads, hbind⟩ :=
      sendFenceTransaction_reads hok (by simp) (by simp)
    obtain ⟨s₁, hclaim, hfinal⟩ := bind_eq_ok.mp hbind
    obtain ⟨hsame, hrule, hcooldown⟩ := hreads.cooldown hknown hversion
    have hclaims := claimCooldown_ok hclaim
    have hrest := hclaims.rest
    have hdeliveries : s₁.deliveries = s.deliveries := by rw [hrest]
    have hclock : s₁.clock = s.clock := by rw [hrest]
    obtain ⟨row', s₃, hrow', hadmits, htime, hrebase, rfl⟩ := assertFinal_ok hfinal
    obtain ⟨hrest₃, hfree, htaken⟩ := rebaseCooldown_some hrebase
    rw [hdeliveries] at hrow'
    obtain rfl := Option.some.inj (hrow'.symm.trans hreads.found)
    obtain ⟨hid, rule, hfound, hchat⟩ := admits_rule hadmits
    have hclaimed : current.cooldown? = d.cooldown? := by
      rw [LeasedDelivery.cooldown?, LeasedDelivery.cooldown?, LeasedDelivery.cooldownSeconds,
        LeasedDelivery.cooldownSeconds, hrule, congrArg NewDelivery.sourceUserId hsame]
    have hruleId : current.ruleId = d.ruleId := congrArg NewDelivery.ruleId hsame
    have hsource : current.sourceMessageId = d.sourceMessageId :=
      congrArg NewDelivery.sourceMessageId hsame
    constructor
    · exact hadmitted
    · refine ⟨row', hreads.found, hreads.leased, ?_⟩
      change Function.update s₃.deliveries _ _ = _
      rw [hrest₃]
      exact congrArg (Function.update · _ _) hdeliveries
    · refine ⟨rule, ?_, ?_⟩
      · rw [hrest, hid] at hfound
        exact hfound
      · rw [hchat]
        exact congrArg NewDelivery.chatId ((Db.lease_eq_some hreads.lease).2 ▸ hsame)
    · rw [htime, hclock]
    · rfl
    · change s₃.fences = s.fences
      rw [hrest₃, hrest]
    · change s₃.rules = s.rules
      rw [hrest₃, hrest]
    · intro hnone
      rw [hcooldown, Option.map_eq_none_iff] at hnone
      exact (hfree hnone).trans (hclaims.unclaimed (hclaimed.trans hnone))
    · intro key seconds hsome
      rw [hcooldown, Option.map_eq_some_iff] at hsome
      obtain ⟨⟨user, seconds'⟩, hd, hkey⟩ := hsome
      obtain ⟨rfl, rfl⟩ := Prod.mk.inj hkey
      obtain ⟨row₁, hset, hown, hold⟩ := hclaims.claimed user _ (hclaimed.trans hd)
      obtain ⟨row₂, hrow₂, -, hset₂⟩ := htaken user _ hd
      rw [hruleId] at hset hold
      rw [hset, Function.update_self] at hrow₂
      obtain rfl := Option.some.inj hrow₂
      let after := max row₁.nextAllowedAt (dispatchStartedAt + seconds' * 1000)
      refine ⟨{ row₁ with nextAllowedAt := after }, ?_, hown.trans hsource, Nat.le_max_right _ _,
        fun old hbefore => ?_⟩
      · change s₃.cooldowns = _
        rw [hset₂, hset, Function.update_idem]
      · rcases hold old hbefore with ⟨hsrc, hle⟩ | hover
        · exact .inl ⟨hsrc.trans hsource, Nat.le_trans hle (Nat.le_max_left _ _)⟩
        · exact .inr hover
  next z herror => cases h

/-- A refused transaction leaves everything but the clock as it was, and only the row of another
message refuses by the cooldown. -/
theorem recordSendFence_error (hknown : Known s d)
    (hversion : d.rule.version = d.matchedRuleVersion) {z : FenceError}
    (h : recordSendFence semanticKey cfg d lockToken ready e s = (s', .error z)) :
    s' = { s with clock := e.finalAt s.clock } ∧ (z = .cooldown → ∃ key seconds row,
      s.cooldown? d.key = some (key, seconds) ∧ s.cooldowns key = some row ∧
        row.lastSourceMessageId ≠ d.sourceMessageId) := by
  rw [recordSendFence] at h
  split at h
  next hok => cases h
  next y herror =>
    obtain ⟨rfl, hz⟩ := Prod.mk.inj h
    obtain rfl := Except.error.inj hz
    refine ⟨rfl, ?_⟩
    rintro rfl
    obtain ⟨-, row, current, hreads, hbind⟩ :=
      sendFenceTransaction_reads herror (by simp) (by simp)
    obtain ⟨hsame, hrule, hcooldown⟩ := hreads.cooldown hknown hversion
    cases hclaim : claimCooldown current e s with
    | ok s₁ =>
      rw [hclaim] at hbind
      exact absurd rfl (assertFinal_error hbind)
    | error y =>
      obtain ⟨-, user, seconds, old, hsome, hold, hother⟩ := claimCooldown_error hclaim
      rw [LeasedDelivery.cooldown?, LeasedDelivery.cooldownSeconds, hrule,
        congrArg NewDelivery.sourceUserId hsame] at hsome
      rw [congrArg NewDelivery.sourceMessageId hsame] at hother
      rw [congrArg NewDelivery.ruleId hsame] at hold
      refine ⟨(d.ruleId, user), seconds, old, ?_, hold, hother⟩
      rw [hcooldown, LeasedDelivery.cooldown?, LeasedDelivery.cooldownSeconds, hsome]
      rfl

end Maxim.Publisher.AutoReply.Delivery
