import Maxim.Moderation.RequiredSubscription.Decisions
import Mathlib.Data.List.Pairwise

/-!
# Candidates ban once

A ban begins only from the phase `UNSTARTED`, and only a proven absence of an
effect leads back to it. With the decisions this gives what the store
guarantees over whole runs.
-/

namespace Maxim.Moderation.RequiredSubscription

open Maxim.Library

variable {sha256 : String → String} {db next : Db} {id : String}

/-- The journal of the candidate has left `UNSTARTED`. -/
def Started (db : Db) (id : String) : Prop :=
  ∃ row, db.rows id = some row ∧ row.effects.currentPhase ≠ .unstarted

theorem Started.of_rows (hs : Started db id) (hrows : next.rows id = db.rows id) : Started next id := by
  obtain ⟨row, hrow, hphase⟩ := hs
  exact ⟨row, hrows.trans hrow, hphase⟩

theorem update_one {guard : Row → Bool} {data : Row → Row} (h : (db.update id guard data).2 = 1) :
    ∃ row, db.rows id = some row ∧ guard row = true ∧
      (db.update id guard data).1.rows = Function.update db.rows id (some (data row)) := by
  unfold Db.update at h ⊢
  split
  next hrow =>
    rw [hrow] at h
    cases h
  next row hrow =>
    rw [hrow] at h
    dsimp only at h
    by_cases hg : guard row = true
    · rw [if_pos hg]
      exact ⟨row, hrow, hg, rfl⟩
    · rw [if_neg hg] at h
      cases h

theorem update_cases (db : Db) (id' : String) (guard : Row → Bool) (data : Row → Row) :
    (db.update id' guard data).1 = db ∨ (db.update id' guard data).2 = 1 := by
  unfold Db.update
  split
  · exact .inl rfl
  · split
    · exact .inr rfl
    · exact .inl rfl

theorem Started.update (hs : Started db id) {id' : String} {guard : Row → Bool} {data : Row → Row}
    (hdata : ∀ row, row.effects.currentPhase ≠ .unstarted →
      (data row).effects.currentPhase ≠ .unstarted) : Started (db.update id' guard data).1 id := by
  rcases update_cases db id' guard data with hsame | hone
  · rwa [hsame]
  · obtain ⟨row, hrow, -, hrows⟩ := update_one hone
    by_cases hid : id = id'
    · subst hid
      obtain ⟨row', hrow', hphase⟩ := hs
      obtain rfl := Option.some.inj (hrow.symm.trans hrow')
      exact ⟨data row, by rw [hrows, Function.update_self], hdata row hphase⟩
    · exact hs.of_rows (by rw [hrows, Function.update_of_ne hid])

theorem Freezes.started {issuedAt : Nat} {row : Row} {plan : FrozenPlan} {id' : String}
    (hf : Freezes sha256 db id' issuedAt row plan next) (hs : Started db id) : Started next id := by
  obtain ⟨updatedAt, hrows⟩ := hf.rows
  by_cases hid : id = id'
  · subst hid
    obtain ⟨row', hrow', hphase⟩ := hs
    obtain rfl := Option.some.inj (hf.found.symm.trans hrow')
    refine ⟨{ row with frozenPlan := some plan, claimId := some (.candidate id), updatedAt }, ?_, hphase⟩
    rw [hrows, Function.update_self]
  · exact hs.of_rows (by rw [hrows, Function.update_of_ne hid])

theorem transaction_started {α : Type} {clock : Nat} {result : Except String (Db × α)}
    (hs : Started db id) (h : ∀ next a, result = .ok (next, a) → Started next id) :
    Started (transaction db clock result).1 id := by
  unfold transaction
  split
  · exact hs
  next next a => exact h next a rfl

/-- The journal stays started, unless the step resets it. -/
theorem op_started (sha256 : String → String) (hs : Started db id) (e : Op) :
    (∃ token, e = .patch id token .resetAfterProvenNoEffect ∧
      (db.patch id token (fun _ => true) (Patch.apply · .resetAfterProvenNoEffect)).2 = 1) ∨
    Started (e.run sha256 db).1 id := by
  cases e with
  | insert source =>
    right
    simp only [Op.run, Db.insert]
    split
    · exact hs
    next hnew =>
      refine hs.of_rows (Function.update_of_ne ?_ _ _)
      rintro rfl
      obtain ⟨row, hrow, -⟩ := hs
      rw [hrow] at hnew
      cases hnew
  | claim => exact .inr (hs.update fun _ hphase => hphase)
  | renewLease => exact .inr (hs.update fun _ hphase => hphase)
  | freeze input d₁ d₂ =>
    refine .inr (transaction_started hs fun next a h => ?_)
    rcases freeze_cases h with rfl | ⟨row, plan, hf⟩
    · exact hs
    · exact hf.started hs
  | persist id' token d₁ d₂ =>
    refine .inr (transaction_started hs fun next a h => ?_)
    obtain ⟨row, row', hrow, -, hphase, hrows, -, -⟩ := persist_cases h
    by_cases hid : id = id'
    · subst hid
      exact ⟨row', by rw [hrows, Function.update_self], by simp [hphase]⟩
    · exact hs.of_rows (by rw [hrows, Function.update_of_ne hid])
  | receipt id' token r =>
    refine .inr (hs.update fun row hphase => ?_)
    cases r <;> exact hphase
  | beginBan => exact .inr (hs.update fun row _ => by simp [Effects.currentPhase])
  | patch id' token q =>
    cases q with
    | resetAfterProvenNoEffect =>
      by_cases hid : id = id'
      · subst hid
        rcases update_cases db id (fun row => row.ownedBy token db.clock && true)
          (fun row => { row with
            effects := Patch.apply row.effects .resetAfterProvenNoEffect, updatedAt := db.clock }) with
          hsame | hone
        · right
          exact hs.of_rows (congrArg (fun s => s.rows id) hsame)
        · exact .inl ⟨token, rfl, hone⟩
      · right
        rcases update_cases db id' (fun row => row.ownedBy token db.clock && true)
          (fun row => { row with
            effects := Patch.apply row.effects .resetAfterProvenNoEffect, updatedAt := db.clock }) with
          hsame | hone
        · exact hs.of_rows (congrArg (fun s => s.rows id) hsame)
        · obtain ⟨row, -, -, hrows⟩ := update_one hone
          exact hs.of_rows ((congrFun hrows id).trans (Function.update_of_ne hid _ _))
    | completeReputation => exact .inr (hs.update fun _ hphase => hphase)
    | confirmBan => exact .inr (hs.update fun row _ => by simp [Patch.apply, Effects.currentPhase])
    | markUnknown => exact .inr (hs.update fun row _ => by simp [Patch.apply, Effects.currentPhase])
    | commitSqlEvent =>
      exact .inr (hs.update fun row _ => by simp [Patch.apply, Effects.currentPhase])
    | settle => exact .inr (hs.update fun row _ => by simp [Patch.apply, Effects.currentPhase])
  | claimReputation => exact .inr (hs.update fun _ hphase => hphase)
  | finish => exact .inr (hs.update fun _ hphase => hphase)
  | read => exact .inr hs
  | assertLease => exact .inr hs
  | readEffects => exact .inr hs
  | pass => exact .inr hs
  | administer => exact .inr hs
  | otherClaim n c =>
    right
    simp only [Op.run]
    split <;> exact hs
  | otherViolation n v =>
    right
    simp only [Op.run]
    split <;> exact hs
  | otherEvent n e =>
    right
    simp only [Op.run]
    split <;> exact hs

/-! ## Begun bans -/

/-- What a begun ban has found: the lease, a live deadline, a plan to ban and no earlier effect. -/
structure BanFound (db : Db) (id token : String) : Prop where
  row : ∃ row plan, db.rows id = some row ∧ row.ownedBy token db.clock = true ∧
    db.clock < row.columns.deadlineAtMs ∧ row.frozenPlan = some plan ∧ plan.sanction.action = .ban ∧
    row.claimId = some (.candidate id)
  unstarted : ¬Started db id

theorem beginBan_one {token : String}
    (h : ((Op.beginBan id token).run sha256 db).2 = (1 : Nat)) :
    BanFound db id token ∧ Started ((Op.beginBan id token).run sha256 db).1 id := by
  obtain ⟨row, hrow, hguard, hrows⟩ := update_one h
  simp only [beginBanGuard, Bool.and_eq_true, decide_eq_true_eq, Option.any_eq_true] at hguard
  obtain ⟨howned, ⟨⟨hlive, plan, hplan, hban⟩, hclaim⟩, hphase⟩ := hguard
  refine ⟨⟨⟨row, plan, hrow, howned, hlive, hplan, hban, hclaim⟩, ?_⟩, ?_⟩
  · rintro ⟨row', hrow', hstarted⟩
    obtain rfl := Option.some.inj (hrow.symm.trans hrow')
    exact hstarted hphase
  · refine ⟨_, (congrFun hrows id).trans (Function.update_self _ _ _), ?_⟩
    simp [Effects.currentPhase]

section Runs

variable {ω : Type} [DecidableEq ω] {db₀ : Db}
  {h h₁ h₂ h₃ : List (PoolEntry ω Call Op Op.Reply String Answer)}
  {e e' : PoolEntry ω Call Op Op.Reply String Answer} {t : Nat}
  {p : Pool ω Call Op Op.Reply String Answer Db}

def BeginsBan (id token : String) (e : PoolEntry ω Call Op Op.Reply String Answer) : Prop :=
  ∃ call result, e.reply = some ⟨call, some ⟨.beginBan id token, (1 : Nat)⟩, result⟩

/-- The step has taken the ban of the candidate back, as one without an effect. -/
def ResetsBan (id : String) (e : PoolEntry ω Call Op Op.Reply String Answer) : Prop :=
  ∃ call token result,
    e.reply = some ⟨call, some ⟨.patch id token .resetAfterProvenNoEffect, (1 : Nat)⟩, result⟩

theorem begun_of_run {token : String} (hr : StoreRun sha256 db₀ (h ++ [e]) t p)
    (hb : BeginsBan id token e) :
    BanFound (dbAfter sha256 db₀ h) id token ∧ Started p.store id := by
  obtain ⟨t₁, p₁, hpre, -, -, rfl, hreply, rfl⟩ := hr.snoc_inv
  obtain ⟨call, result, hshown⟩ := hb
  obtain ⟨hstore, hone⟩ := Pool.step_shown (hreply.symm.trans hshown)
  rw [← store_eq_dbAfter hpre, hstore]
  exact beginBan_one hone

theorem step_started (hs : Started p.store id) (now : Nat) (m : Move ω Call) :
    ResetsBan id ⟨now, m, (Pool.step (Op.run sha256) (Call.program sha256) now m p).2⟩ ∨
      Started (Pool.step (Op.run sha256) (Call.program sha256) now m p).1.store id := by
  rcases Pool.step_store (Op.run sha256) (Call.program sha256) now m p with
    ⟨hsame, -⟩ | ⟨call, e, result, hstore, hshown⟩
  · rw [hsame]
    exact .inr hs
  · rcases op_started sha256 hs e with ⟨token, rfl, hone⟩ | hkept
    · have hanswer : ((Op.patch id token .resetAfterProvenNoEffect).run sha256 p.store).2 = (1 : Nat) :=
        hone
      rw [hanswer] at hshown
      exact .inl ⟨call, token, result, hshown⟩
    · rw [hstore]
      exact .inr hkept

/-- Between two begun bans of a candidate the first one is taken back. -/
theorem reset_between {token token' : String}
    (hr : StoreRun sha256 db₀ (h₁ ++ e :: h₂ ++ e' :: h₃) t p) (hb : BeginsBan id token e)
    (hb' : BeginsBan id token' e') : ∃ x ∈ h₂, ResetsBan id x := by
  rw [List.append_cons (h₁ ++ e :: h₂)] at hr
  obtain ⟨t₁, p₁, hr₁, -⟩ := hr.of_append
  have hfound := (begun_of_run hr₁ hb').1
  obtain ⟨t₂, p₂, hr₂, -⟩ := hr₁.snoc_inv
  rw [← store_eq_dbAfter hr₂] at hfound
  rw [List.append_cons] at hr₂
  have hone : Sometime (fun _ x => ResetsBan id x) (h₁ ++ [e]) h₂ ∨ Started p₂.store id := by
    refine Run.unless (fun p => Started p.store id) _ ?_ ?_ hr₂
    · intro t s hpre
      exact (begun_of_run hpre hb).2
    · intro _ _ s m _ hs now _
      exact step_started hs now m
  rcases hone with ⟨l, x, r, rfl, hx⟩ | hstarted
  · exact ⟨x, by simp, hx⟩
  · exact absurd hstarted hfound.unstarted

end Runs

end Maxim.Moderation.RequiredSubscription

/-!
## What the candidate store guarantees

One owner for each message action, one decision for each candidate, one ban for
each decision.
-/

namespace Maxim.Moderation.RequiredSubscription

open Maxim.Library

variable {sha256 : String → String} {db : Db} {id : String}

namespace Consistent

theorem claim_unique (hc : Consistent sha256 db) {c c' : MessageClaim} {key : String}
    (hmem : c ∈ db.claims) (hmem' : c' ∈ db.claims) (hkey : c.messageActionKey = some key)
    (hkey' : c'.messageActionKey = some key) : c = c' := by
  have hpair := hc.actions
  rw [List.Nodup, List.pairwise_filterMap] at hpair
  by_contra hne
  have hsymm : Std.Symm fun a b : MessageClaim =>
      ∀ k, a.messageActionKey = some k → ∀ k', b.messageActionKey = some k' → k ≠ k' :=
    ⟨fun a b hab k hk k' hk' heq => hab k' hk' k hk heq.symm⟩
  exact hpair.forall hmem hmem' hne key hkey key hkey' rfl

theorem owner_unique (hc : Consistent sha256 db) {id' : String} {plan plan' : FrozenPlan}
    (hp : Planned db id plan) (hp' : Planned db id' plan')
    (hchat : plan.source.chatId = plan'.source.chatId)
    (hmessage : plan.source.messageId = plan'.source.messageId) : id = id' := by
  obtain ⟨row, hrow, hplan⟩ := hp
  obtain ⟨row', hrow', hplan'⟩ := hp'
  obtain ⟨-, hsource, hclaim, -⟩ := hc.planned id row plan hrow hplan
  obtain ⟨-, hsource', hclaim', -⟩ := hc.planned id' row' plan' hrow' hplan'
  rw [hsource, hsource', ← hc.columns id row hrow, ← hc.columns id' row' hrow'] at hchat hmessage
  have hsame := hc.claim_unique hclaim hclaim' rfl (by simp only [ownClaim, hchat, hmessage])
  exact RecordId.candidate.inj (congrArg MessageClaim.id hsame)

/-- The plan, the claim id, the claim and the strike of a candidate exist all or none. -/
theorem all_or_none (hc : Consistent sha256 db) {row : Row} (hrow : db.rows id = some row) :
    (row.claimId ≠ none ↔ row.frozenPlan ≠ none) ∧
    ((∃ c ∈ db.claims, c.id = .candidate id) ↔ row.frozenPlan ≠ none) ∧
    ((∃ v ∈ db.violations, v.id = .candidate id) ↔ row.frozenPlan ≠ none) := by
  have hplanned : (∃ plan, Planned db id plan) → row.frozenPlan ≠ none := by
    rintro ⟨plan, row', hrow', hplan⟩
    obtain rfl := Option.some.inj (hrow.symm.trans hrow')
    simp [hplan]
  refine ⟨⟨?_, ?_⟩, ⟨?_, ?_⟩, ⟨?_, ?_⟩⟩
  · exact mt (hc.unplanned id row hrow)
  · intro hne
    obtain ⟨plan, hplan⟩ := Option.ne_none_iff_exists'.mp hne
    simp [(hc.planned id row plan hrow hplan).1]
  · rintro ⟨c, hmem, hid⟩
    exact hplanned (hc.claims c hmem id hid)
  · intro hne
    obtain ⟨plan, hplan⟩ := Option.ne_none_iff_exists'.mp hne
    exact ⟨_, (hc.planned id row plan hrow hplan).2.2.1, rfl⟩
  · rintro ⟨v, hmem, hid⟩
    exact hplanned (hc.violations v hmem id hid)
  · intro hne
    obtain ⟨plan, hplan⟩ := Option.ne_none_iff_exists'.mp hne
    exact ⟨_, (hc.planned id row plan hrow hplan).2.2.2, rfl⟩

theorem strike_mem (hc : Consistent sha256 db) {plan : FrozenPlan} (hp : Planned db id plan) :
    ownViolation id plan.source.toBinding plan.sanction.issuedAtMs ∈ db.violations := by
  obtain ⟨row, hrow, hplan⟩ := hp
  obtain ⟨-, hsource, -, hstrike⟩ := hc.planned id row plan hrow hplan
  rw [hsource, ← hc.columns id row hrow]
  exact hstrike

end Consistent

variable {ω : Type} [DecidableEq ω] {db₀ : Db}
  {h : List (PoolEntry ω Call Op Op.Reply String Answer)} {t : Nat}
  {p : Pool ω Call Op Op.Reply String Answer Db}

/-- Candidates decide once, and ban once unless a ban is proven to have had no effect. -/
theorem decides_once_bans_once (h₀ : Untouched db₀) (hr : StoreRun sha256 db₀ h t p) :
    -- the source, the deadline and the policy stay, and so do the plan and the claim id
    (∀ h₁ h₂ id row, h = h₁ ++ h₂ → (dbAfter sha256 db₀ h₁).rows id = some row →
      ∃ row', p.store.rows id = some row' ∧ row'.columns = row.columns ∧
        row'.source = row.source ∧ ∀ plan, row.frozenPlan = some plan →
          row'.frozenPlan = some plan ∧ row'.claimId = row.claimId) ∧
    -- one step has written all parts of a decision and counted every strike
    (∀ id plan, Planned p.store id plan → ∃ h₁ e h₂, h = h₁ ++ e :: h₂ ∧
      DecidedAt sha256 (dbAfter sha256 db₀ h₁) (dbAfter sha256 db₀ (h₁ ++ [e])) id plan ∧
      ∀ id' plan', Planned (dbAfter sha256 db₀ h₁) id' plan' →
        ownViolation id' plan'.source.toBinding plan'.sanction.issuedAtMs ∈
          (dbAfter sha256 db₀ h₁).violations ∧
        plan'.sanction.issuedAtMs ≤ plan.sanction.issuedAtMs) ∧
    -- the four parts of a decision exist all or none
    (∀ id row, p.store.rows id = some row →
      (row.claimId ≠ none ↔ row.frozenPlan ≠ none) ∧
      ((∃ c ∈ p.store.claims, c.id = .candidate id) ↔ row.frozenPlan ≠ none) ∧
      ((∃ v ∈ p.store.violations, v.id = .candidate id) ↔ row.frozenPlan ≠ none)) ∧
    -- a message action has one owner
    (∀ c ∈ p.store.claims, ∀ c' ∈ p.store.claims, ∀ key, c.messageActionKey = some key →
      c'.messageActionKey = some key → c = c') ∧
    (∀ id id' plan plan', Planned p.store id plan → Planned p.store id' plan' →
      plan.source.chatId = plan'.source.chatId → plan.source.messageId = plan'.source.messageId →
      id = id') ∧
    -- a ban begins on its decision, in time, and not twice
    (∀ h₁ e h₂ id token, h = h₁ ++ e :: h₂ → BeginsBan id token e →
      BanFound (dbAfter sha256 db₀ h₁) id token) ∧
    ∀ h₁ e h₂ e' h₃ id token token', h = h₁ ++ e :: h₂ ++ e' :: h₃ → BeginsBan id token e →
      BeginsBan id token' e' → ∃ x ∈ h₂, ResetsBan id x := by
  have hconsistent := consistent_of_run h₀ hr
  refine ⟨?_, ?_, fun id row hrow => hconsistent.all_or_none hrow, ?_, ?_, ?_, ?_⟩
  · rintro h₁ h₂ id row rfl hrow
    exact row_kept_since hr hrow
  · intro id plan hp
    obtain ⟨h₁, e, h₂, rfl, hat⟩ := decided_of_run h₀ hr hp
    refine ⟨h₁, e, h₂, rfl, hat, fun id' plan' hp' => ?_⟩
    obtain ⟨t₁, p₁, hr₁, -⟩ := hr.of_append
    rw [← store_eq_dbAfter hr₁] at hp' hat ⊢
    exact ⟨(consistent_of_run h₀ hr₁).strike_mem hp',
      (issued_of_run h₀ hr₁ id' plan' hp').trans hat.clock⟩
  · intro c hmem c' hmem' key hkey hkey'
    exact hconsistent.claim_unique hmem hmem' hkey hkey'
  · intro id id' plan plan' hp hp' hchat hmessage
    exact hconsistent.owner_unique hp hp' hchat hmessage
  · rintro h₁ e h₂ id token rfl hb
    rw [List.append_cons] at hr
    obtain ⟨t₁, p₁, hr₁, -⟩ := hr.of_append
    exact (begun_of_run hr₁ hb).1
  · rintro h₁ e h₂ e' h₃ id token token' rfl hb hb'
    exact reset_between hr hb hb'

/-! ## One decision -/

def sampleBinding : Binding where
  chatId := "c"
  userId := "u"
  messageId := "m"
  sourceAtMs := 1000
  deadlineAtMs := 301000
  policySha256 := "0123456789abcdef0123456789abcdef0123456789abcdef0123456789abcdef"

def sampleSource : Source where
  toBinding := sampleBinding
  originBotId := none
  updateType := .messageCreated
  mediaScope := none
  userLabel := "u"
  maskedExcerpt := none
  rulesPublishedUrl := none
  rulesPublishedMessageId := none

def sampleSha256 (text : String) : String := text

def sampleId : String := buildRequiredSubscriptionCandidateId sampleSha256 sampleBinding

def sampleQualification : Qualification where
  requiredChannelIds := ["k"]
  missingChannelIds := ["k"]

def samplePlan : FrozenPlan where
  candidateId := sampleId
  source := sampleSource
  qualification := sampleQualification
  violationCount24h := 1
  sanction :=
    { action := .ban
      issuedAtMs := 2000
      muteExpiresAtMs := none
      muteDurationHours := 0
      eventId := .candidate sampleId
      noticeKey := noticeKey sampleBinding }
  notice :=
    { action := .ban
      renderedText := "t"
      messageOptions := some "o"
      mediaFieldKey := none
      deleteBotMessagesEnabled := false
      deleteBotMessagesDelayMinutes := 0
      proofReasonKey := "REQUIRED_SUBSCRIPTION:message-delete"
      proof := sampleBinding
      bytes := 1 }

def sampleSettings : ChatSettings where
  isChat := true
  admins := []
  requiredSubscriptionEnabled := true
  requiredSubscriptionChannelIds := some ["k"]
  fingerprint := sampleBinding.policySha256

def sampleDb : Db where
  clock := 1500
  rows _ := none
  claims := []
  violations := []
  events := []
  settings _ := some sampleSettings
  messageHeld _ _ := false
  memberHeld _ _ := false
  globalUserHeld _ := false

/-- One worker registers, claims and freezes. -/
def sampleMoves : List (Nat × Move (Fin 1) Call) :=
  [.call 0 (.register sampleSource), .resume 0, .resume 0,
    .call 0 (.claim sampleId "t"), .resume 0, .resume 0,
    .call 0 (.freeze ⟨sampleId, "t", sampleQualification, fun _ => some samplePlan⟩ 500 0), .resume 0].map
    (0, ·)

def sampleRun : List (PoolEntry (Fin 1) Call Op Op.Reply String Answer) ×
    Pool (Fin 1) Call Op Op.Reply String Answer Db :=
  play (Pool.step (Op.run sampleSha256) (Call.program sampleSha256)) (Pool.start sampleDb) sampleMoves

theorem run_sample : ∃ t, StoreRun sampleSha256 sampleDb sampleRun.1 t sampleRun.2 :=
  run_play (by decide) (accepted_of_forall (fun _ _ _ => trivial) _ _)

theorem planned_sample : Planned sampleRun.2.store sampleId samplePlan := by
  have hplan : (sampleRun.2.store.rows sampleId).bind (·.frozenPlan) = some samplePlan := by
    decide +kernel
  obtain ⟨row, hrow, hplan⟩ := Option.bind_eq_some_iff.mp hplan
  exact ⟨row, hrow, hplan⟩

theorem untouched_sample : Untouched sampleDb where
  rows _ := rfl
  claims := by simp [sampleDb]
  actions := by simp [sampleDb]
  violations := by simp [sampleDb]

theorem decides_once_sample :
    ∃ h₁ e h₂, sampleRun.1 = h₁ ++ e :: h₂ ∧
      DecidedAt sampleSha256 (dbAfter sampleSha256 sampleDb h₁)
        (dbAfter sampleSha256 sampleDb (h₁ ++ [e])) sampleId samplePlan := by
  obtain ⟨t, hr⟩ := run_sample
  obtain ⟨h₁, e, h₂, heq, hat, -⟩ :=
    (decides_once_bans_once untouched_sample hr).2.1 sampleId samplePlan planned_sample
  exact ⟨h₁, e, h₂, heq, hat⟩

end Maxim.Moderation.RequiredSubscription
