import Maxim.Moderation.RequiredSubscription.Changes

/-!
# Candidates decide once

A frozen plan stands with its claim on the message action and its strike, or
none of the three is there. The plan counts the strikes of the member that were
committed up to its own, and nothing changes a plan again.
-/

namespace Maxim.Moderation.RequiredSubscription

open Maxim.Library

variable {sha256 : String → String} {db next : Db} {id : String}

def Planned (db : Db) (id : String) (plan : FrozenPlan) : Prop :=
  ∃ row, db.rows id = some row ∧ row.frozenPlan = some plan

/-- No candidate has a row yet, and the other rules have their own ids and one claim on an action. -/
structure Untouched (db : Db) : Prop where
  rows : ∀ id, db.rows id = none
  claims : ∀ c ∈ db.claims, ∃ n, c.id = .generated n
  actions : (db.claims.filterMap (·.messageActionKey)).Nodup
  violations : ∀ v ∈ db.violations, ∃ n, v.id = .generated n

/-- The plan, the claim id, the claim and the strike of a candidate stand together. -/
structure Consistent (sha256 : String → String) (db : Db) : Prop where
  columns : ∀ id row, db.rows id = some row → row.columns = row.source.toBinding
  planned : ∀ id row plan, db.rows id = some row → row.frozenPlan = some plan →
    row.claimId = some (.candidate id) ∧ plan.source = row.source ∧
      ownClaim sha256 id row.columns plan.sanction.issuedAtMs ∈ db.claims ∧
      ownViolation id row.columns plan.sanction.issuedAtMs ∈ db.violations
  unplanned : ∀ id row, db.rows id = some row → row.frozenPlan = none → row.claimId = none
  claims : ∀ c ∈ db.claims, ∀ id, c.id = .candidate id → ∃ plan, Planned db id plan
  violations : ∀ v ∈ db.violations, ∀ id, v.id = .candidate id → ∃ plan, Planned db id plan
  actions : (db.claims.filterMap (·.messageActionKey)).Nodup

theorem Untouched.consistent (h : Untouched db) : Consistent sha256 db where
  columns id row hrow := by
    rw [h.rows id] at hrow
    cases hrow
  planned id row plan hrow := by
    rw [h.rows id] at hrow
    cases hrow
  unplanned id row hrow := by
    rw [h.rows id] at hrow
    cases hrow
  claims c hc id hid := by
    obtain ⟨n, hn⟩ := h.claims c hc
    rw [hn] at hid
    cases hid
  violations v hv id hid := by
    obtain ⟨n, hn⟩ := h.violations v hv
    rw [hn] at hid
    cases hid
  actions := h.actions

/-- An action key that is free stays unique. -/
theorem nodup_actions_append {claims : List MessageClaim} {claim : MessageClaim}
    (h : (claims.filterMap (·.messageActionKey)).Nodup) (hfree : conflicts claims claim = false) :
    ((claims ++ [claim]).filterMap (·.messageActionKey)).Nodup := by
  rw [List.filterMap_append]
  cases hkey : claim.messageActionKey with
  | none => simpa [hkey] using h
  | some key =>
    simp only [List.filterMap_cons, hkey, List.filterMap_nil]
    rw [List.nodup_append]
    refine ⟨h, List.nodup_singleton _, ?_⟩
    rintro a ha b hb rfl
    rw [List.mem_singleton] at hb
    subst hb
    obtain ⟨c, hc, hck⟩ := List.mem_filterMap.mp ha
    have htaken : conflicts claims claim = true := by
      refine List.any_eq_true.mpr ⟨c, hc, ?_⟩
      simp [hkey, hck]
    rw [hfree] at htaken
    cases htaken

/-! ## One step -/

namespace Change

/-- A row stays, with its source, deadline and policy, and its plan once it has one. -/
theorem row_kept (h : Change sha256 db next) {row : Row} (hrow : db.rows id = some row) :
    ∃ row', next.rows id = some row' ∧ row'.columns = row.columns ∧ row'.source = row.source ∧
      ∀ plan, row.frozenPlan = some plan →
        row'.frozenPlan = some plan ∧ row'.claimId = row.claimId := by
  have hsame : ∃ row', some row = some row' ∧ row'.columns = row.columns ∧
      row'.source = row.source ∧ ∀ plan, row.frozenPlan = some plan →
        row'.frozenPlan = some plan ∧ row'.claimId = row.claimId :=
    ⟨row, rfl, rfl, rfl, fun plan hplan => ⟨hplan, rfl⟩⟩
  cases h with
  | outside hrows =>
    rw [hrows, hrow]
    exact hsame
  | @registers id' new hnew hrows =>
    have hne : id ≠ id' := by
      rintro rfl
      rw [hrow] at hnew
      cases hnew
    rw [hrows, Function.update_of_ne hne, hrow]
    exact hsame
  | @updates id' old new hold hkeeps hrows =>
    by_cases hid : id = id'
    · subst hid
      obtain rfl := Option.some.inj (hrow.symm.trans hold)
      rw [hrows, Function.update_self]
      exact ⟨new, rfl, hkeeps.columns, hkeeps.source,
        fun plan hplan => ⟨hkeeps.frozenPlan.trans hplan, hkeeps.claimId⟩⟩
    · rw [hrows, Function.update_of_ne hid, hrow]
      exact hsame
  | @freezes id' issuedAt old plan hstart hend hf =>
    obtain ⟨updatedAt, hrows⟩ := hf.rows
    by_cases hid : id = id'
    · subst hid
      obtain rfl := Option.some.inj (hrow.symm.trans hf.found)
      rw [hrows, Function.update_self]
      refine ⟨_, rfl, rfl, rfl, fun plan' hplan' => ?_⟩
      rw [hf.unplanned] at hplan'
      cases hplan'
    · rw [hrows, Function.update_of_ne hid, hrow]
      exact hsame

theorem planned_kept (h : Change sha256 db next) {plan : FrozenPlan} (hp : Planned db id plan) :
    Planned next id plan := by
  obtain ⟨row, hrow, hplan⟩ := hp
  obtain ⟨row', hrow', -, -, hkept⟩ := h.row_kept hrow
  exact ⟨row', hrow', (hkept plan hplan).1⟩

theorem tables_kept (h : Change sha256 db next) :
    (∀ c ∈ db.claims, c ∈ next.claims) ∧ ∀ v ∈ db.violations, v ∈ next.violations := by
  cases h with
  | outside _ hclaims _ _ hviolations =>
    rw [hclaims, hviolations]
    exact ⟨fun c hc => List.mem_append_left _ hc, fun v hv => List.mem_append_left _ hv⟩
  | registers _ _ _ _ _ hclaims hviolations =>
    rw [hclaims, hviolations]
    exact ⟨fun c hc => hc, fun v hv => hv⟩
  | updates _ _ _ hclaims hviolations =>
    rw [hclaims, hviolations]
    exact ⟨fun c hc => hc, fun v hv => hv⟩
  | freezes _ _ hf =>
    rw [hf.claims, hf.violations]
    exact ⟨fun c hc => List.mem_append_left _ hc, fun v hv => List.mem_append_left _ hv⟩

/-- A row of the next tables was there with the same parts, is new, or has just been frozen. -/
theorem row_origin (h : Change sha256 db next) {row : Row} (hrow : next.rows id = some row) :
    (∃ old, db.rows id = some old ∧ old.Keeps row) ∨
    (row.frozenPlan = none ∧ row.claimId = none ∧ row.columns = row.source.toBinding) ∨
    ∃ issuedAt old plan updatedAt, db.clock ≤ issuedAt ∧ issuedAt ≤ next.clock ∧
      Freezes sha256 db id issuedAt old plan next ∧ row = { old with
        frozenPlan := some plan, claimId := some (.candidate id), updatedAt := updatedAt } := by
  cases h with
  | outside hrows =>
    rw [hrows] at hrow
    exact .inl ⟨row, hrow, rfl, rfl, rfl, rfl⟩
  | @registers id' new hnew hrows hplan hclaim hcolumns =>
    rw [hrows] at hrow
    by_cases hid : id = id'
    · subst hid
      rw [Function.update_self] at hrow
      cases hrow
      exact .inr (.inl ⟨hplan, hclaim, hcolumns⟩)
    · rw [Function.update_of_ne hid] at hrow
      exact .inl ⟨row, hrow, rfl, rfl, rfl, rfl⟩
  | @updates id' old new hold hkeeps hrows =>
    rw [hrows] at hrow
    by_cases hid : id = id'
    · subst hid
      rw [Function.update_self] at hrow
      cases hrow
      exact .inl ⟨old, hold, hkeeps⟩
    · rw [Function.update_of_ne hid] at hrow
      exact .inl ⟨row, hrow, rfl, rfl, rfl, rfl⟩
  | @freezes id' issuedAt old plan hstart hend hf =>
    obtain ⟨updatedAt, hrows⟩ := hf.rows
    rw [hrows] at hrow
    by_cases hid : id = id'
    · subst hid
      rw [Function.update_self] at hrow
      cases hrow
      exact .inr (.inr ⟨issuedAt, old, plan, updatedAt, hstart, hend, hf, rfl⟩)
    · rw [Function.update_of_ne hid] at hrow
      exact .inl ⟨row, hrow, rfl, rfl, rfl, rfl⟩

/-- A claim or a strike of a candidate in the next tables was there, or its plan has just been
frozen. -/
theorem record_origin (h : Change sha256 db next) (hc : Consistent sha256 db) :
    (∀ c ∈ next.claims, ∀ id, c.id = .candidate id → ∃ plan, Planned next id plan) ∧
      ∀ v ∈ next.violations, ∀ id, v.id = .candidate id → ∃ plan, Planned next id plan := by
  have hclaim : ∀ c ∈ db.claims, ∀ id, c.id = .candidate id → ∃ plan, Planned next id plan :=
    fun c hmem id hid => (hc.claims c hmem id hid).imp fun plan hp => h.planned_kept hp
  have hviolation : ∀ v ∈ db.violations, ∀ id, v.id = .candidate id → ∃ plan, Planned next id plan :=
    fun v hmem id hid => (hc.violations v hmem id hid).imp fun plan hp => h.planned_kept hp
  cases h with
  | outside hrows hclaims hfree hone hviolations hother =>
    rw [hclaims, hviolations]
    constructor
    · intro c hmem id hid
      rcases List.mem_append.mp hmem with hmem | hmem
      · exact hclaim c hmem id hid
      · obtain ⟨⟨n, hn⟩, -⟩ := hfree c hmem
        rw [hn] at hid
        cases hid
    · intro v hmem id hid
      rcases List.mem_append.mp hmem with hmem | hmem
      · exact hviolation v hmem id hid
      · obtain ⟨n, hn⟩ := hother v hmem
        rw [hn] at hid
        cases hid
  | registers _ _ _ _ _ hclaims hviolations =>
    rw [hclaims, hviolations]
    exact ⟨hclaim, hviolation⟩
  | updates _ _ _ hclaims hviolations =>
    rw [hclaims, hviolations]
    exact ⟨hclaim, hviolation⟩
  | @freezes id' issuedAt old plan hstart hend hf =>
    obtain ⟨updatedAt, hrows⟩ := hf.rows
    have hnew : ∃ plan, Planned next id' plan :=
      ⟨plan, _, by rw [hrows, Function.update_self], rfl⟩
    rw [hf.claims, hf.violations]
    constructor
    · intro c hmem id hid
      rcases List.mem_append.mp hmem with hmem | hmem
      · exact hclaim c hmem id hid
      · rw [List.mem_singleton.mp hmem] at hid
        cases hid
        exact hnew
    · intro v hmem id hid
      rcases List.mem_append.mp hmem with hmem | hmem
      · exact hviolation v hmem id hid
      · rw [List.mem_singleton.mp hmem] at hid
        cases hid
        exact hnew

theorem consistent (h : Change sha256 db next) (hc : Consistent sha256 db) :
    Consistent sha256 next := by
  obtain ⟨hclaims, hviolations⟩ := h.tables_kept
  refine ⟨?_, ?_, ?_, (h.record_origin hc).1, (h.record_origin hc).2, ?_⟩
  · intro id row hrow
    rcases h.row_origin hrow with ⟨old, hold, hk⟩ | ⟨-, -, hcol⟩ | ⟨_, old, _, _, -, -, hf, rfl⟩
    · rw [hk.columns, hk.source]
      exact hc.columns id old hold
    · exact hcol
    · exact hf.columns
  · intro id row plan hrow hplan
    rcases h.row_origin hrow with ⟨old, hold, hk⟩ | ⟨hnone, -, -⟩ | ⟨issuedAt, old, plan', _, -, -, hf, rfl⟩
    · obtain ⟨hid, hsource, hclaim, hviolation⟩ :=
        hc.planned id old plan hold (hk.frozenPlan ▸ hplan)
      rw [hk.claimId, hk.source, hk.columns]
      exact ⟨hid, hsource, hclaims _ hclaim, hviolations _ hviolation⟩
    · rw [hnone] at hplan
      cases hplan
    · cases hplan
      refine ⟨rfl, hf.source, ?_, ?_⟩
      · rw [hf.claims, hf.issued]
        exact List.mem_append_right _ (List.mem_singleton.mpr rfl)
      · rw [hf.violations, hf.issued]
        exact List.mem_append_right _ (List.mem_singleton.mpr rfl)
  · intro id row hrow hnone
    rcases h.row_origin hrow with ⟨old, hold, hk⟩ | ⟨-, hclaim, -⟩ | ⟨_, old, _, _, -, -, hf, rfl⟩
    · rw [hk.claimId]
      exact hc.unplanned id old hold (hk.frozenPlan ▸ hnone)
    · exact hclaim
    · cases hnone
  · cases h with
    | @outside claims violations hrows hnext hfree hone =>
      rw [hnext]
      match claims, hone, hfree with
      | [], _, _ => simpa using hc.actions
      | [c], _, hfree => exact nodup_actions_append hc.actions (hfree c (by simp)).2
    | registers _ _ _ _ _ hnext =>
      rw [hnext]
      exact hc.actions
    | updates _ _ _ hnext =>
      rw [hnext]
      exact hc.actions
    | freezes _ _ hf =>
      rw [hf.claims]
      exact nodup_actions_append hc.actions hf.free

end Change

/-! ## Runs -/

section Runs

variable {ω : Type} [DecidableEq ω] {db₀ : Db} {h h₁ h₂ : List (PoolEntry ω Call Op Op.Reply String Answer)}
  {t : Nat} {p : Pool ω Call Op Op.Reply String Answer Db}

abbrev StoreRun (sha256 : String → String) (db₀ : Db)
    (h : List (PoolEntry ω Call Op Op.Reply String Answer)) (t : Nat)
    (p : Pool ω Call Op Op.Reply String Answer Db) : Prop :=
  Run (Pool.step (Op.run sha256) (Call.program sha256)) (fun _ _ _ => True) (Pool.start db₀) h t p

def dbAfter (sha256 : String → String) (db₀ : Db)
    (h : List (PoolEntry ω Call Op Op.Reply String Answer)) : Db :=
  (replay (Pool.step (Op.run sha256) (Call.program sha256)) (Pool.start db₀) h).store

theorem store_eq_dbAfter (hr : StoreRun sha256 db₀ h t p) : p.store = dbAfter sha256 db₀ h := by
  rw [dbAfter, hr.replay_eq]

theorem step_change (now : Nat) (m : Move ω Call) (p : Pool ω Call Op Op.Reply String Answer Db) :
    Change sha256 p.store (Pool.step (Op.run sha256) (Call.program sha256) now m p).1.store := by
  rcases Pool.step_store (Op.run sha256) (Call.program sha256) now m p with
    ⟨hsame, -⟩ | ⟨_, e, _, hstore, -⟩
  · rw [hsame]
    exact .same rfl rfl rfl
  · rw [hstore]
    exact op_change e p.store

theorem step_clock (now : Nat) (m : Move ω Call) (p : Pool ω Call Op Op.Reply String Answer Db) :
    p.store.clock ≤ (Pool.step (Op.run sha256) (Call.program sha256) now m p).1.store.clock := by
  rcases Pool.step_store (Op.run sha256) (Call.program sha256) now m p with
    ⟨hsame, -⟩ | ⟨_, e, _, hstore, -⟩
  · rw [hsame]
  · rw [hstore]
    exact op_clock e p.store

theorem consistent_of_run (h₀ : Untouched db₀) (hr : StoreRun sha256 db₀ h t p) :
    Consistent sha256 p.store :=
  hr.invariant (fun _ _ p => Consistent sha256 p.store) h₀.consistent (fun _ _ _ _ hc _ => by exact hc)
    fun _ t p m hc _ => (step_change t m p).consistent hc

theorem row_kept_since (hr : StoreRun sha256 db₀ (h₁ ++ h₂) t p) {row : Row}
    (hrow : (dbAfter sha256 db₀ h₁).rows id = some row) :
    ∃ row', p.store.rows id = some row' ∧ row'.columns = row.columns ∧ row'.source = row.source ∧
      ∀ plan, row.frozenPlan = some plan →
        row'.frozenPlan = some plan ∧ row'.claimId = row.claimId := by
  refine Run.since (fun _ _ p => ∃ row', p.store.rows id = some row' ∧ row'.columns = row.columns ∧
    row'.source = row.source ∧ ∀ plan, row.frozenPlan = some plan →
      row'.frozenPlan = some plan ∧ row'.claimId = row.claimId) ?_ (fun _ _ _ _ hq _ => by exact hq) ?_ hr
  · intro t₁ p₁ hpre
    rw [store_eq_dbAfter hpre]
    exact ⟨row, hrow, rfl, rfl, fun plan hplan => ⟨hplan, rfl⟩⟩
  · rintro _ _ t s m - - ⟨row', hrow', hcol, hsource, hplans⟩ -
    obtain ⟨row'', hrow'', hcol', hsource', hplans'⟩ := (step_change t m s).row_kept hrow'
    refine ⟨row'', hrow'', hcol'.trans hcol, hsource'.trans hsource, fun plan hplan => ?_⟩
    obtain ⟨hp, hid⟩ := hplans plan hplan
    obtain ⟨hp', hid'⟩ := hplans' plan hp
    exact ⟨hp', hid'.trans hid⟩

theorem issued_of_run (h₀ : Untouched db₀) (hr : StoreRun sha256 db₀ h t p) :
    ∀ id plan, Planned p.store id plan → plan.sanction.issuedAtMs ≤ p.store.clock := by
  refine hr.invariant (fun _ _ p => ∀ id plan, Planned p.store id plan →
    plan.sanction.issuedAtMs ≤ p.store.clock) ?_ (fun _ _ _ _ hq _ => by exact hq) ?_
  · rintro id plan ⟨row, hrow, -⟩
    rw [Pool.start, h₀.rows id] at hrow
    cases hrow
  · rintro _ t p m hissued - id plan ⟨row, hrow, hplan⟩
    rcases (step_change t m p).row_origin hrow with
      ⟨old, hold, hk⟩ | ⟨hnone, -, -⟩ | ⟨issuedAt, old, plan', _, -, hend, hf, rfl⟩
    · exact (hissued id plan ⟨old, hold, hk.frozenPlan ▸ hplan⟩).trans (step_clock t m p)
    · rw [hnone] at hplan
      cases hplan
    · cases hplan
      exact hf.issued ▸ hend

/-- The step that freezes a plan writes the plan, its claim and its strike, and counts. -/
structure DecidedAt (sha256 : String → String) (before after : Db) (id : String)
    (plan : FrozenPlan) : Prop where
  undecided : ¬∃ plan, Planned before id plan
  clock : before.clock ≤ plan.sanction.issuedAtMs
  row : ∃ row, after.rows id = some row ∧ row.frozenPlan = some plan ∧
    row.claimId = some (.candidate id)
  claim : after.claims = before.claims ++
    [ownClaim sha256 id plan.source.toBinding plan.sanction.issuedAtMs]
  violation : after.violations = before.violations ++
    [ownViolation id plan.source.toBinding plan.sanction.issuedAtMs]
  count : plan.violationCount24h = strikes after.violations plan.source.chatId plan.source.userId
    (windowStart before.events plan.source.chatId plan.source.userId plan.sanction.issuedAtMs)
    plan.sanction.issuedAtMs

theorem Freezes.decidedAt {issuedAt : Nat} {row : Row} {plan : FrozenPlan}
    (hf : Freezes sha256 db id issuedAt row plan next) (hstart : db.clock ≤ issuedAt) :
    DecidedAt sha256 db next id plan := by
  obtain ⟨updatedAt, hrows⟩ := hf.rows
  have hbinding : plan.source.toBinding = row.columns := by rw [hf.source, hf.columns]
  refine ⟨?_, hf.issued ▸ hstart, ⟨_, by rw [hrows, Function.update_self], rfl, rfl⟩, ?_, ?_, ?_⟩
  · rintro ⟨plan', row', hrow', hplan'⟩
    obtain rfl := Option.some.inj (hf.found.symm.trans hrow')
    rw [hf.unplanned] at hplan'
    cases hplan'
  · rw [hf.claims, hbinding, hf.issued]
  · rw [hf.violations, hbinding, hf.issued]
  · rw [hf.violations, hbinding, hf.issued]
    exact hf.count

/-- Every plan was frozen by one step of the history. -/
theorem decided_of_run (h₀ : Untouched db₀) (hr : StoreRun sha256 db₀ h t p) {plan : FrozenPlan}
    (hp : Planned p.store id plan) : ∃ h₁ e h₂, h = h₁ ++ e :: h₂ ∧
      DecidedAt sha256 (dbAfter sha256 db₀ h₁) (dbAfter sha256 db₀ (h₁ ++ [e])) id plan := by
  induction hr with
  | nil =>
    obtain ⟨row, hrow, -⟩ := hp
    rw [Pool.start, h₀.rows id] at hrow
    cases hrow
  | @snoc h t s now m hpre hle hok ih =>
    have hafter : dbAfter sha256 db₀ (h ++ [⟨now, m, _⟩]) =
        (Pool.step (Op.run sha256) (Call.program sha256) now m s).1.store :=
      (store_eq_dbAfter (hpre.snoc now m hle hok)).symm
    obtain ⟨row, hrow, hplan⟩ := hp
    rcases (step_change now m s).row_origin hrow with
      ⟨old, hold, hk⟩ | ⟨hnone, -, -⟩ | ⟨issuedAt, old, plan', _, hstart, -, hf, rfl⟩
    · obtain ⟨h₁, e, h₂, rfl, hat⟩ := ih ⟨old, hold, hk.frozenPlan ▸ hplan⟩
      exact ⟨h₁, e, _, by rw [List.append_assoc, List.cons_append], hat⟩
    · rw [hnone] at hplan
      cases hplan
    · cases hplan
      refine ⟨h, _, [], rfl, ?_⟩
      rw [hafter, ← store_eq_dbAfter hpre]
      exact hf.decidedAt hstart

end Runs

end Maxim.Moderation.RequiredSubscription
