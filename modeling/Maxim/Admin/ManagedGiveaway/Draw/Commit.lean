import Maxim.Admin.ManagedGiveaway.Draw.Seed

/-!
# A draw commits once and picks the right winners

While every lease has a date of its own and every draw reads its own lease
back, the draw that commits is the last that claimed the giveaway, no entry was
admitted since, and the winners are those of the entries of its claim. A draw
that reads the lease of another one back writes winners under it.
-/

namespace Maxim.Admin.ManagedGiveaway.Draw

open Maxim.Library

variable {ω υ ρ : Type}

/-! ## What a step is -/

/-- The lease that a step takes, and its worker. -/
def leases? (x : Event ω υ ρ) : Option (ω × Nat) :=
  match counted? x with
  | some (w, .claimDraw _ _ now) | some (w, .resumeDraw _ _ now) => some (w, now)
  | _ => none

def restores (x : Event ω υ ρ) : Bool :=
  match counted? x with
  | some (_, .restoreDraw _ _ _) => true
  | _ => false

def admitsEntry (x : Event ω υ ρ) : Bool :=
  match performed? x with
  | some (_, _, ⟨.admission _ _ _, true⟩) => true
  | _ => false

/-- The lease that was taken last does not stand after the step as it stood before. -/
def Ends (x : Event ω υ ρ) : Prop :=
  (leases? x).isSome = true ∨ restores x = true ∨ admitsEntry x = true

/-- The giveaway is drawn under the lease. -/
structure Intact (lockedAt : Nat) (s : Records υ ρ) : Prop where
  status : s.giveaway.status = .drawing
  lockedAt : s.giveaway.lockedAt = some lockedAt

inductive Effect [LinearOrder υ] (w : ω) (i : Call υ) (q : Stage υ ρ) (x : Event ω υ ρ)
    (s s' : Records υ ρ) : Prop
  | quiet (row : Giveaway) (store : s' = { s with giveaway := row })
    (lease : row.status = s.giveaway.status ∧ row.lockedAt = s.giveaway.lockedAt ∨
      row.status ≠ .drawing ∧ (s.giveaway.status = .completed → row.status = .completed))
    (ends : ¬Ends x) (commits : commits? s x = none)
  | admits (row : Giveaway) (entries : List (Entry υ ρ))
    (store : s' = { s with giveaway := row, entries }) (before : s.giveaway.status = .active)
    (after : row.status = .active) (leases : leases? x = none) (admitted : admitsEntry x = true)
    (commits : commits? s x = none)
  | leases (d : DrawInputs υ) (row : Giveaway) (call : i = .draw d)
    (store : s' = { s with giveaway := row }) (before : s.giveaway.status ≠ .completed)
    (after : row.status = .drawing ∧ row.lockedAt = some d.now) (leases : leases? x = some (w, d.now))
    (commits : commits? s x = none)
  | restores (row : Giveaway) (store : s' = { s with giveaway := row })
    (before : s.giveaway.status = .drawing) (after : row.lockedAt = none) (leases : leases? x = none)
    (restored : restores x = true) (commits : commits? s x = none)
  | commits (d : DrawInputs υ) (initial : Records υ ρ) (drawSeed : String) (giveaway : Records υ ρ)
    (c : Completion υ ρ) (call : i = .draw d) (stage : q = .holding initial drawSeed giveaway)
    (committed : completed s c = .ok s') (ends : ¬Ends x) (commits : commits? s x = some (w, c))

section Steps

variable {x : Event ω υ ρ} {w : ω} {i : Call υ} {q : Stage υ ρ} {s : Records υ ρ} {now : Nat} {u : Update}

theorem counted_none_of_performed {e : Op υ ρ} {r : e.Reply} (hx : performed? x = some (w, i, ⟨e, r⟩))
    (he : ∀ now u, e ≠ .row (.update now u)) : counted? x = none := by
  rw [counted?, hx]
  cases e with
  | row e =>
    cases e with
    | find => rfl
    | update now u => exact absurd rfl (he now u)
  | _ => rfl

theorem admitsEntry_of_performed {e : Op υ ρ} {r : e.Reply}
    (hx : performed? x = some (w, i, ⟨e, r⟩))
    (he : ∀ userId state checkedAt, e ≠ .admission userId state checkedAt) :
    admitsEntry x = false := by
  rw [admitsEntry, hx]
  cases e with
  | admission userId state checkedAt => exact absurd rfl (he userId state checkedAt)
  | _ => rfl

theorem admitsEntry_of_admission {userId : υ} {state : EligibilityState} {checkedAt : Nat} {r : Bool}
    (hx : performed? x = some (w, i, ⟨.admission userId state checkedAt, r⟩)) : admitsEntry x = r := by
  rw [admitsEntry, hx]
  cases r <;> rfl

theorem not_ends (hcounted : counted? x = none) (hadmits : admitsEntry x = false) : ¬Ends x := by
  simp [Ends, leases?, restores, hcounted, hadmits]

variable [LinearOrder υ]

theorem commits_none_of_performed {e : Op υ ρ} {r : e.Reply} (hx : performed? x = some (w, i, ⟨e, r⟩))
    (he : ∀ c fate, e ≠ .complete c fate) : commits? s x = none := by
  rw [commits?, hx]
  cases e with
  | complete c fate => exact absurd rfl (he c fate)
  | _ => rfl

theorem effect_of_update
    (hx : performed? x = some (w, i, ⟨.row (.update now u), (s.giveaway.update now u).2⟩))
    (hcounted : u.guard s.giveaway = true → counted? x = some (w, u) → admitsEntry x = false →
      commits? s x = none →
      Effect w i q x s { s with giveaway := { u.data s.giveaway with updatedAt := now } }) :
    Effect w i q x s { s with giveaway := (s.giveaway.update now u).1 } := by
  have hadmits := admitsEntry_of_performed hx fun _ _ _ h => by cases h
  have hcommits : commits? s x = none := commits_none_of_performed hx fun _ _ h => by cases h
  have hc := counted_of_performed hx
  rw [Giveaway.update] at hc ⊢
  by_cases hguard : u.guard s.giveaway = true
  · rw [if_pos hguard] at hc ⊢
    exact hcounted hguard hc hadmits hcommits
  · rw [if_neg hguard] at hc ⊢
    exact .quiet s.giveaway rfl (.inl ⟨rfl, rfl⟩) (not_ends hc hadmits) hcommits

theorem effect_of_publish {d : DrawInputs υ}
    (hx : performed? x = some (w, .draw d, ⟨.row (.update now u), (s.giveaway.update now u).2⟩))
    (hs : s.giveaway.status = .completed) (hu : u.republishes = true) :
    Effect w (.draw d) q x s { s with giveaway := (s.giveaway.update now u).1 } := by
  refine effect_of_update hx fun hguard hc hadmits hcommits => ?_
  have hstatus : (u.data s.giveaway).status = s.giveaway.status := by
    cases u with
    | release | lockResults | writeResults | unlockResults | recoverResults | replaceResults => rfl
    | _ => cases hu
  have hends : ¬Ends x := by
    cases u with
    | claimDraw | resumeDraw | restoreDraw => cases hu
    | _ => simp [Ends, leases?, restores, hc, hadmits]
  refine .quiet _ rfl (.inr ⟨?_, fun _ => ?_⟩) hends hcommits
  · change (u.data s.giveaway).status ≠ .drawing
    rw [hstatus, hs]
    decide
  · exact hstatus.trans hs

theorem effect_of_complete {d : DrawInputs υ} {initial giveaway : Records υ ρ} {drawSeed : String}
    {c : Completion υ ρ}
    (hx : performed? x = some (w, .draw d, ⟨.complete c d.fate, (transact s c d.fate).2⟩)) :
    Effect w (.draw d) (.holding initial drawSeed giveaway) x s (transact s c d.fate).1 := by
  have hends : ¬Ends x := not_ends (counted_none_of_performed hx fun _ _ h => by cases h)
    (admitsEntry_of_performed hx fun _ _ _ h => by cases h)
  have hcommits : commits? s x =
      if d.fate.commits ∧ (completed s c).toBool then some (w, c) else none := by
    rw [commits?, hx]
  rw [transact_eq]
  cases hs : completed s c with
  | error error =>
    refine .quiet s.giveaway rfl (.inl ⟨rfl, rfl⟩) hends ?_
    rw [hcommits, hs]
    exact if_neg fun h => by cases h.2
  | ok s' =>
    cases hfate : d.fate.commits with
    | false =>
      refine .quiet s.giveaway rfl (.inl ⟨rfl, rfl⟩) hends ?_
      rw [hcommits, hfate]
      exact if_neg fun h => by cases h.1
    | true =>
      refine .commits d initial drawSeed giveaway c rfl rfl hs hends ?_
      rw [hcommits, hfate, hs]
      exact if_pos ⟨rfl, rfl⟩

variable [LinearOrder ρ] {ranks : DrawRanks υ ρ}

theorem effect_of_may {e : Op υ ρ} (hx : performed? x = some (w, i, ⟨e, (e.run s).2⟩))
    (hq : q = .completed → s.giveaway.status = .completed) (hmay : May ranks i q e) :
    Effect w i q x s (e.run s).1 := by
  cases hmay with
  | find =>
    exact .quiet s.giveaway rfl (.inl ⟨rfl, rfl⟩)
      (not_ends (counted_none_of_performed hx fun _ _ h => by cases h)
        (admitsEntry_of_performed hx fun _ _ _ h => by cases h))
      (commits_none_of_performed hx fun _ _ h => by cases h)
  | activate p =>
    refine effect_of_update hx fun hguard hc hadmits hcommits => ?_
    simp only [Update.guard, Bool.and_eq_true, beq_iff_eq] at hguard
    refine .quiet _ rfl (.inr ⟨(fun h => by cases h), fun h => ?_⟩) ?_ hcommits
    · rw [hguard.1.1] at h
      cases h
    · simp [Ends, leases?, restores, hc, hadmits]
  | admission p q state =>
    have hcounted := counted_none_of_performed hx fun _ _ h => by cases h
    have hcommits : commits? s x = none := commits_none_of_performed hx fun _ _ h => by cases h
    change Effect w (.enter p) q x s (saveEntry s p.userId state p.checkedAt).1
    have hadmits := admitsEntry_of_admission hx
    change admitsEntry x = (saveEntry s p.userId state p.checkedAt).2 at hadmits
    rw [saveEntry] at hadmits ⊢
    by_cases hguard : admits s.giveaway p.checkedAt = true
    · rw [if_pos hguard] at hadmits ⊢
      simp only [admits, Bool.and_eq_true, beq_iff_eq] at hguard
      exact .admits _ _ rfl hguard.1.1 hguard.1.1 (by rw [leases?, hcounted]) hadmits hcommits
    · rw [if_neg hguard] at hadmits ⊢
      exact .quiet s.giveaway rfl (.inl ⟨rfl, rfl⟩) (not_ends hcounted hadmits) hcommits
  | claim p initial =>
    refine effect_of_update hx fun hguard hc hadmits hcommits => ?_
    simp only [Update.guard, Bool.and_eq_true, Bool.or_eq_true, beq_iff_eq] at hguard
    refine .leases p _ rfl rfl ?_ ⟨rfl, rfl⟩ (by rw [leases?, hc]) hcommits
    rcases hguard.1 with h | h <;> simp [h]
  | resume p initial current drawnAt hdrawing =>
    refine effect_of_update hx fun hguard hc hadmits hcommits => ?_
    simp only [Update.guard, Bool.and_eq_true, beq_iff_eq] at hguard
    exact .leases p _ rfl rfl (by simp [hguard.1]) ⟨hguard.1, rfl⟩ (by rw [leases?, hc]) hcommits
  | complete p initial drawSeed giveaway c => exact effect_of_complete hx
  | restore p initial drawSeed giveaway =>
    refine effect_of_update hx fun hguard hc hadmits hcommits => ?_
    simp only [Update.guard, Bool.and_eq_true, beq_iff_eq] at hguard
    exact .restores _ rfl hguard.1.1 rfl (by rw [leases?, hc]) (by rw [restores, hc]) hcommits
  | publish p now u hu => exact effect_of_publish hx (hq rfl) hu

end Steps

/-! ## What links the draws with the giveaway -/

section Links

variable {h : List (Event ω υ ρ)} {x : Event ω υ ρ} {w w' : ω} {i i' : Call υ}
  {q q' : Stage υ ρ} {s s' : Records υ ρ}

def Leased (h : List (Event ω υ ρ)) (w : ω) (t : Nat) : Prop := ∃ y ∈ h, leases? y = some (w, t)

theorem Leased.snoc {t : Nat} (hl : Leased h w t) : Leased (h ++ [x]) w t :=
  let ⟨y, hy, hleases⟩ := hl
  ⟨y, List.mem_append_left [x] hy, hleases⟩

theorem leased_snoc_inv {t : Nat} (hl : Leased (h ++ [x]) w t) :
    Leased h w t ∨ leases? x = some (w, t) := by
  obtain ⟨y, hy, hleases⟩ := hl
  rcases List.mem_append.mp hy with hy | hy
  · exact .inl ⟨y, hy, hleases⟩
  · exact .inr (List.mem_singleton.mp hy ▸ hleases)

variable [LinearOrder υ]

theorem Effect.completed (hx : Effect w i q x s s') (hs : s.giveaway.status = .completed) :
    s'.giveaway.status = .completed := by
  cases hx with
  | quiet row hstore hlease =>
    subst hstore
    rcases hlease with ⟨hstatus, -⟩ | ⟨-, hcompleted⟩
    · exact hstatus.trans hs
    · exact hcompleted hs
  | admits row entries hstore hbefore =>
    rw [hs] at hbefore
    cases hbefore
  | leases d row hcall hstore hbefore => exact absurd hs hbefore
  | restores row hstore hbefore =>
    rw [hs] at hbefore
    cases hbefore
  | commits d initial drawSeed giveaway c hcall hstage hcommitted =>
    obtain ⟨-, -, rfl⟩ := completed_ok hcommitted
    rfl

theorem Effect.intact {t : Nat} (hx : Effect w i q x s s') (hs : Intact t s') :
    Intact t s ∧ ¬Ends x ∧ (∃ row, s' = { s with giveaway := row }) ∨ leases? x = some (w, t) := by
  cases hx with
  | quiet row hstore hlease hends =>
    subst hstore
    rcases hlease with ⟨hstatus, hlocked⟩ | ⟨hstatus, -⟩
    · exact .inl ⟨⟨hstatus.symm.trans hs.status, hlocked.symm.trans hs.lockedAt⟩, hends, row, rfl⟩
    · exact absurd hs.status hstatus
  | admits row entries hstore hbefore hafter =>
    subst hstore
    exact absurd (hafter.symm.trans hs.status) (by decide)
  | leases d row hcall hstore hbefore hafter hleases =>
    subst hstore
    obtain rfl := Option.some.inj (hafter.2.symm.trans hs.lockedAt)
    exact .inr hleases
  | restores row hstore hbefore hafter =>
    subst hstore
    cases hafter.symm.trans hs.lockedAt
  | commits d initial drawSeed giveaway c hcall hstage hcommitted =>
    obtain ⟨-, -, rfl⟩ := completed_ok hcommitted
    cases hs.status

theorem Effect.committed {c : Completion υ ρ} (hx : Effect w i q x s s')
    (hc : commits? s x = some (w', c)) : Draw.completed s c = .ok s' := by
  cases hx with
  | quiet row hstore hlease hends hcommits => rw [hcommits] at hc; cases hc
  | admits row entries hstore hbefore hafter hleases hadmitted hcommits =>
    rw [hcommits] at hc
    cases hc
  | leases d row hcall hstore hbefore hafter hleases hcommits => rw [hcommits] at hc; cases hc
  | restores row hstore hbefore hafter hleases hrestored hcommits => rw [hcommits] at hc; cases hc
  | commits d initial drawSeed giveaway c' hcall hstage hcommitted hends hcommits =>
    obtain ⟨-, rfl⟩ := Prod.mk.inj (Option.some.inj (hcommits.symm.trans hc))
    exact hcommitted

theorem Effect.winners (hx : Effect w i q x s s') (hs : s'.giveaway.status ≠ .completed) :
    s'.winners = s.winners ∧ s'.notifications = s.notifications := by
  cases hx with
  | quiet row hstore | leases d row hcall hstore | restores row hstore | admits row entries hstore =>
    subst hstore
    exact ⟨rfl, rfl⟩
  | commits d initial drawSeed giveaway c hcall hstage hcommitted =>
    obtain ⟨-, -, rfl⟩ := completed_ok hcommitted
    exact absurd rfl hs

/-- Every lease has a date of its own, and a draw that reads back finds its own lease. -/
structure OwnLease [LinearOrder ρ] [DecidableEq ω] (ranks : DrawRanks υ ρ) (h : List (Event ω υ ρ))
    (x : Event ω υ ρ) : Prop where
  fresh : ∀ w t, leases? x = some (w, t) → ∀ w', ¬Leased h w' t
  readsBack : ∀ w d initial drawSeed row,
    (drawing ranks).phase h w = some (.draw d, .leased initial drawSeed) →
    performed? x = some (w, .draw d, ⟨.findGiveawayById, row⟩) → Intact d.now row

/-- A lease that is in place is the last one, and nothing was admitted or given back since. -/
structure LeaseInv (ranks : DrawRanks υ ρ) [LinearOrder ρ] [DecidableEq ω] (s₀ : Records υ ρ)
    (h : List (Event ω υ ρ)) (s : Records υ ρ) : Prop where
  pending : ∀ w t, Leased h w t → Intact t s → Pending (fun y => leases? y = some (w, t)) Ends h
  committed : ∀ h₁ x h₂, h = h₁ ++ x :: h₂ → (commits? (after ranks s₀ h₁) x).isSome = true →
    s.giveaway.status = .completed
  undrawn : s.giveaway.status ≠ .completed → s.winners = [] ∧ s.notifications = []

/-- What a draw that has read its lease back knows, while the lease is in place. -/
structure SameEntries (giveaway s : Records υ ρ) : Prop where
  entries : giveaway.entries = s.entries
  prizes : giveaway.prizes = s.prizes
  claimHours : giveaway.claimHours = s.claimHours

def Stage.Holds (h : List (Event ω υ ρ)) (w : ω) (i : Call υ) (s : Records υ ρ) : Stage υ ρ → Prop
  | .leased _ _ => ∃ d, i = .draw d ∧ Leased h w d.now
  | .holding _ _ giveaway => ∃ d, i = .draw d ∧ Leased h w d.now ∧
    giveaway.giveaway.lockedAt = some d.now ∧ (Intact d.now s → SameEntries giveaway s)
  | .completed => s.giveaway.status = .completed
  | _ => True

theorem Stage.Holds.mono (hfresh : ∀ w t, leases? x = some (w, t) → ∀ w', ¬Leased h w' t)
    (hx : Effect w i q x s s') (hq : q'.Holds h w' i' s) : q'.Holds (h ++ [x]) w' i' s' := by
  cases q' with
  | leased initial drawSeed =>
    obtain ⟨d, hcall, hleased⟩ := hq
    exact ⟨d, hcall, hleased.snoc⟩
  | holding initial drawSeed giveaway =>
    obtain ⟨d, hcall, hleased, hlocked, hsame⟩ := hq
    refine ⟨d, hcall, hleased.snoc, hlocked, fun hintact => ?_⟩
    rcases hx.intact hintact with ⟨hbefore, -, row, rfl⟩ | hleases
    · obtain ⟨hentries, hprizes, hhours⟩ := hsame hbefore
      exact ⟨hentries, hprizes, hhours⟩
    · exact absurd hleased (hfresh w d.now hleases w')
  | completed => exact hx.completed hq
  | _ => trivial

variable [LinearOrder ρ] [DecidableEq ω] {ranks : DrawRanks υ ρ} {s₀ : Records υ ρ}

theorem LeaseInv.step (hi : LeaseInv ranks s₀ h s) (hs : s = after ranks s₀ h)
    (hfresh : ∀ w t, leases? x = some (w, t) → ∀ w', ¬Leased h w' t) (hx : Effect w i q x s s') :
    LeaseInv ranks s₀ (h ++ [x]) s' := by
  constructor
  · intro w' t hleased hintact
    rcases leased_snoc_inv hleased with hbefore | hleases
    · rcases hx.intact hintact with ⟨hstood, hends, -⟩ | hleases
      · exact (hi.pending w' t hbefore hstood).snoc hends
      · exact absurd hbefore (hfresh w t hleases w')
    · exact pending_snoc.mpr (.inl hleases)
  · intro h₁ y h₂ he hc
    rcases List.eq_nil_or_concat h₂ with rfl | ⟨h₂, z, rfl⟩
    · obtain ⟨rfl, hlast⟩ := List.append_inj' he rfl
      obtain rfl := List.singleton_inj.mp hlast
      rw [← hs] at hc
      cases hx with
      | commits d initial drawSeed giveaway c hcall hstage hcommitted =>
        obtain ⟨-, -, rfl⟩ := completed_ok hcommitted
        rfl
      | quiet row hstore hlease hends hcommits => rw [hcommits] at hc; cases hc
      | admits row entries hstore hbefore hafter hleases hadmitted hcommits =>
        rw [hcommits] at hc; cases hc
      | leases d row hcall hstore hbefore hafter hleases hcommits => rw [hcommits] at hc; cases hc
      | restores row hstore hbefore hafter hleases hrestored hcommits => rw [hcommits] at hc; cases hc
    · rw [List.concat_eq_append, ← List.cons_append, ← List.append_assoc,
        List.append_singleton_inj] at he
      exact hx.completed (hi.committed h₁ y h₂ he.1 hc)
  · intro hopen
    obtain ⟨hwinners, hnotifications⟩ := hx.winners hopen
    rw [hwinners, hnotifications]
    exact hi.undrawn fun hcompleted => hopen (hx.completed hcompleted)

theorem LeaseInv.idle (hi : LeaseInv ranks s₀ h s) (hx : performed? x = none) :
    LeaseInv ranks s₀ (h ++ [x]) s := by
  have hcounted : counted? x = none := by rw [counted?, hx]
  have hends : ¬Ends x := not_ends hcounted (by rw [admitsEntry, hx])
  constructor
  · intro w t hleased hintact
    rcases leased_snoc_inv hleased with hbefore | hleases
    · exact (hi.pending w t hbefore hintact).snoc hends
    · rw [leases?, hcounted] at hleases
      cases hleases
  · intro h₁ y h₂ he hc
    rcases List.eq_nil_or_concat h₂ with rfl | ⟨h₂, z, rfl⟩
    · obtain ⟨rfl, hlast⟩ := List.append_inj' he rfl
      obtain rfl := List.singleton_inj.mp hlast
      rw [commits?, hx] at hc
      cases hc
    · rw [List.concat_eq_append, ← List.cons_append, ← List.append_assoc,
        List.append_singleton_inj] at he
      exact hi.committed h₁ y h₂ he.1 hc
  · exact hi.undrawn

/-- What a draw knows after its own step. -/
theorem holds_next {e : Op υ ρ} (hx : performed? x = some (w, i, ⟨e, (e.run s).2⟩))
    (hm : OwnLease ranks h x) (hphase : (drawing ranks).phase h w = some (i, q))
    (hq : q.Holds h w i s) (hmay : May ranks i q e) (heffect : Effect w i q x s (e.run s).1) :
    ((drawing ranks).next q e (e.run s).2).Holds (h ++ [x]) w i (e.run s).1 := by
  have hkept : q.Holds (h ++ [x]) w i (e.run s).1 := hq.mono hm.fresh heffect
  have hleased (now : Nat) (u : Update) (initial : Records υ ρ) (drawSeed : String)
      (d : DrawInputs υ) (he : e = .row (.update now u)) (hi : i = .draw d)
      (hu : counted? x = some (w, u) → leases? x = some (w, d.now))
      (hcounted : (s.giveaway.update now u).2 = true) :
      (Stage.leased initial drawSeed).Holds (h ++ [x]) w i (e.run s).1 := by
    subst he
    have hc := counted_of_performed hx
    change counted? x = if (s.giveaway.update now u).2 then _ else _ at hc
    rw [hcounted, if_pos rfl] at hc
    exact ⟨d, hi, x, List.mem_append_right h (List.mem_singleton.mpr rfl), hu hc⟩
  cases hmay with
  | find =>
    cases q with
    | leased initial drawSeed =>
      obtain ⟨d, rfl, htaken⟩ := hq
      have hintact := hm.readsBack w d initial drawSeed s hphase hx
      exact ⟨d, rfl, htaken.snoc, hintact.lockedAt, fun _ => ⟨rfl, rfl, rfl⟩⟩
    | start => trivial
    | refused initial => trivial
    | _ => exact hkept
  | claim p initial =>
    rw [next_update]
    cases hr : (s.giveaway.update p.now (.claimDraw initial.giveaway
      (Records.seedOr initial p.random.hex) p.now)).2 with
    | false => trivial
    | true => exact hleased _ _ initial _ p rfl rfl (fun hc => by rw [leases?, hc]) hr
  | resume p initial current drawnAt =>
    rw [next_update]
    cases hr : (s.giveaway.update p.now (.resumeDraw (Records.seedOr current
      (Records.seedOr initial p.random.hex)) drawnAt p.now)).2 with
    | false => trivial
    | true => exact hleased _ _ initial _ p rfl rfl (fun hc => by rw [leases?, hc]) hr
  | complete p initial drawSeed giveaway c =>
    rcases next_complete (.holding initial drawSeed giveaway) c p.fate s with hq' | ⟨hq', hs⟩
    · rw [hq']
      exact hkept
    · rw [hq']
      obtain ⟨-, -, hstore⟩ := completed_ok hs
      change (transact s c p.fate).1.giveaway.status = .completed
      rw [hstore]
      rfl
  | restore => trivial
  | publish p now u hu =>
    cases u with
    | claimDraw | resumeDraw | restoreDraw => cases hu
    | _ => exact hkept
  | activate => exact hkept
  | admission => exact hkept

variable {ok : List (Event ω υ ρ) → Nat → Move ω (Call υ) → Prop} {t : Nat}
  {p : Pool ω (Call υ) (Op υ ρ) Op.Reply String Unit (Records υ ρ)}

theorem run_leases (hstart : s₀.winners = [] ∧ s₀.notifications = [])
    (hr : DrawRun ranks ok s₀ h t p) (hmeets : ∀ h₁ x h₂, h = h₁ ++ x :: h₂ → OwnLease ranks h₁ x) :
    LeaseInv ranks s₀ h p.store ∧
      ∀ w i q, (drawing ranks).phase h w = some (i, q) → q.Holds h w i p.store := by
  refine Pool.run_ghost (fun h x => OwnLease ranks h x) (LeaseInv ranks s₀)
    (fun h w i q s => q.Holds h w i s) program_follows ?_ ?_ ?_ ?_ hr hmeets
  · refine ⟨?_, ?_, fun _ => hstart⟩
    · rintro w t ⟨y, hy, -⟩
      cases hy
    · intro h₁ x h₂ he
      simp at he
  · intro h x s hx hi
    refine ⟨hi.idle hx, fun w i q hq => ?_⟩
    have hnone : leases? x = none := by rw [leases?, counted?, hx]
    have hquiet : Effect w i q x s s := .quiet s.giveaway rfl (.inl ⟨rfl, rfl⟩)
      (not_ends (by rw [counted?, hx]) (by rw [admitsEntry, hx])) (by rw [commits?, hx])
    exact hq.mono (fun w t hleases => by rw [hnone] at hleases; cases hleases) hquiet
  · exact fun _ _ _ _ _ => trivial
  · intro h x w i q e s hx hs hm hi hq hphase hmay
    have heffect : Effect w i q x s (e.run s).1 := by
      refine effect_of_may hx (fun he => ?_) hmay
      subst he
      exact hq
    exact ⟨hi.step hs hm.fresh heffect, holds_next hx hm hphase hq hmay heffect,
      fun w' i' q' _ hq' => hq'.mono hm.fresh heffect⟩

theorem run_effect {h₁ h₂ : List (Event ω υ ρ)} (hstart : s₀.winners = [] ∧ s₀.notifications = [])
    (hr : DrawRun ranks ok s₀ (h₁ ++ x :: h₂) t p)
    (hmeets : ∀ g y g', h₁ ++ x :: h₂ = g ++ y :: g' → OwnLease ranks g y) :
    LeaseInv ranks s₀ h₁ (after ranks s₀ h₁) ∧
      (performed? x = none ∧ after ranks s₀ (h₁ ++ [x]) = after ranks s₀ h₁ ∨
        ∃ w i q e, performed? x = some (w, i, ⟨e, (e.run (after ranks s₀ h₁)).2⟩) ∧
          q.Holds h₁ w i (after ranks s₀ h₁) ∧ May ranks i q e ∧
          Effect w i q x (after ranks s₀ h₁) (after ranks s₀ (h₁ ++ [x]))) := by
  obtain ⟨t₁, p₁, hr₁, hstore, hx⟩ := Pool.run_at program_follows hr
  obtain ⟨hi, hholds⟩ :=
    run_leases hstart hr₁ fun g y g' he => hmeets g y (g' ++ x :: h₂) (by rw [he]; simp)
  rw [hstore] at hx hi hholds
  refine ⟨hi, ?_⟩
  rcases hx.performed with hnone | ⟨w, i, q, e, hperformed, hq, hmay, hafter⟩
  · exact .inl hnone
  · refine .inr ⟨w, i, q, e, hperformed, hholds w i q hq, hmay, ?_⟩
    change Effect w i q x _ (Pool.after Op.run (Call.program ranks) s₀ (h₁ ++ [x]))
    rw [hafter]
    refine effect_of_may hperformed (fun he => ?_) hmay
    have hheld := hholds w i q hq
    subst he
    exact hheld

end Links

/-! ## The winners -/

section Winners

/-- The entries as an eligibility check found them, all of them settled. -/
structure Checked (eligibility : υ → Option EligibilityState) (now : Nat)
    (entries checked : List (Entry υ ρ)) : Prop where
  settled : ∀ entry ∈ entries,
    eligibility entry.userId = some .verified ∨ eligibility entry.userId = some .rejected
  eq : checked = entries.map fun entry =>
    { entry with
      eligibilityState := (eligibility entry.userId).getD .pending, checkedAt := some now }

theorem checked_of_refresh {eligibility : υ → Option EligibilityState} {now : Nat}
    {entries checked : List (Entry υ ρ)} (h : refreshEntries eligibility now entries = .ok checked) :
    Checked eligibility now entries checked := by
  induction entries generalizing checked with
  | nil =>
    obtain rfl := Except.ok.inj h
    exact ⟨(fun entry he => nomatch he), rfl⟩
  | cons entry rest ih =>
    rw [refreshEntries, List.mapM_cons] at h
    obtain ⟨head, hhead, h⟩ := bind_eq_ok.mp h
    obtain ⟨tail, htail, h⟩ := bind_eq_ok.mp h
    obtain rfl := Except.ok.inj h
    obtain ⟨hsettled, rfl⟩ := ih htail
    cases hstate : eligibility entry.userId with
    | none => simp [hstate] at hhead
    | some state =>
      have hne : state ≠ .pending := by
        rintro rfl
        simp [hstate] at hhead
      have heq : head = { entry with eligibilityState := state, checkedAt := some now } := by
        cases state with
        | pending => exact absurd rfl hne
        | verified => simpa [hstate] using hhead.symm
        | rejected => simpa [hstate] using hhead.symm
      refine ⟨?_, by rw [List.map_cons, hstate, heq]; rfl⟩
      rintro e he
      rcases List.mem_cons.mp he with rfl | he
      · cases state with
        | pending => exact absurd rfl hne
        | verified => exact .inl hstate
        | rejected => exact .inr hstate
      · exact hsettled e he

theorem winnersToCreate_getElem? {prizes : List Prize} {ranked : List (Entry υ ρ × ρ)}
    {winnerId : Nat → Nat} {selectedAt : Nat} {claimDeadlineAt : Option Nat} {k : Nat} {prize : Prize}
    {row : Entry υ ρ × ρ}
    (hprize : (prizes.insertionSort fun left right => left.position ≤ right.position)[k]? = some prize)
    (hrow : ranked[k]? = some row) :
    (winnersToCreate prizes ranked winnerId selectedAt claimDeadlineAt)[k]? = some
      { id := winnerId k, prizeId := prize.id, entryId := row.1.userId, rank := k + 1
        selectedAt, claimDeadlineAt } := by
  have hzip : ((prizes.insertionSort fun left right => left.position ≤ right.position).zip ranked)[k]? =
      some (prize, row) := List.getElem?_zip_eq_some.mpr ⟨hprize, hrow⟩
  rw [winnersToCreate, List.getElem?_mapIdx, hzip]
  rfl

variable [LinearOrder υ] [LinearOrder ρ] (ranks : DrawRanks υ ρ)

/-- The prizes in the order of their positions go to the verified entries in the order of their
ranks, and each winner has one notification. -/
structure RightWinners (drawSeed : String) (checked : List (Entry υ ρ)) (s s' : Records υ ρ) :
    Prop where
  places : ∃ (ps : List Prize) (es : List (Entry υ ρ)), ps.Perm s.prizes ∧ ps.Pairwise (fun a b => a.position ≤ b.position) ∧
    es.Perm (checked.filter (·.eligibilityState = .verified)) ∧
    es.Pairwise (fun a b =>
      toLex (ranks.rankOf drawSeed a, a.userId) ≤ toLex (ranks.rankOf drawSeed b, b.userId)) ∧
    s'.winners.length = min ps.length es.length ∧
    ∀ (k : Nat) prize entry, ps[k]? = some prize → es[k]? = some entry →
      ∃ winner, s'.winners[k]? = some winner ∧ winner.prizeId = prize.id ∧
        winner.entryId = entry.userId ∧ winner.rank = k + 1 ∧ winner.status = .selected
  distinct : (s'.winners.map Winner.id).Nodup
  notified : s'.notifications.map Notification.winnerId = s'.winners.map Winner.id

variable {ranks}

theorem rightWinners_of_completed {d : DrawInputs υ} {giveaway s s' : Records υ ρ} {drawSeed : String}
    {c : Completion υ ρ} (hc : completion ranks d giveaway drawSeed = .ok c)
    (hs : completed s c = .ok s') (hsame : SameEntries giveaway s)
    (hopen : s.winners = [] ∧ s.notifications = []) :
    RightWinners ranks drawSeed c.refreshedEntries s s' := by
  obtain ⟨eligibility, refreshedEntries, -, -, rfl⟩ := completion_ok hc
  obtain ⟨-, hkeys, rfl⟩ := completed_ok hs
  obtain ⟨hwinners, hnotifications⟩ := hopen
  have hsorted := (ranks.rankEntries_sorted drawSeed refreshedEntries)
  constructor
  · refine ⟨giveaway.prizes.insertionSort fun left right => left.position ≤ right.position,
      (ranks.rankEntries drawSeed refreshedEntries).map Prod.fst, ?_, ?_,
      ranks.rankEntries_perm drawSeed refreshedEntries, ?_, ?_, ?_⟩
    · exact hsame.prizes ▸ List.perm_insertionSort _ _
    · have htotal : Std.Total fun left right : Prize => left.position ≤ right.position :=
        ⟨fun _ _ => le_total _ _⟩
      have htrans : IsTrans Prize fun left right => left.position ≤ right.position :=
        ⟨fun _ _ _ => le_trans⟩
      exact List.pairwise_insertionSort _ _
    · rw [List.pairwise_map]
      refine hsorted.imp_of_mem fun {a b} ha hb hab => ?_
      rw [← (DrawRanks.mem_rankEntries.mp ha).2.2, ← (DrawRanks.mem_rankEntries.mp hb).2.2]
      exact hab
    · simp [replaceWinners, unselect, hwinners, winnersToCreate]
    · intro k prize entry hprize hentry
      rw [List.getElem?_map, Option.map_eq_some_iff] at hentry
      obtain ⟨row, hrow, rfl⟩ := hentry
      have hwinner : (winnersToCreate giveaway.prizes (ranks.rankEntries drawSeed refreshedEntries)
          d.winnerId d.completedAt (giveaway.buildGiveawayClaimDeadlineAt d.completedAt))[k]? = some _ :=
        winnersToCreate_getElem? hprize hrow
      exact ⟨_, by simpa [replaceWinners, unselect, hwinners] using hwinner, rfl, rfl, rfl, rfl⟩
  · exact hkeys.id
  · simp [replaceWinners, unselect, hwinners, hnotifications, Function.comp_def]

end Winners

/-! ## Runs -/

section Runs

variable [LinearOrder υ] [LinearOrder ρ] [DecidableEq ω] {ranks : DrawRanks υ ρ} {s₀ : Records υ ρ}
  {ok : List (Event ω υ ρ) → Nat → Move ω (Call υ) → Prop} {h : List (Event ω υ ρ)} {t : Nat}
  {p : Pool ω (Call υ) (Op υ ρ) Op.Reply String Unit (Records υ ρ)}

/-- The draw that commits is the last that took the lease. No entry was admitted since and none is
admitted any more, and the winners are those of the entries of its claim. -/
structure Drawn (ranks : DrawRanks υ ρ) (s₀ : Records υ ρ) (before : List (Event ω υ ρ))
    (x : Event ω υ ρ) (later : List (Event ω υ ρ)) (w : ω) (c : Completion υ ρ) : Prop where
  lease : ∃ g y g' t, before = g ++ y :: g' ∧ leases? y = some (w, t) ∧ c.lockedAt = some t ∧
    (∀ z ∈ g', ¬Ends z) ∧ (after ranks s₀ (g ++ [y])).entries = (after ranks s₀ before).entries
  seed : (after ranks s₀ before).giveaway.drawSeed = some c.drawSeed
  closed : ∀ z ∈ later, admitsEntry z = false
  winners : ∃ d r eligibility, performed? x = some (w, .draw d, r) ∧ d.eligibility = .ok eligibility ∧
    Checked eligibility d.now (after ranks s₀ before).entries c.refreshedEntries ∧
    RightWinners ranks c.drawSeed c.refreshedEntries (after ranks s₀ before)
      (after ranks s₀ (before ++ [x]))

/-- At most one transaction of a draw commits, and nothing else but an admission writes entries,
winners or notifications. -/
structure DrawsOnce (ranks : DrawRanks υ ρ) (s₀ : Records υ ρ) (h : List (Event ω υ ρ)) : Prop where
  once : ∀ g x g' k y k', h = g ++ x :: g' → h = k ++ y :: k' →
    (commits? (after ranks s₀ g) x).isSome = true → (commits? (after ranks s₀ k) y).isSome = true → g = k
  drawn : ∀ before x later w c, h = before ++ x :: later →
    commits? (after ranks s₀ before) x = some (w, c) → Drawn ranks s₀ before x later w c
  others : ∀ before x later, h = before ++ x :: later → commits? (after ranks s₀ before) x = none →
    admitsEntry x = false →
    (after ranks s₀ (before ++ [x])).entries = (after ranks s₀ before).entries ∧
    (after ranks s₀ (before ++ [x])).winners = (after ranks s₀ before).winners ∧
    (after ranks s₀ (before ++ [x])).notifications = (after ranks s₀ before).notifications

variable (hstart : s₀.winners = [] ∧ s₀.notifications = [])

include hstart

/-- No entry changes while the lease stands. -/
theorem entries_since {g g' : List (Event ω υ ρ)} (hr : DrawRun ranks ok s₀ (g ++ g') t p)
    (hmeets : ∀ k y k', g ++ g' = k ++ y :: k' → OwnLease ranks k y) (hends : ∀ z ∈ g', ¬Ends z)
    (hopen : (after ranks s₀ (g ++ g')).giveaway.status ≠ .completed) :
    (after ranks s₀ (g ++ g')).entries = (after ranks s₀ g).entries := by
  induction g' using List.reverseRecOn generalizing t p with
  | nil => rw [List.append_nil]
  | append_singleton g' z ih =>
    rw [← List.append_assoc] at hr hmeets hopen ⊢
    obtain ⟨t₁, p₁, hr₁, -⟩ := hr.of_append
    have hbefore : (after ranks s₀ (g ++ g')).giveaway.status ≠ .completed →
        (after ranks s₀ (g ++ g')).entries = (after ranks s₀ g).entries :=
      ih hr₁ (fun k y k' he => hmeets k y (k' ++ [z]) (by rw [he]; simp))
        fun y hy => hends y (List.mem_append_left [z] hy)
    have hz : ¬Ends z := hends z (List.mem_append_right g' (List.mem_singleton.mpr rfl))
    obtain ⟨-, ⟨-, hsame⟩ | ⟨w, i, q, e, -, -, -, hx⟩⟩ := run_effect hstart hr hmeets
    · rw [hsame] at hopen ⊢
      exact hbefore hopen
    · have hkept := hbefore fun hcompleted => hopen (hx.completed hcompleted)
      cases hx with
      | quiet row hstore => rw [hstore]; exact hkept
      | admits row entries hstore hactive hafter hleases hadmitted =>
        exact absurd (.inr (.inr hadmitted)) hz
      | leases d row hcall hstore hbefore hafter hleases =>
        exact absurd (.inl (by rw [hleases]; rfl)) hz
      | restores row hstore hdrawing hafter hleases hrestored =>
        exact absurd (.inr (.inl hrestored)) hz
      | commits d initial drawSeed giveaway c hcall hstage hcommitted =>
        obtain ⟨-, -, hstore⟩ := completed_ok hcommitted
        exact absurd (by rw [hstore]; rfl) hopen

theorem closed_after {g g' : List (Event ω υ ρ)} {z : Event ω υ ρ}
    (hr : DrawRun ranks ok s₀ (g ++ z :: g') t p)
    (hmeets : ∀ k y k', g ++ z :: g' = k ++ y :: k' → OwnLease ranks k y)
    (hcompleted : (after ranks s₀ g).giveaway.status = .completed) : admitsEntry z = false := by
  obtain ⟨-, ⟨hnone, -⟩ | ⟨w, i, q, e, hperformed, -, -, hx⟩⟩ := run_effect hstart hr hmeets
  · rw [admitsEntry, hnone]
  · have hrejects (hrow : ∀ userId state checkedAt, e ≠ .admission userId state checkedAt) :=
      admitsEntry_of_performed hperformed hrow
    cases e with
    | admission userId state checkedAt =>
      have hadmits := admitsEntry_of_admission hperformed
      change admitsEntry z = (saveEntry (after ranks s₀ g) userId state checkedAt).2 at hadmits
      rw [hadmits, saveEntry, admits, hcompleted]
      rfl
    | _ => exact hrejects fun _ _ _ h => by cases h

theorem drawn_of_commits {before later : List (Event ω υ ρ)} {x : Event ω υ ρ} {w : ω}
    {c : Completion υ ρ} (hr : DrawRun ranks ok s₀ (before ++ x :: later) t p)
    (hmeets : ∀ k y k', before ++ x :: later = k ++ y :: k' → OwnLease ranks k y)
    (hc : commits? (after ranks s₀ before) x = some (w, c)) :
    Drawn ranks s₀ before x later w c := by
  obtain ⟨hi, ⟨hnone, -⟩ | ⟨w', i, q, e, hperformed, hholds, hmay, hx⟩⟩ := run_effect hstart hr hmeets
  · rw [commits?, hnone] at hc
    cases hc
  have hcommitted := hx.committed hc
  obtain ⟨i', fate, r, hshown⟩ := performed_of_commits hc
  rw [hperformed] at hshown
  obtain ⟨rfl, rfl, hop⟩ : w' = w ∧ i = i' ∧
      (⟨e, (e.run (after ranks s₀ before)).2⟩ : (e : Op υ ρ) × e.Reply) = ⟨.complete c fate, r⟩ := by
    simpa using hshown
  obtain ⟨rfl, -⟩ := Sigma.mk.inj hop
  cases hmay with
  | complete d initial drawSeed giveaway _ hprepared =>
    obtain ⟨d', hcall, hleased, hlocked, hsame⟩ := hholds
    obtain rfl := Call.draw.inj hcall
    obtain ⟨hguard, -, -⟩ := completed_ok hcommitted
    simp only [Update.guard, Bool.and_eq_true, beq_iff_eq] at hguard
    obtain ⟨eligibility, refreshedEntries, heligibility, hrefreshed, hc'⟩ := completion_ok hprepared
    have hlease : c.lockedAt = some d.now := by rw [hc']; exact hlocked
    have hintact : Intact d.now (after ranks s₀ before) := ⟨hguard.1.1, hguard.1.2.trans hlease⟩
    have hentries := hsame hintact
    have hopen : (after ranks s₀ before).giveaway.status ≠ .completed := by
      rw [hintact.status]
      decide
    obtain ⟨g, y, g', hbefore, hy, hends⟩ := hi.pending w' d.now hleased hintact
    refine ⟨⟨g, y, g', d.now, hbefore, hy, hlease, hends, ?_⟩, hguard.2, ?_, ?_⟩
    · rw [List.append_cons] at hbefore
      rw [hbefore] at hopen ⊢
      obtain ⟨t₁, p₁, hr₁, -⟩ := hr.of_append
      rw [hbefore] at hr₁ hmeets
      refine (entries_since hstart hr₁ ?_ hends hopen).symm
      exact fun k z k' he => hmeets k z (k' ++ x :: later) (by rw [he]; simp)
    · intro z hz
      obtain ⟨l, l', rfl⟩ := List.append_of_mem hz
      have hsplit : before ++ x :: (l ++ z :: l') = (before ++ x :: l) ++ z :: l' := by simp
      rw [hsplit] at hr hmeets
      obtain ⟨t₁, p₁, hr₁, -⟩ := hr.of_append
      obtain ⟨hlater, -⟩ := run_leases hstart hr₁ fun k y k' he =>
        hmeets k y (k' ++ z :: l') (by rw [he]; simp)
      refine closed_after hstart hr hmeets ?_
      rw [after, Pool.run_after hr₁]
      exact hlater.committed before x l rfl (by rw [hc]; rfl)
    · refine ⟨d, _, eligibility, hperformed, heligibility, ?_, ?_⟩
      · have hchecked := checked_of_refresh hrefreshed
        rw [hentries.entries] at hchecked
        rw [hc']
        exact hchecked
      · have hright := rightWinners_of_completed hprepared hcommitted hentries (hi.undrawn hopen)
        rw [hc'] at hright ⊢
        exact hright

theorem draws_once (hr : DrawRun ranks ok s₀ h t p)
    (hmeets : ∀ h₁ x h₂, h = h₁ ++ x :: h₂ → OwnLease ranks h₁ x) : DrawsOnce ranks s₀ h := by
  constructor
  · intro g x g' k y k' hg hk hx hy
    have hlast {a b c : List (Event ω υ ρ)} {x y : Event ω υ ρ} (he : h = (a ++ x :: b) ++ y :: c)
        (hx : (commits? (after ranks s₀ a) x).isSome = true)
        (hy : (commits? (after ranks s₀ (a ++ x :: b)) y).isSome = true) : False := by
      subst he
      obtain ⟨hi, hstep⟩ := run_effect hstart hr hmeets
      obtain ⟨⟨w, c⟩, hc⟩ := Option.isSome_iff_exists.mp hy
      have hclosed := hi.committed a x b rfl hx
      rcases hstep with ⟨hnone, -⟩ | ⟨w', i, q, e, -, -, -, hx⟩
      · rw [commits?, hnone] at hc
        cases hc
      · obtain ⟨hguard, -, -⟩ := completed_ok (hx.committed hc)
        simp only [Update.guard, Bool.and_eq_true, beq_iff_eq] at hguard
        rw [hclosed] at hguard
        cases hguard.1.1
    rcases List.append_eq_append_iff.mp (hg.symm.trans hk) with ⟨a, rfl, he⟩ | ⟨a, rfl, he⟩
    · cases a with
      | nil => rw [List.append_nil]
      | cons z a =>
        obtain ⟨rfl, -⟩ := List.cons.inj he
        exact (hlast hk hx hy).elim
    · cases a with
      | nil => rw [List.append_nil]
      | cons z a =>
        obtain ⟨rfl, -⟩ := List.cons.inj he
        exact (hlast hg hy hx).elim
  · rintro before x later w c rfl hc
    exact drawn_of_commits hstart hr hmeets hc
  · rintro before x later rfl hc hadmits
    obtain ⟨-, ⟨-, hsame⟩ | ⟨w, i, q, e, -, -, -, hx⟩⟩ := run_effect hstart hr hmeets
    · rw [hsame]
      exact ⟨rfl, rfl, rfl⟩
    · cases hx with
      | quiet row hstore | leases d row hcall hstore | restores row hstore =>
        rw [hstore]
        exact ⟨rfl, rfl, rfl⟩
      | admits row entries hstore hbefore hafter hleases hadmitted =>
        rw [hadmits] at hadmitted
        cases hadmitted
      | commits d initial drawSeed giveaway c hcall hstage hcommitted hends hcommits =>
        rw [hcommits] at hc
        cases hc

end Runs

/-! ## Examples -/

def ownLease [LinearOrder υ] [LinearOrder ρ] [DecidableEq ω] (ranks : DrawRanks υ ρ)
    (h : List (Event ω υ ρ)) (x : Event ω υ ρ) : Bool :=
  (leases? x).all (fun a => h.all fun y => (leases? y).all (·.2 ≠ a.2)) &&
    match performed? x with
    | some (w, .draw d, ⟨.findGiveawayById, row⟩) =>
      match (drawing ranks).phase h w with
      | some (_, .leased _ _) =>
        row.giveaway.status == .drawing && row.giveaway.lockedAt == some d.now
      | _ => true
    | _ => true

theorem ownLease_of_check [LinearOrder υ] [LinearOrder ρ] [DecidableEq ω] {ranks : DrawRanks υ ρ}
    {h : List (Event ω υ ρ)} {x : Event ω υ ρ} (hx : ownLease ranks h x = true) :
    OwnLease ranks h x := by
  rw [ownLease, Bool.and_eq_true] at hx
  constructor
  · rintro w t hleases w' ⟨y, hy, hbefore⟩
    have hall := hx.1
    rw [hleases] at hall
    have hne := List.all_eq_true.mp hall y hy
    simp [hbefore] at hne
  · intro w d initial drawSeed row hphase hperformed
    have hread := hx.2
    rw [hperformed] at hread
    simp only [hphase, Bool.and_eq_true, beq_iff_eq] at hread
    exact ⟨hread.1, hread.2⟩

def enterAt (now : Nat) : Call Nat :=
  .enter {
    userId := 4, startedAt := now, activatedAt := now, openAt := now, eligibility := .ok .verified
    checkedAt := now, confirmedAt := now }

/-- A user enters, a draw crashes after its claim, and another one resumes it. -/
def resumedRun : List (Event Nat Nat Nat) ×
    Pool Nat (Call Nat) (Op Nat Nat) Op.Reply String Unit (Records Nat Nat) :=
  play (Pool.step Op.run (Call.program sampleRanks)) (Pool.start sampleGiveaway)
    ((900000, .call 2 (enterAt 900000)) :: List.replicate 3 (900000, .resume 2) ++
      [(1000000, .call 0 (drawAt 1000000 0 (.ok sampleEligibility))), (1000000, .resume 0),
        (1000000, .resume 0), (1100000, .call 1 (drawAt 1100000 1 (.ok sampleEligibility)))] ++
      List.replicate 7 (1100000, .resume 1))

theorem draws_once_resumed :
    DrawsOnce sampleRanks sampleGiveaway resumedRun.1 ∧
      resumedRun.2.store.winners.map (fun winner => (winner.prizeId, winner.entryId, winner.rank)) =
        [(8, 3, 1), (7, 4, 2)] := by
  have hmeets : ∀ n : Fin resumedRun.1.length,
      ownLease sampleRanks (resumedRun.1.take n) (resumedRun.1.get n) = true := by decide +kernel
  refine ⟨?_, by decide +kernel⟩
  obtain ⟨t, hr⟩ :
      ∃ t, DrawRun sampleRanks (fun _ _ _ => True) sampleGiveaway resumedRun.1 t resumedRun.2 :=
    run_play (by decide) (accepted_of_forall (fun _ _ _ => trivial) _ _)
  exact draws_once ⟨rfl, rfl⟩ hr (splits_take fun n hn => ownLease_of_check (hmeets ⟨n, hn⟩))

/-- A draw claims and is slow to read back, another one resumes the giveaway, and the first one reads
the lease of the second back and commits. -/
def adoptedRun : List (Event Nat Nat Nat) ×
    Pool Nat (Call Nat) (Op Nat Nat) Op.Reply String Unit (Records Nat Nat) :=
  play (Pool.step Op.run (Call.program sampleRanks)) (Pool.start sampleGiveaway)
    ([(1000000, .call 0 (drawAt 1000000 0 (.ok sampleEligibility))), (1000000, .resume 0),
        (1000000, .resume 0), (1100000, .call 1 (drawAt 1100000 1 (.ok sampleEligibility)))] ++
      List.replicate 4 (1100000, .resume 1) ++ [(1100500, .resume 0), (1100500, .resume 0)])

/-- A draw whose lease was taken over writes winners. -/
theorem stale_draw_commits : ¬∀ (h : List (Event Nat Nat Nat)) (t : Nat)
    (p : Pool Nat (Call Nat) (Op Nat Nat) Op.Reply String Unit (Records Nat Nat)),
    DrawRun sampleRanks (fun _ _ _ => True) sampleGiveaway h t p →
    DrawsOnce sampleRanks sampleGiveaway h := by
  intro hall
  have hcommit : (adoptedRun.1[9]?.bind fun x =>
      (commits? (after sampleRanks sampleGiveaway (adoptedRun.1.take 9)) x).map
        fun a => (a.1, a.2.lockedAt)) = some (0, some 1100000) := by decide +kernel
  have hleases : ∀ y ∈ adoptedRun.1.take 9, leases? y ≠ some (0, 1100000) := by decide +kernel
  obtain ⟨t, hr⟩ :
      ∃ t, DrawRun sampleRanks (fun _ _ _ => True) sampleGiveaway adoptedRun.1 t adoptedRun.2 :=
    run_play (by decide) (accepted_of_forall (fun _ _ _ => trivial) _ _)
  obtain ⟨x, hx, hc⟩ := Option.bind_eq_some_iff.mp hcommit
  obtain ⟨⟨w, c⟩, hc, heq⟩ := Option.map_eq_some_iff.mp hc
  obtain ⟨rfl, hlocked⟩ := Prod.mk.inj heq
  obtain ⟨g, y, g', t', hbefore, hy, hlease, -⟩ :=
    ((hall _ t _ hr).drawn _ x _ _ c (eq_take_cons_drop hx) hc).lease
  obtain rfl := Option.some.inj (hlease.symm.trans hlocked)
  exact hleases y (by rw [hbefore]; simp) hy

end Maxim.Admin.ManagedGiveaway.Draw
