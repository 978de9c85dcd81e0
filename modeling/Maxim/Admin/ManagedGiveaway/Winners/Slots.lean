import Maxim.Admin.ManagedGiveaway.Winners.Programs
import Maxim.Library.Protocol

/-!
# The prize slots of a completed giveaway

A winner goes through SELECTED, CLAIMED, EXPIRED, DELIVERED and REROLLED in one
direction, whatever the calls read before they write. The prizes that have a
winner stay the same, and each keeps exactly one that was not rerolled.
-/

namespace Maxim.Admin.ManagedGiveaway.Winners

open Maxim.Library

variable {ω υ ρ α : Type}

/-! ## What a call may do -/

theorem effective_status {winner : Winner υ} {now : Nat}
    (h : ¬(resolveEffectiveWinnerStatus winner now ≠ .claimed ∧
      resolveEffectiveWinnerStatus winner now ≠ .selected)) :
    winner.status = .selected ∨ winner.status = .claimed := by
  rw [resolveEffectiveWinnerStatus] at h
  split at h
  · next hdue => exact .inl hdue.1
  · rw [not_and_or, not_not, not_not] at h
    exact h.symm

inductive Stage (υ ρ : Type)
  | start
  | read (giveaway : Records υ ρ)
  | due (winnerIds : List Nat)

section Protocol

variable [LinearOrder υ] [LinearOrder ρ] (ranks : DrawRanks υ ρ)

inductive May : Call υ → Stage υ ρ → Op υ ρ → Prop
  | find (i : Call υ) (q : Stage υ ρ) : May i q .findGiveaway
  | findDue (now : Nat) (page : Nat → Bool) (q : Stage υ ρ) : May (.expire now page) q (.findDue now page)
  | expireOwn (i : ClaimInputs υ) (giveaway : Records υ ρ) (winner : Winner υ) :
    May (.claim i) (.read giveaway) (.expireOwn winner.id i.checkedAt (i.checkedAt + i.elapsed))
  | claim (i : ClaimInputs υ) (giveaway : Records υ ρ) (winner : Winner υ) :
    May (.claim i) (.read giveaway) (.claim winner.id i.claimedAt)
  | expireDue (now : Nat) (page : Nat → Bool) (winnerIds : List Nat) :
    May (.expire now page) (.due winnerIds) (.expireDue winnerIds now)
  | deliver (i : DeliverInputs) (giveaway : Records υ ρ) (winner : Winner υ)
    (status : winner.status = .selected ∨ winner.status = .claimed) : May (.deliver i) (.read giveaway)
      (.deliver winner.id winner.status i.checkedAt (i.checkedAt + i.elapsed))
  | reroll (i : RerollInputs) (giveaway : Records υ ρ) (r : Reroll υ ρ)
    (prepared : prepareReroll ranks i giveaway = .ok r) :
    May (.reroll i) (.read giveaway) (.reroll r i.fate)

def awarding : Protocol (Call υ) (Op υ ρ) Op.Reply (Stage υ ρ) where
  init := .start
  may := May ranks
  next q
    | .findGiveaway, s => .read s
    | .findDue _ _, winnerIds => .due winnerIds
    | .expireOwn _ _ _, _ | .claim _ _, _ | .expireDue _ _, _ | .deliver _ _ _ _, _ | .reroll _ _, _ => q

variable {ranks}

theorem claim_follows (i : ClaimInputs υ) :
    (claimGiveaway i : Service υ ρ Unit).Follows (awarding ranks) (.claim i) .start := by
  refine Prog.follows_await (.find _ _) fun _ => Prog.follows_await (.find _ _) fun giveaway => ?_
  split
  · trivial
  split
  · trivial
  next winner _ =>
    split
    · trivial
    split
    · trivial
    split
    · exact Prog.follows_await (.expireOwn i giveaway winner) fun _ => trivial
    cases i.eligibility with
    | error error => trivial
    | ok state =>
      dsimp only
      split
      · trivial
      refine Prog.follows_await (.claim i giveaway winner) fun updated => ?_
      split <;> trivial

theorem expire_follows (now : Nat) (page : Nat → Bool) :
    (expireDueGiveawayClaims now page : Service υ ρ Unit).Follows (awarding ranks)
      (.expire now page) .start := by
  refine Prog.follows_await (.findDue now page _) fun winnerIds => ?_
  split
  · trivial
  · exact Prog.follows_await (.expireDue now page winnerIds) fun _ => trivial

theorem deliver_follows (i : DeliverInputs) :
    (markManagedGiveawayWinnerDelivered i : Service υ ρ Unit).Follows (awarding ranks) (.deliver i)
      .start := by
  refine Prog.follows_await (.find _ _) fun giveaway => ?_
  split
  · trivial
  next winner _ =>
    split
    · trivial
    split
    · trivial
    next heffective =>
      refine Prog.follows_await (.deliver i giveaway winner (effective_status heffective)) fun updated => ?_
      split <;> trivial

theorem reroll_follows (i : RerollInputs) :
    (rerollManagedGiveawayWinner ranks i).Follows (awarding ranks) (.reroll i) .start := by
  refine Prog.follows_await (.find _ _) fun giveaway => ?_
  cases hr : prepareReroll ranks i giveaway with
  | error error => trivial
  | ok r =>
    refine Prog.follows_await (.reroll i giveaway r hr) fun error => ?_
    cases error <;> trivial

theorem program_follows (i : Call υ) :
    (i.program ranks).Follows (awarding ranks) i (awarding ranks).init := by
  cases i with
  | claim i => exact claim_follows i
  | expire now page => exact expire_follows now page
  | deliver i => exact deliver_follows i
  | reroll i => exact reroll_follows i

end Protocol

/-! ## What a step does -/

/-- The place of a winner, which no statement changes. -/
structure SameSlot (winner winner' : Winner υ) : Prop where
  id : winner'.id = winner.id
  prizeId : winner'.prizeId = winner.prizeId
  entryId : winner'.entryId = winner.entryId
  claimDeadlineAt : winner'.claimDeadlineAt = winner.claimDeadlineAt

/-- The moves of a winner. It is claimed before its deadline, and expired at or after it. -/
inductive Moves : Winner υ → Winner υ → Prop
  | stays (winner : Winner υ) : Moves winner winner
  | claimed (winner : Winner υ) (claimedAt : Nat) (status : winner.status = .selected)
    (opened : dueAt claimedAt winner = false) : Moves winner (confirm claimedAt winner)
  | expired (winner : Winner υ) (expiredAt : Nat) (status : winner.status = .selected)
    (due : dueAt expiredAt winner = true) : Moves winner (expire expiredAt winner)
  | delivered (winner : Winner υ) (deliveredAt : Nat)
    (status : winner.status = .selected ∨ winner.status = .claimed) :
    Moves winner (handOver deliveredAt winner)
  | rerolled (winner : Winner υ) (rerolledAt : Nat) (status : winner.status = .selected ∨
    winner.status = .claimed ∨ winner.status = .expired) : Moves winner (replace rerolledAt winner)

theorem Moves.sameSlot {winner winner' : Winner υ} (h : Moves winner winner') :
    SameSlot winner winner' := by cases h <;> exact ⟨rfl, rfl, rfl, rfl⟩

theorem Moves.final {winner winner' : Winner υ} (h : Moves winner winner')
    (hs : winner.status = .delivered ∨ winner.status = .rerolled) : winner' = winner := by
  cases h with
  | stays => rfl
  | claimed t hstatus | expired t hstatus => simp [hstatus] at hs
  | delivered t hstatus => rcases hstatus with hstatus | hstatus <;> simp [hstatus] at hs
  | rerolled t hstatus => rcases hstatus with hstatus | hstatus | hstatus <;> simp [hstatus] at hs

theorem SameSlot.refl (winner : Winner υ) : SameSlot winner winner := ⟨rfl, rfl, rfl, rfl⟩

theorem SameSlot.trans {a b c : Winner υ} (hab : SameSlot a b) (hbc : SameSlot b c) : SameSlot a c :=
  ⟨hbc.id.trans hab.id, hbc.prizeId.trans hab.prizeId, hbc.entryId.trans hab.entryId,
    hbc.claimDeadlineAt.trans hab.claimDeadlineAt⟩

theorem dueAt_mono {winner : Winner υ} {t t' : Nat} (h : dueAt t winner = true) (ht : t ≤ t') :
    dueAt t' winner = true := by
  rw [dueAt, Option.any_eq_true] at h ⊢
  obtain ⟨d, hd, hle⟩ := h
  exact ⟨d, hd, decide_eq_true ((of_decide_eq_true hle).trans ht)⟩

def Held (s : Records υ ρ) (prizeId : Nat) : Prop :=
  ∃ winner ∈ s.winners, winner.isActive = true ∧ winner.prizeId = prizeId

theorem held_iff {s : Records υ ρ} {prizeId : Nat} :
    Held s prizeId ↔ prizeId ∈ (s.winners.filter Winner.isActive).map Winner.prizeId := by
  simp [Held, and_assoc]

theorem map_active {winners : List (Winner υ)} {f : Winner υ → Winner υ} {β : Type} (key : Winner υ → β)
    (hf : ∀ winner ∈ winners, (f winner).isActive = winner.isActive ∧ key (f winner) = key winner) :
    ((winners.map f).filter Winner.isActive).map key = (winners.filter Winner.isActive).map key := by
  induction winners with
  | nil => rfl
  | cons winner rest ih =>
    obtain ⟨hactive, hkey⟩ := hf winner List.mem_cons_self
    have hrest := ih fun row hrow => hf row (List.mem_cons_of_mem winner hrow)
    rw [List.map_cons, List.filter_cons, List.filter_cons, hactive]
    split
    · rw [List.map_cons, List.map_cons, hkey, hrest]
    · exact hrest

theorem rewritten_slots {s : Records υ ρ} {guard : Winner υ → Bool} {data : Winner υ → Winner υ}
    (hmoves : ∀ winner ∈ s.winners, guard winner = true → Moves winner (data winner))
    (hactive : ∀ winner, guard winner = true →
      winner.isActive = true ∧ (data winner).isActive = true) :
    ∀ winner ∈ s.winners,
      (if guard winner then data winner else winner).isActive = winner.isActive ∧
        SameSlot winner (if guard winner then data winner else winner) := by
  intro winner hwinner
  split
  · next hguard =>
    obtain ⟨hbefore, hafter⟩ := hactive winner hguard
    exact ⟨hafter.trans hbefore.symm, (hmoves winner hwinner hguard).sameSlot⟩
  · exact ⟨rfl, .refl winner⟩

abbrev Event (ω υ ρ : Type) := PoolEntry ω (Call υ) (Op υ ρ) Op.Reply String Unit

section Steps

variable [DecidableEq υ]

/-- The reroll that a step commits, and its worker. -/
def rerolls? (s : Records υ ρ) (x : Event ω υ ρ) : Option (ω × Reroll υ ρ) :=
  match performed? x with
  | some (w, _, ⟨.reroll r fate, _⟩) =>
    if fate.commits ∧ (rerolled s r).toBool then some (w, r) else none
  | _ => none

theorem transact_eq (s : Records υ ρ) (r : Reroll υ ρ) (fate : Fate) :
    (transact s r fate).1 = match rerolled s r with
      | .ok s' => if fate.commits then s' else s
      | .error _ => s := by
  cases hs : rerolled s r <;> cases fate <;> simp [transact, hs, Fate.commits]

/-- A committed reroll found the winner as it was read, and its entry. -/
theorem rerolled_ok {s s' : Records υ ρ} {r : Reroll υ ρ} (h : rerolled s r = .ok s') :
    (∃ entry ∈ s.entries, entry.userId = r.entryId) ∧
      (∃ winner ∈ s.winners, winner.id = r.winnerId ∧ winner.status = r.status) ∧
      WinnerKeys s'.winners ∧ s' = r.write s := by
  rw [rerolled] at h
  split at h
  · cases h
  next hentry =>
    split at h
    · cases h
    next hwinner =>
      split at h
      · next hkeys =>
        obtain rfl := Except.ok.inj h
        exact ⟨by simpa using hentry, by simpa using hwinner, hkeys.1, rfl⟩
      · cases h

variable {x : Event ω υ ρ} {w : ω} {i : Call υ} {q : Stage υ ρ} {s s' : Records υ ρ}

theorem rerolls_none_of_performed {e : Op υ ρ} {r : e.Reply} (hx : performed? x = some (w, i, ⟨e, r⟩))
    (he : ∀ r fate, e ≠ .reroll r fate) : rerolls? s x = none := by
  rw [rerolls?, hx]
  cases e with
  | reroll r' fate => exact absurd rfl (he r' fate)
  | _ => rfl

theorem performed_of_rerolls {r : Reroll υ ρ} (h : rerolls? s x = some (w, r)) :
    ∃ i fate a, performed? x = some (w, i, ⟨.reroll r fate, a⟩) := by
  rw [rerolls?] at h
  split at h
  · next w' i r' fate a hperformed =>
    split at h
    · obtain ⟨rfl, rfl⟩ := Prod.mk.inj (Option.some.inj h)
      exact ⟨i, fate, a, hperformed⟩
    · cases h
  · cases h

/-- What a call has read of the winners is still there. -/
def Stage.Knows (i : Call υ) (s : Records υ ρ) : Stage υ ρ → Prop
  | .start => True
  | .read giveaway => ∀ winner ∈ giveaway.winners, ∃ winner' ∈ s.winners, SameSlot winner winner'
  | .due winnerIds => ∀ now page, i = .expire now page → ∀ id ∈ winnerIds,
    ∃ winner ∈ s.winners, winner.id = id ∧ dueAt now winner = true

end Steps

section Effects

variable [LinearOrder υ] [LinearOrder ρ]

/-- What the checks of a reroll let through. -/
theorem prepareReroll_ok {ranks : DrawRanks υ ρ} {i : RerollInputs} {giveaway : Records υ ρ}
    {r : Reroll υ ρ} (h : prepareReroll ranks i giveaway = .ok r) :
    ∃ drawSeed entry drawRank, giveaway.giveaway.drawSeed = some drawSeed ∧
      pickNextRerollCandidate ranks giveaway drawSeed = some (entry, drawRank) ∧
      r.entryId = entry.userId ∧ r.drawRank = drawRank ∧
      (r.status = .selected ∨ r.status = .claimed ∨ r.status = .expired) ∧
      ∃ winner ∈ giveaway.winners, winner.id = r.winnerId ∧ winner.prizeId = r.prizeId := by
  rw [prepareReroll] at h
  split at h
  · next drawSeed _ hseed =>
    split at h
    · cases h
    split at h
    · cases h
    next winner hwinner =>
      split at h
      · cases h
      split at h
      · cases h
      next hstatus =>
        split at h
        · cases h
        next entry drawRank hpick =>
          obtain rfl := Except.ok.inj h
          refine ⟨drawSeed, entry, drawRank, hseed, hpick, rfl, rfl, ?_, winner,
            List.mem_of_find?_eq_some hwinner, rfl, rfl⟩
          simp only [not_and_or, not_not] at hstatus
          exact hstatus
  · cases h

inductive Effect (ranks : DrawRanks υ ρ) (w : ω) (i : Call υ) (q : Stage υ ρ) (x : Event ω υ ρ)
    (s s' : Records υ ρ) : Prop
  | same (store : s' = s) (commits : rerolls? s x = none)
  | rewrites (guard : Winner υ → Bool) (data : Winner υ → Winner υ)
    (store : s' = (updateWinners s guard data).1)
    (moves : ∀ winner ∈ s.winners, guard winner = true → Moves winner (data winner))
    (active : ∀ winner, guard winner = true →
      winner.isActive = true ∧ (data winner).isActive = true)
    (call : ∀ j, i ≠ .reroll j) (commits : rerolls? s x = none)
  | rerolls (j : RerollInputs) (giveaway : Records υ ρ) (r : Reroll υ ρ)
    (stage : q = .read giveaway) (prepared : prepareReroll ranks j giveaway = .ok r)
    (committed : rerolled s r = .ok s') (commits : rerolls? s x = some (w, r))

variable {ranks : DrawRanks υ ρ} {x : Event ω υ ρ} {w : ω} {i i' : Call υ}
  {q q' : Stage υ ρ} {s s' : Records υ ρ}

theorem effect_of_may {e : Op υ ρ} (hx : performed? x = some (w, i, ⟨e, (e.run s).2⟩))
    (hkeys : WinnerKeys s.winners) (hq : q.Knows i s) (hmay : May ranks i q e) :
    Effect ranks w i q x s (e.run s).1 := by
  cases hmay with
  | find => exact .same rfl (rerolls_none_of_performed hx fun _ _ h => by cases h)
  | findDue => exact .same rfl (rerolls_none_of_performed hx fun _ _ h => by cases h)
  | expireOwn j giveaway winner =>
    refine .rewrites _ _ rfl (fun row _ hrow => ?_) (fun row hrow => ?_) (fun _ h => by cases h)
      (rerolls_none_of_performed hx fun _ _ h => by cases h)
    · obtain ⟨-, hstatus, hdue⟩ := of_decide_eq_true hrow
      exact .expired row _ hstatus (dueAt_mono hdue (Nat.le_add_right _ _))
    · obtain ⟨-, hstatus, -⟩ := of_decide_eq_true hrow
      exact ⟨Winner.isActive_iff.mpr (by rw [hstatus]; decide), rfl⟩
  | claim j giveaway winner =>
    refine .rewrites _ _ rfl (fun row _ hrow => ?_) (fun row hrow => ?_) (fun _ h => by cases h)
      (rerolls_none_of_performed hx fun _ _ h => by cases h)
    · obtain ⟨-, hstatus, hopen⟩ := of_decide_eq_true hrow
      exact .claimed row _ hstatus (Bool.eq_false_iff.mpr hopen)
    · obtain ⟨-, hstatus, -⟩ := of_decide_eq_true hrow
      exact ⟨Winner.isActive_iff.mpr (by rw [hstatus]; decide), rfl⟩
  | expireDue now page winnerIds =>
    refine .rewrites _ _ rfl (fun row hmem hrow => ?_) (fun row hrow => ?_) (fun _ h => by cases h)
      (rerolls_none_of_performed hx fun _ _ h => by cases h)
    · obtain ⟨hid, hstatus⟩ := of_decide_eq_true hrow
      obtain ⟨known, hknown, he, hdue⟩ := hq now page rfl row.id hid
      exact .expired row now hstatus (hkeys.unique hknown hmem he ▸ hdue)
    · obtain ⟨-, hstatus⟩ := of_decide_eq_true hrow
      exact ⟨Winner.isActive_iff.mpr (by rw [hstatus]; decide), rfl⟩
  | deliver j giveaway winner hstatus =>
    refine .rewrites _ _ rfl (fun row _ hrow => ?_) (fun row hrow => ?_) (fun _ h => by cases h)
      (rerolls_none_of_performed hx fun _ _ h => by cases h)
    · obtain ⟨-, hsame, -⟩ := of_decide_eq_true hrow
      exact .delivered row _ (hsame ▸ hstatus)
    · obtain ⟨-, hsame, -⟩ := of_decide_eq_true hrow
      refine ⟨Winner.isActive_iff.mpr ?_, rfl⟩
      rw [hsame]
      rcases hstatus with h | h <;> rw [h] <;> decide
  | reroll j giveaway r hprepared =>
    change Effect ranks w (.reroll j) (.read giveaway) x s (transact s r j.fate).1
    have hcommits : rerolls? s x =
        if j.fate.commits ∧ (rerolled s r).toBool then some (w, r) else none := by
      rw [rerolls?, hx]
    rw [transact_eq]
    cases hs : rerolled s r with
    | error error =>
      refine .same rfl ?_
      rw [hcommits, hs]
      exact if_neg fun h => by cases h.2
    | ok s' =>
      cases hfate : j.fate.commits with
      | false =>
        refine .same rfl ?_
        rw [hcommits, hfate]
        exact if_neg fun h => by cases h.1
      | true =>
        refine .rerolls j giveaway r rfl hprepared hs ?_
        rw [hcommits, hfate, hs]
        exact if_pos ⟨rfl, rfl⟩

/-- Every winner stays and moves at most one step. -/
theorem Effect.moves (hx : Effect ranks w i q x s s') {winner : Winner υ} (hw : winner ∈ s.winners) :
    ∃ winner' ∈ s'.winners, Moves winner winner' := by
  cases hx with
  | same hstore => exact ⟨winner, hstore ▸ hw, .stays winner⟩
  | rewrites guard data hstore hmoves =>
    refine ⟨if guard winner then data winner else winner,
      hstore ▸ List.mem_map_of_mem (f := fun winner => if guard winner then data winner else winner) hw, ?_⟩
    split
    · next hguard => exact hmoves winner hw hguard
    · exact .stays winner
  | rerolls j giveaway r hstage hprepared hcommitted =>
    obtain ⟨-, -, -, rfl⟩ := rerolled_ok hcommitted
    obtain ⟨drawSeed, entry, drawRank, -, -, -, -, hstatus, -⟩ := prepareReroll_ok hprepared
    refine ⟨_, List.mem_append_left _ (List.mem_map_of_mem hw), ?_⟩
    split
    · next hguard =>
      obtain ⟨-, hsame⟩ := of_decide_eq_true hguard
      exact .rerolled winner r.now (hsame ▸ hstatus)
    · exact .stays winner

/-- A winner after a step was there before, or a reroll has just created it. -/
theorem Effect.created (hx : Effect ranks w i q x s s') {winner' : Winner υ}
    (hw : winner' ∈ s'.winners) : (∃ winner ∈ s.winners, Moves winner winner') ∨
      ∃ r, rerolls? s x = some (w, r) ∧ winner' = r.next := by
  cases hx with
  | same hstore => exact .inl ⟨winner', hstore ▸ hw, .stays winner'⟩
  | rewrites guard data hstore hmoves =>
    rw [hstore] at hw
    obtain ⟨winner, hmem, rfl⟩ := List.mem_map.mp hw
    refine .inl ⟨winner, hmem, ?_⟩
    split
    · next hguard => exact hmoves winner hmem hguard
    · exact .stays winner
  | rerolls j giveaway r hstage hprepared hcommitted hcommits =>
    obtain ⟨-, -, -, rfl⟩ := rerolled_ok hcommitted
    obtain ⟨drawSeed, entry, drawRank, -, -, -, -, hstatus, -⟩ := prepareReroll_ok hprepared
    rcases List.mem_append.mp hw with hw | hw
    · obtain ⟨winner, hmem, rfl⟩ := List.mem_map.mp hw
      refine .inl ⟨winner, hmem, ?_⟩
      split
      · next hguard =>
        obtain ⟨-, hsame⟩ := of_decide_eq_true hguard
        exact .rerolled winner r.now (hsame ▸ hstatus)
      · exact .stays winner
    · exact .inr ⟨r, hcommits, List.mem_singleton.mp hw⟩

/-! ## The slots -/

theorem Effect.knows (hx : Effect ranks w i q x s s') (hq : q'.Knows i' s) : q'.Knows i' s' := by
  cases q' with
  | start => trivial
  | read giveaway =>
    intro winner hwinner
    obtain ⟨row, hrow, hsame⟩ := hq winner hwinner
    obtain ⟨row', hrow', hmoves⟩ := hx.moves hrow
    exact ⟨row', hrow', hsame.trans hmoves.sameSlot⟩
  | due winnerIds =>
    intro now page hcall id hid
    obtain ⟨row, hrow, hrowid, hdue⟩ := hq now page hcall id hid
    obtain ⟨row', hrow', hmoves⟩ := hx.moves hrow
    refine ⟨row', hrow', hmoves.sameSlot.id.trans hrowid, ?_⟩
    rwa [dueAt, hmoves.sameSlot.claimDeadlineAt]

theorem knows_next {e : Op υ ρ} (hq : q.Knows i s) (hx : Effect ranks w i q x s (e.run s).1)
    (hmay : May ranks i q e) :
    ((awarding ranks).next q e (e.run s).2).Knows i (e.run s).1 := by
  cases hmay with
  | find => exact fun winner hwinner => ⟨winner, hwinner, .refl winner⟩
  | findDue now page =>
    intro now' page' hcall id hid
    obtain ⟨rfl, rfl⟩ := Call.expire.inj hcall
    obtain ⟨winner, hwinner, rfl⟩ := List.mem_map.mp hid
    obtain ⟨hmem, hfound⟩ := List.mem_filter.mp hwinner
    exact ⟨winner, hmem, rfl, (of_decide_eq_true hfound).2.1⟩
  | expireOwn | claim | expireDue | deliver | reroll => exact hx.knows hq

theorem Effect.keys (hx : Effect ranks w i q x s s') (hs : WinnerKeys s.winners) :
    WinnerKeys s'.winners := by
  cases hx with
  | same hstore => exact hstore ▸ hs
  | rewrites guard data hstore hmoves hactive =>
    have hslots := rewritten_slots hmoves hactive
    rw [hstore]
    refine ⟨?_, ?_, ?_⟩
    · change ((s.winners.map _).map Winner.id).Nodup
      rw [List.map_map]
      exact List.map_congr_left (fun winner hwinner => (hslots winner hwinner).2.id) ▸ hs.id
    · change (((s.winners.map _).filter _).map Winner.prizeId).Nodup
      rw [map_active Winner.prizeId fun winner hwinner =>
        ⟨(hslots winner hwinner).1, (hslots winner hwinner).2.prizeId⟩]
      exact hs.activePrize
    · change (((s.winners.map _).filter _).map Winner.entryId).Nodup
      rw [map_active Winner.entryId fun winner hwinner =>
        ⟨(hslots winner hwinner).1, (hslots winner hwinner).2.entryId⟩]
      exact hs.activeEntry
  | rerolls j giveaway r hstage hprepared hcommitted => exact (rerolled_ok hcommitted).2.2.1

theorem replaced_winner {j : RerollInputs} {giveaway : Records υ ρ} {r : Reroll υ ρ}
    (hprepared : prepareReroll ranks j giveaway = .ok r) (hcommitted : rerolled s r = .ok s')
    (hkeys : WinnerKeys s.winners) (hq : (Stage.read giveaway).Knows i s) :
    ∃ winner ∈ s.winners, winner.id = r.winnerId ∧ winner.status = r.status ∧
      winner.isActive = true ∧ winner.prizeId = r.prizeId := by
  obtain ⟨-, -, -, -, -, -, -, hstatus, known, hknown, hid, hprize⟩ := prepareReroll_ok hprepared
  obtain ⟨-, ⟨winner, hwinner, hwid, hwstatus⟩, -, -⟩ := rerolled_ok hcommitted
  obtain ⟨row, hrow, hsame⟩ := hq known hknown
  obtain rfl := hkeys.unique hrow hwinner (hsame.id.trans (hid.trans hwid.symm))
  refine ⟨row, hrow, hwid, hwstatus, Winner.isActive_iff.mpr ?_, hsame.prizeId.trans hprize⟩
  rw [hwstatus]
  rcases hstatus with h | h | h <;> rw [h] <;> decide

/-- A prize has a winner after a step if it had one before. -/
theorem Effect.held (hx : Effect ranks w i q x s s') (hs : WinnerKeys s.winners) (hq : q.Knows i s)
    (prizeId : Nat) : Held s' prizeId ↔ Held s prizeId := by
  cases hx with
  | same hstore => rw [hstore]
  | rewrites guard data hstore hmoves hactive =>
    have hslots := rewritten_slots hmoves hactive
    rw [held_iff, held_iff, hstore]
    change prizeId ∈ ((s.winners.map _).filter _).map Winner.prizeId ↔ _
    rw [map_active Winner.prizeId fun winner hwinner =>
      ⟨(hslots winner hwinner).1, (hslots winner hwinner).2.prizeId⟩]
  | rerolls j giveaway r hstage hprepared hcommitted =>
    subst hstage
    obtain ⟨old, hold, hid, hstatus, hactive, hprize⟩ := replaced_winner hprepared hcommitted hs hq
    obtain ⟨-, -, -, rfl⟩ := rerolled_ok hcommitted
    constructor
    · rintro ⟨winner', hwinner', hactive', rfl⟩
      rcases List.mem_append.mp hwinner' with hwinner' | hwinner'
      · obtain ⟨winner, hwinner, rfl⟩ := List.mem_map.mp hwinner'
        split at hactive'
        · cases hactive'
        · next hguard =>
          rw [if_neg hguard]
          exact ⟨winner, hwinner, hactive', rfl⟩
      · obtain rfl := List.mem_singleton.mp hwinner'
        exact ⟨old, hold, hactive, hprize⟩
    · rintro ⟨winner, hwinner, hwactive, rfl⟩
      by_cases hsame : winner.id = r.winnerId
      · obtain rfl := hs.unique hwinner hold (hsame.trans hid.symm)
        exact ⟨r.next, List.mem_append_right _ (List.mem_singleton.mpr rfl), rfl, hprize.symm⟩
      · refine ⟨winner, List.mem_append_left _ (List.mem_map.mpr ⟨winner, hwinner, ?_⟩), hwactive, rfl⟩
        exact if_neg fun h => hsame (of_decide_eq_true h).1

/-! ## Runs -/

section Runs

variable [DecidableEq ω] (ranks : DrawRanks υ ρ) {ok : List (Event ω υ ρ) → Nat → Move ω (Call υ) → Prop}
  {s₀ : Records υ ρ} {h : List (Event ω υ ρ)} {t : Nat}
  {p : Pool ω (Call υ) (Op υ ρ) Op.Reply String Unit (Records υ ρ)}

abbrev after (s₀ : Records υ ρ) (h : List (Event ω υ ρ)) : Records υ ρ :=
  Pool.after Op.run (Call.program ranks) s₀ h

abbrev AwardRun (ok : List (Event ω υ ρ) → Nat → Move ω (Call υ) → Prop) (s₀ : Records υ ρ) :=
  Run (Pool.step (Op.run (υ := υ) (ρ := ρ)) (Call.program ranks)) ok
    (Pool.start (ω := ω) (ξ := String) (α := Unit) s₀)

/-- What the winners, the entries and the notifications go through. -/
structure ExclusiveSlots (s₀ : Records υ ρ) (h : List (Event ω υ ρ)) : Prop where
  prizes : ∀ prizeId, Held (after ranks s₀ h) prizeId ↔ Held s₀ prizeId
  prize : ∀ prizeId, Held s₀ prizeId → ∃! winner, winner ∈ (after ranks s₀ h).winners ∧
    winner.isActive = true ∧ winner.prizeId = prizeId
  entry : ∀ winner ∈ (after ranks s₀ h).winners, ∀ other ∈ (after ranks s₀ h).winners,
    winner.isActive = true → other.isActive = true → winner.entryId = other.entryId → winner = other
  moves : ∀ h₁ x h₂, h = h₁ ++ x :: h₂ → ∀ winner ∈ (after ranks s₀ h₁).winners,
    ∃ winner' ∈ (after ranks s₀ (h₁ ++ [x])).winners, Moves winner winner'
  created : ∀ h₁ x h₂, h = h₁ ++ x :: h₂ → ∀ winner' ∈ (after ranks s₀ (h₁ ++ [x])).winners,
    (∃ winner ∈ (after ranks s₀ h₁).winners, Moves winner winner') ∨
      ∃ w r, rerolls? (after ranks s₀ h₁) x = some (w, r) ∧ winner' = r.next
  final : ∀ h₁ h₂, h = h₁ ++ h₂ → ∀ winner ∈ (after ranks s₀ h₁).winners,
    winner.status = .delivered ∨ winner.status = .rerolled → winner ∈ (after ranks s₀ h).winners
  delivered : ∀ h₁ h₂, h = h₁ ++ h₂ → ∀ winner ∈ (after ranks s₀ h₁).winners,
    winner.status = .delivered → ∀ winner' ∈ (after ranks s₀ h).winners,
      winner'.isActive = true → winner'.prizeId = winner.prizeId → winner' = winner
  /-- A step of a reroll that commits nothing. -/
  failed : ∀ h₁ x h₂, h = h₁ ++ x :: h₂ → ∀ w i a, performed? x = some (w, .reroll i, a) →
    rerolls? (after ranks s₀ h₁) x = none → after ranks s₀ (h₁ ++ [x]) = after ranks s₀ h₁

variable {ranks}

theorem run_slots (hstart : WinnerKeys s₀.winners) (hr : AwardRun ranks ok s₀ h t p) :
    (WinnerKeys p.store.winners ∧ ∀ prizeId, Held p.store prizeId ↔ Held s₀ prizeId) ∧
      ∀ w i q, (awarding ranks).phase h w = some (i, q) → q.Knows i p.store := by
  refine Pool.run_ghost (fun _ _ => True)
    (fun _ s => WinnerKeys s.winners ∧ ∀ prizeId, Held s prizeId ↔ Held s₀ prizeId)
    (fun _ _ i q s => q.Knows i s) program_follows ⟨hstart, fun _ => Iff.rfl⟩ ?_ ?_ ?_ hr
    fun _ _ _ _ => trivial
  · exact fun _ _ _ _ hs => ⟨hs, fun _ _ _ hq => hq⟩
  · exact fun _ _ _ _ _ => trivial
  · rintro h x w i q e s hx - - ⟨hkeys, hheld⟩ hq - hmay
    have heffect := effect_of_may hx hkeys hq hmay
    exact ⟨⟨heffect.keys hkeys, fun prizeId => (heffect.held hkeys hq prizeId).trans (hheld prizeId)⟩,
      knows_next hq heffect hmay, fun _ _ _ _ hq' => heffect.knows hq'⟩

theorem run_effect {h₁ h₂ : List (Event ω υ ρ)} {x : Event ω υ ρ} (hstart : WinnerKeys s₀.winners)
    (hr : AwardRun ranks ok s₀ (h₁ ++ x :: h₂) t p) :
    performed? x = none ∧ after ranks s₀ (h₁ ++ [x]) = after ranks s₀ h₁ ∨
      ∃ w i q a, performed? x = some (w, i, a) ∧ q.Knows i (after ranks s₀ h₁) ∧
        Effect ranks w i q x (after ranks s₀ h₁) (after ranks s₀ (h₁ ++ [x])) := by
  obtain ⟨t₁, p₁, hr₁, hstore, hx⟩ := Pool.run_at program_follows hr
  obtain ⟨⟨hkeys, -⟩, hknows⟩ := run_slots hstart hr₁
  rw [hstore] at hx hkeys hknows
  rcases hx.performed with hnone | ⟨w, i, q, e, hperformed, hq, hmay, hafter⟩
  · exact .inl hnone
  · refine .inr ⟨w, i, q, _, hperformed, hknows w i q hq, ?_⟩
    rw [after, after, hafter]
    exact effect_of_may hperformed hkeys (hknows w i q hq) hmay

/-- A delivered or rerolled winner stays. -/
theorem final_since {h₁ h₂ : List (Event ω υ ρ)} (hstart : WinnerKeys s₀.winners)
    (hr : AwardRun ranks ok s₀ (h₁ ++ h₂) t p) {winner : Winner υ}
    (hwinner : winner ∈ (after ranks s₀ h₁).winners)
    (hfinal : winner.status = .delivered ∨ winner.status = .rerolled) :
    winner ∈ (after ranks s₀ (h₁ ++ h₂)).winners := by
  induction h₂ using List.reverseRecOn generalizing t p with
  | nil => rwa [List.append_nil]
  | append_singleton h₂ x ih =>
    rw [← List.append_assoc] at hr ⊢
    obtain ⟨t₁, p₁, hr₁, -⟩ := hr.of_append
    have hbefore := ih hr₁
    rcases run_effect hstart hr with ⟨-, hsame⟩ | ⟨w, i, q, a, -, -, heffect⟩
    · rwa [hsame]
    · obtain ⟨winner', hwinner', hmoves⟩ := heffect.moves hbefore
      rwa [← hmoves.final hfinal]

theorem slots_exclusive (hstart : WinnerKeys s₀.winners) (hr : AwardRun ranks ok s₀ h t p) :
    ExclusiveSlots ranks s₀ h := by
  obtain ⟨⟨hkeys, hheld⟩, -⟩ := run_slots hstart hr
  rw [← Pool.run_after hr] at hkeys hheld
  have hone {winner other : Winner υ} (hwinner : winner ∈ (after ranks s₀ h).winners)
      (hactive : winner.isActive = true) (hother : other ∈ (after ranks s₀ h).winners)
      (hactive' : other.isActive = true) (he : winner.prizeId = other.prizeId) : winner = other :=
    List.inj_on_of_nodup_map hkeys.activePrize (List.mem_filter.mpr ⟨hwinner, hactive⟩)
      (List.mem_filter.mpr ⟨hother, hactive'⟩) he
  constructor
  · exact hheld
  · intro prizeId hprize
    obtain ⟨winner, hwinner, hactive, rfl⟩ := (hheld prizeId).mpr hprize
    refine ⟨winner, ⟨hwinner, hactive, rfl⟩, ?_⟩
    rintro other ⟨hother, hactive', he⟩
    exact hone hother hactive' hwinner hactive he
  · intro winner hwinner other hother hactive hactive' he
    exact List.inj_on_of_nodup_map hkeys.activeEntry (List.mem_filter.mpr ⟨hwinner, hactive⟩)
      (List.mem_filter.mpr ⟨hother, hactive'⟩) he
  · rintro h₁ x h₂ rfl winner hwinner
    rcases run_effect hstart hr with ⟨-, hsame⟩ | ⟨w, i, q, a, -, -, heffect⟩
    · exact ⟨winner, hsame ▸ hwinner, .stays winner⟩
    · exact heffect.moves hwinner
  · rintro h₁ x h₂ rfl winner' hwinner'
    rcases run_effect hstart hr with ⟨-, hsame⟩ | ⟨w, i, q, a, -, -, heffect⟩
    · exact .inl ⟨winner', hsame ▸ hwinner', .stays winner'⟩
    · rcases heffect.created hwinner' with hold | ⟨r, hcommits, hnext⟩
      · exact .inl hold
      · exact .inr ⟨w, r, hcommits, hnext⟩
  · rintro h₁ h₂ rfl winner hwinner hfinal
    exact final_since hstart hr hwinner hfinal
  · rintro h₁ h₂ rfl winner hwinner hdelivered winner' hwinner' hactive he
    refine hone hwinner' hactive (final_since hstart hr hwinner (.inl hdelivered)) ?_ he
    rw [Winner.isActive_iff, hdelivered]
    decide
  · rintro h₁ x h₂ rfl w j a hperformed hcommits
    rcases run_effect hstart hr with ⟨-, hsame⟩ | ⟨w', i, q, a', hshown, -, heffect⟩
    · exact hsame
    obtain ⟨rfl, rfl, rfl⟩ : w = w' ∧ .reroll j = i ∧ a = a' := by
      simpa using hperformed.symm.trans hshown
    cases heffect with
    | same hstore => exact hstore
    | rewrites guard data hstore hmoves hactive hcall => exact absurd rfl (hcall j)
    | rerolls j giveaway r hstage hprepared hcommitted hcommits' =>
      rw [hcommits'] at hcommits
      cases hcommits

end Runs

end Effects

/-! ## Examples -/

def sampleRanks : DrawRanks Nat Nat := ⟨fun s => (s.toList.map Char.toNat).sum % 10, toString⟩

/-- Two prizes with their winners, and two entries that may follow. -/
def sampleGiveaway : Records Nat Nat where
  giveaway := { status := .completed, description := "A prize", startsAt := none, endsAt := 1000
                drawSeed := some "seed", drawnAt := some 1000 }
  claimHours := 1
  prizes := [⟨7, 1⟩, ⟨8, 2⟩]
  entries := [{ userId := 1, eligibilityState := .verified, drawRank := some 10 },
    { userId := 2, eligibilityState := .verified, drawRank := some 20 },
    { userId := 3, eligibilityState := .verified, drawRank := some 30 },
    { userId := 4, eligibilityState := .verified, drawRank := some 40 }]
  winners := [
    { id := 101, prizeId := 7, entryId := 1, rank := 1, selectedAt := 1000
      claimDeadlineAt := some 3601000 },
    { id := 102, prizeId := 8, entryId := 2, rank := 2, selectedAt := 1000
      claimDeadlineAt := some 3601000 }]
  notifications := [⟨101, .sent, 1000, 1, none⟩, ⟨102, .pending, 1000, 0, none⟩]

/-- A claim that is confirmed while the winner is handed over, and an expiry with a reroll. -/
def awardedRun : List (Event Nat Nat Nat) ×
    Pool Nat (Call Nat) (Op Nat Nat) Op.Reply String Unit (Records Nat Nat) :=
  play (Pool.step Op.run (Call.program sampleRanks)) (Pool.start sampleGiveaway)
    [(2000, .call 0 (.claim ⟨1, 2000, 2000, 0, .ok .verified, 2000⟩)), (2000, .resume 0),
      (2000, .resume 0), (2000, .call 1 (.deliver ⟨101, 2000, 2000, 0⟩)), (2000, .resume 1),
      (2001, .resume 1), (2002, .resume 0), (3601000, .call 2 (.expire 3601000 fun _ => true)),
      (3601000, .resume 2), (3601000, .resume 2),
      (3601001, .call 3 (.reroll ⟨102, 3601001, 103, .committed⟩)), (3601001, .resume 3),
      (3601002, .resume 3)]

theorem slots_exclusive_awarded :
    ExclusiveSlots sampleRanks sampleGiveaway awardedRun.1 ∧
      awardedRun.2.store.winners.map (fun winner => (winner.id, winner.entryId, winner.status)) =
        [(101, 1, .delivered), (102, 2, .rerolled), (103, 3, .selected)] := by
  obtain ⟨t, hr⟩ :
      ∃ t, AwardRun sampleRanks (fun _ _ _ => True) sampleGiveaway awardedRun.1 t awardedRun.2 :=
    run_play (by decide) (accepted_of_forall (fun _ _ _ => trivial) _ _)
  exact ⟨slots_exclusive (by decide) hr, by decide +kernel⟩

end Maxim.Admin.ManagedGiveaway.Winners
