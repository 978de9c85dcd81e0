import Maxim.Admin.ManagedGiveaway.Winners.Slots

/-!
# Who follows a rerolled winner

A reroll picks its candidate among the entries that had no winner when it read
the giveaway. The unique indexes leave rerolled winners out. So the candidate
is the right one as long as no winner that is newer than the read has been
rerolled when the transaction commits.
-/

namespace Maxim.Admin.ManagedGiveaway.Winners

open Maxim.Library

variable {ω υ ρ : Type}

/-! ## Candidates -/

def field (ranks : DrawRanks υ ρ) (drawSeed : String) (s : Records υ ρ) :
    List (υ × EligibilityState × ρ) :=
  s.entries.map fun entry => (entry.userId, entry.eligibilityState, ranks.rankOf drawSeed entry)

theorem mem_field {ranks : DrawRanks υ ρ} {drawSeed : String} {s : Records υ ρ} {entry : Entry υ ρ}
    (h : entry ∈ s.entries) :
    (entry.userId, entry.eligibilityState, ranks.rankOf drawSeed entry) ∈ field ranks drawSeed s :=
  List.mem_map_of_mem (f := fun entry : Entry υ ρ =>
    (entry.userId, entry.eligibilityState, ranks.rankOf drawSeed entry)) h

/-- The two giveaways are drawn from the same field. -/
structure SameField (ranks : DrawRanks υ ρ) (s s' : Records υ ρ) : Prop where
  giveaway : s'.giveaway = s.giveaway
  field : ∀ drawSeed, s.giveaway.drawSeed = some drawSeed →
    field ranks drawSeed s' = field ranks drawSeed s

theorem SameField.refl (ranks : DrawRanks υ ρ) (s : Records υ ρ) : SameField ranks s s :=
  ⟨rfl, fun _ _ => rfl⟩

theorem SameField.trans {ranks : DrawRanks υ ρ} {a b c : Records υ ρ} (hab : SameField ranks a b)
    (hbc : SameField ranks b c) : SameField ranks a c where
  giveaway := hbc.giveaway.trans hab.giveaway
  field drawSeed hseed :=
    (hbc.field drawSeed (by rw [hab.giveaway, hseed])).trans (hab.field drawSeed hseed)

theorem taken_iff {s giveaway : Records υ ρ} {i : Call υ} (hkeys : WinnerKeys s.winners) (hq : (Stage.read giveaway).Knows i s)
    (hnone : ∀ winner ∈ s.winners, winner.id ∈ giveaway.winners.map Winner.id) (userId : υ) :
    userId ∈ s.winners.map Winner.entryId ↔ userId ∈ giveaway.winners.map Winner.entryId := by
  constructor
  · intro h
    obtain ⟨winner, hwinner, rfl⟩ := List.mem_map.mp h
    obtain ⟨known, hknown, hid⟩ := List.mem_map.mp (hnone winner hwinner)
    obtain ⟨row, hrow, hsame⟩ := hq known hknown
    obtain rfl := hkeys.unique hrow hwinner (hsame.id.trans hid)
    exact List.mem_map.mpr ⟨known, hknown, hsame.entryId.symm⟩
  · intro h
    obtain ⟨known, hknown, rfl⟩ := List.mem_map.mp h
    obtain ⟨row, hrow, hsame⟩ := hq known hknown
    exact List.mem_map.mpr ⟨row, hrow, hsame.entryId⟩

theorem rerolled_fresh [DecidableEq υ] {s s' : Records υ ρ} {r : Reroll υ ρ} (h : rerolled s r = .ok s') {winner : Winner υ}
    (hwinner : winner ∈ s.winners) : winner.id ≠ r.nextWinnerId := by
  obtain ⟨-, -, hkeys, rfl⟩ := rerolled_ok h
  have hid := hkeys.id
  change ((s.winners.map _ ++ [r.next]).map Winner.id).Nodup at hid
  rw [List.map_append, List.nodup_append] at hid
  refine hid.2.2 winner.id ?_ r.nextWinnerId List.mem_cons_self
  rw [List.map_map]
  refine List.mem_map.mpr ⟨winner, hwinner, ?_⟩
  change (if _ then _ else _ : Winner υ).id = winner.id
  split <;> rfl

section Order

variable [LinearOrder υ] [LinearOrder ρ] {ranks : DrawRanks υ ρ}

/-- The VERIFIED user without a winner that comes first by `drawRank`, then by `userId`. -/
structure Lowest (ranks : DrawRanks υ ρ) (drawSeed : String) (s : Records υ ρ) (userId : υ)
    (drawRank : ρ) : Prop where
  verified : (userId, .verified, drawRank) ∈ field ranks drawSeed s
  free : userId ∉ s.winners.map Winner.entryId
  least : ∀ other otherRank, (other, .verified, otherRank) ∈ field ranks drawSeed s →
    other ∉ s.winners.map Winner.entryId → toLex (drawRank, userId) ≤ toLex (otherRank, other)

theorem Lowest.unique {drawSeed : String} {s : Records υ ρ} {a b : υ} {c d : ρ}
    (ha : Lowest ranks drawSeed s a c) (hb : Lowest ranks drawSeed s b d) : a = b := by
  have he := le_antisymm (ha.least b d hb.verified hb.free) (hb.least a c ha.verified ha.free)
  exact congrArg (fun p : ρ ×ₗ υ => (ofLex p).2) he

theorem Lowest.transfer {drawSeed : String} {s s' : Records υ ρ} {userId : υ} {drawRank : ρ}
    (h : Lowest ranks drawSeed s userId drawRank)
    (hfield : field ranks drawSeed s' = field ranks drawSeed s)
    (hwinners : ∀ userId, userId ∈ s'.winners.map Winner.entryId ↔
      userId ∈ s.winners.map Winner.entryId) : Lowest ranks drawSeed s' userId drawRank where
  verified := hfield ▸ h.verified
  free := fun hmem => h.free ((hwinners userId).mp hmem)
  least := fun other otherRank hother hfree =>
    h.least other otherRank (hfield ▸ hother) fun hmem => hfree ((hwinners other).mpr hmem)

theorem pick_lowest {drawSeed : String} {s : Records υ ρ} {entry : Entry υ ρ} {drawRank : ρ}
    (h : pickNextRerollCandidate ranks s drawSeed = some (entry, drawRank)) :
    entry ∈ s.entries ∧ drawRank = ranks.rankOf drawSeed entry ∧
      Lowest ranks drawSeed s entry.userId drawRank := by
  have hmem {row : Entry υ ρ × ρ} : row ∈ (((s.entries.filter (·.eligibilityState = .verified)).map
      fun entry => (entry, ranks.rankOf drawSeed entry)).filter
        fun row => ¬s.winners.any (·.entryId = row.1.userId)) ↔
      (row.1 ∈ s.entries ∧ row.1.eligibilityState = .verified ∧
        ranks.rankOf drawSeed row.1 = row.2) ∧ row.1.userId ∉ s.winners.map Winner.entryId := by
    obtain ⟨entry, rank⟩ := row
    simp [and_assoc]
  rw [pickNextRerollCandidate] at h
  obtain ⟨rest, hsort⟩ := List.head?_eq_some_iff.mp h
  have hsorted : ((entry, drawRank) :: rest).Pairwise RankedBefore := by
    rw [← hsort]
    exact List.pairwise_insertionSort _ _
  have hhead : (entry, drawRank) ∈ (entry, drawRank) :: rest := List.mem_cons_self
  rw [← hsort, List.mem_insertionSort, hmem] at hhead
  obtain ⟨⟨hentry, hverified, hrank⟩, hfree⟩ := hhead
  refine ⟨hentry, hrank.symm, ?_, hfree, ?_⟩
  · have hfield : _ ∈ field ranks drawSeed s := mem_field hentry
    rwa [hverified, hrank] at hfield
  · intro other otherRank hother hotherfree
    obtain ⟨row, hrow, he⟩ := List.mem_map.mp hother
    obtain ⟨rfl, hrowstate, rfl⟩ : row.userId = other ∧ row.eligibilityState = .verified ∧
        ranks.rankOf drawSeed row = otherRank := by simpa using he
    have hin : (row, ranks.rankOf drawSeed row) ∈ (entry, drawRank) :: rest := by
      rw [← hsort, List.mem_insertionSort, hmem]
      exact ⟨⟨hrow, hrowstate, rfl⟩, hotherfree⟩
    rcases List.mem_cons.mp hin with heq | hin
    · obtain ⟨rfl, rfl⟩ := Prod.mk.inj heq
      exact le_rfl
    · exact List.rel_of_pairwise_cons hsorted hin

/-! ## One reroll -/

/-- What holds of the giveaway at any time. -/
structure Settled (ranks : DrawRanks υ ρ) (s₀ s : Records υ ρ) : Prop where
  keys : WinnerKeys s.winners
  once : (s.winners.map Winner.entryId).Nodup
  field : SameField ranks s₀ s

/-- As long as there are no newer winners the candidates of a reroll are right, and the first newer
winner takes the first of them. -/
def Stage.Waits (ranks : DrawRanks υ ρ) (s₀ s : Records υ ρ) : Stage υ ρ → Prop
  | .read giveaway => SameField ranks s₀ giveaway ∧
    ∀ drawSeed userId drawRank, s₀.giveaway.drawSeed = some drawSeed →
      Lowest ranks drawSeed giveaway userId drawRank →
        (∀ winner ∈ s.winners, winner.id ∈ giveaway.winners.map Winner.id) ∨
          ∃ winner ∈ s.winners, winner.id ∉ giveaway.winners.map Winner.id ∧ winner.entryId = userId
  | _ => True

/-- The reroll is about to commit, and no winner that is newer than its read has been rerolled. -/
def Stage.Timely (s : Records υ ρ) : Stage υ ρ → Prop
  | .read giveaway => ∀ winner ∈ s.winners, winner.id ∉ giveaway.winners.map Winner.id →
    winner.status ≠ .rerolled
  | _ => True

variable {s₀ s s' giveaway : Records υ ρ} {i i' : Call υ} {q q' : Stage υ ρ} {w : ω}
  {x : Event ω υ ρ} {j : RerollInputs} {r : Reroll υ ρ}

theorem next_lowest (hs : Settled ranks s₀ s) (hq : (Stage.read giveaway).Knows i s)
    (hwaits : (Stage.read giveaway).Waits ranks s₀ s) (htimely : (Stage.read giveaway).Timely s)
    (hprepared : prepareReroll ranks j giveaway = .ok r) (hcommitted : rerolled s r = .ok s') :
    ∃ drawSeed, s₀.giveaway.drawSeed = some drawSeed ∧
      Lowest ranks drawSeed s r.entryId r.drawRank := by
  obtain ⟨drawSeed, entry, drawRank, hseed, hpick, hentry, hrank, -, known, hknown, hid, -⟩ :=
    prepareReroll_ok hprepared
  obtain ⟨hfield, hnewer⟩ := hwaits
  rw [hfield.giveaway] at hseed
  obtain ⟨-, -, hlowest⟩ := pick_lowest hpick
  rw [← hentry, ← hrank] at hlowest
  refine ⟨drawSeed, hseed, ?_⟩
  rcases hnewer drawSeed _ _ hseed hlowest with hnone | ⟨winner, hwinner, hnew, htaken⟩
  · refine hlowest.transfer ?_ (taken_iff hs.keys hq hnone)
    exact (hs.field.field drawSeed hseed).trans (hfield.field drawSeed hseed).symm
  -- The newer winner has not been rerolled, so that the index on the entry refuses the other one.
  · have hactive : winner.isActive = true := Winner.isActive_iff.mpr (htimely winner hwinner hnew)
    have hfresh := rerolled_fresh hcommitted hwinner
    obtain ⟨-, -, hkeys, rfl⟩ := rerolled_ok hcommitted
    have hkept : winner ∈ (r.write s).winners := by
      refine List.mem_append_left _ (List.mem_map.mpr ⟨winner, hwinner, if_neg fun hguard => ?_⟩)
      exact hnew (List.mem_map.mpr ⟨known, hknown, hid.trans (of_decide_eq_true hguard).1.symm⟩)
    have hnext : r.next ∈ (r.write s).winners :=
      List.mem_append_right _ (List.mem_singleton.mpr rfl)
    have he := List.inj_on_of_nodup_map hkeys.activeEntry (List.mem_filter.mpr ⟨hkept, hactive⟩)
      (List.mem_filter.mpr ⟨hnext, rfl⟩) htaken
    exact absurd (congrArg Winner.id he) hfresh

theorem write_field {drawSeed : String} (hs : SameField ranks s₀ s)
    (husers : (s₀.entries.map Entry.userId).Nodup) (hseed : s₀.giveaway.drawSeed = some drawSeed)
    (hlowest : Lowest ranks drawSeed s r.entryId r.drawRank) : SameField ranks s (r.write s) := by
  refine ⟨rfl, fun seed hseed' => ?_⟩
  obtain rfl : drawSeed = seed := by
    rw [hs.giveaway, hseed] at hseed'
    exact Option.some.inj hseed'
  have hfst (s : Records υ ρ) : (field ranks drawSeed s).map Prod.fst = s.entries.map Entry.userId := by
    rw [field, List.map_map]
    rfl
  have hnodup : ((field ranks drawSeed s).map Prod.fst).Nodup := by
    rw [hs.field drawSeed hseed, hfst]
    exact husers
  rw [field, field, Reroll.write, List.map_map]
  refine List.map_congr_left fun entry hentry => ?_
  change (_, _, _) = _
  dsimp only [Function.comp]
  split
  · next huser =>
    have he := List.inj_on_of_nodup_map hnodup (mem_field hentry) hlowest.verified huser
    exact congrArg (fun drawRank => (entry.userId, entry.eligibilityState, drawRank))
      (congrArg (fun a => a.2.2) he).symm
  · rfl

/-! ## One step -/

/-- What a step does to a giveaway, as far as rerolls see it. -/
inductive Taken (ranks : DrawRanks υ ρ) (s s' : Records υ ρ) : Prop
  | same (winners : ∀ winner' ∈ s'.winners, ∃ winner ∈ s.winners, SameSlot winner winner')
  | next (r : Reroll υ ρ) (drawSeed : String) (seed : s.giveaway.drawSeed = some drawSeed)
    (lowest : Lowest ranks drawSeed s r.entryId r.drawRank)
    (fresh : ∀ winner ∈ s.winners, winner.id ≠ r.nextWinnerId) (created : r.next ∈ s'.winners)

theorem Effect.settled (hx : Effect ranks w i q x s s') (hs : Settled ranks s₀ s)
    (husers : (s₀.entries.map Entry.userId).Nodup) (hq : q.Knows i s) (hwaits : q.Waits ranks s₀ s)
    (htimely : (rerolls? s x).isSome = true → q.Timely s) :
    Settled ranks s₀ s' ∧ Taken ranks s s' := by
  have hkeys := hx.keys hs.keys
  cases hx with
  | same hstore =>
    rw [hstore]
    exact ⟨hs, .same fun winner hwinner => ⟨winner, hwinner, .refl winner⟩⟩
  | rewrites guard data hstore hmoves hactive =>
    have hslots := rewritten_slots hmoves hactive
    have honce : s'.winners.map Winner.entryId = s.winners.map Winner.entryId := by
      rw [hstore]
      change (s.winners.map _).map Winner.entryId = _
      rw [List.map_map]
      exact List.map_congr_left fun winner hwinner => (hslots winner hwinner).2.entryId
    refine ⟨⟨hkeys, honce ▸ hs.once, ?_⟩, .same fun winner' hwinner' => ?_⟩
    · rw [hstore]
      exact ⟨hs.field.giveaway, hs.field.field⟩
    · rw [hstore] at hwinner'
      obtain ⟨winner, hwinner, rfl⟩ := List.mem_map.mp hwinner'
      exact ⟨winner, hwinner, (hslots winner hwinner).2⟩
  | rerolls j giveaway r hstage hprepared hcommitted hcommits =>
    subst hstage
    obtain ⟨drawSeed, hseed, hlowest⟩ := next_lowest hs hq hwaits
      (htimely (by rw [hcommits]; rfl)) hprepared hcommitted
    have hfresh : ∀ winner ∈ s.winners, winner.id ≠ r.nextWinnerId :=
      fun _ hwinner => rerolled_fresh hcommitted hwinner
    obtain ⟨-, -, -, rfl⟩ := rerolled_ok hcommitted
    have hfield := write_field hs.field husers hseed hlowest
    have honce : (r.write s).winners.map Winner.entryId = s.winners.map Winner.entryId ++ [r.entryId] := by
      change (s.winners.map _ ++ [r.next]).map Winner.entryId = _
      rw [List.map_append, List.map_map]
      refine congrArg (· ++ [r.entryId]) (List.map_congr_left fun winner hwinner => ?_)
      dsimp only [Function.comp]
      split <;> rfl
    refine ⟨⟨hkeys, ?_, hs.field.trans hfield⟩, .next r drawSeed (hs.field.giveaway ▸ hseed) hlowest
      hfresh (List.mem_append_right _ (List.mem_singleton.mpr rfl))⟩
    rw [honce, List.nodup_append]
    refine ⟨hs.once, List.nodup_singleton _, fun userId htaken other hother => ?_⟩
    obtain rfl := List.mem_singleton.mp hother
    exact fun he => hlowest.free (he ▸ htaken)

theorem Stage.Waits.after (hq : q.Waits ranks s₀ s) (hknows : q.Knows i s) (hs : Settled ranks s₀ s)
    (hmoves : ∀ winner ∈ s.winners, ∃ winner' ∈ s'.winners, Moves winner winner')
    (htaken : Taken ranks s s') : q.Waits ranks s₀ s' := by
  cases q with
  | start => trivial
  | due winnerIds => trivial
  | read giveaway =>
    obtain ⟨hfield, hnewer⟩ := hq
    refine ⟨hfield, fun drawSeed userId drawRank hseed hlowest => ?_⟩
    rcases hnewer drawSeed userId drawRank hseed hlowest with hnone | ⟨winner, hwinner, hnew, he⟩
    · cases htaken with
      | same hslots =>
        refine .inl fun winner' hwinner' => ?_
        obtain ⟨winner, hwinner, hsame⟩ := hslots winner' hwinner'
        exact hsame.id ▸ hnone winner hwinner
      | next r seed hseed' hnext hfresh hcreated =>
        refine .inr ⟨r.next, hcreated, fun hmem => ?_, ?_⟩
        · obtain ⟨known, hknown, hid⟩ := List.mem_map.mp hmem
          obtain ⟨row, hrow, hsame⟩ := hknows known hknown
          exact hfresh row hrow (hsame.id.trans hid)
        · rw [hs.field.giveaway, hseed] at hseed'
          obtain rfl := Option.some.inj hseed'
          have hhere := hlowest.transfer ((hs.field.field drawSeed hseed).trans
            (hfield.field drawSeed hseed).symm) (taken_iff hs.keys hknows hnone)
          exact hnext.unique hhere
    · obtain ⟨winner', hwinner', hmove⟩ := hmoves winner hwinner
      exact .inr ⟨winner', hwinner', hmove.sameSlot.id ▸ hnew, hmove.sameSlot.entryId.trans he⟩

theorem waits_next {e : Op υ ρ} (hmay : May ranks i q e) (hs : Settled ranks s₀ (e.run s).1)
    (hq : q.Waits ranks s₀ (e.run s).1) :
    ((awarding ranks).next q e (e.run s).2).Waits ranks s₀ (e.run s).1 := by
  cases hmay with
  | find => exact ⟨hs.field, fun _ _ _ _ _ => .inl fun winner hwinner => List.mem_map_of_mem hwinner⟩
  | findDue => trivial
  | expireOwn | claim | expireDue | deliver | reroll => exact hq

/-! ## Runs -/

variable [DecidableEq ω] {ok : List (Event ω υ ρ) → Nat → Move ω (Call υ) → Prop}
  {h : List (Event ω υ ρ)} {t : Nat}
  {p : Pool ω (Call υ) (Op υ ρ) Op.Reply String Unit (Records υ ρ)}

/-- A reroll that commits does so before any winner that is newer than its read has been rerolled. -/
def InTime (ranks : DrawRanks υ ρ) (s₀ : Records υ ρ) (h : List (Event ω υ ρ)) (x : Event ω υ ρ) :
    Prop :=
  ∀ w r i q, rerolls? (after ranks s₀ h) x = some (w, r) → (awarding ranks).phase h w = some (i, q) →
    q.Timely (after ranks s₀ h)

/-- Every entry wins at most once, and every committed reroll hands its prize to the lowest VERIFIED
entry without a winner. -/
structure WinsOnce (ranks : DrawRanks υ ρ) (s₀ : Records υ ρ) (h : List (Event ω υ ρ)) : Prop where
  once : ((after ranks s₀ h).winners.map Winner.entryId).Nodup
  next : ∀ h₁ x h₂, h = h₁ ++ x :: h₂ → ∀ w r, rerolls? (after ranks s₀ h₁) x = some (w, r) →
    r.next ∈ (after ranks s₀ (h₁ ++ [x])).winners ∧
      (∃ winner ∈ (after ranks s₀ h₁).winners, winner.id = r.winnerId ∧ winner.prizeId = r.prizeId) ∧
      ∃ drawSeed, (after ranks s₀ h₁).giveaway.drawSeed = some drawSeed ∧
        Lowest ranks drawSeed (after ranks s₀ h₁) r.entryId r.drawRank

theorem run_settled (hkeys : WinnerKeys s₀.winners) (honce : (s₀.winners.map Winner.entryId).Nodup)
    (husers : (s₀.entries.map Entry.userId).Nodup) (hr : AwardRun ranks ok s₀ h t p)
    (hmeets : ∀ h₁ x h₂, h = h₁ ++ x :: h₂ → InTime ranks s₀ h₁ x) :
    Settled ranks s₀ p.store ∧ ∀ w i q, (awarding ranks).phase h w = some (i, q) →
      q.Knows i p.store ∧ q.Waits ranks s₀ p.store := by
  refine Pool.run_ghost (fun h x => InTime ranks s₀ h x) (fun _ s => Settled ranks s₀ s)
    (fun _ _ i q s => q.Knows i s ∧ q.Waits ranks s₀ s) program_follows
    ⟨hkeys, honce, .refl ranks s₀⟩ ?_ ?_ ?_ hr hmeets
  · exact fun _ _ _ _ hs => ⟨hs, fun _ _ _ hq => hq⟩
  · exact fun _ _ _ _ _ => ⟨trivial, trivial⟩
  · rintro h x w i q e s hx rfl htimely hs ⟨hknows, hwaits⟩ hphase hmay
    have heffect := effect_of_may hx hs.keys hknows hmay
    obtain ⟨hs', htaken⟩ := heffect.settled hs husers hknows hwaits fun hcommits => by
      obtain ⟨⟨w', r⟩, hcommits⟩ := Option.isSome_iff_exists.mp hcommits
      obtain ⟨i', fate, a, hperformed⟩ := performed_of_rerolls hcommits
      obtain rfl : w = w' := (Prod.mk.inj (Option.some.inj (hx.symm.trans hperformed))).1
      exact htimely w r i q hcommits hphase
    refine ⟨hs', ⟨knows_next hknows heffect hmay, ?_⟩, fun _ _ _ _ ⟨hknows', hwaits'⟩ => ?_⟩
    · exact waits_next hmay hs' (hwaits.after hknows hs (fun _ hwinner => heffect.moves hwinner) htaken)
    · exact ⟨heffect.knows hknows',
        hwaits'.after hknows' hs (fun _ hwinner => heffect.moves hwinner) htaken⟩

theorem wins_once (hkeys : WinnerKeys s₀.winners) (honce : (s₀.winners.map Winner.entryId).Nodup)
    (husers : (s₀.entries.map Entry.userId).Nodup) (hr : AwardRun ranks ok s₀ h t p)
    (hmeets : ∀ h₁ x h₂, h = h₁ ++ x :: h₂ → InTime ranks s₀ h₁ x) : WinsOnce ranks s₀ h := by
  constructor
  · rw [after, Pool.run_after hr]
    exact (run_settled hkeys honce husers hr hmeets).1.once
  · rintro h₁ x h₂ rfl w r hcommits
    obtain ⟨t₁, p₁, hr₁, hstore, hx⟩ := Pool.run_at program_follows hr
    obtain ⟨hs, hcalls⟩ := run_settled hkeys honce husers hr₁ fun g y g' he =>
      hmeets g y (g' ++ x :: h₂) (by rw [he]; simp)
    rw [hstore] at hx hs hcalls
    obtain ⟨i', fate, a, hperformed⟩ := performed_of_rerolls hcommits
    rcases hx.performed with hnone | ⟨w', i, q, e, hshown, hphase, hmay, hafter⟩
    · rw [hnone.1] at hperformed
      cases hperformed
    obtain rfl : w = w' := (Prod.mk.inj (Option.some.inj (hperformed.symm.trans hshown))).1
    obtain ⟨hknows, hwaits⟩ := hcalls w i q hphase
    have heffect := effect_of_may hshown hs.keys hknows hmay
    rw [← hafter] at heffect
    cases heffect with
    | same hstore hnone | rewrites guard data hstore hmoves hactive hcall hnone =>
      rw [hnone] at hcommits
      cases hcommits
    | rerolls j giveaway r' hstage hprepared hcommitted hcommits' =>
      obtain ⟨-, rfl⟩ := Prod.mk.inj (Option.some.inj (hcommits.symm.trans hcommits'))
      subst hstage
      have htimely := hmeets h₁ x h₂ rfl w r i _ hcommits hphase
      obtain ⟨drawSeed, hseed, hlowest⟩ := next_lowest hs hknows hwaits htimely hprepared hcommitted
      obtain ⟨winner, hwinner, hid, -, -, hprize⟩ :=
        replaced_winner hprepared hcommitted hs.keys hknows
      refine ⟨?_, ⟨winner, hwinner, hid, hprize⟩, drawSeed, ?_, hlowest⟩
      · obtain ⟨-, -, -, hwritten⟩ := rerolled_ok hcommitted
        rw [after, hwritten]
        exact List.mem_append_right _ (List.mem_singleton.mpr rfl)
      · rw [hs.field.giveaway]
        exact hseed

end Order

/-! ## Examples -/

def inTime [LinearOrder υ] [LinearOrder ρ] [DecidableEq ω] (ranks : DrawRanks υ ρ) (s₀ : Records υ ρ)
    (h : List (Event ω υ ρ)) (x : Event ω υ ρ) : Bool :=
  match rerolls? (after ranks s₀ h) x with
  | some (w, _) =>
    match (awarding ranks).phase h w with
    | some (_, .read giveaway) => (after ranks s₀ h).winners.all fun winner =>
      winner.id ∈ giveaway.winners.map Winner.id || winner.status ≠ .rerolled
    | _ => true
  | none => true

theorem inTime_of_check [LinearOrder υ] [LinearOrder ρ] [DecidableEq ω] {ranks : DrawRanks υ ρ}
    {s₀ : Records υ ρ} {h : List (Event ω υ ρ)} {x : Event ω υ ρ}
    (hx : inTime ranks s₀ h x = true) : InTime ranks s₀ h x := by
  intro w r i q hcommits hphase
  cases q with
  | start | due winnerIds => trivial
  | read giveaway =>
    intro winner hwinner hnew
    rw [inTime, hcommits] at hx
    simp only [hphase, List.all_eq_true, Bool.or_eq_true, decide_eq_true_eq] at hx
    exact (hx winner hwinner).resolve_left hnew

def rerollAt (w now winnerId nextWinnerId : Nat) : Nat × Move Nat (Call Nat) :=
  (now, .call w (.reroll ⟨winnerId, now, nextWinnerId, .committed⟩))

/-- Two rerolls pick one candidate. The index refuses the second, which is asked again. -/
def refusedRun : List (Event Nat Nat Nat) ×
    Pool Nat (Call Nat) (Op Nat Nat) Op.Reply String Unit (Records Nat Nat) :=
  play (Pool.step Op.run (Call.program sampleRanks)) (Pool.start sampleGiveaway)
    [rerollAt 2 2000 102 105, (2000, .resume 2), rerollAt 1 2000 101 103, (2000, .resume 1),
      (2000, .resume 1), (2000, .resume 2), rerollAt 2 2001 102 105, (2001, .resume 2),
      (2001, .resume 2)]

theorem wins_once_refused :
    WinsOnce sampleRanks sampleGiveaway refusedRun.1 ∧
      refusedRun.2.store.winners.map (fun winner => (winner.id, winner.entryId, winner.status)) =
        [(101, 1, .rerolled), (102, 2, .rerolled), (103, 3, .selected), (105, 4, .selected)] := by
  have hmeets : ∀ n : Fin refusedRun.1.length, inTime sampleRanks sampleGiveaway
      (refusedRun.1.take n) (refusedRun.1.get n) = true := by decide +kernel
  refine ⟨?_, by decide +kernel⟩
  obtain ⟨t, hr⟩ :
      ∃ t, AwardRun sampleRanks (fun _ _ _ => True) sampleGiveaway refusedRun.1 t refusedRun.2 :=
    run_play (by decide) (accepted_of_forall (fun _ _ _ => trivial) _ _)
  exact wins_once (by decide) (by decide) (by decide) hr
    (splits_take fun n hn => inTime_of_check (hmeets ⟨n, hn⟩))

/-- While a reroll is slow, its candidate follows another winner and is rerolled. -/
def overtakenRun : List (Event Nat Nat Nat) ×
    Pool Nat (Call Nat) (Op Nat Nat) Op.Reply String Unit (Records Nat Nat) :=
  play (Pool.step Op.run (Call.program sampleRanks)) (Pool.start sampleGiveaway)
    [rerollAt 2 2000 102 105, (2000, .resume 2), rerollAt 1 2000 101 103, (2000, .resume 1),
      (2000, .resume 1), rerollAt 3 2001 103 104, (2001, .resume 3), (2001, .resume 3),
      (2002, .resume 2)]

/-- An entry wins a second time. -/
theorem rerolled_entry_wins_again : ¬∀ (h : List (Event Nat Nat Nat)) (t : Nat)
    (p : Pool Nat (Call Nat) (Op Nat Nat) Op.Reply String Unit (Records Nat Nat)),
    AwardRun sampleRanks (fun _ _ _ => True) sampleGiveaway h t p →
    WinsOnce sampleRanks sampleGiveaway h := by
  intro hall
  have hwinners : overtakenRun.2.store.winners.map Winner.entryId = [1, 2, 3, 4, 3] := by
    decide +kernel
  obtain ⟨t, hr⟩ :
      ∃ t, AwardRun sampleRanks (fun _ _ _ => True) sampleGiveaway overtakenRun.1 t overtakenRun.2 :=
    run_play (by decide) (accepted_of_forall (fun _ _ _ => trivial) _ _)
  have honce := (hall _ t _ hr).once
  rw [after, Pool.run_after hr, hwinners] at honce
  exact absurd honce (by decide)

end Maxim.Admin.ManagedGiveaway.Winners
