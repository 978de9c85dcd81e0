import Mathlib.Algebra.Order.BigOperators.Group.List
import Mathlib.Algebra.Order.Ring.Nat
import Mathlib.Data.List.Nodup
import Mathlib.Data.List.Sort
import Mathlib.Logic.Function.Basic

/-!
# Levelling of loads

Items with a weight have owners. A pass takes the items one after the other, the
heaviest first. It gives an item whose owner is gone to the owner with the
least load, and any other item only where the load of its owner stays the
larger one. A later move of a lighter item makes no earlier decision wrong.
-/

namespace Maxim.Library.Levelling

variable {ι γ : Type} [DecidableEq ι] [DecidableEq γ]

/-- Who has which item, and the load that is recorded for each owner. -/
structure Board (ι γ : Type) where
  owner : ι → γ
  load : γ → Int

def weightOf (items : List ι) (weight : ι → Nat) (owner : ι → γ) (g : γ) : Nat :=
  (items.map fun q => if owner q = g then weight q else 0).sum

/-- An item goes to another owner. A recorded load does not fall below zero. -/
def Board.move (weight : ι → Nat) (s : Board ι γ) (q : ι) (g : γ) : Board ι γ :=
  let load := Function.update s.load (s.owner q) (max 0 (s.load (s.owner q) - weight q))
  ⟨Function.update s.owner q g, Function.update load g (load g + weight q)⟩

def Accurate (items : List ι) (weight : ι → Nat) (s : Board ι γ) : Prop :=
  ∀ g, s.load g = weightOf items weight s.owner g

def Least (alive : List γ) (s : Board ι γ) (g : γ) : Prop := g ∈ alive ∧ ∀ g' ∈ alive, s.load g ≤ s.load g'

/-- What a pass does with one item. The items in `fixed` stay while their owner is alive. -/
inductive Step (alive : List γ) (weight : ι → Nat) (fixed : ι → Prop) (q : ι) (s : Board ι γ) : Board ι γ → Prop
  | keep : s.owner q ∈ alive → (fixed q ∨ ∀ g ∈ alive, s.load (s.owner q) ≤ s.load g + weight q) →
    Step alive weight fixed q s s
  | rescue (g : γ) : s.owner q ∉ alive → Least alive s g → Step alive weight fixed q s (s.move weight q g)
  | level (g : γ) : s.owner q ∈ alive → ¬ fixed q → Least alive s g →
    s.load g + weight q < s.load (s.owner q) → Step alive weight fixed q s (s.move weight q g)

inductive Pass (alive : List γ) (weight : ι → Nat) (fixed : ι → Prop) : List ι → Board ι γ → Board ι γ → Prop
  | nil (s : Board ι γ) : Pass alive weight fixed [] s s
  | cons {q : ι} {rest : List ι} {s s₁ s₂ : Board ι γ} :
    Step alive weight fixed q s s₁ → Pass alive weight fixed rest s₁ s₂ → Pass alive weight fixed (q :: rest) s s₂

variable {items : List ι} {weight : ι → Nat} {owner : ι → γ} {alive : List γ} {fixed : ι → Prop}
  {s s' : Board ι γ} {q x : ι} {g : γ}

/-! ## The loads -/

omit [DecidableEq ι] in
theorem weightOf_congr {owner' : ι → γ} (h : ∀ q ∈ items, owner q = owner' q) :
    weightOf items weight owner g = weightOf items weight owner' g := by
  rw [weightOf, weightOf]
  exact congrArg List.sum (List.map_congr_left fun q hq => by rw [h q hq])

theorem weightOf_update (hnodup : items.Nodup) (hq : q ∈ items) (g g' : γ) :
    weightOf items weight (Function.update owner q g) g' + (if owner q = g' then weight q else 0) =
      weightOf items weight owner g' + (if g = g' then weight q else 0) := by
  induction items with
  | nil => exact absurd hq List.not_mem_nil
  | cons y rest ih =>
    obtain ⟨hy, hrest⟩ := List.nodup_cons.mp hnodup
    rcases List.mem_cons.mp hq with rfl | hq
    · have hsame : weightOf rest weight (Function.update owner q g) g' = weightOf rest weight owner g' :=
        weightOf_congr fun x hx => Function.update_of_ne (ne_of_mem_of_not_mem hx hy) _ _
      simp only [weightOf, List.map_cons, List.sum_cons, Function.update_self] at hsame ⊢
      omega
    · have hne : y ≠ q := (ne_of_mem_of_not_mem hq hy).symm
      have ih := ih hrest hq
      simp only [weightOf, List.map_cons, List.sum_cons, Function.update_of_ne hne] at ih ⊢
      omega

omit [DecidableEq ι] in
theorem weight_le (hq : q ∈ items) : weight q ≤ weightOf items weight owner (owner q) := by
  refine List.single_le_sum (fun _ _ => Nat.zero_le _) _ (List.mem_map.mpr ⟨q, hq, ?_⟩)
  exact if_pos rfl

@[simp]
theorem move_owner : (s.move weight q g).owner = Function.update s.owner q g := rfl

theorem move_load_target (hne : s.owner q ≠ g) : (s.move weight q g).load g = s.load g + weight q := by
  simp only [Board.move, Function.update_self, Function.update_of_ne (Ne.symm hne)]

theorem move_load_source (hs : Accurate items weight s) (hq : q ∈ items) (hne : s.owner q ≠ g) :
    (s.move weight q g).load (s.owner q) = s.load (s.owner q) - weight q := by
  have hle : weight q ≤ weightOf items weight s.owner (s.owner q) := weight_le hq
  have hload := hs (s.owner q)
  simp only [Board.move, Function.update_of_ne hne, Function.update_self]
  omega

theorem move_load_other {g' : γ} (hsource : g' ≠ s.owner q) (htarget : g' ≠ g) :
    (s.move weight q g).load g' = s.load g' := by
  simp only [Board.move, Function.update_of_ne htarget, Function.update_of_ne hsource]

theorem Accurate.move (hs : Accurate items weight s) (hnodup : items.Nodup) (hq : q ∈ items) (hne : s.owner q ≠ g) :
    Accurate items weight (s.move weight q g) := by
  intro g'
  have hupdate : weightOf items weight (Function.update s.owner q g) g' + (if s.owner q = g' then weight q else 0) =
      weightOf items weight s.owner g' + (if g = g' then weight q else 0) := weightOf_update hnodup hq g g'
  have hload := hs g'
  rw [move_owner]
  by_cases htarget : g' = g
  · subst htarget
    rw [move_load_target hne]
    rw [if_neg hne, if_pos rfl] at hupdate
    omega
  by_cases hsource : g' = s.owner q
  · subst hsource
    rw [move_load_source hs hq hne]
    rw [if_pos rfl, if_neg (Ne.symm htarget)] at hupdate
    omega
  · rw [move_load_other hsource htarget]
    rw [if_neg (Ne.symm hsource), if_neg (Ne.symm htarget)] at hupdate
    omega

/-! ## The order of the items -/

omit [DecidableEq ι] in
theorem pairwise_insertionSort_of_respects {r R : ι → ι → Prop} [DecidableRel r] (htrans : ∀ a b c, R a b → R b c → R a c)
    (hle : ∀ a b, r a b → R a b) (hnot : ∀ a b, ¬ r a b → R b a) (l : List ι) : (l.insertionSort r).Pairwise R := by
  have hinsert : ∀ (a : ι) (l : List ι), l.Pairwise R → (l.orderedInsert r a).Pairwise R := by
    intro a l hl
    induction l with
    | nil => exact List.pairwise_singleton R a
    | cons b rest ih =>
      obtain ⟨hb, hrest⟩ := List.pairwise_cons.mp hl
      rw [List.orderedInsert]
      split
      · next hab =>
        refine List.pairwise_cons.mpr ⟨fun c hc => ?_, hl⟩
        rcases List.mem_cons.mp hc with rfl | hc
        · exact hle a c hab
        · exact htrans a b c (hle a b hab) (hb c hc)
      · next hab =>
        refine List.pairwise_cons.mpr ⟨fun c hc => ?_, ih hrest⟩
        rcases (List.mem_orderedInsert r).mp hc with rfl | hc
        · exact hnot c b hab
        · exact hb c hc
  induction l with
  | nil => exact List.Pairwise.nil
  | cons a rest ih => exact hinsert a _ ih

/-! ## One item -/

def Settled (alive : List γ) (weight : ι → Nat) (fixed : ι → Prop) (s : Board ι γ) (q : ι) : Prop :=
  s.owner q ∈ alive ∧ (fixed q ∨ ∀ g ∈ alive, s.load (s.owner q) ≤ s.load g + weight q)

omit [DecidableEq ι] [DecidableEq γ] in
theorem Settled.mono {fixed' : ι → Prop} (h : Settled alive weight fixed s q) (hfixed : fixed q → fixed' q) :
    Settled alive weight fixed' s q := ⟨h.1, h.2.imp_left hfixed⟩

theorem Step.eq_of_settled (h : Step alive weight fixed q s s') (hs : Settled alive weight fixed s q) : s' = s := by
  cases h with
  | keep => rfl
  | rescue g hgone => exact absurd hs.1 hgone
  | level g halive hfree hleast hlarger =>
    have hle := (hs.2.resolve_left hfree) g hleast.1
    omega

theorem Step.cases_moved (h : Step alive weight fixed q s s') :
    (s' = s ∧ Settled alive weight fixed s q) ∨
      ∃ g, s' = s.move weight q g ∧ s.owner q ≠ g ∧ Least alive s g ∧
        (s.owner q ∈ alive → ¬ fixed q ∧ s.load g + weight q < s.load (s.owner q)) := by
  cases h with
  | keep halive hstay => exact .inl ⟨rfl, halive, hstay⟩
  | rescue g hgone hleast =>
    exact .inr ⟨g, rfl, fun he => hgone (he ▸ hleast.1), hleast, fun halive => absurd halive hgone⟩
  | level g halive hfree hleast hlarger =>
    refine .inr ⟨g, rfl, fun he => ?_, hleast, fun _ => ⟨hfree, hlarger⟩⟩
    rw [he] at hlarger
    omega

theorem Step.accurate (h : Step alive weight fixed q s s') (hs : Accurate items weight s) (hnodup : items.Nodup)
    (hq : q ∈ items) : Accurate items weight s' := by
  rcases h.cases_moved with ⟨rfl, -⟩ | ⟨g, rfl, hne, -⟩
  · exact hs
  · exact hs.move hnodup hq hne

theorem Step.owner_other (h : Step alive weight fixed q s s') (hx : x ≠ q) : s'.owner x = s.owner x := by
  rcases h.cases_moved with ⟨rfl, -⟩ | ⟨g, rfl, -⟩
  · rfl
  · exact Function.update_of_ne hx _ _

theorem least_le_moved (hs : Accurate items weight s) (hq : q ∈ items) (hne : s.owner q ≠ g) (hleast : Least alive s g)
    (hmove : s.owner q ∈ alive → s.load g + weight q < s.load (s.owner q)) {g' : γ} (hg' : g' ∈ alive) :
    s.load g ≤ (s.move weight q g).load g' := by
  by_cases htarget : g' = g
  · subst htarget
    rw [move_load_target hne]
    omega
  by_cases hsource : g' = s.owner q
  · subst hsource
    have hlarger := hmove hg'
    rw [move_load_source hs hq hne]
    omega
  · rw [move_load_other hsource htarget]
    exact hleast.2 g' hg'

theorem Step.settles (h : Step alive weight fixed q s s') (hs : Accurate items weight s) (hq : q ∈ items) :
    Settled alive weight fixed s' q := by
  rcases h.cases_moved with ⟨rfl, hsettled⟩ | ⟨g, rfl, hne, hleast, hmove⟩
  · exact hsettled
  · rw [Settled, move_owner, Function.update_self]
    refine ⟨hleast.1, .inr fun g' hg' => ?_⟩
    have hle := least_le_moved hs hq hne hleast (fun halive => (hmove halive).2) hg'
    rw [move_load_target hne]
    omega

theorem Step.keeps (h : Step alive weight fixed q s s') (hs : Accurate items weight s) (hq : q ∈ items)
    (hx : Settled alive weight fixed s x) (hxq : x ≠ q) (hweight : weight q ≤ weight x) :
    Settled alive weight fixed s' x := by
  rcases h.cases_moved with ⟨rfl, -⟩ | ⟨g, rfl, hne, hleast, hmove⟩
  · exact hx
  rw [Settled, move_owner, Function.update_of_ne hxq]
  refine ⟨hx.1, hx.2.imp_right fun hall g' hg' => ?_⟩
  have hle := least_le_moved hs hq hne hleast (fun halive => (hmove halive).2) hg'
  by_cases htarget : s.owner x = g
  · rw [htarget, move_load_target hne]
    omega
  by_cases hsource : s.owner x = s.owner q
  · -- the owner of the settled item has lost a weight
    have hg := hall g hleast.1
    rw [hsource] at hg ⊢
    rw [move_load_source hs hq hne]
    omega
  · have hg := hall g hleast.1
    rw [move_load_other hsource htarget]
    omega

theorem Step.load_le (h : Step alive weight fixed q s s') (hs : Accurate items weight s) (hq : q ∈ items)
    (halive : s.owner q ∈ alive) {bound : Int} (hbound : ∀ g, s.load g ≤ bound) (g : γ) : s'.load g ≤ bound := by
  rcases h.cases_moved with ⟨rfl, -⟩ | ⟨g', rfl, hne, -, hmove⟩
  · exact hbound g
  have hsmall := (hmove halive).2
  have hsourceBound := hbound (s.owner q)
  by_cases htarget : g = g'
  · subst htarget
    rw [move_load_target hne]
    omega
  by_cases hsource : g = s.owner q
  · subst hsource
    rw [move_load_source hs hq hne]
    omega
  · rw [move_load_other hsource htarget]
    exact hbound g

/-! ## A pass -/

variable {turns : List ι}

theorem Pass.accurate (h : Pass alive weight fixed turns s s') (hs : Accurate items weight s) (hnodup : items.Nodup)
    (hturns : ∀ q ∈ turns, q ∈ items) : Accurate items weight s' := by
  induction h with
  | nil => exact hs
  | cons hstep _ ih =>
    exact ih (hstep.accurate hs hnodup (hturns _ List.mem_cons_self)) fun q hq => hturns q (List.mem_cons_of_mem _ hq)

theorem Pass.owner_other (h : Pass alive weight fixed turns s s') (hx : x ∉ turns) : s'.owner x = s.owner x := by
  induction h with
  | nil => rfl
  | cons hstep _ ih =>
    obtain ⟨hxq, hx⟩ := List.ne_and_not_mem_of_not_mem_cons hx
    rw [ih hx, hstep.owner_other hxq]

theorem Pass.settles (h : Pass alive weight fixed turns s s') (hs : Accurate items weight s) (hnodup : items.Nodup)
    (hturns : ∀ q ∈ turns, q ∈ items) (honce : turns.Nodup)
    (horder : turns.Pairwise fun q q' => weight q' ≤ weight q) :
    (∀ x ∈ turns, Settled alive weight fixed s' x) ∧
      ∀ x ∉ turns, (∀ q ∈ turns, weight q ≤ weight x) → Settled alive weight fixed s x →
        Settled alive weight fixed s' x := by
  induction h with
  | nil => exact ⟨fun x hx => absurd hx List.not_mem_nil, fun x _ _ hx => hx⟩
  | @cons q rest s s₁ s₂ hstep hpass ih =>
    have hq := hturns q List.mem_cons_self
    obtain ⟨hqrest, honce⟩ := List.nodup_cons.mp honce
    obtain ⟨hheavy, horder⟩ := List.pairwise_cons.mp horder
    obtain ⟨hsettled, hkept⟩ := ih (hstep.accurate hs hnodup hq)
      (fun x hx => hturns x (List.mem_cons_of_mem _ hx)) honce horder
    refine ⟨fun x hx => ?_, fun x hx hlight hsx => ?_⟩
    · rcases List.mem_cons.mp hx with rfl | hx
      · exact hkept x hqrest hheavy (hstep.settles hs hq)
      · exact hsettled x hx
    · obtain ⟨hxq, hx⟩ := List.ne_and_not_mem_of_not_mem_cons hx
      exact hkept x hx (fun y hy => hlight y (List.mem_cons_of_mem _ hy))
        (hstep.keeps hs hq hsx hxq (hlight q List.mem_cons_self))

theorem Pass.owner_fixed (h : Pass alive weight fixed turns s s') (honce : turns.Nodup) (hx : fixed x)
    (halive : s.owner x ∈ alive) : s'.owner x = s.owner x := by
  induction h with
  | nil => rfl
  | @cons q rest s s₁ s₂ hstep hpass ih =>
    obtain ⟨hqrest, honce⟩ := List.nodup_cons.mp honce
    by_cases hxq : x = q
    · subst hxq
      rw [hpass.owner_other hqrest, hstep.eq_of_settled ⟨halive, .inl hx⟩]
    · have howner := hstep.owner_other hxq
      rw [ih honce (howner ▸ halive), howner]

theorem Pass.load_le (h : Pass alive weight fixed turns s s') (hs : Accurate items weight s) (hnodup : items.Nodup)
    (hturns : ∀ q ∈ turns, q ∈ items) (honce : turns.Nodup) (halive : ∀ q ∈ turns, s.owner q ∈ alive)
    {bound : Int} (hbound : ∀ g, s.load g ≤ bound) (g : γ) : s'.load g ≤ bound := by
  induction h with
  | nil => exact hbound g
  | @cons q rest s s₁ s₂ hstep hpass ih =>
    have hq := hturns q List.mem_cons_self
    obtain ⟨hqrest, honce⟩ := List.nodup_cons.mp honce
    refine ih (hstep.accurate hs hnodup hq) (fun x hx => hturns x (List.mem_cons_of_mem _ hx)) honce
      (fun x hx => ?_) (hstep.load_le hs hq (halive q List.mem_cons_self) hbound)
    rw [hstep.owner_other (ne_of_mem_of_not_mem hx hqrest)]
    exact halive x (List.mem_cons_of_mem _ hx)

theorem Pass.eq_of_settled (h : Pass alive weight fixed turns s s')
    (hs : ∀ q ∈ turns, Settled alive weight fixed s q) : s' = s := by
  induction h with
  | nil => rfl
  | cons hstep _ ih =>
    obtain rfl := hstep.eq_of_settled (hs _ List.mem_cons_self)
    exact ih fun q hq => hs q (List.mem_cons_of_mem _ hq)

end Maxim.Library.Levelling
