import Maxim.Library.Keyed
import Mathlib.Data.Fintype.EquivFin
import Mathlib.Data.List.FinRange
import Mathlib.Data.List.Nodup
import Mathlib.Data.List.Perm.Subperm
import Mathlib.Logic.Equiv.Fin.Basic
import Mathlib.Logic.Equiv.Option

/-!
# Matching by augmenting paths

Every left node ranks its edges. A left node takes its first right node that is
free, or whose owner finds another one. The search of one left node visits a
right node once. When it fails, the visited right nodes are all that their
owners and the left node can have, so that no matching takes in all left nodes.
-/

namespace Maxim.Library.Matching

variable {ι κ δ : Type} [DecidableEq ι] [DecidableEq κ]

/-- The right nodes a search has visited, the owners, and the edge of each left node. -/
structure Search (ι κ δ : Type) where
  visited : List κ
  owner : κ → Option ι
  edges : List (ι × δ)

def Search.empty : Search ι κ δ := ⟨[], fun _ => none, []⟩

def Search.visit (s : Search ι κ δ) (right : κ) : Search ι κ δ := { s with visited := right :: s.visited }

def Search.give (s : Search ι κ δ) (left : ι) (edge : κ × δ) : Search ι κ δ :=
  { s with
    owner := fun right => if right = edge.1 then some left else s.owner right
    edges := upsert Prod.fst (left, edge.2) s.edges }

/-- Try the edges one after the other. `again` looks for another right node for an owner. -/
def tryEach (again : ι → Search ι κ δ → Bool × Search ι κ δ) (left : ι) :
    List (κ × δ) → Search ι κ δ → Bool × Search ι κ δ
  | [], s => (false, s)
  | edge :: rest, s =>
    if edge.1 ∈ s.visited then tryEach again left rest s
    else match s.owner edge.1 with
      | none => (true, (s.visit edge.1).give left edge)
      | some previous =>
        match again previous (s.visit edge.1) with
        | (true, s') => (true, s'.give left edge)
        | (false, s') => tryEach again left rest s'

/-- A right node for `left`. The fuel bounds how many owners move on. -/
def assign (rank : ι → List (κ × δ)) : Nat → ι → Search ι κ δ → Bool × Search ι κ δ
  | 0, _, s => (false, s)
  | fuel + 1, left, s => tryEach (assign rank fuel) left (rank left) s

/-- A right node for each of the left nodes, with a new search for each. -/
def assignAll (rank : ι → List (κ × δ)) (fuel : Nat) : List ι → Search ι κ δ → Option (Search ι κ δ)
  | [], s => some s
  | left :: rest, s =>
    match assign rank fuel left { s with visited := [] } with
    | (true, s') => assignAll rank fuel rest s'
    | (false, _) => none

/-! ## The owners outside a set of right nodes -/

/-- A left node has a right node outside `V`. -/
def Owns (V : List κ) (s : Search ι κ δ) (left : ι) : Prop := ∃ r, r ∉ V ∧ s.owner r = some left

/-- Outside `V` the owners are a matching of ranked edges, each with its label. -/
structure Sound (rank : ι → List (κ × δ)) (V : List κ) (s : Search ι κ δ) : Prop where
  once : ∀ r r' left, r ∉ V → r' ∉ V → s.owner r = some left → s.owner r' = some left → r = r'
  edge : ∀ r left, r ∉ V → s.owner r = some left →
    ∃ d, (r, d) ∈ rank left ∧ findKey Prod.fst left s.edges = some (left, d)

variable {rank : ι → List (κ × δ)} {V W : List κ} {s s' : Search ι κ δ} {left l : ι} {r : κ}

omit [DecidableEq κ] in
theorem Sound.mono (h : Sound rank V s) (hVW : V ⊆ W) : Sound rank W s :=
  ⟨fun r r' l hr hr' => h.once r r' l (fun hmem => hr (hVW hmem)) fun hmem => hr' (hVW hmem),
    fun r l hr => h.edge r l fun hmem => hr (hVW hmem)⟩

omit [DecidableEq ι] [DecidableEq κ] in
theorem Owns.mono (h : Owns W s l) (hVW : V ⊆ W) : Owns V s l := by
  obtain ⟨r, hr, ho⟩ := h
  exact ⟨r, fun hmem => hr (hVW hmem), ho⟩

omit [DecidableEq ι] in
theorem owns_cons (hr : r ∉ V) : Owns V s l ↔ s.owner r = some l ∨ Owns (r :: V) s l := by
  constructor
  · rintro ⟨x, hx, ho⟩
    by_cases hxr : x = r
    · exact .inl (hxr ▸ ho)
    · exact .inr ⟨x, List.not_mem_cons_of_ne_of_not_mem hxr hx, ho⟩
  · rintro (ho | h)
    · exact ⟨r, hr, ho⟩
    · exact h.mono (List.subset_cons_self r V)

/-- `left` gained a right node outside `V`, and every other owner there still has one. -/
structure Gained (rank : ι → List (κ × δ)) (V : List κ) (left : ι) (s s' : Search ι κ δ) : Prop where
  kept : ∀ r ∈ V, s'.owner r = s.owner r
  owns : ∀ l, Owns V s' l ↔ l = left ∨ Owns V s l
  sound : Sound rank V s'
  same : ∀ l, l ≠ left → ¬ Owns V s l → findKey Prod.fst l s'.edges = findKey Prod.fst l s.edges
  distinct : (s.edges.map Prod.fst).Nodup → (s'.edges.map Prod.fst).Nodup

theorem Gained.mono (h : Gained rank W left s s') (hVW : V ⊆ W) (hs : Sound rank V s)
    (hleft : ¬ Owns V s left) : Gained rank V left s s' := by
  have howner : ∀ {x l}, x ∉ V → s'.owner x = some l → (x ∈ W ∧ s.owner x = some l) ∨
      (x ∉ W ∧ (l = left ∨ Owns W s l)) := by
    intro x l hx ho
    by_cases hW : x ∈ W
    · exact .inl ⟨hW, h.kept x hW ▸ ho⟩
    · exact .inr ⟨hW, (h.owns l).mp ⟨x, hW, ho⟩⟩
  have hcross : ∀ {x l}, x ∈ W → x ∉ V → s.owner x = some l → ¬ Owns W s l ∧ l ≠ left := by
    refine fun hW hx ho => ⟨?_, ?_⟩
    · rintro ⟨y, hy, ho'⟩
      exact hy (hs.once _ _ _ hx (fun hmem => hy (hVW hmem)) ho ho' ▸ hW)
    · rintro rfl
      exact hleft ⟨_, hx, ho⟩
  refine ⟨fun r hr => h.kept r (hVW hr), fun l => ⟨?_, ?_⟩, ⟨?_, ?_⟩, ?_, h.distinct⟩
  · rintro ⟨x, hx, ho⟩
    rcases howner hx ho with ⟨-, ho⟩ | ⟨-, hl⟩
    · exact .inr ⟨x, hx, ho⟩
    · exact hl.imp_right fun hl => hl.mono hVW
  · rintro (rfl | ⟨x, hx, ho⟩)
    · exact ((h.owns l).mpr (.inl rfl)).mono hVW
    · by_cases hW : x ∈ W
      · exact ⟨x, hx, (h.kept x hW).trans ho⟩
      · exact ((h.owns l).mpr (.inr ⟨x, hW, ho⟩)).mono hVW
  · intro x y l hx hy hxo hyo
    rcases howner hx hxo with ⟨hxW, hxs⟩ | ⟨hxW, hxl⟩ <;> rcases howner hy hyo with ⟨hyW, hys⟩ | ⟨hyW, hyl⟩
    · exact hs.once x y l hx hy hxs hys
    · obtain ⟨hno, hne⟩ := hcross hxW hx hxs
      exact absurd hyl (not_or.mpr ⟨hne, hno⟩)
    · obtain ⟨hno, hne⟩ := hcross hyW hy hys
      exact absurd hxl (not_or.mpr ⟨hne, hno⟩)
    · exact h.sound.once x y l hxW hyW hxo hyo
  · intro x l hx ho
    rcases howner hx ho with ⟨hW, hos⟩ | ⟨hW, -⟩
    · obtain ⟨hno, hne⟩ := hcross hW hx hos
      rw [h.same l hne hno]
      exact hs.edge x l hx hos
    · exact h.sound.edge x l hW ho
  · exact fun l hne hno => h.same l hne fun hW => hno (hW.mono hVW)

/-! ## A search that succeeds -/

variable {edge : κ × δ}

@[simp]
theorem give_owner_self : (s.give left edge).owner edge.1 = some left := if_pos rfl

theorem give_owner_of_ne (hr : r ≠ edge.1) : (s.give left edge).owner r = s.owner r := if_neg hr

theorem owns_give (hr : edge.1 ∉ V) :
    Owns V (s.give left edge) l ↔ l = left ∨ Owns (edge.1 :: V) s l := by
  rw [owns_cons hr, give_owner_self, Option.some.injEq, eq_comm]
  refine or_congr_right ⟨?_, ?_⟩ <;> rintro ⟨x, hx, ho⟩ <;> refine ⟨x, hx, ?_⟩
  · exact (give_owner_of_ne (List.ne_of_not_mem_cons hx)).symm.trans ho
  · exact (give_owner_of_ne (List.ne_of_not_mem_cons hx)).trans ho

theorem sound_give (hrank : edge ∈ rank left)
    (hs : Sound rank (edge.1 :: V) s) (hleft : ¬ Owns (edge.1 :: V) s left) :
    Sound rank V (s.give left edge) := by
  have howner : ∀ {x l}, x ∉ V → (s.give left edge).owner x = some l →
      (x = edge.1 ∧ l = left) ∨ (x ∉ edge.1 :: V ∧ s.owner x = some l ∧ l ≠ left) := by
    intro x l hx ho
    by_cases hxr : x = edge.1
    · rw [hxr, give_owner_self] at ho
      exact .inl ⟨hxr, (Option.some.inj ho).symm⟩
    · rw [give_owner_of_ne hxr] at ho
      have hx' := List.not_mem_cons_of_ne_of_not_mem hxr hx
      exact .inr ⟨hx', ho, fun hl => hleft ⟨x, hx', hl ▸ ho⟩⟩
  constructor
  · intro x y l hx hy hxo hyo
    rcases howner hx hxo with ⟨rfl, rfl⟩ | ⟨hx', hxo, hne⟩ <;>
      rcases howner hy hyo with ⟨rfl, hl⟩ | ⟨hy', hyo, hne'⟩
    · rfl
    · exact absurd rfl hne'
    · exact absurd hl hne
    · exact hs.once x y l hx' hy' hxo hyo
  · intro x l hx ho
    rcases howner hx ho with ⟨rfl, rfl⟩ | ⟨hx', ho, hne⟩
    · exact ⟨edge.2, hrank, findKey_upsert_self (l, edge.2) s.edges⟩
    · obtain ⟨d, hd, hfind⟩ := hs.edge x l hx' ho
      refine ⟨d, hd, ?_⟩
      rw [Search.give, findKey_upsert_of_ne (Ne.symm hne)]
      exact hfind

theorem gained_free (hs : Sound rank V s) (hleft : ¬ Owns V s left) (hrank : edge ∈ rank left)
    (hr : edge.1 ∉ V) (hfree : s.owner edge.1 = none) :
    Gained rank V left s ((s.visit edge.1).give left edge) := by
  have howns : ∀ l, Owns (edge.1 :: V) s l ↔ Owns V s l := by
    intro l
    rw [owns_cons hr, hfree]
    simp
  have hsound : Sound rank (edge.1 :: V) s := hs.mono (List.subset_cons_self _ V)
  refine ⟨fun r hrV => give_owner_of_ne (ne_of_mem_of_not_mem hrV hr), fun l => ?_, ?_, fun l hne _ => ?_,
    nodup_upsert _⟩
  · rw [owns_give hr]
    exact or_congr_right (howns l)
  · exact sound_give hrank ⟨hsound.once, hsound.edge⟩ fun h => hleft ((howns left).mp h)
  · exact findKey_upsert_of_ne (Ne.symm hne) _

theorem gained_moved {previous : ι} (hleft : ¬ Owns V s left)
    (hrank : edge ∈ rank left) (hr : edge.1 ∉ V) (hprevious : s.owner edge.1 = some previous)
    (hg : Gained rank (edge.1 :: V) previous s s') : Gained rank V left s (s'.give left edge) := by
  have howns : ∀ l, Owns (edge.1 :: V) s' l ↔ Owns V s l := by
    intro l
    rw [hg.owns, owns_cons hr, hprevious, Option.some.injEq, eq_comm]
  refine ⟨fun r hrV => ?_, fun l => ?_, ?_, fun l hne hno => ?_, fun h => nodup_upsert _ (hg.distinct h)⟩
  · rw [give_owner_of_ne (ne_of_mem_of_not_mem hrV hr)]
    exact hg.kept r (List.mem_cons_of_mem _ hrV)
  · rw [owns_give hr]
    exact or_congr_right (howns l)
  · exact sound_give hrank hg.sound fun h => hleft ((howns left).mp h)
  · rw [Search.give, findKey_upsert_of_ne (Ne.symm hne)]
    refine hg.same l (fun hl => hno ⟨edge.1, hr, hl ▸ hprevious⟩) fun h => hno ?_
    exact h.mono (List.subset_cons_self _ V)

/-! ## A search that fails -/

/-- Nothing has changed hands, and the visited right nodes outside `V` are all that their owners can have. -/
structure Stuck (rank : ι → List (κ × δ)) (V : List κ) (s s' : Search ι κ δ) : Prop where
  owner : s'.owner = s.owner
  edges : s'.edges = s.edges
  visited : V ⊆ s'.visited
  distinct : V.Nodup → s'.visited.Nodup
  closed : ∀ r ∈ s'.visited, r ∉ V → ∃ l, s.owner r = some l ∧ ∀ edge ∈ rank l, edge.1 ∈ s'.visited

/-- What a search for `left` ends in, after the edges `tried`. -/
def Outcome (rank : ι → List (κ × δ)) (V : List κ) (left : ι) (tried : List (κ × δ)) (s : Search ι κ δ)
    (out : Bool × Search ι κ δ) : Prop :=
  (out.1 = true → Gained rank V left s out.2) ∧
    (out.1 = false → Stuck rank V s out.2 ∧ ∀ edge ∈ tried, edge.1 ∈ out.2.visited)

omit [DecidableEq ι] in
theorem Stuck.trans {s₁ s₂ : Search ι κ δ} (h : Stuck rank V s s₁) (h' : Stuck rank s₁.visited s₁ s₂) :
    Stuck rank V s s₂ := by
  refine ⟨h'.owner.trans h.owner, h'.edges.trans h.edges, List.Subset.trans h.visited h'.visited,
    fun hV => h'.distinct (h.distinct hV), fun r hr hV => ?_⟩
  by_cases hmem : r ∈ s₁.visited
  · obtain ⟨l, ho, hall⟩ := h.closed r hmem hV
    exact ⟨l, ho, fun edge he => h'.visited (hall edge he)⟩
  · obtain ⟨l, ho, hall⟩ := h'.closed r hr hmem
    exact ⟨l, h.owner ▸ ho, hall⟩

omit [DecidableEq κ] in
theorem Stuck.sound (h : Stuck rank V s s') (hs : Sound rank V s) : Sound rank s'.visited s' := by
  have hs := hs.mono h.visited
  refine ⟨fun r r' l hr hr' => h.owner ▸ hs.once r r' l hr hr', fun r l hr ho => ?_⟩
  rw [h.edges]
  exact hs.edge r l hr (h.owner ▸ ho)

omit [DecidableEq ι] [DecidableEq κ] in
theorem Stuck.owns (h : Stuck rank V s s') : Owns s'.visited s' l → Owns V s l := by
  rintro ⟨r, hr, ho⟩
  exact ⟨r, fun hmem => hr (h.visited hmem), h.owner ▸ ho⟩

theorem Gained.after {s₁ s₂ : Search ι κ δ} (h : Gained rank s₁.visited left s₁ s₂) (hstuck : Stuck rank V s s₁)
    (hs : Sound rank V s) (hleft : ¬ Owns V s left) : Gained rank V left s s₂ := by
  have howns : ∀ {U l}, Owns U s₁ l ↔ Owns U s l := by
    intro U l
    rw [Owns, hstuck.owner]
    rfl
  have h' : Gained rank s₁.visited left s s₂ := by
    refine ⟨fun r hr => hstuck.owner ▸ h.kept r hr, fun l => (h.owns l).trans (or_congr_right howns), h.sound,
      fun l hne hno => ?_, fun hd => h.distinct (hstuck.edges ▸ hd)⟩
    rw [h.same l hne fun ho => hno (howns.mp ho), hstuck.edges]
  exact h'.mono hstuck.visited hs hleft

/-! ## One search -/

def unvisited (rights V : List κ) : List κ := rights.filter (· ∉ V)

omit [DecidableEq ι] in
theorem unvisited_cons_lt {rights : List κ} (hr : r ∈ rights) (hV : r ∉ V) :
    (unvisited rights (r :: V)).length < (unvisited rights V).length := by
  have hsplit : unvisited rights (r :: V) = (unvisited rights V).filter (· ≠ r) := by
    rw [unvisited, unvisited, List.filter_filter]
    exact List.filter_congr fun x _ => by simp [not_or]
  rw [hsplit]
  refine List.length_filter_lt_length_iff_exists.mpr ⟨r, List.mem_filter.mpr ⟨hr, decide_eq_true hV⟩, ?_⟩
  simp

omit [DecidableEq ι] in
theorem unvisited_le {rights : List κ} (hVW : V ⊆ W) :
    (unvisited rights W).length ≤ (unvisited rights V).length := by
  refine (List.monotone_filter_right rights fun x hx => ?_).length_le
  exact decide_eq_true fun hV => of_decide_eq_true hx (hVW hV)

variable {rights : List κ}

/-- The edges of `left` tried one after the other, with the searches for the owners in order. -/
theorem tryEach_outcome {again : ι → Search ι κ δ → Bool × Search ι κ δ} {fuel : Nat}
    (hagain : ∀ l s, (unvisited rights s.visited).length < fuel → Sound rank s.visited s →
      ¬ Owns s.visited s l → Outcome rank s.visited l (rank l) s (again l s))
    (hrights : ∀ edge ∈ rank left, edge.1 ∈ rights) (tried : List (κ × δ)) (htried : ∀ edge ∈ tried, edge ∈ rank left)
    (s : Search ι κ δ) (hfuel : (unvisited rights s.visited).length ≤ fuel) (hs : Sound rank s.visited s)
    (hleft : ¬ Owns s.visited s left) :
    Outcome rank s.visited left tried s (tryEach again left tried s) := by
  induction tried generalizing s with
  | nil =>
    refine ⟨fun h => (Bool.false_ne_true h).elim, fun _ => ⟨⟨rfl, rfl, fun _ h => h, id, fun r hr hV => ?_⟩, ?_⟩⟩
    · exact absurd hr hV
    · exact fun _ h => absurd h List.not_mem_nil
  | cons edge rest ih =>
    have ih := ih fun e he => htried e (List.mem_cons_of_mem edge he)
    have hedge := htried edge List.mem_cons_self
    rw [tryEach]
    by_cases hr : edge.1 ∈ s.visited
    · rw [if_pos hr]
      obtain ⟨hgain, hstuck⟩ := ih s hfuel hs hleft
      refine ⟨hgain, fun h => ⟨(hstuck h).1, fun e he => ?_⟩⟩
      rcases List.mem_cons.mp he with rfl | he
      · exact (hstuck h).1.visited hr
      · exact (hstuck h).2 e he
    rw [if_neg hr]
    cases hprevious : s.owner edge.1 with
    | none => exact ⟨fun _ => gained_free hs hleft hedge hr hprevious, fun h => (Bool.false_ne_true h.symm).elim⟩
    | some previous =>
      have hless : (unvisited rights (edge.1 :: s.visited)).length < (unvisited rights s.visited).length :=
        unvisited_cons_lt (hrights edge hedge) hr
      have hsvisit : Sound rank (s.visit edge.1).visited (s.visit edge.1) := by
        have h := hs.mono (List.subset_cons_self edge.1 s.visited)
        exact ⟨h.once, h.edge⟩
      have hprev : ¬ Owns (s.visit edge.1).visited (s.visit edge.1) previous := by
        rintro ⟨x, hx, ho⟩
        have hx' : x ∉ s.visited := fun hmem => hx (List.mem_cons_of_mem _ hmem)
        exact hx (hs.once x edge.1 previous hx' hr ho hprevious ▸ List.mem_cons_self)
      dsimp only
      obtain ⟨hgain, hstuck⟩ := hagain previous (s.visit edge.1) (Nat.lt_of_lt_of_le hless hfuel) hsvisit hprev
      generalize again previous (s.visit edge.1) = out at hgain hstuck ⊢
      obtain ⟨found, s₁⟩ := out
      cases found with
      | true =>
        have hg := hgain rfl
        refine ⟨fun _ => gained_moved hleft hedge hr hprevious ?_, fun h => (Bool.false_ne_true h.symm).elim⟩
        exact ⟨hg.kept, hg.owns, hg.sound, hg.same, hg.distinct⟩
      | false =>
        obtain ⟨hs₁, hall⟩ := hstuck rfl
        -- the owner of the edge has nowhere to go
        have hstuck₁ : Stuck rank s.visited s s₁ := by
          refine ⟨hs₁.owner, hs₁.edges, fun x hx => hs₁.visited (List.mem_cons_of_mem _ hx),
            fun hd => hs₁.distinct (List.nodup_cons.mpr ⟨hr, hd⟩), fun x hx hV => ?_⟩
          by_cases hxr : x = edge.1
          · exact ⟨previous, hxr ▸ hprevious, hall⟩
          · exact hs₁.closed x hx (List.not_mem_cons_of_ne_of_not_mem hxr hV)
        have hfuel₁ : (unvisited rights s₁.visited).length ≤ fuel :=
          Nat.le_trans (unvisited_le hstuck₁.visited) hfuel
        obtain ⟨hgain₁, hrest⟩ := ih s₁ hfuel₁ (hstuck₁.sound hs) fun h => hleft (hstuck₁.owns h)
        refine ⟨fun h => (hgain₁ h).after hstuck₁ hs hleft, fun h => ⟨hstuck₁.trans (hrest h).1, fun e he => ?_⟩⟩
        rcases List.mem_cons.mp he with rfl | he
        · exact (hrest h).1.visited (hs₁.visited List.mem_cons_self)
        · exact (hrest h).2 e he

theorem assign_outcome (hrights : ∀ l, ∀ edge ∈ rank l, edge.1 ∈ rights) (fuel : Nat) (left : ι)
    (s : Search ι κ δ) (hfuel : (unvisited rights s.visited).length < fuel) (hs : Sound rank s.visited s)
    (hleft : ¬ Owns s.visited s left) :
    Outcome rank s.visited left (rank left) s (assign rank fuel left s) := by
  induction fuel generalizing left s with
  | zero => exact absurd hfuel (Nat.not_lt_zero _)
  | succ fuel ih =>
    exact tryEach_outcome ih (hrights left) (rank left) (fun _ h => h) s (Nat.le_of_lt_succ hfuel) hs hleft

/-! ## All searches -/

/-- The left nodes `done` have a right node each, and an edge each. -/
structure Matched (rank : ι → List (κ × δ)) (done : List ι) (s : Search ι κ δ) : Prop where
  owns : ∀ l, Owns [] s l ↔ l ∈ done
  sound : Sound rank [] s
  distinct : (s.edges.map Prod.fst).Nodup
  keys : ∀ l, l ∉ done → findKey Prod.fst l s.edges = none

omit [DecidableEq κ] in
theorem matched_empty : Matched rank [] (.empty : Search ι κ δ) := by
  refine ⟨fun l => ⟨?_, fun h => absurd h List.not_mem_nil⟩, ⟨?_, ?_⟩, List.nodup_nil, fun _ _ => rfl⟩
  · rintro ⟨r, -, ho⟩
    cases ho
  · intro r r' l _ _ ho
    cases ho
  · intro r l _ ho
    cases ho

variable {done : List ι}

omit [DecidableEq κ] in
theorem Matched.gained (h : Matched rank done s) (hg : Gained rank [] left { s with visited := [] } s') :
    Matched rank (left :: done) s' := by
  refine ⟨fun l => ?_, hg.sound, hg.distinct h.distinct, fun l hl => ?_⟩
  · rw [hg.owns, List.mem_cons]
    exact or_congr_right (h.owns l)
  · obtain ⟨hne, hl⟩ := List.ne_and_not_mem_of_not_mem_cons hl
    rw [hg.same l hne fun ho => hl ((h.owns l).mp ho)]
    exact h.keys l hl

omit [DecidableEq κ] in
theorem Matched.stuck (h : Matched rank done s) (hleft : left ∉ done)
    (hstuck : Stuck rank [] { s with visited := [] } s') (hall : ∀ edge ∈ rank left, edge.1 ∈ s'.visited)
    (f : ι → κ) (hedge : ∀ l ∈ left :: done, ∃ d, (f l, d) ∈ rank l)
    (hf : ∀ l ∈ left :: done, ∀ l' ∈ left :: done, f l = f l' → l = l') : False := by
  have howner : ∀ r ∈ s'.visited, ∃ l, s.owner r = some l ∧ ∀ edge ∈ rank l, edge.1 ∈ s'.visited :=
    fun r hr => hstuck.closed r hr List.not_mem_nil
  let owner : κ → ι := fun r => (s.owner r).getD left
  have hget : ∀ r ∈ s'.visited, s.owner r = some (owner r) := by
    intro r hr
    obtain ⟨l, ho, -⟩ := howner r hr
    simp only [owner, ho, Option.getD_some]
  have hdone : ∀ r ∈ s'.visited, owner r ∈ done := fun r hr => (h.owns _).mp ⟨r, List.not_mem_nil, hget r hr⟩
  have howners : (s'.visited.map owner).Nodup := by
    refine List.Nodup.map_on (fun r hr r' hr' heq => ?_) (hstuck.distinct List.nodup_nil)
    exact h.sound.once r r' (owner r) List.not_mem_nil List.not_mem_nil (hget r hr) (heq ▸ hget r' hr')
  have hmem : ∀ l ∈ left :: s'.visited.map owner, l ∈ left :: done ∧ ∀ edge ∈ rank l, edge.1 ∈ s'.visited := by
    intro l hl
    rcases List.mem_cons.mp hl with rfl | hl
    · exact ⟨List.mem_cons_self, hall⟩
    · obtain ⟨r, hr, rfl⟩ := List.mem_map.mp hl
      refine ⟨List.mem_cons_of_mem _ (hdone r hr), ?_⟩
      obtain ⟨l', ho, hrank⟩ := howner r hr
      obtain rfl := Option.some.inj (ho.symm.trans (hget r hr))
      exact hrank
  -- these left nodes are one more than the right nodes that they can have
  have hnodup : (left :: s'.visited.map owner).Nodup := by
    refine List.nodup_cons.mpr ⟨fun hl => hleft ?_, howners⟩
    obtain ⟨r, hr, he⟩ := List.mem_map.mp hl
    exact he ▸ hdone r hr
  have hsubset : (left :: s'.visited.map owner).map f ⊆ s'.visited := by
    intro r hr
    obtain ⟨l, hl, rfl⟩ := List.mem_map.mp hr
    obtain ⟨d, hd⟩ := hedge l (hmem l hl).1
    exact (hmem l hl).2 _ hd
  have hmap : ((left :: s'.visited.map owner).map f).Nodup :=
    hnodup.map_on fun l hl l' hl' => hf l (hmem l hl).1 l' (hmem l' hl').1
  have hlength := (List.subperm_of_subset hmap hsubset).length_le
  simp only [List.length_map, List.length_cons] at hlength
  omega

theorem assignAll_outcome (hrights : ∀ l, ∀ edge ∈ rank l, edge.1 ∈ rights) (fuel : Nat)
    (hfuel : rights.length < fuel) (lefts : List ι) (s : Search ι κ δ) (h : Matched rank done s)
    (hnodup : (lefts ++ done).Nodup) :
    (∀ s', assignAll rank fuel lefts s = some s' → Matched rank (lefts.reverse ++ done) s') ∧
      (assignAll rank fuel lefts s = none → ∀ f : ι → κ, (∀ l ∈ lefts ++ done, ∃ d, (f l, d) ∈ rank l) →
        (∀ l ∈ lefts ++ done, ∀ l' ∈ lefts ++ done, f l = f l' → l = l') → False) := by
  induction lefts generalizing s done with
  | nil => exact ⟨fun s' hs' => Option.some.inj hs' ▸ h, fun hnone => nomatch hnone⟩
  | cons left rest ih =>
    obtain ⟨hleft, hrest⟩ := List.nodup_cons.mp hnodup
    obtain ⟨hgain, hstuck⟩ := assign_outcome hrights fuel left { s with visited := [] }
      (Nat.lt_of_le_of_lt (List.length_filter_le _ _) hfuel) ⟨h.sound.once, h.sound.edge⟩
      fun ho => hleft (List.mem_append_right _ ((h.owns left).mp ho))
    rw [assignAll]
    generalize assign rank fuel left { s with visited := [] } = out at hgain hstuck ⊢
    obtain ⟨found, s₁⟩ := out
    cases found with
    | true =>
      have hperm : (rest ++ left :: done).Perm (left :: (rest ++ done)) := List.perm_middle
      obtain ⟨hsome, hnone⟩ := ih s₁ (h.gained (hgain rfl)) (hperm.nodup_iff.mpr hnodup)
      rw [List.reverse_cons, List.append_assoc, List.singleton_append]
      refine ⟨hsome, fun hfail f hedge hf => hnone hfail f (fun l hl => hedge l (hperm.mem_iff.mp hl)) ?_⟩
      exact fun l hl l' hl' => hf l (hperm.mem_iff.mp hl) l' (hperm.mem_iff.mp hl')
    | false =>
      refine ⟨fun s' hs' => absurd hs' (Option.some_ne_none s').symm, fun _ f hedge hf => ?_⟩
      obtain ⟨hs₁, hall⟩ := hstuck rfl
      have hsub : ∀ l ∈ left :: done, l ∈ left :: rest ++ done := by
        intro l hl
        rw [List.cons_append]
        exact (List.mem_cons.mp hl).elim (fun he => he ▸ List.mem_cons_self)
          fun hd => List.mem_cons_of_mem _ (List.mem_append_right _ hd)
      exact h.stuck (fun hd => hleft (List.mem_append_right _ hd)) hs₁ hall f
        (fun l hl => hedge l (hsub l hl)) fun l hl l' hl' => hf l (hsub l hl) l' (hsub l' hl')

omit [DecidableEq κ] in
theorem Matched.exists_function (h : Matched rank done s) :
    ∃ g : ∀ l, l ∈ done → κ × δ, (∀ l hl, g l hl ∈ rank l) ∧
      (∀ l hl l' hl', (g l hl).1 = (g l' hl').1 → l = l') ∧
      ∀ l d, (l, d) ∈ s.edges ↔ ∃ hl, d = (g l hl).2 := by
  have hrow : ∀ l, l ∈ done → ∃ p : κ × δ, s.owner p.1 = some l ∧ p ∈ rank l ∧
      findKey Prod.fst l s.edges = some (l, p.2) := by
    intro l hl
    obtain ⟨r, hr, ho⟩ := (h.owns l).mpr hl
    obtain ⟨d, hd, hfind⟩ := h.sound.edge r l hr ho
    exact ⟨(r, d), ho, hd, hfind⟩
  choose g howner hrank hfind using hrow
  refine ⟨g, hrank, fun l hl l' hl' he => ?_, fun l d => ⟨fun hmem => ?_, ?_⟩⟩
  · exact Option.some.inj ((howner l hl).symm.trans (he ▸ howner l' hl'))
  · have hd : findKey Prod.fst l s.edges = some (l, d) := findKey_of_mem h.distinct hmem
    have hl : l ∈ done := by
      by_contra hl
      exact absurd (hd.symm.trans (h.keys l hl)) (Option.some_ne_none _)
    exact ⟨hl, congrArg Prod.snd (Option.some.inj (hd.symm.trans (hfind l hl)))⟩
  · rintro ⟨hl, rfl⟩
    exact mem_of_findKey (hfind l hl)

/-! ## The order of a list -/

theorem perm_iff_exists_equiv {α : Type} {l l' : List α} :
    l.Perm l' ↔ ∃ e : Fin l.length ≃ Fin l'.length, ∀ i, l.get i = l'.get (e i) := by
  constructor
  · intro h
    induction h with
    | nil => exact ⟨Equiv.refl _, fun _ => rfl⟩
    | @cons a l l' _ ih =>
      obtain ⟨e, he⟩ := ih
      refine ⟨(finSuccEquiv l.length).trans (e.optionCongr.trans (finSuccEquiv l'.length).symm), fun i => ?_⟩
      refine Fin.cases ?_ (fun i => ?_) i
      · rfl
      · simpa using he i
    | swap a b l =>
      refine ⟨Equiv.swap 0 1, fun i => ?_⟩
      refine Fin.cases ?_ (fun i => Fin.cases ?_ (fun i => ?_) i) i
      · rfl
      · rfl
      · rw [Equiv.swap_apply_of_ne_of_ne]
        · rfl
        · exact Fin.succ_ne_zero _
        · exact fun h => Fin.succ_ne_zero _ (Fin.succ_injective _ h)
    | trans _ _ ih ih' =>
      obtain ⟨e, he⟩ := ih
      obtain ⟨e', he'⟩ := ih'
      exact ⟨e.trans e', fun i => (he i).trans (he' (e i))⟩
  · rintro ⟨e, he⟩
    have hperm : ((List.finRange l.length).map e).Perm (List.finRange l'.length) := by
      refine (List.perm_ext_iff_of_nodup ((List.nodup_finRange _).map e.injective) (List.nodup_finRange _)).mpr ?_
      intro i
      simp only [List.mem_map, List.mem_finRange, true_and, iff_true]
      exact ⟨e.symm i, e.apply_symm_apply i⟩
    have hl : l = ((List.finRange l.length).map e).map l'.get := by
      rw [List.map_map]
      conv_lhs => rw [← List.map_get_finRange l]
      exact List.map_congr_left fun i _ => he i
    have hmap := hperm.map l'.get
    rw [List.map_get_finRange] at hmap
    exact hl ▸ hmap

section Pairing

variable {α β : Type} {R : α → β → Prop}

/-- The places of two lists correspond, and what stands there is related. -/
def Paired (R : α → β → Prop) (l : List α) (r : List β) : Prop :=
  ∃ e : Fin l.length ≃ Fin r.length, ∀ i, R (l.get i) (r.get (e i))

theorem Paired.perm {l l' : List α} {r r' : List β} (h : Paired R l r) (hl : l'.Perm l) (hr : r.Perm r') :
    Paired R l' r' := by
  obtain ⟨e, he⟩ := h
  obtain ⟨el, hel⟩ := perm_iff_exists_equiv.mp hl
  obtain ⟨er, her⟩ := perm_iff_exists_equiv.mp hr
  refine ⟨el.trans (e.trans er), fun i => ?_⟩
  have h := he (el i)
  rw [← hel, her] at h
  exact h

theorem Paired.symm {l : List α} {r : List β} (h : Paired R l r) : Paired (fun b a => R a b) r l := by
  obtain ⟨e, he⟩ := h
  refine ⟨e.symm, fun i => ?_⟩
  have h := he (e.symm i)
  rwa [e.apply_symm_apply] at h

end Pairing

end Maxim.Library.Matching
