import Maxim.Library.Relation

/-!
# Pages of an ordered table

A query that orders rows by a position and cuts them off after a count returns
an initial part of the rows: what it leaves out lies behind all that it
returns. Of the rows of one key the first is kept.
-/

namespace Maxim.Library

variable {ρ κ π : Type} [LinearOrder π] {pos : ρ → π} {l : List ρ} {n : Nat}

def ByPosition (pos : ρ → π) (a b : ρ) : Prop := pos a ≤ pos b

instance (pos : ρ → π) : DecidableRel (ByPosition pos) :=
  fun a b => inferInstanceAs (Decidable (pos a ≤ pos b))

instance (pos : ρ → π) : Std.Total (ByPosition pos) := ⟨fun a b => le_total (pos a) (pos b)⟩

instance (pos : ρ → π) : IsTrans ρ (ByPosition pos) := ⟨fun _ _ _ => le_trans⟩

def Ascending (pos : ρ → π) (l : List ρ) : Prop := l.Pairwise fun a b => pos a < pos b

theorem Ascending.sublist {l' : List ρ} (h : Ascending pos l) (hs : l'.Sublist l) :
    Ascending pos l' := List.Pairwise.sublist hs h

theorem Ascending.nodup (h : Ascending pos l) : l.Nodup := by
  apply h.imp
  intro a b hab heq
  rw [heq] at hab
  exact lt_irrefl _ hab

theorem ascending_insertionSort (h : (l.map pos).Nodup) :
    Ascending pos (l.insertionSort (ByPosition pos)) := by
  have hsort : (l.insertionSort (ByPosition pos)).Pairwise (ByPosition pos) :=
    List.pairwise_insertionSort _ _
  have hne : (l.insertionSort (ByPosition pos)).Pairwise fun a b => pos a ≠ pos b := by
    have hnodup := ((List.perm_insertionSort (ByPosition pos) l).map pos).nodup_iff.mpr h
    exact List.pairwise_map.mp hnodup
  exact (hsort.and hne).imp fun hab => lt_of_le_of_ne hab.1 hab.2

theorem ascending_firstRows (h : (l.map pos).Nodup) (n : Nat) :
    Ascending pos (firstRows (ByPosition pos) n l) :=
  (ascending_insertionSort h).sublist (List.take_sublist _ _)

theorem length_firstRows_le (le : ρ → ρ → Prop) [DecidableRel le] (n : Nat) (l : List ρ) :
    (firstRows le n l).length ≤ n := by
  rw [firstRows, List.length_take]
  exact Nat.min_le_left _ _

theorem mem_firstRows_of_short {le : ρ → ρ → Prop} [DecidableRel le] {r : ρ}
    (hshort : (firstRows le n l).length < n) (hr : r ∈ l) : r ∈ firstRows le n l := by
  rw [firstRows, List.length_take, List.length_insertionSort] at hshort
  rw [firstRows, List.take_of_length_le (by rw [List.length_insertionSort]; omega)]
  exact (List.perm_insertionSort le l).mem_iff.mpr hr

theorem lt_of_not_mem_firstRows (h : (l.map pos).Nodup) {x r : ρ}
    (hx : x ∈ firstRows (ByPosition pos) n l) (hr : r ∈ l)
    (hnot : r ∉ firstRows (ByPosition pos) n l) : pos x < pos r := by
  have hsort := ascending_insertionSort h
  have hmem : r ∈ l.insertionSort (ByPosition pos) := (List.perm_insertionSort _ l).mem_iff.mpr hr
  rw [Ascending, ← List.take_append_drop n (l.insertionSort (ByPosition pos))] at hsort
  rw [← List.take_append_drop n (l.insertionSort (ByPosition pos)), List.mem_append] at hmem
  exact (List.pairwise_append.mp hsort).2.2 x hx r (hmem.resolve_left hnot)

theorem firstRows_ne_nil {le : ρ → ρ → Prop} [DecidableRel le] (hn : 0 < n) {r : ρ} (hr : r ∈ l) :
    firstRows le n l ≠ [] := by
  intro hnil
  have hshort : (firstRows le n l).length < n := by rw [hnil]; exact hn
  have hmem := mem_firstRows_of_short hshort hr
  rw [hnil] at hmem
  simp at hmem

theorem head_firstRows {x : ρ} (h : (firstRows (ByPosition pos) 1 l).head? = some x) :
    x ∈ l ∧ ∀ y ∈ l, pos x ≤ pos y := by
  rw [firstRows, List.head?_take, if_neg (by decide)] at h
  obtain ⟨rest, hrest⟩ := List.head?_eq_some_iff.mp h
  have hperm := List.perm_insertionSort (ByPosition pos) l
  have hsort : (l.insertionSort (ByPosition pos)).Pairwise (ByPosition pos) :=
    List.pairwise_insertionSort _ _
  rw [hrest] at hperm hsort
  refine ⟨hperm.mem_iff.mp List.mem_cons_self, fun y hy => ?_⟩
  rcases List.mem_cons.mp (hperm.mem_iff.mpr hy) with rfl | hy
  · exact le_refl _
  · exact (List.pairwise_cons.mp hsort).1 y hy

theorem exists_head_firstRows (pos : ρ → π) {r : ρ} (hr : r ∈ l) :
    ∃ x, (firstRows (ByPosition pos) 1 l).head? = some x :=
  Option.ne_none_iff_exists'.mp fun hnone =>
    firstRows_ne_nil Nat.one_pos hr (List.head?_eq_none_iff.mp hnone)

section Distinct

variable [DecidableEq κ] {key : ρ → κ}

/-- `DISTINCT ON`: of the rows of each key the first. -/
def distinctOn (key : ρ → κ) : List ρ → List ρ
  | [] => []
  | r :: rest => r :: (distinctOn key rest).filter fun x => key x ≠ key r

theorem distinctOn_sublist (key : ρ → κ) (l : List ρ) : (distinctOn key l).Sublist l := by
  induction l with
  | nil => exact List.Sublist.refl _
  | cons r rest ih => exact (List.filter_sublist.trans ih).cons_cons r

theorem mem_distinctOn (h : Ascending pos l) {r : ρ} (hr : r ∈ l)
    (hfirst : ∀ x ∈ l, key x = key r → pos r ≤ pos x) : r ∈ distinctOn key l := by
  induction l with
  | nil => simp at hr
  | cons a rest ih =>
    rw [Ascending, List.pairwise_cons] at h
    rcases List.mem_cons.mp hr with rfl | hr
    · exact List.mem_cons_self
    · have hne : key r ≠ key a := by
        intro heq
        have hle := hfirst a List.mem_cons_self heq.symm
        exact absurd (h.1 r hr) (not_lt.mpr hle)
      refine List.mem_cons_of_mem _ (List.mem_filter.mpr ⟨?_, by simpa using hne⟩)
      exact ih h.2 hr fun x hx => hfirst x (List.mem_cons_of_mem _ hx)

end Distinct

end Maxim.Library
