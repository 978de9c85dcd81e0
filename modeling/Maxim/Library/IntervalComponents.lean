import Maxim.Library.IntervalRuns
import Mathlib.Topology.Instances.Real.Lemmas
import Mathlib.Topology.Order.IntermediateValue

/-!
# Blocks of intervals are connected components

The ends of the intervals are whole numbers, and on the line of the reals the
intervals that are not empty make up a set. The blocks are its components.
-/

namespace Maxim.Library.Intervals

open Set

variable {I : Intervals Int} {r s : Int × Int} {d : Int} {x y : ℝ}

/-- What the intervals that are not empty make up, ends included. -/
def union (I : Intervals Int) : Set ℝ := {x | ∃ d, I.Valid d ∧ (I.closes d : ℝ) ≤ x ∧ x ≤ I.opens d}

theorem IsRun.subset_union (h : I.IsRun r) : Icc (I.closes r.1 : ℝ) (I.opens r.2) ⊆ I.union := by
  rintro x ⟨hclose, hopen⟩
  obtain ⟨d, ⟨hvalid, hfirst, hlast, hstarted⟩, hmax⟩ := Int.exists_greatest_of_bdd
    (P := fun d => I.Valid d ∧ r.1 ≤ d ∧ d ≤ r.2 ∧ (I.closes d : ℝ) ≤ x) ⟨r.2, fun _ hd => hd.2.2.1⟩
    ⟨r.1, h.first, le_rfl, h.le, hclose⟩
  refine ⟨d, hvalid, hstarted, ?_⟩
  by_contra hends
  have hends := not_le.mp hends
  have hlt : d < r.2 := by
    by_contra hge
    have hmono : (I.opens r.2 : ℝ) ≤ I.opens d := Int.cast_le.mpr (I.opens_mono (not_lt.mp hge))
    linarith
  obtain ⟨e, f, he, hf, hfr, -, hfvalid, hlink⟩ := h.linked d hfirst hlt
  have hopens : (I.opens e : ℝ) ≤ I.opens d := Int.cast_le.mpr (I.opens_mono he)
  have hcloses : (I.closes f : ℝ) ≤ I.opens e := Int.cast_le.mpr hlink
  have hle := hmax f ⟨hfvalid, by omega, hfr, by linarith⟩
  omega

theorem IsBlock.not_mem_before (h : I.IsBlock r) (hx : (I.closes r.1 : ℝ) - 1 < x)
    (hlt : x < I.closes r.1) : x ∉ I.union := by
  rintro ⟨d, hvalid, hclose, hopen⟩
  have hd : d < r.1 := by
    by_contra hge
    have hmono : (I.closes r.1 : ℝ) ≤ I.closes d := Int.cast_le.mpr (I.closes_mono (not_lt.mp hge))
    linarith
  have hbefore : (I.opens d : ℝ) ≤ (I.closes r.1 - 1 : Int) :=
    Int.cast_le.mpr (Int.le_sub_one_of_lt (h.before d hd hvalid))
  push_cast at hbefore
  linarith

theorem IsBlock.not_mem_after (h : I.IsBlock r) (hx : (I.opens r.2 : ℝ) < x)
    (hlt : x < I.opens r.2 + 1) : x ∉ I.union := by
  rintro ⟨d, hvalid, hclose, hopen⟩
  have hd : r.2 < d := by
    by_contra hge
    have hmono : (I.opens d : ℝ) ≤ I.opens r.2 := Int.cast_le.mpr (I.opens_mono (not_lt.mp hge))
    linarith
  have hafter : ((I.opens r.2 + 1 : Int) : ℝ) ≤ I.closes d :=
    Int.cast_le.mpr (Int.add_one_le_of_lt (h.after d hd hvalid))
  push_cast at hafter
  linarith

theorem IsBlock.connectedComponentIn_eq (h : I.IsBlock r)
    (hx : x ∈ Icc (I.closes r.1 : ℝ) (I.opens r.2)) :
    connectedComponentIn I.union x = Icc (I.closes r.1 : ℝ) (I.opens r.2) := by
  have hself : x ∈ connectedComponentIn I.union x := mem_connectedComponentIn (h.subset_union hx)
  have hconnected : OrdConnected (connectedComponentIn I.union x) :=
    isPreconnected_iff_ordConnected.mp isPreconnected_connectedComponentIn
  refine Subset.antisymm (fun y hy => ⟨?_, ?_⟩)
    (isPreconnected_Icc.subset_connectedComponentIn hx h.subset_union)
  · by_contra hlt
    have hlt := not_le.mp hlt
    have hmem : max y ((I.closes r.1 : ℝ) - 1 / 2) ∈ connectedComponentIn I.union x := by
      refine hconnected.out hy hself ⟨le_max_left _ _, max_le (le_trans hlt.le hx.1) ?_⟩
      linarith [hx.1]
    refine h.not_mem_before ?_ ?_ (connectedComponentIn_subset _ _ hmem)
    · exact lt_of_lt_of_le (by linarith) (le_max_right _ _)
    · exact max_lt hlt (by linarith)
  · by_contra hlt
    have hlt := not_le.mp hlt
    have hmem : min y ((I.opens r.2 : ℝ) + 1 / 2) ∈ connectedComponentIn I.union x := by
      refine hconnected.out hself hy ⟨le_min (le_trans hx.2 hlt.le) ?_, min_le_left _ _⟩
      linarith [hx.2]
    refine h.not_mem_after ?_ ?_ (connectedComponentIn_subset _ _ hmem)
    · exact lt_min hlt (by linarith)
    · exact lt_of_le_of_lt (min_le_right _ _) (by linarith)

theorem IsBlock.mem_iff (h : I.IsBlock r) (hvalid : I.Valid d) :
    r.1 ≤ d ∧ d ≤ r.2 ↔ I.closes r.1 ≤ I.closes d ∧ I.opens d ≤ I.opens r.2 := by
  constructor
  · rintro ⟨hfirst, hlast⟩
    exact ⟨I.closes_mono hfirst, I.opens_mono hlast⟩
  · rintro ⟨hclose, hopen⟩
    have hvalid' : I.closes d < I.opens d := hvalid
    constructor
    · by_contra hlt
      have hbefore := h.before d (not_le.mp hlt) hvalid
      omega
    · by_contra hlt
      have hafter := h.after d (not_le.mp hlt) hvalid
      omega

/-- No interval between the blocks of a list is outside all of them. -/
theorem Shown.exists_block {first last : Int × Int} {runs : List (Int × Int)} (h : I.Shown runs)
    (hfirst : first ∈ runs) (hlast : last ∈ runs) (hvalid : I.Valid d) (hle : first.1 ≤ d)
    (hge : d ≤ last.2) : ∃ r ∈ runs, r.1 ≤ d ∧ d ≤ r.2 := by
  induction runs generalizing first with
  | nil => cases hfirst
  | cons x rest ih =>
    have htail : I.Shown rest := ⟨fun r hr => h.block r (List.mem_cons_of_mem x hr), h.chain.tail⟩
    have hstart : x.1 ≤ d := by
      rcases List.mem_cons.mp hfirst with rfl | hrest
      · exact hle
      · have hgap := (List.pairwise_cons.mp h.sorted).1 first hrest
        have hx := (h.block x List.mem_cons_self).closes_lt_opens
        have hmono := I.closes_mono hle
        by_contra hlt
        have hback := I.closes_mono (le_of_lt (not_le.mp hlt))
        omega
    by_cases hd : d ≤ x.2
    · exact ⟨x, List.mem_cons_self, hstart, hd⟩
    · have hrest : last ∈ rest := by
        rcases List.mem_cons.mp hlast with rfl | hrest
        · exact absurd hge hd
        · exact hrest
      cases rest with
      | nil => cases hrest
      | cons y rest =>
        have hnext := (List.isChain_cons_cons.mp h.chain).1.first_le (not_le.mp hd) hvalid
        obtain ⟨r, hr, hin⟩ := ih htail List.mem_cons_self hrest hnext
        exact ⟨r, List.mem_cons_of_mem x hr, hin⟩

end Maxim.Library.Intervals
