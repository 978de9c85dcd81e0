import Mathlib.Order.Monotone.Basic
import Mathlib.Data.List.Chain
import Mathlib.Data.Int.Order.Basic
import Mathlib.Data.Int.ConditionallyCompleteOrder
import Mathlib.Order.ConditionallyCompleteLattice.Basic

/-!
# Blocks of overlapping intervals

A sequence of intervals whose ends never step back; an interval may be empty.
Intervals that touch make up a block. A list that shows only a part of the
sequence cannot be trusted at its ends, but the blocks inside it are the blocks
of the whole sequence, and so is everything that can be said about the blocks
around an instant.
-/

namespace Maxim.Library

/-- Intervals `[closes d, opens d)`, neither end of which steps back. -/
structure Intervals (α : Type) [LinearOrder α] where
  closes : Int → α
  opens : Int → α
  closes_mono : Monotone closes
  opens_mono : Monotone opens

namespace Intervals

variable {α : Type} [LinearOrder α] (I : Intervals α)

def Valid (d : Int) : Prop := I.closes d < I.opens d

instance (d : Int) : Decidable (I.Valid d) := inferInstanceAs (Decidable (_ < _))

/-- The intervals from the first to the last of `r` leave no gap between them. -/
structure IsRun (r : Int × Int) : Prop where
  le : r.1 ≤ r.2
  first : I.Valid r.1
  last : I.Valid r.2
  linked : ∀ d, r.1 ≤ d → d < r.2 → ∃ e f, e ≤ d ∧ d < f ∧ f ≤ r.2 ∧
    I.Valid e ∧ I.Valid f ∧ I.closes f ≤ I.opens e

/-- A run that no interval outside touches. -/
structure IsBlock (r : Int × Int) : Prop extends I.IsRun r where
  before : ∀ d, d < r.1 → I.Valid d → I.opens d < I.closes r.1
  after : ∀ d, r.2 < d → I.Valid d → I.opens r.2 < I.closes d

/-- `s` starts with the next interval after `r`, and after a gap. -/
structure Follows (r s : Int × Int) : Prop where
  lt : r.2 < s.1
  next : ∀ d, r.2 < d → d < s.1 → ¬ I.Valid d
  gap : I.opens r.2 < I.closes s.1

variable {I} {r s r' s' : Int × Int} {d : Int}

theorem Follows.before (h : I.Follows r s) : ∀ d, d < s.1 → I.Valid d → I.opens d < I.closes s.1 := by
  intro d hlt hvalid
  have hle : d ≤ r.2 := by
    by_contra hgt
    exact h.next d (Int.not_le.mp hgt) hlt hvalid
  exact lt_of_le_of_lt (I.opens_mono hle) h.gap

theorem Follows.after (h : I.Follows r s) : ∀ d, r.2 < d → I.Valid d → I.opens r.2 < I.closes d := by
  intro d hlt hvalid
  have hle : s.1 ≤ d := by
    by_contra hgt
    exact h.next d hlt (Int.not_le.mp hgt) hvalid
  exact lt_of_lt_of_le h.gap (I.closes_mono hle)

theorem IsRun.isBlock (h : I.IsRun s) (hr : I.Follows r s) (hr' : I.Follows s r') : I.IsBlock s :=
  { h with before := hr.before, after := hr'.after }

theorem IsRun.closes_lt_opens (h : I.IsRun r) : I.closes r.1 < I.opens r.2 :=
  lt_of_lt_of_le h.first (I.opens_mono h.le)

theorem IsRun.extend (h : I.IsRun r) (hlt : r.2 < d) (hvalid : I.Valid d)
    (hlink : I.closes d ≤ I.opens r.2) : I.IsRun (r.1, d) where
  le := Int.le_trans h.le (Int.le_of_lt hlt)
  first := h.first
  last := hvalid
  linked := by
    intro c hle hc
    by_cases hin : c < r.2
    · obtain ⟨e, f, he, hf, hlast, hvalids⟩ := h.linked c hle hin
      exact ⟨e, f, he, hf, Int.le_trans hlast (Int.le_of_lt hlt), hvalids⟩
    · exact ⟨r.2, d, Int.not_lt.mp hin, hc, Int.le_refl _, h.last, hvalid, hlink⟩

theorem isRun_single (h : I.Valid d) : I.IsRun (d, d) where
  le := Int.le_refl _
  first := h
  last := h
  linked := fun _ hle hlt => absurd (Int.lt_of_le_of_lt hle hlt) (Int.lt_irrefl d)

theorem IsBlock.disjoint (h : I.IsBlock r) (h' : I.IsBlock s) (hlt : r.1 < s.1) : r.2 < s.1 := by
  by_contra hle
  obtain ⟨e, f, he, hf, -, hvalid, -, hclose⟩ := h.linked (s.1 - 1) (by omega) (by omega)
  have hbefore := h'.before e (by omega) hvalid
  have hcloses := I.closes_mono (show s.1 ≤ f by omega)
  exact absurd (lt_of_lt_of_le hbefore hcloses) (not_lt.mpr hclose)

theorem IsBlock.last_le (h : I.IsBlock r) (h' : I.IsBlock s) (heq : r.1 = s.1) : s.2 ≤ r.2 := by
  by_contra hlt
  obtain ⟨e, f, he, hf, -, -, hvalid, hclose⟩ := h'.linked r.2 (heq ▸ h.le) (by omega)
  have hafter := h.after f hf hvalid
  have hopens := I.opens_mono he
  exact absurd (lt_of_le_of_lt hopens hafter) (not_lt.mpr hclose)

theorem IsBlock.eq_of_first (h : I.IsBlock r) (h' : I.IsBlock s) (heq : r.1 = s.1) : r = s :=
  Prod.ext heq (Int.le_antisymm (h'.last_le h heq.symm) (h.last_le h' heq))

theorem IsBlock.eq_of_last (h : I.IsBlock r) (h' : I.IsBlock s) (heq : r.2 = s.2) : r = s := by
  rcases Int.lt_trichotomy r.1 s.1 with hlt | hfirst | hgt
  · have hle := h'.le
    have hdisjoint := h.disjoint h' hlt
    omega
  · exact h.eq_of_first h' hfirst
  · have hle := h.le
    have hdisjoint := h'.disjoint h hgt
    omega

theorem Follows.first_le (h : I.Follows r s) (hlt : r.2 < d) (hvalid : I.Valid d) : s.1 ≤ d :=
  Int.not_lt.mp fun hd => h.next d hlt hd hvalid

theorem Follows.le_last (h : I.Follows r s) (hlt : d < s.1) (hvalid : I.Valid d) : d ≤ r.2 :=
  Int.not_lt.mp fun hd => h.next d hd hlt hvalid

/-! ## The blocks around an instant -/

/-- `t` falls between the starts of the blocks `c` and `n`, and `p` comes before `c`. -/
structure Around (I : Intervals α) (t : α) (p c n : Int × Int) : Prop where
  prior : I.IsBlock p
  current : I.IsBlock c
  next : I.IsBlock n
  priorCurrent : I.Follows p c
  currentNext : I.Follows c n
  started : I.closes c.1 ≤ t
  early : t < I.closes n.1

variable {t t' : α} {p c n p' c' n' : Int × Int}

theorem Around.le_current (h : I.Around t p c n) (hblock : I.IsBlock r) (hstarted : I.closes r.1 ≤ t) :
    r.1 ≤ c.1 := by
  by_contra hlt
  have hdisjoint := h.current.disjoint hblock (Int.not_le.mp hlt)
  have hfirst := h.currentNext.first_le hdisjoint hblock.first
  exact absurd (lt_of_lt_of_le h.early (I.closes_mono hfirst)) (not_lt.mpr hstarted)

theorem Around.unique (h : I.Around t p c n) (h' : I.Around t p' c' n') :
    p = p' ∧ c = c' ∧ n = n' := by
  have hcurrent : c = c' :=
    h.current.eq_of_first h'.current (Int.le_antisymm (h'.le_current h.current h.started)
      (h.le_current h'.current h'.started))
  subst hcurrent
  refine ⟨h.prior.eq_of_last h'.prior (Int.le_antisymm ?_ ?_), rfl,
    h.next.eq_of_first h'.next (Int.le_antisymm ?_ ?_)⟩
  · exact h'.priorCurrent.le_last h.priorCurrent.lt h.prior.last
  · exact h.priorCurrent.le_last h'.priorCurrent.lt h'.prior.last
  · exact h.currentNext.first_le h'.currentNext.lt h'.next.first
  · exact h'.currentNext.first_le h.currentNext.lt h.next.first

theorem Around.later (h : I.Around t p c n) (hle : t ≤ t') (hlt : t' < I.closes n.1) :
    I.Around t' p c n :=
  { h with started := le_trans h.started hle, early := hlt }

theorem Around.eq_current (h : I.Around t p c n) (hblock : I.IsBlock r) (hstarted : I.closes r.1 ≤ t)
    (hends : t ≤ I.opens r.2) : r = c := by
  refine hblock.eq_of_first h.current (Int.le_antisymm (h.le_current hblock hstarted) ?_)
  by_contra hgt
  have hlt := Int.not_le.mp hgt
  have hdisjoint := hblock.disjoint h.current hlt
  have hafter := hblock.after c.1 hdisjoint h.current.first
  exact absurd (lt_of_lt_of_le hafter h.started) (not_lt.mpr hends)

theorem Around.next_le (h : I.Around t p c n) (hblock : I.IsBlock r) (hlater : t < I.closes r.1) :
    n.1 ≤ r.1 := by
  refine h.currentNext.first_le ?_ hblock.first
  by_contra hle
  have hclose := lt_of_le_of_lt h.started hlater
  have hfirst : c.1 < r.1 := Int.not_le.mp fun hr =>
    absurd hclose (not_lt.mpr (I.closes_mono hr))
  have hdisjoint := h.current.disjoint hblock hfirst
  omega

/-! ## What the intervals cover -/

def Covers (I : Intervals α) (t : α) : Prop := ∃ d, I.closes d ≤ t ∧ t < I.opens d

theorem IsRun.covers (h : I.IsRun r) (hclose : I.closes r.1 ≤ t) (hopen : t < I.opens r.2) :
    I.Covers t := by
  obtain ⟨d, ⟨hfirst, hlast, hstarted⟩, hmax⟩ := Int.exists_greatest_of_bdd
    (P := fun d => r.1 ≤ d ∧ d ≤ r.2 ∧ I.closes d ≤ t) ⟨r.2, fun _ hd => hd.2.1⟩
    ⟨r.1, Int.le_refl _, h.le, hclose⟩
  refine ⟨d, hstarted, ?_⟩
  by_contra hends
  have hends := not_lt.mp hends
  have hlt : d < r.2 := by
    by_contra hge
    exact absurd hopen (not_lt.mpr (le_trans (I.opens_mono (Int.not_lt.mp hge)) hends))
  obtain ⟨e, f, he, hf, hfr, -, -, hlink⟩ := h.linked d hfirst hlt
  have hfclose : I.closes f ≤ t := le_trans hlink (le_trans (I.opens_mono he) hends)
  have hle := hmax f ⟨by omega, hfr, hfclose⟩
  omega

theorem IsBlock.not_covers_end (h : I.IsBlock r) : ¬ I.Covers (I.opens r.2) := by
  rintro ⟨d, hclose, hopen⟩
  by_cases hd : d ≤ r.2
  · exact absurd hopen (not_lt.mpr (I.opens_mono hd))
  · have hafter := h.after d (Int.not_le.mp hd) (lt_of_le_of_lt hclose hopen)
    exact absurd hclose (not_le.mpr hafter)

theorem Around.covers_iff (h : I.Around t p c n) : I.Covers t ↔ t < I.opens c.2 := by
  constructor
  · rintro ⟨d, hclose, hopen⟩
    have hvalid : I.Valid d := lt_of_le_of_lt hclose hopen
    have hd : d ≤ c.2 := by
      by_contra hlt
      have hfirst := h.currentNext.first_le (Int.not_le.mp hlt) hvalid
      exact absurd (le_trans (I.closes_mono hfirst) hclose) (not_le.mpr h.early)
    exact lt_of_lt_of_le hopen (I.opens_mono hd)
  · exact h.current.covers h.started

/-! ## A list of blocks -/

/-- A list of blocks without a block left out. -/
structure Shown (I : Intervals α) (runs : List (Int × Int)) : Prop where
  block : ∀ r ∈ runs, I.IsBlock r
  chain : runs.IsChain I.Follows

theorem Shown.exists_around {x y : Int × Int} {rest : List (Int × Int)} (h : I.Shown (x :: y :: rest))
    (hstarted : I.closes y.1 ≤ t) (hearly : t < I.closes ((y :: rest).getLast (List.cons_ne_nil _ _)).1) :
    ∃ before p c n after, x :: y :: rest = before ++ p :: c :: n :: after ∧ I.Around t p c n := by
  induction rest generalizing x y with
  | nil => exact absurd hearly (not_lt.mpr hstarted)
  | cons z rest ih =>
    have hxy : I.Follows x y := by
      have hchain := h.chain
      rw [List.isChain_cons_cons] at hchain
      exact hchain.1
    have htail : I.Shown (y :: z :: rest) :=
      ⟨fun r hr => h.block r (List.mem_cons_of_mem x hr), h.chain.tail⟩
    have hyz : I.Follows y z := by
      have hchain := htail.chain
      rw [List.isChain_cons_cons] at hchain
      exact hchain.1
    by_cases hz : I.closes z.1 ≤ t
    · rw [List.getLast_cons (List.cons_ne_nil _ _)] at hearly
      obtain ⟨before, p, c, n, after, heq, haround⟩ := ih htail hz hearly
      exact ⟨x :: before, p, c, n, after, congrArg (x :: ·) heq, haround⟩
    · exact ⟨[], x, y, z, rest, rfl,
        { prior := h.block x List.mem_cons_self
          current := h.block y (by simp)
          next := h.block z (by simp)
          priorCurrent := hxy
          currentNext := hyz
          started := hstarted
          early := not_le.mp hz }⟩

theorem Shown.sorted {runs : List (Int × Int)} (h : I.Shown runs) :
    runs.Pairwise fun r s => I.opens r.2 < I.closes s.1 := by
  induction runs with
  | nil => exact .nil
  | cons x rest ih =>
    have htail := ih ⟨fun r hr => h.block r (List.mem_cons_of_mem x hr), h.chain.tail⟩
    refine List.pairwise_cons.mpr ⟨fun s hs => ?_, htail⟩
    cases rest with
    | nil => cases hs
    | cons y rest =>
      have hxy : I.opens x.2 < I.closes y.1 := (List.isChain_cons_cons.mp h.chain).1.gap
      rcases List.mem_cons.mp hs with rfl | hs
      · exact hxy
      · have hy : I.closes y.1 < I.opens y.2 := (h.block y (by simp)).closes_lt_opens
        have hys := (List.pairwise_cons.mp htail).1 s hs
        exact lt_trans hxy (lt_trans hy hys)

theorem shown_interior {runs : List (Int × Int)} (hrun : ∀ r ∈ runs, I.IsRun r)
    (hchain : runs.IsChain I.Follows) : I.Shown runs.tail.dropLast := by
  refine ⟨?_, hchain.tail.dropLast⟩
  cases runs with
  | nil => simp
  | cons x rest =>
    rw [List.tail_cons]
    induction rest generalizing x with
    | nil => simp
    | cons y rest ih =>
      cases rest with
      | nil => simp
      | cons z rest =>
        intro r hr
        obtain ⟨hxy, hrest⟩ := List.isChain_cons_cons.mp hchain
        obtain ⟨hyz, -⟩ := List.isChain_cons_cons.mp hrest
        rw [List.dropLast_cons_of_ne_nil (List.cons_ne_nil z rest)] at hr
        rcases List.mem_cons.mp hr with rfl | hr
        · exact (hrun r (by simp)).isBlock hxy hyz
        · exact ih y (fun s hs => hrun s (List.mem_cons_of_mem x hs)) hrest r hr

end Intervals

end Maxim.Library
