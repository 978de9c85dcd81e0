import Maxim.Library.Levelling
import Maxim.Max.TextMarkup.Ranges
import Mathlib.Data.List.Induction

/-!
# The active ranges

Of the ranges with the same delimiters one stands for all, and of the anchors
one stays. What is left is in the order of the priorities.
-/

namespace Maxim.Max.TextMarkup

open Maxim.Library Maxim.Library.Html

def MarkupRange.length (range : MarkupRange) : Nat := range.stop - range.start

def MarkupRange.Before (a b : MarkupRange) : Prop :=
  a.length < b.length ∨ (a.length = b.length ∧ b.start < a.start)

def Sound (ranges : List MarkupRange) : Prop := ∀ r ∈ ranges, r.start ≤ r.stop ∧ r.monospaced = false

variable {a b : MarkupRange}

theorem before_trans {c : MarkupRange} (h : a.Before b) (h' : b.Before c) : a.Before c := by
  unfold MarkupRange.Before at *
  omega

theorem eq_of_not_before (ha : a.start ≤ a.stop ∧ a.monospaced = false)
    (hb : b.start ≤ b.stop ∧ b.monospaced = false) (hkey : a.delimiters = b.delimiters) (h : ¬ a.Before b)
    (h' : ¬ b.Before a) : a = b := by
  unfold MarkupRange.Before MarkupRange.length at h h'
  rcases a with ⟨start, stop, opening, closing, priority, monospaced⟩
  rcases b with ⟨start', stop', opening', closing', priority', monospaced'⟩
  obtain ⟨rfl, rfl, rfl⟩ := Delimiters.mk.inj hkey
  simp only at ha hb h h'
  rw [MarkupRange.mk.injEq]
  exact ⟨by omega, by omega, rfl, rfl, rfl, ha.2.trans hb.2.symm⟩

def Stands (ranges : List MarkupRange) (a : MarkupRange) : Prop :=
  a ∈ ranges ∧ ∀ r ∈ ranges, r.delimiters = a.delimiters → ¬ r.Before a

theorem deduplicate_snoc (ranges : List MarkupRange) (x : MarkupRange) :
    deduplicate (ranges ++ [x]) =
      match findKey MarkupRange.delimiters x.delimiters (deduplicate ranges) with
      | none => upsert MarkupRange.delimiters x (deduplicate ranges)
      | some current =>
        if x.length < current.length ∨ (x.length = current.length ∧ current.start < x.start) then
          upsert MarkupRange.delimiters x (deduplicate ranges)
        else deduplicate ranges := by
  unfold deduplicate
  rw [List.foldl_append]
  rfl

/-- The deduplicated ranges are the ones that stand for their delimiters, one for each. -/
theorem deduplicate_spec {ranges : List MarkupRange} (hsound : Sound ranges) :
    ((deduplicate ranges).map MarkupRange.delimiters).Nodup ∧ (∀ a, a ∈ deduplicate ranges ↔ Stands ranges a) ∧
      ∀ r ∈ ranges, ∃ a ∈ deduplicate ranges, a.delimiters = r.delimiters := by
  induction ranges using List.reverseRecOn with
  | nil => exact ⟨List.nodup_nil, fun a => ⟨fun h => absurd h List.not_mem_nil, fun h => h.1⟩, fun r hr => by cases hr⟩
  | append_singleton ranges x ih =>
    have hold : Sound ranges := fun r hr => hsound r (List.mem_append_left _ hr)
    have hx := hsound x (List.mem_append_right ranges List.mem_cons_self)
    obtain ⟨hnodup, hmem, hkeys⟩ := ih hold
    have hsnoc : ∀ a, Stands (ranges ++ [x]) a ↔ (a ∈ ranges ∨ a = x) ∧
        (∀ r ∈ ranges, r.delimiters = a.delimiters → ¬ r.Before a) ∧ (x.delimiters = a.delimiters → ¬ x.Before a) := by
      intro a
      unfold Stands
      simp only [List.mem_append, List.mem_singleton, or_imp, forall_and, forall_eq]
    have hself : ∀ a : MarkupRange, ¬ a.Before a := by
      intro a h
      unfold MarkupRange.Before at h
      omega
    rw [deduplicate_snoc]
    -- what an upsert of `x` gives when `x` comes before the range that stands for its delimiters
    have hupsert (h : ∀ a ∈ deduplicate ranges, a.delimiters = x.delimiters → x.Before a) :
        ((upsert MarkupRange.delimiters x (deduplicate ranges)).map MarkupRange.delimiters).Nodup ∧
          (∀ a, a ∈ upsert MarkupRange.delimiters x (deduplicate ranges) ↔ Stands (ranges ++ [x]) a) ∧
          ∀ r ∈ ranges ++ [x], ∃ a ∈ upsert MarkupRange.delimiters x (deduplicate ranges),
            a.delimiters = r.delimiters := by
      refine ⟨nodup_upsert x hnodup, fun a => ?_, fun r hr => ?_⟩
      · rw [mem_upsert_iff hnodup, hsnoc]
        constructor
        · rintro (rfl | ⟨ha, hne⟩)
          · refine ⟨.inr rfl, fun r hr hkey hbefore => ?_, fun _ => hself a⟩
            obtain ⟨b, hb, hbr⟩ := hkeys r hr
            exact ((hmem b).mp hb).2 r hr hbr.symm (before_trans hbefore (h b hb (hbr.trans hkey)))
          · exact ⟨.inl ((hmem a).mp ha).1, ((hmem a).mp ha).2, fun hkey => absurd hkey.symm hne⟩
        · rintro ⟨ha | rfl, hstands, hlast⟩
          · have haold := (hmem a).mpr ⟨ha, hstands⟩
            by_cases hkey : a.delimiters = x.delimiters
            · exact absurd (h a haold hkey) (hlast hkey.symm)
            · exact .inr ⟨haold, hkey⟩
          · exact .inl rfl
      · rcases List.mem_append.mp hr with hr | hr
        · obtain ⟨a, ha, har⟩ := hkeys r hr
          by_cases hkey : a.delimiters = x.delimiters
          · exact ⟨x, (mem_upsert_iff hnodup).mpr (.inl rfl), hkey.symm.trans har⟩
          · exact ⟨a, (mem_upsert_iff hnodup).mpr (.inr ⟨ha, hkey⟩), har⟩
        · exact ⟨x, (mem_upsert_iff hnodup).mpr (.inl rfl), by rw [List.mem_singleton.mp hr]⟩
    split
    · next hfind =>
      apply hupsert
      intro a ha hkey
      rw [← hkey, findKey_of_mem hnodup ha] at hfind
      cases hfind
    · next current hfind =>
      have hcurrent := mem_of_findKey hfind
      have hkey := key_of_findKey hfind
      have honly : ∀ a ∈ deduplicate ranges, a.delimiters = x.delimiters → a = current := by
        intro a ha hax
        have := findKey_of_mem hnodup ha
        rw [hax, hfind] at this
        exact (Option.some.inj this).symm
      split
      · next hbefore =>
        apply hupsert
        intro a ha hax
        rw [honly a ha hax]
        exact hbefore
      · next hbefore =>
        refine ⟨hnodup, fun a => ?_, fun r hr => ?_⟩
        · rw [hsnoc, hmem]
          constructor
          · rintro ⟨ha, hstands⟩
            refine ⟨.inl ha, hstands, fun hax => ?_⟩
            rw [honly a ((hmem a).mpr ⟨ha, hstands⟩) hax.symm]
            exact hbefore
          · rintro ⟨ha | rfl, hstands, -⟩
            · exact ⟨ha, hstands⟩
            · have hcur := ((hmem current).mp hcurrent).1
              rw [eq_of_not_before hx (hold current hcur) hkey.symm hbefore (hstands current hcur hkey)]
              exact (hmem current).mp hcurrent
        · rcases List.mem_append.mp hr with hr | hr
          · exact hkeys r hr
          · rw [List.mem_singleton.mp hr]
            exact ⟨current, hcurrent, hkey⟩

theorem deduplicate_nodup {ranges : List MarkupRange} (hsound : Sound ranges) : (deduplicate ranges).Nodup :=
  List.Nodup.of_map _ (deduplicate_spec hsound).1

theorem deduplicate_perm {ranges ranges' : List MarkupRange} (hsound : Sound ranges) (hperm : ranges.Perm ranges') :
    (deduplicate ranges).Perm (deduplicate ranges') := by
  have hsound' : Sound ranges' := fun r hr => hsound r (hperm.mem_iff.mpr hr)
  rw [List.perm_ext_iff_of_nodup (deduplicate_nodup hsound) (deduplicate_nodup hsound')]
  intro a
  rw [(deduplicate_spec hsound).2.1, (deduplicate_spec hsound').2.1]
  unfold Stands
  simp only [hperm.mem_iff]

/-! ## The anchor -/

variable {host : Host}

def sortedAnchors (host : Host) (ranges : List MarkupRange) : List MarkupRange :=
  ((deduplicate ranges).filter (·.isAnchor)).insertionSort fun left right => anchorOrder host left right ≤ 0

theorem mem_sortedAnchors {ranges : List MarkupRange} :
    a ∈ sortedAnchors host ranges ↔ a ∈ deduplicate ranges ∧ a.isAnchor = true := by
  unfold sortedAnchors
  rw [List.mem_insertionSort, List.mem_filter]

theorem mem_canonicalizeActiveMarkupRanges {ranges : List MarkupRange} :
    a ∈ canonicalizeActiveMarkupRanges host ranges ↔
      a ∈ deduplicate ranges ∧ (a.isAnchor = false ∨ (sortedAnchors host ranges).head? = some a) := by
  unfold canonicalizeActiveMarkupRanges
  rw [List.mem_insertionSort, List.mem_filter, Bool.or_eq_true, Bool.not_eq_true', decide_eq_true_iff, eq_comm (a := some a)]
  rfl

theorem anchorOrder_le_zero {left right : MarkupRange} : anchorOrder host left right ≤ 0 ↔
    (left.stop : Int) - left.start < right.stop - right.start ∨
      ((left.stop : Int) - left.start = right.stop - right.start ∧
        (right.start < left.start ∨
          (right.start = left.start ∧ host.localeCompare left.opening right.opening ≤ 0))) := by
  unfold anchorOrder
  simp only
  split
  · omega
  split
  · omega
  · omega

/-- The first of the sorted anchors is a shortest one. -/
theorem length_le_of_head {ranges : List MarkupRange} (hsound : Sound ranges) {r : MarkupRange}
    (hhead : (sortedAnchors host ranges).head? = some a) (hr : r ∈ deduplicate ranges) (hanchor : r.isAnchor = true) :
    a.length ≤ r.length := by
  have hsorted : (sortedAnchors host ranges).Pairwise fun left right : MarkupRange =>
      (left.stop : Int) - left.start ≤ right.stop - right.start := by
    apply Levelling.pairwise_insertionSort_of_respects
    · intro a b c h h'
      omega
    · intro a b h
      have := anchorOrder_le_zero.mp h
      omega
    · intro a b h
      have := mt anchorOrder_le_zero.mpr h
      omega
  have hmem : r ∈ sortedAnchors host ranges := mem_sortedAnchors.mpr ⟨hr, hanchor⟩
  have hle : (a.stop : Int) - a.start ≤ r.stop - r.start := by
    cases hlist : sortedAnchors host ranges with
    | nil =>
      rw [hlist] at hhead
      cases hhead
    | cons b rest =>
      rw [hlist] at hhead hmem hsorted
      obtain rfl := Option.some.inj hhead
      rcases List.mem_cons.mp hmem with rfl | hmem
      · exact Int.le_refl _
      · exact (List.pairwise_cons.mp hsorted).1 r hmem
  have ha := mem_sortedAnchors.mp (List.mem_of_mem_head? hhead)
  have hsa := hsound a (((deduplicate_spec hsound).2.1 a).mp ha.1).1
  have hsr := hsound r (((deduplicate_spec hsound).2.1 r).mp hr).1
  unfold MarkupRange.length
  omega

/-- What the active ranges are. -/
structure Canonical (ranges active : List MarkupRange) : Prop where
  mem : ∀ a ∈ active, a ∈ ranges
  other : ∀ r ∈ ranges, r.isAnchor = false → ∃ a ∈ active, a.delimiters = r.delimiters
  anchor : ∀ r ∈ ranges, r.isAnchor = true → ∃ a ∈ active, a.isAnchor = true ∧ a.length ≤ r.length
  one : ∀ a ∈ active, ∀ b ∈ active, a.isAnchor = true → b.isAnchor = true → a = b
  nodup : active.Nodup

theorem canonicalize_canonical {ranges : List MarkupRange} (hsound : Sound ranges) :
    Canonical ranges (canonicalizeActiveMarkupRanges host ranges) := by
  obtain ⟨-, hmem, hkeys⟩ := deduplicate_spec hsound
  constructor
  · intro a ha
    exact ((hmem a).mp (mem_canonicalizeActiveMarkupRanges.mp ha).1).1
  · intro r hr hanchor
    obtain ⟨a, ha, hkey⟩ := hkeys r hr
    have hopening : a.opening = r.opening := congrArg Delimiters.opening hkey
    refine ⟨a, mem_canonicalizeActiveMarkupRanges.mpr ⟨ha, .inl ?_⟩, hkey⟩
    unfold MarkupRange.isAnchor at *
    rw [hopening]
    exact hanchor
  · intro r hr hanchor
    obtain ⟨b, hb, hkey⟩ := hkeys r hr
    have hopening : b.opening = r.opening := congrArg Delimiters.opening hkey
    have hanchor' : b.isAnchor = true := by
      unfold MarkupRange.isAnchor at *
      rw [hopening]
      exact hanchor
    have hne : sortedAnchors host ranges ≠ [] := List.ne_nil_of_mem (mem_sortedAnchors.mpr ⟨hb, hanchor'⟩)
    obtain ⟨a, hhead⟩ := Option.isSome_iff_exists.mp (List.isSome_head?.mpr hne)
    have ha := mem_sortedAnchors.mp (List.mem_of_mem_head? hhead)
    have hle := length_le_of_head hsound hhead hb hanchor'
    have hbefore := ((hmem b).mp hb).2 r hr hkey.symm
    have hbr : b.length ≤ r.length := by
      unfold MarkupRange.Before at hbefore
      omega
    exact ⟨a, mem_canonicalizeActiveMarkupRanges.mpr ⟨ha.1, .inr hhead⟩, ha.2, Nat.le_trans hle hbr⟩
  · intro a ha b hb hanchor hanchor'
    have ha := (mem_canonicalizeActiveMarkupRanges.mp ha).2
    have hb := (mem_canonicalizeActiveMarkupRanges.mp hb).2
    rw [hanchor] at ha
    rw [hanchor'] at hb
    have ha := ha.resolve_left Bool.noConfusion
    have hb := hb.resolve_left Bool.noConfusion
    exact Option.some.inj (ha.symm.trans hb)
  · unfold canonicalizeActiveMarkupRanges
    rw [(List.perm_insertionSort _ _).nodup_iff]
    exact (deduplicate_nodup hsound).filter _

/-! ## The order of the ranges does not matter -/

/-- A consistent comparison that tells the anchors of safe targets apart. -/
structure LocaleOrder (host : Host) : Prop where
  swap : ∀ a b, 0 < host.localeCompare a b ↔ host.localeCompare b a < 0
  trans : ∀ a b c, host.localeCompare a b ≤ 0 → host.localeCompare b c ≤ 0 → host.localeCompare a c ≤ 0
  separates : ∀ value value' target target', normalizeSafeMarkupUrl host value = some target →
    normalizeSafeMarkupUrl host value' = some target' →
    host.localeCompare (anchorDelimiters target).opening (anchorDelimiters target').opening = 0 → target = target'

theorem pairwise_sortedAnchors (hlocale : LocaleOrder host) (ranges : List MarkupRange) :
    (sortedAnchors host ranges).Pairwise fun left right => anchorOrder host left right ≤ 0 := by
  apply Levelling.pairwise_insertionSort_of_respects
  · intro a b c h h'
    rw [anchorOrder_le_zero] at *
    have htrans := hlocale.trans a.opening b.opening c.opening
    omega
  · exact fun a b h => h
  · intro a b h
    rw [anchorOrder_le_zero] at *
    have hswap := hlocale.swap a.opening b.opening
    omega

variable {text : Units} {markup : List MaxTextMarkup} {ranges ranges' : List MarkupRange}

theorem sound_of_subset (hsub : ∀ r ∈ ranges, r ∈ htmlRanges host text markup) : Sound ranges := fun r hr =>
  ⟨Nat.le_of_lt (range_lt (hsub r hr)).1, (range_lt (hsub r hr)).2.2⟩

theorem eq_of_delimiters (hsound : Sound ranges) (ha : a ∈ deduplicate ranges)
    (hb : b ∈ deduplicate ranges) (hkey : a.delimiters = b.delimiters) : a = b := by
  have hnodup := (deduplicate_spec hsound).1
  have h := findKey_of_mem hnodup ha
  rw [hkey, findKey_of_mem hnodup hb] at h
  exact (Option.some.inj h).symm

theorem eq_of_anchorOrder (hlocale : LocaleOrder host) (hsub : ∀ r ∈ ranges, r ∈ htmlRanges host text markup)
    (ha : a ∈ sortedAnchors host ranges) (hb : b ∈ sortedAnchors host ranges)
    (h : anchorOrder host a b ≤ 0) (h' : anchorOrder host b a ≤ 0) : a = b := by
  have hsound := sound_of_subset hsub
  have hmem := (deduplicate_spec hsound).2.1
  obtain ⟨ha, hanchor⟩ := mem_sortedAnchors.mp ha
  obtain ⟨hb, hanchor'⟩ := mem_sortedAnchors.mp hb
  obtain ⟨value, target, hvalue, htarget⟩ := exists_target (hsub a ((hmem a).mp ha).1) hanchor
  obtain ⟨value', target', hvalue', htarget'⟩ := exists_target (hsub b ((hmem b).mp hb).1) hanchor'
  have hopening : a.opening = (anchorDelimiters target).opening := congrArg Delimiters.opening htarget
  have hopening' : b.opening = (anchorDelimiters target').opening := congrArg Delimiters.opening htarget'
  rw [anchorOrder_le_zero] at h h'
  have hswap := hlocale.swap a.opening b.opening
  have hequal : host.localeCompare a.opening b.opening = 0 := by
    have hle : host.localeCompare a.opening b.opening ≤ 0 := by omega
    have hge : host.localeCompare b.opening a.opening ≤ 0 := by omega
    have hswap' := hlocale.swap b.opening a.opening
    omega
  rw [hopening, hopening'] at hequal
  have heq := hlocale.separates value value' target target' hvalue hvalue' hequal
  exact eq_of_delimiters hsound ha hb (by rw [htarget, htarget', heq])

theorem eq_of_priority (hsub : ∀ r ∈ ranges, r ∈ htmlRanges host text markup)
    (ha : a ∈ canonicalizeActiveMarkupRanges host ranges) (hb : b ∈ canonicalizeActiveMarkupRanges host ranges)
    (hpriority : a.priority = b.priority) : a = b := by
  have hsound := sound_of_subset hsub
  have hcanonical : Canonical ranges (canonicalizeActiveMarkupRanges host ranges) := canonicalize_canonical hsound
  obtain ⟨item, -, -, htagged⟩ := exists_item (hsub a (hcanonical.mem a ha))
  obtain ⟨item', -, -, htagged'⟩ := exists_item (hsub b (hcanonical.mem b hb))
  rw [htagged.priority, htagged'.priority] at hpriority
  have hname := elementName_of_priority hpriority
  have hlinks : isLink item.type = isLink item'.type := by
    rw [Bool.eq_iff_iff, ← elementName_eq_a, ← elementName_eq_a, hname]
  cases hanchor : isLink item.type with
  | true =>
    exact hcanonical.one a ha b hb (htagged.anchor.trans hanchor) (htagged'.anchor.trans (hlinks.symm.trans hanchor))
  | false =>
    have htag := htagged.tag
    have htag' := htagged'.tag
    unfold itemTag at htag htag'
    rw [if_neg (by rw [hanchor]; exact Bool.false_ne_true)] at htag
    rw [if_neg (by rw [← hlinks, hanchor]; exact Bool.false_ne_true), ← hname] at htag'
    have hdelimiters := delimiters_eq_of_tag (hsub a (hcanonical.mem a ha)) (hsub b (hcanonical.mem b hb))
      (Option.some.inj (htag.symm.trans htag'))
    exact eq_of_delimiters hsound (mem_canonicalizeActiveMarkupRanges.mp ha).1
      (mem_canonicalizeActiveMarkupRanges.mp hb).1 hdelimiters

theorem pairwise_canonicalize (host : Host) (ranges : List MarkupRange) :
    (canonicalizeActiveMarkupRanges host ranges).Pairwise fun left right => left.priority ≤ right.priority := by
  unfold canonicalizeActiveMarkupRanges
  apply Levelling.pairwise_insertionSort_of_respects
  · intro a b c h h'
    exact Nat.le_trans h h'
  · intro a b h
    unfold stackOrder at h
    simp only at h
    split at h <;> omega
  · intro a b h
    unfold stackOrder at h
    simp only at h
    split at h <;> omega

theorem canonicalize_perm (hlocale : LocaleOrder host) (hsub : ∀ r ∈ ranges, r ∈ htmlRanges host text markup)
    (hperm : ranges.Perm ranges') :
    canonicalizeActiveMarkupRanges host ranges = canonicalizeActiveMarkupRanges host ranges' := by
  have hdeduplicate := deduplicate_perm (sound_of_subset hsub) hperm
  have hsorted : (sortedAnchors host ranges).Perm (sortedAnchors host ranges') := by
    unfold sortedAnchors
    exact (List.perm_insertionSort _ _).trans
      ((hdeduplicate.filter _).trans (List.perm_insertionSort _ _).symm)
  have hanchors : sortedAnchors host ranges = sortedAnchors host ranges' := by
    apply List.Perm.eq_of_pairwise _ (pairwise_sortedAnchors hlocale ranges) (pairwise_sortedAnchors hlocale ranges') hsorted
    intro a b ha hb h h'
    exact eq_of_anchorOrder hlocale hsub ha (hsorted.mem_iff.mpr hb) h h'
  have hactive : (canonicalizeActiveMarkupRanges host ranges).Perm (canonicalizeActiveMarkupRanges host ranges') := by
    have hselected : (deduplicate ranges').filter (fun range => !range.isAnchor || some range = (sortedAnchors host ranges).head?) =
        (deduplicate ranges').filter (fun range => !range.isAnchor || some range = (sortedAnchors host ranges').head?) := by
      rw [hanchors]
    unfold canonicalizeActiveMarkupRanges
    refine (List.perm_insertionSort _ _).trans (List.Perm.trans ?_ (List.perm_insertionSort _ _).symm)
    exact (hdeduplicate.filter _).trans (List.Perm.of_eq hselected)
  apply List.Perm.eq_of_pairwise _ (pairwise_canonicalize host ranges) (pairwise_canonicalize host ranges') hactive
  intro a b ha hb h h'
  exact eq_of_priority hsub ha (hactive.mem_iff.mpr hb) (Nat.le_antisymm h h')

end Maxim.Max.TextMarkup
