import Maxim.Max.TextMarkup.Sweep
import Mathlib.Data.List.Dedup
import Mathlib.Data.List.Lex

/-!
# What the rendered markup says

The elements around a character are those of the ranges that cover it, with
one anchor at most. The order of the markup does not matter.
-/

namespace Maxim.Max.TextMarkup

open Maxim.Library Maxim.Library.Html

def CoveredBy (text : Units) (item : MaxTextMarkup) (i : Nat) : Prop :=
  ∃ a b, ItemSegment text item a b ∧ a ≤ i ∧ i < b

/-- The elements around one character are right. -/
structure Exact (host : Host) (text : Units) (markup : List MaxTextMarkup) (i : Nat) (stack : List Tag) : Prop where
  element : ∀ type, isLink type = false → ((∃ tag ∈ stack, tag.name = elementName type) ↔
    ∃ item ∈ markup, item.type = type ∧ CoveredBy text item i)
  anchor : (∃ tag ∈ stack, tag.name = units "a") ↔
    ∃ item ∈ markup, (safeTarget host item).isSome = true ∧ CoveredBy text item i
  one : (stack.filter fun tag => tag.name = units "a").length ≤ 1
  shortest : ∀ tag ∈ stack, tag.name = units "a" → ∃ item ∈ markup, ∃ target a b,
    safeTarget host item = some target ∧ tag = anchorTag target ∧ ItemSegment text item a b ∧ a ≤ i ∧ i < b ∧
    ∀ item' ∈ markup, (safeTarget host item').isSome = true → ∀ a' b', ItemSegment text item' a' b' → a' ≤ i → i < b' →
      b - a ≤ b' - a'
  lineBreak : ∀ c, text[i]? = some c → IsBreak c → stack = []

variable {host : Host} {text : Units} {markup : List MaxTextMarkup}

variable {range : MarkupRange}

theorem covers_iff {i : Nat} : covers range i (i + 1) = true ↔ range.start ≤ i ∧ i < range.stop := by
  unfold covers
  rw [Bool.and_eq_true, decide_eq_true_iff, decide_eq_true_iff]
  exact Iff.rfl

theorem sound_htmlRanges : Sound (htmlRanges host text markup) := sound_of_subset fun _ h => h

theorem canonical_activeAt (i : Nat) :
    Canonical ((htmlRanges host text markup).filter fun range => covers range i (i + 1))
      (activeAt host (htmlRanges host text markup) i) :=
  canonicalize_canonical fun r hr => sound_htmlRanges r (List.mem_of_mem_filter hr)

theorem mem_stackAt {i : Nat} {tag : Tag} : tag ∈ stackOf (activeAt host (htmlRanges host text markup) i) ↔
    ∃ range ∈ activeAt host (htmlRanges host text markup) i, range.tag = tag := by
  rw [stackOf, List.mem_reverse, List.mem_map]

theorem exists_item_of_active {i : Nat}
    (h : range ∈ activeAt host (htmlRanges host text markup) i) :
    ∃ item ∈ markup, ItemSegment text item range.start range.stop ∧ (range.start ≤ i ∧ i < range.stop) ∧
      Tagged host item range := by
  obtain ⟨hmem, hcovers⟩ := List.mem_filter.mp ((canonical_activeAt i).mem range h)
  obtain ⟨item, hitem, hsegment, htagged⟩ := exists_item hmem
  exact ⟨item, hitem, hsegment, covers_iff.mp hcovers, htagged⟩

variable {item : MaxTextMarkup}

theorem itemTag_of_isLink (h : isLink item.type = true) :
    itemTag host item = (safeTarget host item).map anchorTag := if_pos h

theorem itemTag_of_not_isLink (h : isLink item.type = false) :
    itemTag host item = some ⟨elementName item.type, []⟩ := if_neg (by rw [h]; exact Bool.false_ne_true)

theorem isLink_of_safeTarget (h : (safeTarget host item).isSome = true) :
    isLink item.type = true := by
  unfold safeTarget at h
  revert h
  cases item.type <;> first | (intro h; rfl) | (intro h; cases h)

/-- The element of a tagged range. -/
theorem Tagged.name (h : Tagged host item range) :
    range.tag.name = elementName item.type := by
  have htag := h.tag
  cases hlink : isLink item.type with
  | true =>
    rw [itemTag_of_isLink hlink] at htag
    obtain ⟨target, -, htarget⟩ := Option.map_eq_some_iff.mp htag
    rw [← htarget, elementName_eq_a.mpr hlink]
    rfl
  | false =>
    rw [itemTag_of_not_isLink hlink] at htag
    rw [← Option.some.inj htag]

/-- An anchor that covers a character gives an active anchor, which is not longer. -/
theorem exists_anchor {i a b : Nat} (hitem : item ∈ markup)
    (hsafe : (safeTarget host item).isSome = true) (hsegment : ItemSegment text item a b) (ha : a ≤ i) (hb : i < b) :
    ∃ range ∈ activeAt host (htmlRanges host text markup) i, range.isAnchor = true ∧ range.length ≤ b - a := by
  obtain ⟨target, htarget⟩ := Option.isSome_iff_exists.mp hsafe
  have hlink := isLink_of_safeTarget hsafe
  have htag : itemTag host item = some (anchorTag target) := by rw [itemTag_of_isLink hlink, htarget]; rfl
  obtain ⟨range, hrange, rfl, rfl, hrangeTag⟩ := exists_range hitem hsegment htag
  obtain ⟨item', -, -, htagged⟩ := exists_item hrange
  have hanchor : range.isAnchor = true := by
    rw [htagged.anchor, ← elementName_eq_a, ← htagged.name, hrangeTag]
    rfl
  exact (canonical_activeAt i).anchor range (List.mem_filter.mpr ⟨hrange, covers_iff.mpr ⟨ha, hb⟩⟩) hanchor

theorem Tagged.name_eq_a (h : Tagged host item range) :
    range.tag.name = units "a" ↔ isLink item.type = true := by
  rw [h.name, elementName_eq_a]

theorem Tagged.target (h : Tagged host item range)
    (hlink : isLink item.type = true) : ∃ target, safeTarget host item = some target ∧ range.tag = anchorTag target := by
  have htag := h.tag
  rw [itemTag_of_isLink hlink] at htag
  obtain ⟨target, htarget, hanchor⟩ := Option.map_eq_some_iff.mp htag
  exact ⟨target, htarget, hanchor.symm⟩

theorem element_iff (i : Nat) {type : MaxTextMarkupType} (htype : isLink type = false) :
    (∃ tag ∈ stackOf (activeAt host (htmlRanges host text markup) i), tag.name = elementName type) ↔
      ∃ item ∈ markup, item.type = type ∧ CoveredBy text item i := by
  have hname : elementName type ≠ units "a" := fun h => by
    rw [elementName_eq_a, htype] at h
    cases h
  constructor
  · rintro ⟨tag, htag, htagName⟩
    obtain ⟨range, hrange, rfl⟩ := mem_stackAt.mp htag
    obtain ⟨item, hitem, hsegment, hcovers, htagged⟩ := exists_item_of_active hrange
    have hlink : isLink item.type = false := by
      rw [Bool.eq_false_iff, ne_eq, ← htagged.name_eq_a, htagName]
      exact hname
    exact ⟨item, hitem, elementName_injective hlink htype (htagged.name.symm.trans htagName), _, _, hsegment, hcovers⟩
  · rintro ⟨item, hitem, rfl, a, b, hsegment, ha, hb⟩
    obtain ⟨range, hrange, rfl, rfl, htag⟩ := exists_range hitem hsegment (itemTag_of_not_isLink htype)
    obtain ⟨item', -, -, htagged⟩ := exists_item hrange
    have hanchor : range.isAnchor = false := by
      rw [htagged.anchor, Bool.eq_false_iff, ne_eq, ← htagged.name_eq_a, htag]
      exact hname
    obtain ⟨active, hactive, hdelimiters⟩ :=
      (canonical_activeAt i).other range (List.mem_filter.mpr ⟨hrange, covers_iff.mpr ⟨ha, hb⟩⟩) hanchor
    refine ⟨active.tag, mem_stackAt.mpr ⟨active, hactive, rfl⟩, ?_⟩
    rw [tag_eq_of_delimiters hdelimiters, htag]

theorem anchor_iff (i : Nat) :
    (∃ tag ∈ stackOf (activeAt host (htmlRanges host text markup) i), tag.name = units "a") ↔
      ∃ item ∈ markup, (safeTarget host item).isSome = true ∧ CoveredBy text item i := by
  constructor
  · rintro ⟨tag, htag, hname⟩
    obtain ⟨range, hrange, rfl⟩ := mem_stackAt.mp htag
    obtain ⟨item, hitem, hsegment, hcovers, htagged⟩ := exists_item_of_active hrange
    obtain ⟨target, htarget, -⟩ := htagged.target (htagged.name_eq_a.mp hname)
    exact ⟨item, hitem, by rw [htarget]; rfl, _, _, hsegment, hcovers⟩
  · rintro ⟨item, hitem, hsafe, a, b, hsegment, ha, hb⟩
    obtain ⟨range, hrange, hanchor, -⟩ := exists_anchor hitem hsafe hsegment ha hb
    obtain ⟨item', -, -, -, htagged⟩ := exists_item_of_active hrange
    exact ⟨range.tag, mem_stackAt.mpr ⟨range, hrange, rfl⟩, htagged.name_eq_a.mpr (htagged.anchor.symm.trans hanchor)⟩

theorem anchor_le_one (i : Nat) :
    ((stackOf (activeAt host (htmlRanges host text markup) i)).filter fun tag => tag.name = units "a").length ≤ 1 := by
  have hcanonical : Canonical _ (activeAt host (htmlRanges host text markup) i) := canonical_activeAt i
  have hanchors : ∀ r ∈ activeAt host (htmlRanges host text markup) i, r.tag.name = units "a" → r.isAnchor = true := by
    intro r hr hname
    obtain ⟨item, -, -, -, htagged⟩ := exists_item_of_active hr
    exact htagged.anchor.trans (htagged.name_eq_a.mp hname)
  have hfilter : (stackOf (activeAt host (htmlRanges host text markup) i)).filter (fun tag => tag.name = units "a") =
      (((activeAt host (htmlRanges host text markup) i).filter fun range => range.tag.name = units "a").map
        MarkupRange.tag).reverse := by
    rw [stackOf, List.filter_reverse, List.filter_map]
    rfl
  rw [hfilter, List.length_reverse, List.length_map]
  have hnodup := hcanonical.nodup.filter (fun range => decide (range.tag.name = units "a"))
  cases hlist : (activeAt host (htmlRanges host text markup) i).filter fun range => range.tag.name = units "a" with
  | nil => exact Nat.zero_le 1
  | cons a rest =>
    rw [hlist] at hnodup
    cases rest with
    | nil => exact Nat.le_refl 1
    | cons b rest =>
      have ha := List.mem_filter.mp (hlist ▸ List.mem_cons_self)
      have hb := List.mem_filter.mp (hlist ▸ List.mem_cons_of_mem a List.mem_cons_self)
      have heq := hcanonical.one a ha.1 b hb.1 (hanchors a ha.1 (of_decide_eq_true ha.2))
        (hanchors b hb.1 (of_decide_eq_true hb.2))
      exact absurd (heq ▸ List.mem_cons_self) (List.nodup_cons.mp hnodup).1

theorem stack_of_break {i c : Nat} (hc : text[i]? = some c) (hbreak : IsBreak c) :
    stackOf (activeAt host (htmlRanges host text markup) i) = [] := by
  have hempty : activeAt host (htmlRanges host text markup) i = [] := by
    rw [List.eq_nil_iff_forall_not_mem]
    intro range hrange
    obtain ⟨item, -, hsegment, ⟨hstart, hstop⟩, -⟩ := exists_item_of_active hrange
    exact hsegment.segment.inside i c hstart hstop hc hbreak
  rw [hempty]
  rfl

theorem exact_stackAt (i : Nat) : Exact host text markup i (stackOf (activeAt host (htmlRanges host text markup) i)) where
  element := fun _ htype => element_iff i htype
  anchor := anchor_iff i
  one := anchor_le_one i
  shortest := by
    intro tag htag hname
    obtain ⟨range, hrange, rfl⟩ := mem_stackAt.mp htag
    obtain ⟨item, hitem, hsegment, hcovers, htagged⟩ := exists_item_of_active hrange
    have hlink := htagged.name_eq_a.mp hname
    obtain ⟨target, htarget, hanchorTag⟩ := htagged.target hlink
    refine ⟨item, hitem, target, range.start, range.stop, htarget, hanchorTag, hsegment, hcovers.1, hcovers.2, ?_⟩
    intro item' hitem' hsafe a' b' hsegment' ha' hb'
    obtain ⟨other, hother, hanchor, hle⟩ := exists_anchor hitem' hsafe hsegment' ha' hb'
    obtain rfl := (canonical_activeAt i).one range hrange other hother (htagged.anchor.trans hlink) hanchor
    exact hle
  lineBreak := fun _ hc hbreak => stack_of_break hc hbreak

/-! ## The whole text -/

theorem pairwise_sortedBoundaries (text : Units) (ranges : List MarkupRange) :
    (sortedBoundaries text ranges).Pairwise (· < ·) := by
  unfold sortedBoundaries
  have hnodup := (List.perm_insertionSort (· ≤ ·)
    ([0, text.length] ++ ranges.flatMap fun range => [range.start, range.stop]).dedup).nodup_iff.mpr (List.nodup_dedup _)
  have hsorted := List.pairwise_insertionSort (α := Nat) (· ≤ ·)
    ([0, text.length] ++ ranges.flatMap fun range => [range.start, range.stop]).dedup
  exact (hsorted.and hnodup).imp fun h => Nat.lt_of_le_of_ne h.1 h.2

theorem mem_sortedBoundaries {ranges : List MarkupRange} {b : Nat} : b ∈ sortedBoundaries text ranges ↔
    b = 0 ∨ b = text.length ∨ ∃ r ∈ ranges, b = r.start ∨ b = r.stop := by
  unfold sortedBoundaries
  rw [List.mem_insertionSort, List.mem_dedup, List.mem_append, List.mem_flatMap]
  simp only [List.mem_cons, List.not_mem_nil, or_false, or_assoc]

theorem readable_htmlRanges : ∀ r ∈ htmlRanges host text markup, Readable r := by
  intro r hr
  obtain ⟨item, -, -, htagged⟩ := exists_item hr
  exact ⟨htagged.opening, htagged.closing⟩

theorem render_eq {html : Units} (h : renderMaxTextMarkupAsHtml host text markup = some html) :
    ∃ ts es, Reads plainUnit html ts ∧ Walks noVoid [] ts [] es ∧
      chars es = annotated host text (htmlRanges host text markup) 0 text.length := by
  unfold renderMaxTextMarkupAsHtml at h
  simp only at h
  split at h
  · cases h
  split at h
  · cases h
  have hsorted := pairwise_sortedBoundaries text (htmlRanges host text markup)
  have hmem : ∀ b, b ∈ sortedBoundaries text (htmlRanges host text markup) ↔ _ := fun b => mem_sortedBoundaries
  cases hboundaries : sortedBoundaries text (htmlRanges host text markup) with
  | nil =>
    have := (hmem 0).mpr (.inl rfl)
    rw [hboundaries] at this
    cases this
  | cons p rest =>
    rw [hboundaries] at h hsorted hmem
    have hp : p = 0 := by
      rcases List.mem_cons.mp ((hmem 0).mpr (.inl rfl)) with h | h
      · exact h.symm
      · have := (List.pairwise_cons.mp hsorted).1 0 h
        omega
    subst hp
    have hcut : Cut (htmlRanges host text markup) 0 rest := by
      intro r hr
      have hmem' : ∀ b, (b = r.start ∨ b = r.stop) → b ≤ 0 ∨ b ∈ rest := fun b hb =>
        (List.mem_cons.mp ((hmem b).mpr (.inr (.inr ⟨r, hr, hb⟩)))).imp_left Nat.le_of_eq
      exact ⟨hmem' _ (.inl rfl), hmem' _ (.inr rfl)⟩
    have hbound : ∀ b ∈ 0 :: rest, b ≤ text.length := by
      intro b hb
      rcases (hmem b).mp hb with rfl | rfl | ⟨r, hr, hb⟩
      · exact Nat.zero_le _
      · exact Nat.le_refl _
      · have := range_lt hr
        omega
    obtain ⟨x, ts, es, active, hfold, hreadable, hreads, hwalks, hchars⟩ := @sweep_run host text
      (htmlRanges host text markup) readable_htmlRanges sound_htmlRanges rest 0 ([], []) hsorted hcut
      ((hmem text.length).mpr (.inr (.inl rfl))) hbound (fun r hr => by cases hr)
    rw [List.tail_cons, hfold] at h
    simp only [List.nil_append, Option.some.injEq] at h
    have hclosings : Reads plainUnit (active.reverse.flatMap (·.closing))
        (active.reverse.flatMap fun r => [.close r.tag.name]) :=
      Reads.flatMap fun r hr => (hreadable r (List.mem_reverse.mp hr)).2
    have hcloses : Walks noVoid (stackOf active ++ []) _ [] [] := walks_closes [] (stackOf active)
    have hclose : ((stackOf active).map fun tag => Token.close tag.name) =
        active.reverse.flatMap fun r => [.close r.tag.name] := by
      rw [stackOf, ← List.map_reverse, List.map_map, List.map_eq_flatMap]
      rfl
    rw [List.append_nil, hclose] at hcloses
    refine ⟨_, _, h ▸ hreads.append hclosings, hwalks.append hcloses, ?_⟩
    rw [List.append_nil, hchars]

theorem htmlRanges_perm {markup' : List MaxTextMarkup} (hperm : markup.Perm markup') :
    (htmlRanges host text markup).Perm (htmlRanges host text markup') := by
  unfold htmlRanges
  exact hperm.flatMap_right _

/-- The order of the markup does not matter. -/
theorem render_perm (hlocale : LocaleOrder host) {markup' : List MaxTextMarkup} (hperm : markup.Perm markup') :
    renderMaxTextMarkupAsHtml host text markup' = renderMaxTextMarkupAsHtml host text markup := by
  have hranges : (htmlRanges host text markup).Perm (htmlRanges host text markup') := htmlRanges_perm hperm
  have hboundaries : sortedBoundaries text (htmlRanges host text markup') =
      sortedBoundaries text (htmlRanges host text markup) := by
    have hsorted := pairwise_sortedBoundaries text (htmlRanges host text markup)
    have hsorted' := pairwise_sortedBoundaries text (htmlRanges host text markup')
    apply List.Perm.eq_of_pairwise _ hsorted' hsorted
    · rw [List.perm_ext_iff_of_nodup (hsorted'.imp Nat.ne_of_lt) (hsorted.imp Nat.ne_of_lt)]
      intro b
      rw [mem_sortedBoundaries, mem_sortedBoundaries]
      simp only [hranges.mem_iff]
    · intro a b _ _ h h'
      omega
  have hpiece : sweepPiece host text (htmlRanges host text markup') = sweepPiece host text (htmlRanges host text markup) := by
    funext state piece
    have hactive := canonicalize_perm hlocale (fun r hr => List.mem_of_mem_filter hr)
      (hranges.filter fun range => covers range piece.1 piece.2)
    unfold sweepPiece
    rw [hactive]
  unfold renderMaxTextMarkupAsHtml
  simp only [hboundaries, hpiece, hperm.length_eq, hranges.length_eq]

def codeUnitHost (parseUrl : Units → Option ParsedUrl) : Host where
  parseUrl := parseUrl
  localeCompare := fun a b => if a < b then -1 else if a = b then 0 else 1

theorem localeOrder_codeUnitHost (parseUrl : Units → Option ParsedUrl) : LocaleOrder (codeUnitHost parseUrl) where
  swap := by
    intro a b
    unfold codeUnitHost
    rcases lt_trichotomy a b with h | rfl | h
    · simp [h, h.not_gt, h.ne']
    · simp
    · simp [h, h.not_gt, h.ne']
  trans := by
    have hle : ∀ a b, (codeUnitHost parseUrl).localeCompare a b ≤ 0 ↔ a ≤ b := by
      intro a b
      unfold codeUnitHost
      rcases lt_trichotomy a b with h | rfl | h
      · simp [h, h.le]
      · simp
      · simp [h.not_gt, h.ne', h.not_ge]
    intro a b c h h'
    rw [hle] at *
    exact h.trans h'
  separates := by
    intro value value' target target' _ _ h
    unfold codeUnitHost at h
    simp only at h
    split at h
    · cases h
    split at h
    · next heq =>
      have hescapes : escapeHtmlAttribute target = escapeHtmlAttribute target' :=
        List.append_cancel_left (List.append_cancel_right heq)
      have hvalue := (unescape_escapeHtmlAttribute target).1
      rw [hescapes, (unescape_escapeHtmlAttribute target').1] at hvalue
      exact (Option.some.inj hvalue).symm
    · cases h

/-- A rendered text is read as the text, with the right elements around every character. -/
theorem markup_html_exact {html : Units} (h : renderMaxTextMarkupAsHtml host text markup = some html) :
    ∃ (events : List (List Tag × Token)) (stack : Nat → List Tag),
      (read plainUnit .text html).bind (walk noVoid []) = some events ∧
      (chars events).map Prod.snd = text.flatMap expandTab ∧
      chars events = text.zipIdx.flatMap (fun c => (expandTab c.1).map (stack c.2, ·)) ∧
      (∀ i < text.length, Exact host text markup i (stack i)) ∧
      (LocaleOrder host → ∀ markup', markup.Perm markup' → renderMaxTextMarkupAsHtml host text markup' = some html) := by
  obtain ⟨ts, es, hreads, hwalks, hchars⟩ := render_eq h
  have hslice : slice text 0 text.length = text := by rw [slice, List.drop_zero, Nat.sub_zero, List.take_length]
  rw [annotated, hslice] at hchars
  refine ⟨es, fun i => stackOf (activeAt host (htmlRanges host text markup) i), ?_, ?_, hchars,
    fun i _ => exact_stackAt i, ?_⟩
  · rw [hreads.read_eq]
    exact hwalks.walk_eq
  · rw [hchars, List.map_flatMap]
    simp only [List.map_map, Function.comp_def, List.map_id']
    rw [← List.flatMap_map, List.zipIdx_map_fst]
  · intro hlocale markup' hperm
    rw [render_perm hlocale hperm]
    exact h

def pageHost : Host := codeUnitHost fun value =>
  if value = units "https://a.ru" then some ⟨units "https:", [], [], units "https://a.ru/"⟩ else none

theorem markup_html_exact_sample : LocaleOrder pageHost ∧
    ∃ (events : List (List Tag × Token)) (stack : Nat → List Tag),
      (read plainUnit .text (units "<strong>a</strong><a href=\"https://a.ru/\"><strong>b</strong></a>\n<strong>&lt;</strong>")).bind
        (walk noVoid []) = some events ∧
      (chars events).map Prod.snd = (units "ab\n<").flatMap expandTab ∧
      chars events = (units "ab\n<").zipIdx.flatMap (fun c => (expandTab c.1).map (stack c.2, ·)) ∧
      (∀ i < (units "ab\n<").length, Exact pageHost (units "ab\n<")
        [⟨0, 4, .strong, none, none⟩, ⟨1, 1, .link, some (units "https://a.ru"), none⟩] i (stack i)) ∧
      (LocaleOrder pageHost → ∀ markup', [⟨0, 4, .strong, none, none⟩,
        ⟨1, 1, .link, some (units "https://a.ru"), none⟩].Perm markup' →
        renderMaxTextMarkupAsHtml pageHost (units "ab\n<") markup' =
          some (units "<strong>a</strong><a href=\"https://a.ru/\"><strong>b</strong></a>\n<strong>&lt;</strong>")) :=
  ⟨localeOrder_codeUnitHost _, markup_html_exact (by decide +kernel)⟩

end Maxim.Max.TextMarkup
