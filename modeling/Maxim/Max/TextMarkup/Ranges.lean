import Maxim.Max.TextMarkup.Escapes

/-!
# The line segments of a range

A range is cut at line breaks into its longest pieces without one. The blank
pieces are left out.
-/

namespace Maxim.Max.TextMarkup

open Maxim.Library Maxim.Library.Html

def IsBreak (c : Nat) : Prop := c = 10 ∨ c = 13

/-- A longest piece of a range without a line break that is not blank. -/
structure LineSegment (text : Units) (start stop a b : Nat) : Prop where
  start_le : start ≤ a
  lt : a < b
  le_stop : b ≤ stop
  inside : ∀ i c, a ≤ i → i < b → text[i]? = some c → ¬ IsBreak c
  before : a = start ∨ ∃ c, text[a - 1]? = some c ∧ IsBreak c
  after : b = stop ∨ ∃ c, text[b]? = some c ∧ IsBreak c
  shown : trim (slice text a b) ≠ []

variable {text : Units} {start stop : Nat}

theorem slice_nil_iff {s : Units} (i j : Nat) (hj : j ≤ s.length) : slice s i j = [] ↔ j ≤ i := by
  rw [slice, List.take_eq_nil_iff, List.drop_eq_nil_iff]
  omega

theorem slice_cons {s rest : Units} {i j c : Nat} (h : slice s i j = c :: rest) :
    i < j ∧ s[i]? = some c ∧ slice s (i + 1) j = rest := by
  have hij : i < j := by
    by_contra hle
    have hnil : slice s i j = [] := by rw [slice, Nat.sub_eq_zero_of_le (Nat.not_lt.mp hle), List.take_zero]
    rw [hnil] at h
    cases h
  obtain ⟨k, hk⟩ : ∃ k, j - i = k + 1 := ⟨j - i - 1, by omega⟩
  rw [slice, hk] at h
  cases hdrop : s.drop i with
  | nil =>
    rw [hdrop] at h
    cases h
  | cons d t =>
    rw [hdrop, List.take_succ_cons, List.cons.injEq] at h
    obtain ⟨rfl, rfl⟩ := h
    have hi : s[i]? = some d := by
      rw [← List.head?_drop, hdrop]
      rfl
    have ht : s.drop (i + 1) = t := by
      rw [← List.tail_drop, hdrop]
      rfl
    refine ⟨hij, hi, ?_⟩
    rw [slice, ht, show j - (i + 1) = k by omega]

variable {a b index segmentStart : Nat}

theorem mem_closeSegment {i j : Nat} : (⟨a, b⟩ : Segment) ∈ closeSegment text i j ↔
    a = i ∧ b = j ∧ a < b ∧ trim (slice text a b) ≠ [] := by
  unfold closeSegment
  split
  · next h =>
    rw [List.mem_singleton, Segment.mk.injEq]
    constructor
    · rintro ⟨rfl, rfl⟩
      exact ⟨rfl, rfl, h⟩
    · exact fun h => ⟨h.1, h.2.1⟩
  · next h =>
    simp only [List.not_mem_nil, false_iff]
    rintro ⟨rfl, rfl, h'⟩
    exact h h'

/-- Where the loop of the split is: the piece that it reads began at `segmentStart`. -/
structure Reading (text : Units) (start index segmentStart : Nat) : Prop where
  start_le : start ≤ segmentStart
  le_index : segmentStart ≤ index
  clear : ∀ i c, segmentStart ≤ i → i < index → text[i]? = some c → ¬ IsBreak c
  before : segmentStart = start ∨ ∃ c, text[segmentStart - 1]? = some c ∧ IsBreak c

theorem LineSegment.eq_start (h : LineSegment text start stop a b)
    (hr : Reading text start index segmentStart) (hle : segmentStart ≤ a) (hindex : a ≤ index) : a = segmentStart := by
  rcases h.before with heq | ⟨c, hc, hbreak⟩
  · have := hr.start_le
    omega
  · by_contra hne
    exact hr.clear (a - 1) c (by omega) (by omega) hc hbreak

theorem LineSegment.eq_stop (h : LineSegment text start stop segmentStart b)
    (hr : Reading text start index segmentStart) (hstop : index ≤ stop)
    (hend : index = stop ∨ ∃ c, text[index]? = some c ∧ IsBreak c) : b = index := by
  have hlt := h.lt
  have hle : b ≤ index := by
    rcases hend with rfl | ⟨c, hc, hbreak⟩
    · exact h.le_stop
    · by_contra hlarger
      exact h.inside index c hr.le_index (by omega) hc hbreak
  rcases h.after with heq | ⟨c, hc, hbreak⟩
  · rcases hend with hend | ⟨c, hc, hbreak⟩
    · omega
    · by_contra hne
      exact h.inside index c hr.le_index (by omega) hc hbreak
  · by_contra hne
    exact hr.clear b c (by omega) (by omega) hc hbreak

theorem mem_closeSegment_iff (hr : Reading text start index segmentStart)
    (hstop : index ≤ stop) (hend : index = stop ∨ ∃ c, text[index]? = some c ∧ IsBreak c) :
    (⟨a, b⟩ : Segment) ∈ closeSegment text segmentStart index ↔
      LineSegment text start stop a b ∧ segmentStart ≤ a ∧ a ≤ index := by
  rw [mem_closeSegment]
  constructor
  · rintro ⟨rfl, rfl, hlt, hshown⟩
    exact ⟨⟨hr.start_le, hlt, hstop, hr.clear, hr.before, hend, hshown⟩, Nat.le_refl _, hr.le_index⟩
  · rintro ⟨h, hle, hindex⟩
    obtain rfl := h.eq_start hr hle hindex
    obtain rfl := h.eq_stop hr hstop hend
    exact ⟨rfl, rfl, h.lt, h.shown⟩

/-- The loop gives the line segments from where it reads. -/
theorem mem_splitFrom {rest : Units} (hstop : stop ≤ text.length)
    (hr : Reading text start index segmentStart) (hindex : index ≤ stop) (hrest : slice text index stop = rest) :
    (⟨a, b⟩ : Segment) ∈ splitFrom text index segmentStart rest ↔
      LineSegment text start stop a b ∧ segmentStart ≤ a := by
  -- after a break the loop reads a new piece
  have hfresh : ∀ {i c}, start ≤ i → text[i]? = some c → IsBreak c → Reading text start (i + 1) (i + 1) := by
    intro i c hle hc hbreak
    exact ⟨by omega, Nat.le_refl _, fun j d hj hj' => by omega, .inr ⟨c, hc, hbreak⟩⟩
  have hgo : ∀ {i j c}, Reading text start i j → text[i]? = some c → ¬ IsBreak c → Reading text start (i + 1) j := by
    intro i j c hr hc hbreak
    refine ⟨hr.start_le, Nat.le_succ_of_le hr.le_index, fun k d hk hk' hd => ?_, hr.before⟩
    by_cases heq : k = i
    · subst heq
      rw [hc] at hd
      exact Option.some.inj hd ▸ hbreak
    · exact hr.clear k d hk (by omega) hd
  have hbreakAt : ∀ {i c}, text[i]? = some c → IsBreak c → LineSegment text start stop a b → a ≠ i := by
    rintro i c hc hbreak h rfl
    exact h.inside a c (Nat.le_refl _) h.lt hc hbreak
  fun_induction splitFrom text index segmentStart rest with
  | case1 index segmentStart =>
    have heq : index = stop := by
      have := (slice_nil_iff index stop hstop).mp hrest
      omega
    rw [mem_closeSegment_iff hr hindex (.inl heq)]
    refine and_congr_right fun h => ⟨fun h => h.1, fun hle => ⟨hle, ?_⟩⟩
    have hlt := h.lt
    have hle := h.le_stop
    omega
  | case2 index segmentStart c hbreak =>
    obtain ⟨hlt, hc, hnil⟩ := slice_cons hrest
    have hlast := (slice_nil_iff (index + 1) stop hstop).mp hnil
    rw [List.mem_append, mem_closeSegment_iff hr hindex (.inr ⟨c, hc, hbreak⟩), mem_closeSegment]
    constructor
    · rintro (⟨h, hle, -⟩ | ⟨rfl, hb, hab, -⟩)
      · exact ⟨h, hle⟩
      · omega
    · rintro ⟨h, hle⟩
      have hlt := h.lt
      have hbound := h.le_stop
      exact .inl ⟨h, hle, by omega⟩
  | case3 index segmentStart c hbreak =>
    obtain ⟨hlt, hc, hnil⟩ := slice_cons hrest
    have hlast := (slice_nil_iff (index + 1) stop hstop).mp hnil
    rw [mem_closeSegment_iff (hgo hr hc hbreak) hlt (.inl (by omega))]
    refine and_congr_right fun h => ⟨fun h => h.1, fun hle => ⟨hle, ?_⟩⟩
    have hlt := h.lt
    have hbound := h.le_stop
    omega
  | case4 index segmentStart c d rest hbreak ih ih' =>
    obtain ⟨hlt, hc, hnext⟩ := slice_cons hrest
    obtain ⟨hlt', hd, hafter⟩ := slice_cons hnext
    have hstart := Nat.le_trans hr.start_le hr.le_index
    rw [List.mem_append, mem_closeSegment_iff hr hindex (.inr ⟨c, hc, hbreak⟩)]
    split
    · next hcrlf =>
      have hfeed : IsBreak d := .inl hcrlf.2
      have hread : Reading text start (index + 2) (index + 2) := hfresh (Nat.le_succ_of_le hstart) hd hfeed
      refine (or_congr_right (ih hread hlt' hafter)).trans ?_
      constructor
      · rintro (⟨h, hle, -⟩ | ⟨h, hle⟩)
        · exact ⟨h, hle⟩
        · have := hr.le_index
          exact ⟨h, by omega⟩
      · rintro ⟨h, hle⟩
        have hne := hbreakAt hd hfeed h
        by_cases hbefore : a ≤ index
        · exact .inl ⟨h, hle, hbefore⟩
        · exact .inr ⟨h, by omega⟩
    · refine (or_congr_right (ih' (hfresh hstart hc hbreak) hlt hnext)).trans ?_
      constructor
      · rintro (⟨h, hle, -⟩ | ⟨h, hle⟩)
        · exact ⟨h, hle⟩
        · have := hr.le_index
          exact ⟨h, by omega⟩
      · rintro ⟨h, hle⟩
        by_cases hbefore : a ≤ index
        · exact .inl ⟨h, hle, hbefore⟩
        · exact .inr ⟨h, by omega⟩
  | case5 index segmentStart c d rest hbreak ih =>
    obtain ⟨hlt, hc, hnext⟩ := slice_cons hrest
    exact ih (hgo hr hc hbreak) hlt hnext

theorem mem_splitMarkupRangeByLines (hle : start ≤ stop) (hstop : stop ≤ text.length) :
    (⟨a, b⟩ : Segment) ∈ splitMarkupRangeByLines text start stop ↔ LineSegment text start stop a b := by
  have hr : Reading text start start start := ⟨Nat.le_refl _, Nat.le_refl _, fun i c h h' => by omega, .inl rfl⟩
  rw [splitMarkupRangeByLines, mem_splitFrom hstop hr hle rfl]
  exact and_iff_left_of_imp fun h => h.start_le

end Maxim.Max.TextMarkup

/-!
## The ranges of the markup

A range of the markup gives one range for every line segment. Its delimiters
are the tags of one element, which depends on the type and, for a link, on
its target.
-/

namespace Maxim.Max.TextMarkup

open Maxim.Library Maxim.Library.Html

def elementName : MaxTextMarkupType → Units
  | .strong => units "strong"
  | .heading => units "h3"
  | .highlighted => units "mark"
  | .quote => units "blockquote"
  | .emphasized => units "em"
  | .underline => units "u"
  | .strikethrough => units "del"
  | .monospaced => units "code"
  | .link | .userMention => units "a"

def elementPriority : MaxTextMarkupType → Nat
  | .strong => 20
  | .heading => 5
  | .highlighted => 25
  | .quote => 4
  | .emphasized => 30
  | .underline => 40
  | .strikethrough => 50
  | .monospaced => 60
  | .link | .userMention => 10

def isLink (type : MaxTextMarkupType) : Bool := type = .link || type = .userMention

/-- The target of a link or of a mention, unless it is not safe. -/
def safeTarget (host : Host) (item : MaxTextMarkup) : Option Units :=
  match item.type with
  | .link => normalizeSafeMarkupUrl host item.url
  | .userMention => resolveMentionHref host item.userLink
  | _ => none

def itemTag (host : Host) (item : MaxTextMarkup) : Option Tag :=
  if isLink item.type then (safeTarget host item).map anchorTag else some ⟨elementName item.type, []⟩

def elementDelimiters (type : MaxTextMarkupType) : Delimiters :=
  ⟨60 :: elementName type ++ [62], 60 :: 47 :: elementName type ++ [62], elementPriority type⟩

def anchorDelimiters (target : Units) : Delimiters :=
  ⟨units "<a href=\"" ++ escapeHtmlAttribute target ++ units "\">", units "</a>", 10⟩

theorem resolveMarkupHtmlTags_eq (host : Host) (item : MaxTextMarkup) {visible : Units} (h : 10 ∉ visible) :
    resolveMarkupHtmlTags host item visible =
      if isLink item.type then (safeTarget host item).map anchorDelimiters
      else some (elementDelimiters item.type) := by
  unfold resolveMarkupHtmlTags safeTarget
  cases item.type
  case monospaced => exact if_neg h
  all_goals rfl

theorem elementName_injective {type type' : MaxTextMarkupType} (h : isLink type = false) (h' : isLink type' = false)
    (hname : elementName type = elementName type') : type = type' := by
  cases type <;> cases type' <;> first | rfl | (revert h h' hname; decide)

theorem elementName_of_priority {type type' : MaxTextMarkupType} (h : elementPriority type = elementPriority type') :
    elementName type = elementName type' := by
  cases type <;> cases type' <;> first | rfl | (revert h; decide)

theorem elementPriority_link {type : MaxTextMarkupType} (h : isLink type = true) : elementPriority type = 10 := by
  cases type <;> first | rfl | (revert h; decide)

theorem elementName_eq_a {type : MaxTextMarkupType} : elementName type = units "a" ↔ isLink type = true := by
  cases type <;> decide

/-! ## The tag of a range -/

/-- The start tag that the opening of a range is read as. -/
def MarkupRange.tag (range : MarkupRange) : Tag :=
  match read plainUnit .text range.opening with
  | some [.start tag] => tag
  | _ => ⟨[], []⟩

/-- A range whose delimiters are the tags of the element that an item asks for. -/
structure Tagged (host : Host) (item : MaxTextMarkup) (range : MarkupRange) : Prop where
  opening : Reads plainUnit range.opening [.start range.tag]
  closing : Reads plainUnit range.closing [.close range.tag.name]
  tag : itemTag host item = some range.tag
  priority : range.priority = elementPriority item.type
  anchor : range.isAnchor = isLink item.type

variable {range : MarkupRange}

theorem tag_eq {tag : Tag} (h : Reads plainUnit range.opening [.start tag]) : range.tag = tag := by
  unfold MarkupRange.tag
  rw [h.read_eq]

theorem tagged {host : Host} {item : MaxTextMarkup} {visible : Units} {d : Delimiters} (hvisible : 10 ∉ visible)
    (h : resolveMarkupHtmlTags host item visible = some d) (a b : Nat) :
    Tagged host item ⟨a, b, d.opening, d.closing, d.priority, false⟩ := by
  rw [resolveMarkupHtmlTags_eq host item hvisible] at h
  cases hlink : isLink item.type with
  | true =>
    rw [hlink, if_pos rfl] at h
    obtain ⟨target, htarget, rfl⟩ := Option.map_eq_some_iff.mp h
    have hopening : Reads plainUnit (anchorDelimiters target).opening [.start (anchorTag target)] :=
      reads_anchor plainUnit target
    have htag : (⟨a, b, (anchorDelimiters target).opening, (anchorDelimiters target).closing,
      (anchorDelimiters target).priority, false⟩ : MarkupRange).tag = anchorTag target := tag_eq hopening
    constructor
    · rw [htag]
      exact hopening
    · rw [htag]
      have hclosing : Reads plainUnit (60 :: 47 :: units "a" ++ [62]) [.close (units "a")] :=
        reads_end (by decide) (by decide)
      exact hclosing
    · rw [htag, itemTag, hlink, if_pos rfl, htarget]
      rfl
    · exact (elementPriority_link hlink).symm
    · exact hlink.symm
  | false =>
    rw [hlink, if_neg Bool.false_ne_true] at h
    obtain rfl := Option.some.inj h
    have hname : elementName item.type ≠ [] ∧ (elementName item.type).all isNameUnit = true := by
      cases item.type <;> decide
    have hopening : Reads plainUnit (elementDelimiters item.type).opening [.start ⟨elementName item.type, []⟩] :=
      reads_start hname.1 hname.2
    have htag : (⟨a, b, (elementDelimiters item.type).opening, (elementDelimiters item.type).closing,
      (elementDelimiters item.type).priority, false⟩ : MarkupRange).tag = ⟨elementName item.type, []⟩ :=
      tag_eq hopening
    constructor
    · rw [htag]
      exact hopening
    · rw [htag]
      exact reads_end hname.1 hname.2
    · rw [htag, itemTag, hlink, if_neg Bool.false_ne_true]
    · rfl
    · rw [hlink]
      show ((units "<a ").isPrefixOf (elementDelimiters item.type).opening ||
        decide ((elementDelimiters item.type).opening = units "[")) = false
      revert hlink
      cases item.type <;> decide

/-! ## The ranges -/

/-- A line segment of a range of the markup that is taken. -/
structure ItemSegment (text : Units) (item : MaxTextMarkup) (a b : Nat) : Prop where
  accepted : accepted text item = true
  segment : LineSegment text item.offset.toNat (item.offset + item.length).toNat a b

variable {host : Host} {text : Units} {markup : List MaxTextMarkup}

theorem accepted_iff {item : MaxTextMarkup} : accepted text item = true ↔
    0 ≤ item.offset ∧ 0 < item.length ∧ item.offset + item.length ≤ text.length := by
  unfold accepted
  simp only [Bool.not_eq_true', Bool.or_eq_false_iff, decide_eq_false_iff_not]
  omega

theorem LineSegment.not_mem {start stop a b : Nat} (h : LineSegment text start stop a b) {c : Nat}
    (hbreak : IsBreak c) : c ∉ slice text a b := by
  intro hmem
  obtain ⟨i, hi⟩ := List.mem_iff_getElem?.mp hmem
  rw [slice, List.getElem?_take] at hi
  split at hi
  · next hlt =>
    rw [List.getElem?_drop] at hi
    exact h.inside (a + i) c (Nat.le_add_right a i) (by omega) hi hbreak
  · cases hi

theorem mem_htmlRanges : range ∈ htmlRanges host text markup ↔
    ∃ item ∈ markup, ItemSegment text item range.start range.stop ∧
      ∃ d, resolveMarkupHtmlTags host item (slice text range.start range.stop) = some d ∧
        range = ⟨range.start, range.stop, d.opening, d.closing, d.priority, false⟩ := by
  unfold htmlRanges
  rw [List.mem_flatMap]
  apply exists_congr
  intro item
  apply and_congr_right
  intro _
  split
  · next haccepted =>
    obtain ⟨hoffset, hlength, hbound⟩ := accepted_iff.mp haccepted
    rw [List.mem_filterMap]
    constructor
    · rintro ⟨⟨a, b⟩, hsegment, hrange⟩
      obtain ⟨d, hd, rfl⟩ := Option.map_eq_some_iff.mp hrange
      exact ⟨⟨haccepted, (mem_splitMarkupRangeByLines (by omega) (by omega)).mp hsegment⟩, d, hd, rfl⟩
    · rintro ⟨hsegment, d, hd, hrange⟩
      refine ⟨⟨range.start, range.stop⟩, (mem_splitMarkupRangeByLines (by omega) (by omega)).mpr hsegment.segment, ?_⟩
      rw [hd, hrange]
      rfl
  · next haccepted =>
    constructor
    · intro h
      cases h
    · rintro ⟨hsegment, -⟩
      exact absurd hsegment.accepted haccepted

theorem exists_item (h : range ∈ htmlRanges host text markup) :
    ∃ item ∈ markup, ItemSegment text item range.start range.stop ∧ Tagged host item range := by
  obtain ⟨item, hitem, hsegment, d, hd, hrange⟩ := mem_htmlRanges.mp h
  have htagged := tagged (hsegment.segment.not_mem (.inl rfl)) hd range.start range.stop
  rw [← hrange] at htagged
  exact ⟨item, hitem, hsegment, htagged⟩

theorem exists_range {item : MaxTextMarkup} {a b : Nat} {tag : Tag} (hitem : item ∈ markup)
    (hsegment : ItemSegment text item a b) (htag : itemTag host item = some tag) :
    ∃ range ∈ htmlRanges host text markup, range.start = a ∧ range.stop = b ∧ range.tag = tag := by
  have hvisible := hsegment.segment.not_mem (.inl rfl)
  obtain ⟨d, hd⟩ : ∃ d, resolveMarkupHtmlTags host item (slice text a b) = some d := by
    rw [resolveMarkupHtmlTags_eq host item hvisible]
    unfold itemTag at htag
    split
    · next hlink =>
      rw [if_pos hlink] at htag
      obtain ⟨target, htarget, -⟩ := Option.map_eq_some_iff.mp htag
      exact ⟨_, by rw [htarget]; rfl⟩
    · exact ⟨_, rfl⟩
  have htagged := tagged hvisible hd a b
  exact ⟨_, mem_htmlRanges.mpr ⟨item, hitem, hsegment, d, hd, rfl⟩, rfl, rfl, Option.some.inj (htagged.tag.symm.trans htag)⟩

theorem exists_target (h : range ∈ htmlRanges host text markup) (hanchor : range.isAnchor = true) :
    ∃ value target, normalizeSafeMarkupUrl host value = some target ∧ range.delimiters = anchorDelimiters target := by
  obtain ⟨item, -, hsegment, d, hd, hrange⟩ := mem_htmlRanges.mp h
  have hvisible := hsegment.segment.not_mem (.inl rfl)
  have htagged := tagged hvisible hd range.start range.stop
  rw [← hrange] at htagged
  rw [resolveMarkupHtmlTags_eq host item hvisible, if_pos (htagged.anchor.symm.trans hanchor)] at hd
  obtain ⟨target, htarget, rfl⟩ := Option.map_eq_some_iff.mp hd
  have hdelimiters : range.delimiters = anchorDelimiters target := by
    rw [hrange]
    rfl
  unfold safeTarget at htarget
  split at htarget
  · exact ⟨_, target, htarget, hdelimiters⟩
  · unfold resolveMentionHref at htarget
    split at htarget
    · cases htarget
    · simp only at htarget
      split at htarget
      · cases htarget
      · exact ⟨_, target, htarget, hdelimiters⟩
  · cases htarget

theorem range_lt (h : range ∈ htmlRanges host text markup) :
    range.start < range.stop ∧ range.stop ≤ text.length ∧ range.monospaced = false := by
  obtain ⟨item, -, hsegment, d, -, hrange⟩ := mem_htmlRanges.mp h
  obtain ⟨hoffset, hlength, hbound⟩ := accepted_iff.mp hsegment.accepted
  have hstop := hsegment.segment.le_stop
  refine ⟨hsegment.segment.lt, by omega, ?_⟩
  rw [hrange]

theorem tag_eq_of_delimiters {range' : MarkupRange} (h : range.delimiters = range'.delimiters) :
    range.tag = range'.tag := by
  have hopening : range.opening = range'.opening := congrArg Delimiters.opening h
  unfold MarkupRange.tag
  rw [hopening]

/-- The delimiters of a range follow from its tag. -/
theorem delimiters_eq_of_tag {range' : MarkupRange} (h : range ∈ htmlRanges host text markup)
    (h' : range' ∈ htmlRanges host text markup) (htag : range.tag = range'.tag) :
    range.delimiters = range'.delimiters := by
  obtain ⟨item, -, hsegment, d, hd, hrange⟩ := mem_htmlRanges.mp h
  obtain ⟨item', -, hsegment', d', hd', hrange'⟩ := mem_htmlRanges.mp h'
  have hvisible := hsegment.segment.not_mem (.inl rfl)
  have hvisible' := hsegment'.segment.not_mem (.inl rfl)
  have ht := (tagged hvisible hd range.start range.stop).tag
  have ht' := (tagged hvisible' hd' range'.start range'.stop).tag
  rw [← hrange] at ht
  rw [← hrange', ← htag] at ht'
  have hd_eq : d = d' := by
    rw [resolveMarkupHtmlTags_eq host item hvisible] at hd
    rw [resolveMarkupHtmlTags_eq host item' hvisible'] at hd'
    unfold itemTag at ht ht'
    cases hlink : isLink item.type <;> cases hlink' : isLink item'.type <;>
      simp only [hlink, hlink', if_true, if_false, Bool.false_eq_true, Option.map_eq_some_iff, Option.some.injEq]
        at hd hd' ht ht'
    · rw [← ht'] at ht
      rw [← hd, ← hd', elementName_injective hlink hlink' (congrArg Tag.name ht)]
    · obtain ⟨target, -, htarget⟩ := ht'
      rw [← ht] at htarget
      cases congrArg Tag.attributes htarget
    · obtain ⟨target, -, htarget⟩ := ht
      rw [← ht'] at htarget
      cases congrArg Tag.attributes htarget
    · obtain ⟨target, hsafe, htarget⟩ := ht
      obtain ⟨target', hsafe', htarget'⟩ := ht'
      rw [← htarget'] at htarget
      obtain ⟨_, hsafe₁, rfl⟩ := hd
      obtain ⟨_, hsafe₂, rfl⟩ := hd'
      rw [hsafe, Option.some.injEq] at hsafe₁
      rw [hsafe', Option.some.injEq] at hsafe₂
      have heq : target = target' := by
        simpa [anchorTag] using htarget
      rw [← hsafe₁, ← hsafe₂, heq]
  rw [hrange, hrange', hd_eq]
  rfl

end Maxim.Max.TextMarkup
