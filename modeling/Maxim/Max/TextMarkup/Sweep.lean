import Maxim.Max.TextMarkup.Canonical

/-!
# The sweep

Between two boundaries the same ranges cover every character. The renderer
keeps open what the pieces on both sides of a boundary share, so the elements
around a character are those of the active ranges there.
-/

namespace Maxim.Max.TextMarkup

open Maxim.Library Maxim.Library.Html

def noVoid (_ : Units) : Bool := false

/-- The elements that are open for some active ranges, the innermost first. -/
def stackOf (active : List MarkupRange) : List Tag := (active.map MarkupRange.tag).reverse

def activeAt (host : Host) (ranges : List MarkupRange) (i : Nat) : List MarkupRange :=
  canonicalizeActiveMarkupRanges host (ranges.filter fun range => covers range i (i + 1))

/-- The characters from one boundary to another with the elements around them. -/
def annotated (host : Host) (text : Units) (ranges : List MarkupRange) (p q : Nat) : List (List Tag × Nat) :=
  ((slice text p q).zipIdx p).flatMap fun c => (expandTab c.1).map (stackOf (activeAt host ranges c.2), ·)

theorem tags_sharedPrefix (old new : List MarkupRange) :
    (old.take (sharedPrefixLength old new)).map MarkupRange.tag =
      (new.take (sharedPrefixLength old new)).map MarkupRange.tag := by
  fun_induction sharedPrefixLength old new with
  | case1 left lefts right rights heq ih =>
    rw [List.take_succ_cons, List.take_succ_cons, List.map_cons, List.map_cons, tag_eq_of_delimiters heq, ih]
  | case2 => rfl
  | case3 => rfl

/-- A range whose delimiters are read as the tags of its element. -/
def Readable (range : MarkupRange) : Prop :=
  Reads plainUnit range.opening [.start range.tag] ∧ Reads plainUnit range.closing [.close range.tag.name]

variable {host : Host} {text : Units} {ranges : List MarkupRange}

theorem sweepPiece_spec {state : Units × List MarkupRange} {piece : Nat × Nat} (hold : ∀ r ∈ state.2, Readable r)
    {active : List MarkupRange}
    (hactive : active = canonicalizeActiveMarkupRanges host (ranges.filter fun range => covers range piece.1 piece.2))
    (hnew : ∀ r ∈ active, Readable r) :
    ∃ x ts es, sweepPiece host text ranges state piece = (state.1 ++ x, active) ∧ Reads plainUnit x ts ∧
      Walks noVoid (stackOf state.2) ts (stackOf active) es ∧
      chars es = ((slice text piece.1 piece.2).flatMap expandTab).map (stackOf active, ·) := by
  obtain ⟨html, old⟩ := state
  have htags := tags_sharedPrefix old active
  generalize hshared : sharedPrefixLength old active = shared at htags
  have hclosings : Reads plainUnit ((old.drop shared).reverse.flatMap (·.closing))
      ((old.drop shared).reverse.flatMap fun r => [.close r.tag.name]) :=
    Reads.flatMap fun r hr => (hold r (List.mem_of_mem_drop (List.mem_reverse.mp hr))).2
  have hopenings : Reads plainUnit ((active.drop shared).flatMap (·.opening))
      ((active.drop shared).flatMap fun r => [.start r.tag]) :=
    Reads.flatMap fun r hr => (hnew r (List.mem_of_mem_drop hr)).1
  have hvisible := reads_escapeHtmlPreservingWhitespace (slice text piece.1 piece.2)
  obtain ⟨es, hes, hchars⟩ := @walks_switch noVoid ((old.take shared).map MarkupRange.tag)
    ((old.drop shared).map MarkupRange.tag) ((active.drop shared).map MarkupRange.tag) fun _ _ => rfl
  have hfrom : (old.take shared).map MarkupRange.tag ++ (old.drop shared).map MarkupRange.tag =
      old.map MarkupRange.tag := by rw [← List.map_append, List.take_append_drop]
  have hto : (old.take shared).map MarkupRange.tag ++ (active.drop shared).map MarkupRange.tag =
      active.map MarkupRange.tag := by rw [htags, ← List.map_append, List.take_append_drop]
  have hcloses : (((old.drop shared).map MarkupRange.tag).reverse.map fun tag => Token.close tag.name) =
      (old.drop shared).reverse.flatMap fun r => [.close r.tag.name] := by
    rw [← List.map_reverse, List.map_map, List.map_eq_flatMap]
    rfl
  have hstarts : ((active.drop shared).map MarkupRange.tag).map Token.start =
      (active.drop shared).flatMap fun r => [.start r.tag] := by
    rw [List.map_map, List.map_eq_flatMap]
    rfl
  rw [hfrom, hto, hcloses, hstarts] at hes
  have hwalk := hes.append (walks_chars (stackOf active) ((slice text piece.1 piece.2).flatMap expandTab))
  refine ⟨_, _, _, ?_, (hclosings.append hopenings).append hvisible, hwalk, ?_⟩
  · unfold sweepPiece
    simp only [← hactive, hshared, List.append_assoc]
  · rw [chars_append, hchars, List.nil_append, chars_map_char]

/-! ## The pieces -/

/-- Every end of a range is a boundary that lies ahead, or was passed. -/
def Cut (ranges : List MarkupRange) (p : Nat) (rest : List Nat) : Prop :=
  ∀ r ∈ ranges, (r.start ≤ p ∨ r.start ∈ rest) ∧ (r.stop ≤ p ∨ r.stop ∈ rest)

theorem slice_length {p q : Nat} (hq : q ≤ text.length) : (slice text p q).length = q - p := by
  rw [slice, List.length_take, List.length_drop]
  omega

theorem slice_append {p q r : Nat} (hpq : p ≤ q) (hqr : q ≤ r) : slice text p q ++ slice text q r = slice text p r := by
  have hr : r - p = (q - p) + (r - q) := by omega
  have hq : p + (q - p) = q := by omega
  rw [slice, slice, slice, hr, List.take_add, List.drop_drop, hq]

theorem annotated_append {p q r : Nat} (hpq : p ≤ q) (hqr : q ≤ r) (hr : r ≤ text.length) :
    annotated host text ranges p q ++ annotated host text ranges q r = annotated host text ranges p r := by
  have hq : p + (slice text p q).length = q := by
    rw [slice_length (Nat.le_trans hqr hr)]
    omega
  rw [annotated, annotated, annotated, ← List.flatMap_append, ← slice_append hpq hqr, List.zipIdx_append, hq]

theorem covers_piece {p q : Nat} {rest : List Nat} (hcut : Cut ranges p (q :: rest))
    (hsorted : (p :: q :: rest).Pairwise (· < ·)) {i : Nat} (hi : p ≤ i) (hi' : i < q) :
    (ranges.filter fun range => covers range i (i + 1)) = ranges.filter fun range => covers range p q := by
  apply List.filter_congr
  intro r hr
  obtain ⟨hstart, hstop⟩ := hcut r hr
  have hlater : ∀ b ∈ q :: rest, q ≤ b := by
    intro b hb
    rcases List.mem_cons.mp hb with rfl | hb
    · exact Nat.le_refl _
    · exact Nat.le_of_lt ((List.pairwise_cons.mp (List.pairwise_cons.mp hsorted).2).1 b hb)
  have hstart' : r.start ≤ p ∨ q ≤ r.start := hstart.imp_right (hlater r.start)
  have hstop' : r.stop ≤ p ∨ q ≤ r.stop := hstop.imp_right (hlater r.stop)
  unfold covers
  rw [Bool.eq_iff_iff, Bool.and_eq_true, Bool.and_eq_true, decide_eq_true_iff, decide_eq_true_iff, decide_eq_true_iff,
    decide_eq_true_iff]
  omega

theorem annotated_piece {p q : Nat} {rest : List Nat} (hcut : Cut ranges p (q :: rest))
    (hsorted : (p :: q :: rest).Pairwise (· < ·)) (hq : q ≤ text.length) :
    annotated host text ranges p q = ((slice text p q).flatMap expandTab).map
      (stackOf (canonicalizeActiveMarkupRanges host (ranges.filter fun range => covers range p q)), ·) := by
  have hmap : ∀ {α β : Type} (s : Units) (n : Nat) (f : Nat → List α) (g : α → β),
      (s.zipIdx n).flatMap (fun c => (f c.1).map g) = (s.flatMap f).map g := by
    intro α β s n f g
    rw [← List.map_flatMap, ← List.flatMap_map, List.zipIdx_map_fst]
  rw [annotated, ← hmap _ p]
  refine List.flatMap_congr fun c hc => ?_
  obtain ⟨c, i⟩ := c
  have hi := List.le_snd_of_mem_zipIdx hc
  have hi' := List.snd_lt_add_of_mem_zipIdx hc
  rw [slice_length hq] at hi'
  rw [activeAt, covers_piece hcut hsorted hi (by simp only at hi hi'; omega)]

/-- The sweep from one boundary to the end of the text. -/
theorem sweep_run (hreadable : ∀ r ∈ ranges, Readable r) (hsound : Sound ranges) {rest : List Nat} :
    ∀ {p : Nat} {state : Units × List MarkupRange}, (p :: rest).Pairwise (· < ·) → Cut ranges p rest →
      text.length ∈ p :: rest → (∀ b ∈ p :: rest, b ≤ text.length) → (∀ r ∈ state.2, Readable r) →
      ∃ x ts es active, ((p :: rest).zip rest).foldl (sweepPiece host text ranges) state = (state.1 ++ x, active) ∧
        (∀ r ∈ active, Readable r) ∧ Reads plainUnit x ts ∧ Walks noVoid (stackOf state.2) ts (stackOf active) es ∧
        chars es = annotated host text ranges p text.length := by
  induction rest with
  | nil =>
    intro p state _ _ hend _ hold
    obtain rfl : text.length = p := List.mem_singleton.mp hend
    refine ⟨[], [], [], state.2, by simp, hold, .nil, .nil _, ?_⟩
    have hnil : slice text text.length text.length = [] := by rw [slice, List.drop_length, List.take_nil]
    rw [annotated, hnil]
    rfl
  | cons q rest ih =>
    intro p state hsorted hcut hend hbound hold
    obtain ⟨hp, hsorted'⟩ := List.pairwise_cons.mp hsorted
    have hpq := hp q List.mem_cons_self
    have hq := hbound q (List.mem_cons_of_mem p List.mem_cons_self)
    generalize hactive : canonicalizeActiveMarkupRanges host (ranges.filter fun range => covers range p q) = active
    have hnew : ∀ r ∈ active, Readable r := by
      intro r hr
      rw [← hactive] at hr
      have hfiltered : Sound (ranges.filter fun range => covers range p q) := fun r hr =>
        hsound r (List.mem_of_mem_filter hr)
      exact hreadable r (List.mem_of_mem_filter ((canonicalize_canonical hfiltered).mem r hr))
    obtain ⟨x, ts, es, hstep, hreads, hwalks, hchars⟩ := @sweepPiece_spec host text ranges state (p, q) hold active
      hactive.symm hnew
    have hcut' : Cut ranges q rest := by
      intro r hr
      obtain ⟨hstart, hstop⟩ := hcut r hr
      constructor
      · rcases hstart with h | h
        · exact .inl (by omega)
        · exact (List.mem_cons.mp h).imp_left (·.le)
      · rcases hstop with h | h
        · exact .inl (by omega)
        · exact (List.mem_cons.mp h).imp_left (·.le)
    have hend' : text.length ∈ q :: rest := by
      rcases List.mem_cons.mp hend with h | h
      · omega
      · exact h
    obtain ⟨x', ts', es', active', hrest, hnew', hreads', hwalks', hchars'⟩ := @ih q (state.1 ++ x, active) hsorted'
      hcut' hend' (fun b hb => hbound b (List.mem_cons_of_mem p hb)) hnew
    refine ⟨x ++ x', ts ++ ts', es ++ es', active', ?_, hnew', hreads.append hreads', hwalks.append hwalks', ?_⟩
    · rw [List.zip_cons_cons, List.foldl_cons, hstep, hrest, List.append_assoc]
    · rw [chars_append, hchars, hchars', ← annotated_append (Nat.le_of_lt hpq) hq (Nat.le_refl _),
        annotated_piece hcut hsorted hq, hactive]

end Maxim.Max.TextMarkup
