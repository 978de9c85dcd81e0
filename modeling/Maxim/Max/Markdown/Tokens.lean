import Maxim.Max.Markdown.Inline

/-!
# The links of a line

The label of a link ends at its first bracket that may end it. So no token of a
label is a link, at any depth, and the destination of every link is one that
the pattern takes.
-/

namespace Maxim.Max.Markdown

open Maxim.Library.Html
open Maxim.Max.TextMarkup (isSpaceUnit slice hasScheme)

/-- No bracket that may end a label stands in the text, after a run of backslashes. -/
def linkFree : Nat → Units → Bool
  | _, [] => true
  | run, c :: s =>
    if c = 92 then linkFree (run + 1) s
    else !(c = 93 && s.head? = some 40 && run % 2 = 0) && linkFree 0 s

/-- After a character that is no backslash there is no bracket that may end a label. -/
def Linkless (s : Units) : Prop := ∀ x c y, s = x ++ c :: y → c ≠ 92 → linkFree 0 y = true

variable {s value rest : Units}

theorem linkFree_cons_of_ne {run c : Nat} (hc : c ≠ 92) (h : linkFree run (c :: s) = true) :
    linkFree 0 s = true := by
  rw [linkFree, if_neg hc, Bool.and_eq_true] at h
  exact h.2

theorem linkFree_suffix {x y : Units} {c : Nat} (hc : c ≠ 92) :
    ∀ {run : Nat}, linkFree run (x ++ c :: y) = true → linkFree 0 y = true := by
  induction x with
  | nil =>
    intro run h
    exact linkFree_cons_of_ne hc h
  | cons d x ih =>
    intro run h
    by_cases hd : d = 92
    · rw [List.cons_append, linkFree, if_pos hd] at h
      exact ih h
    · exact ih (linkFree_cons_of_ne hd h)

theorem linkFree_prefix {x y : Units} : ∀ {run : Nat}, linkFree run (x ++ y) = true → linkFree run x = true := by
  induction x with
  | nil =>
    intro run _
    rfl
  | cons c x ih =>
    intro run h
    rw [List.cons_append, linkFree] at h
    rw [linkFree]
    split
    · next hc =>
      rw [if_pos hc] at h
      exact ih h
    · next hc =>
      rw [if_neg hc, Bool.and_eq_true] at h
      rw [Bool.and_eq_true]
      refine ⟨?_, ih h.2⟩
      cases x with
      | nil => simp
      | cons d x => exact h.1

theorem Linkless.suffix {t : Units} (h : Linkless s) (ht : t <:+ s) : Linkless t := by
  obtain ⟨p, rfl⟩ := ht
  intro x c y hx hc
  exact h (p ++ x) c y (by rw [hx, List.append_assoc]) hc

theorem Linkless.infix {p q : Units} (h : Linkless (p ++ s ++ q)) : Linkless s := by
  intro x c y hx hc
  subst hx
  exact linkFree_prefix (h (p ++ x) c (y ++ q) (by simp) hc)

/-! ## The scan for a label -/

theorem scanLink_none :
    ∀ {index run : Nat}, linkFree run rest = true → scanLink value index run rest = none := by
  induction rest with
  | nil =>
    intro index run _
    rfl
  | cons c rest ih =>
    intro index run h
    rw [scanLink]
    split
    · rfl
    split
    · next hc =>
      rw [linkFree, if_pos hc] at h
      exact ih h
    · next hc =>
      rw [linkFree, if_neg hc, Bool.and_eq_true] at h
      split
      · exact ih h.2
      · next hend =>
        simp only [not_or, ne_eq, not_not] at hend
        obtain ⟨hbracket, hrun, hhead, -⟩ := hend
        have heven : run % 2 = 0 := by omega
        simp [hbracket, hhead, heven] at h

theorem matchLinkToken_none (h : Linkless value) : matchLinkToken value = none := by
  unfold matchLinkToken
  split
  · rfl
  · next hhead =>
    cases value with
    | nil => rfl
    | cons c rest =>
      obtain rfl : c = 91 := by simpa using hhead
      exact scanLink_none (h [] 91 rest rfl (by decide))

theorem readDestination_clean {href : Units} (h : readDestination rest = some href) :
    ∀ c ∈ href, isSpaceUnit c = false := by
  unfold readDestination at h
  simp only at h
  split at h
  · obtain rfl := Option.some.inj h
    intro c hc
    have hunit := List.mem_takeWhile_imp hc
    rw [Bool.and_eq_true, Bool.not_eq_true'] at hunit
    exact hunit.2
  · cases h

/-- What a link is that the scan finds. -/
structure FoundLink (value : Units) (index run : Nat) (rest : Units) (found : LinkMatch) : Prop where
  scheme : hasScheme found.href = true
  clean : ∀ c ∈ found.href, isSpaceUnit c = false
  label : ∃ x y, rest = x ++ 93 :: 40 :: y ∧ found.label = slice value 1 (index + x.length) ∧
    (index ≠ 1 → linkFree run x = true) ∧
    (index = 1 → ∃ c x', x = c :: x' ∧ linkFree (if c = 92 then run + 1 else 0) x' = true)
  rawLength : 2 ≤ found.rawLength

theorem scanLink_found {found : LinkMatch} :
    ∀ {index run : Nat}, 0 < index → scanLink value index run rest = some found →
      FoundLink value index run rest found := by
  induction rest with
  | nil =>
    intro index run _ h
    cases h
  | cons c rest ih =>
    intro index run hindex h
    rw [scanLink] at h
    split at h
    · cases h
    -- a character of the label
    have hgo : ∀ next, scanLink value (index + 1) next rest = some found →
        (index ≠ 1 → ∀ x, linkFree next x = true → rest.head? = (x ++ [93]).head? → linkFree run (c :: x) = true) →
        next = (if c = 92 then run + 1 else 0) → FoundLink value index run (c :: rest) found := by
      intro next hscan hfree hnext
      have hfound := ih (Nat.succ_pos index) hscan
      obtain ⟨x, y, hrest, hlabel, hlink, -⟩ := hfound.label
      have hx := hlink (by omega)
      refine ⟨hfound.scheme, hfound.clean, ⟨c :: x, y, by rw [hrest]; rfl, ?_, fun hne => ?_, fun _ => ?_⟩, hfound.rawLength⟩
      · rw [hlabel, List.length_cons, Nat.succ_eq_add_one, Nat.add_assoc, Nat.add_comm 1]
      · refine hfree hne x hx ?_
        rw [hrest]
        cases x <;> rfl
      · exact ⟨c, x, rfl, hnext ▸ hx⟩
    split at h
    · next hc =>
      refine hgo (run + 1) h (fun _ x hx _ => ?_) (if_pos hc).symm
      rw [linkFree, if_pos hc]
      exact hx
    · next hc =>
      split at h
      · next hgoes =>
        refine hgo 0 h (fun hne x hx hhead => ?_) (if_neg hc).symm
        rw [linkFree, if_neg hc, Bool.and_eq_true]
        refine ⟨?_, hx⟩
        by_cases hend : c = 93 ∧ x.head? = some 40 ∧ run % 2 = 0
        · obtain ⟨hbracket, hparen, heven⟩ := hend
          rcases hgoes with hgoes | hgoes | hgoes | hgoes
          · exact absurd hbracket hgoes
          · omega
          · cases x with
            | nil => cases hparen
            | cons d x => exact absurd (hhead.trans hparen) hgoes
          · exact absurd hgoes hne
        · simp only [Bool.not_eq_true', Bool.and_eq_false_iff, decide_eq_false_iff_not]
          simp only [not_and_or] at hend
          rcases hend with h | h | h
          · exact .inl (.inl h)
          · exact .inl (.inr h)
          · exact .inr h
      · next hend =>
        simp only [not_or, ne_eq, not_not] at hend
        obtain ⟨rfl, -, hhead, hindex'⟩ := hend
        split at h
        · cases h
        · next href hdestination =>
          split at h
          · cases h
          · next hhref =>
            obtain rfl := Option.some.inj h
            rw [not_or] at hhref
            refine ⟨by simpa using hhref.2, readDestination_clean hdestination, ⟨[], rest.tail, ?_, rfl, fun _ => rfl,
              fun h => absurd h hindex'⟩, by simp only; omega⟩
            rw [List.nil_append]
            cases rest with
            | nil => cases hhead
            | cons d rest =>
              obtain rfl := Option.some.inj hhead
              rfl

/-- A link that is found has a safe destination and a label without links. -/
theorem matchLinkToken_found {found : LinkMatch} (h : matchLinkToken value = some found) :
    hasScheme found.href = true ∧ (∀ c ∈ found.href, isSpaceUnit c = false) ∧ Linkless found.label := by
  unfold matchLinkToken at h
  split at h
  · cases h
  · have hfound := scanLink_found Nat.one_pos h
    obtain ⟨x, y, hrest, hlabel, -, hfirst⟩ := hfound.label
    obtain ⟨c, x', rfl, hfree⟩ := hfirst rfl
    refine ⟨hfound.scheme, hfound.clean, ?_⟩
    have hx : found.label = c :: x' := by
      rw [hlabel, slice, List.drop_one, hrest, Nat.add_sub_cancel_left, List.take_left]
    rw [hx]
    intro u d y hu hd
    cases u with
    | nil =>
      obtain ⟨rfl, rfl⟩ := List.cons.inj hu
      rwa [if_neg hd] at hfree
    | cons e u =>
      obtain ⟨rfl, rfl⟩ := List.cons.inj hu
      exact linkFree_suffix hd hfree

end Maxim.Max.Markdown

/-!
## The tokens of a line

Every link of a line has a destination that the pattern takes, and no link is
inside another.
-/

namespace Maxim.Max.Markdown

open Maxim.Library.Html
open Maxim.Max.TextMarkup (isSpaceUnit slice hasScheme)

mutual

/-- Safe destinations, and no link inside a link. -/
def SafeToken (inLink : Bool) : InlineToken → Prop
  | .text _ => True
  | .code _ => True
  | .styled _ children => SafeTokens inLink children
  | .link href children =>
    inLink = false ∧ hasScheme href = true ∧ (∀ c ∈ href, isSpaceUnit c = false) ∧ SafeTokens true children

def SafeTokens (inLink : Bool) : List InlineToken → Prop
  | [] => True
  | token :: rest => SafeToken inLink token ∧ SafeTokens inLink rest

end

theorem safeTokens_append {inLink : Bool} {tokens tokens' : List InlineToken} (h : SafeTokens inLink tokens)
    (h' : SafeTokens inLink tokens') : SafeTokens inLink (tokens ++ tokens') := by
  induction tokens with
  | nil => exact h'
  | cons token tokens ih =>
    rw [SafeTokens] at h
    rw [List.cons_append, SafeTokens]
    exact ⟨h.1, ih h.2⟩

theorem safeTokens_flushPlainText (inLink : Bool) (plainText : Units) :
    SafeTokens inLink (flushPlainText plainText) := by
  unfold flushPlainText
  split
  · trivial
  · exact ⟨trivial, trivial⟩

variable {value marker : Units}

theorem Linkless.of_slice (h : Linkless value) (a b : Nat) : Linkless (slice value a b) := by
  have hvalue : value = value.take a ++ slice value a b ++ (value.drop a).drop (b - a) := by
    rw [slice, List.append_assoc, List.take_append_drop, List.take_append_drop]
  rw [hvalue] at h
  exact h.infix

variable {found : ContentMatch}

theorem scanMarker_content {rest : Units} :
    ∀ {index : Nat}, scanMarker value marker index rest = some found → ∃ k, found.content = slice value marker.length k := by
  induction rest with
  | nil =>
    intro index h
    cases h
  | cons c rest ih =>
    intro index h
    rw [scanMarker] at h
    split at h
    · cases h
    split at h
    · cases h
    split at h
    · exact ih h
    split at h
    · exact ih h
    · obtain rfl := Option.some.inj h
      exact ⟨index, rfl⟩

/-- What stands between markers has no link when the value has none. -/
theorem Linkless.content (h : Linkless value)
    (hfound : matchDelimitedInlineContent value marker = some found) : Linkless found.content := by
  unfold matchDelimitedInlineContent at hfound
  split at hfound
  · obtain ⟨k, hk⟩ := scanMarker_content hfound
    rw [hk]
    exact h.of_slice _ _
  · cases hfound

theorem Linkless.either {marker' : Units} (h : Linkless value)
    (hfound : matchEither value marker marker' = some found) : Linkless found.content := by
  unfold matchEither at hfound
  cases hfirst : matchDelimitedInlineContent value marker with
  | some first =>
    rw [hfirst] at hfound
    obtain rfl := Option.some.inj hfound
    exact h.content hfirst
  | none =>
    rw [hfirst] at hfound
    exact h.content hfound

/-- What a token is: a link with its label, code, or text between markers. -/
theorem matchToken_cases {parse : Units → List InlineToken} {token : TokenMatch}
    (h : matchToken parse value = some token) :
    (∃ found, matchLinkToken value = some found ∧ token.node = .link found.href (parse found.label)) ∨
      (∃ content, token.node = .code content) ∨
      ∃ marker marker' found, matchEither value marker marker' = some found ∧
        (∃ style, token.node = .styled style (parse found.content) ∨
          token.node = .styled style [.styled .italic (parse found.content)]) := by
  have hsame : ∀ marker found, matchDelimitedInlineContent value marker = some found →
      matchEither value marker marker = some found := by
    intro marker found hfound
    unfold matchEither
    rw [hfound]
    rfl
  unfold matchToken at h
  split at h
  · next found hlink =>
    obtain rfl := Option.some.inj h
    exact .inl ⟨found, hlink, rfl⟩
  split at h
  · next content _ =>
    obtain rfl := Option.some.inj h
    exact .inr (.inl ⟨content, rfl⟩)
  split at h
  · next found hfound =>
    obtain rfl := Option.some.inj h
    exact .inr (.inr ⟨_, _, found, hfound, .bold, .inr rfl⟩)
  split at h
  · next found hfound =>
    obtain rfl := Option.some.inj h
    exact .inr (.inr ⟨_, _, found, hfound, .bold, .inl rfl⟩)
  split at h
  · next found hfound =>
    obtain rfl := Option.some.inj h
    exact .inr (.inr ⟨_, _, found, hsame _ found hfound, .underline, .inl rfl⟩)
  split at h
  · next found hfound =>
    obtain rfl := Option.some.inj h
    exact .inr (.inr ⟨_, _, found, hsame _ found hfound, .strike, .inl rfl⟩)
  split at h
  · next found hfound =>
    obtain rfl := Option.some.inj h
    exact .inr (.inr ⟨_, _, found, hsame _ found hfound, .highlight, .inl rfl⟩)
  split at h
  · next found hfound =>
    split at h
    · cases h
    · obtain rfl := Option.some.inj h
      exact .inr (.inr ⟨_, _, found, hfound, .italic, .inl rfl⟩)
  · cases h

/-- A line gives safe tokens. A line without a link gives no link. -/
theorem parseFrom_safe (inLink : Bool) (fuel : Nat) : ∀ {plainText source : Units},
    (inLink = true → Linkless source) → SafeTokens inLink (parseFrom fuel plainText source) := by
  induction fuel generalizing inLink with
  | zero =>
    intro plainText source _
    exact safeTokens_flushPlainText inLink plainText
  | succ fuel ih =>
    intro plainText source hsource
    cases source with
    | nil => exact safeTokens_flushPlainText inLink plainText
    | cons c rest =>
      have hsuffix : ∀ {s : Units}, s <:+ c :: rest → inLink = true → Linkless s := fun hs hlink =>
        (hsource hlink).suffix hs
      rw [parseFrom]
      split
      · exact ih inLink (hsuffix ((List.tail_suffix rest).trans (List.suffix_cons c rest)))
      split
      · exact ih inLink (hsuffix (List.suffix_cons c rest))
      · next token htoken =>
        apply safeTokens_append (safeTokens_flushPlainText inLink plainText)
        rw [SafeTokens]
        refine ⟨?_, ih inLink (hsuffix (List.drop_suffix _ _))⟩
        rcases matchToken_cases htoken with ⟨found, hfound, hnode⟩ | ⟨content, hnode⟩ | ⟨_, _, found, hfound, style, hnode⟩
        · obtain ⟨hscheme, hclean, hlabel⟩ := matchLinkToken_found hfound
          rw [hnode, SafeToken]
          refine ⟨?_, hscheme, hclean, ih true fun _ => hlabel⟩
          cases inLink with
          | false => rfl
          | true =>
            rw [matchLinkToken_none (hsource rfl)] at hfound
            cases hfound
        · rw [hnode, SafeToken]
          trivial
        · have hchildren := @ih inLink [] _ fun hlink => (hsource hlink).either hfound
          rcases hnode with hnode | hnode
          · rw [hnode, SafeToken]
            exact hchildren
          · rw [hnode, SafeToken, SafeTokens, SafeToken]
            exact ⟨hchildren, trivial⟩

/-! ## Enough fuel -/

theorem scanMarker_rawLength {rest : Units} :
    ∀ {index : Nat}, scanMarker value marker index rest = some found → marker.length ≤ found.rawLength := by
  induction rest with
  | nil =>
    intro index h
    cases h
  | cons c rest ih =>
    intro index h
    rw [scanMarker] at h
    split at h
    · cases h
    split at h
    · cases h
    split at h
    · exact ih h
    split at h
    · exact ih h
    · obtain rfl := Option.some.inj h
      exact Nat.le_add_left _ _

/-- What is inside of a token is shorter than the value, and the token takes a character at least. -/
theorem matchDelimited_shorter (hmarker : marker ≠ [])
    (h : matchDelimitedInlineContent value marker = some found) :
    found.content.length < value.length ∧ 0 < found.rawLength := by
  have hpos := List.length_pos_iff.mpr hmarker
  unfold matchDelimitedInlineContent at h
  split at h
  · next hprefix =>
    have hle := (List.isPrefixOf_iff_prefix.mp hprefix).length_le
    obtain ⟨k, hk⟩ := scanMarker_content h
    have := scanMarker_rawLength h
    rw [hk, slice, List.length_take, List.length_drop]
    omega
  · cases h

theorem matchEither_shorter {marker' : Units} (hmarker : marker ≠ [])
    (hmarker' : marker' ≠ []) (h : matchEither value marker marker' = some found) :
    found.content.length < value.length ∧ 0 < found.rawLength := by
  unfold matchEither at h
  cases hfirst : matchDelimitedInlineContent value marker with
  | some first =>
    rw [hfirst] at h
    obtain rfl := Option.some.inj h
    exact matchDelimited_shorter hmarker hfirst
  | none =>
    rw [hfirst] at h
    exact matchDelimited_shorter hmarker' h

theorem matchLinkToken_shorter {found : LinkMatch} (h : matchLinkToken value = some found) :
    found.label.length < value.length ∧ 0 < found.rawLength := by
  unfold matchLinkToken at h
  split at h
  · cases h
  · next hhead =>
    have hfound := scanLink_found Nat.one_pos h
    obtain ⟨x, y, -, hlabel, -, -⟩ := hfound.label
    have hraw := hfound.rawLength
    have hpos : 0 < value.length := by
      cases value with
      | nil => cases h
      | cons c rest => exact Nat.succ_pos _
    rw [hlabel, slice, List.length_take, List.length_drop]
    omega

theorem matchToken_congr {parse parse' : Units → List InlineToken}
    (h : ∀ s, s.length < value.length → parse s = parse' s) : matchToken parse value = matchToken parse' value := by
  have hone : ∀ {marker found}, marker ≠ [] → matchDelimitedInlineContent value marker = some found →
      parse found.content = parse' found.content := fun hmarker hfound =>
    h _ (matchDelimited_shorter hmarker hfound).1
  have heither : ∀ {marker marker' found}, marker ≠ [] → marker' ≠ [] → matchEither value marker marker' = some found →
      parse found.content = parse' found.content := fun hmarker hmarker' hfound =>
    h _ (matchEither_shorter hmarker hmarker' hfound).1
  unfold matchToken
  split
  · next found hlink => rw [h _ (matchLinkToken_shorter hlink).1]
  split
  · rfl
  split
  · next found hfound => rw [heither (by decide) (by decide) hfound]
  split
  · next found hfound => rw [heither (by decide) (by decide) hfound]
  split
  · next found hfound => rw [hone (by decide) hfound]
  split
  · next found hfound => rw [hone (by decide) hfound]
  split
  · next found hfound => rw [hone (by decide) hfound]
  split
  · next found hfound => rw [heither (by decide) (by decide) hfound]
  · rfl

theorem matchToken_rawLength {parse : Units → List InlineToken} {token : TokenMatch}
    (h : matchToken parse value = some token) : 0 < token.rawLength := by
  have heither : ∀ {marker marker' found}, marker ≠ [] → marker' ≠ [] → matchEither value marker marker' = some found →
      0 < found.rawLength := fun hmarker hmarker' hfound => (matchEither_shorter hmarker hmarker' hfound).2
  unfold matchToken at h
  split at h
  · next hlink => exact Option.some.inj h ▸ (matchLinkToken_shorter hlink).2
  split at h
  · exact Option.some.inj h ▸ Nat.succ_pos _
  split at h
  · next hfound => exact Option.some.inj h ▸ heither (by decide) (by decide) hfound
  split at h
  · next hfound => exact Option.some.inj h ▸ heither (by decide) (by decide) hfound
  split at h
  · next hfound => exact Option.some.inj h ▸ (matchDelimited_shorter (by decide) hfound).2
  split at h
  · next hfound => exact Option.some.inj h ▸ (matchDelimited_shorter (by decide) hfound).2
  split at h
  · next hfound => exact Option.some.inj h ▸ (matchDelimited_shorter (by decide) hfound).2
  split at h
  · next hfound =>
    split at h
    · cases h
    · exact Option.some.inj h ▸ heither (by decide) (by decide) hfound
  · cases h

/-- The fuel of the parser is enough: more of it changes nothing. -/
theorem parseFrom_fuel : ∀ {fuel fuel' : Nat} {plainText source : Units}, source.length ≤ fuel →
    source.length ≤ fuel' → parseFrom fuel plainText source = parseFrom fuel' plainText source := by
  intro fuel
  induction fuel with
  | zero =>
    intro fuel' plainText source h _
    obtain rfl := List.eq_nil_of_length_eq_zero (Nat.le_zero.mp h)
    cases fuel' <;> rfl
  | succ fuel ih =>
    intro fuel' plainText source h h'
    cases source with
    | nil => cases fuel' <;> rfl
    | cons c rest =>
      obtain ⟨fuel', rfl⟩ : ∃ n, fuel' = n + 1 := ⟨fuel' - 1, by rw [List.length_cons] at h'; omega⟩
      rw [List.length_cons] at h h'
      have hmatch : matchToken (parseFrom fuel []) (c :: rest) = matchToken (parseFrom fuel' []) (c :: rest) :=
        matchToken_congr fun s hs => ih (by rw [List.length_cons] at hs; omega) (by rw [List.length_cons] at hs; omega)
      rw [parseFrom, parseFrom, hmatch]
      split
      · exact ih (by rw [List.length_tail]; omega) (by rw [List.length_tail]; omega)
      split
      · exact ih (by omega) (by omega)
      · next token htoken =>
        have hpos := matchToken_rawLength htoken
        have hlength : ((c :: rest).drop token.rawLength).length ≤ rest.length := by
          rw [List.length_drop, List.length_cons]
          omega
        have hrest : parseFrom fuel [] ((c :: rest).drop token.rawLength) =
            parseFrom fuel' [] ((c :: rest).drop token.rawLength) := ih (by omega) (by omega)
        rw [hrest]

theorem parseFrom_fuel_emphasis : parseFrom 3 [] [42, 97, 42] = parseFrom 9 [] [42, 97, 42] :=
  parseFrom_fuel (by decide) (by decide)

theorem safeTokens_parseInlineTokens (source : Units) : SafeTokens false (parseInlineTokens source) :=
  parseFrom_safe false _ fun h => by cases h

end Maxim.Max.Markdown
