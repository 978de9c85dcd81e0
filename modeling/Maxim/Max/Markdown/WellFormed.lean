import Maxim.Max.Markdown.Html
import Maxim.Max.Markdown.Tokens
import Maxim.Max.TextMarkup.Escapes
import Mathlib.Tactic.IntervalCases

/-!
# Rendered markdown is well formed

What the renderer writes is read as the tags of the tokens and the characters
of their texts. The tags are nested, the destinations are safe, and no link is
inside another.
-/

namespace Maxim.Max.Markdown

open Maxim.Library Maxim.Library.Html
open Maxim.Max.TextMarkup (isSpaceUnit slice hasScheme trim expandTab anchorTag escapeUnit escapeUnit_cases
  escapeAttributeUnit escapeHtmlAttribute escapeHtmlAttribute_eq)

def plainUnit (c : Nat) : Bool := c ≠ 62 && c ≠ 34 && c ≠ 39

/-! ## Escapes -/

theorem escapeHtml_eq (value : Units) : escapeHtml value = value.flatMap escapeAttributeUnit :=
  escapeHtmlAttribute_eq value

theorem reads_escapeAttributeUnit (c : Nat) : Reads plainUnit (escapeAttributeUnit c) [.char c] := by
  unfold escapeAttributeUnit
  split
  · next h =>
    subst h
    have hquote : Reads plainUnit (38 :: units "#39" ++ [59]) [.char 39] := reads_reference (by decide) (by decide)
    exact hquote
  · next h =>
    apply TextMarkup.reads_escapeUnit
    intro _ _ h₃ h₄
    simp [plainUnit, h, h₃, h₄]

theorem reads_escapeHtml (value : Units) : Reads plainUnit (escapeHtml value) (value.map .char) := by
  rw [escapeHtml_eq, List.map_eq_flatMap]
  exact Reads.flatMap fun c _ => reads_escapeAttributeUnit c

def escapeSpacedUnit (c : Nat) : Units := if c = 9 then units "&nbsp;&nbsp;&nbsp;&nbsp;" else escapeAttributeUnit c

theorem escapeAttributeUnit_parts {c : Nat} (hspace : c ≠ 32) (htab : c ≠ 9) :
    32 ∉ escapeAttributeUnit c ∧ 9 ∉ escapeAttributeUnit c ∧ escapeAttributeUnit c ≠ [] := by
  unfold escapeAttributeUnit
  split
  · exact ⟨by decide, by decide, by decide⟩
  · refine escapeUnit_cases (P := fun c e => c ≠ 32 → c ≠ 9 → 32 ∉ e ∧ 9 ∉ e ∧ e ≠ []) ?_ ?_ ?_ ?_ ?_ c hspace htab
    · decide
    · decide
    · decide
    · decide
    · intro c _ _ _ _ hspace htab
      exact ⟨by simpa using Ne.symm hspace, by simpa using Ne.symm htab, List.cons_ne_nil c []⟩

theorem replaceTabs_eq (value : Units) :
    TextMarkup.replaceUnit 9 (units "&nbsp;&nbsp;&nbsp;&nbsp;") (escapeHtml value) = value.flatMap escapeSpacedUnit := by
  rw [escapeHtml_eq, TextMarkup.replaceUnit_flatMap]
  refine List.flatMap_congr fun c _ => ?_
  unfold escapeSpacedUnit
  split
  · next h => rw [h]; rfl
  · next htab =>
    by_cases hspace : c = 32
    · subst hspace
      rfl
    · exact TextMarkup.replaceUnit_of_not_mem (escapeAttributeUnit_parts hspace htab).2.1

theorem reads_escapeHtmlPreservingWhitespace (value : Units) :
    Reads plainUnit (escapeHtmlPreservingWhitespace value) ((value.flatMap expandTab).map .char) := by
  rw [escapeHtmlPreservingWhitespace, replaceTabs_eq]
  refine TextMarkup.reads_replaceSpaces (by decide) (fun c hspace => ?_) (by decide) (by decide) false value
  by_cases htab : c = 9
  · subst htab
    have h := TextMarkup.reads_nbsp plainUnit
    exact ⟨by decide, by decide, h.append (h.append (h.append h))⟩
  · have hescape : escapeSpacedUnit c = escapeAttributeUnit c := if_neg htab
    have hexpand : expandTab c = [c] := if_neg htab
    obtain ⟨hno, -, hne⟩ := escapeAttributeUnit_parts hspace htab
    rw [hescape, hexpand]
    exact ⟨hno, hne, reads_escapeAttributeUnit c⟩

/-! ## What the output is read as -/

def elementTokens (tag : Tag) (content : List Token) : List Token := .start tag :: content ++ [.close tag.name]

def textTokens (content : Units) : List Token := (content.flatMap expandTab).map .char

mutual

def inlineTokenOutput (letters : Letters) (linkMode : LinkMode) : InlineToken → List Token
  | .text content => textTokens content
  | .code content => elementTokens ⟨units "code", []⟩ (textTokens content)
  | .styled style children => elementTokens ⟨styleName style, []⟩ (inlineTokensOutput letters linkMode children)
  | .link href children =>
    let plainLabel := trim (renderInlineTokensAsPlainText children)
    let label :=
      if plainLabel = [] then href.map .char
      else if looksLikeUrlLabel letters plainLabel href then (insertSoftBreaks plainLabel).map .char
      else inlineTokensOutput letters linkMode children
    elementTokens (match linkMode with | .underline => ⟨units "u", []⟩ | .anchor => anchorTag href) label

def inlineTokensOutput (letters : Letters) (linkMode : LinkMode) : List InlineToken → List Token
  | [] => []
  | token :: rest => inlineTokenOutput letters linkMode token ++ inlineTokensOutput letters linkMode rest

end

def isElementName (name : Units) : Bool := name ≠ [] && name.all isNameUnit

theorem reads_element {name content : Units} {ts : List Token} (hname : isElementName name = true)
    (h : Reads plainUnit content ts) : Reads plainUnit (element name content) (elementTokens ⟨name, []⟩ ts) := by
  unfold isElementName at hname
  rw [Bool.and_eq_true, decide_eq_true_iff] at hname
  exact ((reads_start hname.1 hname.2).append h).append (reads_end hname.1 hname.2)

theorem isElementName_styleName (style : Style) : isElementName (styleName style) = true := by
  cases style <;> decide

mutual

theorem reads_renderInlineToken (letters : Letters) (linkMode : LinkMode) : ∀ token : InlineToken,
    Reads plainUnit (renderInlineToken letters linkMode token) (inlineTokenOutput letters linkMode token)
  | .text content => by
    rw [renderInlineToken, inlineTokenOutput]
    exact reads_escapeHtmlPreservingWhitespace content
  | .code content => by
    rw [renderInlineToken, inlineTokenOutput]
    exact reads_element (by decide) (reads_escapeHtmlPreservingWhitespace content)
  | .styled style children => by
    rw [renderInlineToken, inlineTokenOutput]
    exact reads_element (isElementName_styleName style) (reads_renderInlineTokens letters linkMode children)
  | .link href children => by
    unfold renderInlineToken inlineTokenOutput
    simp only
    have hlabel : Reads plainUnit
        (if trim (renderInlineTokensAsPlainText children) = [] then escapeHtml href
          else if looksLikeUrlLabel letters (trim (renderInlineTokensAsPlainText children)) href = true then
            escapeHtml (insertSoftBreaks (trim (renderInlineTokensAsPlainText children)))
          else renderInlineTokens letters linkMode children)
        (if trim (renderInlineTokensAsPlainText children) = [] then href.map .char
          else if looksLikeUrlLabel letters (trim (renderInlineTokensAsPlainText children)) href = true then
            (insertSoftBreaks (trim (renderInlineTokensAsPlainText children))).map .char
          else inlineTokensOutput letters linkMode children) := by
      split
      · exact reads_escapeHtml href
      split
      · exact reads_escapeHtml _
      · exact reads_renderInlineTokens letters linkMode children
    cases linkMode with
    | underline => exact reads_element (by decide) hlabel
    | anchor =>
      have hclose : Reads plainUnit (units "</a>") [.close (anchorTag href).name] :=
        reads_end (List.cons_ne_nil 97 []) (by decide)
      exact ((TextMarkup.reads_anchor plainUnit href).append hlabel).append hclose

theorem reads_renderInlineTokens (letters : Letters) (linkMode : LinkMode) : ∀ tokens : List InlineToken,
    Reads plainUnit (renderInlineTokens letters linkMode tokens) (inlineTokensOutput letters linkMode tokens)
  | [] => by
    rw [renderInlineTokens, inlineTokensOutput]
    exact .nil
  | token :: rest => by
    rw [renderInlineTokens, inlineTokensOutput]
    exact (reads_renderInlineToken letters linkMode token).append (reads_renderInlineTokens letters linkMode rest)

end

/-! ## Blocks -/

def blockOutput (letters : Letters) (linkMode : LinkMode) : Block → List Token
  | .code content => elementTokens ⟨units "pre", []⟩ (textTokens content)
  | .heading level content =>
    elementTokens ⟨headingName level, []⟩ (inlineTokensOutput letters linkMode (parseInlineTokens content))
  | .quote content =>
    elementTokens ⟨units "blockquote", []⟩ (inlineTokensOutput letters linkMode (parseInlineTokens content))
  | .paragraph lines =>
    elementTokens ⟨units "p", []⟩ ([.start ⟨units "br", []⟩].intercalate
      (lines.map fun line => inlineTokensOutput letters linkMode (parseInlineTokens line)))
  | .line content => inlineTokensOutput letters linkMode (parseInlineTokens content)
  | .blank => []

/-- What the whole output is read as. -/
def documentOutput (letters : Letters) (source : Units) (options : RenderMarkdownOptions) : List Token :=
  let blocks := (sourceBlocks letters options.blockMode source).map (blockOutput letters options.linkMode)
  match options.blockMode with
  | .raw => [.char 10].intercalate blocks
  | .paragraphs => blocks.flatten

theorem Reads.intercalate {α : Type} {x : Units} {t : List Token} {f : α → Units} {g : α → List Token} {l : List α}
    (hx : Reads plainUnit x t) (h : ∀ a ∈ l, Reads plainUnit (f a) (g a)) :
    Reads plainUnit (x.intercalate (l.map f)) (t.intercalate (l.map g)) := by
  induction l with
  | nil => exact .nil
  | cons a l ih =>
    have ha := h a List.mem_cons_self
    cases l with
    | nil => simpa [List.intercalate] using ha
    | cons b l =>
      have hrest := ih fun c hc => h c (List.mem_cons_of_mem a hc)
      simp only [List.map_cons, List.intercalate, List.intersperse_cons_cons, List.flatten_cons] at hrest ⊢
      exact ha.append (hx.append hrest)

def Block.Sound : Block → Prop
  | .heading level _ => 1 ≤ level ∧ level ≤ 6
  | _ => True

theorem isElementName_headingName {level : Nat} (h : 1 ≤ level ∧ level ≤ 6) :
    isElementName (headingName level) = true := by
  obtain ⟨h, h'⟩ := h
  interval_cases level <;> decide

theorem reads_renderBlock (letters : Letters) (linkMode : LinkMode) {block : Block} (h : block.Sound) :
    Reads plainUnit (renderBlock letters linkMode block) (blockOutput letters linkMode block) := by
  cases block with
  | code content => exact reads_element (by decide) (reads_escapeHtmlPreservingWhitespace content)
  | heading level content => exact reads_element (isElementName_headingName h) (reads_renderInlineTokens letters linkMode _)
  | quote content => exact reads_element (by decide) (reads_renderInlineTokens letters linkMode _)
  | paragraph lines =>
    have hbr : Reads plainUnit (units "<br>") [.start ⟨units "br", []⟩] :=
      reads_start (List.cons_ne_nil 98 [114]) (by decide)
    exact reads_element (by decide) (Reads.intercalate hbr fun line _ => reads_renderInlineTokens letters linkMode _)
  | line content => exact reads_renderInlineTokens letters linkMode _
  | blank => exact .nil

theorem matchHeading_level {line content : Units} {level : Nat} (h : matchHeading line = some (level, content)) :
    1 ≤ level ∧ level ≤ 6 := by
  unfold matchHeading at h
  simp only at h
  split at h
  · cases h
  · obtain ⟨_, -, heq⟩ := Option.map_eq_some_iff.mp h
    have hlevel := congrArg Prod.fst heq
    simp only at hlevel
    omega

theorem sound_rawBlocks (lines : List Units) : ∀ skip, ∀ block ∈ rawBlocks skip lines, block.Sound := by
  induction lines with
  | nil =>
    intro skip block h
    cases skip <;> cases h
  | cons line rest ih =>
    intro skip block h
    cases skip with
    | succ skip => exact ih skip block h
    | zero =>
      rw [rawBlocks] at h
      split at h
      · exact (List.mem_cons.mp h).elim (fun heq => heq ▸ trivial) (ih _ block)
      simp only at h
      split at h
      · exact (List.mem_cons.mp h).elim (fun heq => heq ▸ trivial) (ih _ block)
      split at h
      · next hheading =>
        exact (List.mem_cons.mp h).elim (fun heq => heq ▸ matchHeading_level hheading) (ih _ block)
      split at h
      · exact (List.mem_cons.mp h).elim (fun heq => heq ▸ trivial) (ih _ block)
      · exact (List.mem_cons.mp h).elim (fun heq => heq ▸ trivial) (ih _ block)

theorem sound_paragraphBlocks (lines : List Units) :
    ∀ skip paragraphLines, ∀ block ∈ paragraphBlocks skip paragraphLines lines, block.Sound := by
  have hflush : ∀ paragraphLines, ∀ block ∈ flushParagraph paragraphLines, block.Sound := by
    intro paragraphLines block h
    unfold flushParagraph at h
    split at h
    · cases h
    · rw [List.mem_singleton.mp h]
      trivial
  induction lines with
  | nil =>
    intro skip paragraphLines block h
    cases skip <;> exact hflush paragraphLines block h
  | cons line rest ih =>
    intro skip paragraphLines block h
    cases skip with
    | succ skip => exact ih skip paragraphLines block h
    | zero =>
      have hblock : ∀ next other, other.Sound → block ∈ flushParagraph paragraphLines ++ other :: paragraphBlocks next [] rest →
          block.Sound := by
        intro next other hother h
        rcases List.mem_append.mp h with h | h
        · exact hflush paragraphLines block h
        · exact (List.mem_cons.mp h).elim (fun heq => heq ▸ hother) (ih next [] block)
      rw [paragraphBlocks] at h
      split at h
      · next content nextIndex _ => exact hblock _ (.code content) trivial h
      simp only at h
      split at h
      · exact (List.mem_append.mp h).elim (hflush paragraphLines block) (ih 0 [] block)
      split at h
      · next level content hheading => exact hblock 0 (.heading level content) (matchHeading_level hheading) h
      split at h
      · next content _ => exact hblock 0 (.quote content) trivial h
      · exact ih 0 _ block h

theorem sound_sourceBlocks (letters : Letters) (blockMode : BlockMode) (source : Units) :
    ∀ block ∈ sourceBlocks letters blockMode source, block.Sound := by
  intro block h
  unfold sourceBlocks at h
  simp only at h
  split at h
  · cases h
  · cases blockMode with
    | raw => exact sound_rawBlocks _ 0 block h
    | paragraphs => exact sound_paragraphBlocks _ 0 [] block h

/-- The output is read as the tags of the tokens and the characters of their texts. -/
theorem reads_document (letters : Letters) (source : Units) (options : RenderMarkdownOptions) :
    Reads plainUnit (renderSupportedMarkdownAsHtml letters source options) (documentOutput letters source options) := by
  have hblocks : ∀ block ∈ sourceBlocks letters options.blockMode source,
      Reads plainUnit (renderBlock letters options.linkMode block) (blockOutput letters options.linkMode block) :=
    fun block h => reads_renderBlock letters options.linkMode (sound_sourceBlocks letters _ source block h)
  unfold renderSupportedMarkdownAsHtml documentOutput
  cases hmode : options.blockMode with
  | raw =>
    rw [hmode] at hblocks
    exact Reads.intercalate (reads_char (by decide) (by decide) (by decide)) hblocks
  | paragraphs =>
    rw [hmode] at hblocks
    simp only [← List.flatMap_def]
    exact Reads.flatMap hblocks

/-! ## The elements -/

def isVoid (name : Units) : Bool := name = units "br"

def elementNames : List Units :=
  [units "p", units "br", units "h1", units "h2", units "h3", units "h4", units "h5", units "h6", units "blockquote",
    units "pre", units "strong", units "em", units "u", units "s", units "mark", units "code", units "a"]

/-- A start tag where some elements are open. -/
structure SafeStart (stack : List Tag) (tag : Tag) : Prop where
  name : tag.name ∈ elementNames
  attributes : tag.attributes = [] ∨ (tag.name = units "a" ∧ ∃ href, tag.attributes = [(units "href", href)] ∧
    hasScheme href = true ∧ ∀ c ∈ href, isSpaceUnit c = false)
  noNesting : tag.name = units "a" → ∀ outer ∈ stack, outer.name ≠ units "a"

def SafeEvents (events : List (List Tag × Token)) : Prop := ∀ e ∈ events, ∀ tag, e.2 = .start tag → SafeStart e.1 tag

/-- Some tokens leave the open elements as they are, and their start tags are safe. -/
def Balanced (stack : List Tag) (ts : List Token) : Prop :=
  ∃ events, Walks isVoid stack ts stack events ∧ SafeEvents events

theorem Balanced.nil (stack : List Tag) : Balanced stack [] :=
  ⟨[], .nil stack, fun e he => by cases he⟩

variable {stack : List Tag}

theorem Balanced.append {ts us : List Token} (h : Balanced stack ts) (h' : Balanced stack us) :
    Balanced stack (ts ++ us) := by
  obtain ⟨es, hes, hsafe⟩ := h
  obtain ⟨fs, hfs, hsafe'⟩ := h'
  exact ⟨es ++ fs, hes.append hfs, fun e he => (List.mem_append.mp he).elim (hsafe e) (hsafe' e)⟩

theorem Balanced.intercalate {α : Type} {t : List Token} {f : α → List Token} {l : List α}
    (ht : Balanced stack t) (h : ∀ a ∈ l, Balanced stack (f a)) : Balanced stack (t.intercalate (l.map f)) := by
  induction l with
  | nil => exact .nil stack
  | cons a l ih =>
    have ha := h a List.mem_cons_self
    cases l with
    | nil => simpa [List.intercalate] using ha
    | cons b l =>
      have hrest := ih fun c hc => h c (List.mem_cons_of_mem a hc)
      simp only [List.map_cons, List.intercalate, List.intersperse_cons_cons, List.flatten_cons] at hrest ⊢
      exact ha.append (ht.append hrest)

theorem Balanced.flatten {α : Type} {f : α → List Token} {l : List α}
    (h : ∀ a ∈ l, Balanced stack (f a)) : Balanced stack (l.map f).flatten := by
  induction l with
  | nil => exact .nil stack
  | cons a l ih =>
    rw [List.map_cons, List.flatten_cons]
    exact (h a List.mem_cons_self).append (ih fun b hb => h b (List.mem_cons_of_mem a hb))

theorem balanced_chars (stack : List Tag) (s : Units) : Balanced stack (s.map .char) := by
  refine ⟨_, walks_chars stack s, ?_⟩
  intro e he tag htag
  obtain ⟨c, -, rfl⟩ := List.mem_map.mp he
  cases htag

theorem balanced_element {tag : Tag} {ts : List Token} (hsafe : SafeStart stack tag)
    (hvoid : isVoid tag.name = false) (h : Balanced (tag :: stack) ts) : Balanced stack (elementTokens tag ts) := by
  obtain ⟨es, hes, hevents⟩ := h
  refine ⟨_, ((walks_start stack hvoid).append hes).append (walks_close stack tag), ?_⟩
  intro e he other hother
  rw [List.append_nil, List.mem_append, List.mem_singleton] at he
  rcases he with rfl | he
  · obtain rfl := Token.start.inj hother
    exact hsafe
  · exact hevents e he other hother

theorem safeStart_of_name {name : Units} (hname : name ∈ elementNames) (ha : name ≠ units "a") :
    SafeStart stack ⟨name, []⟩ := ⟨hname, .inl rfl, fun h => absurd h ha⟩

def InLink (inLink : Bool) (stack : List Tag) : Prop := inLink = false → ∀ outer ∈ stack, outer.name ≠ units "a"

theorem InLink.cons {inLink : Bool} {stack : List Tag} {tag : Tag} (h : InLink inLink stack)
    (htag : tag.name ≠ units "a") : InLink inLink (tag :: stack) := by
  intro hlink outer houter
  rcases List.mem_cons.mp houter with rfl | houter
  · exact htag
  · exact h hlink outer houter

mutual

theorem balanced_inlineToken (letters : Letters) (linkMode : LinkMode) : ∀ (token : InlineToken) {inLink : Bool}
    {stack : List Tag}, SafeToken inLink token → InLink inLink stack →
      Balanced stack (inlineTokenOutput letters linkMode token)
  | .text content, _, stack, _, _ => by
    rw [inlineTokenOutput]
    exact balanced_chars stack _
  | .code content, _, stack, _, _ => by
    rw [inlineTokenOutput]
    exact balanced_element (safeStart_of_name (by decide) (by decide)) (by decide) (balanced_chars _ _)
  | .styled style children, inLink, stack, hsafe, hlink => by
    rw [SafeToken] at hsafe
    rw [inlineTokenOutput]
    have hname : styleName style ∈ elementNames ∧ styleName style ≠ units "a" ∧ isVoid (styleName style) = false := by
      cases style <;> decide
    exact balanced_element (safeStart_of_name hname.1 hname.2.1) hname.2.2
      (balanced_inlineTokens letters linkMode children hsafe (hlink.cons hname.2.1))
  | .link href children, inLink, stack, hsafe, hlink => by
    rw [SafeToken] at hsafe
    obtain ⟨rfl, hscheme, hclean, hchildren⟩ := hsafe
    unfold inlineTokenOutput
    simp only
    have hlabel : ∀ inner, Balanced inner
        (if trim (renderInlineTokensAsPlainText children) = [] then href.map .char
          else if looksLikeUrlLabel letters (trim (renderInlineTokensAsPlainText children)) href = true then
            (insertSoftBreaks (trim (renderInlineTokensAsPlainText children))).map .char
          else inlineTokensOutput letters linkMode children) := by
      intro inner
      split
      · exact balanced_chars inner href
      split
      · exact balanced_chars inner _
      · exact balanced_inlineTokens letters linkMode children hchildren (fun h => by cases h)
    cases linkMode with
    | underline =>
      have hsafe : SafeStart stack ⟨units "u", []⟩ := safeStart_of_name (by decide) (by decide)
      exact balanced_element hsafe (by decide : isVoid (units "u") = false) (hlabel _)
    | anchor =>
      have hsafe : SafeStart stack (anchorTag href) :=
        ⟨(by decide : units "a" ∈ elementNames), .inr ⟨rfl, href, rfl, hscheme, hclean⟩, fun _ => hlink rfl⟩
      exact balanced_element hsafe (by decide : isVoid (units "a") = false) (hlabel _)

theorem balanced_inlineTokens (letters : Letters) (linkMode : LinkMode) : ∀ (tokens : List InlineToken) {inLink : Bool}
    {stack : List Tag}, SafeTokens inLink tokens → InLink inLink stack →
      Balanced stack (inlineTokensOutput letters linkMode tokens)
  | [], _, stack, _, _ => by
    rw [inlineTokensOutput]
    exact .nil stack
  | token :: rest, inLink, stack, hsafe, hlink => by
    rw [SafeTokens] at hsafe
    rw [inlineTokensOutput]
    exact (balanced_inlineToken letters linkMode token hsafe.1 hlink).append
      (balanced_inlineTokens letters linkMode rest hsafe.2 hlink)

end

theorem balanced_block (letters : Letters) (linkMode : LinkMode) {block : Block} (h : block.Sound) :
    Balanced [] (blockOutput letters linkMode block) := by
  have hline : ∀ stack content, InLink false stack →
      Balanced stack (inlineTokensOutput letters linkMode (parseInlineTokens content)) := fun _ content hlink =>
    balanced_inlineTokens letters linkMode _ (safeTokens_parseInlineTokens content) hlink
  have hnone : InLink false [] := fun _ _ h => by cases h
  cases block with
  | code content =>
    exact balanced_element (safeStart_of_name (by decide) (by decide)) (by decide) (balanced_chars _ _)
  | heading level content =>
    have hname : headingName level ∈ elementNames ∧ headingName level ≠ units "a" ∧ isVoid (headingName level) = false := by
      obtain ⟨h, h'⟩ := h
      interval_cases level <;> decide
    exact balanced_element (safeStart_of_name hname.1 hname.2.1) hname.2.2 (hline _ content (hnone.cons hname.2.1))
  | quote content =>
    exact balanced_element (safeStart_of_name (by decide) (by decide)) (by decide) (hline _ content (hnone.cons (by decide)))
  | paragraph lines =>
    refine balanced_element (safeStart_of_name (by decide) (by decide)) (by decide) ?_
    have hlink : InLink false [⟨units "p", []⟩] := hnone.cons (by decide)
    have hbr : Balanced [⟨units "p", []⟩] [.start ⟨units "br", []⟩] := by
      refine ⟨_, walks_void _ (by decide), ?_⟩
      intro e he tag htag
      obtain rfl := List.mem_singleton.mp he
      obtain rfl := Token.start.inj htag
      exact safeStart_of_name (by decide) (by decide)
    exact Balanced.intercalate hbr fun line _ => hline _ line hlink
  | line content => exact hline [] content hnone
  | blank => exact .nil []

/-- The output is read as the tags and the texts of its tokens. The tags are nested, only links have an attribute,
and that is a destination that the pattern takes. -/
theorem rendered_markdown_well_formed (letters : Letters) (source : Units) (options : RenderMarkdownOptions) :
    ∃ events, read plainUnit .text (renderSupportedMarkdownAsHtml letters source options) =
        some (documentOutput letters source options) ∧
      walk isVoid [] (documentOutput letters source options) = some events ∧ SafeEvents events := by
  have hblocks : ∀ block ∈ sourceBlocks letters options.blockMode source,
      Balanced [] (blockOutput letters options.linkMode block) := fun block h =>
    balanced_block letters options.linkMode (sound_sourceBlocks letters _ source block h)
  have hdocument : Balanced [] (documentOutput letters source options) := by
    unfold documentOutput
    cases hmode : options.blockMode with
    | raw =>
      rw [hmode] at hblocks
      exact Balanced.intercalate (balanced_chars [] [10]) hblocks
    | paragraphs =>
      rw [hmode] at hblocks
      exact Balanced.flatten hblocks
  obtain ⟨events, hwalks, hsafe⟩ := hdocument
  exact ⟨events, (reads_document letters source options).read_eq, hwalks.walk_eq, hsafe⟩

/-- The pattern of the destinations ignores the case, and the destination is kept as it is. -/
theorem rendered_href_keeps_case : ¬ ∀ (letters : Letters) (source : Units) (options : RenderMarkdownOptions) events,
    (read plainUnit .text (renderSupportedMarkdownAsHtml letters source options)).bind (walk isVoid []) = some events →
      ∀ e ∈ events, ∀ tag, e.2 = .start tag → ∀ pair ∈ tag.attributes,
        ∃ scheme ∈ [units "http://", units "https://", units "max://"], scheme.isPrefixOf pair.2 = true := by
  intro h
  have hlink := h asciiLetters (units "[a](HTTP://b)") ⟨.anchor, .raw⟩
    [([], .start (anchorTag (units "HTTP://b"))), ([anchorTag (units "HTTP://b")], .char 97)] (by decide +kernel)
    _ List.mem_cons_self _ rfl _ List.mem_cons_self
  revert hlink
  decide

end Maxim.Max.Markdown
