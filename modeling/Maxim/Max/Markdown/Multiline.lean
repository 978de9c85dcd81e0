import Maxim.Max.TextMarkup.Html

/-!
# Entities over several lines

An inline entity may be serialized across line breaks. Its delimiters are
paired in one scan, and then every entity is closed at the end of a line and
opened again on the next one.
-/

namespace Maxim.Max.Markdown

open Maxim.Library Maxim.Library.Html
open Maxim.Max.TextMarkup (isSpaceUnit trim slice hasScheme foldCase)

/-- What the runtime knows of the letters. -/
structure Letters where
  /-- `\p{L}` or `\p{N}`, by code units. -/
  isLetterOrNumber : Nat → Bool
  toLowerCase : Units → Units

/-- `[A-Za-z0-9]` as the letters and the numbers. -/
def asciiLetters : Letters where
  isLetterOrNumber := fun c => (48 ≤ c && c ≤ 57) || (65 ≤ c && c ≤ 90) || (97 ≤ c && c ≤ 122)
  toLowerCase := fun s => s.map fun c => if 65 ≤ c ∧ c ≤ 90 then c + 32 else c

def multilineInlineMarkers : List Units :=
  [units "***", units "___", units "**", units "__", units "++", units "~~", units "^^", units "*", units "_"]

structure MultilineInlineSpan where
  openStart : Nat
  openEnd : Nat
  closeStart : Nat
  closeEnd : Nat
  /-- `open` in the source. -/
  opening : Units
  /-- `close` in the source. -/
  closing : Units
  deriving DecidableEq

structure PendingInlineFrame where
  openStart : Nat
  openEnd : Nat
  /-- `none` is the frame of a link. -/
  marker : Option Units
  invalid : Bool

/-! ## The scan context -/

structure LineBounds where
  lineStart : Nat
  lineEnd : Nat
  fenced : Bool

structure MultilineScanContext where
  escaped : List Bool
  protectedMask : List Bool
  fenced : List Bool
  url : List Bool
  lines : List LineBounds

def marked (mask : List Bool) (index : Nat) : Bool := mask.getD index false

def splitLines : Units → List Units
  | [] => [[]]
  | c :: s =>
    if c = 10 then [] :: splitLines s
    else match splitLines s with
      | [] => [[c]]
      | line :: rest => (c :: line) :: rest

def startsWithFence (line : Units) : Bool := (units "```").isPrefixOf (trim line)

/-- The characters after an odd run of backslashes. -/
def escapedMask : Nat → Units → List Bool
  | _, [] => []
  | backslashRun, c :: s =>
    if c = 92 then false :: escapedMask (backslashRun + 1) s
    else (backslashRun % 2 == 1) :: escapedMask 0 s

/-- The lines with their bounds. A line feed belongs to the line before it. -/
def lineBounds (cursor : Nat) (fenced : Bool) : List Units → List LineBounds
  | [] => []
  | line :: rest =>
    let fenceLine := startsWithFence line
    ⟨cursor, cursor + line.length, fenced || fenceLine⟩ ::
      lineBounds (cursor + line.length + 1) (if fenceLine then !fenced else fenced) rest

def lineAt (source : Units) (lines : List LineBounds) (index : Nat) : Option LineBounds :=
  if index < source.length then lines.find? fun line => line.lineStart ≤ index && index ≤ line.lineEnd else none

/-- `[^\s<>()\]["'\x60\x7b\x7d]`. -/
def isUrlUnit (c : Nat) : Bool := !(isSpaceUnit c || (units "<>()][\"'`\x7b\x7d").contains c)

/-- How much of the text, from its beginning on, is one URL. -/
def urlLength (s : Units) : Nat :=
  match [units "https://", units "http://", units "max://"].find? fun scheme => scheme.isPrefixOf (s.map foldCase) with
  | none => 0
  | some scheme =>
    let rest := (s.drop scheme.length).takeWhile isUrlUnit
    if rest = [] then 0 else scheme.length + rest.length

/-- The characters of the URLs, after `skip` more of the one that was read last. -/
def urlMask : Nat → Units → List Bool
  | _, [] => []
  | skip + 1, _ :: s => true :: urlMask skip s
  | 0, c :: s =>
    match urlLength (c :: s) with
    | 0 => false :: urlMask 0 s
    | length + 1 => true :: urlMask length s

def indexOfFrom (source : Units) (c index : Nat) : Option Nat :=
  ((source.drop index).findIdx? (· = c)).map (· + index)

/-- The fenced characters and those of the code spans, after `skip` more of the span that was read last. -/
def protectedFrom (source : Units) (escaped fenced : List Bool) (lines : List LineBounds) (index : Nat) :
    Nat → Units → List Bool
  | _, [] => []
  | skip + 1, _ :: s => true :: protectedFrom source escaped fenced lines (index + 1) skip s
  | 0, c :: s =>
    if marked fenced index || c != 96 || marked escaped index then
      marked fenced index :: protectedFrom source escaped fenced lines (index + 1) 0 s
    else
      let lineEnd := ((lineAt source lines index).map (·.lineEnd)).getD source.length
      let boundedEnd := match indexOfFrom source 96 (index + 1) with
        | none => lineEnd
        | some stop => if lineEnd < stop then lineEnd else stop
      true :: protectedFrom source escaped fenced lines (index + 1) (boundedEnd - index) s

def buildMultilineScanContext (source : Units) : MultilineScanContext :=
  let escaped := escapedMask 0 source
  let lines := lineBounds 0 false (splitLines source)
  let fenced := (List.range source.length).map fun index => ((lineAt source lines index).map (·.fenced)).getD false
  { escaped
    protectedMask := protectedFrom source escaped fenced lines 0 0 source
    fenced
    url := urlMask 0 source
    lines }

def newlinePrefix (source : Units) (index : Nat) : Nat := (source.take index).count 10

/-! ## The positions of the markers -/

section Markers

variable (letters : Letters) (source : Units) (context : MultilineScanContext)

def startsWithAt (marker : Units) (index : Nat) : Bool := marker.isPrefixOf (source.drop index)

def previousUnit (index : Nat) : Option Nat := if index = 0 then none else source[index - 1]?

def isLetterAt (c : Option Nat) : Bool := c.any letters.isLetterOrNumber

def isSpaceAt (c : Option Nat) : Bool := c.any isSpaceUnit

def isMarkerAt (index : Nat) (marker : Units) : Bool :=
  startsWithAt source marker index && !marked context.escaped index && !marked context.protectedMask index &&
    previousUnit source index != marker.head? && source[index + marker.length]? != marker.head?

def isLikelyMarkerOpen (index : Nat) (marker : Units) : Bool :=
  let next := source[index + marker.length]?
  next.isSome && !isSpaceAt next && !isLetterAt letters (previousUnit source index) && !marked context.url index

def isLikelyMarkerClose (index : Nat) (marker : Units) : Bool :=
  let previous := previousUnit source index
  let next := source[index + marker.length]?
  previous.isSome && !isSpaceAt previous && !(isLetterAt letters previous && isLetterAt letters next) &&
    (!marked context.url index || !marked context.url (index + marker.length))

def isStandaloneMarkerLine (index : Nat) (marker : Units) : Bool :=
  match lineAt source context.lines index with
  | none => false
  | some line => trim (slice source line.lineStart line.lineEnd) = marker

def isAmbiguousMarkerPosition (index : Nat) (marker : Units) : Bool :=
  isMarkerAt source context index marker &&
    (marked context.url index ||
      (isLetterAt letters (previousUnit source index) && isLetterAt letters source[index + marker.length]?))

def readLinkCloseAt (index : Nat) : Option Nat :=
  if source[index]? ≠ some 93 ∨ source[index + 1]? ≠ some 40 ∨ marked context.escaped index = true ∨
      marked context.protectedMask index = true then none
  else
    (indexOfFrom source 41 (index + 2)).bind fun destinationEnd =>
      let destination := slice source (index + 2) destinationEnd
      if destination ≠ [] ∧ destination.any isSpaceUnit = false ∧ hasScheme destination = true then
        some (destinationEnd + 1)
      else none

/-! ## The spans -/

structure Collected where
  index : Nat
  frames : List PendingInlineFrame
  spans : List MultilineInlineSpan

/-- The span of a frame that closes, unless it is invalid or on one line. -/
def closeFrame (frame : PendingInlineFrame) (index closeEnd : Nat) (opening closing : Units) :
    List MultilineInlineSpan :=
  if frame.invalid = false ∧ newlinePrefix source frame.openEnd < newlinePrefix source index then
    [⟨frame.openStart, frame.openEnd, index, closeEnd, opening, closing⟩]
  else []

def withoutFrame (marker : Option Units) (frames : List PendingInlineFrame) : List PendingInlineFrame :=
  frames.filter fun frame => frame.marker ≠ marker

/-- The frame that opens here. A second one spoils the first. -/
def openFrame (marker : Option Units) (openStart openEnd : Nat) (frames : List PendingInlineFrame) :
    List PendingInlineFrame :=
  match findKey PendingInlineFrame.marker marker frames with
  | some frame => upsert PendingInlineFrame.marker { frame with invalid := true } frames
  | none => upsert PendingInlineFrame.marker ⟨openStart, openEnd, marker, false⟩ frames

def collectMarker (marker : Units) (state : Collected) : Collected :=
  let index := state.index
  let canClose := isLikelyMarkerClose letters source context index marker ||
    isStandaloneMarkerLine source context index marker
  match canClose, findKey PendingInlineFrame.marker (some marker) state.frames with
  | true, some frame =>
    ⟨index + marker.length, withoutFrame (some marker) state.frames,
      state.spans ++ closeFrame source frame index (index + marker.length) marker marker⟩
  | _, _ =>
    if isLikelyMarkerOpen letters source context index marker then
      ⟨index + marker.length, openFrame (some marker) index (index + marker.length) state.frames, state.spans⟩
    else { state with index := index + 1 }

/-- The turn of the scan at a character that closes no link. -/
def collectOpening (state : Collected) : Collected :=
  let index := state.index
  if source[index]? = some 91 ∧ marked context.escaped index = false ∧ marked context.url index = false ∧
      isSpaceAt source[index + 1]? = false then
    ⟨index + 1, openFrame none index (index + 1) state.frames, state.spans⟩
  else
    match multilineInlineMarkers.find? fun candidate => isMarkerAt source context index candidate with
    | none => { state with index := index + 1 }
    | some marker => collectMarker letters source context marker state

def collectStep (state : Collected) : Collected :=
  let index := state.index
  if marked context.fenced index then ⟨index + 1, [], state.spans⟩
  else if marked context.protectedMask index then { state with index := index + 1 }
  else
    match readLinkCloseAt source context index, findKey PendingInlineFrame.marker none state.frames with
    | some closeEnd, some frame =>
      ⟨closeEnd, withoutFrame none state.frames,
        state.spans ++ closeFrame source frame index closeEnd (units "[") (slice source index closeEnd)⟩
    | _, _ => collectOpening letters source context state

/-- The scan. Every turn goes on by a character at least. -/
def collectFrom : Nat → Collected → List MultilineInlineSpan
  | 0, state => state.spans
  | fuel + 1, state =>
    if state.index < source.length then collectFrom fuel (collectStep letters source context state) else state.spans

def spanOrder (left right : MultilineInlineSpan) : Bool :=
  left.openStart < right.openStart || (left.openStart = right.openStart && right.closeEnd ≤ left.closeEnd)

/-- The spans that cross no other, and the stack of those that are open. -/
def discardCrossingSpans (spans : List MultilineInlineSpan) : List MultilineInlineSpan :=
  ((spans.insertionSort fun left right => spanOrder left right = true).foldl (fun state span =>
    let stack := state.2.dropWhile fun top => top.closeEnd ≤ span.openStart
    match stack.head? with
    | some parent =>
      if parent.closeStart < span.closeEnd then (state.1, stack) else (state.1 ++ [span], span :: stack)
    | none => (state.1 ++ [span], span :: stack)) ([], [])).1

def collectMultilineInlineSpans : List MultilineInlineSpan :=
  discardCrossingSpans (collectFrom letters source context source.length ⟨0, [], []⟩)

/-! ## The text with bounded lines -/

variable (spans : List MultilineInlineSpan)

def openingAt (index : Nat) : Option MultilineInlineSpan := spans.reverse.find? fun span => span.openStart = index

def closingAt (index : Nat) : Option MultilineInlineSpan := spans.reverse.find? fun span => span.closeStart = index

/-- The loop of `lineContainsOnlyPendingClosers`. Every turn goes on by a character at least. -/
def onlyPendingClosersFrom (pending : List MultilineInlineSpan) (stop : Nat) : Nat → Nat → Bool → Bool
  | 0, _, found => found
  | fuel + 1, cursor, found =>
    if cursor < stop then
      if isSpaceAt source[cursor]? then onlyPendingClosersFrom pending stop fuel (cursor + 1) found
      else
        match closingAt spans cursor with
        | none => false
        | some span =>
          if span ∈ pending then onlyPendingClosersFrom pending stop fuel span.closeEnd true else false
    else found

def lineContainsOnlyPendingClosers (start stop : Nat) (pending : List MultilineInlineSpan) : Bool :=
  onlyPendingClosersFrom source spans pending stop (source.length + 1) start false

structure Bounded where
  index : Nat
  active : List MultilineInlineSpan
  pending : Option (List MultilineInlineSpan)
  output : Units
  suppressLineBreak : Bool

/-- What happens where a line with pending spans begins. -/
def beginLine (state : Bounded) : Bounded :=
  let lineEnd := ((lineAt source context.lines state.index).map (·.lineEnd)).getD source.length
  let lineStart := ((lineAt source context.lines state.index).map (·.lineStart)).getD state.index
  match state.pending with
  | some (first :: rest) =>
    if state.index = lineStart then
      if lineContainsOnlyPendingClosers source spans state.index lineEnd (first :: rest) then
        { state with suppressLineBreak := true }
      else if trim (slice source state.index lineEnd) ≠ [] then
        { state with
          suppressLineBreak := false
          output := state.output ++ (first :: rest).flatMap (·.opening)
          pending := none }
      else { state with suppressLineBreak := false }
    else state
  | _ => state

/-- The turn at a delimiter that closes. -/
def closeSpan (span : MultilineInlineSpan) (state : Bounded) : Bounded :=
  { state with
    index := span.closeEnd
    active := (state.active.reverse.erase span).reverse
    pending := state.pending.bind fun pending =>
      let rest := pending.filter fun other => other ≠ span
      if rest = [] then none else some rest
    output :=
      if span ∈ state.pending.getD [] then state.output
      else state.output ++ slice source span.closeStart span.closeEnd }

def breakLine (state : Bounded) : Bounded :=
  let closes := state.pending = none ∧ state.active ≠ []
  { state with
    index := state.index + 1
    pending := if closes then some state.active else state.pending
    output := (if closes then state.output ++ state.active.reverse.flatMap (·.closing) else state.output) ++
      if state.suppressLineBreak then [] else [10]
    suppressLineBreak := false }

def copyUnit (state : Bounded) : Bounded :=
  match state.active.reverse.find? fun span =>
      span.opening = span.closing && startsWithAt source span.opening state.index &&
        isAmbiguousMarkerPosition letters source context state.index span.opening with
  | some ambiguous =>
    { state with
      index := state.index + ambiguous.opening.length
      output := state.output ++ ambiguous.opening.flatMap fun character => [92, character] }
  | none => { state with index := state.index + 1, output := state.output ++ source[state.index]?.toList }

def boundStep (before : Bounded) : Bounded :=
  let state := beginLine source context spans before
  match openingAt spans state.index with
  | some span =>
    { state with
      index := span.openEnd
      active := state.active ++ [span]
      output := state.output ++ slice source span.openStart span.openEnd }
  | none =>
    match closingAt spans state.index with
    | some span => closeSpan source span state
    | none =>
      if source[state.index]? = some 10 then breakLine state else copyUnit letters source context state

/-- The second scan. Every turn goes on by a character at least. -/
def boundFrom : Nat → Bounded → Units
  | 0, state => state.output
  | fuel + 1, state =>
    if state.index < source.length then boundFrom fuel (boundStep letters source context spans state)
    else state.output

def renderLineBoundedMarkdown : Units :=
  boundFrom letters source context spans source.length ⟨0, [], none, [], false⟩

end Markers

def normalizeMultilineStrongMarkdown (letters : Letters) (source : Units) : Units :=
  if 10 ∉ source then source
  else
    let context := buildMultilineScanContext source
    let spans := collectMultilineInlineSpans letters source context
    if 0 < spans.length then renderLineBoundedMarkdown letters source context spans else source

end Maxim.Max.Markdown
