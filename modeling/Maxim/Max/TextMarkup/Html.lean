import Maxim.Library.Html
import Maxim.Library.Keyed
import Mathlib.Data.List.Sort

/-!
# Message markup as HTML

The markup of a message is a list of ranges over the code units of its text.
The renderer cuts the ranges at line breaks, and between two boundaries keeps
one range of every kind open, in the order of their priorities.
-/

namespace Maxim.Max.TextMarkup

open Maxim.Library Maxim.Library.Html

inductive MaxTextMarkupType
  | emphasized
  | heading
  | highlighted
  | link
  | monospaced
  | quote
  | strikethrough
  | strong
  | underline
  | userMention
  deriving DecidableEq

structure MaxTextMarkup where
  /-- `from` in the source. -/
  offset : Int
  length : Int
  type : MaxTextMarkupType
  url : Option Units
  userLink : Option Units
  deriving DecidableEq

structure ParsedUrl where
  protocol : Units
  username : Units
  password : Units
  /-- `toString`. -/
  href : Units

/-- What the runtime does for the renderer. -/
structure Host where
  /-- `new URL`, with `none` where it throws. -/
  parseUrl : Units → Option ParsedUrl
  localeCompare : Units → Units → Int

/-! ## Texts -/

def isSpaceUnit (c : Nat) : Bool :=
  [9, 10, 11, 12, 13, 32, 160, 5760, 8232, 8233, 8239, 8287, 12288, 65279].contains c || (8192 ≤ c && c ≤ 8202)

def trim (s : Units) : Units := ((s.dropWhile isSpaceUnit).reverse.dropWhile isSpaceUnit).reverse

def replaceUnit (c : Nat) (replacement : Units) (s : Units) : Units :=
  s.flatMap fun d => if d = c then replacement else [d]

def slice (s : Units) (start stop : Nat) : Units := (s.drop start).take (stop - start)

/-- The lower case of a letter, as a pattern that ignores the case compares it. -/
def foldCase (c : Nat) : Nat :=
  if 65 ≤ c ∧ c ≤ 90 then c + 32 else if c = 0x17F then 115 else if c = 0x212A then 107 else c

/-- `^(?:max:\/\/|https?:\/\/)` without regard to the case. -/
def hasScheme (s : Units) : Bool :=
  [units "max://", units "http://", units "https://"].any fun scheme => scheme.isPrefixOf (s.map foldCase)

/-! ## Targets -/

def normalizeSafeMarkupUrl (host : Host) (value : Option Units) : Option Units :=
  let candidate := trim (value.getD [])
  if candidate = [] then none
  else do
    let parsed ← host.parseUrl candidate
    if (parsed.protocol ≠ units "http:" ∧ parsed.protocol ≠ units "https:" ∧ parsed.protocol ≠ units "max:") ∨
        parsed.username ≠ [] ∨ parsed.password ≠ [] then none
    else some (replaceUnit 92 (units "%5C") parsed.href)

def resolveMentionHref (host : Host) (value : Option Units) : Option Units :=
  match value with
  | none => none
  | some value =>
    let normalized := trim value
    if normalized = [] then none
    else
      let trimmed := normalized.dropWhile (· = 47)
      let candidate :=
        if hasScheme normalized then normalized
        else if (units "user/").isPrefixOf trimmed then units "max://" ++ trimmed
        else units "https://max.ru/" ++ trimmed
      normalizeSafeMarkupUrl host (some candidate)

/-! ## Escapes -/

def escapeHtml (value : Units) : Units :=
  replaceUnit 34 (units "&quot;") (replaceUnit 62 (units "&gt;") (replaceUnit 60 (units "&lt;")
    (replaceUnit 38 (units "&amp;") value)))

def escapeHtmlAttribute (value : Units) : Units := replaceUnit 39 (units "&#39;") (escapeHtml value)

/-- Two spaces and more become references. `previous` says that a space stands before the text. -/
def replaceSpaces : Bool → Units → Units
  | _, [] => []
  | previous, c :: s =>
    if c = 32 then
      (if previous = true ∨ s.head? = some 32 then units "&nbsp;" else [32]) ++ replaceSpaces true s
    else c :: replaceSpaces false s

def escapeHtmlPreservingWhitespace (value : Units) : Units :=
  replaceSpaces false (replaceUnit 9 (units "&nbsp;&nbsp;&nbsp;&nbsp;") (escapeHtml value))

/-! ## Ranges -/

structure Delimiters where
  opening : Units
  closing : Units
  priority : Nat
  deriving DecidableEq

def resolveMarkupHtmlTags (host : Host) (markup : MaxTextMarkup) (visibleText : Units) : Option Delimiters :=
  match markup.type with
  | .strong => some ⟨units "<strong>", units "</strong>", 20⟩
  | .heading => some ⟨units "<h3>", units "</h3>", 5⟩
  | .highlighted => some ⟨units "<mark>", units "</mark>", 25⟩
  | .quote => some ⟨units "<blockquote>", units "</blockquote>", 4⟩
  | .emphasized => some ⟨units "<em>", units "</em>", 30⟩
  | .underline => some ⟨units "<u>", units "</u>", 40⟩
  | .strikethrough => some ⟨units "<del>", units "</del>", 50⟩
  | .monospaced =>
    if 10 ∈ visibleText then some ⟨units "<pre>", units "</pre>", 60⟩
    else some ⟨units "<code>", units "</code>", 60⟩
  | .link =>
    (normalizeSafeMarkupUrl host markup.url).map fun target =>
      ⟨units "<a href=\"" ++ escapeHtmlAttribute target ++ units "\">", units "</a>", 10⟩
  | .userMention =>
    (resolveMentionHref host markup.userLink).map fun target =>
      ⟨units "<a href=\"" ++ escapeHtmlAttribute target ++ units "\">", units "</a>", 10⟩

structure Segment where
  start : Nat
  stop : Nat
  deriving DecidableEq

/-- The segment from `segmentStart` to `index`, unless it is blank. -/
def closeSegment (text : Units) (segmentStart index : Nat) : List Segment :=
  if segmentStart < index ∧ trim (slice text segmentStart index) ≠ [] then [⟨segmentStart, index⟩] else []

/-- The loop of `splitMarkupRangeByLines` over the rest of the range. -/
def splitFrom (text : Units) (index segmentStart : Nat) : Units → List Segment
  | [] => closeSegment text segmentStart index
  | [c] =>
    if c = 10 ∨ c = 13 then
      closeSegment text segmentStart index ++ closeSegment text (index + 1) (index + 1)
    else closeSegment text segmentStart (index + 1)
  | c :: d :: rest =>
    if c = 10 ∨ c = 13 then
      closeSegment text segmentStart index ++
        if c = 13 ∧ d = 10 then splitFrom text (index + 2) (index + 2) rest
        else splitFrom text (index + 1) (index + 1) (d :: rest)
    else splitFrom text (index + 1) segmentStart (d :: rest)

def splitMarkupRangeByLines (text : Units) (start stop : Nat) : List Segment :=
  splitFrom text start start (slice text start stop)

structure MarkupRange where
  start : Nat
  stop : Nat
  opening : Units
  closing : Units
  priority : Nat
  /-- Only the ranges of the markdown renderer set it. -/
  monospaced : Bool
  deriving DecidableEq

def MarkupRange.delimiters (range : MarkupRange) : Delimiters := ⟨range.opening, range.closing, range.priority⟩

/-- A range that the renderers take: not empty and inside the text. -/
def accepted (text : Units) (item : MaxTextMarkup) : Bool :=
  !(item.offset < 0 || item.offset + item.length ≤ item.offset || text.length < item.offset + item.length)

/-! ## The active ranges -/

/-- The range that stands for the ranges with its delimiters: the shortest, then the one that starts last. -/
def deduplicate (ranges : List MarkupRange) : List MarkupRange :=
  ranges.foldl (fun deduplicated range =>
    match findKey MarkupRange.delimiters range.delimiters deduplicated with
    | none => upsert MarkupRange.delimiters range deduplicated
    | some current =>
      if range.stop - range.start < current.stop - current.start ∨
          (range.stop - range.start = current.stop - current.start ∧ current.start < range.start) then
        upsert MarkupRange.delimiters range deduplicated
      else deduplicated) []

def MarkupRange.isAnchor (range : MarkupRange) : Bool :=
  (units "<a ").isPrefixOf range.opening || range.opening = units "["

def anchorOrder (host : Host) (left right : MarkupRange) : Int :=
  let length : Int := (left.stop - left.start : Int) - (right.stop - right.start)
  let start : Int := (right.start : Int) - left.start
  if length ≠ 0 then length
  else if start ≠ 0 then start
  else host.localeCompare left.opening right.opening

/-- The order of the open ranges, the outermost first. -/
def stackOrder (host : Host) (left right : MarkupRange) : Int :=
  let priority : Int := (left.priority : Int) - right.priority
  let length : Int := (right.stop - right.start : Int) - (left.stop - left.start)
  let start : Int := (left.start : Int) - right.start
  if priority ≠ 0 then priority
  else if length ≠ 0 then length
  else if start ≠ 0 then start
  else host.localeCompare left.opening right.opening

def canonicalizeActiveMarkupRanges (host : Host) (ranges : List MarkupRange) : List MarkupRange :=
  let unique := deduplicate ranges
  let anchors := (unique.filter (·.isAnchor)).insertionSort fun left right => anchorOrder host left right ≤ 0
  let selectedAnchor := anchors.head?
  (unique.filter fun range => !range.isAnchor || some range = selectedAnchor).insertionSort
    fun left right => stackOrder host left right ≤ 0

/-! ## The sweep -/

/-- The ranges of the markup, cut at line breaks. -/
def htmlRanges (host : Host) (text : Units) (markup : List MaxTextMarkup) : List MarkupRange :=
  markup.flatMap fun item =>
    if accepted text item then
      (splitMarkupRangeByLines text item.offset.toNat (item.offset + item.length).toNat).filterMap fun segment =>
        (resolveMarkupHtmlTags host item (slice text segment.start segment.stop)).map fun tag =>
          ⟨segment.start, segment.stop, tag.opening, tag.closing, tag.priority, false⟩
    else []

def sortedBoundaries (text : Units) (ranges : List MarkupRange) : List Nat :=
  (([0, text.length] ++ ranges.flatMap fun range => [range.start, range.stop]).dedup).insertionSort (· ≤ ·)

def covers (range : MarkupRange) (start stop : Nat) : Bool := range.start ≤ start && stop ≤ range.stop

/-- How many ranges stay open. -/
def sharedPrefixLength : List MarkupRange → List MarkupRange → Nat
  | left :: lefts, right :: rights =>
    if left.delimiters = right.delimiters then sharedPrefixLength lefts rights + 1 else 0
  | _, _ => 0

/-- One turn of the sweep: close, open, and write the visible text. -/
def sweepPiece (host : Host) (text : Units) (ranges : List MarkupRange) (state : Units × List MarkupRange)
    (piece : Nat × Nat) : Units × List MarkupRange :=
  let active := canonicalizeActiveMarkupRanges host (ranges.filter fun range => covers range piece.1 piece.2)
  let shared := sharedPrefixLength state.2 active
  (state.1 ++ ((state.2.drop shared).reverse.flatMap (·.closing)) ++ ((active.drop shared).flatMap (·.opening)) ++
    escapeHtmlPreservingWhitespace (slice text piece.1 piece.2), active)

def renderMaxTextMarkupAsHtml (host : Host) (text : Units) (markup : List MaxTextMarkup) : Option Units :=
  let ranges := htmlRanges host text markup
  if markup.length = 0 then none
  else if ranges.length = 0 then none
  else
    let boundaries := sortedBoundaries text ranges
    let swept := (boundaries.zip boundaries.tail).foldl (sweepPiece host text ranges) ([], [])
    some (swept.1 ++ swept.2.reverse.flatMap (·.closing))

end Maxim.Max.TextMarkup
