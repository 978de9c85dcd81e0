import Maxim.Max.Markdown.Inline

/-!
# Markdown as HTML

The lines of the normalized source become headings, quotes, code blocks and
either paragraphs or lines that stay as they are.
-/

namespace Maxim.Max.Markdown

open Maxim.Library.Html
open Maxim.Max.TextMarkup (isSpaceUnit trim replaceUnit replaceSpaces slice hasScheme)

/-- `paragraphs` is the mode without an option. -/
inductive BlockMode
  | paragraphs
  | raw
  deriving DecidableEq

/-- `anchor` is the mode without an option. -/
inductive LinkMode
  | anchor
  | underline
  deriving DecidableEq

structure RenderMarkdownOptions where
  linkMode : LinkMode
  blockMode : BlockMode

/-! ## Escapes -/

def escapeHtml (value : Units) : Units :=
  replaceUnit 39 (units "&#39;") (replaceUnit 34 (units "&quot;") (replaceUnit 62 (units "&gt;")
    (replaceUnit 60 (units "&lt;") (replaceUnit 38 (units "&amp;") value))))

def escapeHtmlPreservingWhitespace (value : Units) : Units :=
  replaceSpaces false (replaceUnit 9 (units "&nbsp;&nbsp;&nbsp;&nbsp;") (escapeHtml value))

def escapeAttribute (value : Units) : Units := escapeHtml value

/-! ## Inline tokens -/

mutual

def renderInlineTokenAsPlainText : InlineToken → Units
  | .text content => content
  | .code content => content
  | .styled _ children => renderInlineTokensAsPlainText children
  | .link _ children => renderInlineTokensAsPlainText children

def renderInlineTokensAsPlainText : List InlineToken → Units
  | [] => []
  | token :: rest => renderInlineTokenAsPlainText token ++ renderInlineTokensAsPlainText rest

end

def normalizeComparableUrl (letters : Letters) (value : Units) : Units :=
  letters.toLowerCase ((trim value).reverse.dropWhile (· = 47)).reverse

def looksLikeUrlLabel (letters : Letters) (label href : Units) : Bool :=
  hasScheme label && normalizeComparableUrl letters label = normalizeComparableUrl letters href

def insertSoftBreaks (value : Units) : Units :=
  value.flatMap fun c => if (units "/.:?&=#_-").contains c then [c, 0x200B] else [c]

def styleName : Style → Units
  | .bold => units "strong"
  | .italic => units "em"
  | .underline => units "u"
  | .strike => units "s"
  | .highlight => units "mark"

def element (name content : Units) : Units := 60 :: name ++ [62] ++ content ++ (60 :: 47 :: name ++ [62])

mutual

def renderInlineToken (letters : Letters) (linkMode : LinkMode) : InlineToken → Units
  | .text content => escapeHtmlPreservingWhitespace content
  | .code content => element (units "code") (escapeHtmlPreservingWhitespace content)
  | .styled style children => element (styleName style) (renderInlineTokens letters linkMode children)
  | .link href children =>
    let plainLabel := trim (renderInlineTokensAsPlainText children)
    let labelHtml :=
      if plainLabel = [] then escapeHtml href
      else if looksLikeUrlLabel letters plainLabel href then escapeHtml (insertSoftBreaks plainLabel)
      else renderInlineTokens letters linkMode children
    match linkMode with
    | .underline => element (units "u") labelHtml
    | .anchor => units "<a href=\"" ++ escapeAttribute href ++ units "\">" ++ labelHtml ++ units "</a>"

def renderInlineTokens (letters : Letters) (linkMode : LinkMode) : List InlineToken → Units
  | [] => []
  | token :: rest => renderInlineToken letters linkMode token ++ renderInlineTokens letters linkMode rest

end

/-! ## Blocks -/

/-- What a block holds before it is rendered. A line is a block of the raw mode. -/
inductive Block
  | code (content : Units)
  | heading (level : Nat) (content : Units)
  | quote (content : Units)
  | paragraph (lines : List Units)
  | line (content : Units)
  | blank

/-- The content of the fenced block whose first line is here, and how many lines it takes. -/
def readFencedCodeBlock : List Units → Option (Units × Nat)
  | [] => none
  | openingLine :: rest =>
    if startsWithFence openingLine then
      let codeLines := rest.takeWhile fun line => !startsWithFence line
      some ([10].intercalate codeLines, if codeLines.length < rest.length then codeLines.length + 2 else rest.length + 1)
    else none

def isLineTerminator (c : Nat) : Bool := c = 10 || c = 13 || c = 0x2028 || c = 0x2029

/-- `[ \t]+(.+)$`. -/
def readLineContent (rest : Units) : Option Units :=
  let content := rest.dropWhile fun c => c = 32 || c = 9
  if content.length < rest.length ∧ content ≠ [] ∧ content.all (fun c => !isLineTerminator c) then some content
  else none

/-- The level and the content of a heading. -/
def matchHeading (trimmedLine : Units) : Option (Nat × Units) :=
  let marker := trimmedLine.takeWhile (· = 35)
  if marker.length = 0 ∨ 6 < marker.length then none
  else (readLineContent (trimmedLine.drop marker.length)).map fun content => (min 6 (max 1 marker.length), content)

def matchQuote (trimmedLine : Units) : Option Units :=
  if trimmedLine.head? = some 62 then readLineContent trimmedLine.tail else none

/-- The blocks of the raw mode, after `skip` more lines of the code block that was read last. -/
def rawBlocks : Nat → List Units → List Block
  | _, [] => []
  | skip + 1, _ :: rest => rawBlocks skip rest
  | 0, rawLine :: rest =>
    match readFencedCodeBlock (rawLine :: rest) with
    | some (content, nextIndex) => .code content :: rawBlocks (nextIndex - 1) rest
    | none =>
      let trimmedLine := trim rawLine
      if trimmedLine = [] then .blank :: rawBlocks 0 rest
      else
        match matchHeading trimmedLine with
        | some (level, content) => .heading level content :: rawBlocks 0 rest
        | none =>
          match matchQuote trimmedLine with
          | some content => .quote content :: rawBlocks 0 rest
          | none => .line rawLine :: rawBlocks 0 rest

def flushParagraph (paragraphLines : List Units) : List Block :=
  if paragraphLines = [] then [] else [.paragraph paragraphLines]

def trimEnd (s : Units) : Units := (s.reverse.dropWhile isSpaceUnit).reverse

def paragraphBlocks : Nat → List Units → List Units → List Block
  | _, paragraphLines, [] => flushParagraph paragraphLines
  | skip + 1, paragraphLines, _ :: rest => paragraphBlocks skip paragraphLines rest
  | 0, paragraphLines, rawLine :: rest =>
    match readFencedCodeBlock (rawLine :: rest) with
    | some (content, nextIndex) =>
      flushParagraph paragraphLines ++ .code content :: paragraphBlocks (nextIndex - 1) [] rest
    | none =>
      let line := trimEnd rawLine
      let trimmedLine := trim line
      if trimmedLine = [] then flushParagraph paragraphLines ++ paragraphBlocks 0 [] rest
      else
        match matchHeading trimmedLine with
        | some (level, content) =>
          flushParagraph paragraphLines ++ .heading level content :: paragraphBlocks 0 [] rest
        | none =>
          match matchQuote trimmedLine with
          | some content => flushParagraph paragraphLines ++ .quote content :: paragraphBlocks 0 [] rest
          | none => paragraphBlocks 0 (paragraphLines ++ [line]) rest

def headingName (level : Nat) : Units := [104, 48 + level]

def renderBlock (letters : Letters) (linkMode : LinkMode) : Block → Units
  | .code content => element (units "pre") (escapeHtmlPreservingWhitespace content)
  | .heading level content =>
    element (headingName level) (renderInlineTokens letters linkMode (parseInlineTokens content))
  | .quote content => element (units "blockquote") (renderInlineTokens letters linkMode (parseInlineTokens content))
  | .paragraph lines =>
    element (units "p")
      ((units "<br>").intercalate (lines.map fun line => renderInlineTokens letters linkMode (parseInlineTokens line)))
  | .line content => renderInlineTokens letters linkMode (parseInlineTokens content)
  | .blank => []

def normalizedSource (letters : Letters) (source : Units) : Units :=
  normalizeMultilineStrongMarkdown letters (replaceUnit 13 [] source)

/-- The blocks of a source and what stands between them. -/
def sourceBlocks (letters : Letters) (blockMode : BlockMode) (source : Units) : List Block :=
  let normalized := normalizedSource letters source
  if trim normalized = [] then []
  else
    match blockMode with
    | .raw => rawBlocks 0 (splitLines normalized)
    | .paragraphs => paragraphBlocks 0 [] (splitLines normalized)

def renderSupportedMarkdownAsHtml (letters : Letters) (source : Units) (options : RenderMarkdownOptions) : Units :=
  let rendered := (sourceBlocks letters options.blockMode source).map (renderBlock letters options.linkMode)
  match options.blockMode with
  | .raw => [10].intercalate rendered
  | .paragraphs => rendered.flatten

end Maxim.Max.Markdown
