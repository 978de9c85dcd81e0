import Maxim.Max.Markdown.Multiline

/-!
# Inline tokens

The tokens of one line: links, code, and text between two markers. The label
of a link and the text between markers are read again.
-/

namespace Maxim.Max.Markdown

open Maxim.Library.Html
open Maxim.Max.TextMarkup (isSpaceUnit slice hasScheme)

inductive Style
  | bold
  | italic
  | underline
  | strike
  | highlight
  deriving DecidableEq

inductive InlineToken
  | text (content : Units)
  | styled (style : Style) (children : List InlineToken)
  | code (content : Units)
  | link (href : Units) (children : List InlineToken)

def escapableMarkdownCharacters : Units := units "\\`*_[]()~+#^>"

def isEscapedMarkdownPosition (source : Units) (index : Nat) : Bool :=
  ((source.take index).reverse.takeWhile (· = 92)).length % 2 == 1

structure LinkMatch where
  label : Units
  href : Units
  rawLength : Nat

/-- The destination of a link, when it ends with a bracket and has no white space before it. -/
def readDestination (rest : Units) : Option Units :=
  let destination := rest.takeWhile fun c => c ≠ 41 && !isSpaceUnit c
  if rest[destination.length]? = some 41 then some destination else none

/-- The loop of `matchLinkToken` from an index, over the rest of the value. -/
def scanLink (value : Units) (index backslashRun : Nat) : Units → Option LinkMatch
  | [] => none
  | character :: rest =>
    if character = 10 then none
    else if character = 92 then scanLink value (index + 1) (backslashRun + 1) rest
    else if character ≠ 93 ∨ backslashRun % 2 = 1 ∨ rest.head? ≠ some 40 ∨ index = 1 then
      scanLink value (index + 1) 0 rest
    else
      match readDestination rest.tail with
      | none => none
      | some href =>
        if href = [] ∨ hasScheme href = false then none
        else some ⟨slice value 1 index, href, index + 2 + href.length + 1⟩

def matchLinkToken (value : Units) : Option LinkMatch :=
  if value.head? ≠ some 91 then none else scanLink value 1 0 value.tail

structure ContentMatch where
  content : Units
  rawLength : Nat

/-- The loop of `matchDelimitedInlineContent` from an index, over the rest of the value. -/
def scanMarker (value marker : Units) (index : Nat) : Units → Option ContentMatch
  | [] => none
  | character :: rest =>
    if value.length < index + marker.length then none
    else if character = 10 then none
    else if !marker.isPrefixOf (character :: rest) || isEscapedMarkdownPosition value index then
      scanMarker value marker (index + 1) rest
    else if slice value marker.length index = [] then scanMarker value marker (index + 1) rest
    else some ⟨slice value marker.length index, index + marker.length⟩

def matchDelimitedInlineContent (value marker : Units) : Option ContentMatch :=
  if marker.isPrefixOf value then scanMarker value marker marker.length (value.drop marker.length) else none

def matchCode (value : Units) : Option Units :=
  let content := value.tail.takeWhile fun c => c ≠ 96 && c ≠ 10
  if value.head? = some 96 ∧ content ≠ [] ∧ value.tail[content.length]? = some 96 then some content else none

def matchEither (value marker marker' : Units) : Option ContentMatch :=
  (matchDelimitedInlineContent value marker).orElse fun _ => matchDelimitedInlineContent value marker'

structure TokenMatch where
  rawLength : Nat
  node : InlineToken

/-- The token at the beginning of a value, where `parse` reads what is inside. -/
def matchToken (parse : Units → List InlineToken) (value : Units) : Option TokenMatch :=
  match matchLinkToken value with
  | some found => some ⟨found.rawLength, .link found.href (parse found.label)⟩
  | none =>
  match matchCode value with
  | some content => some ⟨content.length + 2, .code content⟩
  | none =>
  match matchEither value (units "***") (units "___") with
  | some found => some ⟨found.rawLength, .styled .bold [.styled .italic (parse found.content)]⟩
  | none =>
  match matchEither value (units "**") (units "__") with
  | some found => some ⟨found.rawLength, .styled .bold (parse found.content)⟩
  | none =>
  match matchDelimitedInlineContent value (units "++") with
  | some found => some ⟨found.rawLength, .styled .underline (parse found.content)⟩
  | none =>
  match matchDelimitedInlineContent value (units "~~") with
  | some found => some ⟨found.rawLength, .styled .strike (parse found.content)⟩
  | none =>
  match matchDelimitedInlineContent value (units "^^") with
  | some found => some ⟨found.rawLength, .styled .highlight (parse found.content)⟩
  | none =>
  match matchEither value (units "*") (units "_") with
  | some found =>
    if found.content.all fun c => c = 42 || c = 95 then none
    else some ⟨found.rawLength, .styled .italic (parse found.content)⟩
  | none => none

def flushPlainText (plainText : Units) : List InlineToken := if plainText = [] then [] else [.text plainText]

/-- The loop of `parseInlineTokens` over the rest of the source. Every turn goes on by a character at least, and
what is inside of a token is shorter than the rest. -/
def parseFrom : Nat → Units → Units → List InlineToken
  | 0, plainText, _ => flushPlainText plainText
  | _ + 1, plainText, [] => flushPlainText plainText
  | fuel + 1, plainText, c :: rest =>
    match (if c = 92 then rest.head?.filter (escapableMarkdownCharacters.contains ·) else none) with
    | some escaped => parseFrom fuel (plainText ++ [escaped]) rest.tail
    | none =>
      match matchToken (parseFrom fuel []) (c :: rest) with
      | none => parseFrom fuel (plainText ++ [c]) rest
      | some token => flushPlainText plainText ++ token.node :: parseFrom fuel [] ((c :: rest).drop token.rawLength)

def parseInlineTokens (source : Units) : List InlineToken := parseFrom source.length [] source

end Maxim.Max.Markdown
