import Maxim.Library.Keyed
import Maxim.Library.Regex
import Maxim.Library.Table
import Maxim.Library.Unicode

/-!
# Blocked words of the message limits

The words of a list are brought to one writing and indexed by a trie of their
prefilter tokens and by their inflection roots. A detector keeps the indexes and
the patterns it has built in two caches. Texts are lists of code points, and the
matches of `collectUrlMatches` are given in code points.
-/

namespace Maxim.Moderation.BlockedWords

open Maxim.Library

abbrev Text := List Char

/-! ## Normalization -/

def MIXED_CHAR_MAP : List (Char × Char) :=
  [('a', 'а'), ('b', 'б'), ('c', 'с'), ('d', 'д'), ('e', 'е'), ('f', 'ф'), ('g', 'г'), ('h', 'х'),
    ('i', 'и'), ('j', 'й'), ('k', 'к'), ('l', 'л'), ('m', 'м'), ('n', 'н'), ('o', 'о'), ('p', 'п'),
    ('q', 'к'), ('r', 'р'), ('s', 'с'), ('t', 'т'), ('u', 'у'), ('v', 'в'), ('w', 'в'), ('x', 'х'),
    ('y', 'у'), ('z', 'з'), ('0', 'о'), ('1', 'и'), ('3', 'з'), ('4', 'а'), ('6', 'б'), ('7', 'т'),
    ('8', 'в'), ('9', 'д'), ('@', 'а'), ('$', 'с')]

def mixedChar (c : Char) : Char := (MIXED_CHAR_MAP.lookup c).getD c

def normalizeMixedWriting (value : Text) : Text := value.map mixedChar

/-- `replace(/ё/g, 'е')` on one character. -/
def yo (c : Char) : Char := if c = 'ё' then 'е' else c

structure UrlMatch where
  start : Nat
  stop : Nat

/-- The text with a space for every match, from `cursor` on. -/
def withoutMatches (value : Text) : Nat → List UrlMatch → Text
  | cursor, [] => value.drop cursor
  | cursor, m :: rest =>
    if m.stop ≤ cursor then withoutMatches value cursor rest
    else (value.take m.start).drop cursor ++ ' ' :: withoutMatches value m.stop rest

def stripUrlsFromText (collectUrlMatches : Text → List UrlMatch) (value : Text) : Text :=
  if value = [] then []
  else
    match collectUrlMatches value with
    | [] => trimSpace (squeezeSpace value)
    | found => trimSpace (squeezeSpace (withoutMatches value 0 found))

variable (U : Unicode)

def normalizeMessageLimitsBlockedWordCandidate (value : Text) : Option Text :=
  let normalized := (U.toLowerCase (trimSpace value)).map yo
  if normalized = [] then none
  else
    match runsOf (fun c => !isSpace c) normalized with
    | [part] =>
      match runsOf U.letterOrNumber part with
      | [candidate] =>
        if 2 ≤ codeUnitLength candidate ∧ codeUnitLength candidate ≤ 32 then some candidate else none
      | _ => none
    | _ => none

def normalizeLegacyStopWordIdentity (value : Text) : Option Text :=
  (normalizeMessageLimitsBlockedWordCandidate U value).map normalizeMixedWriting

/-- Two of a run of three letters or digits and more. -/
def cutRun : Text → Text
  | a :: b :: c :: rest =>
    if U.folded "abcdefghijklmnopqrstuvwxyzабвгдежзийклмнопрстуфхцчшщъыьэюя0123456789".toList a then [a, a]
    else a :: b :: c :: rest
  | run => run

/-- `replace(/([a-zа-я0-9])\1{2,}/giu, '$1$1')`. -/
def collapseRepeats (value : Text) : Text :=
  (value.splitBy fun a b => U.fold a == U.fold b).flatMap (cutRun U)

def normalizeMessageLimitsBlockedWordText (value : Text) : Text :=
  if value = [] then []
  else collapseRepeats U ((normalizeMixedWriting (U.toLowerCase value)).map yo)

def isCodeChar (c : Char) : Bool := c.isUpper || c.isDigit || c = '_' || c = '-'

def BLOCKED_WORD_ARTICLE_CODE_PATTERN : Regex Char :=
  let letterOrDigits := Regex.atLeast 2 (.one fun c => c.isUpper || c.isDigit)
  let letters := Regex.atLeast 2 (.one Char.isUpper)
  let digit := Regex.one Char.isDigit
  let tail := Regex.star (.one isCodeChar)
  .seq (.notBehind [U.letterOrNumber]) (.seq
    (.alt (.seq letterOrDigits (.plus (.seq (.one fun c => c = '-' || c = '_' || c = '/') letterOrDigits)))
      (.alt (.seq letters (.seq digit tail)) (.seq tail (.seq digit (.seq letters tail)))))
    (.notAhead [U.letterOrNumber]))

def stripMessageLimitsBlockedWordIgnoredTokens (value : Text) : Text :=
  (BLOCKED_WORD_ARTICLE_CODE_PATTERN U).replaceAll [' '] value

/-! ## Inflection roots -/

def BLOCKED_WORD_CYRILLIC_INFLECTION_SUFFIXES : List Text :=
  ["иями", "ями", "ами", "иях", "ях", "ах", "ого", "ему", "ому", "ыми", "ими", "его", "ией", "ою", "ею",
    "ую", "юю", "ая", "яя", "ое", "ее", "ые", "ие", "ий", "ый", "ой", "ов", "ев", "ей", "ам", "ям", "ом",
    "ем", "ым", "им", "ию", "ью", "ия", "ья", "а", "я", "у", "ю", "ы", "и", "ь", "й"].map String.toList

def BLOCKED_WORD_LATIN_INFLECTION_SUFFIXES : List Text :=
  ["ings", "ing", "ies", "ied", "ed", "es", "s"].map String.toList

def BLOCKED_WORD_CYRILLIC_MIN_ROOT_LENGTH : Nat := 4
def BLOCKED_WORD_LATIN_MIN_ROOT_LENGTH : Nat := 4

/-- The root by the first suffix that leaves one, or the word itself when it does not end in a vowel. -/
def resolveInflectionRootBy (suffixes : List Text) (minLength : Nat) (vowels value : Text) : Option Text :=
  let bySuffix := suffixes.findSome? fun suffix =>
    if suffix.isSuffixOf value ∧ minLength ≤ codeUnitLength (value.take (value.length - suffix.length)) then
      some (value.take (value.length - suffix.length))
    else none
  match bySuffix with
  | some root => some root
  | none =>
    if value.getLast?.any (U.folded vowels) then none
    else if minLength ≤ codeUnitLength value then some value
    else none

def resolveCyrillicMessageLimitsBlockedWordInflectionRoot (value : Text) : Option Text :=
  resolveInflectionRootBy U BLOCKED_WORD_CYRILLIC_INFLECTION_SUFFIXES BLOCKED_WORD_CYRILLIC_MIN_ROOT_LENGTH
    "аеёиоуыэюя".toList value

def resolveLatinMessageLimitsBlockedWordInflectionRoot (value : Text) : Option Text :=
  resolveInflectionRootBy U BLOCKED_WORD_LATIN_INFLECTION_SUFFIXES BLOCKED_WORD_LATIN_MIN_ROOT_LENGTH
    "aeiouy".toList value

def resolveMessageLimitsBlockedWordInflectionRoot (value : Text) : Option Text :=
  if value = [] then none
  else if value.all (U.folded "абвгдежзийклмнопрстуфхцчшщъыьэюяё".toList) then
    resolveCyrillicMessageLimitsBlockedWordInflectionRoot U value
  else if value.all (U.folded "abcdefghijklmnopqrstuvwxyz".toList) then
    resolveLatinMessageLimitsBlockedWordInflectionRoot U value
  else none

def resolveMessageLimitsBlockedWordInflectionRoots (values : List Text) : List Text :=
  (values.filterMap fun value =>
    (resolveMessageLimitsBlockedWordInflectionRoot U value).filter (· ≠ [])).eraseDups

/-! ## The trie of prefilter tokens -/

/-- A node. An absent list of terminal tokens is empty. -/
inductive ResolvedBlockedWordTrieNode where
  | node (children : Char → Option ResolvedBlockedWordTrieNode) (terminalTokens : List Text)

namespace ResolvedBlockedWordTrieNode

def children : ResolvedBlockedWordTrieNode → Char → Option ResolvedBlockedWordTrieNode
  | node children _ => children

def terminalTokens : ResolvedBlockedWordTrieNode → List Text
  | node _ terminalTokens => terminalTokens

def empty : ResolvedBlockedWordTrieNode := node (fun _ => none) []

end ResolvedBlockedWordTrieNode

/-- The node after the rest of a token is inserted below it. -/
def insertFrom (token : Text) : Text → ResolvedBlockedWordTrieNode → ResolvedBlockedWordTrieNode
  | [], n => .node n.children (if token ∈ n.terminalTokens then n.terminalTokens else n.terminalTokens ++ [token])
  | c :: rest, n =>
    .node (Function.update n.children c (some (insertFrom token rest ((n.children c).getD .empty))))
      n.terminalTokens

def insertMessageLimitsBlockedWordPrefilterToken (root : ResolvedBlockedWordTrieNode) (token : Text) :
    ResolvedBlockedWordTrieNode := insertFrom token token root

/-- The terminal tokens of the nodes on the way that code units lead. -/
def tokensOnWay : ResolvedBlockedWordTrieNode → List (Option Char) → List Text
  | _, [] => []
  | n, unit :: units =>
    match unit.bind n.children with
    | none => []
    | some next => next.terminalTokens ++ tokensOnWay next units

def findMessageLimitsBlockedWordPrefilterTokens (compactText : Text) (root : ResolvedBlockedWordTrieNode)
    (maxPrefilterTokenLength : Nat) : List Text :=
  if compactText = [] ∨ maxPrefilterTokenLength = 0 then []
  else
    ((List.range (codeUnits compactText).length).flatMap fun start =>
      tokensOnWay root (((codeUnits compactText).drop start).take maxPrefilterTokenLength)).eraseDups

/-! ## The index of a list -/

structure ResolvedBlockedWord where
  blockedWord : Text
  inflectionRoot : Option Text
  prefilterToken : Text
deriving DecidableEq

structure ResolvedBlockedWordIndex where
  maxPrefilterTokenLength : Nat
  prefilterRoot : ResolvedBlockedWordTrieNode
  words : List ResolvedBlockedWord
  wordsByInflectionRoot : Table Text (List ResolvedBlockedWord)
  wordsByPrefilterToken : Table Text (List ResolvedBlockedWord)

def resolveWord (blockedWord : Text) : ResolvedBlockedWord :=
  let inflectionRoot := resolveMessageLimitsBlockedWordInflectionRoot U blockedWord
  { blockedWord, inflectionRoot, prefilterToken := inflectionRoot.getD blockedWord }

def resolveWords (blockedWords : List Text) : List ResolvedBlockedWord :=
  ((blockedWords.map (normalizeLegacyStopWordIdentity U)).filterMap fun item =>
    item.filter (· ≠ [])).eraseDups.map (resolveWord U)

def push (t : Table Text (List ResolvedBlockedWord)) (key : Text) (word : ResolvedBlockedWord) :
    Table Text (List ResolvedBlockedWord) := t.insert key ((t.lookup key).getD [] ++ [word])

/-- One pass of the loop that builds the index. -/
def addWord (index : ResolvedBlockedWordIndex) (word : ResolvedBlockedWord) : ResolvedBlockedWordIndex :=
  { index with
    wordsByInflectionRoot :=
      match word.inflectionRoot with
      | none => index.wordsByInflectionRoot
      | some root => if root = [] then index.wordsByInflectionRoot else push index.wordsByInflectionRoot root word
    wordsByPrefilterToken := push index.wordsByPrefilterToken word.prefilterToken word
    maxPrefilterTokenLength := max index.maxPrefilterTokenLength (codeUnitLength word.prefilterToken)
    prefilterRoot := insertMessageLimitsBlockedWordPrefilterToken index.prefilterRoot word.prefilterToken }

def buildIndex (words : List ResolvedBlockedWord) : ResolvedBlockedWordIndex :=
  words.foldl addWord
    { maxPrefilterTokenLength := 0, prefilterRoot := .empty, words,
      wordsByInflectionRoot := ∅, wordsByPrefilterToken := ∅ }

/-! ## The caches -/

def BLOCKED_WORD_LIST_CACHE_MAX_ENTRIES : Nat := 512
def BLOCKED_WORD_PATTERN_CACHE_MAX_ENTRIES : Nat := 4096

abbrev Cache (ν : Type) := List (Text × ν)

/-- The value of a key, built and stored when it is not there. The oldest entry gives way. -/
def Cache.resolve {ν : Type} (maxEntries : Nat) (build : ν) (key : Text) (cache : Cache ν) : Cache ν × ν :=
  match findKey Prod.fst key cache with
  | some entry => (cache, entry.2)
  | none =>
    let stored := cache ++ [(key, build)]
    (if maxEntries < stored.length then stored.tail else stored, build)

structure MessageLimitsBlockedWordDetector where
  blockedWordListCache : Cache ResolvedBlockedWordIndex := []
  blockedWordPatternCache : Cache (Regex Char) := []

/-- `join('\u001f')`. -/
def buildBlockedWordListCacheKey (blockedWords : List Text) : Text := ['\x1f'].intercalate blockedWords

def resolveMessageLimitsBlockedWordList (d : MessageLimitsBlockedWordDetector) (blockedWords : List Text) :
    MessageLimitsBlockedWordDetector × ResolvedBlockedWordIndex :=
  let (blockedWordListCache, index) := Cache.resolve BLOCKED_WORD_LIST_CACHE_MAX_ENTRIES
    (buildIndex (resolveWords U blockedWords)) (buildBlockedWordListCacheKey blockedWords) d.blockedWordListCache
  ({ d with blockedWordListCache }, index)

/-- The characters of a word with the joiner between them. -/
def joinPattern : Text → Regex Char
  | [] => .empty
  | [c] => .one fun d => U.fold d == U.fold c
  | c :: rest =>
    .seq (.one fun d => U.fold d == U.fold c)
      (.seq (.star (.one fun d => !U.letterOrNumberFolded d)) (joinPattern rest))

def buildMessageLimitsBlockedWordPattern (value : Text) : Regex Char :=
  .seq (.notBehind [U.letterOrNumberFolded]) (.seq (joinPattern U value) (.notAhead [U.letterOrNumberFolded]))

def getMessageLimitsBlockedWordPattern (d : MessageLimitsBlockedWordDetector) (value : Text) :
    MessageLimitsBlockedWordDetector × Regex Char :=
  let (blockedWordPatternCache, pattern) := Cache.resolve BLOCKED_WORD_PATTERN_CACHE_MAX_ENTRIES
    (buildMessageLimitsBlockedWordPattern U value) value d.blockedWordPatternCache
  ({ d with blockedWordPatternCache }, pattern)

/-! ## Detection -/

inductive MatchKind where
  | inflection
  | pattern
deriving DecidableEq

structure BlockedWordDetection where
  blockedWord : Text
  matchKind : MatchKind
deriving DecidableEq

structure CandidateFlags where
  inflection : Bool := false
  prefilter : Bool := false

def CandidateFlags.withInflection (f : CandidateFlags) : CandidateFlags := { f with inflection := true }
def CandidateFlags.withPrefilter (f : CandidateFlags) : CandidateFlags := { f with prefilter := true }

abbrev FlagsByWord := Table Text CandidateFlags

def flagWord (flag : CandidateFlags → CandidateFlags) (t : FlagsByWord) (word : ResolvedBlockedWord) : FlagsByWord :=
  t.insert word.blockedWord (flag ((t.lookup word.blockedWord).getD {}))

def flagWords (flag : CandidateFlags → CandidateFlags) (wordsByKey : Table Text (List ResolvedBlockedWord))
    (keys : List Text) (t : FlagsByWord) : FlagsByWord :=
  keys.foldl (fun t key => ((wordsByKey.lookup key).getD []).foldl (flagWord flag) t) t

def candidateFlagsByBlockedWord (index : ResolvedBlockedWordIndex)
    (tokenInflectionRoots matchedPrefilterTokens : List Text) : FlagsByWord :=
  flagWords .withPrefilter index.wordsByPrefilterToken matchedPrefilterTokens
    (flagWords .withInflection index.wordsByInflectionRoot tokenInflectionRoots ∅)

/-- The last loop of `detectMatches`. -/
def reportWords (flags : FlagsByWord) (normalizedText : Text) (stopAfterFirst : Bool) :
    List ResolvedBlockedWord → MessageLimitsBlockedWordDetector →
      MessageLimitsBlockedWordDetector × List BlockedWordDetection
  | [], d => (d, [])
  | word :: rest, d =>
    match flags.lookup word.blockedWord with
    | none => reportWords flags normalizedText stopAfterFirst rest d
    | some candidate =>
      let (d, matched) :=
        if candidate.prefilter then
          let (d, pattern) := getMessageLimitsBlockedWordPattern U d word.blockedWord
          (d, pattern.test normalizedText)
        else (d, false)
      let found : Option MatchKind :=
        if matched then some .pattern else if candidate.inflection then some .inflection else none
      match found with
      | none => reportWords flags normalizedText stopAfterFirst rest d
      | some matchKind =>
        if stopAfterFirst then (d, [⟨word.blockedWord, matchKind⟩])
        else
          let (d, detections) := reportWords flags normalizedText stopAfterFirst rest d
          (d, ⟨word.blockedWord, matchKind⟩ :: detections)

variable (collectUrlMatches : Text → List UrlMatch)

def normalizedTextOf (text : Text) : Text :=
  normalizeMessageLimitsBlockedWordText U
    (stripMessageLimitsBlockedWordIgnoredTokens U (stripUrlsFromText collectUrlMatches text))

def compactTextOf (normalizedText : Text) : Text := normalizedText.filter U.letterOrNumber

/-- `match(/[a-zа-яё0-9]+/giu) ?? []`. -/
def normalizedTokensOf (normalizedText : Text) : List Text :=
  runsOf (U.folded "abcdefghijklmnopqrstuvwxyzабвгдежзийклмнопрстуфхцчшщъыьэюяё0123456789".toList) normalizedText

def detectMatches (d : MessageLimitsBlockedWordDetector) (text : Text) (blockedWords : List Text)
    (stopAfterFirst : Bool) : MessageLimitsBlockedWordDetector × List BlockedWordDetection :=
  if text = [] ∨ blockedWords = [] then (d, [])
  else
    let (d, blockedWordIndex) := resolveMessageLimitsBlockedWordList U d blockedWords
    if blockedWordIndex.words = [] then (d, [])
    else
      let normalizedText := normalizedTextOf U collectUrlMatches text
      if normalizedText = [] then (d, [])
      else
        let matchedPrefilterTokens := findMessageLimitsBlockedWordPrefilterTokens
          (compactTextOf U normalizedText) blockedWordIndex.prefilterRoot blockedWordIndex.maxPrefilterTokenLength
        let tokenInflectionRoots :=
          resolveMessageLimitsBlockedWordInflectionRoots U (normalizedTokensOf U normalizedText)
        if matchedPrefilterTokens = [] ∧ tokenInflectionRoots = [] then (d, [])
        else
          let flags := candidateFlagsByBlockedWord blockedWordIndex tokenInflectionRoots matchedPrefilterTokens
          if flags.entries = [] then (d, [])
          else reportWords U flags normalizedText stopAfterFirst blockedWordIndex.words d

def detect (d : MessageLimitsBlockedWordDetector) (text : Text) (blockedWords : List Text) :
    MessageLimitsBlockedWordDetector × Option BlockedWordDetection :=
  let (d, detections) := detectMatches U collectUrlMatches d text blockedWords true
  (d, detections.head?)

def detectAll (d : MessageLimitsBlockedWordDetector) (text : Text) (blockedWords : List Text) :
    MessageLimitsBlockedWordDetector × List BlockedWordDetection :=
  detectMatches U collectUrlMatches d text blockedWords false

/-! ## Histories -/

structure Call where
  all : Bool
  text : Text
  blockedWords : List Text

def Call.run (d : MessageLimitsBlockedWordDetector) (c : Call) : MessageLimitsBlockedWordDetector :=
  if c.all then (detectAll U collectUrlMatches d c.text c.blockedWords).1
  else (detect U collectUrlMatches d c.text c.blockedWords).1

def after (calls : List Call) : MessageLimitsBlockedWordDetector :=
  calls.foldl (Call.run U collectUrlMatches) {}

end Maxim.Moderation.BlockedWords
