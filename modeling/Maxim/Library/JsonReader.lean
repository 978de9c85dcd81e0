import Maxim.Library.Bytes
import Maxim.Library.Json
import Mathlib.Data.Rat.Defs
import Mathlib.Tactic.NormNum

/-!
# Reading JSON

`JSON.parse` of a text. An object of texts that `JSON.stringify` has written is
read back. A lone surrogate, which no text of characters holds, is read as
U+FFFD.
-/

namespace Maxim.Library.Json

inductive Value
  | null
  | boolean (b : Bool)
  | number (q : ℚ)
  | text (s : List Char)
  | array (items : List Value)
  | object (fields : List (List Char × Value))

/-- The value of a field; of two fields with one name the later one counts. -/
def Value.field (v : Value) (name : String) : Option Value :=
  match v with
  | .object fields => (fields.reverse.find? fun f => decide (f.1 = name.toList)).map (·.2)
  | _ => none

def Value.text? : Value → Option (List Char)
  | .text s => some s
  | _ => none

def Value.isOne : Value → Bool
  | .number q => decide (1 - 1 / 2 ^ 54 ≤ q ∧ q ≤ 1 + 1 / 2 ^ 53)
  | _ => false

def isBlank (c : Char) : Bool := c = ' ' || c = '\t' || c = '\n' || c = '\r'

def skipBlank (s : List Char) : List Char := s.dropWhile isBlank

/-! ## Texts -/

def hexDigit (c : Char) : Option Nat :=
  if c.isDigit then some (c.toNat - 48)
  else if 'a' ≤ c ∧ c ≤ 'f' then some (c.toNat - 87)
  else if 'A' ≤ c ∧ c ≤ 'F' then some (c.toNat - 55)
  else none

def unescape (c : Char) : Option Char :=
  if c = '"' ∨ c = '\\' ∨ c = '/' then some c
  else if c = 'b' then some '\x08'
  else if c = 't' then some '\t'
  else if c = 'n' then some '\n'
  else if c = 'f' then some '\x0c'
  else if c = 'r' then some '\r'
  else none

/-- Up to the closing quote: the characters and the escaped units, and what follows. -/
def readUnits : List Char → Option (List Nat × List Char)
  | [] => none
  | c :: r =>
    if c = '"' then some ([], r)
    else if c = '\\' then
      match r with
      | [] => none
      | e :: r =>
        if e = 'u' then
          match r with
          | a :: b :: c :: d :: r => do
            let a ← hexDigit a
            let b ← hexDigit b
            let c ← hexDigit c
            let d ← hexDigit d
            (readUnits r).map fun p => ((((a * 16 + b) * 16 + c) * 16 + d) :: p.1, p.2)
          | _ => none
        else do
          let c ← unescape e
          (readUnits r).map fun p => (c.toNat :: p.1, p.2)
    else if c.toNat < 32 then none
    else (readUnits r).map fun p => (c.toNat :: p.1, p.2)

/-- A unit after a first half of a surrogate pair, if one is waiting. -/
def joinUnits : Option Nat → List Nat → List Char
  | none, [] => []
  | some _, [] => [replacement]
  | none, n :: r =>
    if 0xD800 ≤ n ∧ n ≤ 0xDBFF then joinUnits (some n) r
    else if 0xDC00 ≤ n ∧ n ≤ 0xDFFF then replacement :: joinUnits none r
    else Char.ofNat n :: joinUnits none r
  | some high, n :: r =>
    if 0xDC00 ≤ n ∧ n ≤ 0xDFFF then
      Char.ofNat (0x10000 + (high - 0xD800) * 1024 + (n - 0xDC00)) :: joinUnits none r
    else if 0xD800 ≤ n ∧ n ≤ 0xDBFF then replacement :: joinUnits (some n) r
    else replacement :: Char.ofNat n :: joinUnits none r

def readText (s : List Char) : Option (List Char × List Char) :=
  (readUnits s).map fun p => (joinUnits none p.1, p.2)

theorem joinUnits_toNat (s : List Char) : joinUnits none (s.map Char.toNat) = s := by
  induction s with
  | nil => rfl
  | cons c s ih =>
    have hc := toNat_scalar c
    rw [List.map_cons, joinUnits, if_neg (by omega), if_neg (by omega), ih, Char.ofNat_toNat]

theorem hexDigit_digitChar {n : Nat} (hn : n < 16) : hexDigit (Nat.digitChar n) = some n := by
  have hall : ∀ k : Fin 16, hexDigit (Nat.digitChar k) = some k.val := by decide
  exact hall ⟨n, hn⟩

theorem readUnits_escape {c e : Char} (hu : e ≠ 'u') (he : unescape e = some c) (r : List Char) :
    readUnits ('\\' :: e :: r) = (readUnits r).map fun p => (c.toNat :: p.1, p.2) := by
  rw [readUnits.eq_def]
  dsimp only
  rw [if_neg (by decide), if_pos rfl, if_neg hu, he]
  rfl

theorem readUnits_unit {a b c d : Char} {w x y z : Nat} (ha : hexDigit a = some w)
    (hb : hexDigit b = some x) (hc : hexDigit c = some y) (hd : hexDigit d = some z) (r : List Char) :
    readUnits ('\\' :: 'u' :: a :: b :: c :: d :: r) =
      (readUnits r).map fun p => ((((w * 16 + x) * 16 + y) * 16 + z) :: p.1, p.2) := by
  rw [readUnits.eq_def]
  dsimp only
  rw [if_neg (by decide), if_pos rfl, if_pos rfl, ha, hb, hc, hd]
  rfl

/-- One quoted character is read as that character. -/
theorem readUnits_quoteChar (c : Char) (r : List Char) :
    readUnits (quoteChar c ++ r) = (readUnits r).map fun p => (c.toNat :: p.1, p.2) := by
  unfold quoteChar
  split
  · next h =>
    subst h
    exact readUnits_escape (by decide) rfl r
  split
  · next h =>
    subst h
    exact readUnits_escape (by decide) rfl r
  split
  · next h =>
    subst h
    exact readUnits_escape (by decide) rfl r
  split
  · next h =>
    subst h
    exact readUnits_escape (by decide) rfl r
  split
  · next h =>
    subst h
    exact readUnits_escape (by decide) rfl r
  split
  · next h =>
    subst h
    exact readUnits_escape (by decide) rfl r
  split
  · next h =>
    subst h
    exact readUnits_escape (by decide) rfl r
  split
  · next h =>
    have hhigh : hexDigit (Nat.digitChar (c.toNat / 16)) = some (c.toNat / 16) :=
      hexDigit_digitChar (by omega)
    have hlow : hexDigit (Nat.digitChar (c.toNat % 16)) = some (c.toNat % 16) :=
      hexDigit_digitChar (by omega)
    have hvalue : ((0 * 16 + 0) * 16 + c.toNat / 16) * 16 + c.toNat % 16 = c.toNat := by omega
    have hread := readUnits_unit (w := 0) (x := 0) (a := '0') (b := '0') rfl rfl hhigh hlow r
    rwa [hvalue] at hread
  · next hquote hslash _ _ _ _ _ hsmall =>
    rw [List.singleton_append, readUnits.eq_def]
    dsimp only
    rw [if_neg hquote, if_neg hslash, if_neg hsmall]

theorem readUnits_quoted (s r : List Char) :
    readUnits (s.flatMap quoteChar ++ '"' :: r) = some (s.map Char.toNat, r) := by
  induction s with
  | nil =>
    rw [List.flatMap_nil, List.nil_append, readUnits.eq_def]
    rfl
  | cons c s ih =>
    rw [List.flatMap_cons, List.append_assoc, readUnits_quoteChar, ih]
    rfl

theorem readText_quoted (s r : List Char) : readText (s.flatMap quoteChar ++ '"' :: r) = some (s, r) := by
  rw [readText, readUnits_quoted, Option.map_some, joinUnits_toNat]

/-! ## Numbers -/

def readDigits (s : List Char) : Option (List Char × List Char) :=
  if s.takeWhile Char.isDigit = [] then none
  else some (s.takeWhile Char.isDigit, s.dropWhile Char.isDigit)

def readFraction : List Char → Option (ℚ × List Char)
  | '.' :: r => (readDigits r).map fun p => ((Nat.ofDigitChars 10 p.1 0 : ℚ) / 10 ^ p.1.length, p.2)
  | r => some (0, r)

def readExponent : List Char → Option (ℚ × List Char)
  | [] => some (1, [])
  | c :: r =>
    if c = 'e' ∨ c = 'E' then
      match r with
      | '-' :: r => (readDigits r).map fun p => (1 / 10 ^ Nat.ofDigitChars 10 p.1 0, p.2)
      | '+' :: r => (readDigits r).map fun p => (10 ^ Nat.ofDigitChars 10 p.1 0, p.2)
      | r => (readDigits r).map fun p => (10 ^ Nat.ofDigitChars 10 p.1 0, p.2)
    else some (1, c :: r)

def readUnsigned (s : List Char) : Option (ℚ × List Char) := do
  let (whole, s) ← readDigits s
  if 1 < whole.length ∧ whole.head? = some '0' then none
  else
    let (fraction, s) ← readFraction s
    let (scale, s) ← readExponent s
    some (((Nat.ofDigitChars 10 whole 0 : ℚ) + fraction) * scale, s)

def readNumber : List Char → Option (ℚ × List Char)
  | '-' :: r => (readUnsigned r).map fun p => (-p.1, p.2)
  | r => readUnsigned r

/-! ## Values -/

/-- What follows the character, when it comes next. -/
def expect (c : Char) (s : List Char) : Option (List Char) :=
  match skipBlank s with
  | [] => none
  | d :: r => if d = c then some r else none

def readLiteral : List Char → Option (Value × List Char)
  | 't' :: 'r' :: 'u' :: 'e' :: r => some (.boolean true, r)
  | 'f' :: 'a' :: 'l' :: 's' :: 'e' :: r => some (.boolean false, r)
  | 'n' :: 'u' :: 'l' :: 'l' :: r => some (.null, r)
  | r => (readNumber r).map fun p => (.number p.1, p.2)

mutual

/-- A value at the beginning and what follows it. The first argument bounds the depth. -/
def readValue : Nat → List Char → Option (Value × List Char)
  | 0, _ => none
  | fuel + 1, s =>
    match expect '"' s with
    | some r => (readText r).map fun p => (.text p.1, p.2)
    | none =>
      match expect '{' s with
      | some r =>
        match expect '}' r with
        | some r => some (.object [], r)
        | none => (readFields fuel r).map fun p => (.object p.1, p.2)
      | none =>
        match expect '[' s with
        | some r =>
          match expect ']' r with
          | some r => some (.array [], r)
          | none => (readItems fuel r).map fun p => (.array p.1, p.2)
        | none => readLiteral (skipBlank s)

/-- The fields of an object up to its closing brace. -/
def readFields : Nat → List Char → Option (List (List Char × Value) × List Char)
  | 0, _ => none
  | fuel + 1, s =>
    (expect '"' s).bind fun r =>
      (readText r).bind fun n =>
        (expect ':' n.2).bind fun r =>
          (readValue fuel r).bind fun v =>
            match expect ',' v.2 with
            | some r => (readFields fuel r).map fun p => ((n.1, v.1) :: p.1, p.2)
            | none => (expect '}' v.2).map fun r => ([(n.1, v.1)], r)

/-- The items of an array up to its closing bracket. -/
def readItems : Nat → List Char → Option (List Value × List Char)
  | 0, _ => none
  | fuel + 1, s =>
    (readValue fuel s).bind fun v =>
      match expect ',' v.2 with
      | some r => (readItems fuel r).map fun p => (v.1 :: p.1, p.2)
      | none => (expect ']' v.2).map fun r => ([v.1], r)

end

/-- `JSON.parse`; nothing for a text that is no JSON. -/
def parse (s : List Char) : Option Value :=
  (readValue (2 * s.length + 2) s).bind fun p => if skipBlank p.2 = [] then some p.1 else none

/-! ## Objects that were written -/

/-- A field of an object: its name, the text of its value, and the value. -/
structure Field where
  name : List Char
  text : List Char
  value : Value

def Field.quoted (f : Field) : List Char := Json.quoted f.name ++ ':' :: f.text

def objectText (fields : List Field) : List Char :=
  '{' :: [','].intercalate (fields.map Field.quoted) ++ ['}']

def Reads (text : List Char) (value : Value) : Prop :=
  ∀ fuel c r, c = ',' ∨ c = '}' → readValue (fuel + 1) (text ++ c :: r) = some (value, c :: r)

theorem quoted_append (s r : List Char) : quoted s ++ r = '"' :: (s.flatMap quoteChar ++ '"' :: r) := by
  simp [quoted]

theorem expect_cons {c : Char} (hc : isBlank c = false) (r : List Char) : expect c (c :: r) = some r := by
  rw [expect, skipBlank, List.dropWhile_cons_of_neg (by rw [hc]; exact Bool.false_ne_true)]
  exact if_pos rfl

theorem expect_other {c d : Char} (hd : isBlank d = false) (hne : d ≠ c) (r : List Char) :
    expect c (d :: r) = none := by
  rw [expect, skipBlank, List.dropWhile_cons_of_neg (by rw [hd]; exact Bool.false_ne_true)]
  exact if_neg hne

theorem reads_quoted (s : List Char) : Reads (quoted s) (.text s) := by
  intro fuel c r _
  rw [quoted_append, readValue, expect_cons (by decide)]
  dsimp only
  rw [readText_quoted]
  rfl

theorem reads_null : Reads ['n', 'u', 'l', 'l'] .null := fun _ _ _ _ => rfl

theorem reads_one : Reads ['1'] (.number 1) := by
  intro fuel c r hc
  show (readUnsigned ('1' :: c :: r)).map (fun p => (Value.number p.1, p.2)) = _
  rcases hc with rfl | rfl
  · simp [readUnsigned, readDigits, readFraction, readExponent, Nat.ofDigitChars]
  · simp [readUnsigned, readDigits, readFraction, readExponent, Nat.ofDigitChars]

theorem readFields_field {f : Field} (hf : Reads f.text f.value) (fuel : Nat) {c : Char}
    (hc : c = ',' ∨ c = '}') (r : List Char) :
    readFields (fuel + 2) (f.quoted ++ c :: r) =
      if c = ',' then (readFields (fuel + 1) r).map fun p => ((f.name, f.value) :: p.1, p.2)
      else some ([(f.name, f.value)], r) := by
  rw [Field.quoted, List.append_assoc, quoted_append, readFields, expect_cons (by decide), Option.bind_some,
    List.cons_append, readText_quoted, Option.bind_some, expect_cons (by decide), Option.bind_some,
    hf fuel c r hc, Option.bind_some]
  rcases hc with rfl | rfl
  · rw [expect_cons (by decide)]
    rfl
  · rw [expect_other (by decide) (by decide), expect_cons (by decide)]
    rfl

theorem readFields_fields (f : Field) (fields : List Field)
    (hreads : ∀ g ∈ f :: fields, Reads g.text g.value) (fuel : Nat) (hfuel : fields.length ≤ fuel)
    (r : List Char) :
    readFields (fuel + 2) ([','].intercalate ((f :: fields).map Field.quoted) ++ '}' :: r) =
      some ((f :: fields).map fun g => (g.name, g.value), r) := by
  induction fields generalizing f fuel with
  | nil =>
    rw [List.map_singleton, List.intercalate_singleton,
      readFields_field (hreads f List.mem_cons_self) fuel (.inr rfl), if_neg (by decide)]
    rfl
  | cons g fields ih =>
    obtain ⟨fuel, rfl⟩ : ∃ k, fuel = k + 1 := ⟨fuel - 1, by rw [List.length_cons] at hfuel; omega⟩
    have hrest := ih g (fun x hx => hreads x (List.mem_cons_of_mem _ hx)) fuel
      (by rw [List.length_cons] at hfuel; omega)
    rw [List.map_cons, List.map_cons, List.intercalate_cons_cons, List.append_assoc, List.append_assoc,
      List.singleton_append, readFields_field (hreads f List.mem_cons_self) _ (.inl rfl), if_pos rfl,
      ← List.map_cons, hrest]
    rfl

theorem length_le_intercalate (fields : List Field) :
    fields.length ≤ ([','].intercalate (fields.map Field.quoted)).length + 1 := by
  induction fields with
  | nil => simp
  | cons f fields ih =>
    cases fields with
    | nil => simp
    | cons g fields =>
      rw [List.map_cons, List.map_cons, List.intercalate_cons_cons, ← List.map_cons]
      simp only [List.length_append, List.length_cons] at ih ⊢
      omega

theorem expect_brace_fields (f : Field) (fields : List Field) (r : List Char) :
    expect '}' ([','].intercalate ((f :: fields).map Field.quoted) ++ r) = none := by
  cases fields with
  | nil =>
    rw [List.map_singleton, List.intercalate_singleton, Field.quoted, List.append_assoc, quoted_append]
    exact expect_other (by decide) (by decide) _
  | cons g fields =>
    rw [List.map_cons, List.map_cons, List.intercalate_cons_cons, Field.quoted, List.append_assoc,
      List.append_assoc, List.append_assoc, quoted_append]
    exact expect_other (by decide) (by decide) _

theorem readValue_objectText {f : Field} {fields : List Field}
    (hreads : ∀ g ∈ f :: fields, Reads g.text g.value) {fuel : Nat} (hfuel : fields.length ≤ fuel) :
    readValue (fuel + 3) (objectText (f :: fields)) =
      some (.object ((f :: fields).map fun g => (g.name, g.value)), []) := by
  rw [objectText, List.cons_append, readValue, expect_other (by decide) (by decide),
    expect_cons (by decide)]
  dsimp only
  rw [expect_brace_fields, readFields_fields f fields hreads fuel hfuel []]
  rfl

theorem parse_objectText {fields : List Field} (hne : fields ≠ [])
    (hreads : ∀ g ∈ fields, Reads g.text g.value) :
    parse (objectText fields) = some (.object (fields.map fun g => (g.name, g.value))) := by
  obtain ⟨f, fields, rfl⟩ := List.exists_cons_of_ne_nil hne
  have hlength : (f :: fields).length + 1 ≤ (objectText (f :: fields)).length := by
    have hle := length_le_intercalate (f :: fields)
    simp only [objectText, List.length_append, List.length_cons, List.length_nil] at hle ⊢
    omega
  obtain ⟨fuel, hfuel⟩ : ∃ fuel, 2 * (objectText (f :: fields)).length + 2 = fuel + 3 :=
    ⟨2 * (objectText (f :: fields)).length - 1, by omega⟩
  rw [List.length_cons] at hlength
  rw [parse, hfuel, readValue_objectText hreads (by omega)]
  rfl

end Maxim.Library.Json
