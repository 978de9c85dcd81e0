import Mathlib.Data.List.Nodup

/-!
# The bytes of a text

UTF-8 and base64url, with bytes as numbers. The decoders read everything: what
is not well-formed UTF-8 is read as U+FFFD, and characters of no base64
alphabet are skipped. They invert the encoders.
-/

namespace Maxim.Library

/-! ## UTF-8 -/

def utf8Char (c : Char) : List Nat :=
  let n := c.toNat
  if n < 0x80 then [n]
  else if n < 0x800 then [0xC0 + n / 64, 0x80 + n % 64]
  else if n < 0x10000 then [0xE0 + n / 4096, 0x80 + n / 64 % 64, 0x80 + n % 64]
  else [0xF0 + n / 262144, 0x80 + n / 4096 % 64, 0x80 + n / 64 % 64, 0x80 + n % 64]

def utf8Encode (s : List Char) : List Nat := s.flatMap utf8Char

/-- What a decoder has read of a character: its bits, the bytes to come and the range of the next one. -/
structure Partial where
  bits : Nat
  needed : Nat
  lower : Nat := 0x80
  upper : Nat := 0xBF

inductive Lead
  | char (c : Char)
  | more (p : Partial)
  | bad

def lead (b : Nat) : Lead :=
  if b < 0x80 then .char (Char.ofNat b)
  else if 0xC2 ≤ b ∧ b ≤ 0xDF then .more { bits := b - 0xC0, needed := 1 }
  else if 0xE0 ≤ b ∧ b ≤ 0xEF then
    .more
      { bits := b - 0xE0
        needed := 2
        lower := if b = 0xE0 then 0xA0 else 0x80
        upper := if b = 0xED then 0x9F else 0xBF }
  else if 0xF0 ≤ b ∧ b ≤ 0xF4 then
    .more
      { bits := b - 0xF0
        needed := 3
        lower := if b = 0xF0 then 0x90 else 0x80
        upper := if b = 0xF4 then 0x8F else 0xBF }
  else .bad

def replacement : Char := '\uFFFD'

/-- A byte that cannot continue a character ends it and is read as a first byte. -/
def utf8Read : Option Partial → List Nat → List Char
  | none, [] => []
  | some _, [] => [replacement]
  | none, b :: r =>
    match lead b with
    | .char c => c :: utf8Read none r
    | .more p => utf8Read (some p) r
    | .bad => replacement :: utf8Read none r
  | some p, b :: r =>
    if p.lower ≤ b ∧ b ≤ p.upper then
      if p.needed = 1 then Char.ofNat (p.bits * 64 + (b - 0x80)) :: utf8Read none r
      else utf8Read (some { bits := p.bits * 64 + (b - 0x80), needed := p.needed - 1 }) r
    else
      replacement :: match lead b with
        | .char c => c :: utf8Read none r
        | .more q => utf8Read (some q) r
        | .bad => replacement :: utf8Read none r

def utf8Decode (bytes : List Nat) : List Char := utf8Read none bytes

theorem toNat_scalar (c : Char) : c.toNat < 0xD800 ∨ 0xDFFF < c.toNat ∧ c.toNat < 0x110000 := c.valid

theorem utf8Char_lt {c : Char} {b : Nat} (hb : b ∈ utf8Char c) : b < 256 := by
  have hc := toNat_scalar c
  unfold utf8Char at hb
  dsimp only at hb
  split at hb
  · simp only [List.mem_cons, List.not_mem_nil, or_false] at hb
    omega
  split at hb
  · simp only [List.mem_cons, List.not_mem_nil, or_false] at hb
    omega
  split at hb
  · simp only [List.mem_cons, List.not_mem_nil, or_false] at hb
    omega
  · simp only [List.mem_cons, List.not_mem_nil, or_false] at hb
    omega

theorem utf8Encode_lt {s : List Char} {b : Nat} (hb : b ∈ utf8Encode s) : b < 256 := by
  obtain ⟨c, -, hc⟩ := List.mem_flatMap.mp hb
  exact utf8Char_lt hc

variable {n : Nat}

theorem ofNat_of_eq {c : Char} (h : n = c.toNat) : Char.ofNat n = c := by
  rw [h, Char.ofNat_toNat]

theorem lead_one (h : n < 0x80) : lead n = .char (Char.ofNat n) := if_pos h

theorem lead_two (h : 0xC2 ≤ n) (h' : n ≤ 0xDF) :
    lead n = .more { bits := n - 0xC0, needed := 1 } := by
  rw [lead, if_neg (by omega), if_pos ⟨h, h'⟩]

theorem lead_three (h : 0xE0 ≤ n) (h' : n ≤ 0xEF) :
    lead n = .more
      { bits := n - 0xE0
        needed := 2
        lower := if n = 0xE0 then 0xA0 else 0x80
        upper := if n = 0xED then 0x9F else 0xBF } := by
  rw [lead, if_neg (by omega), if_neg (by omega), if_pos ⟨h, h'⟩]

theorem lead_four (h : 0xF0 ≤ n) (h' : n ≤ 0xF4) :
    lead n = .more
      { bits := n - 0xF0
        needed := 3
        lower := if n = 0xF0 then 0x90 else 0x80
        upper := if n = 0xF4 then 0x8F else 0xBF } := by
  rw [lead, if_neg (by omega), if_neg (by omega), if_neg (by omega), if_pos ⟨h, h'⟩]

theorem utf8Read_utf8Char (c : Char) (r : List Nat) : utf8Read none (utf8Char c ++ r) = c :: utf8Read none r := by
  have hc := toNat_scalar c
  unfold utf8Char
  dsimp only
  split
  next h =>
    rw [List.singleton_append, utf8Read, lead_one h, Char.ofNat_toNat]
  next h =>
    split
    next h₂ =>
      rw [List.cons_append, List.singleton_append, utf8Read, lead_two (by omega) (by omega)]
      dsimp only
      rw [utf8Read, if_pos (by dsimp only; omega), if_pos rfl, ofNat_of_eq (c := c) (by dsimp only; omega)]
    next h₂ =>
      split
      next h₃ =>
        rw [List.cons_append, List.cons_append, List.singleton_append, utf8Read,
          lead_three (by omega) (by omega)]
        dsimp only
        rw [utf8Read, if_pos (by dsimp only; split <;> split <;> omega), if_neg (by dsimp only; omega)]
        dsimp only
        rw [utf8Read, if_pos (by dsimp only; omega), if_pos rfl, ofNat_of_eq (c := c) (by dsimp only; omega)]
      next h₃ =>
        rw [List.cons_append, List.cons_append, List.cons_append, List.singleton_append, utf8Read,
          lead_four (by omega) (by omega)]
        dsimp only
        rw [utf8Read, if_pos (by dsimp only; split <;> split <;> omega), if_neg (by dsimp only; omega)]
        dsimp only
        rw [utf8Read, if_pos (by dsimp only; omega), if_neg (by dsimp only; omega)]
        dsimp only
        rw [utf8Read, if_pos (by dsimp only; omega), if_pos rfl, ofNat_of_eq (c := c) (by dsimp only; omega)]

theorem utf8Decode_utf8Encode (s : List Char) : utf8Decode (utf8Encode s) = s := by
  induction s with
  | nil => rfl
  | cons c s ih =>
    rw [utf8Encode, List.flatMap_cons, utf8Decode, utf8Read_utf8Char]
    exact congrArg (c :: ·) ih

/-! ## base64url -/

def base64Digits : List Char :=
  "ABCDEFGHIJKLMNOPQRSTUVWXYZabcdefghijklmnopqrstuvwxyz0123456789-_".toList

def base64Digit (n : Nat) : Char := base64Digits.getD n 'A'

/-- The value of a digit of either alphabet. -/
def base64Value (c : Char) : Option Nat :=
  if c = '+' then some 62
  else if c = '/' then some 63
  else base64Digits.findIdx? (· = c)

def base64Encode : List Nat → List Char
  | a :: b :: c :: r =>
    base64Digit (a / 4) :: base64Digit (a % 4 * 16 + b / 16) :: base64Digit (b % 16 * 4 + c / 64) ::
      base64Digit (c % 64) :: base64Encode r
  | [a, b] => [base64Digit (a / 4), base64Digit (a % 4 * 16 + b / 16), base64Digit (b % 16 * 4)]
  | [a] => [base64Digit (a / 4), base64Digit (a % 4 * 16)]
  | [] => []

/-- The whole bytes of some digits. -/
def base64Bytes : List Nat → List Nat
  | w :: x :: y :: z :: r =>
    (w * 4 + x / 16) :: (x % 16 * 16 + y / 4) :: (y % 4 * 64 + z) :: base64Bytes r
  | [w, x, y] => [w * 4 + x / 16, x % 16 * 16 + y / 4]
  | [w, x] => [w * 4 + x / 16]
  | _ => []

/-- `Buffer.from(text, 'base64url')`. -/
def base64Decode (text : List Char) : List Nat := base64Bytes (text.filterMap base64Value)

theorem base64Digits_eq : base64Digits =
    ['A', 'B', 'C', 'D', 'E', 'F', 'G', 'H', 'I', 'J', 'K', 'L', 'M', 'N', 'O', 'P', 'Q', 'R', 'S',
      'T', 'U', 'V', 'W', 'X', 'Y', 'Z', 'a', 'b', 'c', 'd', 'e', 'f', 'g', 'h', 'i', 'j', 'k',
      'l', 'm', 'n', 'o', 'p', 'q', 'r', 's', 't', 'u', 'v', 'w', 'x', 'y', 'z', '0', '1', '2',
      '3', '4', '5', '6', '7', '8', '9', '-', '_'] :=
  String.toList_ofList

theorem lt_base64Digits (hn : n < 64) : n < base64Digits.length := by
  rw [base64Digits_eq]
  exact hn

theorem base64Digit_eq (hn : n < base64Digits.length) : base64Digit n = base64Digits[n] :=
  (List.getElem_eq_getD _).symm

theorem base64Digit_mem (hn : n < 64) : base64Digit n ∈ base64Digits := by
  rw [base64Digit_eq (lt_base64Digits hn)]
  exact List.getElem_mem _

theorem nodup_base64Digits : base64Digits.Nodup := by
  rw [base64Digits_eq]
  exact List.Nodup.of_map Char.toNat (by decide +kernel)

theorem base64Value_base64Digit (hn : n < 64) : base64Value (base64Digit n) = some n := by
  have hother : base64Digits.all (fun c => c ≠ '+' && c ≠ '/') = true := by
    rw [base64Digits_eq]
    decide +kernel
  have hlength := lt_base64Digits hn
  have hdigit := List.all_eq_true.mp hother _ (base64Digit_mem hn)
  rw [Bool.and_eq_true, decide_eq_true_eq, decide_eq_true_eq] at hdigit
  rw [base64Value, if_neg hdigit.1, if_neg hdigit.2, List.findIdx?_eq_some_iff_getElem, base64Digit_eq hlength]
  refine ⟨hlength, decide_eq_true rfl, fun j hj => ?_⟩
  rw [decide_eq_true_eq, nodup_base64Digits.getElem_inj_iff]
  omega

theorem filterMap_base64Digit (hn : n < 64) (r : List Char) :
    (base64Digit n :: r).filterMap base64Value = n :: r.filterMap base64Value := by
  rw [List.filterMap_cons, base64Value_base64Digit hn]

theorem base64Decode_base64Encode (bytes : List Nat) (hbytes : ∀ b ∈ bytes, b < 256) :
    base64Decode (base64Encode bytes) = bytes := by
  induction bytes using base64Encode.induct with
  | case1 a b c r ih =>
    have ha := hbytes a (by simp)
    have hb := hbytes b (by simp)
    have hc := hbytes c (by simp)
    have hr := ih fun x hx => hbytes x (by simp [hx])
    rw [base64Decode] at hr ⊢
    rw [base64Encode, filterMap_base64Digit (by omega), filterMap_base64Digit (by omega),
      filterMap_base64Digit (by omega), filterMap_base64Digit (by omega), base64Bytes, hr]
    congr 1
    · omega
    congr 1
    · omega
    congr 1
    omega
  | case2 a b =>
    have ha := hbytes a (by simp)
    have hb := hbytes b (by simp)
    rw [base64Decode, base64Encode, filterMap_base64Digit (by omega), filterMap_base64Digit (by omega),
      filterMap_base64Digit (by omega), List.filterMap_nil, base64Bytes]
    congr 1
    · omega
    congr 1
    omega
  | case3 a =>
    have ha := hbytes a (by simp)
    rw [base64Decode, base64Encode, filterMap_base64Digit (by omega), filterMap_base64Digit (by omega),
      List.filterMap_nil, base64Bytes]
    congr 1
    omega
  | case4 => rfl

theorem mem_base64Encode {bytes : List Nat} (hbytes : ∀ b ∈ bytes, b < 256) {c : Char}
    (hc : c ∈ base64Encode bytes) : c ∈ base64Digits := by
  induction bytes using base64Encode.induct with
  | case1 x y z r ih =>
    have hx := hbytes x (by simp)
    have hy := hbytes y (by simp)
    have hz := hbytes z (by simp)
    rw [base64Encode] at hc
    simp only [List.mem_cons] at hc
    rcases hc with rfl | rfl | rfl | rfl | hc
    · exact base64Digit_mem (by omega)
    · exact base64Digit_mem (by omega)
    · exact base64Digit_mem (by omega)
    · exact base64Digit_mem (by omega)
    · exact ih (fun b hb => hbytes b (by simp [hb])) hc
  | case2 x y =>
    have hx := hbytes x (by simp)
    have hy := hbytes y (by simp)
    simp only [base64Encode, List.mem_cons, List.not_mem_nil, or_false] at hc
    rcases hc with rfl | rfl | rfl
    · exact base64Digit_mem (by omega)
    · exact base64Digit_mem (by omega)
    · exact base64Digit_mem (by omega)
  | case3 x =>
    have hx := hbytes x (by simp)
    simp only [base64Encode, List.mem_cons, List.not_mem_nil, or_false] at hc
    rcases hc with rfl | rfl
    · exact base64Digit_mem (by omega)
    · exact base64Digit_mem (by omega)
  | case4 => cases hc

/-! ## A text in base64url -/

def base64Text (s : List Char) : List Char := base64Encode (utf8Encode s)

def textOfBase64 (s : List Char) : List Char := utf8Decode (base64Decode s)

theorem textOfBase64_base64Text (s : List Char) : textOfBase64 (base64Text s) = s := by
  rw [textOfBase64, base64Text, base64Decode_base64Encode _ fun b hb => utf8Encode_lt hb,
    utf8Decode_utf8Encode]

theorem mem_base64Text {s : List Char} {c : Char} (hc : c ∈ base64Text s) : c ∈ base64Digits :=
  mem_base64Encode (fun _ hb => utf8Encode_lt hb) hc

end Maxim.Library
