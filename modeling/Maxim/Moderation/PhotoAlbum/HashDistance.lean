import Maxim.Library.JsonReader
import Mathlib.Data.List.Zip
import Mathlib.Tactic.IntervalCases

/-!
# The distance of two photo hashes

A hash is 256 bits in hexadecimal digits. The distance is computed from the
bytes, and is the number of bits that differ.
-/

namespace Maxim.Moderation.PhotoAlbum

open Maxim.Library Maxim.Library.Json

def isHexHash (value : String) : Bool :=
  value.toList.length = 64 && value.toList.all fun c => (hexDigit c).isSome

def validateHexHash (value : String) : Except String String :=
  let normalized := lowerCase (trim value)
  if isHexHash normalized then .ok normalized
  else .error "Photo hash must be a 256-bit hexadecimal value"

def digit (c : Char) : Nat := (hexDigit c).getD 0

/-- What `parseInt` reads in the slices of two characters. -/
def hexBytes : List Char → List Nat
  | [] => []
  | [a] => [digit a]
  | a :: b :: rest => (16 * digit a + digit b) :: hexBytes rest

def countBits : Nat → Nat → Nat
  | 0, _ => 0
  | fuel + 1, value => if 0 < value then (value &&& 1) + countBits fuel (value >>> 1) else 0

def hammingDistanceHex (left right : String) : Except String Nat := do
  let normalizedLeft ← validateHexHash left
  let normalizedRight ← validateHexHash right
  let values := (hexBytes normalizedLeft.toList).zipWith (· ^^^ ·) (hexBytes normalizedRight.toList)
  return (values.map fun value => countBits value value).sum

/-! ## The bits that differ -/

def digitBits (n : Nat) : List Bool := [n.testBit 3, n.testBit 2, n.testBit 1, n.testBit 0]

def hashBits (hash : List Char) : List Bool := hash.flatMap fun c => digitBits (digit c)

def differing (x y : List Bool) : Nat := (x.zip y).countP fun p => p.1 != p.2

def hamming (left right : String) : Nat := differing (hashBits left.toList) (hashBits right.toList)

theorem differing_comm (x y : List Bool) : differing x y = differing y x := by
  rw [differing, ← List.zip_swap y x, List.countP_map]
  exact List.countP_congr fun p _ => by simp [bne_comm]

theorem hamming_comm (left right : String) : hamming left right = hamming right left := differing_comm _ _

theorem differing_append {x y z w : List Bool} (h : x.length = y.length) :
    differing (x ++ z) (y ++ w) = differing x y + differing z w := by
  rw [differing, List.zip_append h, List.countP_append]
  rfl

theorem mem_hexDigits {c : Char} (h : (hexDigit c).isSome) : c ∈ "0123456789abcdefABCDEF".toList := by
  have hrange : (48 ≤ c.toNat ∧ c.toNat ≤ 57) ∨ (97 ≤ c.toNat ∧ c.toNat ≤ 102) ∨ (65 ≤ c.toNat ∧ c.toNat ≤ 70) := by
    unfold hexDigit at h
    split at h
    · next hd =>
      simp only [Char.isDigit, Bool.and_eq_true, decide_eq_true_eq] at hd
      exact .inl hd
    split at h
    · next hd => exact .inr (.inl hd)
    split at h
    · next hd => exact .inr (.inr hd)
    · cases h
  rw [← Char.ofNat_toNat c]
  generalize c.toNat = n at hrange
  rcases hrange with ⟨h₁, h₂⟩ | ⟨h₁, h₂⟩ | ⟨h₁, h₂⟩ <;> interval_cases n <;> decide

def byteBits (n : Nat) : List Bool :=
  [n.testBit 7, n.testBit 6, n.testBit 5, n.testBit 4, n.testBit 3, n.testBit 2, n.testBit 1, n.testBit 0]

theorem byteBits_digits {a b : Nat} (ha : a < 16) (hb : b < 16) :
    byteBits (16 * a + b) = digitBits a ++ digitBits b := by
  have hall : ∀ a < 16, ∀ b < 16, byteBits (16 * a + b) = digitBits a ++ digitBits b := by decide
  exact hall a ha b hb

theorem countBits_byte {n : Nat} (hn : n < 256) : countBits n n = (byteBits n).countP id := by
  have hall : ∀ n < 256, countBits n n = (byteBits n).countP id := by decide +kernel
  exact hall n hn

theorem countBits_xor {x y : Nat} (hx : x < 256) (hy : y < 256) :
    countBits (x ^^^ y) (x ^^^ y) = differing (byteBits x) (byteBits y) := by
  rw [countBits_byte (Nat.xor_lt_two_pow (n := 8) hx hy)]
  simp only [byteBits, Nat.testBit_xor]
  rfl

@[simp]
theorem length_digitBits (n : Nat) : (digitBits n).length = 4 := rfl

theorem digit_lt {c : Char} (h : (hexDigit c).isSome) : digit c < 16 := by
  have hall : ∀ d ∈ "0123456789abcdefABCDEF".toList, digit d < 16 := forall_of_all (by decide +kernel)
  exact hall c (mem_hexDigits h)

theorem countBits_digits {a b c d : Char} (ha : (hexDigit a).isSome) (hb : (hexDigit b).isSome)
    (hc : (hexDigit c).isSome) (hd : (hexDigit d).isSome) :
    countBits ((16 * digit a + digit b) ^^^ (16 * digit c + digit d))
        ((16 * digit a + digit b) ^^^ (16 * digit c + digit d)) =
      differing (hashBits [a, b]) (hashBits [c, d]) := by
  have ha := digit_lt ha
  have hb := digit_lt hb
  have hc := digit_lt hc
  have hd := digit_lt hd
  rw [countBits_xor (by omega) (by omega), byteBits_digits ha hb, byteBits_digits hc hd]
  simp [hashBits]

theorem sum_countBits (k : Nat) (l r : List Char) (hl : l.length = 2 * k) (hr : r.length = 2 * k)
    (hlh : ∀ c ∈ l, (hexDigit c).isSome) (hrh : ∀ c ∈ r, (hexDigit c).isSome) :
    (((hexBytes l).zipWith (· ^^^ ·) (hexBytes r)).map fun value => countBits value value).sum =
      differing (hashBits l) (hashBits r) := by
  induction k generalizing l r with
  | zero =>
    rw [List.length_eq_zero_iff.mp hl, List.length_eq_zero_iff.mp hr]
    rfl
  | succ k ih =>
    match l, r, hl, hr with
    | a :: b :: l, c :: d :: r, hl, hr =>
      simp only [List.length_cons] at hl hr
      have ih := ih l r (by omega) (by omega) (fun x hx => hlh x (by simp [hx])) fun x hx => hrh x (by simp [hx])
      have hcut : ∀ x y (t : List Char), hashBits (x :: y :: t) = hashBits [x, y] ++ hashBits t := by
        intro x y t
        simp [hashBits]
      rw [hexBytes, hexBytes, List.zipWith_cons_cons, List.map_cons, List.sum_cons, ih,
        countBits_digits (hlh a (by simp)) (hlh b (by simp)) (hrh c (by simp)) (hrh d (by simp)), hcut a b l,
        hcut c d r, differing_append (by simp [hashBits])]

/-! ## The distance that the code computes -/

theorem isHexHash_iff {value : String} :
    isHexHash value = true ↔ value.toList.length = 64 ∧ ∀ c ∈ value.toList, (hexDigit c).isSome := by
  simp [isHexHash]

theorem validateHexHash_of_hex {value : String} (h : isHexHash value) :
    ∃ hash, validateHexHash value = .ok hash ∧ isHexHash hash ∧ hashBits hash.toList = hashBits value.toList := by
  obtain ⟨hlength, hdigits⟩ := isHexHash_iff.mp h
  have hchar : ∀ d ∈ "0123456789abcdefABCDEF".toList, isSpace d = false ∧ (hexDigit (lowerChar d)).isSome ∧
      digit (lowerChar d) = digit d := forall_of_all (by decide +kernel)
  have hdrop : ∀ l : List Char, (∀ c ∈ l, (hexDigit c).isSome) → l.dropWhile isSpace = l := by
    intro l hl
    cases l with
    | nil => rfl
    | cons c rest => exact List.dropWhile_cons_of_neg (by simp [(hchar c (mem_hexDigits (hl c List.mem_cons_self))).1])
  have htrim : trim value = value := by
    rw [trim, hdrop _ hdigits, hdrop _ fun c hc => hdigits c (List.mem_reverse.mp hc), List.reverse_reverse,
      String.ofList_toList]
  have hlower : (lowerCase value).toList = value.toList.map lowerChar := String.toList_map
  have hhex : isHexHash (lowerCase value) := by
    rw [isHexHash_iff, hlower, List.length_map]
    refine ⟨hlength, fun c hc => ?_⟩
    obtain ⟨d, hd, rfl⟩ := List.mem_map.mp hc
    exact (hchar d (mem_hexDigits (hdigits d hd))).2.1
  refine ⟨lowerCase value, ?_, hhex, ?_⟩
  · rw [validateHexHash, htrim, if_pos hhex]
  · rw [hlower, hashBits, hashBits, List.flatMap_map]
    exact List.flatMap_congr fun d hd => by rw [(hchar d (mem_hexDigits (hdigits d hd))).2.2]

theorem hammingDistanceHex_eq {left right : String} (hl : isHexHash left) (hr : isHexHash right) :
    hammingDistanceHex left right = .ok (hamming left right) := by
  obtain ⟨l, hlv, hlh, hlb⟩ := validateHexHash_of_hex hl
  obtain ⟨r, hrv, hrh, hrb⟩ := validateHexHash_of_hex hr
  obtain ⟨hllen, hldigits⟩ := isHexHash_iff.mp hlh
  obtain ⟨hrlen, hrdigits⟩ := isHexHash_iff.mp hrh
  have hsum := sum_countBits 32 l.toList r.toList hllen hrlen hldigits hrdigits
  rw [hlb, hrb] at hsum
  rw [hammingDistanceHex, hlv, hrv]
  exact congrArg Except.ok hsum

end Maxim.Moderation.PhotoAlbum
