import Mathlib.Data.List.DropRight
import Maxim.Max.MediaUpload.Gif

/-!
# The units of an encoded packet

A packet holds units behind start codes or behind their lengths. The scans go
in chunks of any size and find what a plain cut of the packet finds.
-/

namespace Maxim.Max.MediaUpload.Nal

inductive Codec
  | avc
  | hevc

def MAX_CODEC_NAL_UNITS : Nat := 16384

def startCodeLength : Nat := 3

/-- `Buffer.indexOf` of the start code `00 00 01`. -/
def indexOf : Bytes → Option Nat
  | 0 :: 0 :: 1 :: _ => some 0
  | _ :: rest => (indexOf rest).map (· + 1)
  | [] => none

def subarray (data : Bytes) (start stop : Nat) : Bytes := (data.drop start).take (stop - start)

structure StartCode where
  prefixOffset : Nat
  nalOffset : Nat

/-- The scans compare with zeros in chunks of this size. -/
def containsOnlyZeroBytesInRange (chunk : Nat) (data : Bytes) (stop : Nat) : Nat → Nat → Except UploadError Bool
  | 0, _ => .error .diverges
  | fuel + 1, cursor =>
    if cursor < stop then
      let chunkEnd := min (cursor + chunk) stop
      if (subarray data cursor chunkEnd).all (· = 0) then
        containsOnlyZeroBytesInRange chunk data stop fuel chunkEnd
      else return false
    else return true

/-- A zero byte before the start code belongs to it. -/
def prefixOffset (data : Bytes) (start startCodeOffset : Nat) : Except UploadError Nat :=
  if start < startCodeOffset then do
    let before ← readByte data (startCodeOffset - 1)
    return if before = 0 then startCodeOffset - 1 else startCodeOffset
  else return startCodeOffset

def zeroPrefix (chunk : Nat) (data : Bytes) (requireZeroPrefix : Bool) (cursor checkedEnd : Nat) :
    Except UploadError Bool :=
  if requireZeroPrefix then containsOnlyZeroBytesInRange chunk data checkedEnd (data.length + 1) cursor
  else return true

/-- The search goes on in chunks of `scan` bytes. -/
def findAnnexBStartCode (scan chunk : Nat) (data : Bytes) (start : Nat) (requireZeroPrefix : Bool) :
    Nat → Nat → Except UploadError (Option StartCode)
  | 0, _ => .error .diverges
  | fuel + 1, cursor =>
    if cursor + startCodeLength ≤ data.length then
      let scanEnd := min (cursor + scan + startCodeLength - 1) data.length
      match indexOf (subarray data cursor scanEnd) with
      | some relativeOffset => do
        let checkedEnd ← prefixOffset data start (cursor + relativeOffset)
        let allowed ← zeroPrefix chunk data requireZeroPrefix cursor checkedEnd
        return if allowed then some ⟨checkedEnd, cursor + relativeOffset + startCodeLength⟩ else none
      | none => do
        let checkedEnd := min (cursor + scan) data.length
        let allowed ← zeroPrefix chunk data requireZeroPrefix cursor checkedEnd
        if allowed then findAnnexBStartCode scan chunk data start requireZeroPrefix fuel checkedEnd else return none
    else return none

/-- The inner loop of the trim, over the last `n` bytes that are left of a chunk. -/
def lastNonZero (data : Bytes) (chunkStart : Nat) : Nat → Except UploadError (Option Nat)
  | 0 => return none
  | n + 1 => do
    if (← readByte data (chunkStart + n)) ≠ 0 then return some (chunkStart + n + 1)
    else lastNonZero data chunkStart n

def lastNonZeroOfChunk (data : Bytes) (chunkStart cursor : Nat) : Except UploadError (Option Nat) :=
  if (subarray data chunkStart cursor).all (· = 0) then return none
  else lastNonZero data chunkStart (cursor - chunkStart)

def trimAnnexBTrailingZeros (chunk : Nat) (data : Bytes) (start : Nat) : Nat → Nat → Except UploadError Nat
  | 0, _ => .error .diverges
  | fuel + 1, cursor =>
    if start < cursor then do
      let chunkStart := max start (cursor - chunk)
      match ← lastNonZeroOfChunk data chunkStart cursor with
      | some stop => return stop
      | none => trimAnnexBTrailingZeros chunk data start fuel chunkStart
    else return cursor

/-- The answer tells a coding unit. -/
def validateNalHeader (codec : Codec) (data : Bytes) (offset length : Nat) : Except UploadError Bool :=
  match codec with
  | .avc =>
    if length < 2 then throw .typeError
    else do
      let first ← readByte data offset
      if first &&& 0x80 ≠ 0 then throw .typeError
      else
        let nalType := first &&& 0x1f
        if nalType = 0 ∨ 23 < nalType then throw .typeError
        else return 1 ≤ nalType && nalType ≤ 5
  | .hevc =>
    if length < 3 then throw .typeError
    else do
      let first ← readByte data offset
      let second ← readByte data (offset + 1)
      if first &&& 0x80 ≠ 0 ∨ second &&& 0x07 = 0 then throw .typeError
      else return (first >>> 1) &&& 0x3f ≤ 31

structure Progress where
  nalCount : Nat := 0
  hasVclNal : Bool := false

/-- The closure `validateNal`: `||=` does not call `validateNalHeader` behind a coding unit. -/
def validateNal (codec : Codec) (data : Bytes) (p : Progress) (offset length : Nat) : Except UploadError Progress :=
  if MAX_CODEC_NAL_UNITS < p.nalCount + 1 then throw .typeError
  else if p.hasVclNal then return { p with nalCount := p.nalCount + 1 }
  else do return ⟨p.nalCount + 1, ← validateNalHeader codec data offset length⟩

def readUnsignedBigEndian (data : Bytes) (offset : Nat) : Nat → Except UploadError Nat
  | 0 => return 0
  | bytes + 1 => do
    let value ← readUnsignedBigEndian data offset bytes
    return value * 256 + (← readByte data (offset + bytes)).toNat

/-- The loop over the length-prefixed units. -/
def walkPrefixed (codec : Codec) (data : Bytes) (lengthSize : Nat) :
    Nat → Nat → Progress → Except UploadError Progress
  | 0, _, _ => .error .diverges
  | fuel + 1, offset, p =>
    if offset < data.length then
      if data.length < offset + lengthSize then throw .typeError
      else do
        let nalLength ← readUnsignedBigEndian data offset lengthSize
        let offset := offset + lengthSize
        if nalLength = 0 ∨ data.length < offset + nalLength then throw .typeError
        else do
          let p ← validateNal codec data p offset nalLength
          walkPrefixed codec data lengthSize fuel (offset + nalLength) p
    else return p

def walkStartCodes (scan chunk : Nat) (codec : Codec) (data : Bytes) :
    Nat → StartCode → Progress → Except UploadError Progress
  | 0, _, _ => .error .diverges
  | fuel + 1, startCode, p => do
    let next ← findAnnexBStartCode scan chunk data startCode.nalOffset false (data.length + 1) startCode.nalOffset
    let stop := (next.map (·.prefixOffset)).getD data.length
    let nalEnd ← trimAnnexBTrailingZeros chunk data startCode.nalOffset (data.length + 1) stop
    let p ← validateNal codec data p startCode.nalOffset (nalEnd - startCode.nalOffset)
    match next with
    | some next => walkStartCodes scan chunk codec data fuel next p
    | none => return p

def assertHasVclNal (p : Progress) : Except UploadError Unit :=
  if p.nalCount = 0 ∨ p.hasVclNal = false then throw .typeError else return ()

/-- `none` is a packet with start codes. -/
def validateNalPacket (scan chunk : Nat) (codec : Codec) (data : Bytes) (lengthSize : Option Nat) :
    Except UploadError Unit := do
  let p ← match lengthSize with
    | some lengthSize => walkPrefixed codec data lengthSize (data.length + 1) 0 {}
    | none => do
      match ← findAnnexBStartCode scan chunk data 0 true (data.length + 1) 0 with
      | none => throw .typeError
      | some startCode => walkStartCodes scan chunk codec data (data.length + 1) startCode {}
  assertHasVclNal p

/-! ## The plain definition -/

/-- The packet cut at its start codes, from left to right. -/
def pieces : Bytes → List Bytes
  | 0 :: 0 :: 1 :: rest => [] :: pieces rest
  | b :: rest =>
    match pieces rest with
    | piece :: later => (b :: piece) :: later
    | [] => []
  | [] => [[]]

def trimZeros (piece : Bytes) : Bytes := piece.rdropWhile (· = 0)

def AnnexB (data : Bytes) (units : List Bytes) : Prop :=
  ∃ zeros later, pieces data = zeros :: later ∧ later ≠ [] ∧ (∀ b ∈ zeros, b = 0) ∧ units = later.map trimZeros

def bigEndian (digits : Bytes) : Nat := digits.foldl (fun value b => value * 256 + b.toNat) 0

/-- Units that are not empty behind their lengths. -/
inductive Prefixed (lengthSize : Nat) : Bytes → List Bytes → Prop
  | nil : Prefixed lengthSize [] []
  | cons {digits unit rest : Bytes} {units : List Bytes} :
      digits.length = lengthSize → bigEndian digits = unit.length → unit ≠ [] → Prefixed lengthSize rest units →
      Prefixed lengthSize (digits ++ (unit ++ rest)) (unit :: units)

def Framed (data : Bytes) : Option Nat → List Bytes → Prop
  | some lengthSize, units => Prefixed lengthSize data units
  | none, units => AnnexB data units

/-- Whether a unit with a valid header is a coding unit, and nothing for an invalid header. -/
def unitKind : Codec → Bytes → Option Bool
  | .avc, first :: _ :: _ =>
    let nalType := first &&& 0x1f
    if first &&& 0x80 ≠ 0 ∨ nalType = 0 ∨ 23 < nalType then none else some (1 ≤ nalType && nalType ≤ 5)
  | .hevc, first :: second :: _ :: _ =>
    if first &&& 0x80 ≠ 0 ∨ second &&& 0x07 = 0 then none else some ((first >>> 1) &&& 0x3f ≤ 31)
  | _, _ => none

/-- At most 16384 units, all with a valid header, one of them a coding unit. -/
structure Plain (codec : Codec) (units : List Bytes) : Prop where
  count : units.length ≤ MAX_CODEC_NAL_UNITS
  valid : ∀ unit ∈ units, unitKind codec unit ≠ none
  coding : ∃ unit ∈ units, unitKind codec unit = some true

/-- `later` stands behind the first coding unit, and the headers up to that unit are valid. -/
def Opens (codec : Codec) (units later : List Bytes) : Prop :=
  ∃ before coding, units = before ++ coding :: later ∧ (∀ unit ∈ before, unitKind codec unit = some false) ∧
    unitKind codec coding = some true

/-- Behind the first coding unit there is a header that is not valid. -/
def LateInvalid (codec : Codec) (units : List Bytes) : Prop :=
  ∃ later, Opens codec units later ∧ ∃ unit ∈ later, unitKind codec unit = none

/-! ## The scans -/

section Scan

variable {data l : Bytes} {start cursor stop fuel scan chunk : Nat}

theorem subarray_append {a b c : Nat} (hab : a ≤ b) (hbc : b ≤ c) :
    subarray data a c = subarray data a b ++ subarray data b c := by
  rw [subarray, show c - a = (b - a) + (c - b) by omega, List.take_add, List.drop_drop, Nat.add_sub_of_le hab]
  rfl

theorem length_subarray {a b : Nat} (h : b ≤ data.length) : (subarray data a b).length = b - a := by
  rw [subarray, List.length_take, List.length_drop]
  omega

theorem subarray_self (data : Bytes) (a b : Nat) (h : b ≤ a) : subarray data a b = [] := by
  rw [subarray, Nat.sub_eq_zero_of_le h, List.take_zero]

theorem containsOnlyZeroBytesInRange_eq (hchunk : 1 ≤ chunk) (hfuel : stop - cursor < fuel) :
    containsOnlyZeroBytesInRange chunk data stop fuel cursor = .ok ((subarray data cursor stop).all (· = 0)) := by
  induction fuel generalizing cursor with
  | zero => omega
  | succ fuel ih =>
    rw [containsOnlyZeroBytesInRange]
    by_cases hlt : cursor < stop
    · rw [if_pos hlt, @subarray_append data cursor (min (cursor + chunk) stop) stop (by omega) (by omega), List.all_append]
      dsimp only
      split
      · next hzero => rw [ih (by omega), hzero, Bool.true_and]
      · next hzero => rw [Bool.not_eq_true] at hzero; rw [hzero]; rfl
    · rw [if_neg hlt, subarray_self data _ _ (by omega)]
      rfl

theorem indexOf_cons (b : UInt8) (rest : Bytes) :
    indexOf (b :: rest) = if [0, 0, 1] <+: b :: rest then some 0 else (indexOf rest).map (· + 1) := by
  rw [indexOf.eq_def]
  split
  · next heq => rw [heq, if_pos ⟨_, rfl⟩]
  · next hne heq =>
    injection heq with hb hrest
    subst hb hrest
    rw [if_neg]
    rintro ⟨t, ht⟩
    obtain ⟨hb, hrest⟩ := List.cons.inj ht
    exact hne t hb.symm hrest.symm
  · next heq => cases heq

theorem prefix_of_indexOf {i : Nat} (h : indexOf l = some i) : [0, 0, 1] <+: l.drop i := by
  induction l generalizing i with
  | nil => cases h
  | cons b rest ih =>
    rw [indexOf_cons] at h
    split at h
    · next hp => cases h; exact hp
    · obtain ⟨j, hj, rfl⟩ := Option.map_eq_some_iff.mp h
      exact ih hj

theorem indexOf_le {i : Nat} (h : indexOf l = some i) : i + 3 ≤ l.length := by
  have := (prefix_of_indexOf h).length_le
  rw [List.length_drop] at this
  simp only [List.length_cons, List.length_nil] at this
  omega

theorem indexOf_take (n : Nat) (l : Bytes) :
    (∀ i, indexOf (l.take (n + 2)) = some i → indexOf l = some i) ∧
      (indexOf (l.take (n + 2)) = none → indexOf l = (indexOf (l.drop n)).map (n + ·)) := by
  induction n generalizing l with
  | zero =>
    have hshort : ∀ i, indexOf (l.take 2) ≠ some i := fun i hi => by
      have := indexOf_le hi
      rw [List.length_take] at this
      omega
    exact ⟨fun i hi => absurd hi (hshort i), fun _ => by simp⟩
  | succ n ih =>
    cases l with
    | nil => exact ⟨fun i hi => hi, fun _ => by simp [indexOf]⟩
    | cons b rest =>
      have hhead : [0, 0, 1] <+: b :: rest.take (n + 2) ↔ [0, 0, 1] <+: b :: rest := by
        rw [← List.take_succ_cons, List.prefix_take_iff]
        exact and_iff_left (by simp)
      rw [List.take_succ_cons, indexOf_cons, indexOf_cons, List.drop_succ_cons]
      simp only [hhead]
      split
      · exact ⟨fun i hi => hi, nofun⟩
      · refine ⟨fun i hi => ?_, fun hnone => ?_⟩
        · obtain ⟨j, hj, rfl⟩ := Option.map_eq_some_iff.mp hi
          rw [(ih rest).1 j hj]
          rfl
        · rw [(ih rest).2 (Option.map_eq_none_iff.mp hnone), Option.map_map]
          congr 1
          funext i
          simp only [Function.comp]
          omega

theorem prefixOffset_spec (hle : stop ≤ data.length) :
    ∃ o, prefixOffset data start stop = .ok o ∧ o ≤ stop ∧ (start ≤ stop → start ≤ o) ∧
      ∀ b ∈ subarray data o stop, b = 0 := by
  have hself : ∀ b ∈ subarray data stop stop, b = 0 := by
    rw [subarray_self data _ _ le_rfl]
    exact nofun
  rw [prefixOffset]
  by_cases hlt : start < stop
  · cases h : data.drop (stop - 1) with
    | nil =>
      have := List.drop_eq_nil_iff.mp h
      omega
    | cons b rest =>
      have hread : readByte data (stop - 1) = .ok b := readByte_drop h (i := 0)
      rw [if_pos hlt, hread, ok_bind]
      by_cases hb : b = 0
      · refine ⟨stop - 1, by rw [if_pos hb]; rfl, by omega, by omega, ?_⟩
        rw [subarray, h, Nat.sub_sub_self (by omega)]
        simp [hb]
      · exact ⟨stop, by rw [if_neg hb]; rfl, le_rfl, id, hself⟩
  · exact ⟨stop, if_neg hlt, le_rfl, id, hself⟩

theorem zeroPrefix_eq {requireZeroPrefix : Bool} {o : Nat} (hchunk : 1 ≤ chunk) (hle : stop ≤ data.length)
    (hcursor : cursor ≤ stop) (ho : o ≤ stop) (hzero : ∀ b ∈ subarray data o stop, b = 0) :
    zeroPrefix chunk data requireZeroPrefix cursor o =
      .ok (!requireZeroPrefix || (subarray data cursor stop).all (· = 0)) := by
  cases requireZeroPrefix with
  | false => rfl
  | true =>
    have hall : (subarray data cursor stop).all (· = 0) = (subarray data cursor o).all (· = 0) := by
      rcases le_total cursor o with hle | hle
      · rw [subarray_append hle ho, List.all_append, (List.all_eq_true (l := subarray data o stop)).mpr (by simpa using hzero),
          Bool.and_true]
      · rw [subarray_append hle hcursor, List.forall_mem_append] at hzero
        rw [subarray_self data _ _ hle, List.all_eq_true.mpr (by simpa using hzero.2)]
        rfl
    rw [hall]
    exact containsOnlyZeroBytesInRange_eq hchunk (by omega)

/-- The search finds the first start code, with zeros before it where they are required. -/
theorem findAnnexBStartCode_eq (requireZeroPrefix : Bool) (hscan : 1 ≤ scan) (hchunk : 1 ≤ chunk)
    (hle : cursor ≤ data.length) (hfuel : data.length - cursor < fuel) :
    (∀ i o, indexOf (data.drop cursor) = some i → prefixOffset data start (cursor + i) = .ok o →
      findAnnexBStartCode scan chunk data start requireZeroPrefix fuel cursor =
        .ok (if !requireZeroPrefix || ((data.drop cursor).take i).all (· = 0) then some ⟨o, cursor + i + 3⟩
          else none)) ∧
      (indexOf (data.drop cursor) = none →
        findAnnexBStartCode scan chunk data start requireZeroPrefix fuel cursor = .ok none) := by
  induction fuel generalizing cursor with
  | zero => omega
  | succ fuel ih =>
    rw [findAnnexBStartCode]
    have hlen : (data.drop cursor).length = data.length - cursor := List.length_drop
    have hslice : subarray data cursor (min (cursor + scan + startCodeLength - 1) data.length) =
        (data.drop cursor).take (scan + 2) := by
      rw [subarray, List.take_eq_take_iff, hlen, startCodeLength]
      omega
    dsimp only
    rw [hslice]
    obtain ⟨hfound, hnone⟩ := indexOf_take scan (data.drop cursor)
    split
    · next hlong =>
      have hlong : cursor + 3 ≤ data.length := hlong
      split
      · next i hi =>
        have hroom := indexOf_le (hfound i hi)
        refine ⟨fun j o hj ho => ?_, fun hj => absurd ((hfound i hi).symm.trans hj) nofun⟩
        obtain rfl : i = j := Option.some.inj ((hfound i hi).symm.trans hj)
        obtain ⟨o', ho', hle', -, hzero⟩ := @prefixOffset_spec data start (cursor + i) (by omega)
        obtain rfl : o' = o := Except.ok.inj (ho'.symm.trans ho)
        rw [ho, ok_bind, zeroPrefix_eq hchunk (by omega) (by omega) hle' hzero, ok_bind, subarray, Nat.add_sub_cancel_left]
        rfl
      · next hi =>
        have hfirst := hnone hi
        generalize hend : min (cursor + scan) data.length = checkedEnd
        have hdrop : (data.drop cursor).drop scan = data.drop checkedEnd := by
          rw [List.drop_drop, List.drop_eq_drop_iff]
          omega
        rw [hdrop] at hfirst
        have hallowed := @zeroPrefix_eq data cursor checkedEnd chunk requireZeroPrefix checkedEnd hchunk (by omega)
          (by omega) le_rfl (by rw [subarray_self data _ _ le_rfl]; exact nofun)
        rw [hallowed, ok_bind]
        obtain ⟨hsome, hnone⟩ := @ih checkedEnd (by omega) (by omega)
        refine ⟨fun i o hi ho => ?_, fun hi => ?_⟩
        · rw [hfirst] at hi
          obtain ⟨j, hj, rfl⟩ := Option.map_eq_some_iff.mp hi
          have hroom := indexOf_le hj
          rw [List.length_drop] at hroom
          have hcursor : cursor + scan = checkedEnd := by omega
          rw [← Nat.add_assoc, hcursor] at ho ⊢
          rw [hsome j o hj ho, List.take_add, hdrop, List.all_append, subarray, ← hcursor, Nat.add_sub_cancel_left]
          cases requireZeroPrefix <;> cases ((data.drop cursor).take scan).all (· = 0) <;> rfl
        · rw [hfirst, Option.map_eq_none_iff] at hi
          rw [hnone hi]
          exact ite_self _
    · next hshort =>
      refine ⟨fun i o hi => ?_, fun _ => rfl⟩
      have := indexOf_le hi
      exact absurd (show cursor + 3 ≤ data.length by omega) hshort

theorem trimZeros_append (a b : Bytes) :
    trimZeros (a ++ b) = if trimZeros b = [] then trimZeros a else a ++ trimZeros b := by
  rw [trimZeros, trimZeros, trimZeros, List.rdropWhile, List.reverse_append, List.dropWhile_append]
  simp only [List.rdropWhile, List.reverse_eq_nil_iff, List.isEmpty_iff]
  split <;> simp

theorem trimZeros_eq_nil {piece : Bytes} : trimZeros piece = [] ↔ ∀ b ∈ piece, b = 0 := by
  simp [trimZeros, List.rdropWhile_eq_nil_iff]

theorem lastNonZero_eq {n : Nat} (hle : start + n ≤ data.length) :
    lastNonZero data start n = .ok (if trimZeros (subarray data start (start + n)) = [] then none
      else some (start + (trimZeros (subarray data start (start + n))).length)) := by
  induction n with
  | zero =>
    rw [subarray_self data _ _ (by omega)]
    rfl
  | succ n ih =>
    cases h : data.drop (start + n) with
    | nil =>
      have := List.drop_eq_nil_iff.mp h
      omega
    | cons b rest =>
      have hread : readByte data (start + n) = .ok b := readByte_drop h (i := 0)
      have hlast : subarray data (start + n) (start + (n + 1)) = [b] := by
        rw [subarray, h, ← Nat.add_assoc, Nat.add_sub_cancel_left]
        rfl
      rw [lastNonZero, hread, ok_bind, @subarray_append data start (start + n) _ (by omega) (by omega), hlast, trimZeros,
        List.rdropWhile_concat]
      by_cases hb : b = 0
      · rw [if_neg (not_not_intro hb), if_pos (decide_eq_true hb)]
        exact ih (by omega)
      · have hkeep : ¬ decide (b = 0) = true := by simpa using hb
        rw [if_pos hb, if_neg hkeep, if_neg (by simp), List.length_append, length_subarray (by omega),
          Nat.add_sub_cancel_left]
        rfl

theorem lastNonZeroOfChunk_eq (hstart : start ≤ cursor) (hle : cursor ≤ data.length) :
    lastNonZeroOfChunk data start cursor = .ok (if trimZeros (subarray data start cursor) = [] then none
      else some (start + (trimZeros (subarray data start cursor)).length)) := by
  obtain ⟨n, rfl⟩ := Nat.exists_eq_add_of_le hstart
  rw [lastNonZeroOfChunk, Nat.add_sub_cancel_left, lastNonZero_eq hle]
  split
  · next hzero => rw [if_pos (trimZeros_eq_nil.mpr (by simpa using hzero))]; rfl
  · rfl

theorem trimAnnexBTrailingZeros_eq (hchunk : 1 ≤ chunk) (hstart : start ≤ cursor) (hle : cursor ≤ data.length)
    (hfuel : cursor < start + fuel) :
    trimAnnexBTrailingZeros chunk data start fuel cursor =
      .ok (start + (trimZeros (subarray data start cursor)).length) := by
  induction fuel generalizing cursor with
  | zero => omega
  | succ fuel ih =>
    rw [trimAnnexBTrailingZeros]
    by_cases hlt : start < cursor
    · generalize hchunkStart : max start (cursor - chunk) = chunkStart
      dsimp only
      rw [if_pos hlt, lastNonZeroOfChunk_eq (by omega) hle, ok_bind,
        @subarray_append data start chunkStart cursor (by omega) (by omega), trimZeros_append]
      by_cases hzero : trimZeros (subarray data chunkStart cursor) = []
      · rw [if_pos hzero, if_pos hzero]
        exact ih (by omega) (by omega) (by omega)
      · rw [if_neg hzero, if_neg hzero, List.length_append, length_subarray (by omega), ← Nat.add_assoc,
          Nat.add_sub_of_le (by omega)]
        rfl
    · obtain rfl : cursor = start := by omega
      rw [if_neg hlt, subarray_self data _ _ le_rfl]
      rfl

end Scan

/-! ## The units -/

section Units

variable {codec : Codec} {data rest unit : Bytes} {units later : List Bytes} {offset : Nat}

def see (codec : Codec) (p : Progress) (unit : Bytes) : Except UploadError Progress :=
  if MAX_CODEC_NAL_UNITS < p.nalCount + 1 then .error .typeError
  else if p.hasVclNal then .ok { p with nalCount := p.nalCount + 1 }
  else match unitKind codec unit with
    | some coding => .ok ⟨p.nalCount + 1, coding⟩
    | none => .error .typeError

theorem see_error {p : Progress} {e : UploadError} (h : see codec p unit = .error e) : e = .typeError := by
  unfold see at h
  split at h
  · exact (Except.error.inj h).symm
  · split at h
    · cases h
    · split at h
      · cases h
      · exact (Except.error.inj h).symm

theorem validateNalHeader_eq (h : data.drop offset = unit ++ rest) :
    validateNalHeader codec data offset unit.length = match unitKind codec unit with
      | some coding => .ok coding
      | none => .error .typeError := by
  have hread (i : Nat) := readByte_drop (i := i) h
  cases codec with
  | avc =>
    match unit, hread with
    | [], _ | [_], _ => rfl
    | first :: _ :: _, hread =>
      have hfirst : readByte data offset = .ok first := hread 0
      rw [validateNalHeader, if_neg (by simp), hfirst, ok_bind, unitKind]
      by_cases hbit : first &&& 0x80 ≠ 0
      · rw [if_pos hbit, if_pos (.inl hbit)]
        rfl
      · rw [if_neg hbit]
        by_cases htype : first &&& 0x1f = 0 ∨ 23 < first &&& 0x1f
        · rw [if_pos htype, if_pos (.inr htype)]
          rfl
        · rw [if_neg htype, if_neg (not_or.mpr ⟨hbit, htype⟩)]
          rfl
  | hevc =>
    match unit, hread with
    | [], _ | [_], _ | [_, _], _ => rfl
    | first :: second :: _ :: _, hread =>
      have hfirst : readByte data offset = .ok first := hread 0
      have hsecond : readByte data (offset + 1) = .ok second := hread 1
      rw [validateNalHeader, if_neg (by simp), hfirst, ok_bind, hsecond, ok_bind, unitKind]
      by_cases hbad : first &&& 0x80 ≠ 0 ∨ second &&& 0x07 = 0
      · rw [if_pos hbad, if_pos hbad]
        rfl
      · rw [if_neg hbad, if_neg hbad]
        rfl

theorem validateNal_eq (p : Progress) (h : data.drop offset = unit ++ rest) :
    validateNal codec data p offset unit.length = see codec p unit := by
  rw [validateNal, see, validateNalHeader_eq h]
  split
  · rfl
  · split
    · rfl
    · cases unitKind codec unit <;> rfl

theorem opens_cons : Opens codec (unit :: units) later ↔
    (unitKind codec unit = some true ∧ units = later) ∨ (unitKind codec unit = some false ∧ Opens codec units later) := by
  constructor
  · rintro ⟨_ | ⟨first, before⟩, coding, heq, hbefore, hcoding⟩
    · obtain ⟨rfl, rfl⟩ := List.cons.inj heq
      exact .inl ⟨hcoding, rfl⟩
    · obtain ⟨rfl, rfl⟩ := List.cons.inj heq
      rw [List.forall_mem_cons] at hbefore
      exact .inr ⟨hbefore.1, before, coding, rfl, hbefore.2, hcoding⟩
  · rintro (⟨hcoding, rfl⟩ | ⟨hfirst, before, coding, rfl, hbefore, hcoding⟩)
    · exact ⟨[], unit, rfl, nofun, hcoding⟩
    · exact ⟨unit :: before, coding, rfl, List.forall_mem_cons.mpr ⟨hfirst, hbefore⟩, hcoding⟩

theorem plain_iff : Plain codec units ↔ units.length ≤ MAX_CODEC_NAL_UNITS ∧
    ∃ later, Opens codec units later ∧ ∀ unit ∈ later, unitKind codec unit ≠ none := by
  constructor
  · rintro ⟨hcount, hvalid, hcoding⟩
    refine ⟨hcount, ?_⟩
    clear hcount
    induction units with
    | nil => exact absurd hcoding.choose_spec.1 List.not_mem_nil
    | cons unit units ih =>
      rw [List.forall_mem_cons] at hvalid
      obtain ⟨coding, hmem, hkind⟩ := hcoding
      match hfirst : unitKind codec unit with
      | none => exact absurd hfirst hvalid.1
      | some true => exact ⟨units, opens_cons.mpr (.inl ⟨hfirst, rfl⟩), hvalid.2⟩
      | some false =>
        have hmem : coding ∈ units := (List.mem_cons.mp hmem).resolve_left fun h => by simp [← h, hkind] at hfirst
        obtain ⟨later, ho, hlater⟩ := ih hvalid.2 ⟨coding, hmem, hkind⟩
        exact ⟨later, opens_cons.mpr (.inr ⟨hfirst, ho⟩), hlater⟩
  · rintro ⟨hcount, later, ⟨before, coding, rfl, hbefore, hcoding⟩, hlater⟩
    refine ⟨hcount, List.forall_mem_append.mpr ⟨fun u hu => ?_, List.forall_mem_cons.mpr ⟨?_, hlater⟩⟩, coding, ?_, hcoding⟩
    · rw [hbefore u hu]
      exact nofun
    · rw [hcoding]
      exact nofun
    · exact List.mem_append_right _ List.mem_cons_self

theorem foldlM_see (codec : Codec) (units : List Bytes) (p : Progress) (hcount : p.nalCount ≤ MAX_CODEC_NAL_UNITS)
    (hseen : p.hasVclNal = true → p.nalCount ≠ 0) :
    let accepted := p.nalCount + units.length ≤ MAX_CODEC_NAL_UNITS ∧
      (p.hasVclNal = true ∨ ∃ later, Opens codec units later)
    (accepted ∧ units.foldlM (see codec) p >>= assertHasVclNal = .ok ()) ∨
      (¬ accepted ∧ units.foldlM (see codec) p >>= assertHasVclNal = .error .typeError) := by
  induction units generalizing p with
  | nil =>
    rw [List.foldlM_nil]
    change _ ∨ (_ ∧ assertHasVclNal p = _)
    by_cases hv : p.hasVclNal = true
    · exact .inl ⟨⟨hcount, .inl hv⟩, if_neg (by simp [hv, hseen hv])⟩
    · refine .inr ⟨fun h => h.2.elim hv ?_, if_pos (.inr (by simpa using hv))⟩
      rintro ⟨later, before, coding, heq, -⟩
      simp at heq
  | cons unit units ih =>
    rw [List.foldlM_cons, see, List.length_cons]
    dsimp only
    by_cases hover : MAX_CODEC_NAL_UNITS < p.nalCount + 1
    · rw [if_pos hover]
      exact .inr ⟨fun h => by omega, rfl⟩
    have next (seen : Bool) (h : (seen = true ∨ ∃ later, Opens codec units later) ↔
        (p.hasVclNal = true ∨ ∃ later, Opens codec (unit :: units) later)) := by
      have := ih ⟨p.nalCount + 1, seen⟩ (Nat.not_lt.mp hover) fun _ => Nat.succ_ne_zero _
      dsimp only at this
      rwa [h, Nat.add_right_comm, Nat.add_assoc] at this
    rw [if_neg hover]
    by_cases hv : p.hasVclNal = true
    · rw [if_pos hv]
      exact next _ (by simp [hv])
    · rw [if_neg hv]
      cases hkind : unitKind codec unit with
      | none => exact .inr ⟨fun h => h.2.elim hv fun ⟨_, ho⟩ => by simp [opens_cons, hkind] at ho, rfl⟩
      | some coding => exact next coding (by cases coding <;> simp [opens_cons, hkind, hv])

end Units

/-! ## The loops -/

section Loops

variable {codec : Codec} {data l : Bytes} {scan chunk fuel : Nat}

theorem pieces_eq (l : Bytes) :
    pieces l = (indexOf l).elim [l] fun i => l.take i :: pieces (l.drop (i + 3)) := by
  induction l with
  | nil => rfl
  | cons b rest ih =>
    rw [indexOf_cons]
    split
    · next hcode =>
      obtain ⟨t, ht⟩ := hcode
      rw [← ht]
      rfl
    · next hcode =>
      have hstep : pieces (b :: rest) = match pieces rest with
          | piece :: later => (b :: piece) :: later
          | [] => [] := by
        rw [pieces.eq_def]
        split
        · next heq => exact absurd ⟨_, heq.symm⟩ hcode
        · next heq => cases heq; rfl
        · next heq => cases heq
      rw [hstep, ih]
      cases indexOf rest <;> rfl

theorem pieces_ne_nil (l : Bytes) : pieces l ≠ [] := by
  rw [pieces_eq]
  cases indexOf l <;> exact List.cons_ne_nil _ _

theorem walkStartCodes_eq (hscan : 1 ≤ scan) (hchunk : 1 ≤ chunk) (startCode : StartCode) (p : Progress)
    (hle : startCode.nalOffset ≤ data.length) (hfuel : data.length - startCode.nalOffset < fuel) :
    walkStartCodes scan chunk codec data fuel startCode p =
      ((pieces (data.drop startCode.nalOffset)).map trimZeros).foldlM (see codec) p := by
  induction fuel generalizing startCode p with
  | zero => omega
  | succ fuel ih =>
    generalize ho : startCode.nalOffset = o at hle hfuel
    have hseen {stop : Nat} (hstop : o ≤ stop) (hlen : stop ≤ data.length) :
        (trimAnnexBTrailingZeros chunk data o (data.length + 1) stop >>= fun nalEnd =>
          validateNal codec data p o (nalEnd - o)) = see codec p (trimZeros (subarray data o stop)) := by
      rw [trimAnnexBTrailingZeros_eq hchunk hstop hlen (by omega), ok_bind, Nat.add_sub_cancel_left]
      obtain ⟨t, ht⟩ := List.rdropWhile_prefix (· = (0 : UInt8)) (l := subarray data o stop)
      refine validateNal_eq p (?_ : data.drop o = _ ++ (t ++ data.drop stop))
      rw [trimZeros, ← List.append_assoc, ht, subarray, ← Nat.add_sub_of_le hstop, ← List.drop_drop,
        Nat.add_sub_cancel_left, List.take_append_drop]
    obtain ⟨hsome, hnone⟩ := @findAnnexBStartCode_eq data o o (data.length + 1) scan chunk false hscan hchunk hle (by omega)
    rw [walkStartCodes, ho, pieces_eq]
    cases hi : indexOf (data.drop o) with
    | none =>
      have hall : subarray data o data.length = data.drop o := List.take_of_length_le (by rw [List.length_drop])
      rw [hnone hi, ok_bind]
      dsimp only [Option.map, Option.getD, Option.elim]
      rw [← bind_assoc, hseen hle le_rfl, hall]
      rfl
    | some i =>
      have hroom := indexOf_le hi
      rw [List.length_drop] at hroom
      obtain ⟨stop, hstop, hstople, hstart, hzero⟩ := @prefixOffset_spec data o (o + i) (by omega)
      have hpiece : trimZeros ((data.drop o).take i) = trimZeros (subarray data o stop) := by
        have hcut := @subarray_append data o stop (o + i) (hstart (by omega)) hstople
        rw [subarray, Nat.add_sub_cancel_left] at hcut
        rw [hcut, trimZeros_append, if_pos (trimZeros_eq_nil.mpr hzero)]
      rw [(hsome i stop hi hstop).trans (congrArg Except.ok (if_pos rfl)), ok_bind]
      dsimp only [Option.map, Option.getD, Option.elim]
      rw [← bind_assoc, hseen (hstart (by omega)) (by omega), List.map_cons, List.foldlM_cons, hpiece, List.drop_drop]
      congr 1
      funext q
      exact ih ⟨stop, o + i + 3⟩ q (show o + i + 3 ≤ data.length by omega)
        (show data.length - (o + i + 3) < fuel by omega)

theorem readUnsignedBigEndian_eq {offset n : Nat} (hle : offset + n ≤ data.length) :
    readUnsignedBigEndian data offset n = .ok (bigEndian ((data.drop offset).take n)) := by
  induction n with
  | zero => rfl
  | succ n ih =>
    cases h : data.drop (offset + n) with
    | nil =>
      have := List.drop_eq_nil_iff.mp h
      omega
    | cons b rest =>
      have hread : readByte data (offset + n) = .ok b := readByte_drop h (i := 0)
      rw [readUnsignedBigEndian, ih (by omega), ok_bind, hread, List.take_add, List.drop_drop, h, bigEndian, bigEndian,
        List.foldl_append]
      rfl

theorem prefixed_iff {lengthSize n : Nat} (hl : l ≠ []) (hn : bigEndian (l.take lengthSize) = n) (units : List Bytes) :
    Prefixed lengthSize l units ↔ n ≠ 0 ∧ lengthSize + n ≤ l.length ∧
      ∃ later, units = (l.drop lengthSize).take n :: later ∧ Prefixed lengthSize (l.drop (lengthSize + n)) later := by
  constructor
  · intro h
    cases h with
    | nil => exact absurd rfl hl
    | @cons digits unit rest later hsize hlength hne hrest =>
      rw [← hsize, List.take_left, hlength] at hn
      subst hn hsize
      refine ⟨by simpa using hne, by simp, later, by rw [List.drop_left, List.take_left], ?_⟩
      rwa [← List.drop_drop, List.drop_left, List.drop_left]
  · rintro ⟨hzero, hroom, later, rfl, hlater⟩
    have hlen : ((l.drop lengthSize).take n).length = n := by
      rw [List.length_take, List.length_drop]
      omega
    have := Prefixed.cons (List.length_take_of_le (by omega)) (hn.trans hlen.symm)
      (List.ne_nil_of_length_pos (by omega)) hlater
    rwa [← List.drop_drop, List.take_append_drop, List.take_append_drop] at this

/-- The other loop sees the units behind their lengths, if the packet consists of such. -/
theorem walkPrefixed_cases (codec : Codec) (lengthSize : Nat) {offset : Nat} (p : Progress) (hle : offset ≤ data.length)
    (hfuel : data.length - offset < fuel) :
    (∃ units, (∀ us, Prefixed lengthSize (data.drop offset) us ↔ us = units) ∧
      walkPrefixed codec data lengthSize fuel offset p = units.foldlM (see codec) p) ∨
      (∀ us, ¬ Prefixed lengthSize (data.drop offset) us) ∧
        walkPrefixed codec data lengthSize fuel offset p = .error .typeError := by
  induction fuel generalizing offset p with
  | zero => omega
  | succ fuel ih =>
    rw [walkPrefixed]
    by_cases hlt : offset < data.length
    · have hne : data.drop offset ≠ [] := fun h => by
        have := List.drop_eq_nil_iff.mp h
        omega
      have hiff := prefixed_iff hne (rfl : bigEndian ((data.drop offset).take lengthSize) = _)
      rw [List.length_drop] at hiff
      rw [if_pos hlt]
      by_cases hshort : data.length < offset + lengthSize
      · rw [if_pos hshort]
        exact .inr ⟨fun us h => by have := ((hiff us).mp h).2.1; omega, rfl⟩
      rw [if_neg hshort, readUnsignedBigEndian_eq (by omega), ok_bind]
      generalize bigEndian ((data.drop offset).take lengthSize) = n at hiff ⊢
      dsimp only
      by_cases hbad : n = 0 ∨ data.length < offset + lengthSize + n
      · rw [if_pos hbad]
        exact .inr ⟨fun us h => by have := (hiff us).mp h; omega, rfl⟩
      obtain ⟨hpos, hroom⟩ := not_or.mp hbad
      have hnext (q : Progress) := @ih (offset + lengthSize + n) q (by omega) (by omega)
      have hrest : (data.drop offset).drop (lengthSize + n) = data.drop (offset + lengthSize + n) := by
        rw [List.drop_drop, Nat.add_assoc]
      rw [hrest, List.drop_drop] at hiff
      generalize hunit : (data.drop (offset + lengthSize)).take n = unit at hiff
      have hlength : unit.length = n := by
        rw [← hunit, List.length_take, List.length_drop]
        omega
      have hsee : validateNal codec data p (offset + lengthSize) n = see codec p unit := by
        rw [← hlength]
        exact validateNal_eq p (by rw [← hunit, List.take_append_drop])
      have hunits {units : List Bytes} (h : ∀ us, Prefixed lengthSize (data.drop (offset + lengthSize + n)) us ↔ us = units)
          (us : List Bytes) : Prefixed lengthSize (data.drop offset) us ↔ us = unit :: units :=
        (hiff us).trans ⟨fun ⟨_, _, later, he, hl⟩ => by rw [he, (h later).mp hl],
          fun he => ⟨hpos, by omega, units, he, (h units).mpr rfl⟩⟩
      have hnone (h : ∀ us, ¬ Prefixed lengthSize (data.drop (offset + lengthSize + n)) us) (us : List Bytes) :
          ¬ Prefixed lengthSize (data.drop offset) us := fun hu =>
        have ⟨_, _, later, _, hl⟩ := (hiff us).mp hu
        h later hl
      rw [if_neg hbad, hsee]
      cases hx : see codec p unit with
      | error e =>
        rcases hnext p with ⟨units, h, -⟩ | ⟨h, -⟩
        · exact .inl ⟨unit :: units, hunits h, by rw [List.foldlM_cons, hx]; rfl⟩
        · exact .inr ⟨hnone h, congrArg Except.error (see_error hx)⟩
      | ok q =>
        rcases hnext q with ⟨units, h, hw⟩ | ⟨h, hw⟩
        · exact .inl ⟨unit :: units, hunits h, by rw [List.foldlM_cons, hx]; exact hw⟩
        · exact .inr ⟨hnone h, hw⟩
    · rw [if_neg hlt, List.drop_eq_nil_of_le (by omega)]
      refine .inl ⟨[], fun us => ⟨fun h => ?_, fun h => h ▸ .nil⟩, rfl⟩
      generalize hnil : ([] : Bytes) = l at h
      cases h with
      | nil => rfl
      | cons _ _ hne => simp [hne] at hnil

theorem packet_cases (hscan : 1 ≤ scan) (hchunk : 1 ≤ chunk) (codec : Codec) (data : Bytes) (lengthSize : Option Nat) :
    (∃ units, (∀ us, Framed data lengthSize us ↔ us = units) ∧ validateNalPacket scan chunk codec data lengthSize =
      units.foldlM (see codec) {} >>= assertHasVclNal) ∨
      (∀ us, ¬ Framed data lengthSize us) ∧ validateNalPacket scan chunk codec data lengthSize = .error .typeError := by
  cases lengthSize with
  | some lengthSize =>
    rw [validateNalPacket]
    rcases walkPrefixed_cases codec lengthSize {} (Nat.zero_le data.length)
      (show data.length - 0 < data.length + 1 by omega) with ⟨units, h, hw⟩ | ⟨h, hw⟩
    · exact .inl ⟨units, h, congrArg (· >>= assertHasVclNal) hw⟩
    · exact .inr ⟨h, congrArg (· >>= assertHasVclNal) hw⟩
  | none =>
    have hpieces := pieces_eq data
    obtain ⟨hsome, hnone⟩ := @findAnnexBStartCode_eq data 0 0 (data.length + 1) scan chunk true hscan hchunk
      (Nat.zero_le _) (by omega)
    rw [List.drop_zero] at hsome hnone
    cases hi : indexOf data with
    | none =>
      refine .inr ⟨?_, by rw [validateNalPacket, hnone hi]; rfl⟩
      rintro us ⟨zeros, later, heq, hne, -⟩
      rw [hpieces, hi] at heq
      exact hne (List.cons.inj heq).2.symm
    | some i =>
      rw [hi] at hpieces
      have hroom := indexOf_le hi
      obtain ⟨stop, hstop, -, -, -⟩ := @prefixOffset_spec data 0 i (by omega)
      have hfound := hsome i stop hi (by rw [Nat.zero_add]; exact hstop)
      rw [Nat.zero_add] at hfound
      have hall : (!true || (data.take i).all (· = 0)) = true ↔ ∀ b ∈ data.take i, b = 0 := by simp
      by_cases hzero : ∀ b ∈ data.take i, b = 0
      · refine .inl ⟨(pieces (data.drop (i + 3))).map trimZeros, fun us => ⟨?_, fun h => ?_⟩, ?_⟩
        · rintro ⟨zeros, later, heq, -, -, rfl⟩
          rw [hpieces] at heq
          rw [← (List.cons.inj heq).2]
        · exact ⟨_, _, hpieces, pieces_ne_nil _, hzero, h⟩
        · rw [validateNalPacket, hfound, if_pos (hall.mpr hzero)]
          exact congrArg (· >>= assertHasVclNal) (walkStartCodes_eq hscan hchunk ⟨stop, i + 3⟩ {} hroom
            (show data.length - (i + 3) < data.length + 1 by omega))
      · refine .inr ⟨?_, by rw [validateNalPacket, hfound, if_neg (hall.not.mpr hzero)]; rfl⟩
        rintro us ⟨zeros, later, heq, -, hz, -⟩
        rw [hpieces] at heq
        rw [← (List.cons.inj heq).1] at hz
        exact hzero hz

end Loops

/-- The code accepts the packets of the plain definition, unless a header behind the first coding unit is not valid:
such a packet is accepted too. -/
theorem nal_packet_exact {scan chunk : Nat} (hscan : 1 ≤ scan) (hchunk : 1 ≤ chunk) (codec : Codec) (data : Bytes)
    (lengthSize : Option Nat) :
    (validateNalPacket scan chunk codec data lengthSize = .ok () ∨
        validateNalPacket scan chunk codec data lengthSize = .error .typeError) ∧
      ((validateNalPacket scan chunk codec data lengthSize = .ok () ↔
          ∃ units, Framed data lengthSize units ∧ Plain codec units) ↔
        ¬ ∃ units, Framed data lengthSize units ∧ units.length ≤ MAX_CODEC_NAL_UNITS ∧ LateInvalid codec units) := by
  rcases packet_cases hscan hchunk codec data lengthSize with ⟨units, hunits, h⟩ | ⟨hnone, h⟩
  · rw [h]
    simp only [hunits, exists_eq_left]
    have hcases := foldlM_see codec units {} (Nat.zero_le _) nofun
    simp only [Nat.zero_add, Bool.false_eq_true, false_or] at hcases
    have hresult : units.foldlM (see codec) {} >>= assertHasVclNal = .ok () ↔
        units.length ≤ MAX_CODEC_NAL_UNITS ∧ ∃ later, Opens codec units later := by
      rcases hcases with ⟨hc, hr⟩ | ⟨hc, hr⟩ <;> simp [hr, hc]
    refine ⟨hcases.imp And.right And.right, ?_⟩
    rw [hresult]
    constructor
    · rintro hiff ⟨hcount, later, ho, unit, hmem, hbad⟩
      have hplain := hiff.mp ⟨hcount, later, ho⟩
      obtain ⟨before, coding, rfl, -⟩ := ho
      exact hplain.valid unit (List.mem_append_right _ (List.mem_cons_of_mem _ hmem)) hbad
    · intro hnot
      rw [plain_iff]
      refine and_congr_right fun hcount => exists_congr fun later => (and_iff_left_of_imp fun ho unit hmem hbad => ?_).symm
      exact hnot ⟨hcount, later, ho, unit, hmem, hbad⟩
  · rw [h]
    simp [hnone]

theorem nal_packet_exact_short : validateNalPacket 1 1 .avc [0, 0, 1, 0x65, 0x88] none = .ok () ∧
    ((validateNalPacket 1 1 .avc [0, 0, 1, 0x65, 0x88] none = .ok () ↔
        ∃ units, Framed [0, 0, 1, 0x65, 0x88] none units ∧ Plain .avc units) ↔
      ¬ ∃ units, Framed [0, 0, 1, 0x65, 0x88] none units ∧ units.length ≤ MAX_CODEC_NAL_UNITS ∧
        LateInvalid .avc units) :=
  ⟨by decide, (nal_packet_exact le_rfl le_rfl .avc [0, 0, 1, 0x65, 0x88] none).2⟩

/-- A coding unit, and a unit whose header has the forbidden bit set, behind start codes. -/
def lateUnit : Bytes := [0, 0, 1, 0x65, 0x88, 0, 0, 1, 0x80, 0x80]

theorem late_header_accepted : validateNalPacket (256 * 1024) (64 * 1024) .avc lateUnit none = .ok () ∧
    ¬ ∃ units, Framed lateUnit none units ∧ Plain .avc units := by
  refine ⟨by decide, ?_⟩
  rintro ⟨units, ⟨zeros, later, heq, -, -, rfl⟩, hplain⟩
  have hpieces : pieces lateUnit = [[], [0x65, 0x88], [0x80, 0x80]] := by decide
  rw [hpieces] at heq
  obtain ⟨-, rfl⟩ := List.cons.inj heq
  exact hplain.valid [0x80, 0x80] (by decide) (by decide)

end Maxim.Max.MediaUpload.Nal
