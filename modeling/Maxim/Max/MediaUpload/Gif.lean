import Mathlib.Data.List.Basic
import Mathlib.Algebra.Group.Nat.Defs

/-!
# The inspection of a GIF data stream

The inspection walks the blocks of an upload by a cursor that the data moves.
The grammar is stated on the bytes alone; the two agree, and the points at
which the walk yields to the event loop change nothing.
-/

namespace Maxim.Max.MediaUpload

abbrev Bytes := List UInt8

inductive UploadError
  | typeError
  | invalidPayload
  | dimensionsExceeded
  | budgetExceeded
  | outside
  | diverges
  deriving DecidableEq

/-- `outside` is a read behind the end of the data. -/
def readByte (data : Bytes) (i : Nat) : Except UploadError UInt8 :=
  match data[i]? with
  | some b => .ok b
  | none => .error .outside

def readUInt16LE (data : Bytes) (i : Nat) : Except UploadError Nat := do
  let lo ← readByte data i
  let hi ← readByte data (i + 1)
  return lo.toNat + 256 * hi.toNat

def MAX_IMAGE_UPLOAD_MAX_DIMENSION_PX : Nat := 7680

def MAX_ANIMATED_IMAGE_DECODE_PIXELS : Nat :=
  MAX_IMAGE_UPLOAD_MAX_DIMENSION_PX * MAX_IMAGE_UPLOAD_MAX_DIMENSION_PX

def MAX_GIF_FRAME_COUNT : Nat := 10000

def zeroScanChunk : Nat := 64 * 1024

/-- `yields` lists the offsets at which the scan gave way to the event loop. -/
structure Scan where
  nextYieldOffset : Nat
  yields : List Nat := []

/-- `sync` stands for the constant `MAX_MEDIA_VALIDATION_SYNC_SCAN_BYTES`. -/
def yieldDuringByteScan (sync : Nat) (scan : Scan) (cursor : Nat) : Scan :=
  if cursor < scan.nextYieldOffset then scan
  else { nextYieldOffset := cursor + sync, yields := scan.yields ++ [cursor] }

def tableSize (packed : UInt8) : Nat :=
  if packed &&& 0x80 ≠ 0 then 3 * 2 ^ ((packed &&& 0x07).toNat + 1) else 0

def skipGifSubBlocks (sync : Nat) (data : Bytes) : Nat → Nat → Scan → Except UploadError (Nat × Scan)
  | 0, _, _ => .error .diverges
  | fuel + 1, cursor, scan =>
    if cursor < data.length then do
      let blockLength ← readByte data cursor
      if blockLength = 0 then return (cursor + 1, scan)
      else
        let next := cursor + 1 + blockLength.toNat
        if data.length < next then throw .typeError
        else skipGifSubBlocks sync data fuel next (yieldDuringByteScan sync scan next)
    else throw .typeError

def assertZeroGifTrailerPadding (sync : Nat) (data : Bytes) : Nat → Nat → Scan → Except UploadError Scan
  | 0, _, _ => .error .diverges
  | fuel + 1, cursor, scan =>
    if cursor < data.length then
      let stop := min (cursor + zeroScanChunk) data.length
      if ((data.drop cursor).take (stop - cursor)).all (· = 0) then
        assertZeroGifTrailerPadding sync data fuel stop (yieldDuringByteScan sync scan stop)
      else throw .typeError
    else return scan

def withinBudget (width height frameCount : Nat) : Bool :=
  frameCount ≤ MAX_GIF_FRAME_COUNT && width * height * frameCount ≤ MAX_ANIMATED_IMAGE_DECODE_PIXELS

/-- The local colour table, the code size and the sub-blocks of an image. -/
def skipGifImageData (sync : Nat) (data : Bytes) (packed : UInt8) (cursor : Nat) (scan : Scan) :
    Except UploadError (Nat × Scan) :=
  let start := cursor + tableSize packed
  if data.length ≤ start then throw .typeError
  else do
    let minimumCodeSize ← readByte data start
    if minimumCodeSize < 2 ∨ 8 < minimumCodeSize then throw .typeError
    else skipGifSubBlocks sync data (data.length + 1) (start + 1) scan

def walkBlocks (sync : Nat) (data : Bytes) (width height : Nat) :
    Nat → Nat → Nat → Scan → Except UploadError (Nat × Scan)
  | 0, _, _, _ => .error .diverges
  | fuel + 1, cursor, frameCount, scan =>
    if cursor < data.length then do
      let marker ← readByte data cursor
      let scan := yieldDuringByteScan sync scan (cursor + 1)
      if marker = 0x3b then
        if frameCount = 0 then throw .typeError
        else do
          let scan ← assertZeroGifTrailerPadding sync data (data.length + 1) (cursor + 1) scan
          return (frameCount, scan)
      else if marker = 0x21 then
        if data.length ≤ cursor + 1 then throw .typeError
        else do
          let (next, scan) ← skipGifSubBlocks sync data (data.length + 1) (cursor + 2) scan
          walkBlocks sync data width height fuel next frameCount scan
      else if marker = 0x2c then
        if data.length < cursor + 1 + 9 then throw .typeError
        else do
          let left ← readUInt16LE data (cursor + 1)
          let top ← readUInt16LE data (cursor + 3)
          let frameWidth ← readUInt16LE data (cursor + 5)
          let frameHeight ← readUInt16LE data (cursor + 7)
          if frameWidth = 0 ∨ frameHeight = 0 ∨ width < left + frameWidth ∨ height < top + frameHeight then
            throw .typeError
          else if !withinBudget width height (frameCount + 1) then throw .budgetExceeded
          else do
            let packed ← readByte data (cursor + 9)
            let (next, scan) ← skipGifImageData sync data packed (cursor + 10) scan
            walkBlocks sync data width height fuel next (frameCount + 1) scan
      else throw .typeError
    else throw .typeError

def assertImageDimensions (width height : Nat) : Except UploadError Unit :=
  if width = 0 ∨ height = 0 then throw .invalidPayload
  else if MAX_IMAGE_UPLOAD_MAX_DIMENSION_PX < width ∨ MAX_IMAGE_UPLOAD_MAX_DIMENSION_PX < height then
    throw .dimensionsExceeded
  else return ()

/-- `toString('ascii')` drops the highest bit of every byte. -/
def ascii (bytes : Bytes) : Bytes := bytes.map (· &&& 0x7f)

def gifSignatures : List Bytes := [[71, 73, 70, 56, 55, 97], [71, 73, 70, 56, 57, 97]]

def inspectGifDataStream (sync : Nat) (data : Bytes) : Except UploadError (Nat × Nat × Nat) :=
  if data.length < 13 ∨ ascii (data.take 6) ∉ gifSignatures then throw .typeError
  else do
    let width ← readUInt16LE data 6
    let height ← readUInt16LE data 8
    assertImageDimensions width height
    let packed ← readByte data 10
    let cursor := 13 + tableSize packed
    if data.length < cursor then throw .typeError
    else do
      let (frameCount, _) ← walkBlocks sync data width height (data.length + 1) cursor 0 { nextYieldOffset := sync }
      return (width, height, frameCount)

/-! ## The grammar -/

/-- Length-prefixed sub-blocks, ended by an empty one. -/
inductive SubBlocks : Bytes → Prop
  | stop : SubBlocks [0]
  | block {n : UInt8} {body rest : Bytes} :
      n ≠ 0 → body.length = n.toNat → SubBlocks rest → SubBlocks (n :: (body ++ rest))

/-- An image descriptor inside the logical screen, with its packed field. -/
inductive Descriptor (width height : Nat) : Bytes → UInt8 → Prop
  | mk {l0 l1 t0 t1 w0 w1 h0 h1 packed : UInt8} :
      w0.toNat + 256 * w1.toNat ≠ 0 → h0.toNat + 256 * h1.toNat ≠ 0 →
      l0.toNat + 256 * l1.toNat + (w0.toNat + 256 * w1.toNat) ≤ width →
      t0.toNat + 256 * t1.toNat + (h0.toNat + 256 * h1.toNat) ≤ height →
      Descriptor width height [l0, l1, t0, t1, w0, w1, h0, h1, packed] packed

/-- An extension, or an image, with the number of images in it. -/
inductive Block (width height : Nat) : Bytes → Nat → Prop
  | extension {label : UInt8} {chain : Bytes} : SubBlocks chain → Block width height (0x21 :: label :: chain) 0
  | image {descriptor table chain : Bytes} {packed code : UInt8} : Descriptor width height descriptor packed →
      table.length = tableSize packed → 2 ≤ code → code ≤ 8 → SubBlocks chain →
      Block width height (0x2c :: (descriptor ++ (table ++ code :: chain))) 1

inductive Blocks (width height : Nat) : Bytes → Nat → Prop
  | nil : Blocks width height [] 0
  | cons {block rest : Bytes} {k n : Nat} :
      Block width height block k → Blocks width height rest n → Blocks width height (block ++ rest) (k + n)

/-- Header, logical screen descriptor and global colour table. -/
inductive Opening (signed : Bytes → Prop) (width height : Nat) : Bytes → Prop
  | mk {signature table : Bytes} {w0 w1 h0 h1 packed background aspect : UInt8} :
      signed signature → width = w0.toNat + 256 * w1.toNat → height = h0.toNat + 256 * h1.toNat →
      table.length = tableSize packed →
      Opening signed width height (signature ++ [w0, w1, h0, h1, packed, background, aspect] ++ table)

/-- A data stream of `n` images. -/
def WellFormed (signed : Bytes → Prop) (data : Bytes) (width height n : Nat) : Prop :=
  ∃ opening blocks padding, data = opening ++ (blocks ++ 0x3b :: padding) ∧ Opening signed width height opening ∧
    Blocks width height blocks n ∧ ∀ b ∈ padding, b = 0

/-- A beginning of a data stream whose last image descriptor exceeds the budget. -/
def OverBudget (signed : Bytes → Prop) (data : Bytes) (width height : Nat) : Prop :=
  ∃ opening blocks descriptor packed rest n, data = opening ++ (blocks ++ 0x2c :: (descriptor ++ rest)) ∧
    Opening signed width height opening ∧ Blocks width height blocks n ∧ Descriptor width height descriptor packed ∧
    withinBudget width height (n + 1) = false

/-! ## Sub-blocks and padding -/

section Walk

variable {data rest chain : Bytes} {cursor fuel sync width height : Nat} {scan : Scan}

theorem ok_bind {α β : Type} (a : α) (f : α → Except UploadError β) : (Except.ok a >>= f) = f a := rfl

theorem readByte_drop {i : Nat} (h : data.drop cursor = rest) :
    readByte data (cursor + i) = match rest[i]? with
      | some b => .ok b
      | none => .error .outside := by
  rw [readByte, ← h, List.getElem?_drop]

theorem readUInt16LE_of_reads {i : Nat} {lo hi : UInt8} (hlo : readByte data i = .ok lo)
    (hhi : readByte data (i + 1) = .ok hi) : readUInt16LE data i = .ok (lo.toNat + 256 * hi.toNat) := by
  rw [readUInt16LE, hlo, ok_bind, hhi]
  rfl

theorem drop_add (chain : Bytes) (h : data.drop cursor = chain ++ rest) : data.drop (cursor + chain.length) = rest := by
  rw [← List.drop_drop, h, List.drop_left]

theorem length_of_drop (h : data.drop cursor = chain) (hne : chain ≠ []) :
    data.length = cursor + chain.length := by
  have hlen := congrArg List.length h
  have hpos := List.length_pos_iff.mpr hne
  rw [List.length_drop] at hlen
  omega

theorem skipGifSubBlocks_complete (hc : SubBlocks chain) (hfuel : chain.length ≤ fuel)
    (h : data.drop cursor = chain ++ rest) :
    ∃ s, skipGifSubBlocks sync data fuel cursor scan = .ok (cursor + chain.length, s) := by
  induction hc generalizing cursor fuel scan with
  | stop =>
    obtain ⟨fuel, rfl⟩ : ∃ n, fuel = n + 1 := ⟨fuel - 1, by simp at hfuel; omega⟩
    have hlen := length_of_drop h (by simp)
    have hread : readByte data cursor = .ok 0 := readByte_drop h (i := 0)
    rw [skipGifSubBlocks, if_pos (by simp at hlen; omega), hread]
    exact ⟨scan, rfl⟩
  | @block n body tail hn hbody _ ih =>
    obtain ⟨fuel, rfl⟩ : ∃ m, fuel = m + 1 := ⟨fuel - 1, by simp at hfuel; omega⟩
    have hlen := length_of_drop h (by simp)
    have hread : readByte data cursor = .ok n := readByte_drop h (i := 0)
    simp only [List.cons_append, List.length_cons, List.length_append] at hlen hfuel
    have hnext : data.drop (cursor + 1 + n.toNat) = tail ++ rest := by
      rw [Nat.add_assoc, Nat.add_comm 1, ← hbody]
      exact drop_add (n :: body) (by rw [h, List.cons_append, List.append_assoc]; rfl)
    rw [skipGifSubBlocks, if_pos (by omega), hread]
    have hskip : ∃ s, skipGifSubBlocks sync data fuel (cursor + 1 + n.toNat)
        (yieldDuringByteScan sync scan (cursor + 1 + n.toNat)) = .ok (_, s) := ih (by omega) hnext
    obtain ⟨s, hs⟩ := hskip
    refine ⟨s, ?_⟩
    change (if n = 0 then _ else if data.length < cursor + 1 + n.toNat then _ else _) = _
    rw [if_neg hn, if_neg (by omega), hs, List.length_cons, List.length_append, hbody]
    congr 2
    omega

theorem skipGifSubBlocks_sound (sync : Nat) (scan : Scan) (hle : cursor ≤ data.length) (hfuel : data.length < cursor + fuel) :
    (∃ chain, SubBlocks chain ∧ chain <+: data.drop cursor) ∨
      skipGifSubBlocks sync data fuel cursor scan = .error .typeError := by
  induction fuel generalizing cursor scan with
  | zero => omega
  | succ fuel ih =>
    rw [skipGifSubBlocks]
    cases h : data.drop cursor with
    | nil => exact .inr (if_neg (by have := List.drop_eq_nil_iff.mp h; omega))
    | cons n tail =>
      have hlen := length_of_drop h (by simp)
      have hread : readByte data cursor = .ok n := readByte_drop h (i := 0)
      rw [if_pos (by simp at hlen; omega), hread]
      change _ ∨ (if n = 0 then _ else if data.length < cursor + 1 + n.toNat then _ else _) = _
      by_cases hn : n = 0
      · exact .inl ⟨[0], .stop, by simp [hn]⟩
      · rw [if_neg hn]
        by_cases hshort : data.length < cursor + 1 + n.toNat
        · exact .inr (if_pos hshort)
        · rw [if_neg hshort]
          have hnext : data.drop (cursor + 1 + n.toNat) = tail.drop n.toNat := by
            rw [← List.drop_drop, ← List.drop_drop, h]
            rfl
          refine (ih _ (by omega) (by omega)).imp_left ?_
          rintro ⟨chain, hchain, rest, hrest⟩
          refine ⟨_, @SubBlocks.block n (tail.take n.toNat) chain hn ?_ hchain, rest, ?_⟩
          · rw [List.length_take]
            simp only [List.length_cons] at hlen
            omega
          · rw [List.cons_append, List.append_assoc, hrest, hnext, List.take_append_drop]

theorem assertZeroGifTrailerPadding_spec (sync : Nat) (scan : Scan) (hle : cursor ≤ data.length) (hfuel : data.length < cursor + fuel) :
    ((∀ b ∈ data.drop cursor, b = 0) ∧
        ∃ s, assertZeroGifTrailerPadding sync data fuel cursor scan = .ok s) ∨
      ((¬ ∀ b ∈ data.drop cursor, b = 0) ∧
        assertZeroGifTrailerPadding sync data fuel cursor scan = .error .typeError) := by
  induction fuel generalizing cursor scan with
  | zero => omega
  | succ fuel ih =>
    rw [assertZeroGifTrailerPadding]
    by_cases hlt : cursor < data.length
    · rw [if_pos hlt]
      have hz : 0 < zeroScanChunk := by decide
      generalize hstop : min (cursor + zeroScanChunk) data.length = stop
      have hsplit : data.drop cursor = (data.drop cursor).take (stop - cursor) ++ data.drop stop := by
        rw [← Nat.add_sub_of_le (show cursor ≤ stop by omega), ← List.drop_drop, Nat.add_sub_cancel_left,
          List.take_append_drop]
      have hall : (∀ b ∈ data.drop cursor, b = 0) ↔
          ((data.drop cursor).take (stop - cursor)).all (· = 0) ∧ ∀ b ∈ data.drop stop, b = 0 := by
        rw [hsplit, List.forall_mem_append, ← hsplit]
        simp
      rw [hall]
      dsimp only
      split
      · next hzero => simpa [hzero] using ih _ (by omega) (by omega)
      · next hzero => exact .inr ⟨fun h => hzero h.1, rfl⟩
    · rw [if_neg hlt, List.drop_eq_nil_of_le (by omega)]
      exact .inl ⟨fun b hb => absurd hb List.not_mem_nil, scan, rfl⟩

/-! ## Blocks -/

theorem skipGifImageData_complete {table : Bytes} {packed code : UInt8} (ht : table.length = tableSize packed)
    (hlow : 2 ≤ code) (hhigh : code ≤ 8) (hc : SubBlocks chain)
    (h : data.drop cursor = table ++ code :: (chain ++ rest)) :
    ∃ s, skipGifImageData sync data packed cursor scan = .ok (cursor + (table ++ code :: chain).length, s) := by
  have hstart := drop_add table h
  have hlen := length_of_drop hstart (by simp)
  have hread : readByte data (cursor + table.length) = .ok code := readByte_drop hstart (i := 0)
  have hchain : data.drop (cursor + table.length + 1) = chain ++ rest := drop_add [code] hstart
  have hskip : ∃ s, skipGifSubBlocks sync data (data.length + 1) (cursor + table.length + 1) scan = .ok (_, s) :=
    skipGifSubBlocks_complete hc (by simp only [List.length_cons, List.length_append] at hlen; omega) hchain
  obtain ⟨s, hs⟩ := hskip
  refine ⟨s, ?_⟩
  rw [skipGifImageData, ← ht]
  rw [if_neg (by simp at hlen; omega), hread]
  change (if code < 2 ∨ 8 < code then _ else _) = _
  rw [if_neg (by rw [not_or, UInt8.not_lt, UInt8.not_lt]; exact ⟨hlow, hhigh⟩), hs]
  simp only [List.length_append, List.length_cons]
  congr 2
  omega

theorem skipGifImageData_sound (sync : Nat) (packed : UInt8) (cursor : Nat) (scan : Scan) :
    (∃ table code chain, table.length = tableSize packed ∧ 2 ≤ code ∧ code ≤ 8 ∧ SubBlocks chain ∧
        table ++ code :: chain <+: data.drop cursor) ∨
      skipGifImageData sync data packed cursor scan = .error .typeError := by
  rw [skipGifImageData]
  by_cases hshort : data.length ≤ cursor + tableSize packed
  · exact .inr (if_pos hshort)
  · rw [if_neg hshort]
    cases h : data.drop (cursor + tableSize packed) with
    | nil => exact absurd (List.drop_eq_nil_iff.mp h) hshort
    | cons code tail =>
      have hread : readByte data (cursor + tableSize packed) = .ok code := readByte_drop h (i := 0)
      rw [hread]
      change _ ∨ (if code < 2 ∨ 8 < code then _ else _) = _
      by_cases hcode : code < 2 ∨ 8 < code
      · exact .inr (if_pos hcode)
      · rw [if_neg hcode]
        rw [not_or, UInt8.not_lt, UInt8.not_lt] at hcode
        refine (skipGifSubBlocks_sound sync scan (by omega) (by omega)).imp_left ?_
        rintro ⟨chain, hchain, rest, hrest⟩
        rw [show data.drop (cursor + tableSize packed + 1) = tail from drop_add [code] h] at hrest
        refine ⟨(data.drop cursor).take (tableSize packed), code, chain, ?_, hcode.1, hcode.2, hchain, rest, ?_⟩
        · rw [List.length_take, List.length_drop]
          omega
        · rw [List.append_assoc, List.cons_append, hrest, ← h, ← List.drop_drop, List.take_append_drop]

variable {n k : Nat}

theorem walkBlocks_image {l0 l1 t0 t1 w0 w1 h0 h1 packed : UInt8}
    (h : data.drop cursor = 0x2c :: l0 :: l1 :: t0 :: t1 :: w0 :: w1 :: h0 :: h1 :: packed :: rest) :
    walkBlocks sync data width height (fuel + 1) cursor n scan =
      if w0.toNat + 256 * w1.toNat = 0 ∨ h0.toNat + 256 * h1.toNat = 0 ∨
          width < l0.toNat + 256 * l1.toNat + (w0.toNat + 256 * w1.toNat) ∨
          height < t0.toNat + 256 * t1.toNat + (h0.toNat + 256 * h1.toNat) then .error .typeError
      else if withinBudget width height (n + 1) = false then .error .budgetExceeded
      else (skipGifImageData sync data packed (cursor + 10) (yieldDuringByteScan sync scan (cursor + 1))).bind
        fun next => walkBlocks sync data width height fuel next.1 (n + 1) next.2 := by
  have hlen := length_of_drop h (by simp)
  simp only [List.length_cons] at hlen
  have hread (i : Nat) := readByte_drop (i := i) h
  have hmarker : readByte data cursor = .ok 0x2c := hread 0
  have hpacked : readByte data (cursor + 9) = .ok packed := hread 9
  rw [walkBlocks, if_pos (by omega), hmarker, ok_bind]
  dsimp only
  rw [if_neg (by decide), if_neg (by decide), if_pos rfl, if_neg (by omega),
    readUInt16LE_of_reads (hread 1) (hread 2), readUInt16LE_of_reads (hread 3) (hread 4),
    readUInt16LE_of_reads (hread 5) (hread 6), readUInt16LE_of_reads (hread 7) (hread 8)]
  simp only [ok_bind, hpacked, Bool.not_eq_true']
  rfl

theorem walkBlocks_extension {label : UInt8} (h : data.drop cursor = 0x21 :: label :: rest) :
    walkBlocks sync data width height (fuel + 1) cursor n scan =
      (skipGifSubBlocks sync data (data.length + 1) (cursor + 2) (yieldDuringByteScan sync scan (cursor + 1))).bind
        fun next => walkBlocks sync data width height fuel next.1 n next.2 := by
  have hlen := length_of_drop h (by simp)
  simp only [List.length_cons] at hlen
  have hmarker : readByte data cursor = .ok 0x21 := readByte_drop h (i := 0)
  rw [walkBlocks, if_pos (by omega), hmarker, ok_bind]
  dsimp only
  rw [if_neg (by decide), if_pos rfl, if_neg (by omega)]
  rfl

theorem walkBlocks_block (sync fuel : Nat) (scan : Scan) {block : Bytes} (hb : Block width height block k)
    (hk : k = 1 → withinBudget width height (n + 1)) (h : data.drop cursor = block ++ rest) :
    ∃ s, walkBlocks sync data width height (fuel + 1) cursor n scan =
      walkBlocks sync data width height fuel (cursor + block.length) (n + k) s := by
  have hlen := length_of_drop h (by cases hb <;> simp)
  rw [List.length_append] at hlen
  cases hb with
  | @extension label chain hchain =>
    have hrest : data.drop (cursor + 2) = chain ++ rest := drop_add [0x21, label] h
    have hskip : ∃ s, skipGifSubBlocks sync data (data.length + 1) (cursor + 2)
        (yieldDuringByteScan sync scan (cursor + 1)) = .ok (_, s) :=
      skipGifSubBlocks_complete hchain (by simp only [List.length_cons] at hlen; omega) hrest
    obtain ⟨s, hs⟩ := hskip
    rw [walkBlocks_extension h, hs]
    exact ⟨s, congrFun (congrArg (fun c => walkBlocks sync data width height fuel c n)
      (by simp only [List.length_cons]; omega)) s⟩
  | @image descriptor table chain packed code hd ht hlow hhigh hchain =>
    cases hd with
    | @mk l0 l1 t0 t1 w0 w1 h0 h1 _ hw hh hl htop =>
      have hcut : data.drop cursor =
          [0x2c, l0, l1, t0, t1, w0, w1, h0, h1, packed] ++ (table ++ code :: (chain ++ rest)) := by
        rw [h]
        simp only [List.cons_append, List.nil_append, List.append_assoc]
      have hrest : data.drop (cursor + 10) = _ := drop_add _ hcut
      have hskip : ∃ s, skipGifImageData sync data packed (cursor + 10)
          (yieldDuringByteScan sync scan (cursor + 1)) = .ok (_, s) :=
        skipGifImageData_complete ht hlow hhigh hchain hrest
      obtain ⟨s, hs⟩ := hskip
      rw [walkBlocks_image hcut, if_neg (by omega), if_neg (by rw [hk rfl]; decide), hs]
      exact ⟨s, congrFun (congrArg (fun c => walkBlocks sync data width height fuel c (n + 1))
        (by simp only [List.length_cons, List.length_append, List.length_nil]; omega)) s⟩

theorem walkBlocks_over {descriptor : Bytes} {packed : UInt8} (hd : Descriptor width height descriptor packed)
    (hover : withinBudget width height (n + 1) = false) (h : data.drop cursor = 0x2c :: (descriptor ++ rest)) :
    walkBlocks sync data width height (fuel + 1) cursor n scan = .error .budgetExceeded := by
  cases hd with
  | mk hw hh hl htop => rw [walkBlocks_image h, if_neg (by omega), if_pos hover]

theorem walkBlocks_trailer {padding : Bytes} (h : data.drop cursor = 0x3b :: padding) :
    (n ≠ 0 ∧ (∀ b ∈ padding, b = 0) ∧ ∃ s, walkBlocks sync data width height (fuel + 1) cursor n scan = .ok (n, s)) ∨
      (¬ (n ≠ 0 ∧ ∀ b ∈ padding, b = 0) ∧
        walkBlocks sync data width height (fuel + 1) cursor n scan = .error .typeError) := by
  have hlen := length_of_drop h (by simp)
  simp only [List.length_cons] at hlen
  have hmarker : readByte data cursor = .ok 0x3b := readByte_drop h (i := 0)
  rw [walkBlocks, if_pos (by omega), hmarker, ok_bind]
  dsimp only
  rw [if_pos rfl]
  by_cases hn : n = 0
  · exact .inr ⟨fun h => h.1 hn, if_pos hn⟩
  · rw [if_neg hn]
    have hrest : data.drop (cursor + 1) = padding := drop_add [0x3b] h
    have hpad := assertZeroGifTrailerPadding_spec sync (yieldDuringByteScan sync scan (cursor + 1))
      (show cursor + 1 ≤ data.length by omega) (show data.length < cursor + 1 + (data.length + 1) by omega)
    rw [hrest] at hpad
    rcases hpad with ⟨hzero, s, hs⟩ | ⟨hzero, hs⟩
    · exact .inl ⟨hn, hzero, s, by rw [hs]; rfl⟩
    · exact .inr ⟨fun h => hzero h.2, by rw [hs]; rfl⟩

theorem walkBlocks_fail {marker : UInt8} (h : data.drop cursor = marker :: rest) (h3 : marker ≠ 0x3b)
    (h1 : marker = 0x21 → rest = []) (hc : marker = 0x2c → rest.length < 9) :
    walkBlocks sync data width height (fuel + 1) cursor n scan = .error .typeError := by
  have hlen := length_of_drop h (by simp)
  simp only [List.length_cons] at hlen
  have hmarker : readByte data cursor = .ok marker := readByte_drop h (i := 0)
  rw [walkBlocks, if_pos (by omega), hmarker, ok_bind]
  dsimp only
  rw [if_neg h3]
  split
  · next he =>
    rw [h1 he, List.length_nil] at hlen
    rw [if_pos (by omega)]
    rfl
  · split
    · next he =>
      rw [if_pos (by have := hc he; omega)]
      rfl
    · rfl

theorem exists_nine {l : Bytes} (h : 9 ≤ l.length) : ∃ l0 l1 t0 t1 w0 w1 h0 h1 packed rest,
    l = l0 :: l1 :: t0 :: t1 :: w0 :: w1 :: h0 :: h1 :: packed :: rest :=
  match l, h with
  | _ :: _ :: _ :: _ :: _ :: _ :: _ :: _ :: _ :: _, _ => ⟨_, _, _, _, _, _, _, _, _, _, rfl⟩

/-- What stands at the cursor, when the walk does not fail there. -/
theorem walkBlocks_cases (n : Nat) (hle : cursor ≤ data.length) :
    walkBlocks sync data width height (fuel + 1) cursor n scan = .error .typeError ∨
      (∃ padding, data.drop cursor = 0x3b :: padding) ∨
      (∃ block k rest, Block width height block k ∧ data.drop cursor = block ++ rest ∧
        (k = 1 → withinBudget width height (n + 1))) ∨
      ∃ descriptor packed rest, Descriptor width height descriptor packed ∧
        data.drop cursor = 0x2c :: (descriptor ++ rest) ∧ withinBudget width height (n + 1) = false := by
  cases h : data.drop cursor with
  | nil =>
    have := List.drop_eq_nil_iff.mp h
    exact .inl (by rw [walkBlocks, if_neg (by omega)]; rfl)
  | cons marker tail =>
    have hlen := length_of_drop h (by simp)
    simp only [List.length_cons] at hlen
    by_cases h3 : marker = 0x3b
    · exact .inr (.inl ⟨tail, by rw [h3]⟩)
    by_cases h1 : marker = 0x21
    · subst h1
      cases tail with
      | nil => exact .inl (walkBlocks_fail h h3 (fun _ => rfl) (by decide))
      | cons label tail =>
        simp only [List.length_cons] at hlen
        rcases skipGifSubBlocks_sound sync (yieldDuringByteScan sync scan (cursor + 1))
          (show cursor + 2 ≤ data.length by omega) (show data.length < cursor + 2 + (data.length + 1) by omega)
          with ⟨chain, hchain, rest, hrest⟩ | herror
        · rw [show data.drop (cursor + 2) = tail from drop_add [0x21, label] h] at hrest
          exact .inr (.inr (.inl ⟨_, 0, rest, .extension hchain, by rw [← hrest]; rfl, by simp⟩))
        · exact .inl (by rw [walkBlocks_extension h, herror]; rfl)
    by_cases hc : marker = 0x2c ∧ 9 ≤ tail.length
    · obtain ⟨rfl, h9⟩ := hc
      obtain ⟨l0, l1, t0, t1, w0, w1, hh0, hh1, packed, rest, rfl⟩ := exists_nine h9
      by_cases hbad : w0.toNat + 256 * w1.toNat = 0 ∨ hh0.toNat + 256 * hh1.toNat = 0 ∨
          width < l0.toNat + 256 * l1.toNat + (w0.toNat + 256 * w1.toNat) ∨
          height < t0.toNat + 256 * t1.toNat + (hh0.toNat + 256 * hh1.toNat)
      · exact .inl (by rw [walkBlocks_image h, if_pos hbad])
      have hd : Descriptor width height [l0, l1, t0, t1, w0, w1, hh0, hh1, packed] packed :=
        .mk (by omega) (by omega) (by omega) (by omega)
      cases hover : withinBudget width height (n + 1) with
      | false => exact .inr (.inr (.inr ⟨_, packed, rest, hd, rfl, rfl⟩))
      | true =>
        rcases skipGifImageData_sound sync packed (cursor + 10)
          (yieldDuringByteScan sync scan (cursor + 1)) with ⟨table, code, chain, ht, hlow, hhigh, hchain, after, ha⟩ | herror
        · rw [show data.drop (cursor + 10) = rest from
            drop_add [0x2c, l0, l1, t0, t1, w0, w1, hh0, hh1, packed] h] at ha
          refine .inr (.inr (.inl ⟨_, 1, after, .image hd ht hlow hhigh hchain, ?_, fun _ => rfl⟩))
          rw [← ha]
          simp
        · exact .inl (by rw [walkBlocks_image h, if_neg hbad, if_neg (by simp [hover]), herror]; rfl)
    · exact .inl (walkBlocks_fail h h3 (fun he => absurd he h1) fun he => by
        by_contra hn
        exact hc ⟨he, by omega⟩)

/-! ## The walk -/

theorem Block.length_pos {block : Bytes} (hb : Block width height block k) : 0 < block.length := by
  cases hb <;> simp

theorem withinBudget_mono {m : Nat} (hle : m ≤ n) (h : withinBudget width height n) :
    withinBudget width height m := by
  simp only [withinBudget, Bool.and_eq_true, decide_eq_true_eq] at h ⊢
  exact ⟨Nat.le_trans hle h.1, Nat.le_trans (Nat.mul_le_mul_left _ hle) h.2⟩

theorem walkBlocks_accepts (sync : Nat) (scan : Scan) {blocks padding : Bytes} (hb : Blocks width height blocks k)
    (hk : k ≠ 0 → withinBudget width height (n + k)) (hn : n + k ≠ 0) (hzero : ∀ b ∈ padding, b = 0)
    (hfuel : blocks.length < fuel) (h : data.drop cursor = blocks ++ 0x3b :: padding) :
    ∃ s, walkBlocks sync data width height fuel cursor n scan = .ok (n + k, s) := by
  induction hb generalizing cursor n fuel scan with
  | nil =>
    obtain ⟨fuel, rfl⟩ : ∃ m, fuel = m + 1 := ⟨fuel - 1, by omega⟩
    rcases walkBlocks_trailer h with ⟨-, -, hs⟩ | ⟨hnot, -⟩
    · exact hs
    · exact absurd ⟨hn, hzero⟩ hnot
  | @cons block tail k m hblock _ ih =>
    obtain ⟨fuel, rfl⟩ : ∃ m, fuel = m + 1 := ⟨fuel - 1, by omega⟩
    have hpos := hblock.length_pos
    rw [List.length_append] at hfuel
    rw [List.append_assoc] at h
    have hfits : k = 1 → withinBudget width height (n + 1) := fun he =>
      withinBudget_mono (show n + 1 ≤ n + (k + m) by omega) (hk (by omega))
    obtain ⟨s, hs⟩ := walkBlocks_block sync fuel scan hblock hfits h
    rw [hs, ← Nat.add_assoc]
    rw [← Nat.add_assoc] at hk hn
    exact ih _ (fun hm => hk (by omega)) hn (by omega) (drop_add _ h)

theorem walkBlocks_exceeds {blocks descriptor : Bytes} {packed : UInt8} (hb : Blocks width height blocks k)
    (hd : Descriptor width height descriptor packed) (hover : withinBudget width height (n + k + 1) = false)
    (hfuel : blocks.length < fuel) (h : data.drop cursor = blocks ++ 0x2c :: (descriptor ++ rest)) :
    walkBlocks sync data width height fuel cursor n scan = .error .budgetExceeded := by
  induction hb generalizing cursor n fuel scan with
  | nil =>
    obtain ⟨fuel, rfl⟩ : ∃ m, fuel = m + 1 := ⟨fuel - 1, by omega⟩
    exact walkBlocks_over hd hover h
  | @cons block tail k m hblock _ ih =>
    obtain ⟨fuel, rfl⟩ : ∃ m, fuel = m + 1 := ⟨fuel - 1, by omega⟩
    have hpos := hblock.length_pos
    rw [List.length_append] at hfuel
    rw [List.append_assoc] at h
    by_cases hfits : k = 1 → withinBudget width height (n + 1)
    · obtain ⟨s, hs⟩ := walkBlocks_block sync fuel scan hblock hfits h
      rw [hs]
      rw [← Nat.add_assoc n] at hover
      exact ih hover (by omega) (drop_add _ h)
    · cases hblock with
      | extension => exact absurd nofun hfits
      | image hd' =>
        rw [List.cons_append, List.append_assoc] at h
        exact walkBlocks_over hd' (by simpa using hfits) h

theorem walkBlocks_sound (sync : Nat) (scan : Scan) (n : Nat) (hle : cursor ≤ data.length) (hfuel : data.length < cursor + fuel) :
    walkBlocks sync data width height fuel cursor n scan = .error .typeError ∨
      (∃ blocks k padding, Blocks width height blocks k ∧ data.drop cursor = blocks ++ 0x3b :: padding ∧
        (∀ b ∈ padding, b = 0) ∧ n + k ≠ 0 ∧ (k ≠ 0 → withinBudget width height (n + k))) ∨
      ∃ blocks k descriptor packed rest, Blocks width height blocks k ∧ Descriptor width height descriptor packed ∧
        data.drop cursor = blocks ++ 0x2c :: (descriptor ++ rest) ∧ withinBudget width height (n + k + 1) = false := by
  induction fuel generalizing cursor n scan with
  | zero => omega
  | succ fuel ih =>
    rcases walkBlocks_cases n hle with herror | ⟨padding, hp⟩ | ⟨block, k, rest, hblock, hd, hk⟩ |
      ⟨descriptor, packed, rest, hd, h, hover⟩
    · exact .inl herror
    · rcases walkBlocks_trailer hp with ⟨hn, hzero, -⟩ | ⟨-, herror⟩
      · exact .inr (.inl ⟨[], 0, padding, .nil, hp, hzero, hn, fun h => absurd rfl h⟩)
      · exact .inl herror
    · have hpos := hblock.length_pos
      have hlen := length_of_drop hd (by simp [List.length_pos_iff.mp hpos])
      rw [List.length_append] at hlen
      obtain ⟨s, hs⟩ := walkBlocks_block sync fuel scan hblock hk hd
      rw [hs]
      refine (ih _ (n + k) (by omega) (by omega)).imp_right ?_
      rw [drop_add _ hd]
      rintro (⟨blocks, m, padding, hb, hr, hzero, hn, hm⟩ | ⟨blocks, m, descriptor, packed, after, hb, hdesc, hr, hover⟩)
      · refine .inl ⟨_, k + m, padding, .cons hblock hb, by rw [hd, hr, List.append_assoc], hzero, by omega, fun _ => ?_⟩
        rw [← Nat.add_assoc]
        by_cases h0 : m = 0
        · subst h0
          cases hblock with
          | extension => omega
          | image => exact hk rfl
        · exact hm h0
      · exact .inr ⟨_, k + m, descriptor, packed, after, .cons hblock hb, hdesc, by rw [hd, hr, List.append_assoc],
          by rw [← hover, ← Nat.add_assoc n]⟩
    · exact .inr (.inr ⟨[], 0, descriptor, packed, rest, .nil, hd, h, hover⟩)

end Walk

/-! ## The inspection -/

def Signed (signature : Bytes) : Prop := ascii signature ∈ gifSignatures

/-- A screen that `assertImageDimensions` lets pass. -/
def Fits (width height : Nat) : Prop :=
  1 ≤ width ∧ width ≤ MAX_IMAGE_UPLOAD_MAX_DIMENSION_PX ∧ 1 ≤ height ∧ height ≤ MAX_IMAGE_UPLOAD_MAX_DIMENSION_PX

theorem assertImageDimensions_cases (width height : Nat) :
    (Fits width height ∧ assertImageDimensions width height = .ok ()) ∨
      (¬ Fits width height ∧ ∃ e ∈ [UploadError.invalidPayload, .dimensionsExceeded],
        assertImageDimensions width height = .error e) := by
  unfold assertImageDimensions Fits
  split
  · exact .inr ⟨by omega, _, List.mem_cons_self, rfl⟩
  · split
    · exact .inr ⟨by omega, _, List.mem_cons_of_mem _ List.mem_cons_self, rfl⟩
    · exact .inl ⟨by omega, rfl⟩

theorem length_of_signed {signature : Bytes} (h : Signed signature) : signature.length = 6 := by
  have hall : ∀ g ∈ gifSignatures, g.length = 6 := by decide
  rw [← hall _ h, ascii, List.length_map]

section Inspection

variable {data : Bytes} {sync width height n : Nat}

theorem inspect_header {signature tail : Bytes} {w0 w1 h0 h1 packed background aspect : UInt8}
    (hs : Signed signature)
    (h : data = signature ++ w0 :: w1 :: h0 :: h1 :: packed :: background :: aspect :: tail) :
    inspectGifDataStream sync data =
      (assertImageDimensions (w0.toNat + 256 * w1.toNat) (h0.toNat + 256 * h1.toNat)).bind fun _ =>
        if data.length < 13 + tableSize packed then .error .typeError
        else (walkBlocks sync data (w0.toNat + 256 * w1.toNat) (h0.toNat + 256 * h1.toNat) (data.length + 1)
          (13 + tableSize packed) 0 { nextYieldOffset := sync }).bind fun walked =>
            .ok (w0.toNat + 256 * w1.toNat, h0.toNat + 256 * h1.toNat, walked.1) := by
  have hsix := length_of_signed hs
  have hdrop : data.drop 6 = w0 :: w1 :: h0 :: h1 :: packed :: background :: aspect :: tail := by
    rw [h, ← hsix, List.drop_left]
  have htake : data.take 6 = signature := by rw [h, ← hsix, List.take_left]
  have hlen := length_of_drop hdrop (by simp)
  simp only [List.length_cons] at hlen
  have hread (i : Nat) := readByte_drop (i := i) hdrop
  have hpacked : readByte data 10 = .ok packed := hread 4
  have hpass : ¬ (data.length < 13 ∨ ascii signature ∉ gifSignatures) := not_or.mpr ⟨by omega, not_not_intro hs⟩
  rw [inspectGifDataStream, htake, if_neg hpass,
    readUInt16LE_of_reads (hread 0) (hread 1), readUInt16LE_of_reads (hread 2) (hread 3)]
  simp only [ok_bind, hpacked]
  rfl

theorem header_cases (data : Bytes) :
    (∀ sync, inspectGifDataStream sync data = .error .typeError) ∨
      ∃ signature w0 w1 h0 h1 packed background aspect tail, Signed signature ∧
        data = signature ++ w0 :: w1 :: h0 :: h1 :: packed :: background :: aspect :: tail := by
  by_cases hbad : data.length < 13 ∨ ascii (data.take 6) ∉ gifSignatures
  · exact .inl fun sync => if_pos hbad
  · obtain ⟨hlen, hs⟩ := not_or.mp hbad
    have hseven : 7 ≤ (data.drop 6).length := by
      rw [List.length_drop]
      omega
    obtain ⟨w0, w1, h0, h1, packed, background, aspect, tail, htail⟩ : ∃ w0 w1 h0 h1 packed background aspect tail,
        data.drop 6 = w0 :: w1 :: h0 :: h1 :: packed :: background :: aspect :: tail :=
      match data.drop 6, hseven with
      | _ :: _ :: _ :: _ :: _ :: _ :: _ :: _, _ => ⟨_, _, _, _, _, _, _, _, rfl⟩
    exact .inr ⟨_, w0, w1, h0, h1, packed, background, aspect, tail, not_not.mp hs,
      by rw [← htail, List.take_append_drop]⟩

theorem inspect_opening (sync : Nat) {opening tail : Bytes} (ho : Opening Signed width height opening) (hf : Fits width height)
    (h : data = opening ++ tail) :
    data.drop opening.length = tail ∧ inspectGifDataStream sync data =
      (walkBlocks sync data width height (data.length + 1) opening.length 0 { nextYieldOffset := sync }).bind
        fun walked => .ok (width, height, walked.1) := by
  refine ⟨by rw [h, List.drop_left], ?_⟩
  cases ho with
  | @mk signature table w0 w1 h0 h1 packed background aspect hs hw hh ht =>
    have hsix := length_of_signed hs
    have hcursor : (signature ++ [w0, w1, h0, h1, packed, background, aspect] ++ table).length =
        13 + tableSize packed := by
      simp only [List.length_append, List.length_cons, List.length_nil]
      omega
    have hlen := congrArg List.length h
    rw [List.length_append, hcursor] at hlen
    have hcut : data = signature ++ w0 :: w1 :: h0 :: h1 :: packed :: background :: aspect :: (table ++ tail) := by
      rw [h]
      simp only [List.append_assoc, List.cons_append, List.nil_append]
    subst hw hh
    rcases assertImageDimensions_cases (w0.toNat + 256 * w1.toNat) (h0.toNat + 256 * h1.toNat) with
      ⟨-, hok⟩ | ⟨hnot, -⟩
    · rw [inspect_header hs hcut, hok, hcursor]
      exact if_neg (by omega)
    · exact absurd hf hnot

theorem inspect_accepts (h : WellFormed Signed data width height n) (hf : Fits width height) (hn : n ≠ 0)
    (hb : withinBudget width height n) : inspectGifDataStream sync data = .ok (width, height, n) := by
  obtain ⟨opening, blocks, padding, hdata, ho, hblocks, hzero⟩ := h
  obtain ⟨hdrop, hinspect⟩ := inspect_opening sync ho hf hdata
  have hlen := congrArg List.length hdata
  simp only [List.length_append] at hlen
  rw [← Nat.zero_add n] at hb hn
  obtain ⟨s, hs⟩ := walkBlocks_accepts sync { nextYieldOffset := sync } hblocks (fun _ => hb) hn hzero
    (show _ < data.length + 1 by omega) hdrop
  rw [hinspect, hs, Nat.zero_add]
  rfl

theorem inspect_exceeds (h : OverBudget Signed data width height) (hf : Fits width height) :
    inspectGifDataStream sync data = .error .budgetExceeded := by
  obtain ⟨opening, blocks, descriptor, packed, rest, n, hdata, ho, hblocks, hd, hover⟩ := h
  obtain ⟨hdrop, hinspect⟩ := inspect_opening sync ho hf hdata
  have hlen := congrArg List.length hdata
  simp only [List.length_append] at hlen
  rw [← Nat.zero_add n] at hover
  rw [hinspect, walkBlocks_exceeds hblocks hd hover (by omega) hdrop]
  rfl

def rejections : List UploadError := [.typeError, .invalidPayload, .dimensionsExceeded]

theorem inspect_sound (data : Bytes) :
    (∃ e ∈ rejections, ∀ sync, inspectGifDataStream sync data = .error e) ∨
      (∃ width height n, WellFormed Signed data width height n ∧ Fits width height ∧ n ≠ 0 ∧
        withinBudget width height n) ∨
      ∃ width height, OverBudget Signed data width height ∧ Fits width height := by
  rcases header_cases data with herror | ⟨signature, w0, w1, h0, h1, packed, background, aspect, tail, hs, hdata⟩
  · exact .inl ⟨_, List.mem_cons_self, herror⟩
  rcases assertImageDimensions_cases (w0.toNat + 256 * w1.toNat) (h0.toNat + 256 * h1.toNat) with
    ⟨hf, hok⟩ | ⟨-, e, he, herror⟩
  · have hlen := congrArg List.length hdata
    simp only [List.length_append, List.length_cons, length_of_signed hs] at hlen
    by_cases hshort : tail.length < tableSize packed
    · refine .inl ⟨_, List.mem_cons_self, fun sync => ?_⟩
      rw [inspect_header hs hdata, hok]
      exact if_pos (by omega)
    by_cases hall : ∀ sync, inspectGifDataStream sync data = .error .typeError
    · exact .inl ⟨_, List.mem_cons_self, hall⟩
    obtain ⟨sync, hsync⟩ := not_forall.mp hall
    have ho : Opening Signed _ _ (signature ++ [w0, w1, h0, h1, packed, background, aspect] ++
        tail.take (tableSize packed)) := .mk hs rfl rfl (List.length_take_of_le (by omega))
    generalize hopening : signature ++ _ ++ _ = opening at ho
    have hcut : data = opening ++ tail.drop (tableSize packed) := by
      rw [hdata, ← hopening]
      simp only [List.append_assoc, List.cons_append, List.nil_append, List.take_append_drop]
    obtain ⟨hdrop, hinspect⟩ := inspect_opening sync ho hf hcut
    have hle := congrArg List.length hcut
    rw [List.length_append] at hle
    rw [← hdrop] at hcut
    rcases walkBlocks_sound sync { nextYieldOffset := sync } 0 (show opening.length ≤ data.length by omega)
      (show data.length < opening.length + (data.length + 1) by omega) with
      herror | ⟨blocks, k, padding, hb, hr, hzero, hk, hbudget⟩ | ⟨blocks, k, descriptor, packed, rest, hb, hd, hr, hover⟩
    · rw [hinspect, herror] at hsync
      exact absurd rfl hsync
    · rw [hr] at hcut
      rw [Nat.zero_add] at hk hbudget
      exact .inr (.inl ⟨_, _, k, ⟨_, _, _, hcut, ho, hb, hzero⟩, hf, hk, hbudget hk⟩)
    · rw [hr] at hcut
      rw [Nat.zero_add] at hover
      exact .inr (.inr ⟨_, _, ⟨_, _, _, _, _, _, hcut, ho, hb, hd, hover⟩, hf⟩)
  · refine .inl ⟨e, List.mem_cons_of_mem _ he, fun sync => ?_⟩
    rw [inspect_header hs hdata, herror]
    rfl

theorem ascii_of_lt {signature : Bytes} (h : ∀ b ∈ signature, b < 0x80) : ascii signature = signature := by
  have hmask : ∀ n < 0x80, UInt8.ofNat n &&& 0x7f = UInt8.ofNat n := by decide
  refine (List.map_congr_left fun b hb => ?_).trans (List.map_id _)
  have hb := hmask b.toNat (UInt8.lt_iff_toNat_lt.mp (h b hb))
  rwa [UInt8.ofNat_toNat] at hb

theorem opening_signed {opening tail : Bytes} (hascii : ∀ b ∈ data.take 6, b < 0x80) (h : data = opening ++ tail) :
    Opening Signed width height opening ↔ Opening (· ∈ gifSignatures) width height opening := by
  constructor
  · rintro ⟨hs, hw, hh, ht⟩
    refine .mk ?_ hw hh ht
    rw [List.append_assoc, List.append_assoc] at h
    rw [h, ← length_of_signed hs, List.take_left] at hascii
    rwa [Signed, ascii_of_lt hascii] at hs
  · rintro ⟨hs, hw, hh, ht⟩
    have hall : ∀ g ∈ gifSignatures, ascii g ∈ gifSignatures := by decide
    exact .mk (hall _ hs) hw hh ht

theorem wellFormed_signed (hascii : ∀ b ∈ data.take 6, b < 0x80) :
    WellFormed Signed data width height n ↔ WellFormed (· ∈ gifSignatures) data width height n :=
  exists_congr fun _ => exists_congr fun _ => exists_congr fun _ => and_congr_right fun h =>
    and_congr_left fun _ => opening_signed hascii h

theorem overBudget_signed (hascii : ∀ b ∈ data.take 6, b < 0x80) :
    OverBudget Signed data width height ↔ OverBudget (· ∈ gifSignatures) data width height :=
  exists_congr fun _ => exists_congr fun _ => exists_congr fun _ => exists_congr fun _ => exists_congr fun _ =>
    exists_congr fun _ => and_congr_right fun h => and_congr_left fun _ => opening_signed hascii h

end Inspection

/-- No run depends on the yields, leaves the data or fails to end; on a file that begins with
ASCII the accepted ones are the data streams of the grammar within the budget, on a screen
that fits, and the budget's error means a beginning of a stream that exceeds it. -/
theorem gif_inspection_exact (data : Bytes) :
    (∀ sync sync', inspectGifDataStream sync data = inspectGifDataStream sync' data) ∧
      (∀ sync, inspectGifDataStream sync data ≠ .error .outside ∧
        inspectGifDataStream sync data ≠ .error .diverges) ∧
      ((∀ b ∈ data.take 6, b < 0x80) →
        (∀ sync width height n, inspectGifDataStream sync data = .ok (width, height, n) ↔
          WellFormed (· ∈ gifSignatures) data width height n ∧ Fits width height ∧ 1 ≤ n ∧
            n ≤ MAX_GIF_FRAME_COUNT ∧ width * height * n ≤ MAX_ANIMATED_IMAGE_DECODE_PIXELS) ∧
        ∀ sync, inspectGifDataStream sync data = .error .budgetExceeded ↔
          ∃ width height, OverBudget (· ∈ gifSignatures) data width height ∧ Fits width height) := by
  have hcases : (∃ e ∈ rejections, ∀ sync, inspectGifDataStream sync data = .error e) ∨
      (∃ width height n, (WellFormed Signed data width height n ∧ Fits width height ∧ n ≠ 0 ∧
        withinBudget width height n) ∧ ∀ sync, inspectGifDataStream sync data = .ok (width, height, n)) ∨
      ∃ width height, (OverBudget Signed data width height ∧ Fits width height) ∧
        ∀ sync, inspectGifDataStream sync data = .error .budgetExceeded :=
    (inspect_sound data).imp_right fun h => h.imp
      (fun ⟨w, h, n, hwf, hf, hn, hb⟩ => ⟨w, h, n, ⟨hwf, hf, hn, hb⟩, fun _ => inspect_accepts hwf hf hn hb⟩)
      fun ⟨w, h, ho, hf⟩ => ⟨w, h, ⟨ho, hf⟩, fun _ => inspect_exceeds ho hf⟩
  refine ⟨?_, ?_, fun hascii => ⟨fun sync width height n => ⟨?_, ?_⟩, fun sync => ⟨?_, ?_⟩⟩⟩
  · rcases hcases with ⟨e, -, hall⟩ | ⟨w, h, n, -, hall⟩ | ⟨w, h, -, hall⟩ <;>
      exact fun sync sync' => (hall sync).trans (hall sync').symm
  · rcases hcases with ⟨e, he, hall⟩ | ⟨w, h, n, -, hall⟩ | ⟨w, h, -, hall⟩
    · have hne : ∀ e ∈ rejections, e ≠ .outside ∧ e ≠ .diverges := by decide
      exact fun sync => by simpa [hall sync] using hne e he
    · exact fun sync => by simp [hall sync]
    · exact fun sync => by simp [hall sync]
  · intro hok
    rcases hcases with ⟨e, -, hall⟩ | ⟨w, h, m, ⟨hwf, hf, hm, hb⟩, hall⟩ | ⟨w, h, -, hall⟩
    · exact nomatch hok.symm.trans (hall sync)
    · obtain ⟨rfl, rfl, rfl⟩ : width = w ∧ height = h ∧ n = m := by simpa [hall sync, eq_comm] using hok
      simp only [withinBudget, Bool.and_eq_true, decide_eq_true_eq] at hb
      exact ⟨(wellFormed_signed hascii).mp hwf, hf, by omega, hb.1, hb.2⟩
    · exact nomatch hok.symm.trans (hall sync)
  · rintro ⟨hwf, hf, hn, hframes, hpixels⟩
    exact inspect_accepts ((wellFormed_signed hascii).mpr hwf) hf (by omega) (by simp [withinBudget, hframes, hpixels])
  · intro herror
    rcases hcases with ⟨e, he, hall⟩ | ⟨w, h, m, -, hall⟩ | ⟨w, h, ⟨ho, hf⟩, -⟩
    · rw [hall sync] at herror
      injection herror with herror
      subst herror
      exact absurd he (by decide)
    · exact nomatch herror.symm.trans (hall sync)
    · exact ⟨w, h, (overBudget_signed hascii).mp ho, hf⟩
  · rintro ⟨w, h, ho, hf⟩
    exact inspect_exceeds ((overBudget_signed hascii).mpr ho) hf

def dot (width : Nat) : Bytes :=
  [71, 73, 70, 56, 57, 97, UInt8.ofNat (width % 256), UInt8.ofNat (width / 256), 1, 0, 0, 0, 0,
    0x2c, 0, 0, 0, 0, 1, 0, 1, 0, 0, 2, 0, 0x3b]

theorem gif_inspection_exact_dot :
    inspectGifDataStream 8 (dot 1) = .ok (1, 1, 1) ∧ WellFormed (· ∈ gifSignatures) (dot 1) 1 1 1 :=
  have hok : inspectGifDataStream 8 (dot 1) = .ok (1, 1, 1) := by decide +kernel
  ⟨hok, ((((gif_inspection_exact (dot 1)).2.2 (by decide +kernel)).1 8 1 1 1).mp hok).1⟩

/-- A screen of 7681 pixels is in the grammar and in the budget, and is rejected. -/
theorem wide_screen_rejected : ∃ data width height n, WellFormed (· ∈ gifSignatures) data width height n ∧ 1 ≤ n ∧
    n ≤ MAX_GIF_FRAME_COUNT ∧ width * height * n ≤ MAX_ANIMATED_IMAGE_DECODE_PIXELS ∧
    inspectGifDataStream 8 data = .error .dimensionsExceeded := by
  have ho : Opening (· ∈ gifSignatures) 7681 1 ([71, 73, 70, 56, 57, 97] ++ [1, 30, 1, 0, 0, 0, 0] ++ []) :=
    .mk (by decide) rfl rfl rfl
  have hd : Descriptor 7681 1 [0, 0, 0, 0, 1, 0, 1, 0, 0] 0 := .mk (by decide) (by decide) (by decide) (by decide)
  have hb : Block 7681 1 (0x2c :: ([0, 0, 0, 0, 1, 0, 1, 0, 0] ++ ([] ++ 2 :: [0]))) 1 :=
    .image hd rfl (by decide) (by decide) .stop
  exact ⟨dot 7681, 7681, 1, 1, ⟨_, _, [], by decide, ho, .cons hb .nil, nofun⟩, by decide, by decide, by decide,
    by decide⟩

end Maxim.Max.MediaUpload
