import Maxim.Library.Text
import Mathlib.Algebra.Group.Nat.Defs

/-!
# Reading a response into a bounded buffer

The declared length is an allocation hint: it becomes the first buffer, and the
first block of a block list when the body turns out longer. A byte of memory is
`none` until it is written.
-/

namespace Maxim.Common.BoundedResponse

open Maxim.Library (trim lowerCase)

variable {β : Type} {maxBytes : Nat}

abbrev Buffer (β : Type) := List (Option β)

def allocUnsafeSlow (size : Nat) : Buffer β := List.replicate size none

/-- `set` throws when the bytes do not fit. -/
def set (buffer bytes : Buffer β) (offset : Nat) : Option (Buffer β) :=
  if offset + bytes.length ≤ buffer.length then
    some (buffer.take offset ++ bytes ++ buffer.drop (offset + bytes.length))
  else none

/-- `copy` of the first bytes of a source drops what does not fit. -/
def copy (source buffer : Buffer β) (offset sourceEnd : Nat) : Buffer β :=
  let bytes := (source.take sourceEnd).take (buffer.length - offset)
  buffer.take offset ++ bytes ++ buffer.drop (offset + bytes.length)

def RESPONSE_BUFFER_BLOCK_BYTES : Nat := 64 * 1024

def maxSafeInteger : Nat := 2 ^ 53 - 1

structure Headers where
  contentEncoding : Option String := none
  contentLength : Option String := none

def declaredNumber (headers : Headers) : Option Nat :=
  let encoding := headers.contentEncoding.map fun e => lowerCase (trim e)
  if encoding.any fun e => e ≠ "" && e ≠ "identity" then none
  else headers.contentLength.bind fun raw =>
    let digits := (trim raw).toList
    if digits ≠ [] ∧ digits.all Char.isDigit then
      some (digits.foldl (fun n c => 10 * n + (c.toNat - '0'.toNat)) 0)
    else none

/-- `Number` rounds above the safe integers and never back into them. -/
def readUncompressedContentLength (headers : Headers) : Option Nat :=
  (declaredNumber headers).filter (· ≤ maxSafeInteger)

inductive ReadError where
  | rangeError
  | limitExceeded
  | emptyBody
  | diverges
  deriving DecidableEq

/-- `tail` is the last block. `copied` records what the copy loop took at each iteration. -/
structure Collector (β : Type) where
  totalBytes : Nat := 0
  target : Option (Buffer β) := none
  allocatedBytes : Nat := 0
  full : List (Buffer β) := []
  tail : Option (Buffer β) := none
  tailBytes : Nat := 0
  copied : List Nat := []
  deriving DecidableEq

def Collector.blocks (c : Collector β) : List (Buffer β) := c.full ++ c.tail.toList

def Collector.capacity (c : Collector β) : Nat := (c.target.getD []).length + c.blocks.flatten.length

def Collector.grow (maxBytes : Nat) (c : Collector β) : Collector β :=
  let tail := allocUnsafeSlow (min RESPONSE_BUFFER_BLOCK_BYTES (maxBytes - c.allocatedBytes))
  { c with
    full := c.blocks, tail := some tail, tailBytes := 0
    allocatedBytes := c.allocatedBytes + tail.length }

def Collector.isFull (c : Collector β) : Bool := c.tail.all fun t => c.tailBytes = t.length

/-- `value` is the part of the chunk from the cursor on. -/
def copyLoop (maxBytes : Nat) : Nat → List β → Collector β → Except ReadError (Collector β)
  | _, [], c => .ok c
  | 0, _ :: _, _ => .error .diverges
  | fuel + 1, b :: rest, c =>
    let value := b :: rest
    let c := if c.isFull then c.grow maxBytes else c
    let tail := c.tail.getD []
    let copiedBytes := min value.length (tail.length - c.tailBytes)
    match set tail ((value.take copiedBytes).map some) c.tailBytes with
    | none => .error .rangeError
    | some tail =>
      copyLoop maxBytes fuel (value.drop copiedBytes)
        { c with tail := some tail, tailBytes := c.tailBytes + copiedBytes, copied := c.copied ++ [copiedBytes] }

def Collector.reuseTarget (c : Collector β) (target : Buffer β) : Collector β :=
  { c with full := c.blocks, tail := some target, tailBytes := c.totalBytes, target := none }

def store (maxBytes : Nat) (value : List β) (c : Collector β) : Except ReadError (Collector β) :=
  match c.target with
  | none => copyLoop maxBytes value.length value c
  | some target =>
    if c.totalBytes + value.length ≤ target.length then
      match set target (value.map some) c.totalBytes with
      | none => .error .rangeError
      | some target => .ok { c with target := some target }
    else copyLoop maxBytes value.length value (c.reuseTarget target)

def readChunk (maxBytes : Nat) (value : List β) (c : Collector β) : Except ReadError (Collector β) :=
  if maxBytes - c.totalBytes < value.length then .error .limitExceeded
  else if value.length = 0 then .ok c
  else (store maxBytes value c).map fun s => { s with totalBytes := c.totalBytes + value.length }

/-- The blocks one after another in one buffer of the exact length. -/
def assemble (totalBytes : Nat) (blocks : List (Buffer β)) : Buffer β × Nat :=
  blocks.foldl (fun acc block =>
    let copiedBytes := min block.length (totalBytes - acc.2)
    (copy block acc.1 acc.2 copiedBytes, acc.2 + copiedBytes)) (allocUnsafeSlow totalBytes, 0)

def finish (c : Collector β) : Except ReadError (Buffer β) :=
  if c.totalBytes = 0 then .error .emptyBody
  else match c.target, c.blocks with
    | some target, _ =>
      .ok (if c.totalBytes = target.length then target else (assemble c.totalBytes [target]).1)
    | none, [block] => .ok (if c.tailBytes = block.length then block else (assemble c.totalBytes [block]).1)
    | none, blocks => .ok (assemble c.totalBytes blocks).1

def readAll (maxBytes : Nat) : List (List β) → Collector β → Except ReadError (Buffer β) × Collector β
  | [], c => (finish c, c)
  | value :: chunks, c =>
    match readChunk maxBytes value c with
    | .error e => (.error e, c)
    | .ok c => readAll maxBytes chunks c

/-- The answer and the collector it left. `body` lists the chunks of the stream. -/
def readBoundedResponseBuffer (headers : Headers) (body : Option (List (List β))) (maxBytes : Nat) :
    Except ReadError (Buffer β) × Collector β :=
  if maxSafeInteger < maxBytes ∨ maxBytes < 1 then (.error .rangeError, {})
  else match body with
    | none => (.error .emptyBody, {})
    | some chunks =>
      match readUncompressedContentLength headers with
      | none => readAll maxBytes chunks {}
      | some declaredLength =>
        if maxBytes < declaredLength then (.error .limitExceeded, {})
        else if 0 < declaredLength then
          readAll maxBytes chunks
            { target := some (allocUnsafeSlow declaredLength), allocatedBytes := declaredLength }
        else readAll maxBytes chunks {}

/-! ## Writing behind what is written -/

theorem length_alloc (n : Nat) : (allocUnsafeSlow n : Buffer β).length = n := List.length_replicate

theorem set_fresh (bytes : Buffer β) {front t a : Buffer β} {k u : Nat} (h : front ++ t = a ++ allocUnsafeSlow u)
    (hk : t.length = k + u) (hb : bytes.length ≤ u) :
    ∃ t', set t bytes k = some t' ∧ front ++ t' = a ++ bytes ++ allocUnsafeSlow (u - bytes.length) ∧
      t'.length = t.length := by
  have hlen : front.length + k = a.length := by
    have := congrArg List.length h
    simp only [List.length_append, length_alloc] at this
    omega
  have htake : front ++ t.take k = a := by
    have := congrArg (List.take a.length) h
    rwa [← hlen, List.take_length_add_append, hlen, List.take_left] at this
  have hdrop : t.drop k = allocUnsafeSlow u := by
    have := congrArg (List.drop a.length) h
    rwa [← hlen, List.drop_length_add_append, hlen, List.drop_left] at this
  refine ⟨_, if_pos (by omega), ?_, ?_⟩
  · rw [← List.drop_drop, hdrop, allocUnsafeSlow, List.drop_replicate, ← htake]
    simp only [allocUnsafeSlow, List.append_assoc]
  · simp only [List.length_append, List.length_take, List.length_drop]
    omega

/-! ## The collector -/

/-- What the copy loop keeps: `seen` is written, in order, and the rest of the memory is unused. -/
structure Stored (maxBytes : Nat) (seen : List β) (unused : Nat) (c : Collector β) : Prop where
  target : c.target = none
  memory : c.full.flatten ++ c.tail.getD [] = seen.map some ++ allocUnsafeSlow unused
  tail : (c.tail.getD []).length = c.tailBytes + unused
  allocated : c.allocatedBytes = seen.length + unused
  bounded : c.allocatedBytes ≤ maxBytes
  copied : ∀ n ∈ c.copied, 1 ≤ n

theorem flatten_blocks (c : Collector β) : c.blocks.flatten = c.full.flatten ++ c.tail.getD [] := by
  cases h : c.tail <;> simp [Collector.blocks, h]

variable {seen : List β} {c : Collector β}

theorem Stored.ready {unused : Nat} (h : Stored maxBytes seen unused c)
    (hlt : seen.length < maxBytes) :
    ∃ u, 0 < u ∧ Stored maxBytes seen u (if c.isFull then c.grow maxBytes else c) := by
  have htail := h.tail
  by_cases hf : c.isFull
  · rw [if_pos hf]
    have hu : unused = 0 := by
      cases ht : c.tail with
      | none => simp only [ht, Option.getD_none, List.length_nil] at htail; omega
      | some t =>
        simp only [Collector.isFull, ht, Option.all_some, decide_eq_true_eq] at hf
        simp only [ht, Option.getD_some] at htail
        omega
    subst hu
    refine ⟨min RESPONSE_BUFFER_BLOCK_BYTES (maxBytes - c.allocatedBytes), ?_, h.target, ?_, ?_, ?_, ?_, h.copied⟩
    · rw [h.allocated, RESPONSE_BUFFER_BLOCK_BYTES]
      omega
    · simp only [Collector.grow, flatten_blocks, h.memory, Option.getD_some]
      simp [allocUnsafeSlow]
    · simp only [Collector.grow, Option.getD_some, length_alloc, Nat.zero_add]
    · simp only [Collector.grow, length_alloc, h.allocated, Nat.add_zero]
    · have := h.bounded
      simp only [Collector.grow, length_alloc]
      omega
  · rw [if_neg hf]
    refine ⟨unused, Nat.pos_of_ne_zero fun hu => hf ?_, h⟩
    cases ht : c.tail with
    | none => simp [Collector.isFull, ht]
    | some t =>
      simp only [ht, Option.getD_some] at htail
      simp [Collector.isFull, ht, htail, hu]

/-- The loop writes the whole chunk, at least one byte at each iteration. -/
theorem copyLoop_stored {fuel : Nat} {value : List β} {unused : Nat}
    (h : Stored maxBytes seen unused c) (hfuel : value.length ≤ fuel)
    (hle : seen.length + value.length ≤ maxBytes) :
    ∃ u s, copyLoop maxBytes fuel value c = .ok s ∧ Stored maxBytes (seen ++ value) u s := by
  induction fuel generalizing value seen unused c with
  | zero =>
    obtain rfl : value = [] := List.eq_nil_of_length_eq_zero (by omega)
    exact ⟨unused, c, rfl, by rwa [List.append_nil]⟩
  | succ fuel ih =>
    cases value with
    | nil => exact ⟨unused, c, rfl, by rwa [List.append_nil]⟩
    | cons b rest =>
      simp only [List.length_cons] at hfuel hle
      obtain ⟨u, hu, hr⟩ := h.ready (by omega)
      have htail := hr.tail
      rw [copyLoop]
      generalize (if c.isFull then c.grow maxBytes else c) = d at hr htail ⊢
      have hroom : (d.tail.getD []).length - d.tailBytes = u := by omega
      simp only [hroom]
      have hn : ((b :: rest).take (min (b :: rest).length u)).length = min (b :: rest).length u := by
        rw [List.length_take]
        omega
      generalize hm : min (b :: rest).length u = n at hn ⊢
      have hpos : 1 ≤ n := by simp only [List.length_cons] at hm; omega
      obtain ⟨t, hset, hmem, hlen⟩ := set_fresh (((b :: rest).take n).map some) hr.memory hr.tail
        (by rw [List.length_map, hn]; omega)
      simp only [hset]
      rw [List.length_map, hn] at hmem
      have hstep : Stored maxBytes (seen ++ (b :: rest).take n) (u - n)
          { d with tail := some t, tailBytes := d.tailBytes + n, copied := d.copied ++ [n] } := by
        refine ⟨hr.target, ?_, ?_, ?_, hr.bounded, ?_⟩
        · simpa only [Option.getD_some, List.map_append] using hmem
        · simp only [Option.getD_some, hlen, htail]
          omega
        · rw [hr.allocated, List.length_append, hn]
          omega
        · intro k hk
          rcases List.mem_append.mp hk with hk | hk
          · exact hr.copied k hk
          · exact List.mem_singleton.mp hk ▸ hpos
      have hrest : ((b :: rest).drop n).length + n = rest.length + 1 := by
        rw [List.length_drop]
        simp only [List.length_cons] at hm ⊢
        omega
      obtain ⟨v, s, hs, hst⟩ := ih hstep (show ((b :: rest).drop n).length ≤ fuel by omega)
        (by rw [List.length_append, hn]; omega)
      exact ⟨v, s, hs, by rwa [List.append_assoc, List.take_append_drop] at hst⟩

/-- What the reader keeps between two chunks: the bytes seen stand in the target, or in the blocks. -/
inductive Holds (maxBytes : Nat) (seen : List β) (c : Collector β) : Prop
  | target (t : Buffer β) (unused : Nat) (target : c.target = some t)
      (memory : t = seen.map some ++ allocUnsafeSlow unused)
      (blocks : c.full = [] ∧ c.tail = none) (total : c.totalBytes = seen.length)
      (allocated : c.allocatedBytes = t.length) (bounded : c.allocatedBytes ≤ maxBytes)
      (copied : ∀ n ∈ c.copied, 1 ≤ n)
  | blocks (unused : Nat) (stored : Stored maxBytes seen unused c) (total : c.totalBytes = seen.length)

theorem Holds.totalBytes (h : Holds maxBytes seen c) :
    c.totalBytes = seen.length := by
  cases h with
  | target _ _ _ _ _ total => exact total
  | blocks _ _ total => exact total

theorem Holds.capacity_le (h : Holds maxBytes seen c) :
    c.capacity = c.allocatedBytes ∧ c.allocatedBytes ≤ maxBytes ∧ ∀ n ∈ c.copied, 1 ≤ n := by
  cases h with
  | target t _ target _ blocks _ allocated bounded copied =>
    refine ⟨?_, bounded, copied⟩
    simp [Collector.capacity, Collector.blocks, target, blocks, allocated]
  | blocks unused stored =>
    refine ⟨?_, stored.bounded, stored.copied⟩
    rw [Collector.capacity, flatten_blocks, stored.memory, stored.target, stored.allocated]
    simp [length_alloc]

theorem store_holds (value : List β) (h : Holds maxBytes seen c)
    (hle : seen.length + value.length ≤ maxBytes) :
    ∃ s, store maxBytes value c = .ok s ∧
      Holds maxBytes (seen ++ value) { s with totalBytes := c.totalBytes + value.length } := by
  have htotal : c.totalBytes + value.length = (seen ++ value).length := by
    rw [h.totalBytes, List.length_append]
  cases h with
  | blocks unused stored total =>
    obtain ⟨u, s, hs, hst⟩ := copyLoop_stored stored le_rfl hle
    exact ⟨s, by rw [store, stored.target, hs], .blocks u { hst with } htotal⟩
  | target t unused target memory blocks total allocated bounded copied =>
    have hlen : t.length = seen.length + unused := by
      rw [memory, List.length_append, List.length_map, length_alloc]
    rw [store, target]
    dsimp only
    by_cases hfit : c.totalBytes + value.length ≤ t.length
    · obtain ⟨t', hset, hmem, hlen'⟩ := set_fresh (value.map some)
        ((List.nil_append _).trans memory) (show t.length = c.totalBytes + unused by rw [hlen, total]) (by rw [List.length_map]; omega)
      rw [if_pos hfit, hset]
      refine ⟨_, rfl, .target t' (unused - value.length) rfl ?_ blocks htotal ?_ bounded copied⟩
      · simpa using hmem
      · rw [allocated, hlen']
    · rw [if_neg hfit]
      have hst : Stored maxBytes seen unused (c.reuseTarget t) := by
        refine ⟨rfl, ?_, ?_, ?_, bounded, copied⟩
        · simp [Collector.reuseTarget, Collector.blocks, blocks, memory]
        · rw [Collector.reuseTarget, Option.getD_some, hlen, total]
        · simp only [Collector.reuseTarget]
          rw [allocated, hlen]
      obtain ⟨u, s, hs, hst⟩ := copyLoop_stored hst le_rfl hle
      exact ⟨s, hs, .blocks u { hst with } htotal⟩

/-! ## The result -/

def assembled (total : Nat) (bytes : Buffer β) : Buffer β × Nat :=
  (bytes.take total ++ allocUnsafeSlow (total - bytes.length), min total bytes.length)

theorem copy_assembled (total : Nat) (bytes block : Buffer β) :
    let n := min block.length (total - (assembled total bytes).2)
    (copy block (assembled total bytes).1 (assembled total bytes).2 n, (assembled total bytes).2 + n) =
      assembled total (bytes ++ block) := by
  have hlen : (bytes.take total).length = min total bytes.length := List.length_take
  have hbytes : (block.take (min block.length (total - min total bytes.length))).take
      ((bytes.take total ++ allocUnsafeSlow (total - bytes.length)).length - min total bytes.length) =
      block.take (total - bytes.length) := by
    rw [List.length_append, length_alloc, hlen, List.take_take, List.take_eq_take_iff]
    omega
  simp only [assembled, copy, hbytes]
  rw [← hlen, List.take_left, ← List.drop_drop, List.drop_left, List.take_append, allocUnsafeSlow,
    List.drop_replicate, allocUnsafeSlow, List.length_take, List.length_append, hlen, Prod.mk.injEq]
  refine ⟨?_, by omega⟩
  congr 2
  omega

theorem assemble_eq {total unused : Nat} {written : Buffer β} {blocks : List (Buffer β)}
    (h : blocks.flatten = written ++ allocUnsafeSlow unused) (htotal : written.length = total) :
    (assemble total blocks).1 = written := by
  have key : ∀ (blocks : List (Buffer β)) (bytes : Buffer β),
      blocks.foldl (fun acc block =>
        let copiedBytes := min block.length (total - acc.2)
        (copy block acc.1 acc.2 copiedBytes, acc.2 + copiedBytes)) (assembled total bytes) =
      assembled total (bytes ++ blocks.flatten) := by
    intro blocks
    induction blocks with
    | nil => simp
    | cons block blocks ih =>
      intro bytes
      have hstep := copy_assembled total bytes block
      rw [List.foldl_cons, List.flatten_cons, ← List.append_assoc, ← ih, ← hstep]
  have hstart : (allocUnsafeSlow total, 0) = assembled total ([] : Buffer β) := by simp [assembled]
  rw [assemble, hstart, key, List.nil_append, h, assembled, List.take_left' htotal, List.length_append,
    htotal, Nat.sub_eq_zero_of_le (Nat.le_add_right _ _)]
  exact List.append_nil _

/-- The result is what was seen, with nothing unwritten in it. -/
theorem finish_eq (h : Holds maxBytes seen c) :
    finish c = if seen = [] then .error .emptyBody else .ok (seen.map some) := by
  rw [finish, h.totalBytes]
  by_cases hs : seen = []
  · rw [if_pos hs, if_pos (by rw [hs]; rfl)]
  · rw [if_neg hs, if_neg (fun hz => hs (List.eq_nil_of_length_eq_zero hz))]
    have hlen : (seen.map some).length = seen.length := List.length_map _
    cases h with
    | target t unused target memory =>
      rw [target]
      dsimp only
      split
      · have ht : t.length = seen.length + unused := by rw [memory, List.length_append, hlen, length_alloc]
        obtain rfl : unused = 0 := by omega
        rw [memory, allocUnsafeSlow, List.replicate_zero, List.append_nil]
      · rw [assemble_eq (by simpa using memory) hlen]
    | blocks unused stored total =>
      have hmem := stored.memory
      rw [← flatten_blocks] at hmem
      rw [stored.target]
      split
      · next hb => cases hb
      · next block _ hb =>
        rw [hb] at hmem
        split
        · next hfull =>
          have htail := stored.tail
          have hone : c.tail.getD [] = block ∨ unused = 0 := by
            cases ht : c.tail with
            | none =>
              simp only [ht, Option.getD_none, List.length_nil] at htail
              exact .inr (by omega)
            | some t =>
              simp only [Collector.blocks, ht, Option.toList_some] at hb
              have := List.append_inj' (hb.trans (List.nil_append [block]).symm) rfl
              exact .inl (List.singleton_inj.mp this.2)
          obtain rfl : unused = 0 := by
            rcases hone with hone | hone
            · rw [hone] at htail
              omega
            · exact hone
          rw [List.flatten_singleton] at hmem
          rw [hmem, allocUnsafeSlow, List.replicate_zero, List.append_nil]
        · rw [assemble_eq hmem hlen]
      · rw [assemble_eq hmem hlen]

theorem readAll_eq (chunks : List (List β)) (h : Holds maxBytes seen c)
    (hs : seen.length ≤ maxBytes) :
    (readAll maxBytes chunks c).1 =
      (if maxBytes < (seen ++ chunks.flatten).length then .error .limitExceeded
        else if seen ++ chunks.flatten = [] then .error .emptyBody
        else .ok ((seen ++ chunks.flatten).map some)) ∧
      ∃ seen', Holds maxBytes seen' (readAll maxBytes chunks c).2 := by
  induction chunks generalizing seen c with
  | nil =>
    rw [List.flatten_nil, List.append_nil, if_neg (Nat.not_lt.mpr hs)]
    exact ⟨finish_eq h, seen, h⟩
  | cons value chunks ih =>
    rw [readAll, readChunk, h.totalBytes, List.flatten_cons]
    by_cases hover : maxBytes - seen.length < value.length
    · rw [if_pos hover, if_pos (by simp only [List.length_append]; omega)]
      exact ⟨rfl, seen, h⟩
    · rw [if_neg hover]
      by_cases hz : value.length = 0
      · obtain rfl := List.eq_nil_of_length_eq_zero hz
        simpa using ih h hs
      · rw [if_neg hz]
        obtain ⟨s, hstore, hnext⟩ := store_holds value h (by omega)
        rw [hstore, ← List.append_assoc]
        rw [h.totalBytes] at hnext
        exact ih hnext (by rw [List.length_append]; omega)

theorem holds_empty : Holds maxBytes ([] : List β) {} :=
  .blocks 0 ⟨rfl, rfl, rfl, rfl, Nat.zero_le _, fun _ h => absurd h List.not_mem_nil⟩ rfl

theorem holds_declared {d : Nat} (hd : d ≤ maxBytes) :
    Holds maxBytes ([] : List β) { target := some (allocUnsafeSlow d), allocatedBytes := d } :=
  .target _ d rfl rfl ⟨rfl, rfl⟩ rfl (length_alloc d).symm hd fun _ h => absurd h List.not_mem_nil

def OverLimit (headers : Headers) (chunks : List (List β)) (maxBytes : Nat) : Prop :=
  (∃ d, declaredNumber headers = some d ∧ d ≤ maxSafeInteger ∧ maxBytes < d) ∨ maxBytes < chunks.flatten.length

open scoped Classical in
theorem reader_outcome (headers : Headers) (chunks : List (List β)) (hpos : 1 ≤ maxBytes)
    (hsafe : maxBytes ≤ maxSafeInteger) :
    (readBoundedResponseBuffer headers (some chunks) maxBytes).1 =
        (if OverLimit headers chunks maxBytes then .error .limitExceeded
          else if chunks.flatten = [] then .error .emptyBody else .ok (chunks.flatten.map some)) ∧
      ∃ seen, Holds maxBytes seen (readBoundedResponseBuffer headers (some chunks) maxBytes).2 := by
  rw [readBoundedResponseBuffer, if_neg (by omega)]
  have hread : ∀ c : Collector β, Holds maxBytes [] c →
      (∀ d, readUncompressedContentLength headers = some d → d ≤ maxBytes) →
      (readAll maxBytes chunks c).1 = (if OverLimit headers chunks maxBytes then .error .limitExceeded
        else if chunks.flatten = [] then .error .emptyBody else .ok (chunks.flatten.map some)) ∧
      ∃ seen, Holds maxBytes seen (readAll maxBytes chunks c).2 := by
    intro c hc hd
    have hiff : OverLimit headers chunks maxBytes ↔ maxBytes < chunks.flatten.length := by
      refine or_iff_right ?_
      rintro ⟨d, h, hsafe, hlt⟩
      have := hd d (Option.filter_eq_some_iff.mpr ⟨h, decide_eq_true hsafe⟩)
      omega
    rw [if_congr hiff rfl rfl]
    exact readAll_eq chunks hc (Nat.zero_le _)
  cases hd : readUncompressedContentLength headers with
  | none => exact hread _ holds_empty (by simp [hd])
  | some d =>
    have hall : d ≤ maxBytes → ∀ e, readUncompressedContentLength headers = some e → e ≤ maxBytes := by
      intro hle e he
      rwa [Option.some_inj.mp (he.symm.trans hd)]
    dsimp only
    split
    · next hlt =>
      obtain ⟨hnum, hs⟩ := Option.filter_eq_some_iff.mp hd
      rw [if_pos (.inl ⟨d, hnum, of_decide_eq_true hs, hlt⟩)]
      exact ⟨rfl, [], holds_empty⟩
    · next hle =>
      split
      · exact hread _ (holds_declared (Nat.not_lt.mp hle)) (hall (Nat.not_lt.mp hle))
      · exact hread _ holds_empty (hall (Nat.not_lt.mp hle))

/-- The answer is the limit error exactly above the limit, the empty error exactly for an empty
body within it, and otherwise the chunks one after another, every byte written. The collector
holds at most the limit, and every iteration of the copy loop moves a byte. -/
theorem bounded_response_exact (headers : Headers) (chunks : List (List β)) (maxBytes : Nat)
    (hpos : 1 ≤ maxBytes) (hsafe : maxBytes ≤ maxSafeInteger) :
    let answer := readBoundedResponseBuffer headers (some chunks) maxBytes
    (answer.1 = .error .limitExceeded ↔ OverLimit headers chunks maxBytes) ∧
      (answer.1 = .error .emptyBody ↔ ¬ OverLimit headers chunks maxBytes ∧ chunks.flatten = []) ∧
      (¬ OverLimit headers chunks maxBytes → chunks.flatten ≠ [] →
        answer.1 = .ok (chunks.flatten.map some)) ∧
      answer.2.capacity = answer.2.allocatedBytes ∧ answer.2.allocatedBytes ≤ maxBytes ∧
      ∀ n ∈ answer.2.copied, 1 ≤ n := by
  obtain ⟨heq, seen, hholds⟩ := reader_outcome headers chunks hpos hsafe
  refine ⟨?_, ?_, fun hover hne => by rw [heq, if_neg hover, if_neg hne], hholds.capacity_le⟩
  all_goals
    rw [heq]
    by_cases hover : OverLimit headers chunks maxBytes
    · simp [hover]
    · by_cases hne : chunks.flatten = [] <;> simp [hover, hne]

/-- A header too short, then an empty chunk and one that fills the limit. -/
theorem bounded_response_exact_short :
    (readBoundedResponseBuffer { contentLength := some " 2 " } (some [[1], [], [2, 3]]) 3).1 =
      .ok [some 1, some 2, some 3] :=
  (bounded_response_exact { contentLength := some " 2 " } [[1], [], [2, 3]] 3 (by decide) (by decide)).2.2.1
    (by
      rintro (⟨d, hd, -, hlt⟩ | h)
      · rw [show declaredNumber { contentLength := some " 2 " } = some 2 by decide, Option.some_inj] at hd
        omega
      · exact absurd h (by decide))
    (by decide)

/-- A declared length above the safe integers counts as none. -/
theorem unsafe_length_ignored :
    declaredNumber { contentLength := some "9007199254740992" } = some 9007199254740992 ∧
      (readBoundedResponseBuffer { contentLength := some "9007199254740992" } (some [[7]]) 1).1 =
        .ok [some 7] := by
  decide

end Maxim.Common.BoundedResponse
