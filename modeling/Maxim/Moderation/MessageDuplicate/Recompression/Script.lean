import Maxim.Library.Blocks
import Mathlib.Algebra.BigOperators.Fin
import Maxim.Library.Run
import Maxim.Library.Expiry
import Mathlib.Data.Fintype.Pi
import Mathlib.Data.List.Sort
import Mathlib.Data.Nat.Log
import Mathlib.Data.Prod.Lex
import Mathlib.Data.String.Basic

/-!
# Bands of a recompression hash

A hash of 64 bits in eight bytes. The script compares two hashes byte by byte
and stops after the sixth differing bit; two hashes that it accepts share one
of their bytes.
-/

namespace Maxim.Moderation.MessageDuplicate.Recompression

open Maxim.Library

abbrev Hash := Fin 8 → BitVec 8

def bits (hash : Hash) (p : Fin 8 × Fin 8) : Bool := (hash p.1).getLsbD p.2

/-- The loop over the set bits of a byte; it gives up after the sixth of the whole comparison. A byte
has at most eight. -/
def countDiffering : Nat → BitVec 8 → Nat → Option Nat
  | 0, _, distance => some distance
  | turns + 1, differing, distance =>
    if differing = 0 then some distance
    else if 6 < distance + 1 then none
    else countDiffering turns (differing &&& (differing - 1)) (distance + 1)

def withinHamming (hash query : Hash) : Bool :=
  ((List.finRange 8).foldlM (fun distance i =>
    countDiffering 8 (hash i ^^^ query i) distance) 0).isSome

/-! ## The bits of a byte -/

def weight (d : BitVec 8) : Nat := (Finset.univ.filter fun k : Fin 8 => d.getLsbD k = true).card

theorem weight_le (d : BitVec 8) : weight d ≤ 8 := Finset.card_filter_le _ _

theorem weight_clear : ∀ d : BitVec 8, d ≠ 0 → weight (d &&& (d - 1)) + 1 = weight d := by
  decide +kernel

theorem weight_eq_zero : ∀ d : BitVec 8, weight d = 0 ↔ d = 0 := by decide +kernel

theorem hammingDist_byte (a q : BitVec 8) :
    hammingDist (fun k : Fin 8 => a.getLsbD k) (fun k => q.getLsbD k) = weight (a ^^^ q) := by
  unfold hammingDist weight
  congr 1
  ext k
  simp

theorem countDiffering_eq (turns : Nat) (d : BitVec 8) (distance : Nat) (hturns : weight d ≤ turns)
    (hdistance : distance ≤ 6) :
    countDiffering turns d distance =
      if distance + weight d ≤ 6 then some (distance + weight d) else none := by
  induction turns generalizing d distance with
  | zero =>
    have hzero : weight d = 0 := Nat.le_zero.mp hturns
    rw [hzero, Nat.add_zero, if_pos hdistance]
    rfl
  | succ turns ih =>
    unfold countDiffering
    by_cases hd : d = 0
    · have hzero : weight d = 0 := (weight_eq_zero d).mpr hd
      rw [if_pos hd, hzero, Nat.add_zero, if_pos hdistance]
    · have hclear := weight_clear d hd
      rw [if_neg hd]
      by_cases hfull : 6 < distance + 1
      · have hmore : ¬distance + weight d ≤ 6 := by omega
        rw [if_pos hfull, if_neg hmore]
      · have hsum : distance + 1 + weight (d &&& (d - 1)) = distance + weight d := by omega
        rw [if_neg hfull, ih _ _ (by omega) (by omega), hsum]

theorem foldlM_countDiffering (ds : List (BitVec 8)) (distance : Nat) (hdistance : distance ≤ 6) :
    ds.foldlM (fun distance d => countDiffering 8 d distance) distance =
      if distance + (ds.map weight).sum ≤ 6 then some (distance + (ds.map weight).sum)
      else none := by
  induction ds generalizing distance with
  | nil => simp [hdistance]
  | cons d ds ih =>
    rw [List.foldlM_cons, countDiffering_eq 8 d distance (weight_le d) hdistance, List.map_cons,
      List.sum_cons, ← Nat.add_assoc]
    by_cases hd : distance + weight d ≤ 6
    · rw [if_pos hd]
      exact ih _ hd
    · have hsum : ¬distance + weight d + (ds.map weight).sum ≤ 6 := by omega
      rw [if_neg hd, if_neg hsum]
      rfl

theorem withinHamming_iff (hash query : Hash) :
    withinHamming hash query = true ↔ hammingDist (bits hash) (bits query) ≤ 6 := by
  have hdist : hammingDist (bits hash) (bits query) =
      (((List.finRange 8).map fun i => hash i ^^^ query i).map weight).sum := by
    rw [hammingDist_eq_sum, List.map_map, Fin.sum_univ_def]
    exact congrArg List.sum (List.map_congr_left fun i _ => hammingDist_byte (hash i) (query i))
  have hfold : (List.finRange 8).foldlM (fun distance i =>
      countDiffering 8 (hash i ^^^ query i) distance) 0 =
      ((List.finRange 8).map fun i => hash i ^^^ query i).foldlM
        (fun distance d => countDiffering 8 d distance) 0 := by
    rw [List.foldlM_map]
  rw [withinHamming, hfold, foldlM_countDiffering _ 0 (by decide), Nat.zero_add, ← hdist]
  by_cases hle : hammingDist (bits hash) (bits query) ≤ 6
  · rw [if_pos hle]
    simp [hle]
  · rw [if_neg hle]
    simp [hle]

theorem exists_band_eq {hash query : Hash} (h : withinHamming hash query = true) :
    ∃ band, hash band = query band := by
  have hlt : hammingDist (bits hash) (bits query) < Fintype.card (Fin 8) :=
    Nat.lt_of_le_of_lt ((withinHamming_iff hash query).mp h) (by decide)
  obtain ⟨band, hband⟩ := exists_block_eq hlt
  refine ⟨band, BitVec.eq_of_getLsbD_eq fun k hk => ?_⟩
  exact hband ⟨k, hk⟩

end Maxim.Moderation.MessageDuplicate.Recompression

/-!
## The recompression index of a scope

An index of images by perceptual hash. A candidate is stored in eight buckets,
one for each byte of its hash; a query reads the eight buckets of its own bytes.
A bucket is a short list of candidates that one script reads, checks, sorts, cuts
and writes back.
-/

namespace Maxim.Moderation.MessageDuplicate.Recompression

open Maxim.Library

def MAX_RETENTION_MS : Nat := 48 * 60 * 60 * 1000

/-- A candidate. The canonical hash is a number of 64 hexadecimal digits, in the order of its text. -/
structure Candidate where
  webhookEventId : String
  messageId : String
  eventTimestampMs : Nat
  publishedAtMs : Nat
  canonicalHash : BitVec 256
  recompressionHash : Hash
  expiresAtMs : Nat
  deriving DecidableEq

/-- `integer` of the script: a positive safe integer. -/
def integer (v : Nat) : Bool := decide (0 < v) && decide (v ≤ 9007199254740991)

def hasControlCharacter (value : String) : Bool :=
  value.toList.any fun c => decide (c.toNat < 32) || c.toNat == 127

/-- A text of 1 to `max` bytes without control characters. -/
def validId (max : Nat) (value : String) : Bool :=
  decide (0 < value.utf8ByteSize) && decide (value.utf8ByteSize ≤ max) &&
    !hasControlCharacter value

def Candidate.valid (r : Candidate) : Bool :=
  validId 128 r.webhookEventId && validId 256 r.messageId && integer r.eventTimestampMs &&
    integer r.publishedAtMs && integer r.expiresAtMs && decide (r.publishedAtMs < r.expiresAtMs)

/-! ## Size of a stored bucket -/

def escaped (c : Char) : Bool := c.toNat == 34 || c.toNat == 92 || c.toNat == 47

/-- Bytes of a text in JSON: quotes and slashes are escaped, control characters do not occur. -/
def escapedSize (value : String) : Nat := value.utf8ByteSize + value.toList.countP escaped

def digits (n : Nat) : Nat := Nat.log 10 n + 1

/-- Bytes of a candidate in JSON: field names, punctuation and the two hashes take 210. -/
def rowSize (r : Candidate) : Nat :=
  210 + escapedSize r.webhookEventId + escapedSize r.messageId + digits r.eventTimestampMs +
    digits r.publishedAtMs + digits r.expiresAtMs

def encodedSize (rows : List Candidate) : Nat := 2 + (rows.map rowSize).sum + (rows.length - 1)

/-! ## Orders -/

def earlier (a b : Candidate) : Bool :=
  if a.publishedAtMs ≠ b.publishedAtMs then decide (a.publishedAtMs < b.publishedAtMs)
  else if a.eventTimestampMs ≠ b.eventTimestampMs then
    decide (a.eventTimestampMs < b.eventTimestampMs)
  else if a.canonicalHash ≠ b.canonicalHash then decide (a.canonicalHash < b.canonicalHash)
  else if a.messageId ≠ b.messageId then decide (a.messageId < b.messageId)
  else decide (a.webhookEventId < b.webhookEventId)

def newerSource (a b : Candidate) : Bool :=
  if a.eventTimestampMs ≠ b.eventTimestampMs then decide (b.eventTimestampMs < a.eventTimestampMs)
  else if a.publishedAtMs ≠ b.publishedAtMs then decide (b.publishedAtMs < a.publishedAtMs)
  else if a.messageId ≠ b.messageId then decide (b.messageId < a.messageId)
  else decide (b.webhookEventId < a.webhookEventId)

/-- `a` may stand before `b` in what `table.sort` returns. -/
def NotLater (a b : Candidate) : Prop := earlier b a = false

instance : DecidableRel NotLater := fun a b => inferInstanceAs (Decidable (earlier b a = false))

def sort (rows : List Candidate) : List Candidate := rows.insertionSort NotLater

/-! ## The script -/

inductive Request
  | read (hash : Hash) (atMs : Nat)
  | remember (candidate : Candidate)

/-- A call of the script; it is refused from `deadlineAtMs` on. -/
structure Call where
  deadlineAtMs : Nat
  request : Request

def Request.hash : Request → Hash
  | .read hash _ => hash
  | .remember candidate => candidate.recompressionHash

def Request.atMs : Request → Nat
  | .read _ atMs => atMs
  | .remember candidate => candidate.eventTimestampMs

def Request.valid (p : Request) : Bool :=
  integer p.atMs && match p with
    | .read _ _ => true
    | .remember candidate => candidate.valid

abbrev Store := Slots (Fin 8 × BitVec 8) (List Candidate)

def stored (now : Nat) (slot : Slot (List Candidate)) : List Candidate :=
  (content (purge now slot)).getD []

def checkBucket (band : Fin 8) (byte : BitVec 8) (rows : List Candidate) : Except String Unit :=
  if 8192 < encodedSize rows ∨ 8 < rows.length then .error "Invalid recompression index bucket"
  else if rows.all fun r => r.valid &&
      decide (r.expiresAtMs ≤ r.publishedAtMs + MAX_RETENTION_MS) &&
      r.recompressionHash band == byte then .ok ()
  else .error "Invalid recompression index candidate"

def liveRows (now : Nat) (rows : List Candidate) : List Candidate :=
  rows.filter fun r => decide (now < r.expiresAtMs)

def sameSource (a b : Candidate) : Bool :=
  a.messageId == b.messageId && a.webhookEventId == b.webhookEventId

/-- `expires` of the script, from the live rows of the buckets. -/
def expires (now : Nat) (candidate : Candidate) (rows : List Candidate) : Nat :=
  (rows.filter (sameSource candidate)).foldl (fun e r => min e r.expiresAtMs)
    (min (min candidate.expiresAtMs (candidate.publishedAtMs + MAX_RETENTION_MS))
      (now + MAX_RETENTION_MS))

def incoming (now : Nat) (candidate : Candidate) (rows : List Candidate) : Option Candidate :=
  let e := expires now candidate rows
  if now < e ∧ candidate.publishedAtMs < e then some { candidate with expiresAtMs := e } else none

/-- One row of the loop that builds `preferred`. -/
def prefer (preferred : List Candidate) (r : Candidate) : List Candidate :=
  match preferred.find? fun prior => prior.canonicalHash == r.canonicalHash with
  | none => preferred ++ [r]
  | some prior =>
    let replaceBy (row : Candidate) := preferred.map fun x => if x = prior then row else x
    if sameSource prior r then
      replaceBy { prior with expiresAtMs := min prior.expiresAtMs r.expiresAtMs }
    else if newerSource r prior then replaceBy r
    else preferred

/-- One row of the loop that builds `kept`. -/
def keep (kept : List Candidate) (r : Candidate) : List Candidate :=
  if !(kept.any fun x => x.canonicalHash == r.canonicalHash) && decide (kept.length < 8) then
    kept ++ [r]
  else kept

/-- What becomes of the live rows of a bucket and of an incoming candidate. -/
def keptRows (rows : List Candidate) (candidate : Option Candidate) : List Candidate :=
  (sort ((rows ++ candidate.toList).foldl prefer [])).foldl keep []

/-- A kept row that the call is about. -/
def Request.matched (p : Request) (r : Candidate) : Bool :=
  decide (r.publishedAtMs ≤ p.atMs) && decide (r.eventTimestampMs ≤ p.atMs) &&
    decide (p.atMs < r.expiresAtMs) && match p with
      | .read query _ => withinHamming r.recompressionHash query
      | .remember _ => true

/-- One kept row of the loop that builds `all`. -/
def gather (all : List Candidate) (r : Candidate) : List Candidate :=
  if all.any fun x => x.canonicalHash == r.canonicalHash then all else all ++ [r]

def deadline (now : Nat) (kept : List Candidate) : Nat :=
  min (kept.foldl (fun d r => max d r.expiresAtMs) 0) (now + MAX_RETENTION_MS)

def written (now : Nat) (kept : List Candidate) : Slot (List Candidate) :=
  if kept = [] then none else cell kept (deadline now kept)

def inspected (now : Nat) (hash : Hash) (s : Store) (band : Fin 8) : List Candidate :=
  liveRows now (stored now (s (band, hash band)))

/-- The rows that the eight buckets of a call keep. -/
def keptBuckets (now : Nat) (p : Request) (s : Store) (band : Fin 8) : List Candidate :=
  let rows := inspected now p.hash s
  keptRows (rows band) (match p with
    | .read _ _ => none
    | .remember candidate => incoming now candidate ((List.finRange 8).flatMap rows))

/-- `DUPLICATE_RECOMPRESSION_INDEX_SCRIPT`; an error leaves the store as it is. -/
def script (now : Nat) (call : Call) (s : Store) : Store × Except String (List Candidate) :=
  let p := call.request
  if call.deadlineAtMs ≤ now then (s, .error "Recompression index deadline exceeded")
  else if p.valid = false then (s, .error "Invalid recompression index input")
  else
    match (List.finRange 8).forM fun band =>
        checkBucket band (p.hash band) (stored now (s (band, p.hash band))) with
    | .error e => (s, .error e)
    | .ok () =>
      let kept := keptBuckets now p s
      if ∃ band, kept band ≠ [] ∧ 8192 < encodedSize (kept band) then
        (s, .error "Recompression index bucket exceeded")
      else
        let all := ((List.finRange 8).flatMap fun band => (kept band).filter p.matched).foldl gather []
        (fun k => if k.2 = p.hash k.1 then written now (kept k.1) else s k, .ok ((sort all).take 8))

/-! ## Sorting -/

/-- What `earlier` compares. -/
def Candidate.key (r : Candidate) : Nat ×ₗ Nat ×ₗ Nat ×ₗ String ×ₗ String :=
  toLex (r.publishedAtMs, toLex (r.eventTimestampMs, toLex (r.canonicalHash.toNat,
    toLex (r.messageId, r.webhookEventId))))

theorem earlier_iff (a b : Candidate) : earlier a b = true ↔ a.key < b.key := by
  unfold earlier Candidate.key
  simp only [Prod.Lex.toLex_lt_toLex]
  by_cases hp : a.publishedAtMs = b.publishedAtMs
  · by_cases he : a.eventTimestampMs = b.eventTimestampMs
    · by_cases hc : a.canonicalHash = b.canonicalHash
      · by_cases hm : a.messageId = b.messageId
        · simp [hp, he, hc, hm]
        · simp [hp, he, hc, hm]
      · have hne : a.canonicalHash.toNat ≠ b.canonicalHash.toNat := fun h =>
          hc (BitVec.eq_of_toNat_eq h)
        simp [hp, he, hc, hne, BitVec.lt_def]
    · simp [hp, he]
  · simp [hp]

theorem notLater_iff (a b : Candidate) : NotLater a b ↔ a.key ≤ b.key := by
  rw [NotLater, ← Bool.not_eq_true, earlier_iff, not_lt]

instance : IsTrans Candidate NotLater :=
  ⟨fun a b c hab hbc => by
    rw [notLater_iff] at hab hbc ⊢
    exact le_trans hab hbc⟩

instance : Std.Total NotLater :=
  ⟨fun a b => by
    rw [notLater_iff, notLater_iff]
    exact le_total _ _⟩

theorem mem_sort {rows : List Candidate} {r : Candidate} : r ∈ sort rows ↔ r ∈ rows :=
  (List.perm_insertionSort _ _).mem_iff

theorem sort_perm (rows : List Candidate) : (sort rows).Perm rows := List.perm_insertionSort _ _

def Distinct (rows : List Candidate) : Prop := (rows.map Candidate.canonicalHash).Nodup

theorem Distinct.eq {rows : List Candidate} (h : Distinct rows) {a b : Candidate} (ha : a ∈ rows)
    (hb : b ∈ rows) (heq : a.canonicalHash = b.canonicalHash) : a = b :=
  List.inj_on_of_nodup_map h ha hb heq

theorem canonicalHash_eq_of_key {a b : Candidate} (h : a.key = b.key) :
    a.canonicalHash = b.canonicalHash := by
  have hkey := congrArg (fun k => (ofLex (ofLex (ofLex k).2).2).1) h
  exact BitVec.eq_of_toNat_eq hkey

theorem sort_eq_of_perm {rows rows' : List Candidate} (h : rows.Perm rows')
    (hdistinct : Distinct rows) : sort rows = sort rows' := by
  have hperm : (sort rows).Perm (sort rows') :=
    (sort_perm rows).trans (h.trans (sort_perm rows').symm)
  refine hperm.eq_of_pairwise ?_ (List.pairwise_insertionSort _ _) (List.pairwise_insertionSort _ _)
  intro a b ha hb hab hba
  rw [notLater_iff] at hab hba
  have hb : b ∈ rows := h.mem_iff.mpr (mem_sort.mp hb)
  exact hdistinct.eq (mem_sort.mp ha) hb (canonicalHash_eq_of_key (le_antisymm hab hba))

end Maxim.Moderation.MessageDuplicate.Recompression
