import Mathlib.Data.List.Sort
import Mathlib.Data.Prod.Lex
import Maxim.Library.Expiry
import Mathlib.Data.Finmap

/-!
# Tables and ranked sets in a slot

A hash and a sorted set are both finite tables stored in one slot: the sorted
set maps a member to its score. Writing a field keeps the expiry of the table,
and a table whose last field is deleted is gone together with its expiry. The
ranking of a sorted set is by score, then by member.
-/

namespace Maxim.Library

abbrev Table (κ ν : Type) := AList fun _ : κ => ν

variable {κ ν α : Type}

/-- Whatever the slot holds expires at `x`. -/
def ExpiresAt (x : Nat) (s : Slot α) : Prop := ∀ c, s = some c → c.expiresAt = some x

theorem expiresAt_none (x : Nat) : ExpiresAt x (none : Slot α) := by
  intro c hc
  simp at hc

theorem expiresAt_expireAt (x : Nat) (s : Slot α) : ExpiresAt x (expireAt x s) := by
  intro c hc
  cases s with
  | none => simp at hc
  | some d =>
    simp only [expireAt_some, Option.some.injEq] at hc
    rw [← hc]

theorem ExpiresAt.purge_of_le {x now : Nat} {s : Slot α} (h : ExpiresAt x s) (hle : now ≤ x) :
    purge now s = s := by
  cases s with
  | none => rfl
  | some c => exact purge_some_of_live (by simp [Cell.live, h c rfl, hle])

theorem ExpiresAt.purge_of_lt {x now : Nat} {s : Slot α} (h : ExpiresAt x s) (hlt : x < now) :
    purge now s = none := by
  rw [purge_eq_none]
  intro c hc
  simp [Cell.live, h c hc, hlt]

theorem content_expireAt (x : Nat) (s : Slot α) : content (expireAt x s) = content s := by
  cases s <;> rfl

section Fields

variable [DecidableEq κ]

def field (s : Slot (Table κ ν)) (k : κ) : Option ν := s.bind fun c => c.value.lookup k

/-- Write a field. A new table has no expiry. -/
def setField (s : Slot (Table κ ν)) (k : κ) (v : ν) : Slot (Table κ ν) :=
  match s with
  | none => some ⟨AList.singleton k v, none⟩
  | some c => some ⟨c.value.insert k v, c.expiresAt⟩

def delField (s : Slot (Table κ ν)) (k : κ) : Slot (Table κ ν) :=
  (s.map fun c => ⟨c.value.erase k, c.expiresAt⟩).filter fun c => !c.value.entries.isEmpty

@[simp] theorem field_none (k : κ) : field (none : Slot (Table κ ν)) k = none := rfl

theorem field_setField (s : Slot (Table κ ν)) (k k' : κ) (v : ν) :
    field (setField s k v) k' = if k' = k then some v else field s k' := by
  by_cases hk : k' = k
  · subst hk
    rw [if_pos rfl]
    cases s with
    | none => simp [field, setField, AList.lookup, AList.singleton]
    | some c => simp [field, setField]
  · rw [if_neg hk]
    cases s with
    | none =>
      have hnot : k' ∉ (AList.singleton k v : Table κ ν) := by
        simp [AList.mem_keys, AList.keys_singleton, hk]
      simpa [field, setField] using AList.lookup_eq_none.mpr hnot
    | some c => simp [field, setField, AList.lookup_insert_ne hk]

theorem field_delField (s : Slot (Table κ ν)) (k k' : κ) :
    field (delField s k) k' = if k' = k then none else field s k' := by
  cases s with
  | none => simp [delField]
  | some c =>
    have hempty : ∀ d : Table κ ν, d.entries.isEmpty = true → d.lookup k' = none := by
      intro d hd
      rw [AList.lookup_eq_none, AList.mem_keys]
      simp [AList.keys, List.keys, List.isEmpty_iff.mp hd]
    have hdel : field (delField (some c) k) k' = (c.value.erase k).lookup k' := by
      by_cases he : (c.value.erase k).entries.isEmpty = true
      · rw [hempty _ he]
        simp [delField, Option.filter, he]
      · simp [delField, Option.filter, field, he]
    rw [hdel]
    by_cases hk : k' = k
    · subst hk
      simp
    · rw [if_neg hk, AList.lookup_erase_ne hk]
      rfl

theorem field_expireAt (x : Nat) (s : Slot (Table κ ν)) (k : κ) :
    field (expireAt x s) k = field s k := by
  cases s <;> rfl

variable {s : Slot (Table κ ν)}

theorem field_purge_eq_some {now : Nat} {k : κ} {v : ν}
    (h : field (purge now s) k = some v) : field s k = some v := by
  cases hs : purge now s with
  | none => simp [hs] at h
  | some c =>
    rw [hs] at h
    rwa [(purge_eq_some.mp hs).1]

theorem ExpiresAt.setField {x : Nat} (h : ExpiresAt x s) (hs : s ≠ none)
    (k : κ) (v : ν) : ExpiresAt x (setField s k v) := by
  cases s with
  | none => exact absurd rfl hs
  | some c =>
    intro d hd
    simp only [Library.setField, Option.some.injEq] at hd
    rw [← hd]
    exact h c rfl

theorem ExpiresAt.delField {x : Nat} (h : ExpiresAt x s) (k : κ) :
    ExpiresAt x (delField s k) := by
  cases s with
  | none => exact expiresAt_none x
  | some c =>
    intro d hd
    obtain ⟨hd, -⟩ := Option.filter_eq_some_iff.mp hd
    rw [Option.map_some, Option.some.injEq] at hd
    rw [← hd]
    exact h c rfl

theorem field_foldl_delField (l : List κ) (s : Slot (Table κ ν)) (k : κ) :
    field (l.foldl Library.delField s) k = if k ∈ l then none else field s k := by
  induction l generalizing s with
  | nil => simp
  | cons a l ih =>
    rw [List.foldl_cons, ih, field_delField]
    by_cases hl : k ∈ l
    · simp [hl]
    · by_cases ha : k = a <;> simp [hl, ha]

theorem ExpiresAt.foldl_delField {x : Nat} (h : ExpiresAt x s) (l : List κ) :
    ExpiresAt x (l.foldl Library.delField s) := by
  induction l generalizing s with
  | nil => exact h
  | cons a l ih => exact ih (h.delField a)

end Fields

section Ranking

variable {μ : Type} [LinearOrder μ]

/-- The members with their scores, by score and then by member. -/
def ranked (s : Slot (Table μ Nat)) : List (Nat ×ₗ μ) :=
  match s with
  | none => []
  | some c => (c.value.entries.map fun e => toLex (e.2, e.1)).insertionSort (· ≤ ·)

def first (s : Slot (Table μ Nat)) : Option μ := (ranked s).head?.map fun e => (ofLex e).2

/-- At most `limit` members with a score up to `hi`, lowest first. -/
def scoredUpTo (s : Slot (Table μ Nat)) (hi limit : Nat) : List μ :=
  (((ranked s).filter fun e => decide ((ofLex e).1 ≤ hi)).take limit).map fun e => (ofLex e).2

/-- Remove every member with a score up to `hi`. -/
def removeScored (s : Slot (Table μ Nat)) (hi : Int) : Slot (Table μ Nat) :=
  (((ranked s).filter fun e => decide (((ofLex e).1 : Int) ≤ hi)).map fun e => (ofLex e).2).foldl
    delField s

/-- The entries with a score above `lo` and up to `hi`, lowest first. -/
def scoredWithin (s : Slot (Table μ Nat)) (lo hi : Int) : List (Nat ×ₗ μ) :=
  (ranked s).filter fun e => decide (lo < ((ofLex e).1 : Int) ∧ ((ofLex e).1 : Int) ≤ hi)

theorem mem_ranked {s : Slot (Table μ Nat)} {x : Nat} {m : μ} :
    toLex (x, m) ∈ ranked s ↔ field s m = some x := by
  cases s with
  | none => simp [ranked]
  | some c =>
    have hfield : field (some c) m = some x ↔ (⟨m, x⟩ : Sigma fun _ : μ => Nat) ∈ c.value.entries :=
      AList.mem_lookup_iff
    rw [hfield, ranked, (List.perm_insertionSort _ _).mem_iff, List.mem_map]
    constructor
    · rintro ⟨e, he, heq⟩
      obtain ⟨rfl, rfl⟩ := Prod.mk.inj (toLex.injective heq)
      exact he
    · exact fun h => ⟨_, h, rfl⟩

theorem first_eq_some {s : Slot (Table μ Nat)} {m : μ} (h : first s = some m) :
    ∃ x, field s m = some x ∧
      ∀ m' x', field s m' = some x' → (toLex (x, m) : Nat ×ₗ μ) ≤ toLex (x', m') := by
  have hsort : (ranked s).Pairwise (· ≤ ·) := by
    cases s with
    | none => exact List.Pairwise.nil
    | some c => exact List.pairwise_insertionSort _ _
  obtain ⟨e, he, rfl⟩ := Option.map_eq_some_iff.mp h
  obtain ⟨rest, hrest⟩ := List.head?_eq_some_iff.mp he
  rw [hrest, List.pairwise_cons] at hsort
  refine ⟨(ofLex e).1, mem_ranked.mp (by rw [hrest]; exact List.mem_cons_self), ?_⟩
  intro m' x' hm'
  have hmem := mem_ranked.mpr hm'
  rw [hrest] at hmem
  rcases List.mem_cons.mp hmem with heq | hmem
  · exact le_of_eq heq.symm
  · exact hsort.1 _ hmem

theorem mem_scoredUpTo {s : Slot (Table μ Nat)} {hi limit : Nat} {m : μ}
    (h : m ∈ scoredUpTo s hi limit) : ∃ x ≤ hi, field s m = some x := by
  obtain ⟨e, he, rfl⟩ := List.mem_map.mp h
  obtain ⟨hmem, hle⟩ := List.mem_filter.mp (List.mem_of_mem_take he)
  exact ⟨(ofLex e).1, by simpa using hle, mem_ranked.mp hmem⟩

end Ranking

end Maxim.Library
