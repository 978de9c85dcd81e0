import Maxim.Library.Lifetime
import Mathlib.Algebra.GroupWithZero.Nat

/-!
# Sums over a table

The sum of a weight over the fields of a table. Writing and deleting a field
change it by the weights of the field alone, and a table that covers another
one field by field has the larger sum.
-/

namespace Maxim.Library

variable {κ ν ω : Type}

/-- The sum of the weights of all fields. -/
def total (f : κ → ν → Nat) (s : Slot (Table κ ν)) : Nat :=
  match s with
  | none => 0
  | some c => (c.value.entries.map fun e => f e.1 e.2).sum

def weight (f : κ → ν → Nat) (k : κ) (v : Option ν) : Nat := v.elim 0 (f k)

variable {f : κ → ν → Nat}

@[simp] theorem total_none : total f (none : Slot (Table κ ν)) = 0 := rfl

@[simp] theorem weight_none (k : κ) : weight f k none = 0 := rfl

@[simp] theorem weight_some (k : κ) (v : ν) : weight f k (some v) = f k v := rfl

theorem total_extendTtl (now ttlMs : Nat) (s : Slot (Table κ ν)) :
    total f (extendTtl now ttlMs s) = total f s := by
  cases s with
  | none => rfl
  | some c =>
    simp only [extendTtl, Option.map_some, total]
    split
    · split <;> rfl
    · rfl

variable [DecidableEq κ]

theorem sum_kerase (k : κ) (l : List (Sigma fun _ : κ => ν)) :
    weight f k (l.dlookup k) + ((l.kerase k).map fun e => f e.1 e.2).sum =
      (l.map fun e => f e.1 e.2).sum := by
  induction l with
  | nil => simp
  | cons e l ih =>
    by_cases hk : k = e.1
    · subst hk
      rw [List.kerase_cons_eq rfl, List.map_cons, List.sum_cons, List.dlookup_cons_eq]
      rfl
    · rw [List.kerase_cons_ne hk, List.map_cons, List.sum_cons, List.map_cons, List.sum_cons,
        List.dlookup_cons_ne _ _ hk, ← ih]
      omega

theorem total_erase (k : κ) (t : Table κ ν) (x : Option Nat) :
    weight f k (t.lookup k) + total f (some ⟨t.erase k, x⟩) = total f (some ⟨t, x⟩) :=
  sum_kerase k t.entries

theorem total_setField (s : Slot (Table κ ν)) (k : κ) (v : ν) :
    weight f k (field s k) + total f (setField s k v) = total f s + f k v := by
  cases s with
  | none => simp [setField, total, field, AList.singleton]
  | some c =>
    have herase := total_erase (f := f) k c.value c.expiresAt
    have hinsert : total f (setField (some c) k v) =
        f k v + total f (some ⟨c.value.erase k, c.expiresAt⟩) := by
      simp [setField, total, AList.entries_insert, AList.erase]
    have hfield : field (some c) k = c.value.lookup k := rfl
    rw [hfield, hinsert]
    have hsame : total f (some ⟨c.value, c.expiresAt⟩) = total f (some c) := rfl
    omega

theorem total_delField (s : Slot (Table κ ν)) (k : κ) :
    weight f k (field s k) + total f (delField s k) = total f s := by
  cases s with
  | none => simp [delField]
  | some c =>
    have herase := total_erase (f := f) k c.value c.expiresAt
    have hdel : total f (delField (some c) k) = total f (some ⟨c.value.erase k, c.expiresAt⟩) := by
      by_cases he : (c.value.erase k).entries.isEmpty = true
      · simp [delField, Option.filter, total, List.isEmpty_iff.mp he]
      · simp [delField, Option.filter, he]
    rw [hdel]
    exact herase

theorem weight_le_total (s : Slot (Table κ ν)) (k : κ) : weight f k (field s k) ≤ total f s := by
  have h := total_delField (f := f) s k
  omega

theorem sum_le_total {g : κ → ω → Nat} (l : List (Sigma fun _ : κ => ν)) (hl : l.NodupKeys) :
    ∀ s : Slot (Table κ ω), (∀ e ∈ l, f e.1 e.2 ≤ weight g e.1 (field s e.1)) →
      (l.map fun e => f e.1 e.2).sum ≤ total g s := by
  induction l with
  | nil => simp
  | cons e l ih =>
    intro s h
    obtain ⟨hnot, hl⟩ := List.nodupKeys_cons.mp hl
    have hrest := ih hl (delField s e.1) fun e' he' => by
      have hne : e'.1 ≠ e.1 := fun heq => hnot (heq ▸ List.mem_keys_of_mem he')
      rw [field_delField, if_neg hne]
      exact h e' (List.mem_cons_of_mem _ he')
    have hfirst := h e List.mem_cons_self
    have hdel := total_delField (f := g) s e.1
    rw [List.map_cons, List.sum_cons]
    omega

theorem total_le_total {g : κ → ω → Nat} {s : Slot (Table κ ν)} {s' : Slot (Table κ ω)}
    (h : ∀ k v, field s k = some v → f k v ≤ weight g k (field s' k)) : total f s ≤ total g s' := by
  cases s with
  | none => exact Nat.zero_le _
  | some c =>
    refine sum_le_total c.value.entries c.value.nodupKeys s' fun e he => h e.1 e.2 ?_
    exact AList.mem_lookup_iff.mpr he

end Maxim.Library
