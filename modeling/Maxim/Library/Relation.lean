import Maxim.Library.Table

/-!
# Statements over a table

The statements of a database over the rows of a table with a primary key: one
update of every row that a condition selects, one deletion, an insertion that
gives way to a row that is there, and the first rows in an order. What a
statement does is said by what a later lookup finds.
-/

namespace Maxim.Library

variable {κ ν : Type}

/-- `DELETE`: the rows that `p` selects go. -/
def deleteRows (p : κ → ν → Bool) (t : Table κ ν) : Table κ ν where
  entries := t.entries.filter fun e => !p e.1 e.2
  nodupKeys := t.nodupKeys.sublist List.filter_sublist

/-- `ORDER BY … LIMIT n`. -/
def firstRows {α : Type} (le : α → α → Prop) [DecidableRel le] (n : Nat) (l : List α) : List α :=
  (l.insertionSort le).take n

theorem mem_of_mem_firstRows {α : Type} {le : α → α → Prop} [DecidableRel le] {n : Nat}
    {l : List α} {a : α} (h : a ∈ firstRows le n l) : a ∈ l :=
  (List.perm_insertionSort le l).mem_iff.mp (List.mem_of_mem_take h)

section Lookup

variable [DecidableEq κ]

theorem mem_entries_iff {t : Table κ ν} {k : κ} {v : ν} :
    (⟨k, v⟩ : Sigma fun _ : κ => ν) ∈ t.entries ↔ t.lookup k = some v :=
  AList.mem_lookup_iff.symm

@[simp] theorem lookup_deleteRows (p : κ → ν → Bool) (t : Table κ ν) (k : κ) :
    (deleteRows p t).lookup k = (t.lookup k).filter fun v => !p k v := by
  ext v
  rw [← mem_entries_iff, Option.filter_eq_some_iff, ← mem_entries_iff]
  exact List.mem_filter

end Lookup

end Maxim.Library
