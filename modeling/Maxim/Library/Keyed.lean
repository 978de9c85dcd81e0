import Mathlib.Data.List.Induction
import Mathlib.Data.List.Nodup

/-!
# Rows with a unique key

A table with a unique index is a list of rows with distinct keys. An upsert
replaces the row with the key, or appends one.
-/

namespace Maxim.Library

variable {α κ : Type} [DecidableEq κ] {key : α → κ}

def findKey (key : α → κ) (k : κ) (rows : List α) : Option α := rows.find? fun row => key row = k

/-- Replace the row with the key of `a`, or append `a`. -/
def upsert (key : α → κ) (a : α) : List α → List α
  | [] => [a]
  | row :: rest => if key row = key a then a :: rest else row :: upsert key a rest

/-- The members of a list by key: a `Map` of lists, in the order of the first members. -/
def groupsBy (key : α → κ) (l : List α) : List (κ × List α) :=
  l.foldl (fun groups a =>
    let g := (findKey Prod.fst (key a) groups).elim [] Prod.snd
    upsert Prod.fst (key a, g ++ [a]) groups) []

variable {rows : List α}

theorem upsert_cons (a row : α) (rest : List α) :
    upsert key a (row :: rest) = if key row = key a then a :: rest else row :: upsert key a rest := rfl

theorem key_of_findKey {k : κ} {a : α} (h : findKey key k rows = some a) : key a = k :=
  of_decide_eq_true (List.find?_some (p := fun row => decide (key row = k)) h)

theorem mem_of_findKey {k : κ} {a : α} (h : findKey key k rows = some a) : a ∈ rows :=
  List.mem_of_find?_eq_some h

theorem findKey_upsert_self (a : α) (rows : List α) :
    findKey key (key a) (upsert key a rows) = some a := by
  induction rows with
  | nil => exact List.find?_cons_of_pos (decide_eq_true rfl)
  | cons row rest ih =>
    rw [upsert_cons]
    split
    · simp [findKey]
    · next hrow =>
      rw [findKey, List.find?_cons_of_neg (by simpa using hrow)]
      exact ih

theorem findKey_upsert_of_ne {a : α} {k : κ} (hk : key a ≠ k) (rows : List α) :
    findKey key k (upsert key a rows) = findKey key k rows := by
  induction rows with
  | nil => exact List.find?_cons_of_neg (by simpa using hk)
  | cons row rest ih =>
    rw [upsert_cons]
    split
    · next hrow => simp [findKey, hk, hrow]
    · rw [findKey, findKey, List.find?_cons, List.find?_cons]
      split
      · rfl
      · exact ih

theorem findKey_of_mem {a : α} (h : (rows.map key).Nodup) (ha : a ∈ rows) :
    findKey key (key a) rows = some a := by
  induction rows with
  | nil => exact absurd ha List.not_mem_nil
  | cons row rest ih =>
    obtain ⟨hrow, hrest⟩ := List.nodup_cons.mp h
    rcases List.mem_cons.mp ha with rfl | ha
    · simp [findKey]
    · have hne : key row ≠ key a := fun he => hrow (he ▸ List.mem_map_of_mem ha)
      rw [findKey, List.find?_cons_of_neg (by simpa using hne)]
      exact ih hrest ha

theorem mem_upsert {a b : α} (h : b ∈ upsert key a rows) : b = a ∨ b ∈ rows := by
  induction rows with
  | nil => exact .inl (List.mem_singleton.mp h)
  | cons row rest ih =>
    rw [upsert_cons] at h
    split at h
    · rcases List.mem_cons.mp h with h | h
      · exact .inl h
      · exact .inr (List.mem_cons_of_mem row h)
    · rcases List.mem_cons.mp h with h | h
      · exact .inr (h ▸ List.mem_cons_self)
      · exact (ih h).imp_right (List.mem_cons_of_mem row)

theorem nodup_upsert (a : α) (h : (rows.map key).Nodup) :
    ((upsert key a rows).map key).Nodup := by
  induction rows with
  | nil => exact List.nodup_singleton _
  | cons row rest ih =>
    obtain ⟨hrow, hrest⟩ := List.nodup_cons.mp h
    rw [upsert_cons]
    split
    · next he =>
      rw [List.map_cons, ← he]
      exact h
    · next hne =>
      rw [List.map_cons, List.nodup_cons]
      refine ⟨fun hmem => ?_, ih hrest⟩
      obtain ⟨b, hb, he⟩ := List.mem_map.mp hmem
      rcases mem_upsert hb with rfl | hb
      · exact hne he.symm
      · exact hrow (List.mem_map.mpr ⟨b, hb, he⟩)

/-- After an upsert there are the new row and the rows with other keys. -/
theorem mem_upsert_iff {a b : α} (h : (rows.map key).Nodup) :
    b ∈ upsert key a rows ↔ b = a ∨ (b ∈ rows ∧ key b ≠ key a) := by
  induction rows with
  | nil => exact List.mem_singleton.trans (by simp)
  | cons row rest ih =>
    obtain ⟨hrow, hrest⟩ := List.nodup_cons.mp h
    have hother (hkey : key row = key a) (hb : b ∈ rest) : key b ≠ key a := fun hb' =>
      hrow (hkey.trans hb'.symm ▸ List.mem_map_of_mem hb)
    rw [upsert_cons]
    split
    · next hkey =>
      rw [List.mem_cons, List.mem_cons]
      constructor
      · exact Or.imp_right fun hb => ⟨.inr hb, hother hkey hb⟩
      · rintro (hb | ⟨rfl | hb, hne⟩)
        · exact .inl hb
        · exact absurd hkey hne
        · exact .inr hb
    · next hkey =>
      rw [List.mem_cons, List.mem_cons, ih hrest]
      constructor
      · rintro (rfl | hb | ⟨hb, hne⟩)
        · exact .inr ⟨.inl rfl, hkey⟩
        · exact .inl hb
        · exact .inr ⟨.inr hb, hne⟩
      · rintro (hb | ⟨rfl | hb, hne⟩)
        · exact .inr (.inl hb)
        · exact .inl rfl
        · exact .inr (.inr ⟨hb, hne⟩)

theorem length_filter_key_le_one (h : (rows.map key).Nodup) (k : κ) :
    (rows.filter fun row => key row = k).length ≤ 1 := by
  rw [← List.length_map (f := key)]
  have hnodup := (List.filter_sublist (p := fun row => decide (key row = k)) (l := rows)).map key |>.nodup h
  have hall : ∀ b ∈ (rows.filter fun row => key row = k).map key, b = k := by
    intro b hb
    obtain ⟨row, hrow, rfl⟩ := List.mem_map.mp hb
    exact of_decide_eq_true (List.mem_filter.mp hrow).2
  rw [List.eq_replicate_of_mem hall] at hnodup ⊢
  rw [List.length_replicate]
  exact List.nodup_replicate.mp hnodup

/-! ## Groups -/

theorem groupsBy_concat (l : List α) (a : α) :
    groupsBy key (l ++ [a]) =
      upsert Prod.fst (key a, (findKey Prod.fst (key a) (groupsBy key l)).elim [] Prod.snd ++ [a])
        (groupsBy key l) := by
  simp only [groupsBy, List.foldl_append, List.foldl_cons, List.foldl_nil]

theorem nodup_groupsBy (l : List α) : ((groupsBy key l).map Prod.fst).Nodup := by
  induction l using List.reverseRecOn with
  | nil => exact List.nodup_nil
  | append_singleton l a ih =>
    rw [groupsBy_concat]
    exact nodup_upsert _ ih

/-- The group of a key holds the members with it, in their order. -/
theorem findKey_groupsBy (l : List α) (k : κ) :
    findKey Prod.fst k (groupsBy key l) =
      if k ∈ l.map key then some (k, l.filter fun a => key a = k) else none := by
  induction l using List.reverseRecOn with
  | nil => rfl
  | append_singleton l a ih =>
    rw [groupsBy_concat, List.map_append, List.filter_append]
    by_cases hk : key a = k
    · subst hk
      rw [@findKey_upsert_self _ _ _ Prod.fst (key a, _), if_pos (by simp), ih]
      split
      · simp
      · next hmem =>
        have hnil : l.filter (fun b => key b = key a) = [] := by
          refine List.filter_eq_nil_iff.mpr fun b hb he => hmem ?_
          exact of_decide_eq_true he ▸ List.mem_map_of_mem hb
        simp [hnil]
    · rw [@findKey_upsert_of_ne _ _ _ Prod.fst (key a, _) _ hk, ih]
      simp [hk, Ne.symm hk]

theorem mem_groupsBy {l : List α} {g : κ × List α} :
    g ∈ groupsBy key l ↔ g.1 ∈ l.map key ∧ g.2 = l.filter fun a => key a = g.1 := by
  have hfind := @findKey_groupsBy _ _ _ key l g.1
  constructor
  · intro hg
    rw [findKey_of_mem (nodup_groupsBy l) hg] at hfind
    split at hfind
    · next hmem => exact ⟨hmem, congrArg Prod.snd (Option.some_inj.mp hfind)⟩
    · cases hfind
  · rintro ⟨hmem, hg⟩
    rw [if_pos hmem, ← hg] at hfind
    exact mem_of_findKey hfind

end Maxim.Library
