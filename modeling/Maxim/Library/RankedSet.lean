import Maxim.Library.Table

/-!
# What a ranked set shows

Two sorted sets that give every member the same score rank their members the
same way, whatever was written to them before and in which order. Removing by
score is a filter of the scores, and removing by rank depends on the ranking
alone.
-/

namespace Maxim.Library

variable {μ : Type} [LinearOrder μ]

def zcard (s : Slot (Table μ Nat)) : Nat := (ranked s).length

/-- `ZREMRANGEBYRANK` of the `count` lowest ranks. -/
def removeLowest (s : Slot (Table μ Nat)) (count : Nat) : Slot (Table μ Nat) :=
  (((ranked s).take count).map fun e => (ofLex e).2).foldl delField s

/-- `PEXPIRE`: a lifetime of zero deletes the key. -/
def pexpire {α : Type} (now ttlMs : Nat) (s : Slot α) : Slot α :=
  if ttlMs = 0 then none else expireAt (now + ttlMs) s

theorem ranked_pairwise (s : Slot (Table μ Nat)) : (ranked s).Pairwise (· ≤ ·) := by
  cases s with
  | none => exact List.Pairwise.nil
  | some c => exact List.pairwise_insertionSort _ _

theorem ranked_nodup (s : Slot (Table μ Nat)) : (ranked s).Nodup := by
  cases s with
  | none => exact List.nodup_nil
  | some c =>
    apply (List.perm_insertionSort _ _).nodup_iff.mpr
    apply List.Nodup.map _ c.value.nodupKeys.nodup
    intro e e' he
    obtain ⟨h₂, h₁⟩ := Prod.mk.inj (toLex.injective he)
    cases e
    cases e'
    simp_all

theorem ranked_members_nodup (s : Slot (Table μ Nat)) : ((ranked s).map fun e => (ofLex e).2).Nodup := by
  cases s with
  | none => exact List.nodup_nil
  | some c =>
    rw [ranked, ((List.perm_insertionSort _ _).map fun e : Nat ×ₗ μ => (ofLex e).2).nodup_iff,
      List.map_map]
    exact c.value.nodupKeys

theorem scoredUpTo_nodup (s : Slot (Table μ Nat)) (hi limit : Nat) : (scoredUpTo s hi limit).Nodup :=
  (ranked_members_nodup s).sublist (((List.take_sublist _ _).trans List.filter_sublist).map _)

variable {s : Slot (Table μ Nat)}

theorem ranked_congr {s' : Slot (Table μ Nat)} (h : ∀ m, field s m = field s' m) :
    ranked s = ranked s' := by
  have hperm : (ranked s).Perm (ranked s') := by
    apply (List.perm_ext_iff_of_nodup (ranked_nodup s) (ranked_nodup s')).mpr
    intro e
    have he : e = toLex ((ofLex e).1, (ofLex e).2) := rfl
    rw [he, mem_ranked, mem_ranked, h]
  exact hperm.eq_of_pairwise' (ranked_pairwise s) (ranked_pairwise s')

theorem mem_ranked_filter {hi : Int} {m : μ} :
    m ∈ ((ranked s).filter fun e => decide (((ofLex e).1 : Int) ≤ hi)).map (fun e => (ofLex e).2) ↔
      ∃ x, field s m = some x ∧ (x : Int) ≤ hi := by
  rw [List.mem_map]
  constructor
  · rintro ⟨e, he, rfl⟩
    obtain ⟨hmem, hle⟩ := List.mem_filter.mp he
    exact ⟨(ofLex e).1, mem_ranked.mp hmem, by simpa using hle⟩
  · rintro ⟨x, hx, hle⟩
    exact ⟨toLex (x, m), List.mem_filter.mpr ⟨mem_ranked.mpr hx, decide_eq_true hle⟩, rfl⟩

theorem field_removeScored (s : Slot (Table μ Nat)) (hi : Int) (m : μ) :
    field (removeScored s hi) m = (field s m).filter fun x : Nat => decide (hi < (x : Int)) := by
  rw [removeScored, field_foldl_delField]
  simp only [mem_ranked_filter]
  cases hx : field s m with
  | none => simp
  | some x =>
    by_cases hle : (x : Int) ≤ hi
    · simp [hle, Option.filter]
    · simp [hle, Option.filter, Int.not_le.mp hle]

theorem expiry_delField {m : μ} {x : Nat}
    (h : expiry (delField s m) = some x) : expiry s = some x := by
  cases s with
  | none => cases h
  | some c =>
    obtain ⟨d, hd, hx⟩ := Option.bind_eq_some_iff.mp h
    obtain ⟨hc, -⟩ := Option.filter_eq_some_iff.mp hd
    obtain rfl := Option.some.inj hc
    exact hx

theorem expiry_removeScored {hi : Int} {x : Nat}
    (h : expiry (removeScored s hi) = some x) : expiry s = some x := by
  rw [removeScored] at h
  generalize (((ranked s).filter _).map _) = members at h
  induction members generalizing s with
  | nil => exact h
  | cons m members ih => exact expiry_delField (ih h)

variable {e : Nat ×ₗ μ}

theorem mem_ranked_iff :
    e ∈ ranked s ↔ field s (ofLex e).2 = some (ofLex e).1 :=
  mem_ranked (x := (ofLex e).1)

theorem mem_ranked_setField {m : μ} {x : Nat} :
    e ∈ ranked (setField s m x) ↔ e = toLex (x, m) ∨ e ∈ ranked s ∧ (ofLex e).2 ≠ m := by
  rw [mem_ranked_iff, mem_ranked_iff, field_setField]
  by_cases hm : (ofLex e).2 = m
  · rw [if_pos hm, Option.some.injEq]
    constructor
    · intro hx
      exact .inl (congrArg toLex (Prod.ext hx.symm hm))
    · rintro (rfl | ⟨-, hne⟩)
      · rfl
      · exact absurd hm hne
  · rw [if_neg hm]
    constructor
    · exact fun he => .inr ⟨he, hm⟩
    · rintro (rfl | ⟨he, -⟩)
      · exact absurd rfl hm
      · exact he

theorem mem_ranked_removeScored {hi : Int} :
    e ∈ ranked (removeScored s hi) ↔ e ∈ ranked s ∧ hi < ((ofLex e).1 : Int) := by
  rw [mem_ranked_iff, mem_ranked_iff, field_removeScored, Option.filter_eq_some_iff,
    decide_eq_true_eq]

/-- The members of higher rank are left. -/
theorem mem_ranked_removeLowest {count : Nat} :
    e ∈ ranked (removeLowest s count) ↔ e ∈ (ranked s).drop count := by
  have hsplit := List.take_append_drop count (ranked s)
  have hnodup := ranked_members_nodup s
  rw [← hsplit, List.map_append, List.nodup_append] at hnodup
  obtain ⟨-, -, hapart⟩ := hnodup
  rw [mem_ranked_iff, removeLowest, field_foldl_delField]
  constructor
  · intro he
    split at he
    · cases he
    next hout =>
      have hmem := mem_ranked_iff.mpr he
      rw [← hsplit] at hmem
      rcases List.mem_append.mp hmem with htake | hdrop
      · exact absurd (List.mem_map_of_mem htake) hout
      · exact hdrop
  · intro hdrop
    rw [if_neg fun htake => hapart _ htake _ (List.mem_map_of_mem hdrop) rfl]
    exact mem_ranked_iff.mp (List.mem_of_mem_drop hdrop)

theorem removeLowest_upper {count : Nat} {e' : Nat ×ₗ μ}
    (he : e ∈ ranked (removeLowest s count)) (he' : e' ∈ ranked s) (hle : e ≤ e') :
    e' ∈ ranked (removeLowest s count) := by
  rw [mem_ranked_removeLowest] at he ⊢
  have hsplit := List.take_append_drop count (ranked s)
  have hsorted := ranked_pairwise s
  rw [← hsplit] at hsorted he'
  rcases List.mem_append.mp he' with htake | hdrop
  · have hle' := (List.pairwise_append.mp hsorted).2.2 e' htake e he
    rwa [le_antisymm hle' hle]
  · exact hdrop

@[simp] theorem ranked_expireAt (x : Nat) (s : Slot (Table μ Nat)) : ranked (expireAt x s) = ranked s :=
  ranked_congr fun m => field_expireAt x s m

theorem mem_ranked_purge {now : Nat}
    (he : e ∈ ranked (purge now s)) : e ∈ ranked s :=
  mem_ranked_iff.mpr (field_purge_eq_some (mem_ranked_iff.mp he))

end Maxim.Library
