import Mathlib.Data.Set.Card

/-!
# Initial segments of an enumeration

The elements of a linear order that satisfy a predicate, enumerated in
increasing order. A list is an initial segment of the enumeration if it is
increasing and skips nothing. Candidates that come in increasing order can be
collected into an initial segment, up to a limit.
-/

namespace Maxim.Library

variable {α : Type} [LinearOrder α]

/-- An increasing list of elements of `P` that leaves no smaller element of `P` out. -/
structure InitialSegment (P : α → Prop) (l : List α) : Prop where
  sorted : l.Pairwise (· < ·)
  sound : ∀ x ∈ l, P x
  closed : ∀ x y, P x → y ∈ l → x ≤ y → x ∈ l

/-- Every element of `P` up to the bound is in the list. -/
def Through (P : α → Prop) (bound : α) (l : List α) : Prop := ∀ x, P x → x ≤ bound → x ∈ l

/-- The elements of `P` of which fewer than `limit` smaller ones exist. -/
def Enumerated (P : α → Prop) (limit : Option Nat) (x : α) : Prop :=
  P x ∧ ∀ n, limit = some n → {y | P y ∧ y < x}.encard < n

namespace InitialSegment

variable {P : α → Prop} {l : List α}

theorem nil : InitialSegment P [] := ⟨.nil, by simp, by simp⟩

theorem append {Q : α → Prop} {r : List α} (hl : InitialSegment P l) (hr : InitialSegment Q r)
    (hsound : ∀ x, Q x → P x) (hlt : ∀ x ∈ l, ∀ y ∈ r, x < y)
    (hnext : ∀ x y, P x → y ∈ r → x ≤ y → x ∈ l ∨ Q x) : InitialSegment P (l ++ r) := by
  refine ⟨List.pairwise_append.mpr ⟨hl.sorted, hr.sorted, hlt⟩, fun x hx => ?_,
    fun x y hx hy hle => ?_⟩
  · rcases List.mem_append.mp hx with hx | hx
    · exact hl.sound x hx
    · exact hsound x (hr.sound x hx)
  · rcases List.mem_append.mp hy with hy | hy
    · exact List.mem_append_left _ (hl.closed x y hx hy hle)
    · rcases hnext x y hx hy hle with hmem | hq
      · exact List.mem_append_left _ hmem
      · exact List.mem_append_right _ (hr.closed x y hq hy hle)

theorem encard_le_of_not_mem (h : InitialSegment P l) {x : α} (hx : P x) (hmem : x ∉ l) :
    (l.length : ENat) ≤ {y | P y ∧ y < x}.encard := by
  have hsub : (l.toFinset : Set α) ⊆ {y | P y ∧ y < x} := by
    intro y hy
    have hy : y ∈ l := by simpa using hy
    exact ⟨h.sound y hy, lt_of_not_ge fun hle => hmem (h.closed x y hx hy hle)⟩
  have hcard : l.toFinset.card = l.length :=
    List.toFinset_card_of_nodup (h.sorted.imp fun hlt => ne_of_lt hlt)
  calc (l.length : ENat) = (l.toFinset : Set α).encard := by
        rw [Set.encard_coe_eq_coe_finsetCard, hcard]
    _ ≤ {y | P y ∧ y < x}.encard := Set.encard_le_encard hsub

theorem encard_lt_of_mem (h : InitialSegment P l) {x : α} (hx : x ∈ l) :
    {y | P y ∧ y < x}.encard < (l.length : ENat) := by
  have hsub : {y | P y ∧ y < x} ⊆ ((l.toFinset.erase x : Finset α) : Set α) := by
    rintro y ⟨hy, hlt⟩
    have hmem := h.closed y x hy hx (le_of_lt hlt)
    simp [hmem, ne_of_lt hlt]
  have hcard : l.toFinset.card = l.length :=
    List.toFinset_card_of_nodup (h.sorted.imp fun hlt => ne_of_lt hlt)
  have hpos : 0 < l.length := List.length_pos_of_mem hx
  calc {y | P y ∧ y < x}.encard ≤ ((l.toFinset.erase x : Finset α) : Set α).encard :=
        Set.encard_le_encard hsub
    _ = ((l.length - 1 : Nat) : ENat) := by
        rw [Set.encard_coe_eq_coe_finsetCard, Finset.card_erase_of_mem (by simpa using hx), hcard]
    _ < (l.length : ENat) := by exact_mod_cast Nat.sub_lt hpos Nat.one_pos

theorem enumerated (h : InitialSegment P l) {limit : Option Nat}
    (hlimit : ∀ n, limit = some n → l.length ≤ n) : InitialSegment (Enumerated P limit) l := by
  refine ⟨h.sorted, fun x hx => ⟨h.sound x hx, fun n hn => ?_⟩, fun x y hx => h.closed x y hx.1⟩
  exact lt_of_lt_of_le (h.encard_lt_of_mem hx) (by exact_mod_cast hlimit n hn)

theorem mem_of_full (h : InitialSegment P l) {n : Nat} (hn : n ≤ l.length) {x : α}
    (hx : Enumerated P (some n) x) : x ∈ l := by
  by_contra hmem
  have hle := h.encard_le_of_not_mem hx.1 hmem
  have hlt := hx.2 n rfl
  exact absurd (lt_of_le_of_lt hle hlt) (not_lt_of_ge (by exact_mod_cast hn))

theorem tail {x : α} (h : InitialSegment P (x :: l)) : InitialSegment (fun y => P y ∧ x < y) l := by
  obtain ⟨hhead, htail⟩ := List.pairwise_cons.mp h.sorted
  refine ⟨htail, fun y hy => ⟨h.sound y (List.mem_cons_of_mem _ hy), hhead y hy⟩, ?_⟩
  intro y w hy hw hle
  rcases List.mem_cons.mp (h.closed y w hy.1 (List.mem_cons_of_mem _ hw) hle) with heq | hmem
  · exact absurd hy.2 (heq ▸ lt_irrefl x)
  · exact hmem

theorem head_le {x y : α} (h : InitialSegment P (x :: l)) (hy : P y) : x ≤ y := by
  by_contra hlt
  have hlt : y < x := lt_of_not_ge hlt
  rcases List.mem_cons.mp (h.closed y x hy List.mem_cons_self (le_of_lt hlt)) with heq | hmem
  · exact absurd hlt (heq ▸ lt_irrefl x)
  · exact absurd ((List.pairwise_cons.mp h.sorted).1 y hmem) (lt_asymm hlt)

theorem prefix_of_length_le {r : List α} (hl : InitialSegment P l) (hr : InitialSegment P r)
    (hle : l.length ≤ r.length) : l <+: r := by
  induction l generalizing P r with
  | nil => exact List.nil_prefix
  | cons x l ih =>
    cases r with
    | nil => exact absurd hle (Nat.not_succ_le_zero _)
    | cons y r =>
      have hxy : x ≤ y := hl.head_le (hr.sound y List.mem_cons_self)
      have hyx : y ≤ x := hr.head_le (hl.sound x List.mem_cons_self)
      obtain rfl := le_antisymm hxy hyx
      exact List.prefix_cons_inj x |>.mpr (ih hl.tail hr.tail (Nat.le_of_succ_le_succ hle))

theorem take (h : InitialSegment P l) (k : Nat) : InitialSegment P (l.take k) := by
  have hsub : ∀ x ∈ l.take k, x ∈ l := fun x hx => List.mem_of_mem_take hx
  refine ⟨h.sorted.take, fun x hx => h.sound x (hsub x hx), fun x y hx hy hle => ?_⟩
  have hmem := h.closed x y hx (hsub y hy) hle
  have hsplit := h.sorted
  rw [← List.take_append_drop k l] at hmem hsplit
  rcases List.mem_append.mp hmem with hmem | hmem
  · exact hmem
  · have hlt := (List.pairwise_append.mp hsplit).2.2 y hy x hmem
    exact absurd hlt (not_lt_of_ge hle)

end InitialSegment

/-! ## Collecting candidates -/

/-- Append a candidate that is kept and new, unless the limit is reached. -/
def collect (limit : Option Nat) (keep : α → Bool) (l : List α) (c : α) : List α :=
  if limit.any (fun n => decide (n ≤ l.length)) then l
  else if keep c && !l.contains c then l ++ [c]
  else l

/-- What has been collected from the candidates seen so far. -/
structure Collected (limit : Option Nat) (keep : α → Bool) (seen l : List α) : Prop where
  sorted : l.Pairwise (· < ·)
  sound : ∀ x ∈ l, x ∈ seen ∧ keep x = true
  closed : ∀ x ∈ seen, keep x = true → ∀ y ∈ l, x ≤ y → x ∈ l
  bounded : ∀ n, limit = some n → l.length ≤ n
  complete : (∀ n, limit = some n → l.length < n) → ∀ x ∈ seen, keep x = true → x ∈ l

variable {limit : Option Nat} {keep : α → Bool} {seen l : List α} {c : α}

theorem Collected.nil : Collected limit keep [] [] :=
  ⟨.nil, by simp, by simp, fun _ _ => Nat.zero_le _, by simp⟩

theorem Collected.skip (h : Collected limit keep seen l) (hc : ∀ x ∈ seen, x ≤ c)
    (hskip : (∃ n, limit = some n ∧ n ≤ l.length) ∨ keep c = false ∨ c ∈ l) :
    Collected limit keep (seen ++ [c]) l := by
  refine ⟨h.sorted, fun x hx => ⟨List.mem_append_left _ (h.sound x hx).1, (h.sound x hx).2⟩, ?_,
    h.bounded, ?_⟩
  · intro x hx hkeep y hy hle
    rcases List.mem_append.mp hx with hx | hx
    · exact h.closed x hx hkeep y hy hle
    · obtain rfl := List.mem_singleton.mp hx
      rwa [le_antisymm hle (hc y (h.sound y hy).1)]
  · intro hroom x hx hkeep
    rcases List.mem_append.mp hx with hx | hx
    · exact h.complete hroom x hx hkeep
    · obtain rfl := List.mem_singleton.mp hx
      rcases hskip with ⟨n, hn, hfull⟩ | hdrop | hmem
      · exact absurd (hroom n hn) (Nat.not_lt.mpr hfull)
      · rw [hdrop] at hkeep
        cases hkeep
      · exact hmem

theorem Collected.push (h : Collected limit keep seen l) (hc : ∀ x ∈ seen, x ≤ c)
    (hroom : ∀ n, limit = some n → l.length < n) (hkeep : keep c = true) (hnew : c ∉ l) :
    Collected limit keep (seen ++ [c]) (l ++ [c]) := by
  have hall : ∀ x ∈ seen ++ [c], keep x = true → x ∈ l ++ [c] := by
    intro x hx hk
    rcases List.mem_append.mp hx with hx | hx
    · exact List.mem_append_left _ (h.complete hroom x hx hk)
    · exact List.mem_append_right _ hx
  refine ⟨?_, fun x hx => ?_, fun x hx hk _ _ _ => hall x hx hk, fun n hn => ?_, fun _ => hall⟩
  · refine List.pairwise_append.mpr ⟨h.sorted, List.pairwise_singleton _ _, fun x hx y hy => ?_⟩
    obtain rfl := List.mem_singleton.mp hy
    exact lt_of_le_of_ne (hc x (h.sound x hx).1) fun heq => hnew (heq ▸ hx)
  · rcases List.mem_append.mp hx with hx | hx
    · exact ⟨List.mem_append_left _ (h.sound x hx).1, (h.sound x hx).2⟩
    · exact ⟨List.mem_append_right _ hx, List.mem_singleton.mp hx ▸ hkeep⟩
  · have hlt := hroom n hn
    rw [List.length_append, List.length_singleton]
    omega

theorem Collected.collect (h : Collected limit keep seen l) (hc : ∀ x ∈ seen, x ≤ c) :
    Collected limit keep (seen ++ [c]) (collect limit keep l c) := by
  unfold Library.collect
  split
  · next hfull =>
    obtain ⟨n, hn, hle⟩ := (Option.any_eq_true _ _).mp hfull
    exact h.skip hc (.inl ⟨n, hn, by simpa using hle⟩)
  · next hroom =>
    split
    · next hpush =>
      rw [Bool.and_eq_true, Bool.not_eq_true', List.contains_eq_mem, decide_eq_false_iff_not]
        at hpush
      refine h.push hc (fun n hn => ?_) hpush.1 hpush.2
      simpa [hn] using hroom
    · next hskip =>
      refine h.skip hc (.inr ?_)
      cases hk : keep c with
      | false => exact .inl rfl
      | true => exact .inr (by simpa [hk] using hskip)

theorem collected_foldl {cs : List α} (hcs : cs.Pairwise (· ≤ ·)) :
    Collected limit keep cs (cs.foldl (collect limit keep) []) := by
  induction cs using List.reverseRecOn with
  | nil => exact .nil
  | append_singleton cs c ih =>
    obtain ⟨hsorted, -, hlast⟩ := List.pairwise_append.mp hcs
    rw [List.foldl_append]
    exact (ih hsorted).collect fun x hx => hlast x hx c (by simp)

end Maxim.Library
