import Maxim.Moderation.MessageDuplicate.Recompression.Script

/-!
# The loops over the rows of a bucket

What the loops of the script make of rows with different canonical hashes: nothing
is preferred, deduplicated or cut, and an incoming candidate takes the place of
the row with its canonical hash.
-/

namespace Maxim.Moderation.MessageDuplicate.Recompression

open Maxim.Library

variable {rows acc : List Candidate} {r c : Candidate}

theorem Distinct.nodup (h : Distinct rows) : rows.Nodup := List.Nodup.of_map _ h

theorem Distinct.perm {rows' : List Candidate} (h : Distinct rows) (hperm : rows.Perm rows') :
    Distinct rows' := (hperm.map _).nodup_iff.mp h

theorem Distinct.filter (h : Distinct rows) (p : Candidate → Bool) : Distinct (rows.filter p) :=
  h.sublist (List.Sublist.map _ List.filter_sublist)

theorem distinct_nil : Distinct [] := List.nodup_nil

theorem distinct_snoc :
    Distinct (rows ++ [r]) ↔ Distinct rows ∧ ∀ x ∈ rows, x.canonicalHash ≠ r.canonicalHash := by
  unfold Distinct
  rw [List.map_append, List.nodup_append]
  constructor
  · rintro ⟨hrows, -, hne⟩
    exact ⟨hrows, fun x hx => hne _ (List.mem_map_of_mem hx) _ (by simp)⟩
  · rintro ⟨hrows, hne⟩
    refine ⟨hrows, by simp, fun a ha b hb => ?_⟩
    obtain ⟨x, hx, rfl⟩ := List.mem_map.mp ha
    obtain rfl : b = r.canonicalHash := by simpa using hb
    exact hne x hx

theorem any_canonicalHash_eq_false :
    (rows.any fun x => x.canonicalHash == r.canonicalHash) = false ↔
      ∀ x ∈ rows, x.canonicalHash ≠ r.canonicalHash := by
  simp

def Determined (rows : List Candidate) : Prop :=
  ∀ a ∈ rows, ∀ b ∈ rows, a.canonicalHash = b.canonicalHash → a = b

/-- The loop that builds `all` drops only repetitions. -/
theorem foldl_gather (h : Determined rows) :
    Distinct (rows.foldl gather []) ∧ ∀ r, r ∈ rows.foldl gather [] ↔ r ∈ rows := by
  induction rows using List.reverseRecOn with
  | nil => exact ⟨distinct_nil, fun _ => Iff.rfl⟩
  | append_singleton rows c ih =>
    obtain ⟨hdistinct, hmem⟩ := ih fun a ha b hb => h a (List.mem_append_left _ ha) b
      (List.mem_append_left _ hb)
    rw [List.foldl_append]
    generalize rows.foldl gather [] = all at hdistinct hmem
    change Distinct (gather all c) ∧ ∀ r, r ∈ gather all c ↔ _
    unfold gather
    split
    · next hseen =>
      obtain ⟨x, hx, heq⟩ := List.any_eq_true.mp hseen
      have hx' := (hmem x).mp hx
      have hxc : x = c := h x (List.mem_append_left _ hx') c (by simp) (eq_of_beq heq)
      refine ⟨hdistinct, fun r => ?_⟩
      rw [hmem, List.mem_append, List.mem_singleton]
      refine ⟨.inl, fun hr => hr.elim id fun hrc => ?_⟩
      exact hrc ▸ hxc ▸ hx'
    · next hnew =>
      have hnew := any_canonicalHash_eq_false.mp (Bool.eq_false_iff.mpr hnew)
      refine ⟨distinct_snoc.mpr ⟨hdistinct, hnew⟩, fun r => ?_⟩
      rw [List.mem_append, List.mem_append, hmem]

theorem foldl_prefer (h : Distinct rows) : rows.foldl prefer [] = rows := by
  induction rows using List.reverseRecOn with
  | nil => rfl
  | append_singleton rows c ih =>
    obtain ⟨hdistinct, hnew⟩ := distinct_snoc.mp h
    rw [List.foldl_append, ih hdistinct]
    change prefer rows c = rows ++ [c]
    have hnone : rows.find? (fun prior => prior.canonicalHash == c.canonicalHash) = none := by
      rw [List.find?_eq_none]
      exact fun x hx => by simpa using hnew x hx
    rw [prefer, hnone]

theorem foldl_keep (h : Distinct rows) (hlen : rows.length ≤ 8) : rows.foldl keep [] = rows := by
  induction rows using List.reverseRecOn with
  | nil => rfl
  | append_singleton rows c ih =>
    obtain ⟨hdistinct, hnew⟩ := distinct_snoc.mp h
    rw [List.length_append, List.length_singleton] at hlen
    rw [List.foldl_append, ih hdistinct (by omega)]
    change keep rows c = rows ++ [c]
    have hroom : rows.length < 8 := by omega
    rw [keep, any_canonicalHash_eq_false.mpr hnew, decide_eq_true hroom]
    rfl

/-- `c` is the row `r` with an expiry that is no later. -/
def Refreshes (c r : Candidate) : Prop :=
  sameSource r c = true ∧ { r with expiresAtMs := min r.expiresAtMs c.expiresAtMs } = c

/-- An incoming candidate takes the place of the row with its canonical hash. -/
theorem prefer_spec (h : Distinct rows)
    (hrefresh : ∀ x ∈ rows, x.canonicalHash = c.canonicalHash → Refreshes c x) :
    Distinct (prefer rows c) ∧
      ∀ r, r ∈ prefer rows c ↔ r = c ∨ r ∈ rows ∧ r.canonicalHash ≠ c.canonicalHash := by
  unfold prefer
  split
  · next hnone =>
    rw [List.find?_eq_none] at hnone
    have hnew : ∀ x ∈ rows, x.canonicalHash ≠ c.canonicalHash := fun x hx => by
      simpa using hnone x hx
    refine ⟨distinct_snoc.mpr ⟨h, hnew⟩, fun r => ?_⟩
    rw [List.mem_append, List.mem_singleton, or_comm]
    exact or_congr_right ⟨fun hr => ⟨hr, hnew r hr⟩, And.left⟩
  · next prior hprior =>
    have hmem := List.mem_of_find?_eq_some hprior
    have hcanon : prior.canonicalHash = c.canonicalHash := by
      simpa using List.find?_some hprior
    obtain ⟨hsource, hc⟩ := hrefresh prior hmem hcanon
    rw [if_pos hsource, hc]
    constructor
    · have hsame : (rows.map fun x => if x = prior then c else x).map Candidate.canonicalHash =
          rows.map Candidate.canonicalHash := by
        rw [List.map_map]
        refine List.map_congr_left fun x _ => ?_
        by_cases hx : x = prior
        · simp [hx, hcanon]
        · simp [hx]
      unfold Distinct
      rw [hsame]
      exact h
    · intro r
      rw [List.mem_map]
      constructor
      · rintro ⟨x, hx, rfl⟩
        by_cases hxp : x = prior
        · exact .inl (if_pos hxp)
        · rw [if_neg hxp]
          refine .inr ⟨hx, fun heq => hxp (h.eq hx hmem (heq.trans hcanon.symm))⟩
      · rintro (rfl | ⟨hr, hne⟩)
        · exact ⟨prior, hmem, if_pos rfl⟩
        · have hother : r ≠ prior := fun heq => hne (heq ▸ hcanon)
          exact ⟨r, hr, if_neg hother⟩

/-- What a bucket with room keeps: its live rows, or these with the incoming candidate in its place. -/
theorem keptRows_spec (candidate : Option Candidate) (h : Distinct rows)
    (hrefresh : ∀ c, candidate = some c →
      ∀ x ∈ rows, x.canonicalHash = c.canonicalHash → Refreshes c x)
    (hroom : ∀ kept : List Candidate, Distinct kept →
      (∀ r ∈ kept, candidate = some r ∨ r ∈ rows ∧ ∀ c, candidate = some c →
        r.canonicalHash ≠ c.canonicalHash) → kept.length ≤ 8) :
    Distinct (keptRows rows candidate) ∧ ∀ r, r ∈ keptRows rows candidate ↔
      candidate = some r ∨ r ∈ rows ∧ ∀ c, candidate = some c →
        r.canonicalHash ≠ c.canonicalHash := by
  have hpreferred : Distinct ((rows ++ candidate.toList).foldl prefer []) ∧
      ∀ r, r ∈ (rows ++ candidate.toList).foldl prefer [] ↔
        candidate = some r ∨ r ∈ rows ∧ ∀ c, candidate = some c →
          r.canonicalHash ≠ c.canonicalHash := by
    cases candidate with
    | none =>
      rw [Option.toList_none, List.append_nil, foldl_prefer h]
      exact ⟨h, fun r => by simp⟩
    | some c =>
      rw [List.foldl_append, foldl_prefer h]
      obtain ⟨hdistinct, hmem⟩ := prefer_spec h (hrefresh c rfl)
      refine ⟨hdistinct, fun r => ?_⟩
      change r ∈ prefer rows c ↔ _
      rw [hmem]
      simp [eq_comm]
  obtain ⟨hdistinct, hmem⟩ := hpreferred
  have hsort := sort_perm ((rows ++ candidate.toList).foldl prefer [])
  have hsorted := hdistinct.perm hsort.symm
  have hlen := hroom _ hsorted fun r hr => (hmem r).mp (mem_sort.mp hr)
  rw [keptRows, foldl_keep hsorted hlen]
  exact ⟨hsorted, fun r => mem_sort.trans (hmem r)⟩

/-! ## Expiry and size -/

theorem foldl_min_le (l : List Candidate) (e : Nat) :
    l.foldl (fun e r => min e r.expiresAtMs) e ≤ e ∧
      ∀ r ∈ l, l.foldl (fun e r => min e r.expiresAtMs) e ≤ r.expiresAtMs := by
  induction l generalizing e with
  | nil => simp
  | cons x l ih =>
    obtain ⟨hle, hmem⟩ := ih (min e x.expiresAtMs)
    rw [List.foldl_cons]
    refine ⟨by omega, fun r hr => ?_⟩
    rcases List.mem_cons.mp hr with rfl | hr
    · omega
    · exact hmem r hr

theorem foldl_min_attained (l : List Candidate) (e : Nat) :
    l.foldl (fun e r => min e r.expiresAtMs) e = e ∨
      ∃ r ∈ l, l.foldl (fun e r => min e r.expiresAtMs) e = r.expiresAtMs := by
  induction l generalizing e with
  | nil => exact .inl rfl
  | cons x l ih =>
    rw [List.foldl_cons]
    rcases ih (min e x.expiresAtMs) with heq | ⟨r, hr, heq⟩
    · rcases Nat.le_total e x.expiresAtMs with hle | hle
      · rw [Nat.min_eq_left hle] at heq ⊢
        exact .inl heq
      · rw [Nat.min_eq_right hle] at heq ⊢
        exact .inr ⟨x, List.mem_cons_self, heq⟩
    · exact .inr ⟨r, List.mem_cons_of_mem _ hr, heq⟩

theorem expires_congr (now : Nat) (c : Candidate) {rows rows' : List Candidate}
    (h : ∀ r, r ∈ rows ↔ r ∈ rows') : expires now c rows = expires now c rows' := by
  have hle : ∀ l l' : List Candidate, (∀ r, r ∈ l ↔ r ∈ l') → expires now c l ≤ expires now c l' := by
    intro l l' hl
    obtain ⟨hle, hmem⟩ := foldl_min_le (l.filter (sameSource c))
      (min (min c.expiresAtMs (c.publishedAtMs + MAX_RETENTION_MS)) (now + MAX_RETENTION_MS))
    unfold expires
    rcases foldl_min_attained (l'.filter (sameSource c))
      (min (min c.expiresAtMs (c.publishedAtMs + MAX_RETENTION_MS)) (now + MAX_RETENTION_MS))
      with heq | ⟨r, hr, heq⟩
    · rw [heq]
      exact hle
    · rw [heq]
      obtain ⟨hr, hsource⟩ := List.mem_filter.mp hr
      exact hmem r (List.mem_filter.mpr ⟨(hl r).mpr hr, hsource⟩)
  exact Nat.le_antisymm (hle _ _ h) (hle _ _ fun r => (h r).symm)

theorem incoming_congr (now : Nat) (c : Candidate) {rows rows' : List Candidate}
    (h : ∀ r, r ∈ rows ↔ r ∈ rows') : incoming now c rows = incoming now c rows' := by
  unfold incoming
  rw [expires_congr now c h]

theorem expires_le (now : Nat) (c : Candidate) (rows : List Candidate) :
    expires now c rows ≤ c.expiresAtMs ∧
      expires now c rows ≤ c.publishedAtMs + MAX_RETENTION_MS ∧
      expires now c rows ≤ now + MAX_RETENTION_MS ∧
      ∀ r ∈ rows, sameSource c r = true → expires now c rows ≤ r.expiresAtMs := by
  obtain ⟨hle, hmem⟩ := foldl_min_le (rows.filter (sameSource c))
    (min (min c.expiresAtMs (c.publishedAtMs + MAX_RETENTION_MS)) (now + MAX_RETENTION_MS))
  change expires now c rows ≤ _ at hle
  refine ⟨by omega, by omega, by omega, fun r hr hsource => ?_⟩
  exact hmem r (List.mem_filter.mpr ⟨hr, hsource⟩)

theorem incoming_eq_some {now : Nat} {c r : Candidate} {rows : List Candidate}
    (h : incoming now c rows = some r) :
    r = { c with expiresAtMs := expires now c rows } ∧ now < expires now c rows ∧
      c.publishedAtMs < expires now c rows := by
  unfold incoming at h
  dsimp only at h
  split at h
  · next hlive => exact ⟨(Option.some.inj h).symm, hlive⟩
  · cases h

/-- A candidate whose dates the store's JSON writes in full. -/
structure Exact (r : Candidate) : Prop where
  event : r.eventTimestampMs < 10 ^ 14
  published : r.publishedAtMs < 10 ^ 14
  expires : r.expiresAtMs < 10 ^ 14

theorem digits_le {n : Nat} (h : n < 10 ^ 14) : digits n ≤ 14 := Nat.log_lt_of_lt_pow' (by decide) h

theorem length_le_utf8Len (cs : List Char) : cs.length ≤ String.utf8Len cs := by
  induction cs with
  | nil => exact Nat.le_refl _
  | cons c cs ih =>
    have hpos := Char.utf8Size_pos c
    rw [List.length_cons, String.utf8Len_cons]
    omega

theorem escapedSize_le (value : String) : escapedSize value ≤ 2 * value.utf8ByteSize := by
  have hcount : value.toList.countP escaped ≤ value.toList.length := List.countP_le_length
  have hlength : value.toList.length ≤ value.utf8ByteSize := by
    have hsize := String.utf8ByteSize_ofList value.toList
    rw [String.ofList_toList] at hsize
    rw [hsize]
    exact length_le_utf8Len _
  unfold escapedSize
  omega

theorem rowSize_le (hvalid : r.valid = true) (hexact : Exact r) : rowSize r ≤ 1020 := by
  simp only [Candidate.valid, validId, Bool.and_eq_true, decide_eq_true_eq] at hvalid
  have hevent := digits_le hexact.event
  have hpublished := digits_le hexact.published
  have hexpires := digits_le hexact.expires
  have hid := escapedSize_le r.webhookEventId
  have hmessage := escapedSize_le r.messageId
  unfold rowSize
  omega

theorem encodedSize_le (hlen : rows.length ≤ 8) (h : ∀ r ∈ rows, r.valid = true ∧ Exact r) :
    encodedSize rows ≤ 8192 := by
  have hsum : (rows.map rowSize).sum ≤ rows.length * 1020 := by
    have hle := List.sum_le_card_nsmul (rows.map rowSize) 1020 fun n hn => by
      obtain ⟨r, hr, rfl⟩ := List.mem_map.mp hn
      exact rowSize_le (h r hr).1 (h r hr).2
    rwa [List.length_map, smul_eq_mul] at hle
  unfold encodedSize
  omega

end Maxim.Moderation.MessageDuplicate.Recompression
