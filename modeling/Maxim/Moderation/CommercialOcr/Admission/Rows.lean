import Maxim.Moderation.CommercialOcr.Admission.Lifetimes

/-!
# The rows of the admission store

What one call does to the metadata and the scores. Cleanups and expired keys
only take rows away whose score has passed, and after that a call writes at
most one row.
-/

namespace Maxim.Moderation.CommercialOcr.Admission

open Maxim.Library

variable {κ χ ι : Type} [LinearOrder κ] [DecidableEq χ] {k k' k'' : Keys κ χ ι} {now : Nat}

/-! ## Cleaning -/

def SameRow (k k' : Keys κ χ ι) (j : κ) : Prop :=
  field k'.globalMetadata j = field k.globalMetadata j ∧
    field k'.globalExpiry j = field k.globalExpiry j

/-- Every row is as before, or gone with a score that has passed. -/
def Cleaned (now : Nat) (k k' : Keys κ χ ι) : Prop :=
  ∀ j, SameRow k k' j ∨ field k'.globalMetadata j = none ∧ field k'.globalExpiry j = none ∧
    ∀ s, field k.globalExpiry j = some s → s ≤ now

omit [DecidableEq χ] in
theorem Cleaned.refl (now : Nat) (k : Keys κ χ ι) : Cleaned now k k := fun _ => .inl ⟨rfl, rfl⟩

omit [DecidableEq χ] in
theorem Cleaned.trans (h : Cleaned now k k') (h' : Cleaned now k' k'') : Cleaned now k k'' := by
  intro j
  rcases h' j with ⟨hm', hs'⟩ | ⟨hm', hs', hle'⟩
  · rcases h j with ⟨hm, hs⟩ | ⟨hm, hs, hle⟩
    · exact .inl ⟨hm'.trans hm, hs'.trans hs⟩
    · exact .inr ⟨hm'.trans hm, hs'.trans hs, hle⟩
  · rcases h j with ⟨-, hs⟩ | ⟨-, -, hle⟩
    · exact .inr ⟨hm', hs', fun s hsome => hle' s (by rw [hs, hsome])⟩
    · exact .inr ⟨hm', hs', hle⟩

omit [DecidableEq χ] in
theorem cleaned_purge {d : Nat} (h : Deadlines d k) (now : Nat) : Cleaned now k (k.purge now) := by
  intro j
  by_cases hle : now ≤ d
  · refine .inl ⟨?_, ?_⟩
    · rw [Keys.purge, h.metadata.purge_of_le hle]
    · rw [Keys.purge, h.expiry.purge_of_le hle]
  · refine .inr ⟨?_, ?_, fun s hs => ?_⟩
    · rw [Keys.purge, h.metadata.purge_of_lt (by omega), field_none]
    · rw [Keys.purge, h.expiry.purge_of_lt (by omega), field_none]
    · have hscore := h.scores j s hs
      omega

theorem dropExpired_rows (k : Keys κ χ ι) (j : κ) :
    (dropExpired k j).globalMetadata = delField k.globalMetadata j ∧
      (dropExpired k j).globalExpiry = delField k.globalExpiry j := by
  rw [dropExpired]
  split
  · split
    · exact ⟨by rw [Keys.dropRow, releaseCapacity_metadata],
        by rw [Keys.dropRow, releaseCapacity_expiry]⟩
    · exact ⟨rfl, rfl⟩
  · exact ⟨rfl, rfl⟩

theorem foldl_dropExpired_rows (l : List κ) (k : Keys κ χ ι) :
    (l.foldl dropExpired k).globalMetadata = l.foldl delField k.globalMetadata ∧
      (l.foldl dropExpired k).globalExpiry = l.foldl delField k.globalExpiry := by
  induction l generalizing k with
  | nil => exact ⟨rfl, rfl⟩
  | cons j l ih =>
    obtain ⟨hm, hs⟩ := ih (dropExpired k j)
    obtain ⟨hm', hs'⟩ := dropExpired_rows k j
    simp only [List.foldl_cons, hm, hs, hm', hs', and_self]

/-- Any batch of rows whose scores have passed. -/
theorem cleaned_foldl {l : List κ} (hl : ∀ j ∈ l, ∃ s ≤ now, field k.globalExpiry j = some s) :
    Cleaned now k (l.foldl dropExpired k) := by
  intro j
  obtain ⟨hm, hs⟩ := foldl_dropExpired_rows l k
  rw [SameRow, hm, hs, field_foldl_delField, field_foldl_delField]
  by_cases hj : j ∈ l
  · obtain ⟨s, hle, hsome⟩ := hl j hj
    refine .inr ⟨if_pos hj, if_pos hj, fun s' hs' => ?_⟩
    rw [hsome, Option.some.injEq] at hs'
    omega
  · exact .inl ⟨if_neg hj, if_neg hj⟩

theorem cleaned_cleanGlobal (now : Nat) (k : Keys κ χ ι) : Cleaned now k (cleanGlobal now k) :=
  cleaned_foldl fun _ hj => mem_scoredUpTo hj

theorem cleanChat_rows (now : Nat) (c : χ) (k : Keys κ χ ι) :
    (cleanChat now c k).globalMetadata = k.globalMetadata ∧
      (cleanChat now c k).globalExpiry = k.globalExpiry := by
  rw [cleanChat]
  generalize scoredUpTo (k.chatExpiry c) now ADMISSION_CLEANUP_BATCH_SIZE = l
  induction l generalizing k with
  | nil => exact ⟨rfl, rfl⟩
  | cons j l ih =>
    obtain ⟨hm, hs⟩ := ih (dropExpiredWeight c k j)
    obtain ⟨hm', hs'⟩ := decrementChat_rows k c j
    exact ⟨hm.trans hm', hs.trans hs'⟩

theorem cleaned_tidy (now : Nat) (r : Reservation κ χ) (k : Keys κ χ ι) :
    Cleaned now k (tidy now r k) := by
  have hrows := cleanChat_rows now r.chatHash (cleanGlobal now k)
  intro j
  rcases cleaned_cleanGlobal now k j with ⟨hm, hs⟩ | ⟨hm, hs, hle⟩
  · refine .inl ⟨?_, ?_⟩
    · simp [tidy, extendAll, Keys.extendRows, hrows.1, hm]
    · simp [tidy, extendAll, Keys.extendRows, hrows.2, hs]
  · refine .inr ⟨?_, ?_, hle⟩
    · simp [tidy, extendAll, Keys.extendRows, hrows.1, hm]
    · simp [tidy, extendAll, Keys.extendRows, hrows.2, hs]

/-! ## Writing -/

def Sets (k k' : Keys κ χ ι) (j : κ) (m : Metadata χ) (s : Nat) : Prop :=
  field k'.globalMetadata j = some m ∧ field k'.globalExpiry j = some s ∧
    ∀ j', j' ≠ j → SameRow k k' j'

/-- What a call does to the rows that are left: it writes none, turns one into an observation,
buries or admits a job without a row, or activates a pending one. -/
inductive Wrote (now : Nat) : Request κ χ ι → Reply → Keys κ χ ι → Keys κ χ ι → Prop
  | nothing {request : Request κ χ ι} {reply : Reply} {k k' : Keys κ χ ι}
      (same : ∀ j, SameRow k k' j) : Wrote now request reply k k'
  | observed {request : Request κ χ ι} {reply : Reply} {k k' : Keys κ χ ι} (j : κ)
      (m : Metadata χ) (s s' : Nat)
      (row : field k.globalMetadata j = some m) (score : field k.globalExpiry j = some s)
      (later : s ≤ s') (sets : Sets k k' j m.observed s') : Wrote now request reply k k'
  | buried {k k' : Keys κ χ ι} (j : κ) (c : χ) (n ttlMs : Nat) (row : field k.globalMetadata j = none)
      (sets : Sets k k' j ⟨c, n, .observation, false⟩ (now + ttlMs)) :
      Wrote now (.suppress j c n ttlMs) (.suppress true) k k'
  | admitted {k k' : Keys κ χ ι} (r : Reservation κ χ) (row : field k.globalMetadata r.jobId = none)
      (young : now ≤ r.sourceCreatedAtMs + r.limits.maxJobAgeMs)
      (old : r.sourceCreatedAtMs ≤ now + MAX_FUTURE_SKEW_MS)
      (sets : Sets k k' r.jobId ⟨r.chatHash, r.imageCount, r.desiredState, true⟩
        (now + r.limits.reservationTtlMs)) :
      Wrote now (.reserve r) (.reserve (.admitted r.desiredState)) k k'
  | activated {k k' : Keys κ χ ι} (j : κ) (ttlMs : Nat) (m : Metadata χ) (s : Nat)
      (row : field k.globalMetadata j = some m) (score : field k.globalExpiry j = some s)
      (pending : m.state = .pending) (held : m.capacityHeld = true)
      (sets : Sets k k' j { m with state := .actionable, capacityHeld := true } s) :
      Wrote now (.activate j ttlMs) (.activate .activated) k k'

def Paired (k : Keys κ χ ι) : Prop :=
  ∀ j, (field k.globalMetadata j).isSome = (field k.globalExpiry j).isSome

variable {j j' : κ}

omit [DecidableEq χ] in
theorem Paired.score (h : Paired k) {m : Metadata χ}
    (hrow : field k.globalMetadata j = some m) : ∃ s, field k.globalExpiry j = some s := by
  have hj := h j
  rw [hrow] at hj
  exact Option.isSome_iff_exists.mp hj.symm

omit [DecidableEq χ] in
theorem Paired.cleaned (h : Paired k) (hc : Cleaned now k k') : Paired k' := by
  intro j
  rcases hc j with ⟨hm, hs⟩ | ⟨hm, hs, -⟩
  · rw [hm, hs, h j]
  · rw [hm, hs]
    rfl

omit [DecidableEq χ] in
theorem Paired.sets (h : Paired k) {m : Metadata χ} {s : Nat} (hs : Sets k k' j m s) :
    Paired k' := by
  intro j'
  by_cases hj : j' = j
  · rw [hj, hs.1, hs.2.1]
    rfl
  · rw [(hs.2.2 j' hj).1, (hs.2.2 j' hj).2, h j']

omit [DecidableEq χ] in
theorem Wrote.paired {request : Request κ χ ι} {reply : Reply} (h : Wrote now request reply k k')
    (hp : Paired k) : Paired k' := by
  cases h with
  | nothing same =>
    intro j
    rw [(same j).1, (same j).2, hp j]
  | observed j m s s' _ _ _ sets => exact hp.sets sets
  | buried j c n ttlMs _ sets => exact hp.sets sets
  | admitted r _ _ _ sets => exact hp.sets sets
  | activated j ttlMs m s _ _ _ _ sets => exact hp.sets sets

omit [DecidableEq χ] in
/-- Writing the row of a job that has one, after changes that leave the rows. -/
theorem sets_setRow {s : Nat} (hm : k'.globalMetadata = k.globalMetadata)
    (hs : k'.globalExpiry = k.globalExpiry) (hscore : field k.globalExpiry j = some s)
    (m : Metadata χ) : Sets k (k'.setRow j m) j m s := by
  refine ⟨?_, ?_, fun j' hj => ⟨?_, ?_⟩⟩
  · rw [Keys.setRow, field_setField, if_pos rfl]
  · rw [Keys.setRow, hs, hscore]
  · rw [Keys.setRow, field_setField, if_neg hj, hm]
  · rw [Keys.setRow, hs]

omit [DecidableEq χ] in
theorem sets_extendRows (hm : k'.globalMetadata = k.globalMetadata)
    (hs : k'.globalExpiry = k.globalExpiry) (m : Metadata χ) (s ttlMs : Nat) :
    Sets k (((k'.setRow j m).setScore j s).extendRows now ttlMs) j m s := by
  refine ⟨?_, ?_, fun j' hj => ⟨?_, ?_⟩⟩
  · rw [Keys.extendRows, field_extendTtl, Keys.setScore, Keys.setRow, field_setField, if_pos rfl]
  · rw [Keys.extendRows, field_extendTtl, Keys.setScore, field_setField, if_pos rfl]
  · rw [Keys.extendRows, field_extendTtl, Keys.setScore, Keys.setRow, field_setField, if_neg hj, hm]
  · rw [Keys.extendRows, field_extendTtl, Keys.setScore, field_setField, if_neg hj, Keys.setRow, hs]

theorem sets_finish {m : Metadata χ} {s : Nat} (hscore : field k.globalExpiry j = some s)
    (c : χ) : Sets k (finish j c m k) j m.observed s :=
  sets_setRow (releaseHeld_rows j c m k).1 (releaseHeld_rows j c m k).2 hscore _

theorem sets_grant (now : Nat) (r : Reservation κ χ) (k : Keys κ χ ι) :
    Sets k (grant now r k) r.jobId ⟨r.chatHash, r.imageCount, r.desiredState, true⟩
      (now + r.limits.reservationTtlMs) := by
  refine ⟨?_, ?_, fun j hj => ⟨?_, ?_⟩⟩
  · rw [grant, field_extendTtl, field_setField, if_pos rfl]
  · rw [grant, field_extendTtl, field_setField, if_pos rfl]
  · rw [grant, field_extendTtl, field_setField, if_neg hj]
  · rw [grant, field_extendTtl, field_setField, if_neg hj]

/-- What each script does to the rows. -/
theorem wrote_reserve (r : Reservation κ χ) (hp : Paired k) :
    ∃ mid, Cleaned now k mid ∧
      Wrote now (.reserve r : Request κ χ ι) (.reserve (reserve now r k).2) mid (reserve now r k).1 := by
  rw [reserve]
  split
  · exact ⟨k, Cleaned.refl now k, .nothing fun _ => ⟨rfl, rfl⟩⟩
  rename_i hage
  have hclean := cleaned_tidy now r k
  refine ⟨tidy now r k, hclean, ?_⟩
  dsimp only
  cases hrow : field (tidy now r k).globalMetadata r.jobId with
  | some m =>
    obtain ⟨s, hs⟩ := (hp.cleaned hclean).score hrow
    dsimp only
    rw [again]
    split
    · exact .nothing fun _ => ⟨rfl, rfl⟩
    split
    · exact .observed r.jobId m s s hrow hs (le_refl s) (sets_finish hs m.chatHash)
    · exact .nothing fun _ => ⟨rfl, rfl⟩
  | none =>
    dsimp only
    rw [admitNew]
    split
    · exact .nothing fun _ => ⟨rfl, rfl⟩
    split
    · exact .nothing fun _ => ⟨rfl, rfl⟩
    split
    · exact .nothing fun _ => ⟨rfl, rfl⟩
    rw [not_or] at hage
    exact .admitted r hrow (Nat.not_lt.mp hage.1) (Nat.not_lt.mp hage.2) (sets_grant now r _)

theorem wrote_activate (j : κ) (ttlMs : Nat) (hp : Paired k) :
    Wrote now (.activate j ttlMs : Request κ χ ι) (.activate (activate now j ttlMs k).2) k
      (activate now j ttlMs k).1 := by
  rw [activate]
  cases hrow : field k.globalMetadata j with
  | none => exact .nothing fun _ => ⟨rfl, rfl⟩
  | some m =>
    obtain ⟨s, hs⟩ := hp.score hrow
    dsimp only
    rw [hs, Option.getD_some]
    split
    · rename_i hexpired
      refine .observed j m s (now + ttlMs) hrow hs (by omega) (sets_extendRows ?_ ?_ _ _ _)
      · split
        · exact (decrementChat_rows _ _ _).1
        · rfl
      · split
        · exact (decrementChat_rows _ _ _).2
        · rfl
    split
    · exact .nothing fun _ => ⟨rfl, rfl⟩
    rename_i hobservation
    split
    · exact .nothing fun _ => ⟨rfl, rfl⟩
    rename_i hheld
    split
    · exact .nothing fun _ => ⟨rfl, rfl⟩
    rename_i hactionable
    refine .activated j ttlMs m s hrow hs ?_ (by simpa using hheld) (sets_setRow rfl rfl hs _)
    cases hstate : m.state with
    | pending => rfl
    | actionable => exact absurd hstate hactionable
    | observation => exact absurd hstate hobservation

theorem wrote_suppress (j : κ) (c : χ) (n ttlMs : Nat) (hp : Paired k) :
    ∃ mid, Cleaned now k mid ∧
      Wrote now (.suppress j c n ttlMs : Request κ χ ι) (.suppress (suppress now j c n ttlMs k).2) mid
        (suppress now j c n ttlMs k).1 := by
  have hclean : Cleaned now k (((scoredUpTo k.globalExpiry now ADMISSION_CLEANUP_BATCH_SIZE).filter
      fun expiredJobId => decide (expiredJobId ≠ j)).foldl dropExpired k) :=
    cleaned_foldl fun _ hj => mem_scoredUpTo (List.mem_of_mem_filter hj)
  refine ⟨_, hclean, ?_⟩
  have hpaired := hp.cleaned hclean
  rw [suppress]
  generalize ((scoredUpTo k.globalExpiry now ADMISSION_CLEANUP_BATCH_SIZE).filter fun expiredJobId =>
    decide (expiredJobId ≠ j)).foldl dropExpired k = mid at hpaired
  cases hrow : field mid.globalMetadata j with
  | none =>
    have hscore : field mid.globalExpiry j = none := by
      have hj := hpaired j
      rw [hrow] at hj
      simpa using hj.symm
    dsimp only
    refine .buried j c n ttlMs hrow ?_
    have hsets : Sets mid (((mid.setRow j ⟨c, n, .observation, false⟩).setScore j
        (now + ttlMs)).extendRows now (ttlMs * 2)) j ⟨c, n, .observation, false⟩ (now + ttlMs) :=
      sets_extendRows rfl rfl _ _ _
    simpa [Keys.setRow, hscore] using hsets
  | some m =>
    obtain ⟨s, hs⟩ := hpaired.score hrow
    dsimp only
    split
    · exact .nothing fun _ => ⟨rfl, rfl⟩
    · refine .observed j m s (max s (now + ttlMs)) hrow hs (le_max_left _ _) ?_
      have hrows := releaseHeld_rows j c m mid
      have hsets : Sets mid ((((releaseHeld j c m mid).setRow j m.observed).setScore j
          (max s (now + ttlMs))).extendRows now (ttlMs * 2)) j m.observed (max s (now + ttlMs)) :=
        sets_extendRows hrows.1 hrows.2 _ _ _
      have hscore : field ((releaseHeld j c m mid).setRow j m.observed).globalExpiry j = some s := by
        rw [Keys.setRow, hrows.2, hs]
      show Sets mid ((((releaseHeld j c m mid).setRow j m.observed).setScore j (max ((field
        ((releaseHeld j c m mid).setRow j m.observed).globalExpiry j).getD 0) (now + ttlMs))).extendRows
          now (ttlMs * 2)) j m.observed (max s (now + ttlMs))
      rw [hscore, Option.getD_some]
      exact hsets

theorem wrote_release (j : κ) (c : χ) (hp : Paired k) :
    Wrote now (.release j c : Request κ χ ι) (.release (release j c k).2) k (release j c k).1 := by
  rw [release]
  cases hrow : field k.globalMetadata j with
  | none => exact .nothing fun _ => ⟨rfl, rfl⟩
  | some m =>
    obtain ⟨s, hs⟩ := hp.score hrow
    dsimp only
    split
    · exact .nothing fun _ => ⟨rfl, rfl⟩
    · exact .observed j m s s hrow hs (le_refl s) (sets_finish hs c)

/-! ## Answers -/

/-- The job whose state a call answers, and the state. -/
def answered : Request κ χ ι → Reply → Option (κ × CommercialOcrAdmissionState)
  | .reserve r, .reserve (.admitted state) => some (r.jobId, state)
  | .reserve r, .reserve (.duplicate state) => some (r.jobId, state)
  | .activate j _, .activate .activated => some (j, .actionable)
  | .activate j _, .activate .alreadyActionable => some (j, .actionable)
  | .activate j _, .activate .suppressed => some (j, .observation)
  | .activate j _, .activate .expired => some (j, .observation)
  | .suppress j _ _ _, .suppress true => some (j, .observation)
  | .resolveState j, .resolveState (.available state) => some (j, state)
  | _, _ => none

def stored (k : Keys κ χ ι) (j : κ) : Option CommercialOcrAdmissionState :=
  (field k.globalMetadata j).map Metadata.state

omit [DecidableEq χ] in
theorem stored_setRow (k : Keys κ χ ι) (j : κ) (m : Metadata χ) :
    stored (k.setRow j m) j = some m.state := by
  rw [stored, Keys.setRow, field_setField, if_pos rfl, Option.map_some]

omit [DecidableEq χ] in
theorem stored_extendRows (k : Keys κ χ ι) (j : κ) (m : Metadata χ) (s ttlMs : Nat) :
    stored (((k.setRow j m).setScore j s).extendRows now ttlMs) j = some m.state := by
  rw [stored, Keys.extendRows, field_extendTtl]
  exact stored_setRow k j m

variable {state : CommercialOcrAdmissionState}

theorem answered_reserve {r : Reservation κ χ}
    (h : answered (.reserve r : Request κ χ ι) (.reserve (reserve now r k).2) = some (j, state)) :
    stored (reserve now r k).1 j = some state := by
  rw [reserve] at h ⊢
  split at h
  · simp [answered] at h
  rename_i hage
  rw [if_neg hage]
  dsimp only at h ⊢
  cases hrow : field (tidy now r k).globalMetadata r.jobId with
  | some m =>
    rw [hrow] at h
    dsimp only at h ⊢
    rw [again] at h ⊢
    split at h
    · simp [answered] at h
    rename_i hsame
    rw [if_neg hsame]
    split at h
    · rename_i hobserve
      rw [if_pos hobserve]
      simp only [answered, Option.some.injEq, Prod.mk.injEq] at h
      obtain ⟨rfl, rfl⟩ := h
      exact stored_setRow _ _ _
    · rename_i hkeep
      rw [if_neg hkeep]
      simp only [answered, Option.some.injEq, Prod.mk.injEq] at h
      obtain ⟨rfl, rfl⟩ := h
      rw [stored, hrow, Option.map_some]
  | none =>
    rw [hrow] at h
    dsimp only at h ⊢
    rw [admitNew] at h ⊢
    split at h
    · simp [answered] at h
    rename_i hglobal
    rw [if_neg hglobal]
    split at h
    · simp [answered] at h
    rename_i hreserve
    rw [if_neg hreserve]
    split at h
    · simp [answered] at h
    rename_i hchat
    rw [if_neg hchat]
    simp only [answered, Option.some.injEq, Prod.mk.injEq] at h
    obtain ⟨rfl, rfl⟩ := h
    rw [stored, (sets_grant now r _).1, Option.map_some]

theorem answered_activate {ttlMs : Nat}
    (h : answered (.activate j ttlMs : Request κ χ ι) (.activate (activate now j ttlMs k).2) =
      some (j', state)) : stored (activate now j ttlMs k).1 j' = some state := by
  rw [activate] at h ⊢
  cases hrow : field k.globalMetadata j with
  | none => simp [hrow, answered] at h
  | some m =>
    rw [hrow] at h
    dsimp only at h ⊢
    split at h
    · rename_i hexpired
      rw [if_pos hexpired]
      simp only [answered, Option.some.injEq, Prod.mk.injEq] at h
      obtain ⟨rfl, rfl⟩ := h
      exact stored_extendRows _ _ _ _ _
    rename_i hlive
    rw [if_neg hlive]
    split at h
    · rename_i hobservation
      rw [if_pos hobservation]
      simp only [answered, Option.some.injEq, Prod.mk.injEq] at h
      obtain ⟨rfl, rfl⟩ := h
      rw [stored, hrow, Option.map_some, hobservation]
    rename_i hobservation
    rw [if_neg hobservation]
    split at h
    · simp [answered] at h
    rename_i hheld
    rw [if_neg hheld]
    split at h
    · rename_i hactionable
      rw [if_pos hactionable]
      simp only [answered, Option.some.injEq, Prod.mk.injEq] at h
      obtain ⟨rfl, rfl⟩ := h
      rw [stored, hrow, Option.map_some, hactionable]
    · rename_i hactionable
      rw [if_neg hactionable]
      simp only [answered, Option.some.injEq, Prod.mk.injEq] at h
      obtain ⟨rfl, rfl⟩ := h
      exact stored_setRow _ _ _

theorem answered_suppress {c : χ} {n ttlMs : Nat}
    (h : answered (.suppress j c n ttlMs : Request κ χ ι)
      (.suppress (suppress now j c n ttlMs k).2) = some (j', state)) :
    stored (suppress now j c n ttlMs k).1 j' = some state := by
  rw [suppress] at h ⊢
  generalize ((scoredUpTo k.globalExpiry now ADMISSION_CLEANUP_BATCH_SIZE).filter fun expiredJobId =>
    decide (expiredJobId ≠ j)).foldl dropExpired k = mid at h ⊢
  cases hrow : field mid.globalMetadata j with
  | none =>
    rw [hrow] at h
    simp only [answered, Option.some.injEq, Prod.mk.injEq] at h
    obtain ⟨rfl, rfl⟩ := h
    exact stored_extendRows _ _ _ _ _
  | some m =>
    rw [hrow] at h
    dsimp only at h ⊢
    split at h
    · simp [answered] at h
    rename_i hsame
    rw [if_neg hsame]
    simp only [answered, Option.some.injEq, Prod.mk.injEq] at h
    obtain ⟨rfl, rfl⟩ := h
    exact stored_extendRows _ _ _ _ _

omit [DecidableEq χ] in
theorem answered_resolveState
    (h : answered (.resolveState j : Request κ χ ι) (.resolveState (resolveState now j k)) =
      some (j', state)) : stored k j' = some state := by
  rw [resolveState] at h
  cases hrow : field k.globalMetadata j with
  | none => simp [hrow, answered] at h
  | some m =>
    rw [hrow] at h
    dsimp only at h
    split at h
    · simp [answered] at h
    · simp only [answered, Option.some.injEq, Prod.mk.injEq] at h
      obtain ⟨rfl, rfl⟩ := h
      rw [stored, hrow, Option.map_some]

variable [DecidableEq ι]

theorem wrote_recordLogical (j : κ) (c : χ) (phase : Phase) (outcome : String) (identity : ι)
    (hp : Paired k) :
    Wrote now (.recordLogical j c phase outcome identity)
      (.recordLogical (recordLogical now j c phase outcome identity k).2) k
      (recordLogical now j c phase outcome identity k).1 := by
  rw [recordLogical]
  cases hrow : field k.globalMetadata j with
  | none => exact .nothing fun _ => ⟨rfl, rfl⟩
  | some m =>
    obtain ⟨s, hs⟩ := hp.score hrow
    dsimp only
    split
    · exact .nothing fun _ => ⟨rfl, rfl⟩
    obtain ⟨logical, heq⟩ := claimPhase_eq now phase outcome identity
      (if phase = .terminal then finish j c m k else k)
    rw [heq]
    split
    · exact .observed j m s s hrow hs (le_refl s) (sets_finish hs c)
    · exact .nothing fun _ => ⟨rfl, rfl⟩

/-- One call: what has expired goes, and at most one row is written. -/
theorem wrote_step {d : Nat} (hd : Deadlines d k) (hp : Paired k) (request : Request κ χ ι) :
    ∃ mid, Cleaned now k mid ∧
      Wrote now request (step now request k).2 mid (step now request k).1 := by
  have hpurge := cleaned_purge hd now
  have hp' := hp.cleaned hpurge
  cases request with
  | reserve r =>
    obtain ⟨mid, hmid, hwrote⟩ := wrote_reserve (ι := ι) r hp'
    exact ⟨mid, hpurge.trans hmid, hwrote⟩
  | activate j ttlMs => exact ⟨_, hpurge, wrote_activate j ttlMs hp'⟩
  | suppress j c n ttlMs =>
    obtain ⟨mid, hmid, hwrote⟩ := wrote_suppress (ι := ι) j c n ttlMs hp'
    exact ⟨mid, hpurge.trans hmid, hwrote⟩
  | resolveState j => exact ⟨_, hpurge, .nothing fun _ => ⟨rfl, rfl⟩⟩
  | release j c => exact ⟨_, hpurge, wrote_release j c hp'⟩
  | recordLogical j c phase outcome identity =>
    exact ⟨_, hpurge, wrote_recordLogical j c phase outcome identity hp'⟩

/-- The state that a call answers is the one that is stored afterwards. -/
theorem answered_step {request : Request κ χ ι}
    (h : answered request (step now request k).2 = some (j, state)) :
    stored (step now request k).1 j = some state := by
  cases request with
  | reserve r => exact answered_reserve h
  | activate j' ttlMs => exact answered_activate h
  | suppress j' c n ttlMs => exact answered_suppress h
  | resolveState j' => exact answered_resolveState h
  | release j' c => cases h
  | recordLogical j' c phase outcome identity => cases h

end Maxim.Moderation.CommercialOcr.Admission
