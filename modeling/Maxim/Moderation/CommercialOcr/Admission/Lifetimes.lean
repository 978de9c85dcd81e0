import Maxim.Moderation.CommercialOcr.Admission.Scripts

/-!
# Lifetimes of the keys of the admission store

The metadata and the scores always expire together, never before a score, and
the keys of a chat do the same among themselves, no later than the rows.
-/

namespace Maxim.Moderation.CommercialOcr.Admission

open Maxim.Library

variable {κ χ ι : Type}

/-! ## Lifetimes -/

theorem expiresAt_decrementOrDelete {s : Slot Int} {d : Nat} (h : ExpiresAt d s) (units : Nat) :
    ExpiresAt d (decrementOrDelete s units) := by
  intro c hc
  rw [decrementOrDelete] at hc
  split at hc
  · simp at hc
  · rename_i hpos
    rw [Option.some.injEq] at hc
    cases s with
    | none => simp [counter] at hpos
    | some c₀ =>
      rw [← hc]
      exact h c₀ rfl

variable [LinearOrder κ] [DecidableEq χ]

/-- The keys of one chat expire together, no earlier than their scores. -/
structure ChatDeadline (d : Nat) (chatExpiry chatWeights : Slot (Table κ Nat))
    (chatUnits : Slot Int) : Prop where
  expiry : ExpiresAt d chatExpiry
  weights : ExpiresAt d chatWeights
  units : ExpiresAt d chatUnits
  scores : ∀ j s, field chatExpiry j = some s → s ≤ d

def ChatDeadlines (d : Nat) (k : Keys κ χ ι) : Prop :=
  ∀ chat, ∃ x ≤ d, ChatDeadline x (k.chatExpiry chat) (k.chatWeights chat) (k.chatUnits chat)

/-- The rows expire together, no earlier than their scores; all other keys expire no later. -/
structure Deadlines (d : Nat) (k : Keys κ χ ι) : Prop where
  expiry : ExpiresAt d k.globalExpiry
  metadata : ExpiresAt d k.globalMetadata
  scores : ∀ j s, field k.globalExpiry j = some s → s ≤ d
  units : ∃ x ≤ d, ExpiresAt x k.globalUnits
  chats : ChatDeadlines d k

/-- The same before a script has extended the rows. -/
structure Loose (b : Nat) (k : Keys κ χ ι) : Prop where
  expiry : Within b k.globalExpiry
  metadata : Within b k.globalMetadata
  scores : ∀ j s, field k.globalExpiry j = some s → s ≤ b
  units : ∃ x ≤ b, ExpiresAt x k.globalUnits
  chats : ChatDeadlines b k

variable {k : Keys κ χ ι} {d b now : Nat}

omit [DecidableEq χ] in
theorem ChatDeadlines.mono (h : ChatDeadlines d k) (hle : d ≤ b) : ChatDeadlines b k := by
  intro chat
  obtain ⟨x, hx, hc⟩ := h chat
  exact ⟨x, hx.trans hle, hc⟩

omit [DecidableEq χ] in
theorem Deadlines.loose (h : Deadlines d k) (hle : d ≤ b) : Loose b k where
  expiry := h.expiry.within hle
  metadata := h.metadata.within hle
  scores j s hs := (h.scores j s hs).trans hle
  units := by
    obtain ⟨x, hx, hu⟩ := h.units
    exact ⟨x, hx.trans hle, hu⟩
  chats := h.chats.mono hle

omit [DecidableEq χ] in
theorem Loose.setRow (h : Loose b k) (j : κ) (m : Metadata χ) : Loose b (k.setRow j m) :=
  ⟨h.expiry, h.metadata.setField j m, h.scores, h.units, h.chats⟩

omit [DecidableEq χ] in
theorem Loose.setScore (h : Loose b k) (j : κ) {s : Nat} (hs : s ≤ b) : Loose b (k.setScore j s) := by
  refine ⟨h.expiry.setField j s, h.metadata, fun j' s' hs' => ?_, h.units, h.chats⟩
  rw [Keys.setScore, field_setField] at hs'
  split at hs'
  · rw [Option.some.injEq] at hs'
    omega
  · exact h.scores j' s' hs'

omit [DecidableEq χ] in
theorem Loose.extendRows {ttlMs : Nat} (h : Loose (now + ttlMs) k) (hpos : 0 < ttlMs) :
    Deadlines (now + ttlMs) (k.extendRows now ttlMs) where
  expiry := expiresAt_extendTtl hpos h.expiry
  metadata := expiresAt_extendTtl hpos h.metadata
  scores j s hs := h.scores j s (by rwa [Keys.extendRows, field_extendTtl] at hs)
  units := h.units
  chats := h.chats

omit [DecidableEq χ] in
theorem Deadlines.setRow (h : Deadlines d k) {j : κ} (hrow : (field k.globalMetadata j).isSome = true)
    (m : Metadata χ) : Deadlines d (k.setRow j m) := by
  refine ⟨h.expiry, h.metadata.setField ?_ j m, h.scores, h.units, h.chats⟩
  intro hnone
  simp [hnone] at hrow

omit [DecidableEq χ] in
theorem Deadlines.dropRow (h : Deadlines d k) (j : κ) : Deadlines d (k.dropRow j) := by
  refine ⟨h.expiry.delField j, h.metadata.delField j, fun j' s hs => ?_, h.units, h.chats⟩
  rw [Keys.dropRow, field_delField] at hs
  split at hs
  · simp at hs
  · exact h.scores j' s hs

/-! ## What keeps the lifetimes -/

theorem Deadlines.leaveChat (h : Deadlines d k) (c : χ) (j : κ) : Deadlines d (k.leaveChat c j) := by
  refine ⟨h.expiry, h.metadata, h.scores, h.units, fun chat => ?_⟩
  obtain ⟨x, hx, hc⟩ := h.chats chat
  refine ⟨x, hx, ?_⟩
  by_cases heq : chat = c
  · subst heq
    simp only [Keys.leaveChat, put_same]
    refine ⟨hc.expiry.delField j, hc.weights.delField j, hc.units, fun j' s hs => ?_⟩
    rw [field_delField] at hs
    split at hs
    · simp at hs
    · exact hc.scores j' s hs
  · simpa only [Keys.leaveChat, put_other _ heq] using hc

theorem Deadlines.decrementChat (h : Deadlines d k) (c : χ) (j : κ) :
    Deadlines d (k.decrementChat c j) := by
  rw [Keys.decrementChat]
  split
  · refine ⟨h.expiry, h.metadata, h.scores, h.units, fun chat => ?_⟩
    obtain ⟨x, hx, hc⟩ := h.chats chat
    refine ⟨x, hx, ?_⟩
    by_cases heq : chat = c
    · subst heq
      simp only [put_same]
      exact ⟨hc.expiry, hc.weights, expiresAt_decrementOrDelete hc.units _, hc.scores⟩
    · simpa only [put_other _ heq] using hc
  · exact h

omit [DecidableEq χ] in
theorem Deadlines.decrement (h : Deadlines d k) (units : Nat) :
    Deadlines d { k with globalUnits := decrementOrDelete k.globalUnits units } := by
  refine ⟨h.expiry, h.metadata, h.scores, ?_, h.chats⟩
  obtain ⟨x, hx, hu⟩ := h.units
  exact ⟨x, hx, expiresAt_decrementOrDelete hu units⟩

theorem Deadlines.releaseCapacity (h : Deadlines d k) (j : κ) (c : χ) (units : Nat) :
    Deadlines d (releaseCapacity j c units k) :=
  ((h.decrement units).decrementChat c j).leaveChat c j

theorem Deadlines.dropExpired (h : Deadlines d k) (j : κ) : Deadlines d (dropExpired k j) := by
  rw [Admission.dropExpired]
  refine Deadlines.dropRow ?_ j
  split
  · split
    · exact h.releaseCapacity _ _ _
    · exact h
  · exact h

theorem Deadlines.dropExpiredWeight (h : Deadlines d k) (c : χ) (j : κ) :
    Deadlines d (dropExpiredWeight c k j) := (h.decrementChat c j).leaveChat c j

omit [DecidableEq χ] in
theorem Deadlines.foldl {f : Keys κ χ ι → κ → Keys κ χ ι} (h : Deadlines d k)
    (hf : ∀ k j, Deadlines d k → Deadlines d (f k j)) (l : List κ) :
    Deadlines d (l.foldl f k) := by
  induction l generalizing k with
  | nil => exact h
  | cons j l ih => exact ih (hf k j h)

theorem Deadlines.cleanGlobal (h : Deadlines d k) (now : Nat) :
    Deadlines d (cleanGlobal now k) := h.foldl (fun _ j h => h.dropExpired j) _

theorem Deadlines.cleanChat (h : Deadlines d k) (now : Nat) (c : χ) :
    Deadlines d (cleanChat now c k) := h.foldl (fun _ j h => h.dropExpiredWeight c j) _

theorem Deadlines.extendAll {ttlMs : Nat} (h : Deadlines d k) (hle : d ≤ now + ttlMs)
    (hpos : 0 < ttlMs) (c : χ) : Deadlines (now + ttlMs) (extendAll now ttlMs c k) := by
  have hrows := (h.loose hle).extendRows hpos
  refine ⟨hrows.expiry, hrows.metadata, hrows.scores, ?_, fun chat => ?_⟩
  · obtain ⟨x, hx, hu⟩ := h.units
    exact ⟨_, le_refl _, expiresAt_extendTtl hpos (hu.within (hx.trans hle))⟩
  · obtain ⟨x, hx, hc⟩ := h.chats chat
    have hxle := hx.trans hle
    by_cases heq : chat = c
    · subst heq
      simp only [Admission.extendAll, put_same]
      refine ⟨_, le_refl _, expiresAt_extendTtl hpos (hc.expiry.within hxle),
        expiresAt_extendTtl hpos (hc.weights.within hxle),
        expiresAt_extendTtl hpos (hc.units.within hxle), fun j s hs => ?_⟩
      rw [field_extendTtl] at hs
      exact (hc.scores j s hs).trans hxle
    · simp only [Admission.extendAll, put_other _ heq]
      exact ⟨x, hxle, hc⟩

theorem Deadlines.tidy {r : Reservation κ χ} (h : Deadlines d k)
    (hle : d ≤ now + r.limits.reservationTtlMs * 2) (hpos : 0 < r.limits.reservationTtlMs) :
    Deadlines (now + r.limits.reservationTtlMs * 2) (tidy now r k) :=
  ((h.cleanGlobal now).cleanChat now r.chatHash).extendAll hle (by omega) r.chatHash

theorem Deadlines.admitNew {r : Reservation κ χ}
    (h : Deadlines (now + r.limits.reservationTtlMs * 2) k) (hpos : 0 < r.limits.reservationTtlMs) :
    Deadlines (now + r.limits.reservationTtlMs * 2) (admitNew now r k).1 := by
  have hscore : ∀ {t : Slot (Table κ Nat)}, (∀ j s, field t j = some s →
      s ≤ now + r.limits.reservationTtlMs * 2) → ∀ j s,
        field (extendTtl now (r.limits.reservationTtlMs * 2)
          (setField t r.jobId (now + r.limits.reservationTtlMs))) j = some s →
          s ≤ now + r.limits.reservationTtlMs * 2 := by
    intro t ht j s hs
    rw [field_extendTtl, field_setField] at hs
    split at hs
    · rw [Option.some.injEq] at hs
      omega
    · exact ht j s hs
  rw [Admission.admitNew]
  split
  · exact h
  split
  · exact h
  split
  · exact h
  refine ⟨expiresAt_extendTtl (by omega) ((h.expiry.within (le_refl _)).setField _ _),
    expiresAt_extendTtl (by omega) ((h.metadata.within (le_refl _)).setField _ _), hscore h.scores,
    ⟨_, le_refl _, expiresAt_cell _ _⟩, fun chat => ?_⟩
  obtain ⟨x, hx, hc⟩ := h.chats chat
  by_cases heq : chat = r.chatHash
  · subst heq
    simp only [grant, put_same]
    exact ⟨_, le_refl _, expiresAt_extendTtl (by omega) ((hc.expiry.within hx).setField _ _),
      expiresAt_extendTtl (by omega) ((hc.weights.within hx).setField _ _), expiresAt_cell _ _,
      hscore fun j s hs => (hc.scores j s hs).trans hx⟩
  · simp only [grant, put_other _ heq]
    exact ⟨x, hx, hc⟩

omit [DecidableEq χ] in
theorem Deadlines.purge (h : Deadlines d k) (now : Nat) : Deadlines d (k.purge now) where
  expiry := h.expiry.purge now
  metadata := h.metadata.purge now
  scores j s hs := h.scores j s (field_purge_eq_some hs)
  units := by
    obtain ⟨x, hx, hu⟩ := h.units
    exact ⟨x, hx, hu.purge now⟩
  chats chat := by
    obtain ⟨x, hx, hc⟩ := h.chats chat
    exact ⟨x, hx, hc.expiry.purge now, hc.weights.purge now, hc.units.purge now,
      fun j s hs => hc.scores j s (field_purge_eq_some hs)⟩

@[simp] theorem decrementChat_rows (k : Keys κ χ ι) (c : χ) (j : κ) :
    (k.decrementChat c j).globalMetadata = k.globalMetadata ∧
      (k.decrementChat c j).globalExpiry = k.globalExpiry := by
  rw [Keys.decrementChat]
  split <;> exact ⟨rfl, rfl⟩

@[simp] theorem releaseCapacity_metadata (j : κ) (c : χ) (units : Nat) (k : Keys κ χ ι) :
    (releaseCapacity j c units k).globalMetadata = k.globalMetadata :=
  (decrementChat_rows _ c j).1

@[simp] theorem releaseCapacity_expiry (j : κ) (c : χ) (units : Nat) (k : Keys κ χ ι) :
    (releaseCapacity j c units k).globalExpiry = k.globalExpiry :=
  (decrementChat_rows _ c j).2

def releaseHeld (j : κ) (c : χ) (m : Metadata χ) (k : Keys κ χ ι) : Keys κ χ ι :=
  if m.capacityHeld then releaseCapacity j c m.imageUnits k else k

theorem releaseHeld_rows (j : κ) (c : χ) (m : Metadata χ) (k : Keys κ χ ι) :
    (releaseHeld j c m k).globalMetadata = k.globalMetadata ∧
      (releaseHeld j c m k).globalExpiry = k.globalExpiry := by
  rw [releaseHeld]
  split
  · exact ⟨releaseCapacity_metadata j c _ k, releaseCapacity_expiry j c _ k⟩
  · exact ⟨rfl, rfl⟩

theorem Deadlines.releaseHeld (h : Deadlines d k) (j : κ) (c : χ) (m : Metadata χ) :
    Deadlines d (releaseHeld j c m k) := by
  rw [Admission.releaseHeld]
  split
  · exact h.releaseCapacity j c _
  · exact h

theorem Deadlines.finish (h : Deadlines d k) {j : κ} {m : Metadata χ}
    (hrow : field k.globalMetadata j = some m) (c : χ) : Deadlines d (finish j c m k) := by
  refine (h.releaseHeld j c m).setRow ?_ _
  rw [(releaseHeld_rows j c m k).1, hrow]
  rfl

/-- The keys of a store whose last call was at `now`. -/
def Dated (ttlMs now : Nat) (k : Keys κ χ ι) : Prop := ∃ d ≤ now + ttlMs, Deadlines d k

theorem dated_reserve {r : Reservation κ χ} (h : Dated (r.limits.reservationTtlMs * 2) now k)
    (hpos : 0 < r.limits.reservationTtlMs) :
    Dated (r.limits.reservationTtlMs * 2) now (reserve now r k).1 := by
  obtain ⟨d, hle, hd⟩ := h
  rw [reserve]
  split
  · exact ⟨d, hle, hd⟩
  have htidy := hd.tidy hle hpos
  dsimp only
  cases hrow : field (tidy now r k).globalMetadata r.jobId with
  | none => exact ⟨_, le_refl _, htidy.admitNew hpos⟩
  | some m =>
    refine ⟨_, le_refl _, ?_⟩
    dsimp only
    rw [again]
    split
    · exact htidy
    split
    · exact htidy.finish hrow m.chatHash
    · exact htidy

theorem dated_activate {j : κ} {ttlMs : Nat} (h : Dated (ttlMs * 2) now k) (hpos : 0 < ttlMs) :
    Dated (ttlMs * 2) now (activate now j ttlMs k).1 := by
  obtain ⟨d, hle, hd⟩ := h
  rw [activate]
  cases hrow : field k.globalMetadata j with
  | none => exact ⟨d, hle, hd⟩
  | some m =>
    dsimp only
    split
    · refine ⟨_, le_refl _, Loose.extendRows (Loose.setScore (Loose.setRow (Deadlines.loose
        (Deadlines.leaveChat ?_ _ _) hle) _ _) _ (by omega)) (by omega)⟩
      split
      · exact (hd.decrement _).decrementChat _ _
      · exact hd
    split
    · exact ⟨d, hle, hd⟩
    split
    · exact ⟨d, hle, hd⟩
    split
    · exact ⟨d, hle, hd⟩
    · exact ⟨d, hle, hd.setRow (by rw [hrow]; rfl) _⟩

theorem dated_suppress {j : κ} {c : χ} {n ttlMs : Nat} (h : Dated (ttlMs * 2) now k)
    (hpos : 0 < ttlMs) : Dated (ttlMs * 2) now (suppress now j c n ttlMs k).1 := by
  obtain ⟨d, hle, hd⟩ := h
  have hclean := hd.foldl (fun _ j h => h.dropExpired j) ((scoredUpTo k.globalExpiry now
    ADMISSION_CLEANUP_BATCH_SIZE).filter fun expiredJobId => decide (expiredJobId ≠ j))
  rw [suppress]
  generalize ((scoredUpTo k.globalExpiry now ADMISSION_CLEANUP_BATCH_SIZE).filter fun expiredJobId =>
    decide (expiredJobId ≠ j)).foldl dropExpired k = k' at hclean
  have hbury : ∀ {k'' : Keys κ χ ι} (m : Metadata χ), Deadlines d k'' →
      Deadlines (now + ttlMs * 2) (((k''.setRow j m).setScore j (max ((field
        (k''.setRow j m).globalExpiry j).getD 0) (now + ttlMs))).extendRows now (ttlMs * 2)) := by
    intro k'' m hk
    refine (((hk.loose hle).setRow j m).setScore j ?_).extendRows (by omega)
    cases hs : field (k''.setRow j m).globalExpiry j with
    | none => simp only [Option.getD_none]; omega
    | some s =>
      have hscore := hk.scores j s hs
      simp only [Option.getD_some]
      omega
  cases hrow : field k'.globalMetadata j with
  | none => exact ⟨_, le_refl _, hbury _ hclean⟩
  | some m =>
    dsimp only
    split
    · exact ⟨d, hle, hclean⟩
    · exact ⟨_, le_refl _, hbury _ (hclean.releaseHeld j c m)⟩

theorem dated_release {ttlMs : Nat} {j : κ} {c : χ} (h : Dated ttlMs now k) :
    Dated ttlMs now (release j c k).1 := by
  obtain ⟨d, hle, hd⟩ := h
  rw [release]
  cases hrow : field k.globalMetadata j with
  | none => exact ⟨d, hle, hd⟩
  | some m =>
    dsimp only
    split
    · exact ⟨d, hle, hd⟩
    · exact ⟨d, hle, hd.finish hrow c⟩

omit [LinearOrder κ] [DecidableEq χ] in
/-- A claim of a phase changes the logical identities alone. -/
theorem claimPhase_eq [DecidableEq ι] (now : Nat) (phase : Phase) (outcome : String) (identity : ι)
    (k : Keys κ χ ι) :
    ∃ logical, (claimPhase now phase outcome identity k).1 = { k with logical := logical } := by
  rw [claimPhase]
  split
  · exact ⟨k.logical, rfl⟩
  · exact ⟨_, rfl⟩

theorem dated_recordLogical [DecidableEq ι] {ttlMs : Nat} {j : κ} {c : χ} {phase : Phase}
    {outcome : String} {identity : ι} (h : Dated ttlMs now k) :
    Dated ttlMs now (recordLogical now j c phase outcome identity k).1 := by
  obtain ⟨d, hle, hd⟩ := h
  rw [recordLogical]
  cases hrow : field k.globalMetadata j with
  | none => exact ⟨d, hle, hd⟩
  | some m =>
    dsimp only
    split
    · exact ⟨d, hle, hd⟩
    obtain ⟨logical, heq⟩ := claimPhase_eq now phase outcome identity
      (if phase = .terminal then finish j c m k else k)
    have hfinished : Deadlines d (if phase = .terminal then finish j c m k else k) := by
      split
      · exact hd.finish hrow c
      · exact hd
    rw [heq]
    exact ⟨d, hle, hfinished.expiry, hfinished.metadata, hfinished.scores, hfinished.units,
      hfinished.chats⟩

end Maxim.Moderation.CommercialOcr.Admission
