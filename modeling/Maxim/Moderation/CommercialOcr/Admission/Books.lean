import Maxim.Library.RankedSet
import Maxim.Moderation.CommercialOcr.Admission.Absorbing

/-!
# The books of the admission store

The weights and counters of the chats, and the global counter, against the
rows that hold capacity. A job is taken off the books before its row changes.
-/

namespace Maxim.Moderation.CommercialOcr.Admission

open Maxim.Library

variable {κ χ ι : Type} [LinearOrder κ] [DecidableEq χ]

def heldBy (m : Metadata χ) : Nat := if m.capacityHeld then m.imageUnits else 0

/-- The units of the rows with `capacityHeld = 1`. -/
def heldUnits (k : Keys κ χ ι) : Nat := total (fun _ m => heldBy m) k.globalMetadata

def storedWeights (k : Keys κ χ ι) (chat : χ) : Nat := total (fun _ w => w) (k.chatWeights chat)

/-- The row and the score of a job that holds capacity. -/
def holding (k : Keys κ χ ι) (j : κ) : Option (Metadata χ × Nat) :=
  match field k.globalMetadata j, field k.globalExpiry j with
  | some m, some s => if m.capacityHeld then some (m, s) else none
  | _, _ => none

variable {limits : CommercialOcrAdmissionLimits} {k k' : Keys κ χ ι} {now : Nat}

/-! ## Counters -/

theorem counter_extendTtl (ttlMs : Nat) (s : Slot Int) :
    counter (extendTtl now ttlMs s) = counter s := by
  rw [counter, content_extendTtl, counter]

theorem counter_decrementOrDelete {s : Slot Int} {units : Nat} (h : (units : Int) ≤ counter s) :
    counter (decrementOrDelete s units) = counter s - units := by
  rw [decrementOrDelete]
  split
  · rename_i hle
    rw [counter, content_none, Option.getD_none]
    omega
  · rfl

/-! ## The chats -/

/-- The weights belong to jobs that hold capacity, an unexpired one has its weight, and the counter
of a chat is the sum of its weights. -/
structure Books (limits : CommercialOcrAdmissionLimits) (now : Nat)
    (held : κ → Option (Metadata χ × Nat)) (k : Keys κ χ ι) : Prop where
  weights : ∀ c j w, field (k.chatWeights c) j = some w → ∃ m s, held j = some (m, s) ∧
    m.chatHash = c ∧ m.imageUnits = w ∧ field (k.chatExpiry c) j = some s
  scores : ∀ c j, field (k.chatWeights c) j = none → field (k.chatExpiry c) j = none
  live : ∀ j m s, held j = some (m, s) → 1 ≤ m.imageUnits ∧
    (now < s → field (k.chatWeights m.chatHash) j = some m.imageUnits)
  counted : ∀ c, counter (k.chatUnits c) = storedWeights k c
  bounded : ∀ c, counter (k.chatUnits c) ≤ limits.maxChatImageUnits

variable {held : κ → Option (Metadata χ × Nat)}

omit [DecidableEq χ] in
theorem Books.later {t : Nat} (h : Books limits t held k) (hle : t ≤ now) : Books limits now held k where
  weights := h.weights
  scores := h.scores
  live j m s hj := ⟨(h.live j m s hj).1, fun hs => (h.live j m s hj).2 (by omega)⟩
  counted := h.counted
  bounded := h.bounded

omit [DecidableEq χ] in
theorem Books.congr (h : Books limits now held k)
    (hexpiry : ∀ c j, field (k'.chatExpiry c) j = field (k.chatExpiry c) j)
    (hweights : ∀ c j, field (k'.chatWeights c) j = field (k.chatWeights c) j)
    (hunits : ∀ c, counter (k'.chatUnits c) = counter (k.chatUnits c))
    (hstored : ∀ c, storedWeights k' c = storedWeights k c) : Books limits now held k' where
  weights c j w hw := by
    rw [hweights] at hw
    simpa only [hexpiry] using h.weights c j w hw
  scores c j hw := by
    rw [hweights] at hw
    rw [hexpiry]
    exact h.scores c j hw
  live j m s hj := by
    rw [hweights]
    exact h.live j m s hj
  counted c := by rw [hunits, hstored, h.counted]
  bounded c := by
    rw [hunits]
    exact h.bounded c

/-- A job leaves a chat: its weight goes, and comes off the counter. -/
def Keys.leave (k : Keys κ χ ι) (chatHash : χ) (jobId : κ) : Keys κ χ ι :=
  (k.decrementChat chatHash jobId).leaveChat chatHash jobId

theorem leave_expiry (k : Keys κ χ ι) (c c' : χ) (j j' : κ) :
    field ((k.leave c j).chatExpiry c') j' =
      if c' = c ∧ j' = j then none else field (k.chatExpiry c') j' := by
  have hsame : (k.decrementChat c j).chatExpiry = k.chatExpiry := by
    rw [Keys.decrementChat]
    split <;> rfl
  rw [Keys.leave, Keys.leaveChat, hsame]
  by_cases hc : c' = c
  · subst hc
    simp only [put_same, field_delField, true_and]
  · simp [put_other, hc]

theorem leave_weights (k : Keys κ χ ι) (c c' : χ) (j j' : κ) :
    field ((k.leave c j).chatWeights c') j' =
      if c' = c ∧ j' = j then none else field (k.chatWeights c') j' := by
  have hsame : (k.decrementChat c j).chatWeights = k.chatWeights := by
    rw [Keys.decrementChat]
    split <;> rfl
  rw [Keys.leave, Keys.leaveChat, hsame]
  by_cases hc : c' = c
  · subst hc
    simp only [put_same, field_delField, true_and]
  · simp [put_other, hc]

/-- The counter of a chat stays the sum of its weights, whoever leaves. -/
theorem leave_counted (h : ∀ c, counter (k.chatUnits c) = storedWeights k c) (c : χ) (j : κ) (c' : χ) :
    counter ((k.leave c j).chatUnits c') = storedWeights (k.leave c j) c' ∧
      counter ((k.leave c j).chatUnits c') ≤ counter (k.chatUnits c') := by
  have hsame : (k.decrementChat c j).chatWeights = k.chatWeights := by
    rw [Keys.decrementChat]
    split <;> rfl
  have hunits : (k.leave c j).chatUnits = (k.decrementChat c j).chatUnits := rfl
  have hdel := total_delField (f := fun _ w => w) (k.chatWeights c) j
  by_cases hc : c' = c
  · subst hc
    have hstored : storedWeights (k.leave c' j) c' = total (fun _ w => w) (delField (k.chatWeights c') j) := by
      rw [storedWeights, Keys.leave, Keys.leaveChat, hsame]
      simp only [put_same]
    have hcount := h c'
    rw [storedWeights] at hcount
    rw [hunits, hstored, Keys.decrementChat]
    cases hw : field (k.chatWeights c') j with
    | none =>
      rw [hw, weight_none] at hdel
      simp only [Option.getD_none, Nat.lt_irrefl, if_false]
      omega
    | some w =>
      rw [hw, weight_some] at hdel
      simp only [Option.getD_some]
      split
      · simp only [put_same]
        rw [counter_decrementOrDelete (by omega)]
        omega
      · omega
  · have hstored : storedWeights (k.leave c j) c' = storedWeights k c' := by
      rw [storedWeights, Keys.leave, Keys.leaveChat, hsame]
      simp [put_other, hc, storedWeights]
    rw [hunits, hstored, ← h c', Keys.decrementChat]
    split
    · simp [put_other, hc]
    · exact ⟨rfl, le_refl _⟩

theorem Books.leave (h : Books limits now held k) {j : κ} {c : χ}
    (hj : ∀ m s, held j = some (m, s) → m.chatHash = c) :
    Books limits now (fun j' => if j' = j then none else held j') (k.leave c j) where
  weights c' j' w hw := by
    rw [leave_weights] at hw
    split at hw
    · cases hw
    · rename_i hne
      obtain ⟨m, s, hm, hc, hu, hs⟩ := h.weights c' j' w hw
      have hjj : j' ≠ j := by
        rintro rfl
        exact hne ⟨hc.symm.trans (hj m s hm), rfl⟩
      refine ⟨m, s, by simpa [hjj] using hm, hc, hu, ?_⟩
      rw [leave_expiry, if_neg hne]
      exact hs
  scores c' j' hw := by
    rw [leave_weights] at hw
    rw [leave_expiry]
    split at hw
    · rename_i heq
      rw [if_pos heq]
    · rename_i hne
      rw [if_neg hne]
      exact h.scores c' j' hw
  live j' m s hm := by
    split at hm
    · cases hm
    · rename_i hjj
      rw [leave_weights, if_neg fun heq => hjj heq.2]
      exact h.live j' m s hm
  counted c' := (leave_counted h.counted c j c').1
  bounded c' := (leave_counted h.counted c j c').2.trans (h.bounded c')

theorem Books.expire (h : Books limits now held k) {c : χ} {j : κ} {x : Nat}
    (hx : field (k.chatExpiry c) j = some x) (hle : x ≤ now) : Books limits now held (k.leave c j) where
  weights c' j' w hw := by
    rw [leave_weights] at hw
    split at hw
    · cases hw
    · rename_i hne
      obtain ⟨m, s, hm, hc, hu, hs⟩ := h.weights c' j' w hw
      refine ⟨m, s, hm, hc, hu, ?_⟩
      rw [leave_expiry, if_neg hne]
      exact hs
  scores c' j' hw := by
    rw [leave_weights] at hw
    rw [leave_expiry]
    split at hw
    · rename_i heq
      rw [if_pos heq]
    · rename_i hne
      rw [if_neg hne]
      exact h.scores c' j' hw
  live j' m s hm := by
    obtain ⟨hpos, hlive⟩ := h.live j' m s hm
    refine ⟨hpos, fun hs => ?_⟩
    rw [leave_weights, if_neg]
    · exact hlive hs
    rintro ⟨rfl, rfl⟩
    obtain ⟨m', s', hm', -, -, hs'⟩ := h.weights _ _ _ (hlive hs)
    rw [hm, Option.some.injEq, Prod.mk.injEq] at hm'
    rw [hx, ← hm'.2, Option.some.injEq] at hs'
    omega
  counted c' := (leave_counted h.counted c j c').1
  bounded c' := (leave_counted h.counted c j c').2.trans (h.bounded c')

/-! ## Jobs on and off the books -/

/-- The books and the global counter are those of the rows that hold capacity. -/
structure Ledger (limits : CommercialOcrAdmissionLimits) (now : Nat) (k : Keys κ χ ι) : Prop where
  books : Books limits now (holding k) k
  counted : counter k.globalUnits = heldUnits k
  bounded : counter k.globalUnits ≤ limits.maxGlobalImageUnits
  paired : Paired k

/-- The same with the row of one job left out: its units are given back already. -/
structure Off (limits : CommercialOcrAdmissionLimits) (now : Nat) (j : κ) (k : Keys κ χ ι) : Prop where
  books : Books limits now (fun j' => if j' = j then none else holding k j') k
  counted : counter k.globalUnits + weight (fun _ m => heldBy m) j (field k.globalMetadata j) =
    heldUnits k
  bounded : counter k.globalUnits ≤ limits.maxGlobalImageUnits
  paired : Paired k

variable {j : κ}

variable {m : Metadata χ}

omit [DecidableEq χ] in
theorem holding_eq_some {s : Nat} (h : holding k j = some (m, s)) :
    field k.globalMetadata j = some m ∧ field k.globalExpiry j = some s ∧ m.capacityHeld = true := by
  rw [holding] at h
  split at h
  · rename_i m' s' hm hs
    split at h
    · rename_i hheld
      rw [Option.some.injEq, Prod.mk.injEq] at h
      obtain ⟨rfl, rfl⟩ := h
      exact ⟨hm, hs, hheld⟩
    · cases h
  · cases h

omit [DecidableEq χ] in
theorem holding_of_held {s : Nat} (hm : field k.globalMetadata j = some m)
    (hs : field k.globalExpiry j = some s) (hheld : m.capacityHeld = true) :
    holding k j = some (m, s) := by
  rw [holding, hm, hs]
  exact if_pos hheld

omit [DecidableEq χ] in
theorem holding_congr (hm : field k'.globalMetadata j = field k.globalMetadata j)
    (hs : field k'.globalExpiry j = field k.globalExpiry j) : holding k' j = holding k j := by
  rw [holding, hm, hs, holding]

omit [DecidableEq χ] in
theorem Ledger.off (h : Ledger limits now k)
    (hj : ∀ m, field k.globalMetadata j = some m → m.capacityHeld = false) : Off limits now j k := by
  have hnone : holding k j = none := by
    rw [Option.eq_none_iff_forall_ne_some]
    rintro ⟨m, s⟩ hsome
    obtain ⟨hm, -, hheld⟩ := holding_eq_some hsome
    rw [hj m hm] at hheld
    cases hheld
  refine ⟨?_, ?_, h.bounded, h.paired⟩
  · have hsame : (fun j' => if j' = j then none else holding k j') = holding k := by
      funext j'
      split
      · rename_i heq
        rw [heq, hnone]
      · rfl
    rw [hsame]
    exact h.books
  · have hzero : weight (fun _ m => heldBy m) j (field k.globalMetadata j) = 0 := by
      cases hm : field k.globalMetadata j with
      | none => rfl
      | some m => simp [heldBy, hj m hm]
    rw [hzero, h.counted]
    simp

/-- A release of its capacity takes a job off the books. -/
theorem Ledger.release (h : Ledger limits now k)
    (hm : field k.globalMetadata j = some m) (hheld : m.capacityHeld = true) :
    Off limits now j (releaseCapacity j m.chatHash m.imageUnits k) := by
  obtain ⟨s, hs⟩ := h.paired.score hm
  have hhold := holding_of_held hm hs hheld
  have hmeta := releaseCapacity_metadata j m.chatHash m.imageUnits k
  have hexpiry := releaseCapacity_expiry j m.chatHash m.imageUnits k
  have hweight := weight_le_total (f := fun _ m => heldBy m) k.globalMetadata j
  rw [hm, weight_some, heldBy, if_pos hheld] at hweight
  have hcount := h.counted
  rw [heldUnits] at hcount
  have hunits : counter (releaseCapacity j m.chatHash m.imageUnits k).globalUnits =
      counter k.globalUnits - m.imageUnits := by
    have hglobal : (releaseCapacity j m.chatHash m.imageUnits k).globalUnits =
        decrementOrDelete k.globalUnits m.imageUnits := by
      rw [releaseCapacity, Keys.leaveChat, Keys.decrementChat]
      split <;> rfl
    rw [hglobal]
    exact counter_decrementOrDelete (by omega)
  have hbounded := h.bounded
  refine ⟨?_, ?_, by rw [hunits]; omega, fun j' => by rw [hmeta, hexpiry, h.paired j']⟩
  · have hsame : holding (releaseCapacity j m.chatHash m.imageUnits k) = holding k := by
      funext j'
      exact holding_congr (by rw [hmeta]) (by rw [hexpiry])
    have hbooks : Books limits now (holding k)
        { k with globalUnits := decrementOrDelete k.globalUnits m.imageUnits } :=
      h.books.congr (fun _ _ => rfl) (fun _ _ => rfl) (fun _ => rfl) fun _ => rfl
    rw [hsame]
    refine hbooks.leave fun m' s' hm' => ?_
    rw [hhold, Option.some.injEq, Prod.mk.injEq] at hm'
    rw [hm'.1]
  · rw [hunits, heldUnits, hmeta, hm, weight_some, heldBy, if_pos hheld, ← hcount]
    omega

theorem Ledger.releaseHeld (h : Ledger limits now k)
    (hm : field k.globalMetadata j = some m) : Off limits now j (releaseHeld j m.chatHash m k) := by
  rw [Admission.releaseHeld]
  split
  · rename_i hheld
    exact h.release hm hheld
  · rename_i hfree
    refine h.off fun m' hm' => ?_
    rw [hm, Option.some.injEq] at hm'
    rw [← hm']
    simpa using hfree

omit [DecidableEq χ] in
theorem Off.dropRow (h : Off limits now j k) : Ledger limits now (k.dropRow j) := by
  have hdel := total_delField (f := fun _ m => heldBy m) k.globalMetadata j
  have hcount := h.counted
  rw [heldUnits] at hcount
  refine ⟨?_, ?_, h.bounded, fun j' => ?_⟩
  · have hsame : holding (k.dropRow j) = fun j' => if j' = j then none else holding k j' := by
      funext j'
      rw [holding, Keys.dropRow, field_delField, field_delField]
      by_cases hj : j' = j
      · simp [hj]
      · rw [if_neg hj, if_neg hj, if_neg hj, holding]
    rw [hsame]
    exact h.books.congr (fun _ _ => rfl) (fun _ _ => rfl) (fun _ => rfl) fun _ => rfl
  · have hheld : heldUnits (k.dropRow j) =
        total (fun _ m => heldBy m) (delField k.globalMetadata j) := rfl
    have hunits : (k.dropRow j).globalUnits = k.globalUnits := rfl
    rw [hheld, hunits]
    omega
  · rw [Keys.dropRow, field_delField, field_delField]
    split
    · rfl
    · exact h.paired j'

/-- The counters and the keys of the chats are the same. -/
structure SameBooks (k k' : Keys κ χ ι) : Prop where
  units : k'.globalUnits = k.globalUnits
  chatExpiry : k'.chatExpiry = k.chatExpiry
  chatWeights : k'.chatWeights = k.chatWeights
  chatUnits : k'.chatUnits = k.chatUnits

omit [DecidableEq χ] in
theorem SameBooks.books (h : SameBooks k k') (hb : Books limits now held k) :
    Books limits now held k' :=
  hb.congr (fun _ _ => by rw [h.chatExpiry]) (fun _ _ => by rw [h.chatWeights])
    (fun _ => by rw [h.chatUnits]) fun _ => by rw [storedWeights, h.chatWeights, storedWeights]

omit [DecidableEq χ] in
theorem Off.setRow (h : Off limits now j k) (hfree : m.capacityHeld = false) {s : Nat}
    (hsets : Sets k k' j m s) (hsame : SameBooks k k')
    (htotal : heldUnits k' = total (fun _ m => heldBy m) (setField k.globalMetadata j m)) :
    Ledger limits now k' := by
  have hset := total_setField (f := fun _ m => heldBy m) k.globalMetadata j m
  have hcount := h.counted
  have hzero : heldBy m = 0 := by simp [heldBy, hfree]
  rw [heldUnits] at hcount
  refine ⟨?_, ?_, ?_, h.paired.sets hsets⟩
  · have hholding : holding k' = fun j' => if j' = j then none else holding k j' := by
      funext j'
      by_cases hj : j' = j
      · rw [hj, holding, hsets.1, hsets.2.1, if_pos rfl]
        simp [hfree]
      · rw [if_neg hj]
        exact holding_congr (hsets.2.2 j' hj).1 (hsets.2.2 j' hj).2
    rw [hholding]
    exact hsame.books h.books
  · rw [htotal, hsame.units]
    omega
  · rw [hsame.units]
    exact h.bounded

omit [DecidableEq χ] in
theorem Ledger.congr (h : Ledger limits now k) (hrows : ∀ j, SameRow k k' j)
    (hunits : counter k'.globalUnits = counter k.globalUnits) (htotal : heldUnits k' = heldUnits k)
    (hbooks : Books limits now (holding k) k') : Ledger limits now k' where
  books := by
    have hsame : holding k' = holding k := funext fun j => holding_congr (hrows j).1 (hrows j).2
    rwa [hsame]
  counted := by rw [hunits, htotal, h.counted]
  bounded := by
    rw [hunits]
    exact h.bounded
  paired j := by rw [(hrows j).1, (hrows j).2, h.paired j]

/-! ## The scripts -/

theorem Ledger.dropExpired (h : Ledger limits now k) (j : κ) : Ledger limits now (dropExpired k j) := by
  rw [Admission.dropExpired]
  refine Off.dropRow ?_
  cases hm : field k.globalMetadata j with
  | none => exact h.off fun m hsome => by rw [hm] at hsome; cases hsome
  | some m =>
    dsimp only
    split
    · rename_i hheld
      exact h.release hm hheld.1
    · rename_i hfree
      refine h.off fun m' hm' => ?_
      rw [hm, Option.some.injEq] at hm'
      subst hm'
      by_contra hheld
      rw [Bool.not_eq_false] at hheld
      obtain ⟨s, hs⟩ := h.paired.score hm
      have hpos := (h.books.live j m s (holding_of_held hm hs hheld)).1
      exact hfree ⟨hheld, hpos⟩

theorem Ledger.foldl_dropExpired (h : Ledger limits now k) (l : List κ) :
    Ledger limits now (l.foldl Admission.dropExpired k) := by
  induction l generalizing k with
  | nil => exact h
  | cons j l ih => exact ih (h.dropExpired j)

theorem Ledger.foldl_dropExpiredWeight (h : Ledger limits now k) (c : χ) (l : List κ) (hl : l.Nodup)
    (hscores : ∀ j ∈ l, ∃ x ≤ now, field (k.chatExpiry c) j = some x) :
    Ledger limits now (l.foldl (dropExpiredWeight c) k) := by
  induction l generalizing k with
  | nil => exact h
  | cons j l ih =>
    obtain ⟨x, hle, hx⟩ := hscores j List.mem_cons_self
    have hrows := decrementChat_rows k c j
    have hglobal : (k.leave c j).globalUnits = k.globalUnits := by
      rw [Keys.leave, Keys.leaveChat, Keys.decrementChat]
      split <;> rfl
    have hmeta : (k.leave c j).globalMetadata = k.globalMetadata := hrows.1
    refine ih (k := k.leave c j) (h.congr (fun j' => ⟨by rw [hmeta], ?_⟩) (by rw [hglobal])
      (by rw [heldUnits, hmeta, heldUnits]) (h.books.expire hx hle)) (List.nodup_cons.mp hl).2 ?_
    · exact congrArg (fun t => field t j') hrows.2
    · intro j' hj'
      obtain ⟨x', hle', hx'⟩ := hscores j' (List.mem_cons_of_mem _ hj')
      refine ⟨x', hle', ?_⟩
      rw [leave_expiry, if_neg]
      · exact hx'
      · rintro ⟨-, rfl⟩
        exact (List.nodup_cons.mp hl).1 hj'

theorem Ledger.cleanGlobal (h : Ledger limits now k) (now' : Nat) :
    Ledger limits now (cleanGlobal now' k) := h.foldl_dropExpired _

theorem Ledger.cleanChat (h : Ledger limits now k) (c : χ) : Ledger limits now (cleanChat now c k) :=
  h.foldl_dropExpiredWeight c _ (scoredUpTo_nodup _ _ _) fun _ hj => mem_scoredUpTo hj

theorem Ledger.extendAll (h : Ledger limits now k) (ttlMs : Nat) (c : χ) :
    Ledger limits now (extendAll now ttlMs c k) := by
  refine h.congr (fun _ => ⟨field_extendTtl _ _ _ _, field_extendTtl _ _ _ _⟩)
    (counter_extendTtl _ _) (total_extendTtl _ _ _) (h.books.congr (fun c' j => ?_) (fun c' j => ?_)
      (fun c' => ?_) fun c' => ?_)
  · exact apply_put (f := fun s => field s j) (fun s => field_extendTtl now ttlMs s j) k.chatExpiry c c'
  · exact apply_put (f := fun s => field s j) (fun s => field_extendTtl now ttlMs s j) k.chatWeights c c'
  · exact apply_put (counter_extendTtl ttlMs) k.chatUnits c c'
  · exact apply_put (total_extendTtl now ttlMs) k.chatWeights c c'

theorem Ledger.tidy (h : Ledger limits now k) (r : Reservation κ χ) : Ledger limits now (tidy now r k) :=
  ((h.cleanGlobal now).cleanChat r.chatHash).extendAll _ r.chatHash

theorem Ledger.finish (h : Ledger limits now k)
    (hm : field k.globalMetadata j = some m) : Ledger limits now (finish j m.chatHash m k) := by
  have hoff := h.releaseHeld hm
  obtain ⟨s, hs⟩ := h.paired.score hm
  have hrows := releaseHeld_rows j m.chatHash m k
  have hsets : Sets (Admission.releaseHeld j m.chatHash m k) (Admission.finish j m.chatHash m k) j
      m.observed s := sets_setRow rfl rfl (by rw [hrows.2, hs]) _
  exact hoff.setRow rfl hsets ⟨rfl, rfl, rfl, rfl⟩ rfl

/-- A job that holds nothing gets a weight. -/
theorem Books.admitNew (h : Books limits now held k) {c : χ} {s : Nat}
    (hnone : held j = none) (hchat : m.chatHash = c) (hpos : 1 ≤ m.imageUnits)
    (hroom : counter (k.chatUnits c) + m.imageUnits ≤ limits.maxChatImageUnits)
    (hexpiry : ∀ c' j', field (k'.chatExpiry c') j' =
      if c' = c ∧ j' = j then some s else field (k.chatExpiry c') j')
    (hweights : ∀ c' j', field (k'.chatWeights c') j' =
      if c' = c ∧ j' = j then some m.imageUnits else field (k.chatWeights c') j')
    (hunits : ∀ c', counter (k'.chatUnits c') =
      counter (k.chatUnits c') + if c' = c then m.imageUnits else 0)
    (hstored : ∀ c', storedWeights k' c' =
      storedWeights k c' + if c' = c then m.imageUnits else 0) :
    Books limits now (fun j' => if j' = j then some (m, s) else held j') k' where
  weights c' j' w hw := by
    rw [hweights] at hw
    split at hw
    · rename_i heq
      rw [Option.some.injEq] at hw
      refine ⟨m, s, if_pos heq.2, hchat.trans heq.1.symm, hw, ?_⟩
      rw [hexpiry, if_pos heq]
    · rename_i hne
      obtain ⟨m', s', hm, hc, hu, hs⟩ := h.weights c' j' w hw
      have hjj : j' ≠ j := by
        rintro rfl
        rw [hnone] at hm
        cases hm
      exact ⟨m', s', by rw [if_neg hjj]; exact hm, hc, hu, by rw [hexpiry, if_neg hne]; exact hs⟩
  scores c' j' hw := by
    rw [hweights] at hw
    rw [hexpiry]
    split at hw
    · cases hw
    · rename_i hne
      rw [if_neg hne]
      exact h.scores c' j' hw
  live j' m' s' hm := by
    split at hm
    · rename_i heq
      rw [Option.some.injEq, Prod.mk.injEq] at hm
      obtain ⟨rfl, rfl⟩ := hm
      refine ⟨hpos, fun _ => ?_⟩
      rw [hweights, if_pos ⟨hchat, heq⟩]
    · rename_i hjj
      rw [hweights, if_neg fun heq => hjj heq.2]
      exact h.live j' m' s' hm
  counted c' := by
    rw [hunits, hstored, h.counted]
    push_cast
    rfl
  bounded c' := by
    rw [hunits]
    have hold := h.bounded c'
    split
    · rename_i heq
      rw [heq]
      exact hroom
    · simpa using hold

omit [DecidableEq χ] in
theorem Sets.holding {s : Nat} (h : Sets k k' j m s) (hheld : m.capacityHeld = true) :
    holding k' = fun j' => if j' = j then some (m, s) else holding k j' := by
  funext j'
  split
  · rename_i heq
    rw [heq]
    exact holding_of_held h.1 h.2.1 hheld
  · rename_i hne
    exact holding_congr (h.2.2 j' hne).1 (h.2.2 j' hne).2

theorem field_put_setField (t : Slots χ (Table κ Nat)) (c c' : χ) (j j' : κ) (ttlMs v : Nat) :
    field (put t c (extendTtl now ttlMs (setField (t c) j v)) c') j' =
      if c' = c ∧ j' = j then some v else field (t c') j' := by
  rw [put_apply]
  by_cases hc : c' = c
  · rw [if_pos hc, field_extendTtl, field_setField, hc]
    simp
  · rw [if_neg hc, if_neg fun h => hc h.1]

/-- A job without a row is admitted when the limits allow it. -/
theorem Ledger.grant (h : Ledger limits now k) {r : Reservation κ χ}
    (hcount : 1 ≤ r.imageCount) (hrow : field k.globalMetadata r.jobId = none)
    (hglobal : counter k.globalUnits + r.imageCount ≤ limits.maxGlobalImageUnits)
    (hchat : counter (k.chatUnits r.chatHash) + r.imageCount ≤ limits.maxChatImageUnits) :
    Ledger limits now (grant now r k) := by
  have hnone : holding k r.jobId = none := by
    rw [Admission.holding, hrow]
  have hweight : field (k.chatWeights r.chatHash) r.jobId = none := by
    rw [Option.eq_none_iff_forall_ne_some]
    intro w hw
    obtain ⟨m, s, hm, -⟩ := h.books.weights _ _ _ hw
    rw [hnone] at hm
    cases hm
  have hsets := sets_grant now r k
  refine ⟨?_, ?_, hglobal, h.paired.sets hsets⟩
  · rw [hsets.holding rfl]
    refine h.books.admitNew hnone rfl hcount hchat (fun c' j' => field_put_setField _ _ _ _ _ _ _)
      (fun c' j' => field_put_setField _ _ _ _ _ _ _) (fun c' => ?_) fun c' => ?_
    · show counter (put k.chatUnits r.chatHash (cell (counter (k.chatUnits r.chatHash) +
        r.imageCount) _) c') = counter (k.chatUnits c') + _
      rw [put_apply]
      split
      · rename_i heq
        rw [heq]
        rfl
      · simp
    · show total _ (put k.chatWeights r.chatHash (extendTtl now _ (setField
        (k.chatWeights r.chatHash) r.jobId r.imageCount)) c') = total _ (k.chatWeights c') + _
      rw [put_apply]
      split
      · rename_i heq
        have hset := total_setField (f := fun _ w => w) (k.chatWeights r.chatHash) r.jobId r.imageCount
        rw [hweight, weight_none, Nat.zero_add] at hset
        rw [total_extendTtl, hset, heq]
      · rfl
  · have hset := total_setField (f := fun _ m => heldBy m) k.globalMetadata r.jobId
      (⟨r.chatHash, r.imageCount, r.desiredState, true⟩ : Metadata χ)
    rw [hrow, weight_none, Nat.zero_add] at hset
    have hheld : heldUnits (Admission.grant now r k) = heldUnits k + r.imageCount := by
      rw [heldUnits, Admission.grant, total_extendTtl, hset]
      rfl
    have hcounter : counter (Admission.grant now r k).globalUnits =
        counter k.globalUnits + r.imageCount := rfl
    rw [hheld, hcounter, h.counted]
    push_cast
    rfl

end Maxim.Moderation.CommercialOcr.Admission
