import Maxim.Library.Paging

/-!
# The reserves of an outbox batch

Of the candidates of a poll a batch takes at most `take`. Candidates behind the
scan cursor come first, receipts have three quarters of the batch, recent
receipts a quarter of it, and the oldest of the receipts that have waited for a
minute another quarter. What one class leaves goes to the others.
-/

namespace Maxim.Webhook.OutboxBatch

open Maxim.Library

inductive WebhookStatus
  | received | queued | processed | duplicate | failed | noReplayHeld | cancelled | quarantined
  deriving DecidableEq, Repr

/-- What the selection reads of a row of `webhook_events` and of the query that found it. -/
structure WebhookEnqueueCandidate (ι π : Type) where
  id : ι
  status : WebhookStatus
  createdAt : Int
  normalizedPayload : π
  isRecentReceipt : Bool := false
  isBacklogScan : Bool := false
  isDeferredScopeScan : Bool := false
  deferredScopeOrder : Option Nat := none
  deriving DecidableEq, Repr

variable {ι π : Type} [LinearOrder ι]

namespace WebhookEnqueueCandidate

def isReceived (c : WebhookEnqueueCandidate ι π) : Bool := c.status == .received

/-- `compareCandidateSequence` orders by creation, then by id. -/
def sequence (c : WebhookEnqueueCandidate ι π) : Int ×ₗ ι := toLex (c.createdAt, c.id)

end WebhookEnqueueCandidate

/-! ## The selection -/

def AGED_RECEIPT_WAIT_MS : Int := 60000

/-- `RECEIVED_BATCH_SHARE` is 0.75. -/
def resolveReceivedTake (receivedCount take : Nat) : Nat :=
  if receivedCount = 0 then 0 else min receivedCount (max 1 ((3 * take + 3) / 4))

/-- `RECENT_RECEIPT_BATCH_SHARE` is 0.25. -/
def resolveRecentReceiptTake (take : Nat) : Nat := min take (max 1 ((take + 3) / 4))

def withoutIds (taken cs : List (WebhookEnqueueCandidate ι π)) : List (WebhookEnqueueCandidate ι π) :=
  cs.filter fun c => !(taken.map (·.id)).contains c.id

section Classes

variable (cs : List (WebhookEnqueueCandidate ι π)) (take : Nat) (now : Option Int)

def scanned : List (WebhookEnqueueCandidate ι π) := (cs.filter (·.isBacklogScan)).take take

def scannedReceipts : List (WebhookEnqueueCandidate ι π) := (scanned cs take).filter (·.isReceived)

def scannedRecovery : List (WebhookEnqueueCandidate ι π) := (scanned cs take).filter fun c => !c.isReceived

def unreserved : List (WebhookEnqueueCandidate ι π) := withoutIds (scanned cs take) cs

def recentReceipts : List (WebhookEnqueueCandidate ι π) :=
  (unreserved cs take).filter fun c => c.isReceived && c.isRecentReceipt

def foundBacklogReceipts : List (WebhookEnqueueCandidate ι π) :=
  (unreserved cs take).filter fun c => c.isReceived && !c.isRecentReceipt

/-- `AGED_RECEIPT_RESERVE_SHARE` is 0.25. -/
def agedReceipts (now : Int) : List (WebhookEnqueueCandidate ι π) :=
  firstRows (ByPosition (·.sequence)) (take / 4)
    ((foundBacklogReceipts cs take).filter fun c => AGED_RECEIPT_WAIT_MS ≤ now - c.createdAt)

/-- With a clock, the aged receipts come first. -/
def backlogReceipts : List (WebhookEnqueueCandidate ι π) :=
  match now with
  | none => foundBacklogReceipts cs take
  | some now =>
    agedReceipts cs take now ++ withoutIds (agedReceipts cs take now) (foundBacklogReceipts cs take)

def recoveryCandidates : List (WebhookEnqueueCandidate ι π) :=
  (unreserved cs take).filter fun c => !c.isReceived

def receivedTake : Nat :=
  max (scannedReceipts cs take).length
    (min
      (resolveReceivedTake
        ((scannedReceipts cs take).length + (recentReceipts cs take).length +
          (backlogReceipts cs take now).length) take)
      (take - (scannedRecovery cs take).length))

def recentReceiptTake : Nat :=
  min
    (min (resolveRecentReceiptTake take - ((scannedReceipts cs take).filter (·.isRecentReceipt)).length)
      (receivedTake cs take now - (scannedReceipts cs take).length))
    (recentReceipts cs take).length

/-- The receipts by their shares, before the leftovers. -/
def sharedReceipts : List (WebhookEnqueueCandidate ι π) :=
  scannedReceipts cs take ++ (recentReceipts cs take).take (recentReceiptTake cs take now) ++
    (backlogReceipts cs take now).take
      (receivedTake cs take now - (scannedReceipts cs take).length - recentReceiptTake cs take now)

def unsharedReceipts : List (WebhookEnqueueCandidate ι π) :=
  withoutIds (sharedReceipts cs take now) (recentReceipts cs take ++ backlogReceipts cs take now)

def missingReceipts : Nat := receivedTake cs take now - (sharedReceipts cs take now).length

def selectedReceipts : List (WebhookEnqueueCandidate ι π) :=
  sharedReceipts cs take now ++ (unsharedReceipts cs take now).take (missingReceipts cs take now)

def unselectedReceipts : List (WebhookEnqueueCandidate ι π) :=
  (unsharedReceipts cs take now).drop (missingReceipts cs take now)

def selectCandidatesWithReceiptReserve : List (WebhookEnqueueCandidate ι π) :=
  let selected := selectedReceipts cs take now ++ scannedRecovery cs take ++
    (recoveryCandidates cs take).take
      (take - (selectedReceipts cs take now).length - (scannedRecovery cs take).length)
  selected ++ (unselectedReceipts cs take now).take (take - selected.length)

end Classes

/-! ## The classes share the candidates -/

section Partition

variable {cs : List (WebhookEnqueueCandidate ι π)} {take : Nat} {now : Option Int}

variable {taken : List (WebhookEnqueueCandidate ι π)}

theorem mem_withoutIds {c : WebhookEnqueueCandidate ι π} :
    c ∈ withoutIds taken cs ↔ c ∈ cs ∧ ∀ t ∈ taken, t.id ≠ c.id := by
  simp only [withoutIds, List.mem_filter, Bool.not_eq_true', List.contains_eq_mem, decide_eq_false_iff_not,
    List.mem_map, not_exists, not_and]

omit [LinearOrder ι] in
theorem eq_of_id {c d : WebhookEnqueueCandidate ι π} (h : (cs.map (·.id)).Nodup) (hc : c ∈ cs)
    (hd : d ∈ cs) (hid : c.id = d.id) : c = d :=
  List.inj_on_of_nodup_map h hc hd hid

theorem perm_withoutIds (h : (cs.map (·.id)).Nodup)
    (htaken : taken.Nodup) (hsub : taken ⊆ cs) : (taken ++ withoutIds taken cs).Perm cs := by
  have hcs : cs.Nodup := h.of_map _
  have hdisjoint : taken.Disjoint (withoutIds taken cs) := by
    intro c hc hc'
    exact (mem_withoutIds.mp hc').2 c hc rfl
  have hnodup : (taken ++ withoutIds taken cs).Nodup :=
    htaken.append (hcs.filter _) hdisjoint
  rw [List.perm_ext_iff_of_nodup hnodup hcs]
  intro c
  rw [List.mem_append, mem_withoutIds]
  constructor
  · rintro (hc | hc)
    · exact hsub hc
    · exact hc.1
  · intro hc
    by_cases hct : c ∈ taken
    · exact .inl hct
    · refine .inr ⟨hc, fun t ht hid => hct ?_⟩
      rw [← eq_of_id h (hsub ht) hc hid]
      exact ht

theorem withoutIds_of_subset (h : cs ⊆ taken) :
    withoutIds taken cs = [] :=
  List.eq_nil_iff_forall_not_mem.mpr fun c hc =>
    (mem_withoutIds.mp hc).2 c (h (mem_withoutIds.mp hc).1) rfl

theorem withoutIds_append (taken l r : List (WebhookEnqueueCandidate ι π)) :
    withoutIds taken (l ++ r) = withoutIds taken l ++ withoutIds taken r := List.filter_append ..

theorem withoutIds_fronts {l r : List (WebhookEnqueueCandidate ι π)} {m n : Nat}
    (h : ((taken ++ l ++ r).map (·.id)).Nodup) :
    withoutIds (taken ++ l.take m ++ r.take n) (l ++ r) = l.drop m ++ r.drop n := by
  have hsplit : (taken ++ l ++ r).Perm ((taken ++ l.take m ++ r.take n) ++ (l.drop m ++ r.drop n)) := by
    classical
    rw [List.perm_iff_count]
    intro c
    have hl := congrArg (List.count c) (List.take_append_drop m l)
    have hr := congrArg (List.count c) (List.take_append_drop n r)
    simp only [List.count_append] at hl hr ⊢
    omega
  have hids := (hsplit.map (·.id)).nodup_iff.mp h
  rw [List.map_append] at hids
  have hkept (d : List (WebhookEnqueueCandidate ι π)) (hd : d ⊆ l.drop m ++ r.drop n) :
      withoutIds (taken ++ l.take m ++ r.take n) d = d := by
    refine List.filter_eq_self.mpr fun c hc => ?_
    rw [Bool.not_eq_true', List.contains_eq_mem, decide_eq_false_iff_not]
    exact fun hmem => List.disjoint_of_nodup_append hids hmem (List.mem_map_of_mem (hd hc))
  have hgone (d : List (WebhookEnqueueCandidate ι π)) (hd : d ⊆ taken ++ l.take m ++ r.take n) :
      withoutIds (taken ++ l.take m ++ r.take n) d = [] := withoutIds_of_subset hd
  calc withoutIds (taken ++ l.take m ++ r.take n) (l ++ r)
      = withoutIds (taken ++ l.take m ++ r.take n)
          (l.take m ++ l.drop m ++ (r.take n ++ r.drop n)) := by
        rw [List.take_append_drop, List.take_append_drop]
    _ = l.drop m ++ r.drop n := by
        rw [withoutIds_append, withoutIds_append, withoutIds_append,
          hgone (l.take m) (fun c hc => by simp [hc]), hgone (r.take n) (fun c hc => by simp [hc]), hkept _ (List.subset_append_left _ _), hkept _ (List.subset_append_right _ _)]
        rfl

end Partition

/-! ## What a batch consists of -/

section Batch

variable {cs : List (WebhookEnqueueCandidate ι π)} {take : Nat} {now : Option Int}

omit [LinearOrder ι] in
theorem scanned_sublist : (scanned cs take).Sublist cs :=
  (List.take_sublist _ _).trans List.filter_sublist

theorem foundBacklogReceipts_nodup (h : (cs.map (·.id)).Nodup) :
    ((foundBacklogReceipts cs take).map (·.id)).Nodup :=
  ((List.filter_sublist.trans List.filter_sublist).map _).nodup h

theorem agedReceipts_subset {now : Int} : agedReceipts cs take now ⊆ foundBacklogReceipts cs take :=
  fun _ hc => (List.mem_filter.mp (mem_of_mem_firstRows hc)).1

omit [LinearOrder ι] in
theorem sequence_nodup (h : (cs.map (·.id)).Nodup) : (cs.map (·.sequence)).Nodup := by
  refine List.Nodup.map_on ?_ (h.of_map _)
  intro x hx y hy hseq
  exact eq_of_id h hx hy (congrArg (fun p => (ofLex p).2) hseq)

theorem agedReceipts_ascending (h : (cs.map (·.id)).Nodup) {now : Int} :
    Ascending (·.sequence) (agedReceipts cs take now) :=
  ascending_firstRows (sequence_nodup ((List.filter_sublist.map _).nodup (foundBacklogReceipts_nodup h))) _

theorem perm_backlogReceipts (take : Nat) (now : Option Int) (h : (cs.map (·.id)).Nodup) :
    (backlogReceipts cs take now).Perm (foundBacklogReceipts cs take) := by
  cases now with
  | none => exact .refl _
  | some now =>
    exact perm_withoutIds (foundBacklogReceipts_nodup h) (agedReceipts_ascending h).nodup agedReceipts_subset

theorem perm_classes (take : Nat) (now : Option Int) (h : (cs.map (·.id)).Nodup) :
    (scannedReceipts cs take ++ recentReceipts cs take ++ backlogReceipts cs take now ++
      scannedRecovery cs take ++ recoveryCandidates cs take).Perm cs := by
  have hscanned : (scanned cs take ++ unreserved cs take).Perm cs :=
    perm_withoutIds h (scanned_sublist.nodup (h.of_map _)) scanned_sublist.subset
  have hstatus := List.filter_append_perm (fun c => c.isReceived) (scanned cs take)
  have hrest := List.filter_append_perm (fun c => c.isReceived) (unreserved cs take)
  have hrecent : (recentReceipts cs take ++ foundBacklogReceipts cs take).Perm
      ((unreserved cs take).filter fun c => c.isReceived) := by
    have hfirst : recentReceipts cs take =
        ((unreserved cs take).filter (·.isReceived)).filter (·.isRecentReceipt) := by
      rw [List.filter_filter]
      exact List.filter_congr fun c _ => Bool.and_comm ..
    have hsecond : foundBacklogReceipts cs take =
        ((unreserved cs take).filter (·.isReceived)).filter fun c => !c.isRecentReceipt := by
      rw [List.filter_filter]
      exact List.filter_congr fun c _ => Bool.and_comm ..
    rw [hfirst, hsecond]
    exact List.filter_append_perm ..
  have hbacklog := perm_backlogReceipts take now h
  classical
  rw [List.perm_iff_count] at hscanned hstatus hrest hrecent hbacklog ⊢
  intro c
  have hscanned := hscanned c
  have hstatus := hstatus c
  have hrest := hrest c
  have hrecent := hrecent c
  have hbacklog := hbacklog c
  simp only [List.count_append, scannedReceipts, scannedRecovery, recoveryCandidates] at *
  omega

omit [LinearOrder ι] in
theorem length_scanned_le (cs : List (WebhookEnqueueCandidate ι π)) (take : Nat) :
    (scannedReceipts cs take).length + (scannedRecovery cs take).length ≤ take := by
  have hperm := List.filter_append_perm (fun c => c.isReceived) (scanned cs take)
  rw [← List.length_append]
  exact hperm.length_eq.trans_le (List.length_take_le _ _)

theorem scannedReceipts_le_receivedTake (cs : List (WebhookEnqueueCandidate ι π)) (take : Nat) (now : Option Int) :
    (scannedReceipts cs take).length ≤ receivedTake cs take now := Nat.le_max_left _ _

theorem receivedTake_le_room (cs : List (WebhookEnqueueCandidate ι π)) (take : Nat) (now : Option Int) :
    receivedTake cs take now ≤ take - (scannedRecovery cs take).length := by
  have hle := length_scanned_le cs take
  refine Nat.max_le.mpr ⟨by omega, Nat.min_le_right _ _⟩

theorem receivedTake_le_received (cs : List (WebhookEnqueueCandidate ι π)) (take : Nat) (now : Option Int) :
    receivedTake cs take now ≤ (scannedReceipts cs take).length + (recentReceipts cs take).length +
      (backlogReceipts cs take now).length := by
  refine Nat.max_le.mpr ⟨by omega, (Nat.min_le_left _ _).trans ?_⟩
  rw [resolveReceivedTake]
  split
  · omega
  · exact Nat.min_le_left _ _

theorem recentReceiptTake_le (cs : List (WebhookEnqueueCandidate ι π)) (take : Nat) (now : Option Int) :
    recentReceiptTake cs take now ≤ receivedTake cs take now - (scannedReceipts cs take).length ∧
      recentReceiptTake cs take now ≤ (recentReceipts cs take).length :=
  ⟨(Nat.min_le_left _ _).trans (Nat.min_le_right _ _), Nat.min_le_right _ _⟩

theorem unsharedReceipts_eq (take : Nat) (now : Option Int) (h : (cs.map (·.id)).Nodup) :
    unsharedReceipts cs take now = (recentReceipts cs take).drop (recentReceiptTake cs take now) ++
      (backlogReceipts cs take now).drop
        (receivedTake cs take now - (scannedReceipts cs take).length - recentReceiptTake cs take now) := by
  refine withoutIds_fronts (List.Nodup.sublist (List.Sublist.map _ ?_)
    (((perm_classes take now h).map (·.id)).nodup_iff.mpr h))
  exact (List.sublist_append_left _ _).trans (List.sublist_append_left _ _)

theorem length_selectedReceipts (take : Nat) (now : Option Int) (h : (cs.map (·.id)).Nodup) :
    (selectedReceipts cs take now).length = receivedTake cs take now := by
  have hroom := receivedTake_le_received cs take now
  have hscanned := scannedReceipts_le_receivedTake cs take now
  obtain ⟨hrecent, hrecent'⟩ := recentReceiptTake_le cs take now
  simp only [selectedReceipts, missingReceipts, unsharedReceipts_eq _ _ h, sharedReceipts, List.length_append,
    List.length_take, List.length_drop]
  omega

/-- The receipts that are left when the recovery has had its turn. -/
def leftover (cs : List (WebhookEnqueueCandidate ι π)) (take : Nat) (now : Option Int) : Nat :=
  take - (receivedTake cs take now + (scannedRecovery cs take).length +
    min (take - receivedTake cs take now - (scannedRecovery cs take).length) (recoveryCandidates cs take).length)

theorem select_eq (take : Nat) (now : Option Int) (h : (cs.map (·.id)).Nodup) :
    selectCandidatesWithReceiptReserve cs take now =
      selectedReceipts cs take now ++ scannedRecovery cs take ++
        (recoveryCandidates cs take).take
          (take - receivedTake cs take now - (scannedRecovery cs take).length) ++
        (unselectedReceipts cs take now).take (leftover cs take now) := by
  simp only [selectCandidatesWithReceiptReserve, length_selectedReceipts _ _ h, List.length_append,
    List.length_take, leftover]

theorem exists_left_out (take : Nat) (now : Option Int) (h : (cs.map (·.id)).Nodup) :
    ∃ rest, (selectCandidatesWithReceiptReserve cs take now ++ rest).Perm cs := by
  refine ⟨(recoveryCandidates cs take).drop
      (take - receivedTake cs take now - (scannedRecovery cs take).length) ++
    (unselectedReceipts cs take now).drop (leftover cs take now), ?_⟩
  have hclasses := perm_classes take now h
  rw [select_eq _ _ h]
  classical
  rw [List.perm_iff_count] at hclasses ⊢
  intro c
  have hclasses := hclasses c
  have hrecovery := congrArg (List.count c) (List.take_append_drop
    (take - receivedTake cs take now - (scannedRecovery cs take).length) (recoveryCandidates cs take))
  have hleft := congrArg (List.count c)
    (List.take_append_drop (leftover cs take now) (unselectedReceipts cs take now))
  have hunshared := congrArg (List.count c)
    (List.take_append_drop (missingReceipts cs take now) (unsharedReceipts cs take now))
  have hrecent := congrArg (List.count c)
    (List.take_append_drop (recentReceiptTake cs take now) (recentReceipts cs take))
  have hbacklog := congrArg (List.count c) (List.take_append_drop
    (receivedTake cs take now - (scannedReceipts cs take).length - recentReceiptTake cs take now)
    (backlogReceipts cs take now))
  have hunsharedEq := congrArg (List.count c) (unsharedReceipts_eq take now h)
  simp only [List.count_append, selectedReceipts, sharedReceipts] at *
  rw [unselectedReceipts] at *
  omega

/-! ## The reserves -/

theorem length_select (take : Nat) (now : Option Int) (h : (cs.map (·.id)).Nodup) :
    (selectCandidatesWithReceiptReserve cs take now).length = min take cs.length := by
  have hclasses := (perm_classes take now h).length_eq
  have hreceived := receivedTake_le_received cs take now
  have hroom := receivedTake_le_room cs take now
  have hscanned := length_scanned_le cs take
  have hselected := length_selectedReceipts take now h
  have hunselected : (selectedReceipts cs take now).length + (unselectedReceipts cs take now).length =
      (sharedReceipts cs take now).length + (unsharedReceipts cs take now).length := by
    rw [selectedReceipts, unselectedReceipts, List.length_append, List.length_take, List.length_drop]
    omega
  have hshared : (sharedReceipts cs take now).length + (unsharedReceipts cs take now).length =
      (scannedReceipts cs take).length + (recentReceipts cs take).length +
        (backlogReceipts cs take now).length := by
    simp only [unsharedReceipts_eq _ _ h, sharedReceipts, List.length_append, List.length_take, List.length_drop]
    omega
  rw [select_eq _ _ h]
  simp only [List.length_append, List.length_take, leftover] at hclasses ⊢
  omega

theorem select_subset (h : (cs.map (·.id)).Nodup) : selectCandidatesWithReceiptReserve cs take now ⊆ cs := by
  obtain ⟨rest, hrest⟩ := exists_left_out take now h
  exact fun c hc => hrest.subset (List.mem_append_left _ hc)

theorem select_nodup (h : (cs.map (·.id)).Nodup) :
    ((selectCandidatesWithReceiptReserve cs take now).map (·.id)).Nodup := by
  obtain ⟨rest, hrest⟩ := exists_left_out take now h
  have hids := (hrest.map (·.id)).nodup_iff.mpr h
  rw [List.map_append] at hids
  exact (List.nodup_append'.mp hids).1

theorem scanned_subset_select (h : (cs.map (·.id)).Nodup) :
    scanned cs take ⊆ selectCandidatesWithReceiptReserve cs take now := by
  intro c hc
  rw [select_eq _ _ h, selectedReceipts, sharedReceipts]
  by_cases hstatus : c.isReceived
  · have hmem : c ∈ scannedReceipts cs take := List.mem_filter.mpr ⟨hc, hstatus⟩
    simp only [List.mem_append, hmem, true_or]
  · have hmem : c ∈ scannedRecovery cs take := List.mem_filter.mpr ⟨hc, by simpa using hstatus⟩
    simp only [List.mem_append, hmem, or_true, true_or]

variable {c : WebhookEnqueueCandidate ι π}

theorem isReceived_of_recentReceipts (hc : c ∈ recentReceipts cs take) :
    c.isReceived = true := ((Bool.and_eq_true _ _).mp (List.mem_filter.mp hc).2).1

theorem mem_backlogReceipts (h : (cs.map (·.id)).Nodup) :
    c ∈ backlogReceipts cs take now ↔
      c ∈ unreserved cs take ∧ c.isReceived = true ∧ c.isRecentReceipt = false := by
  rw [(perm_backlogReceipts _ _ h).mem_iff, foundBacklogReceipts, List.mem_filter, Bool.and_eq_true,
    Bool.not_eq_true']

theorem isReceived_of_selectedReceipts (h : (cs.map (·.id)).Nodup)
    (hc : c ∈ selectedReceipts cs take now) : c.isReceived = true := by
  rw [selectedReceipts, unsharedReceipts_eq _ _ h, sharedReceipts] at hc
  rcases List.mem_append.mp hc with hc | hc
  · rcases List.mem_append.mp hc with hc | hc
    · rcases List.mem_append.mp hc with hc | hc
      · exact (List.mem_filter.mp hc).2
      · exact isReceived_of_recentReceipts (List.mem_of_mem_take hc)
    · exact ((mem_backlogReceipts h).mp (List.mem_of_mem_take hc)).2.1
  · rcases List.mem_append.mp (List.mem_of_mem_take hc) with hc | hc
    · exact isReceived_of_recentReceipts (List.mem_of_mem_drop hc)
    · exact ((mem_backlogReceipts h).mp (List.mem_of_mem_drop hc)).2.1

theorem countP_received (take : Nat) (now : Option Int) (h : (cs.map (·.id)).Nodup) :
    cs.countP (·.isReceived) = (scannedReceipts cs take).length + (recentReceipts cs take).length +
      (backlogReceipts cs take now).length := by
  have hall : ((scannedReceipts cs take ++ recentReceipts cs take ++ backlogReceipts cs take now).countP
      (·.isReceived)) = (scannedReceipts cs take ++ recentReceipts cs take ++ backlogReceipts cs take now).length := by
    refine List.countP_eq_length.mpr fun c hc => ?_
    rcases List.mem_append.mp hc with hc | hc
    · rcases List.mem_append.mp hc with hc | hc
      · exact (List.mem_filter.mp hc).2
      · exact isReceived_of_recentReceipts hc
    · exact ((mem_backlogReceipts h).mp hc).2.1
  have hnone : ((scannedRecovery cs take ++ recoveryCandidates cs take).countP (·.isReceived)) = 0 := by
    refine List.countP_eq_zero.mpr fun c hc => ?_
    rcases List.mem_append.mp hc with hc | hc
    · simpa using (List.mem_filter.mp hc).2
    · simpa using (List.mem_filter.mp hc).2
  have hclasses := (perm_classes take now h).countP_eq (fun c => c.isReceived)
  simp only [List.countP_append, List.length_append] at hclasses hall hnone ⊢
  omega

theorem received_reserve (h : (cs.map (·.id)).Nodup) (htake : 1 ≤ take) :
    min (min (cs.countP (·.isReceived)) ((3 * take + 3) / 4)) (take - (scannedRecovery cs take).length) ≤
      (selectCandidatesWithReceiptReserve cs take now).countP (·.isReceived) := by
  have hshare : min (min (cs.countP (·.isReceived)) ((3 * take + 3) / 4))
      (take - (scannedRecovery cs take).length) ≤ receivedTake cs take now := by
    have hmax : min (resolveReceivedTake ((scannedReceipts cs take).length + (recentReceipts cs take).length +
        (backlogReceipts cs take now).length) take) (take - (scannedRecovery cs take).length) ≤
        receivedTake cs take now := Nat.le_max_right _ _
    rw [countP_received take now h]
    rw [resolveReceivedTake] at hmax
    split at hmax <;> omega
  have hselected : (selectedReceipts cs take now).countP (·.isReceived) = receivedTake cs take now := by
    rw [← length_selectedReceipts _ _ h]
    exact List.countP_eq_length.mpr fun c hc => isReceived_of_selectedReceipts h hc
  rw [select_eq _ _ h]
  simp only [List.countP_append]
  omega

/-- A batch takes the receipts of the backlog from the front. -/
theorem exists_backlog_front (take : Nat) (now : Option Int) (h : (cs.map (·.id)).Nodup) :
    ∃ n, ∀ c ∈ backlogReceipts cs take now,
      (c ∈ selectCandidatesWithReceiptReserve cs take now ↔ c ∈ (backlogReceipts cs take now).take n) := by
  let shared := receivedTake cs take now - (scannedReceipts cs take).length - recentReceiptTake cs take now
  let more := missingReceipts cs take now + leftover cs take now -
    ((recentReceipts cs take).drop (recentReceiptTake cs take now)).length
  refine ⟨shared + more, fun c hc => ?_⟩
  obtain ⟨hunreserved, hstatus, hrecent⟩ := (mem_backlogReceipts h).mp hc
  have hscanned : c ∉ scanned cs take := fun hmem => (mem_withoutIds.mp hunreserved).2 c hmem rfl
  have hscannedReceipts : c ∉ scannedReceipts cs take := fun hmem => hscanned (List.mem_filter.mp hmem).1
  have hscannedRecovery : c ∉ scannedRecovery cs take := fun hmem => hscanned (List.mem_filter.mp hmem).1
  have hrecovery (n : Nat) : c ∉ (recoveryCandidates cs take).take n := fun hmem => by
    have hnot := (List.mem_filter.mp (List.mem_of_mem_take hmem)).2
    rw [hstatus] at hnot
    exact Bool.false_ne_true hnot
  have hrecents : c ∉ recentReceipts cs take := fun hmem => by
    have hnot := (List.mem_filter.mp hmem).2
    rw [hrecent, Bool.and_false] at hnot
    exact Bool.false_ne_true hnot
  have hunshared : (c ∈ (unsharedReceipts cs take now).take (missingReceipts cs take now) ∨
      c ∈ (unselectedReceipts cs take now).take (leftover cs take now)) ↔
        c ∈ ((backlogReceipts cs take now).drop shared).take more := by
    rw [unselectedReceipts, ← List.mem_append, ← List.take_add, unsharedReceipts_eq _ _ h, List.take_append,
      List.mem_append]
    exact or_iff_right fun hmem => hrecents (List.mem_of_mem_drop (List.mem_of_mem_take hmem))
  have hfront : c ∈ (backlogReceipts cs take now).take (shared + more) ↔
      c ∈ (backlogReceipts cs take now).take shared ∨ c ∈ ((backlogReceipts cs take now).drop shared).take more := by
    rw [List.take_add, List.mem_append]
  rw [hfront, ← hunshared, select_eq _ _ h, selectedReceipts, sharedReceipts]
  simp only [List.mem_append, hscannedReceipts, hscannedRecovery, hrecovery, false_or, or_false, or_assoc]
  rw [or_iff_right fun hmem => hrecents (List.mem_of_mem_take hmem)]

/-! With a clock the front of the backlog is the aged reserve. -/

/-- The unmarked receipts of the backlog that have waited for a minute, oldest first, up to a quarter of
the batch. -/
def agedReserve (cs : List (WebhookEnqueueCandidate ι π)) (take : Nat) (now : Int) :
    List (WebhookEnqueueCandidate ι π) :=
  firstRows (ByPosition (·.sequence)) (take / 4) (cs.filter fun c =>
    !c.isBacklogScan && c.isReceived && !c.isRecentReceipt && AGED_RECEIPT_WAIT_MS ≤ now - c.createdAt)

theorem unmarked_select (h : (cs.map (·.id)).Nodup)
    (hc : c ∈ selectCandidatesWithReceiptReserve cs take now) (hmark : c.isBacklogScan = false) :
    (cs.filter (·.isBacklogScan)).length < take := by
  by_contra hfull
  have hlength : (scanned cs take).length = take := by
    rw [scanned, List.length_take]
    omega
  have hsub : (scanned cs take).Subperm (selectCandidatesWithReceiptReserve cs take now) :=
    List.subperm_of_subset (scanned_sublist.nodup (h.of_map _)) (scanned_subset_select h)
  have hperm := hsub.perm_of_length_le (by rw [hlength, length_select _ _ h]; exact Nat.min_le_left _ _)
  have hmarked := (List.mem_filter.mp (List.mem_of_mem_take (hperm.mem_iff.mpr hc))).2
  rw [hmark] at hmarked
  exact Bool.false_ne_true hmarked

theorem unreserved_eq (h : (cs.map (·.id)).Nodup) (hfit : (cs.filter (·.isBacklogScan)).length < take) :
    unreserved cs take = cs.filter fun c => !c.isBacklogScan := by
  have hscanned : scanned cs take = cs.filter (·.isBacklogScan) := List.take_of_length_le (by omega)
  rw [unreserved, withoutIds, hscanned]
  refine List.filter_congr fun c hc => ?_
  rw [List.contains_eq_mem]
  congr 1
  rw [Bool.eq_iff_iff, decide_eq_true_eq]
  constructor
  · intro hmem
    obtain ⟨d, hd, hid⟩ := List.mem_map.mp hmem
    obtain ⟨hd, hmark⟩ := List.mem_filter.mp hd
    rw [← eq_of_id h hd hc hid]
    exact hmark
  · intro hmark
    exact List.mem_map_of_mem (List.mem_filter.mpr ⟨hc, hmark⟩)

theorem agedReceipts_eq (h : (cs.map (·.id)).Nodup) (hfit : (cs.filter (·.isBacklogScan)).length < take)
    (now : Int) : agedReceipts cs take now = agedReserve cs take now := by
  rw [agedReceipts, foundBacklogReceipts, unreserved_eq h hfit, List.filter_filter, List.filter_filter,
    agedReserve]
  congr 1
  refine List.filter_congr fun c _ => ?_
  cases c.isBacklogScan <;> cases c.isReceived <;> cases c.isRecentReceipt <;>
    cases decide (AGED_RECEIPT_WAIT_MS ≤ now - c.createdAt) <;> rfl

omit [LinearOrder ι] in
theorem mem_take_of_lt {κ ρ : Type} [LinearOrder κ] {pos : ρ → κ} {l : List ρ} {n : Nat} {x y : ρ}
    (h : Ascending pos l) (hx : x ∈ l) (hy : y ∈ l.take n) (hlt : pos x < pos y) : x ∈ l.take n := by
  rw [Ascending, ← List.take_append_drop n l] at h
  rw [← List.take_append_drop n l, List.mem_append] at hx
  refine hx.resolve_right fun hdrop => ?_
  exact lt_asymm hlt ((List.pairwise_append.mp h).2.2 y hy x hdrop)

theorem aged_reserve (h : (cs.map (·.id)).Nodup) {now : Int} {x y : WebhookEnqueueCandidate ι π}
    (hx : x ∈ agedReserve cs take now) (hy : y ∈ selectCandidatesWithReceiptReserve cs take (some now))
    (hunmarked : y.isBacklogScan = false) (hstatus : y.isReceived = true) (hold : y.isRecentReceipt = false)
    (hafter : y ∉ agedReserve cs take now ∨ x.sequence < y.sequence) :
    x ∈ selectCandidatesWithReceiptReserve cs take (some now) := by
  have hfit := unmarked_select h hy hunmarked
  rw [← agedReceipts_eq h hfit] at hx hafter
  have hbacklog : y ∈ backlogReceipts cs take (some now) := by
    rw [mem_backlogReceipts h, unreserved_eq h hfit]
    exact ⟨List.mem_filter.mpr ⟨select_subset h hy, by simp [hunmarked]⟩, hstatus, hold⟩
  have hbacklog' : x ∈ backlogReceipts cs take (some now) := List.mem_append_left _ hx
  obtain ⟨n, hn⟩ := exists_backlog_front take (some now) h
  have hyn := (hn y hbacklog).mp hy
  rw [hn x hbacklog', backlogReceipts, List.take_append]
  rw [backlogReceipts, List.take_append] at hyn
  refine List.mem_append_left _ ?_
  rcases List.mem_append.mp hyn with hyn | hyn
  · exact mem_take_of_lt (agedReceipts_ascending h) hx hyn
      (hafter.resolve_left fun hnot => hnot (List.mem_of_mem_take hyn))
  · -- The batch has gone past the reserve, so it holds all of it.
    have hlength : (agedReceipts cs take now).length ≤ n := by
      by_contra hlt
      rw [Nat.sub_eq_zero_of_le (by omega), List.take_zero] at hyn
      exact absurd hyn List.not_mem_nil
    rw [List.take_of_length_le hlength]
    exact hx

end Batch

end Maxim.Webhook.OutboxBatch
