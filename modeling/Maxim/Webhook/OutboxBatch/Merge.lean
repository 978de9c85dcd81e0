import Maxim.Library.Keyed
import Maxim.Webhook.OutboxBatch.Reserve
import Mathlib.Data.List.Induction

/-!
# One candidate for each work unit

The lanes of a poll can find an event several times, and several events of one
chat. The candidates are merged by their ids and then by their work units: an
event that arrives later replaces or marks the one that is kept.
-/

namespace Maxim.Webhook.OutboxBatch

open Maxim.Library

variable {ι π χ κ : Type} [DecidableEq κ]

namespace WebhookEnqueueCandidate

/-- The candidate with the marks of the one that it replaces. -/
def replacing (c : WebhookEnqueueCandidate ι π) (existing : Option (WebhookEnqueueCandidate ι π)) :
    WebhookEnqueueCandidate ι π :=
  { c with
    isBacklogScan := c.isBacklogScan || existing.any (·.isBacklogScan)
    isDeferredScopeScan := c.isDeferredScopeScan || existing.any (·.isDeferredScopeScan)
    deferredScopeOrder := c.deferredScopeOrder.or (existing.bind (·.deferredScopeOrder)) }

/-- The kept candidate with the marks of one that it outlives. -/
def absorbing (existing c : WebhookEnqueueCandidate ι π) : WebhookEnqueueCandidate ι π :=
  if c.isBacklogScan then
    if c.isDeferredScopeScan then
      { existing with
        isBacklogScan := true, isDeferredScopeScan := true, deferredScopeOrder := c.deferredScopeOrder }
    else { existing with isBacklogScan := true }
  else existing

def unmarked (c : WebhookEnqueueCandidate ι π) : WebhookEnqueueCandidate ι π :=
  { c with isBacklogScan := false, isDeferredScopeScan := false, deferredScopeOrder := none }

end WebhookEnqueueCandidate

/-! ## The merge -/

/-- One pass over the candidates with a `Map`. -/
def mergeStep (key : WebhookEnqueueCandidate ι π → κ)
    (replaces : WebhookEnqueueCandidate ι π → WebhookEnqueueCandidate ι π → Bool)
    (map : List (WebhookEnqueueCandidate ι π)) (c : WebhookEnqueueCandidate ι π) :
    List (WebhookEnqueueCandidate ι π) :=
  match findKey key (key c) map with
  | none => upsert key (c.replacing none) map
  | some existing =>
    if replaces c existing then upsert key (c.replacing (some existing)) map
    else upsert key (existing.absorbing c) map

def mergeBy (key : WebhookEnqueueCandidate ι π → κ)
    (replaces : WebhookEnqueueCandidate ι π → WebhookEnqueueCandidate ι π → Bool)
    (cs : List (WebhookEnqueueCandidate ι π)) : List (WebhookEnqueueCandidate ι π) :=
  cs.foldl (mergeStep key replaces) []

/-- `chat:…` for an ordered event of a chat, else `event:…`. -/
inductive WorkUnit (χ ι : Type)
  | chat (chatId : χ)
  | event (id : ι)
  deriving DecidableEq, Repr

def candidateWorkUnitKey (extractPriorityChatId : π → Option χ) (c : WebhookEnqueueCandidate ι π) :
    WorkUnit χ ι :=
  match extractPriorityChatId c.normalizedPayload with
  | some chatId => .chat chatId
  | none => .event c.id

section Units

variable [LinearOrder ι] [DecidableEq χ]

def uniqueById (cs : List (WebhookEnqueueCandidate ι π)) : List (WebhookEnqueueCandidate ι π) :=
  mergeBy (·.id) (fun c _ => c.isRecentReceipt) cs

def uniqueWorkUnits (extractPriorityChatId : π → Option χ) (cs : List (WebhookEnqueueCandidate ι π)) :
    List (WebhookEnqueueCandidate ι π) :=
  mergeBy (candidateWorkUnitKey extractPriorityChatId)
    (fun c existing => c.sequence < existing.sequence) (uniqueById cs)

def mergeEnqueueCandidates (extractPriorityChatId : π → Option χ) (cs : List (WebhookEnqueueCandidate ι π))
    (take : Nat) : List (WebhookEnqueueCandidate ι π) :=
  firstRows (ByPosition (·.sequence)) take
    (selectCandidatesWithReceiptReserve (uniqueWorkUnits extractPriorityChatId cs) take none)

end Units

/-! ## What a pass keeps -/

namespace WebhookEnqueueCandidate

variable {c d : WebhookEnqueueCandidate ι π}

@[simp] theorem unmarked_replacing (c : WebhookEnqueueCandidate ι π) (e : Option (WebhookEnqueueCandidate ι π)) :
    (c.replacing e).unmarked = c.unmarked := rfl

@[simp] theorem unmarked_absorbing (e c : WebhookEnqueueCandidate ι π) :
    (e.absorbing c).unmarked = e.unmarked := by
  unfold absorbing
  split
  · split <;> rfl
  · rfl

theorem isBacklogScan_absorbing (e c : WebhookEnqueueCandidate ι π) :
    (e.absorbing c).isBacklogScan = (c.isBacklogScan || e.isBacklogScan) := by
  unfold absorbing
  split
  · next h => split <;> simp [h]
  · next h => simp [h]

theorem sequence_congr (h : c.unmarked = d.unmarked) : c.sequence = d.sequence :=
  congrArg (fun c => c.sequence) h

theorem id_congr (h : c.unmarked = d.unmarked) : c.id = d.id := congrArg (fun c => c.id) h

end WebhookEnqueueCandidate

section Pass

variable {key : WebhookEnqueueCandidate ι π → κ}
  {replaces : WebhookEnqueueCandidate ι π → WebhookEnqueueCandidate ι π → Bool}
  {seen map : List (WebhookEnqueueCandidate ι π)} {c : WebhookEnqueueCandidate ι π}

/-- The map holds one candidate for each key, with the marks of all that have been seen. -/
structure Merged (key : WebhookEnqueueCandidate ι π → κ) (seen map : List (WebhookEnqueueCandidate ι π)) :
    Prop where
  keys : (map.map key).Nodup
  source : ∀ r ∈ map, ∃ c ∈ seen, r.unmarked = c.unmarked
  covered : ∀ c ∈ seen, ∃ r ∈ map, key r = key c
  marks : ∀ r ∈ map, r.isBacklogScan = true ↔ ∃ c ∈ seen, key c = key r ∧ c.isBacklogScan = true

theorem mergeStep_eq (replaces : WebhookEnqueueCandidate ι π → WebhookEnqueueCandidate ι π → Bool)
    (map : List (WebhookEnqueueCandidate ι π)) (c : WebhookEnqueueCandidate ι π)
    (hkey : ∀ c : WebhookEnqueueCandidate ι π, key c.unmarked = key c) :
    ∃ r, mergeStep key replaces map c = upsert key r map ∧ key r = key c ∧
      ((r.unmarked = c.unmarked ∧ ∀ e, findKey key (key c) map = some e → replaces c e = true) ∨
        ∃ e, findKey key (key c) map = some e ∧ r.unmarked = e.unmarked ∧ replaces c e = false) ∧
      (r.isBacklogScan = true ↔ c.isBacklogScan = true ∨
        ∃ e, findKey key (key c) map = some e ∧ e.isBacklogScan = true) := by
  have hcongr {r d : WebhookEnqueueCandidate ι π} (h : r.unmarked = d.unmarked) : key r = key d := by
    rw [← hkey r, h, hkey]
  rw [mergeStep]
  split
  · next hnone =>
    refine ⟨_, rfl, hcongr (c.unmarked_replacing none), .inl ⟨c.unmarked_replacing none, by simp [hnone]⟩, ?_⟩
    simp [WebhookEnqueueCandidate.replacing, hnone]
  · next e hsome =>
    split
    · next hreplace =>
      refine ⟨_, rfl, hcongr (c.unmarked_replacing _), .inl ⟨c.unmarked_replacing _, ?_⟩, ?_⟩
      · intro d hd
        rw [← Option.some.inj (hsome.symm.trans hd)]
        exact hreplace
      simp [WebhookEnqueueCandidate.replacing, hsome]
    · next hkeep =>
      refine ⟨_, rfl, (hcongr (e.unmarked_absorbing c)).trans (key_of_findKey hsome),
        .inr ⟨e, hsome, e.unmarked_absorbing c, by simpa using hkeep⟩, ?_⟩
      simp [WebhookEnqueueCandidate.isBacklogScan_absorbing, hsome]

theorem findKey_of_mem {e : WebhookEnqueueCandidate ι π} (h : (map.map key).Nodup) (he : e ∈ map) :
    findKey key (key e) map = some e := by
  obtain ⟨d, hd⟩ := Option.isSome_iff_exists.mp
    (List.find?_isSome (p := fun row => decide (key row = key e)) |>.mpr ⟨e, he, by simp⟩)
  rw [findKey, hd, List.inj_on_of_nodup_map h (mem_of_findKey hd) he (key_of_findKey hd)]

omit [DecidableEq κ] in
theorem Merged.nil : Merged key ([] : List (WebhookEnqueueCandidate ι π)) [] :=
  ⟨List.nodup_nil, by simp, by simp, by simp⟩

theorem Merged.snoc (hkey : ∀ c : WebhookEnqueueCandidate ι π, key c.unmarked = key c)
    (h : Merged key seen map) : Merged key (seen ++ [c]) (mergeStep key replaces map c) := by
  obtain ⟨r, hstep, hkr, hsource, hmarks⟩ := mergeStep_eq replaces map c hkey
  rw [hstep]
  have hmem {b : WebhookEnqueueCandidate ι π} := mem_upsert_iff (a := r) (b := b) h.keys
  refine ⟨nodup_upsert r h.keys, ?_, ?_, ?_⟩
  · intro b hb
    rcases hmem.mp hb with rfl | ⟨hb, -⟩
    · rcases hsource with ⟨hnew, -⟩ | ⟨e, he, hold, -⟩
      · exact ⟨c, by simp, hnew⟩
      · obtain ⟨d, hd, heq⟩ := h.source e (mem_of_findKey he)
        exact ⟨d, by simp [hd], hold.trans heq⟩
    · obtain ⟨d, hd, heq⟩ := h.source b hb
      exact ⟨d, by simp [hd], heq⟩
  · intro d hd
    by_cases hkd : key d = key r
    · exact ⟨r, hmem.mpr (.inl rfl), hkd.symm⟩
    · rcases List.mem_append.mp hd with hd | hd
      · obtain ⟨b, hb, hkb⟩ := h.covered d hd
        exact ⟨b, hmem.mpr (.inr ⟨hb, hkb ▸ hkd⟩), hkb⟩
      · exact absurd (by rw [List.mem_singleton.mp hd, hkr]) hkd
  · intro b hb
    simp only [List.mem_append, List.mem_singleton, or_and_right, exists_or, exists_eq_left]
    rcases hmem.mp hb with rfl | ⟨hb, hkb⟩
    · rw [hmarks, or_comm]
      refine or_congr ?_ (by rw [hkr]; simp)
      constructor
      · rintro ⟨e, he, hmark⟩
        obtain ⟨d, hd, hkd, hdm⟩ := (h.marks e (mem_of_findKey he)).mp hmark
        exact ⟨d, hd, by rw [hkd, key_of_findKey he, hkr], hdm⟩
      · rintro ⟨d, hd, hkd, hmark⟩
        obtain ⟨e, he, hke⟩ := h.covered d hd
        refine ⟨e, ?_, (h.marks e he).mpr ⟨d, hd, hke.symm, hmark⟩⟩
        rw [← hkr, ← hkd, ← hke]
        exact findKey_of_mem h.keys he
    · rw [h.marks b hb, or_iff_left]
      rintro ⟨hkc, -⟩
      exact hkb (hkc.symm.trans hkr.symm)

theorem merged_mergeBy (replaces : WebhookEnqueueCandidate ι π → WebhookEnqueueCandidate ι π → Bool)
    (hkey : ∀ c : WebhookEnqueueCandidate ι π, key c.unmarked = key c)
    (cs : List (WebhookEnqueueCandidate ι π)) : Merged key cs (mergeBy key replaces cs) := by
  induction cs using List.reverseRecOn with
  | nil => exact .nil
  | append_singleton cs c ih =>
    rw [mergeBy, List.foldl_append]
    exact ih.snoc hkey

theorem earliest_mergeBy [LinearOrder ι] (hkey : ∀ c : WebhookEnqueueCandidate ι π, key c.unmarked = key c)
    (cs : List (WebhookEnqueueCandidate ι π)) :
    ∀ r ∈ mergeBy key (fun c existing => c.sequence < existing.sequence) cs, ∀ c ∈ cs, key c = key r →
      r.sequence ≤ c.sequence := by
  induction cs using List.reverseRecOn with
  | nil => simp [mergeBy]
  | append_singleton cs c ih =>
    have hmap := merged_mergeBy (fun c existing => decide (c.sequence < existing.sequence)) hkey cs
    rw [mergeBy, List.foldl_append]
    obtain ⟨r, hstep, hkr, hsource, -⟩ := mergeStep_eq
      (fun c existing => decide (c.sequence < existing.sequence))
      (mergeBy key (fun c existing => c.sequence < existing.sequence) cs) c hkey
    intro b hb d hd hkd
    rw [List.foldl_cons, List.foldl_nil, ← mergeBy, hstep, mem_upsert_iff hmap.keys] at hb
    rcases hb with rfl | ⟨hb, hkb⟩
    · rcases hsource with ⟨hnew, hreplaces⟩ | ⟨e, he, hold, hkeep⟩
      · rw [WebhookEnqueueCandidate.sequence_congr hnew]
        rcases List.mem_append.mp hd with hd | hd
        · obtain ⟨e, he, hke⟩ := hmap.covered d hd
          have hfound := findKey_of_mem hmap.keys he
          rw [hke, hkd, hkr] at hfound
          exact (of_decide_eq_true (hreplaces e hfound)).le.trans (ih e he d hd hke.symm)
        · rw [List.mem_singleton.mp hd]
      · rw [WebhookEnqueueCandidate.sequence_congr hold]
        rcases List.mem_append.mp hd with hd | hd
        · exact ih e (mem_of_findKey he) d hd (by rw [hkd, hkr, key_of_findKey he])
        · rw [List.mem_singleton.mp hd]
          exact not_lt.mp (of_decide_eq_false hkeep)
    · rcases List.mem_append.mp hd with hd | hd
      · exact ih b hb d hd hkd
      · rw [List.mem_singleton.mp hd] at hkd
        exact absurd (hkd.symm.trans hkr.symm) hkb

end Pass

/-! ## The merged candidates -/

section Result

variable {extract : π → Option χ} {cs : List (WebhookEnqueueCandidate ι π)}

/-- Candidates of one id are one row of the table: its creation and its chat do not change. -/
def OneRow (extract : π → Option χ) (cs : List (WebhookEnqueueCandidate ι π)) : Prop :=
  ∀ c ∈ cs, ∀ d ∈ cs, c.id = d.id →
    c.createdAt = d.createdAt ∧ candidateWorkUnitKey extract c = candidateWorkUnitKey extract d

theorem candidateWorkUnitKey_unmarked (c : WebhookEnqueueCandidate ι π) :
    candidateWorkUnitKey extract c.unmarked = candidateWorkUnitKey extract c := rfl

variable {c r : WebhookEnqueueCandidate ι π}

theorem candidateWorkUnitKey_congr {d : WebhookEnqueueCandidate ι π} (h : c.unmarked = d.unmarked) :
    candidateWorkUnitKey extract c = candidateWorkUnitKey extract d := by
  rw [← candidateWorkUnitKey_unmarked c, h, candidateWorkUnitKey_unmarked]

variable [LinearOrder ι]

theorem merged_uniqueById (cs : List (WebhookEnqueueCandidate ι π)) : Merged (·.id) cs (uniqueById cs) :=
  merged_mergeBy _ (fun _ => rfl) cs

theorem exists_uniqueById (h : OneRow extract cs) (hc : c ∈ cs) :
    ∃ u ∈ uniqueById cs, u.sequence = c.sequence ∧
      candidateWorkUnitKey extract u = candidateWorkUnitKey extract c := by
  obtain ⟨u, hu, hid⟩ := (merged_uniqueById cs).covered c hc
  obtain ⟨d, hd, hud⟩ := (merged_uniqueById cs).source u hu
  have hdid : d.id = c.id := (WebhookEnqueueCandidate.id_congr hud).symm.trans hid
  obtain ⟨hcreated, hunit⟩ := h d hd c hc hdid
  refine ⟨u, hu, ?_, (candidateWorkUnitKey_congr hud).trans hunit⟩
  rw [WebhookEnqueueCandidate.sequence_congr hud, WebhookEnqueueCandidate.sequence,
    WebhookEnqueueCandidate.sequence, hcreated, hdid]

theorem merged_uniqueWorkUnits [DecidableEq χ] (extract : π → Option χ) (cs : List (WebhookEnqueueCandidate ι π)) :
    Merged (candidateWorkUnitKey extract) (uniqueById cs) (uniqueWorkUnits extract cs) :=
  merged_mergeBy _ candidateWorkUnitKey_unmarked (uniqueById cs)

variable [DecidableEq χ]

theorem exists_source (hr : r ∈ uniqueWorkUnits extract cs) :
    ∃ c ∈ cs, r.unmarked = c.unmarked := by
  obtain ⟨u, hu, hru⟩ := (merged_uniqueWorkUnits extract cs).source r hr
  obtain ⟨c, hc, huc⟩ := (merged_uniqueById cs).source u hu
  exact ⟨c, hc, hru.trans huc⟩

theorem uniqueWorkUnits_ids (extract : π → Option χ) (cs : List (WebhookEnqueueCandidate ι π)) :
    ((uniqueWorkUnits extract cs).map (·.id)).Nodup := by
  have hunits := merged_uniqueWorkUnits extract cs
  refine List.Nodup.map_on ?_ (hunits.keys.of_map _)
  intro r hr s hs hid
  obtain ⟨u, hu, hru⟩ := hunits.source r hr
  obtain ⟨v, hv, hsv⟩ := hunits.source s hs
  have huv : u = v := by
    refine eq_of_id (merged_uniqueById cs).keys hu hv ?_
    rw [← WebhookEnqueueCandidate.id_congr hru, ← WebhookEnqueueCandidate.id_congr hsv, hid]
  refine List.inj_on_of_nodup_map hunits.keys hr hs ?_
  rw [candidateWorkUnitKey_congr hru, candidateWorkUnitKey_congr hsv, huv]

theorem uniqueWorkUnits_earliest (h : OneRow extract cs)
    (hr : r ∈ uniqueWorkUnits extract cs) (hc : c ∈ cs)
    (hunit : candidateWorkUnitKey extract c = candidateWorkUnitKey extract r) : r.sequence ≤ c.sequence := by
  obtain ⟨u, hu, hseq, hkey⟩ := exists_uniqueById h hc
  rw [← hseq]
  exact earliest_mergeBy candidateWorkUnitKey_unmarked _ r hr u hu (hkey.trans hunit)

theorem uniqueWorkUnits_marks (h : OneRow extract cs)
    (hr : r ∈ uniqueWorkUnits extract cs) :
    r.isBacklogScan = true ↔
      ∃ c ∈ cs, candidateWorkUnitKey extract c = candidateWorkUnitKey extract r ∧ c.isBacklogScan = true := by
  have hids := merged_uniqueById cs
  rw [(merged_uniqueWorkUnits extract cs).marks r hr]
  constructor
  · rintro ⟨u, hu, hunit, hmark⟩
    obtain ⟨c, hc, hid, hcm⟩ := (hids.marks u hu).mp hmark
    obtain ⟨d, hd, hud⟩ := hids.source u hu
    have hdc := (h d hd c hc (by rw [← WebhookEnqueueCandidate.id_congr hud, hid])).2
    exact ⟨c, hc, by rw [← hdc, ← candidateWorkUnitKey_congr hud, hunit], hcm⟩
  · rintro ⟨c, hc, hunit, hmark⟩
    obtain ⟨u, hu, hid⟩ := hids.covered c hc
    obtain ⟨d, hd, hud⟩ := hids.source u hu
    have hdc := (h d hd c hc (by rw [← WebhookEnqueueCandidate.id_congr hud, hid])).2
    exact ⟨u, hu, by rw [candidateWorkUnitKey_congr hud, hdc, hunit],
      (hids.marks u hu).mpr ⟨c, hc, hid.symm, hmark⟩⟩

theorem perm_mergeEnqueueCandidates (extract : π → Option χ) (cs : List (WebhookEnqueueCandidate ι π))
    (take : Nat) :
    (mergeEnqueueCandidates extract cs take).Perm
      (selectCandidatesWithReceiptReserve (uniqueWorkUnits extract cs) take none) := by
  have hlength := length_select take none (uniqueWorkUnits_ids extract cs)
  rw [mergeEnqueueCandidates, firstRows, List.take_of_length_le]
  · exact List.perm_insertionSort _ _
  · rw [List.length_insertionSort, hlength]
    exact Nat.min_le_left _ _

/-! ## The reserves of a batch -/

/-- What a batch of at most `take` keeps of the candidates. -/
structure KeepsReserves (cs : List (WebhookEnqueueCandidate ι π)) (take : Nat) (now : Option Int)
    (batch : List (WebhookEnqueueCandidate ι π)) : Prop where
  length : batch.length = min take cs.length
  distinct : (batch.map (·.id)).Nodup
  candidates : batch ⊆ cs
  scanned : (cs.filter (·.isBacklogScan)).take take ⊆ batch
  received : min (min (cs.countP (·.isReceived)) ((3 * take + 3) / 4))
    (take - (scannedRecovery cs take).length) ≤ batch.countP (·.isReceived)
  aged : ∀ t, now = some t → ∀ x ∈ agedReserve cs take t, ∀ y ∈ batch, y.isBacklogScan = false →
    y.isReceived = true → y.isRecentReceipt = false →
    y ∉ agedReserve cs take t ∨ x.sequence < y.sequence → x ∈ batch

/-- At most one candidate for each work unit, the earliest of it, with the mark of any of it. -/
structure MergesUnits (extract : π → Option χ) (cs batch : List (WebhookEnqueueCandidate ι π)) : Prop where
  units : (batch.map (candidateWorkUnitKey extract)).Nodup
  source : ∀ r ∈ batch, ∃ c ∈ cs, r.unmarked = c.unmarked
  earliest : ∀ r ∈ batch, ∀ c ∈ cs, candidateWorkUnitKey extract c = candidateWorkUnitKey extract r →
    r.sequence ≤ c.sequence
  marks : ∀ r ∈ batch, r.isBacklogScan = true ↔
    ∃ c ∈ cs, candidateWorkUnitKey extract c = candidateWorkUnitKey extract r ∧ c.isBacklogScan = true

omit [DecidableEq χ] in
theorem select_keepsReserves {take : Nat} {now : Option Int} (h : (cs.map (·.id)).Nodup) (htake : 1 ≤ take) :
    KeepsReserves cs take now (selectCandidatesWithReceiptReserve cs take now) where
  length := length_select take now h
  distinct := select_nodup h
  candidates := select_subset h
  scanned := scanned_subset_select h
  received := received_reserve h htake
  aged t ht x hx y hy hmark hstatus hold hafter := by
    subst ht
    exact aged_reserve h hx hy hmark hstatus hold hafter

theorem merge_mergesUnits (h : OneRow extract cs) (take : Nat) :
    MergesUnits extract cs (mergeEnqueueCandidates extract cs take) := by
  have hunits := merged_uniqueWorkUnits extract cs
  have hperm := perm_mergeEnqueueCandidates extract cs take
  have hsubset : mergeEnqueueCandidates extract cs take ⊆ uniqueWorkUnits extract cs :=
    fun r hr => select_subset (uniqueWorkUnits_ids extract cs) (hperm.subset hr)
  refine ⟨?_, fun r hr => exists_source (hsubset hr), fun r hr c hc => uniqueWorkUnits_earliest h (hsubset hr) hc,
    fun r hr => uniqueWorkUnits_marks h (hsubset hr)⟩
  have hids := (hperm.map (·.id)).nodup_iff.mpr (select_nodup (uniqueWorkUnits_ids extract cs))
  refine List.Nodup.map_on ?_ (hids.of_map _)
  intro r hr s hs hunit
  exact List.inj_on_of_nodup_map hunits.keys (hsubset hr) (hsubset hs) hunit

/-- A selection keeps its reserves, and a merge keeps the earliest candidate of each work unit and the
reserves of the units. -/
theorem outbox_batch_keeps_reserves (extract : π → Option χ) (cs : List (WebhookEnqueueCandidate ι π))
    (take : Nat) (htake : 1 ≤ take) :
    (∀ now, (cs.map (·.id)).Nodup →
      KeepsReserves cs take now (selectCandidatesWithReceiptReserve cs take now)) ∧
    (OneRow extract cs → MergesUnits extract cs (mergeEnqueueCandidates extract cs take) ∧
      KeepsReserves (uniqueWorkUnits extract cs) take none
        (selectCandidatesWithReceiptReserve (uniqueWorkUnits extract cs) take none) ∧
      (mergeEnqueueCandidates extract cs take).Perm
        (selectCandidatesWithReceiptReserve (uniqueWorkUnits extract cs) take none)) :=
  ⟨fun _ h => select_keepsReserves h htake, fun h => ⟨merge_mergesUnits h take,
    select_keepsReserves (uniqueWorkUnits_ids extract cs) htake, perm_mergeEnqueueCandidates extract cs take⟩⟩

/-- Two receipts of one chat, the later one found by the scan, and a failed event. -/
def sampleCandidates : List (WebhookEnqueueCandidate Nat (Option Nat)) :=
  [{ id := 1, status := .received, createdAt := 5, normalizedPayload := some 7 },
   { id := 2, status := .received, createdAt := 6, normalizedPayload := some 7, isBacklogScan := true },
   { id := 3, status := .failed, createdAt := 1, normalizedPayload := none }]

theorem outbox_batch_keeps_reserves_sample :
    KeepsReserves sampleCandidates 2 (some 70000)
        (selectCandidatesWithReceiptReserve sampleCandidates 2 (some 70000)) ∧
      MergesUnits id sampleCandidates (mergeEnqueueCandidates id sampleCandidates 2) ∧
      (mergeEnqueueCandidates id sampleCandidates 2).map (fun c => (c.id, c.isBacklogScan)) =
        [(3, false), (1, true)] :=
  have h := outbox_batch_keeps_reserves id sampleCandidates 2 (by decide)
  ⟨h.1 (some 70000) (by decide), (h.2 (by unfold OneRow; decide)).1, by decide⟩

end Result

end Maxim.Webhook.OutboxBatch
