import Maxim.Statistics.Ingest.Membership
import Mathlib.Data.List.Count

/-!
# When a membership day is independent of the order

A deletion is compared with the seen revision, which events raise, but events
are compared with the delete fence, which only effective deletions raise. An
event between the last effective deletion and the last of all is counted
although it was captured before a deletion.
-/

namespace Maxim.Statistics.Ingest

open Maxim.Library

/-- The counters of the day are those of the events captured after the last deletion, and the day
is deleted if there are none but a deletion. -/
structure Converged {δ : Type} (day : StatsDay) (l : List Delivery) (s : Rows δ) : Prop where
  counters : ∀ type, counter (carried (s.measurements (membershipDay day))) type =
    some (l.countP (countsAfter (lastDelete l) type))
  deleted : (∀ e, .event e ∈ l → e.capturedRevision ≤ lastDelete l) → (∃ d, .delete d ∈ l) →
    ∃ row, s.measurements (membershipDay day) = some row ∧ row.deleted = true

/-- Every event captured before the last deletion was captured before an effective one. -/
def Undone (l : List Delivery) : Prop :=
  ∀ e, .event e ∈ l → e.capturedRevision < lastDelete l →
    ∃ d, Effective d l ∧ e.capturedRevision < d

def Delivery.eventId : Delivery → String
  | .event e => e.eventId
  | .delete _ => ""

variable {δ : Type} {hash : Subject → δ} {entity : Entity} {s : Rows δ} {day : StatsDay}
  {l : List Delivery}

/-! ## Counting deliveries -/

theorem countsAfter_iff {fence : Nat} {type : EventType} {x : Delivery} :
    countsAfter fence type x = true ↔
      ∃ e, x = .event e ∧ e.eventType = type ∧ fence < e.capturedRevision := by
  cases x with
  | event e => simp [countsAfter]
  | delete d => simp [countsAfter]

theorem nodup_eventIds (hapart : l.Pairwise Apart) (fence : Nat) (type : EventType) :
    ((l.filter (countsAfter fence type)).map Delivery.eventId).Nodup := by
  refine List.pairwise_map.mpr ((hapart.filter _).imp_of_mem ?_)
  intro x y hx hy hxy
  obtain ⟨e, rfl, -⟩ := countsAfter_iff.mp (List.mem_filter.mp hx).2
  obtain ⟨e', rfl, -⟩ := countsAfter_iff.mp (List.mem_filter.mp hy).2
  exact hxy

theorem mem_countedIds (hinj : Function.Injective hash) (hc : Counted hash s)
    (ht : Tracks hash entity day l s) {row : FactRow δ}
    (hrow : s.measurements (membershipDay day) = some row) {type : EventType} {id : String} :
    id ∈ countedIds hash s day type row.deleteFence ↔
      id ∈ (l.filter (countsAfter row.deleteFence type)).map Delivery.eventId := by
  rw [List.mem_map]
  constructor
  · rintro ⟨record, hrecord, -, entity', e, hbody, hid, hday, htype, hlt⟩
    have hmem := ht.delivered id record entity' e hrecord hbody hday
    exact ⟨.event e, List.mem_filter.mpr ⟨hmem, countsAfter_iff.mpr ⟨e, rfl, htype, hlt⟩⟩, hid⟩
  · rintro ⟨x, hx, hid⟩
    obtain ⟨hmem, hcounts⟩ := List.mem_filter.mp hx
    obtain ⟨e, rfl, htype, hlt⟩ := countsAfter_iff.mp hcounts
    obtain ⟨record, hrecord, hbody⟩ := ht.recorded e hmem
    refine ⟨record, hid ▸ hrecord, ?_, entity, e, hbody, hid, ht.onDay e hmem, htype, hlt⟩
    obtain ⟨entity', e', row', hr⟩ := hc.records _ record hrecord
    obtain ⟨-, rfl⟩ := Subject.event.inj (hinj (hbody.symm.trans hr.body))
    have hstored := hr.stored
    rw [ht.onDay e hmem, hrow, Option.some.injEq] at hstored
    subst hstored
    by_contra hstatus
    have := hr.fenced hstatus
    omega

def fenceOf (s : Rows δ) (day : StatsDay) : Nat :=
  (s.measurements (membershipDay day)).elim 0 (·.deleteFence)

theorem counter_eq_countP (hinj : Function.Injective hash) (hc : Counted hash s)
    (ht : Tracks hash entity day l s) (hapart : l.Pairwise Apart) (type : EventType) :
    counter (carried (s.measurements (membershipDay day))) type =
      some (l.countP (countsAfter (fenceOf s day) type)) := by
  rw [hc.carried_counter hinj]
  cases hrow : s.measurements (membershipDay day) with
  | none =>
    have hempty : countedIds hash s day type 0 = ∅ :=
      countedIds_eq_empty hinj hc (fun row hrow' => by rw [hrow] at hrow'; cases hrow') type
    rw [Option.elim_none, hempty, Set.ncard_empty, ht.noRow hrow]
    rfl
  | some row =>
    have hfence : fenceOf s day = row.deleteFence := by rw [fenceOf, hrow]; rfl
    have hset : countedIds hash s day type row.deleteFence =
        ↑((l.filter (countsAfter row.deleteFence type)).map Delivery.eventId).toFinset := by
      ext id
      rw [mem_countedIds hinj hc ht hrow, List.coe_toFinset]
      rfl
    rw [Option.elim_some, hset, Set.ncard_coe_finset,
      List.toFinset_card_of_nodup (nodup_eventIds hapart _ _), List.length_map, hfence,
      List.countP_eq_length_filter]

theorem countP_eq_iff {α : Type} {p q : α → Bool} {xs : List α}
    (hle : ∀ x ∈ xs, q x = true → p x = true) :
    xs.countP p = xs.countP q ↔ ∀ x ∈ xs, p x = true → q x = true := by
  induction xs with
  | nil => simp
  | cons x xs ih =>
    have htail : ∀ y ∈ xs, q y = true → p y = true := fun y hy => hle y (List.mem_cons_of_mem _ hy)
    have hmono : xs.countP q ≤ xs.countP p := List.countP_mono_left htail
    have hhead := hle x List.mem_cons_self
    have hrest := ih htail
    rw [List.countP_cons, List.countP_cons, List.forall_mem_cons]
    cases hp : p x with
    | true =>
      cases hq : q x with
      | true => simp [hrest]
      | false =>
        simp only [if_true, Bool.false_eq_true, if_false, forall_const, false_and, iff_false]
        omega
    | false =>
      cases hq : q x with
      | true => simp [hp] at hhead; simp [hhead] at hq
      | false => simp [hrest]

/-! ## The exact condition -/

theorem fence_le_lastDelete (ht : Tracks hash entity day l s) : fenceOf s day ≤ lastDelete l := by
  unfold fenceOf
  cases hrow : s.measurements (membershipDay day) with
  | none => exact Nat.zero_le _
  | some row =>
    rcases (ht.row row hrow).fence with hzero | heffective
    · rw [Option.elim_some, hzero]
      exact Nat.zero_le _
    · exact le_lastDelete heffective.mem

instance : Std.Symm Apart where
  symm x y h := by
    cases x <;> cases y <;> exact Ne.symm h

theorem not_revision_eq (hapart : l.Pairwise Apart) {e : MembershipEvent} {d : Nat}
    (he : .event e ∈ l) (hd : .delete d ∈ l) : e.capturedRevision ≠ d :=
  hapart.forall he hd (by simp)

theorem fence_lt_iff (ht : Tracks hash entity day l s) (hapart : l.Pairwise Apart)
    {e : MembershipEvent} (he : .event e ∈ l) :
    fenceOf s day < e.capturedRevision ↔ ¬∃ d, Effective d l ∧ e.capturedRevision < d := by
  cases hrow : s.measurements (membershipDay day) with
  | none =>
    rw [ht.noRow hrow] at he
    cases he
  | some row =>
    have hfence : fenceOf s day = row.deleteFence := by rw [fenceOf, hrow]; rfl
    have htracks := ht.row row hrow
    rw [hfence]
    constructor
    · rintro hlt ⟨d, hd, hd'⟩
      have := htracks.fence_ge d hd
      omega
    · intro hnone
      have hpos := ht.pos _ he
      rcases htracks.fence with hzero | heffective
      · rwa [hzero]
      · have hne := not_revision_eq hapart he heffective.mem
        have hge : ¬e.capturedRevision < row.deleteFence := fun hlt =>
          hnone ⟨row.deleteFence, heffective, hlt⟩
        omega

/-- After any history, the day has converged exactly if no event lies between the last effective
deletion and the last of all. -/
theorem membership_converges (hinj : Function.Injective hash) [DecidableEq δ] {epoch : String}
    {h : List (Entry Call Reply)} {t : Nat} (hr : Ingests hash entity epoch h t s)
    (hapart : (deliveries day h).Pairwise Apart) :
    Converged day (deliveries day h) s ↔ Undone (deliveries day h) := by
  have ht : Tracks hash entity day (deliveries day h) s := ingests_tracks hinj hr hapart
  have hc := ingests_counted hinj hr
  generalize deliveries day h = l at hapart ht
  have hle := fence_le_lastDelete ht
  have hcounter := counter_eq_countP hinj hc ht hapart
  have hmore : ∀ type, ∀ x ∈ l, countsAfter (lastDelete l) type x = true →
      countsAfter (fenceOf s day) type x = true := by
    intro type x _ hx
    obtain ⟨e, rfl, htype, hlt⟩ := countsAfter_iff.mp hx
    exact countsAfter_iff.mpr ⟨e, rfl, htype, Nat.lt_of_le_of_lt hle hlt⟩
  constructor
  · intro hconverged e he hlt
    by_contra hnone
    have hkept := (fence_lt_iff ht hapart he).mpr hnone
    have hequal := (hcounter e.eventType).symm.trans (hconverged.counters e.eventType)
    have hall := (countP_eq_iff (hmore e.eventType)).mp (Option.some.inj hequal) _ he
      (countsAfter_iff.mpr ⟨e, rfl, rfl, hkept⟩)
    obtain ⟨e', heq, -, hlt'⟩ := countsAfter_iff.mp hall
    rw [← Delivery.event.inj heq] at hlt'
    omega
  · intro hundone
    -- What the day still counts was captured after the last deletion.
    have hafter : ∀ e, .event e ∈ l → fenceOf s day < e.capturedRevision →
        lastDelete l < e.capturedRevision := by
      intro e he hkept
      have hnone := (fence_lt_iff ht hapart he).mp hkept
      have hge : ¬e.capturedRevision < lastDelete l := fun hlt => hnone (hundone e he hlt)
      by_cases hzero : lastDelete l = 0
      · have hpos := ht.pos _ he
        rw [hzero]
        exact hpos
      · have hne := not_revision_eq hapart he (lastDelete_mem hzero)
        omega
    refine ⟨fun type => ?_, fun hnone hdelete => ?_⟩
    · rw [hcounter type]
      refine congrArg some ((countP_eq_iff (hmore type)).mpr fun x hx hcounts => ?_)
      obtain ⟨e, rfl, htype, hlt⟩ := countsAfter_iff.mp hcounts
      exact countsAfter_iff.mpr ⟨e, rfl, htype, hafter e hx hlt⟩
    · cases hrow : s.measurements (membershipDay day) with
      | none =>
        obtain ⟨d, hd⟩ := hdelete
        rw [ht.noRow hrow] at hd
        cases hd
      | some row =>
        refine ⟨row, rfl, (ht.row row hrow).deleted.mpr fun e he => ?_⟩
        have hfence : fenceOf s day = row.deleteFence := by rw [fenceOf, hrow]; rfl
        by_contra hlt
        have hlast := hafter e he (by omega)
        have hle' := hnone e he
        omega

def dayAfter (calls : List Call) : List Delivery × Rows Subject :=
  let played := play (step id) Rows.initial (calls.map fun call => (0, call))
  (deliveries sampleDay played.1, played.2)

def deletedFirst : List Call :=
  [deleteCall "r1" 2, addCall "r2" (joinAt "e3" 3), addCall "r3" (joinAt "e1" 1)]

def deletedBetween : List Call :=
  [addCall "r2" (joinAt "e3" 3), deleteCall "r1" 2, addCall "r3" (joinAt "e1" 1)]

theorem membership_converges_day :
    Converged sampleDay (dayAfter deletedFirst).1 (dayAfter deletedFirst).2 ↔
      Undone (dayAfter deletedFirst).1 := by
  have hcalls : ∀ call ∈ deletedFirst, Accepts channel "epoch" call.request := by
    unfold Accepts
    decide +kernel
  have hl : (dayAfter deletedFirst).1 =
      [.delete 2, .event (joinAt "e3" 3), .event (joinAt "e1" 1)] := by decide +kernel
  obtain ⟨t, hr⟩ := ingests_play hcalls
  refine membership_converges Function.injective_id hr ?_
  change (dayAfter deletedFirst).1.Pairwise Apart
  rw [hl]
  simp [Apart, Delivery.revision, joinAt]

/-- Two members are counted, one of them captured before the deletion. -/
theorem early_event_disarms_delete : ∃ h t s,
    Ingests (id : Subject → Subject) channel "epoch" h t s ∧
      (deliveries sampleDay h).Pairwise Apart ∧
      ¬Converged sampleDay (deliveries sampleDay h) s := by
  have hcalls : ∀ call ∈ deletedBetween, Accepts channel "epoch" call.request := by
    unfold Accepts
    decide +kernel
  have hl : (dayAfter deletedBetween).1 =
      [.event (joinAt "e3" 3), .delete 2, .event (joinAt "e1" 1)] := by decide +kernel
  have hjoined : counter (carried ((dayAfter deletedBetween).2.measurements
      (membershipDay sampleDay))) .join = some 2 := by decide +kernel
  obtain ⟨t, hr⟩ := ingests_play hcalls
  refine ⟨_, t, _, hr, ?_, fun hconverged => ?_⟩
  · change (dayAfter deletedBetween).1.Pairwise Apart
    rw [hl]
    simp [Apart, Delivery.revision, joinAt]
  · have hcounter := hconverged.counters .join
    change counter (carried ((dayAfter deletedBetween).2.measurements _)) _ =
      some ((dayAfter deletedBetween).1.countP (countsAfter (lastDelete (dayAfter deletedBetween).1)
        .join)) at hcounter
    rw [hjoined, hl] at hcounter
    exact absurd hcounter (by decide)

end Maxim.Statistics.Ingest
