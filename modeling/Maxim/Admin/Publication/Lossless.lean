import Maxim.Admin.Publication.Materialization

/-!
# No occurrence is lost or stored twice

After every tick the stored occurrences are the first ones of the enumeration of
the rule. They reach the horizon of the tick unless a full batch is due again at
once, and the schedule ends only when nothing is left to store.
-/

namespace Maxim.Admin.Publication

open Maxim.Library

variable {z : Zone} {rule : Recurrence} {startsAt t₀ t now : Int} {slots slots' : List Int}
  {s s' : Schedule}

structure Progress (z : Zone) (rule : Recurrence) (startsAt t₀ t : Int) (slots : List Int)
    (s : Schedule) : Prop where
  stored : Stored z rule startsAt t₀ s.stored
  last : s.lastMaterializedAt = some t
  start : t₀ ≤ t
  fresh : ∀ x ∈ slots, x ∈ s.stored
  nonempty : rule.maxOccurrences ≠ some 0
  reach : Full rule s.stored ∨
    (slots.length = MAX_RESULTS ∧ s.nextMaterializeAt = some t) ∨
    Through (Due z rule startsAt t₀) (t + PUBLICATION_RECURRENCE_HORIZON_MS) s.stored
  done : s.nextMaterializeAt = none →
    Full rule s.stored ∨ ∀ x, Due z rule startsAt t₀ x → x ∈ s.stored

theorem all_of_through {bound endsAt : Int} {stored : List Int}
    (h : Through (Due z rule startsAt t₀) bound stored) (hend : rule.endsAt = some endsAt)
    (hle : endsAt ≤ bound) : ∀ x, Due z rule startsAt t₀ x → x ∈ stored := fun x hx =>
  h x hx (le_trans (hx.1.2.1 endsAt hend) hle)

/-! ## Creation -/

theorem Resumes.initial : Resumes z rule startsAt t₀ [] t₀ :=
  ⟨by simp, le_refl _, fun _ hx hlt => absurd hx.2 (not_le.mpr hlt)⟩

theorem Stored.initial : Stored z rule startsAt t₀ [] := ⟨.nil, fun _ _ => Nat.zero_le _⟩

theorem createSchedule_cases (h : createSchedule z rule t₀ = .ok (slots, s)) :
    expandInitialSchedule z rule t₀ = .ok slots ∧ s.lastMaterializedAt = some t₀ ∧
      s.occurrences = createMany [] slots ∧
      resolveInitialRecurrenceMaterializeAt z rule slots (isInitialRecurrenceExhausted rule slots t₀)
        t₀ = .ok s.nextMaterializeAt := by
  obtain ⟨initialSlots, hslots, h⟩ := bind_eq_ok.mp h
  obtain ⟨_, -, h⟩ := bind_eq_ok.mp h
  obtain ⟨next, hnext, h⟩ := bind_eq_ok.mp h
  obtain ⟨rfl, rfl⟩ := Prod.mk.inj (Except.ok.inj h)
  exact ⟨hslots, rfl, rfl, hnext⟩

/-- A creation leaves no next tick only if its rule is exhausted. -/
theorem exhausted_of_next_none {exhausted : Bool}
    (h : resolveInitialRecurrenceMaterializeAt z rule slots exhausted now = .ok none) :
    exhausted = true := by
  unfold resolveInitialRecurrenceMaterializeAt at h
  split at h
  · next hex => exact hex
  · split at h
    · cases h
    · obtain ⟨next, -, h⟩ := bind_eq_ok.mp h
      cases next <;> cases h

theorem createSchedule_progress (hstart : rule.startsAt = some startsAt)
    (h : createSchedule z rule t₀ = .ok (slots, s)) : Progress z rule startsAt t₀ t₀ slots s := by
  obtain ⟨hslots, hlast, hocc, hnext⟩ := createSchedule_cases h
  obtain ⟨hmany, hstored, -, hreach⟩ :=
    Stored.advance [] hstart .initial .initial hslots
  rw [List.map_nil, List.nil_append] at hmany hstored hreach
  rw [← hocc] at hmany
  have hreach' : Full rule slots ∨ Through (Due z rule startsAt t₀)
      (t₀ + PUBLICATION_RECURRENCE_HORIZON_MS) slots := by
    rcases hreach with hfull | ⟨_, hnone, -⟩ | hthrough
    · exact .inl hfull
    · cases hnone
    · exact .inr hthrough
  have hstore : s.stored = slots := hmany
  refine ⟨hstore ▸ hstored, hlast, le_refl _, fun x hx => hstore ▸ hx, maxOccurrences_pos hslots, ?_,
    fun hnone => ?_⟩
  · rw [hstore]
    exact hreach'.imp_right .inr
  · rw [hstore]
    rw [hnone] at hnext
    have hex := exhausted_of_next_none hnext
    unfold isInitialRecurrenceExhausted at hex
    rcases Bool.or_eq_true_iff.mp hex with hmax | hend
    · obtain ⟨n, hn, hle⟩ := (Option.any_eq_true _ _).mp hmax
      exact .inl ⟨n, hn, of_decide_eq_true hle⟩
    · obtain ⟨endsAt, he, hle⟩ := (Option.any_eq_true _ _).mp hend
      exact hreach'.imp_right fun hthrough => all_of_through hthrough he (of_decide_eq_true hle)

/-! ## A tick -/

/-- What a successful tick does to the schedule. -/
theorem materialize_cases (h : materialize z rule s now = .ok (slots, s')) :
    expandPublicationSchedule z rule
        (resolvePublicationRecurrenceFrom rule s (latestScheduledAt (s.visible rule)) now)
        (now + PUBLICATION_RECURRENCE_HORIZON_MS) (s.visible rule).length (some MAX_RESULTS) =
          .ok slots ∧
      s'.lastMaterializedAt = some now ∧ s'.occurrences = createMany s.occurrences slots ∧
      ∃ nextSlot, s'.nextMaterializeAt = nextMaterializeAt
        (rule.maxOccurrences.any fun n => decide (n ≤ (s.visible rule).length + slots.length))
        (rule.endsAt.any (fun endsAt =>
          decide (endsAt ≤ now + PUBLICATION_RECURRENCE_HORIZON_MS)) &&
          decide (slots.length < MAX_RESULTS)) slots nextSlot now := by
  unfold materialize at h
  split at h
  · cases h
  · obtain ⟨slots₀, hslots, h⟩ := bind_eq_ok.mp h
    dsimp only at h
    split at h
    · cases h
    · obtain ⟨nextSlot, -, h⟩ := bind_eq_ok.mp h
      split at h
      · cases h
      · obtain ⟨rfl, rfl⟩ := Prod.mk.inj (Except.ok.inj h)
        exact ⟨hslots, rfl, rfl, nextSlot, rfl⟩

theorem visible_eq_stored (hpolicy : rule.latePolicy = true) : s.visible rule = s.stored := by
  rw [Schedule.visible, hpolicy]
  simp only [Bool.true_or, List.filter_true]
  rfl

/-- The tick resumes after the latest stored occurrence, or where the last tick has begun. -/
theorem Progress.resumes (hp : Progress z rule startsAt t₀ t slots s)
    (hpolicy : rule.latePolicy = true) :
    Resumes z rule startsAt t₀ s.stored
      (resolvePublicationRecurrenceFrom rule s (latestScheduledAt s.stored) now) := by
  unfold resolvePublicationRecurrenceFrom latestScheduledAt
  cases hmax : s.stored.max? with
  | none =>
    have hnil : s.stored = [] := List.max?_eq_none_iff.mp hmax
    rw [hpolicy, hp.last]
    have hthrough : Through (Due z rule startsAt t₀) (t + PUBLICATION_RECURRENCE_HORIZON_MS)
        s.stored := by
      rcases hp.reach with ⟨n, hn, hle⟩ | ⟨hfull, -⟩ | hthrough
      · rw [hnil, List.length_nil, Nat.le_zero] at hle
        exact absurd (hle ▸ hn) hp.nonempty
      · have hempty : slots = [] := List.eq_nil_iff_forall_not_mem.mpr fun x hx => by
          have := hp.fresh x hx
          rw [hnil] at this
          cases this
        rw [hempty] at hfull
        cases hfull
      · exact hthrough
    refine ⟨fun x hx => ?_, hp.start, fun x hx hlt => hthrough x hx ?_⟩
    · rw [hnil] at hx
      cases hx
    · rw [PUBLICATION_RECURRENCE_HORIZON_MS]
      change x < t at hlt
      omega
  | some latest =>
    obtain ⟨hmem, hle⟩ := List.max?_eq_some_iff.mp hmax
    have hfrom : (if now < latest ∨ rule.latePolicy = true then latest + 1 else now) =
        latest + 1 := if_pos (.inr hpolicy)
    simp only [hfrom]
    refine ⟨fun x hx => Int.lt_add_one_of_le (hle x hx), ?_, fun x hx hlt => ?_⟩
    · have := (hp.stored.segment.sound latest hmem).2
      omega
    · exact hp.stored.segment.closed x latest hx hmem (Int.le_of_lt_add_one hlt)

theorem nextMaterializeAt_eq_none {reachedMax reachedEnd : Bool} {nextSlot : Option Int}
    (h : nextMaterializeAt reachedMax reachedEnd slots nextSlot now = none) :
    reachedMax = true ∨ reachedEnd = true := by
  unfold nextMaterializeAt at h
  split at h
  · next hreached => exact Bool.or_eq_true_iff.mp hreached
  · split at h
    · cases h
    · cases nextSlot <;> cases h

theorem nextMaterializeAt_batch {reachedMax reachedEnd : Bool} {nextSlot : Option Int}
    (hmax : reachedMax = false) (hend : reachedEnd = false) (hbatch : slots.length = MAX_RESULTS) :
    nextMaterializeAt reachedMax reachedEnd slots nextSlot now = some now := by
  subst hmax hend
  exact if_pos hbatch

theorem materialize_progress (hstart : rule.startsAt = some startsAt)
    (hpolicy : rule.latePolicy = true) (hp : Progress z rule startsAt t₀ t slots s) (hle : t ≤ now)
    (h : materialize z rule s now = .ok (slots', s')) :
    Progress z rule startsAt t₀ now slots' s' := by
  obtain ⟨hslots, hlast, hocc, nextSlot, hnext⟩ := materialize_cases h
  rw [visible_eq_stored hpolicy] at hslots hnext
  have hlen : s.stored.length = s.occurrences.length := List.length_map _
  obtain ⟨hmany, hstored, hbatch, hreach⟩ :=
    Stored.advance s.occurrences hstart hp.stored (hp.resumes hpolicy) (hlen ▸ hslots)
  have hstore : s'.stored = s.stored ++ slots' := by
    rw [Schedule.stored, hocc, hmany]
    rfl
  have hsum : s'.stored.length = s.stored.length + slots'.length := by
    rw [hstore, List.length_append]
  change Stored z rule startsAt t₀ (s.stored ++ slots') at hstored
  change Full rule (s.stored ++ slots') ∨ _ ∨ Through _ _ (s.stored ++ slots') at hreach
  rw [← hstore] at hstored hreach
  have hbatch' : slots'.length ≤ MAX_RESULTS := hbatch _ rfl
  have hreach' : Full rule s'.stored ∨ slots'.length = MAX_RESULTS ∨
      Through (Due z rule startsAt t₀) (now + PUBLICATION_RECURRENCE_HORIZON_MS) s'.stored := by
    rcases hreach with hfull | ⟨r, hr, hge⟩ | hthrough
    · exact .inl hfull
    · cases hr
      exact .inr (.inl (le_antisymm hbatch' hge))
    · exact .inr (.inr hthrough)
  refine ⟨hstored, hlast, le_trans hp.start hle, fun x hx => ?_, hp.nonempty, ?_, fun hnone => ?_⟩
  · rw [hstore]
    exact List.mem_append_right _ hx
  · rcases hreach' with hfull | hlength | hthrough
    · exact .inl hfull
    · by_cases hmax : Full rule s'.stored
      · exact .inl hmax
      refine .inr (.inl ⟨hlength, ?_⟩)
      rw [hnext]
      refine nextMaterializeAt_batch ?_ ?_ hlength
      · refine Bool.eq_false_iff.mpr fun htrue => hmax ?_
        obtain ⟨n, hn, hle⟩ := (Option.any_eq_true _ _).mp htrue
        exact ⟨n, hn, hsum ▸ of_decide_eq_true hle⟩
      · rw [hlength, decide_eq_false (Nat.lt_irrefl _), Bool.and_false]
    · exact .inr (.inr hthrough)
  · rcases nextMaterializeAt_eq_none (hnext ▸ hnone) with hmax | hend
    · obtain ⟨n, hn, hle⟩ := (Option.any_eq_true _ _).mp hmax
      exact .inl ⟨n, hn, hsum ▸ of_decide_eq_true hle⟩
    · obtain ⟨hends, hroom⟩ := Bool.and_eq_true_iff.mp hend
      obtain ⟨endsAt, he, hle⟩ := (Option.any_eq_true _ _).mp hends
      rcases hreach' with hfull | hlength | hthrough
      · exact .inl hfull
      · exact absurd (of_decide_eq_true hroom) (by omega)
      · exact .inr (all_of_through hthrough he (of_decide_eq_true hle))

/-! ## Every run -/

/-- The statuses of the occurrences do not matter. -/
theorem Progress.settled (hp : Progress z rule startsAt t₀ t slots s) (hstored : s'.stored = s.stored)
    (hlast : s'.lastMaterializedAt = s.lastMaterializedAt)
    (hnext : s'.nextMaterializeAt = s.nextMaterializeAt) :
    Progress z rule startsAt t₀ t slots s' := by
  constructor
  · rw [hstored]
    exact hp.stored
  · rw [hlast]
    exact hp.last
  · exact hp.start
  · rw [hstored]
    exact hp.fresh
  · exact hp.nonempty
  · rw [hstored, hnext]
    exact hp.reach
  · rw [hstored, hnext]
    exact hp.done

theorem Reached.progress (hstart : rule.startsAt = some startsAt) (hpolicy : rule.latePolicy = true)
    (h : Reached z rule t₀ t slots s) : Progress z rule startsAt t₀ t slots s := by
  induction h with
  | created h => exact createSchedule_progress hstart h
  | settled _ hsame ih => exact ih.settled hsame rfl rfl
  | tick _ hle h ih => exact materialize_progress hstart hpolicy ih hle h

/-- After every tick the stored occurrences are the first ones of the enumeration; they reach the
horizon unless a full batch is due at once; the last tick has stored all of them. -/
theorem materialization_lossless (hstart : rule.startsAt = some startsAt)
    (hpolicy : rule.latePolicy = true) (h : Reached z rule t₀ t slots s) :
    InitialSegment (Enumerated (Due z rule startsAt t₀) rule.maxOccurrences) s.stored ∧
      ((slots.length = MAX_RESULTS ∧ s.nextMaterializeAt = some t) ∨
        Through (Enumerated (Due z rule startsAt t₀) rule.maxOccurrences)
          (t + PUBLICATION_RECURRENCE_HORIZON_MS) s.stored) ∧
      (s.nextMaterializeAt = none →
        ∀ x, Enumerated (Due z rule startsAt t₀) rule.maxOccurrences x → x ∈ s.stored) := by
  have hp := h.progress hstart hpolicy
  have hseg := hp.stored.segment
  have hfull : Full rule s.stored →
      ∀ x, Enumerated (Due z rule startsAt t₀) rule.maxOccurrences x → x ∈ s.stored := by
    rintro ⟨n, hn, hle⟩ x hx
    rw [hn] at hx
    exact hseg.mem_of_full hle hx
  refine ⟨hseg.enumerated hp.stored.bounded, ?_, fun hnone x hx => ?_⟩
  · rcases hp.reach with hmax | hbatch | hthrough
    · exact .inr fun x hx _ => hfull hmax x hx
    · exact .inl hbatch
    · exact .inr fun x hx => hthrough x hx.1
  · rcases hp.done hnone with hmax | hall
    · exact hfull hmax x hx
    · exact hall x hx.1

/-! ## A run -/

def nineDaily : Recurrence where
  frequency := .daily
  interval := 1
  weekdays := []
  times := [⟨9, 0⟩]
  startsAt := some 0
  endsAt := none
  maxOccurrences := some 16
  latePolicy := true

/-- The occurrences of `nineDaily` on the given days. -/
def nineOn (first last : Int) : List Int := (days first last).map fun day => day * DAY_MS + 32400000

/-- The schedule of `nineDaily` that has stored the given days. -/
def nineStored (last lastMaterializedAt : Int) (nextMaterializeAt : Option Int) : Schedule where
  createdAt := 0
  lastMaterializedAt := some lastMaterializedAt
  nextMaterializeAt := nextMaterializeAt
  occurrences := createMany [] (nineOn 0 last)

theorem nineDaily_created :
    createSchedule utc nineDaily 0 = .ok (nineOn 0 13, nineStored 13 0 (some 43200000)) := by
  decide +kernel

theorem nineDaily_ticked :
    materialize utc nineDaily (nineStored 13 0 (some 43200000)) (2 * DAY_MS) =
      .ok (nineOn 14 15, nineStored 15 (2 * DAY_MS) none) := by
  decide +kernel

theorem materialization_lossless_nine_daily :
    InitialSegment (Enumerated (Due utc nineDaily 0 0) (some 16))
        (nineStored 15 (2 * DAY_MS) none).stored ∧
      (((nineOn 14 15).length = MAX_RESULTS ∧
          (nineStored 15 (2 * DAY_MS) none).nextMaterializeAt = some (2 * DAY_MS)) ∨
        Through (Enumerated (Due utc nineDaily 0 0) (some 16))
          (2 * DAY_MS + PUBLICATION_RECURRENCE_HORIZON_MS)
          (nineStored 15 (2 * DAY_MS) none).stored) ∧
      ((nineStored 15 (2 * DAY_MS) none).nextMaterializeAt = none →
        ∀ x, Enumerated (Due utc nineDaily 0 0) (some 16) x →
          x ∈ (nineStored 15 (2 * DAY_MS) none).stored) :=
  materialization_lossless rfl rfl (.tick (.created nineDaily_created) (by decide) nineDaily_ticked)

end Maxim.Admin.Publication
