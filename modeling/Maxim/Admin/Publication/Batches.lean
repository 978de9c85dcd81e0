import Maxim.Admin.Publication.Materialization

/-!
# Batches of an expansion

What a window expands to depends only on the occurrences in it and on the limit.
A window can therefore be expanded in two parts, and a smaller limit returns the
beginning of what a larger one returns.
-/

namespace Maxim.Admin.Publication

open Maxim.Library

variable {z : Zone} {rule : Recurrence} {startsAt fromMs mid toMs : Int} {existingCount : Nat}
  {P : Int → Prop} {limit : Option Nat} {slots slots' : List Int}

/-! ## Expansions of one window -/

theorem Expanded.length_le (h : Expanded P fromMs toMs limit slots)
    (h' : Expanded P fromMs toMs limit slots') : slots'.length ≤ slots.length := by
  by_contra hlt
  have hlt : slots.length < slots'.length := Nat.lt_of_not_le hlt
  have hroom : ∀ n, limit = some n → slots.length < n := fun n hn =>
    Nat.lt_of_lt_of_le hlt (h'.bounded n hn)
  have hsub : slots' ⊆ slots := by
    intro t ht
    obtain ⟨hP, hfrom, hto⟩ := h'.segment.sound t ht
    exact h.complete hroom t hP hfrom hto
  have hnodup : slots'.Nodup := h'.segment.sorted.imp fun hlt => ne_of_lt hlt
  exact absurd (hnodup.subperm hsub).length_le (Nat.not_le.mpr hlt)

theorem Expanded.unique (h : Expanded P fromMs toMs limit slots)
    (h' : Expanded P fromMs toMs limit slots') : slots = slots' := by
  have hle := h'.length_le h
  have hge := h.length_le h'
  exact (h.segment.prefix_of_length_le h'.segment hle).eq_of_length (Nat.le_antisymm hle hge)

/-- A smaller limit returns the beginning. -/
theorem Expanded.take (h : Expanded P fromMs toMs limit slots) (k : Nat) :
    Expanded P fromMs toMs (minLimit (some k) limit) (slots.take k) := by
  refine ⟨h.segment.take k, fun n hn => ?_, fun hroom t hP hfrom hto => ?_⟩
  · rw [List.length_take]
    cases limit with
    | none =>
      obtain rfl := Option.some.inj hn
      exact Nat.min_le_left _ _
    | some m =>
      obtain rfl := Option.some.inj hn
      have hle := h.bounded m rfl
      omega
  · have hk : slots.length < k ∧ ∀ n, limit = some n → slots.length < n := by
      rw [List.length_take] at hroom
      cases limit with
      | none =>
        have hlt := hroom k rfl
        exact ⟨by omega, nofun⟩
      | some m =>
        have hlt := hroom (min k m) rfl
        refine ⟨by omega, fun n hn => ?_⟩
        obtain rfl := Option.some.inj hn
        omega
    rw [List.take_of_length_le (Nat.le_of_lt hk.1)]
    exact h.complete hk.2 t hP hfrom hto

/-- Two windows that follow each other, the second with what the first leaves of the limit. -/
theorem Expanded.append (h : Expanded P fromMs mid limit slots)
    (h' : Expanded P (mid + 1) toMs (limit.map (· - slots.length)) slots')
    (hfrom : fromMs ≤ mid) (hto : mid < toMs) :
    Expanded P fromMs toMs limit (slots ++ slots') := by
  have hrest : ∀ n, limit = some n → slots'.length ≤ n - slots.length := fun n hn =>
    h'.bounded _ (by rw [hn]; rfl)
  refine ⟨?_, fun n hn => ?_, fun hroom t hP hlo hhi => ?_⟩
  · refine InitialSegment.append (Q := fun t => P t ∧ mid + 1 ≤ t ∧ t ≤ toMs) ?_ h'.segment ?_ ?_ ?_
    · exact ⟨h.segment.sorted, fun t ht => by
        obtain ⟨hP, hlo, hhi⟩ := h.segment.sound t ht
        exact ⟨hP, hlo, by omega⟩, fun t u ht hu hle => by
        have hhi := (h.segment.sound u hu).2.2
        exact h.segment.closed t u ⟨ht.1, ht.2.1, by omega⟩ hu hle⟩
    · rintro t ⟨hP, hlo, hhi⟩
      exact ⟨hP, by omega, hhi⟩
    · intro t ht u hu
      have hhi := (h.segment.sound t ht).2.2
      have hlo := (h'.segment.sound u hu).2.1
      omega
    · intro t u ht hu _
      by_cases hmid : t ≤ mid
      · refine .inl (h.complete (fun n hn => ?_) t ht.1 ht.2.1 hmid)
        have hpos := List.length_pos_of_mem hu
        have hle := hrest n hn
        omega
      · exact .inr ⟨ht.1, by omega, ht.2.2⟩
  · have hle := h.bounded n hn
    have hle' := hrest n hn
    rw [List.length_append]
    omega
  · rw [List.length_append] at hroom
    by_cases hmid : t ≤ mid
    · refine List.mem_append_left _ (h.complete (fun n hn => ?_) t hP hlo hmid)
      have hlt := hroom n hn
      omega
    · refine List.mem_append_right _ (h'.complete (fun m hm => ?_) t hP (by omega) hhi)
      obtain ⟨n, hn, rfl⟩ := Option.map_eq_some_iff.mp hm
      have hlt := hroom n hn
      omega

/-! ## When a rule expands -/

/-- A rule that ends before it starts; a rule without an end ends with the window. -/
theorem expand_of_ends {existingCount : Nat} {maxResults : Option Nat}
    (hstart : rule.startsAt = some startsAt) (hshape : assertRecurrenceShape rule = .ok ())
    (hwindow : fromMs ≤ toMs) (hmax : maxResults ≠ some 0)
    (hend : rule.endsAt.getD toMs < startsAt) :
    expandPublicationSchedule z rule fromMs toMs existingCount maxResults =
      .error "Publication recurrence must end after it starts." := by
  have hwindow : ¬toMs < fromMs := Int.not_lt.mpr hwindow
  rw [expandPublicationSchedule, if_neg hwindow, if_neg hmax, expandRecurrenceSchedule, hshape,
    hstart]
  exact if_pos hend

theorem expands (z : Zone) (existingCount : Nat) {maxResults : Option Nat}
    (hstart : rule.startsAt = some startsAt) (hshape : assertRecurrenceShape rule = .ok ())
    (hwindow : fromMs ≤ toMs) (hmax : maxResults ≠ some 0)
    (hend : startsAt ≤ rule.endsAt.getD toMs) :
    ∃ slots, expandPublicationSchedule z rule fromMs toMs existingCount maxResults = .ok slots := by
  have hwindow : ¬toMs < fromMs := Int.not_lt.mpr hwindow
  have hend : ¬rule.endsAt.getD toMs < startsAt := Int.not_lt.mpr hend
  rw [expandPublicationSchedule, if_neg hwindow, if_neg hmax, expandRecurrenceSchedule, hshape,
    hstart]
  change ∃ slots, (if rule.endsAt.getD toMs < startsAt then _ else _) = Except.ok slots
  rw [if_neg hend]
  split
  · exact ⟨_, rfl⟩
  · exact ⟨_, rfl⟩

theorem expand_of_shape {existingCount : Nat} {maxResults : Option Nat} {e : String}
    (hshape : assertRecurrenceShape rule = .error e) (hwindow : fromMs ≤ toMs)
    (hmax : maxResults ≠ some 0) :
    expandPublicationSchedule z rule fromMs toMs existingCount maxResults = .error e := by
  have hwindow : ¬toMs < fromMs := Int.not_lt.mpr hwindow
  rw [expandPublicationSchedule, if_neg hwindow, if_neg hmax, expandRecurrenceSchedule, hshape]
  rfl

/-! ## Batches -/

theorem remaining_after (rule : Recurrence) (n m : Nat) :
    remainingOccurrences rule (n + m) none =
      (remainingOccurrences rule n none).map (· - m) := by
  unfold remainingOccurrences
  cases rule.maxOccurrences with
  | none => rfl
  | some max =>
    have hsub : max - (n + m) = max - n - m := Nat.sub_add_eq max n m
    exact congrArg some hsub

theorem expand_batches (hstart : rule.startsAt = some startsAt) (hfrom : fromMs ≤ mid)
    (hto : mid < toMs) (hmid : startsAt ≤ mid) :
    expandPublicationSchedule z rule fromMs toMs existingCount none = (do
      let first ← expandPublicationSchedule z rule fromMs mid existingCount none
      let rest ← expandPublicationSchedule z rule (mid + 1) toMs (existingCount + first.length) none
      return first ++ rest) := by
  have hwindow : fromMs ≤ toMs := by omega
  have hnone : (none : Option Nat) ≠ some 0 := nofun
  cases hshape : assertRecurrenceShape rule with
  | error e =>
    rw [expand_of_shape hshape hwindow hnone, expand_of_shape hshape hfrom hnone]
    rfl
  | ok _ =>
    by_cases hends : ∃ endsAt, rule.endsAt = some endsAt ∧ endsAt < startsAt
    · obtain ⟨endsAt, he, hlt⟩ := hends
      rw [expand_of_ends hstart hshape hwindow hnone (by rwa [he]),
        expand_of_ends hstart hshape hfrom hnone (by rwa [he])]
      rfl
    · have hend : ∀ t, startsAt ≤ t → startsAt ≤ rule.endsAt.getD t := by
        intro t ht
        cases he : rule.endsAt with
        | none => exact ht
        | some endsAt => exact Int.not_lt.mp fun hlt => hends ⟨endsAt, he, hlt⟩
      have hafter : startsAt ≤ toMs := by omega
      obtain ⟨all, hall⟩ := expands z existingCount hstart hshape hwindow
        hnone (hend toMs hafter)
      obtain ⟨first, hfirst⟩ := expands z existingCount hstart hshape
        hfrom hnone (hend mid hmid)
      obtain ⟨rest, hrest⟩ := expands z (existingCount + first.length)
        hstart hshape (Int.add_one_le_of_lt hto) hnone (hend toMs hafter)
      have hspec := (expandPublicationSchedule_spec hstart hall).2
      have hspec₁ := (expandPublicationSchedule_spec hstart hfirst).2
      have hspec₂ := (expandPublicationSchedule_spec hstart hrest).2
      rw [remaining_after] at hspec₂
      rw [hall, hfirst]
      change Except.ok all = expandPublicationSchedule z rule (mid + 1) toMs _ none >>= _
      rw [hrest, hspec.unique (hspec₁.append hspec₂ hfrom hto)]
      rfl

theorem expand_take {k : Nat} (hstart : rule.startsAt = some startsAt) (hk : 0 < k) :
    expandPublicationSchedule z rule fromMs toMs existingCount (some k) =
      (expandPublicationSchedule z rule fromMs toMs existingCount none).map (List.take k) := by
  have hmax : some k ≠ some 0 := fun h => by
    have := Option.some.inj h
    omega
  have hnone : (none : Option Nat) ≠ some 0 := nofun
  by_cases hwindow : fromMs ≤ toMs
  · cases hshape : assertRecurrenceShape rule with
    | error e =>
      rw [expand_of_shape hshape hwindow hmax, expand_of_shape hshape hwindow hnone]
      rfl
    | ok _ =>
      by_cases hend : rule.endsAt.getD toMs < startsAt
      · rw [expand_of_ends hstart hshape hwindow hmax hend,
          expand_of_ends hstart hshape hwindow hnone hend]
        rfl
      · have hend := Int.not_lt.mp hend
        obtain ⟨all, hall⟩ := expands z existingCount hstart hshape
          hwindow hnone hend
        obtain ⟨head, hhead⟩ := expands z existingCount hstart hshape
          hwindow hmax hend
        have hspec := (expandPublicationSchedule_spec hstart hall).2
        have hspec' := (expandPublicationSchedule_spec hstart hhead).2
        rw [hall, hhead, hspec'.unique (hspec.take k)]
        rfl
  · have hwindow := Int.not_le.mp hwindow
    rw [expandPublicationSchedule, if_pos hwindow, expandPublicationSchedule, if_pos hwindow]
    rfl

/-- A configured time of a selected day, at the earliest instant at which the clock shows it. -/
structure Selected (z : Zone) (rule : Recurrence) (startsAt t : Int) : Prop where
  day : recurrenceIncludesDay rule (z.localDay t) (z.localDay startsAt) = true
  time : ∃ time ∈ rule.times, z.localMs t = time.minutes * MINUTE_MS
  earliest : ∀ u, z.localDay u = z.localDay t → z.localMs u = z.localMs t → t ≤ u

theorem Occurs.selected {t : Int} (h : Occurs z rule startsAt t) : Selected z rule startsAt t := by
  obtain ⟨-, -, day, time, htime, hday, hres⟩ := h
  obtain ⟨hlocal, hms, hmin⟩ := z.resolve_eq_some hres
  refine ⟨hlocal ▸ hday, ⟨time, htime, hms⟩, fun u hu hu' => hmin u ?_ ?_⟩
  · rw [hu, hlocal]
  · rw [hu', hms]

/-- A window expands to the same instants in one batch or in two, a limit returns the first of them,
and a local time of a day is among them at most once. -/
theorem expansion_batch_independent (hstart : rule.startsAt = some startsAt) :
    (∀ fromMs mid toMs existingCount, fromMs ≤ mid → mid < toMs → startsAt ≤ mid →
      expandPublicationSchedule z rule fromMs toMs existingCount none = (do
        let first ← expandPublicationSchedule z rule fromMs mid existingCount none
        let rest ← expandPublicationSchedule z rule (mid + 1) toMs
          (existingCount + first.length) none
        return first ++ rest)) ∧
    (∀ fromMs toMs existingCount k, 0 < k →
      expandPublicationSchedule z rule fromMs toMs existingCount (some k) =
        (expandPublicationSchedule z rule fromMs toMs existingCount none).map (List.take k)) ∧
    ∀ fromMs toMs existingCount maxResults slots,
      expandPublicationSchedule z rule fromMs toMs existingCount maxResults = .ok slots →
        slots.Pairwise (· < ·) ∧
        (∀ t ∈ slots, fromMs ≤ t ∧ t ≤ toMs ∧ startsAt ≤ t ∧
          (∀ endsAt, rule.endsAt = some endsAt → t ≤ endsAt) ∧ Selected z rule startsAt t) ∧
        ∀ t ∈ slots, ∀ u ∈ slots, z.localDay t = z.localDay u → z.localMs t = z.localMs u →
          t = u := by
  refine ⟨fun _ _ _ _ => expand_batches hstart, fun _ _ _ _ => expand_take hstart, ?_⟩
  intro fromMs toMs existingCount maxResults slots h
  obtain ⟨-, hspec⟩ := expandPublicationSchedule_spec hstart h
  have hselected : ∀ t ∈ slots, Selected z rule startsAt t := fun t ht =>
    (hspec.segment.sound t ht).1.selected
  refine ⟨hspec.segment.sorted, fun t ht => ?_, fun t ht u hu hday hms => ?_⟩
  · obtain ⟨hocc, hfrom, hto⟩ := hspec.segment.sound t ht
    exact ⟨hfrom, hto, hocc.1, hocc.2.1, hselected t ht⟩
  · have hle := (hselected t ht).earliest u hday.symm hms.symm
    have hge := (hselected u hu).earliest t hday hms
    exact Int.le_antisymm hle hge

/-- Every other day at half past six in the evening and at nine. -/
def alternateDays : Recurrence where
  frequency := .daily
  interval := 2
  weekdays := []
  times := [⟨18, 30⟩, ⟨9, 0⟩]
  startsAt := some 25200000
  endsAt := none
  maxOccurrences := some 5
  latePolicy := true

theorem alternateDays_expand :
    expandPublicationSchedule utc alternateDays 0 (3 * DAY_MS) 0 none =
      .ok [32400000, 66600000, 205200000, 239400000] := by
  decide +kernel

theorem expansion_batch_independent_alternate_days :
    expandPublicationSchedule utc alternateDays 0 (3 * DAY_MS) 0 none = (do
      let first ← expandPublicationSchedule utc alternateDays 0 40000000 0 none
      let rest ← expandPublicationSchedule utc alternateDays (40000000 + 1) (3 * DAY_MS)
        (0 + first.length) none
      return first ++ rest) ∧
    expandPublicationSchedule utc alternateDays 0 (3 * DAY_MS) 0 (some 2) =
      (expandPublicationSchedule utc alternateDays 0 (3 * DAY_MS) 0 none).map (List.take 2) ∧
    [32400000, 66600000, 205200000, (239400000 : Int)].Pairwise (· < ·) ∧
    Selected utc alternateDays 25200000 205200000 := by
  have hstart : alternateDays.startsAt = some 25200000 := rfl
  obtain ⟨hbatch, htake, hslots⟩ := expansion_batch_independent (z := utc) hstart
  obtain ⟨hsorted, hsound, -⟩ := hslots 0 (3 * DAY_MS) 0 none _ alternateDays_expand
  refine ⟨hbatch 0 40000000 (3 * DAY_MS) 0 (by decide) (by decide) (by decide),
    htake 0 (3 * DAY_MS) 0 2 (by decide), hsorted, ?_⟩
  exact (hsound 205200000 (by decide)).2.2.2.2

end Maxim.Admin.Publication
