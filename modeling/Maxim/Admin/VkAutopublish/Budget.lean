import Maxim.Admin.VkAutopublish.Plan

/-!
# The attempts of the slot search

A turn of the search that finds no slot moves the candidate past a full day or
past an occupied slot, and neither comes back. The search ends before its
attempts do.
-/

namespace Maxim.Admin.VkAutopublish

open Maxim.Library

variable (rules : Rules) (occupiedMs : List Int) (usage : Usage)

/-- `attemptLimit` of `resolveCollisionFreeAllowedSlot`. -/
def attemptLimit : Nat := occupiedMs.length + usage.keys.length + 2

/-- The candidate that a turn of the search leaves to the next one. -/
def nextCandidate (candidateMs : ℚ) : Option ℚ := do
  let candidate ← newDate candidateMs
  let allowed ← resolveNextAllowedVkAutoPublishAt rules.calendar.toZone rules.windows candidate
  if rules.dailyLimit ≤ usage.get (rules.calendar.localDay allowed) then
    some (rules.calendar.nextDayStart allowed)
  else
    let nextCollisionFreeMs := advancePastChatSlotCollisions rules.clearanceMs allowed occupiedMs
    if nextCollisionFreeMs = allowed then none else some nextCollisionFreeMs

def skipped : Nat → ℚ → Option ℚ
  | 0, candidateMs => some candidateMs
  | n + 1, candidateMs => (nextCandidate rules occupiedMs usage candidateMs).bind (skipped n)

/-- The search gives up only where no minute is allowed, and its skips are within the budget. -/
structure WithinBudget (earliestMs : ℚ) : Prop where
  null : resolveSlot rules occupiedMs usage (attemptLimit occupiedMs usage + 1) earliestMs = .ok none →
    ∃ n ≤ attemptLimit occupiedMs usage, ∃ candidateMs candidate,
      skipped rules occupiedMs usage n earliestMs = some candidateMs ∧
        newDate candidateMs = some candidate ∧
        resolveNextAllowedVkAutoPublishAt rules.calendar.toZone rules.windows candidate = none
  skips : ∀ n candidateMs, skipped rules occupiedMs usage n earliestMs = some candidateMs →
    n ≤ occupiedMs.length + usage.keys.length

/-- The occupied slots that are not behind an instant, and the days in use that are not over. -/
def ahead (t : Int) : Nat :=
  occupiedMs.countP (fun o : Int => (t : ℚ) - rules.clearanceMs < o) +
    usage.keys.countP fun day => rules.calendar.localDay t ≤ day

variable {rules occupiedMs usage}

theorem countP_lt_of_mem {α : Type} {p q : α → Bool} {l : List α} {a : α} (ha : a ∈ l)
    (hpq : ∀ b, p b = true → q b = true) (hp : p a = false) (hq : q a = true) :
    l.countP p < l.countP q := by
  obtain ⟨l₁, l₂, rfl⟩ := List.append_of_mem ha
  have h₁ : l₁.countP p ≤ l₁.countP q := List.countP_mono_left fun b _ => hpq b
  have h₂ : l₂.countP p ≤ l₂.countP q := List.countP_mono_left fun b _ => hpq b
  rw [List.countP_append, List.countP_append, List.countP_cons, List.countP_cons, hp, hq]
  simp only [Bool.false_eq_true, if_false, if_true]
  omega

theorem slots_ahead_le {t e : Int} (h : t ≤ e) :
    occupiedMs.countP (fun o : Int => (e : ℚ) - rules.clearanceMs < o) ≤
      occupiedMs.countP fun o : Int => (t : ℚ) - rules.clearanceMs < o := by
  refine List.countP_mono_left fun o _ ho => ?_
  have hle : (t : ℚ) ≤ e := Int.cast_le.mpr h
  exact decide_eq_true (lt_of_le_of_lt (by linarith) (of_decide_eq_true ho))

theorem days_ahead_le {t e : Int} (h : t ≤ e) :
    usage.keys.countP (fun day => rules.calendar.localDay e ≤ day) ≤
      usage.keys.countP fun day => rules.calendar.localDay t ≤ day := by
  refine List.countP_mono_left fun day _ hday => ?_
  exact decide_eq_true (le_trans (rules.calendar.localDay_mono t e h) (of_decide_eq_true hday))

theorem ahead_le {t e : Int} (h : t ≤ e) : ahead rules occupiedMs usage e ≤ ahead rules occupiedMs usage t :=
  Nat.add_le_add (slots_ahead_le h) (days_ahead_le h)

theorem mem_keys_of_get {day : Int} (h : 0 < usage.get day) : day ∈ usage.keys := by
  by_contra hday
  rw [Usage.get, AList.lookup_eq_none.mpr hday] at h
  exact absurd h (by decide)

theorem ahead_nextDayStart {t : Int} (h : 0 < usage.get (rules.calendar.localDay t)) :
    ahead rules occupiedMs usage (rules.calendar.nextDayStart t) < ahead rules occupiedMs usage t := by
  have hlater := rules.calendar.localDay_nextDayStart t
  have hle : t ≤ rules.calendar.nextDayStart t := by
    by_contra hlt
    have hmono := rules.calendar.localDay_mono _ _ (Int.le_of_lt (Int.not_le.mp hlt))
    omega
  refine Nat.add_lt_add_of_le_of_lt (slots_ahead_le hle) (countP_lt_of_mem (mem_keys_of_get h) ?_ ?_ ?_)
  · exact fun day hday => decide_eq_true (le_trans (le_of_lt hlater) (of_decide_eq_true hday))
  · exact decide_eq_false (by omega)
  · exact decide_eq_true (le_refl _)

theorem advance_cases (clearanceMs resultMs : ℚ) (occupiedMs : List Int) :
    advancePastChatSlotCollisions clearanceMs resultMs occupiedMs = resultMs ∨
      ∃ o ∈ occupiedMs, resultMs - clearanceMs < o ∧
        advancePastChatSlotCollisions clearanceMs resultMs occupiedMs = o + clearanceMs := by
  induction occupiedMs generalizing resultMs with
  | nil => exact .inl rfl
  | cons occupiedAtMs rest ih =>
    unfold advancePastChatSlotCollisions
    split
    · rcases ih resultMs with h | ⟨o, ho, hlt, h⟩
      · exact .inl h
      · exact .inr ⟨o, List.mem_cons_of_mem _ ho, hlt, h⟩
    next hnear =>
      split
      · exact .inl rfl
      · have hlt := not_le.mp hnear
        refine .inr ?_
        rcases ih (occupiedAtMs + clearanceMs) with h | ⟨o, ho, hlater, h⟩
        · exact ⟨occupiedAtMs, List.mem_cons_self, hlt, h⟩
        · exact ⟨o, List.mem_cons_of_mem _ ho, by linarith, h⟩

theorem nextCandidate_spec {clearance : Int} (hclearance : rules.clearanceMs = clearance)
    (hlimit : 1 ≤ rules.dailyLimit) {candidateMs nextMs : ℚ} {t : Int}
    (hdate : newDate candidateMs = some t)
    (h : nextCandidate rules occupiedMs usage candidateMs = some nextMs) :
    ∃ e : Int, nextMs = e ∧ ahead rules occupiedMs usage e < ahead rules occupiedMs usage t := by
  unfold nextCandidate at h
  rw [hdate, Option.bind_eq_bind, Option.bind_some] at h
  obtain ⟨allowed, hallowed, h⟩ := Option.bind_eq_some_iff.mp h
  have hle := @ahead_le rules occupiedMs usage _ _ (resolveNextAllowed_spec hallowed).1
  by_cases hquota : rules.dailyLimit ≤ usage.get (rules.calendar.localDay allowed)
  · rw [if_pos hquota] at h
    exact ⟨_, (Option.some.inj h).symm, lt_of_lt_of_le (ahead_nextDayStart (by omega)) hle⟩
  · rw [if_neg hquota] at h
    rcases advance_cases rules.clearanceMs allowed occupiedMs with hsame | ⟨o, ho, hlt, hmoved⟩
    · dsimp only at h
      rw [if_pos hsame] at h
      cases h
    · dsimp only at h
      split at h
      · cases h
      obtain rfl := Option.some.inj h
      refine ⟨o + clearance, by rw [hmoved, hclearance, Int.cast_add], lt_of_lt_of_le ?_ hle⟩
      have hstep : allowed ≤ o + clearance := by
        have hcast : (allowed : ℚ) < ((o + clearance : Int) : ℚ) := by
          rw [Int.cast_add, ← hclearance]
          linarith
        exact le_of_lt (Int.cast_lt.mp hcast)
      refine Nat.add_lt_add_of_lt_of_le (countP_lt_of_mem ho ?_ ?_ ?_) (days_ahead_le hstep)
      · intro b hb
        have hcast : (allowed : ℚ) ≤ ((o + clearance : Int) : ℚ) := Int.cast_le.mpr hstep
        exact decide_eq_true (lt_of_le_of_lt (by linarith) (of_decide_eq_true hb))
      · rw [Int.cast_add, ← hclearance]
        exact decide_eq_false (by linarith)
      · exact decide_eq_true hlt

theorem newDate_cast {e t : Int} (h : newDate e = some t) : t = e := by
  unfold newDate at h
  split at h
  · cases h
  · obtain rfl := Option.some.inj h
    rw [Rat.num_intCast, Rat.den_intCast]
    exact Int.tdiv_one e

theorem skipped_le {clearance : Int} (hclearance : rules.clearanceMs = clearance)
    (hlimit : 1 ≤ rules.dailyLimit) {n : Nat} {candidateMs lastMs : ℚ} {t : Int}
    (hdate : newDate candidateMs = some t)
    (h : skipped rules occupiedMs usage n candidateMs = some lastMs) :
    n ≤ ahead rules occupiedMs usage t := by
  induction n generalizing candidateMs t with
  | zero => exact Nat.zero_le _
  | succ n ih =>
    obtain ⟨nextMs, hnext, h⟩ := Option.bind_eq_some_iff.mp h
    obtain ⟨e, rfl, hlt⟩ := nextCandidate_spec hclearance hlimit hdate hnext
    cases hd : newDate (e : ℚ) with
    | none =>
      cases n with
      | zero => omega
      | succ n =>
        rw [skipped, nextCandidate, hd] at h
        cases h
    | some t' =>
      obtain rfl := newDate_cast hd
      have hle := ih hd h
      omega

/-- A search without result stops at a candidate without an allowed minute, or all its turns skip. -/
theorem resolveSlot_none {attempts : Nat} {candidateMs : ℚ}
    (h : resolveSlot rules occupiedMs usage attempts candidateMs = .ok none) :
    (∃ n < attempts, ∃ lastMs candidate,
      skipped rules occupiedMs usage n candidateMs = some lastMs ∧ newDate lastMs = some candidate ∧
        resolveNextAllowedVkAutoPublishAt rules.calendar.toZone rules.windows candidate = none) ∨
      ∃ lastMs, skipped rules occupiedMs usage attempts candidateMs = some lastMs := by
  induction attempts generalizing candidateMs with
  | zero => exact .inr ⟨candidateMs, rfl⟩
  | succ attempts ih =>
    have hlater {nextMs : ℚ} (hnext : nextCandidate rules occupiedMs usage candidateMs = some nextMs)
        (h : resolveSlot rules occupiedMs usage attempts nextMs = .ok none) :
        (∃ n < attempts + 1, ∃ lastMs candidate,
          skipped rules occupiedMs usage n candidateMs = some lastMs ∧
            newDate lastMs = some candidate ∧
            resolveNextAllowedVkAutoPublishAt rules.calendar.toZone rules.windows candidate = none) ∨
          ∃ lastMs, skipped rules occupiedMs usage (attempts + 1) candidateMs = some lastMs := by
      have hskip (n : Nat) : skipped rules occupiedMs usage (n + 1) candidateMs =
          skipped rules occupiedMs usage n nextMs := by
        rw [skipped, hnext, Option.bind_some]
      rcases ih h with ⟨n, hn, lastMs, candidate, hlast, hstop⟩ | ⟨lastMs, hlast⟩
      · exact .inl ⟨n + 1, by omega, lastMs, candidate, (hskip n).trans hlast, hstop⟩
      · exact .inr ⟨lastMs, (hskip attempts).trans hlast⟩
    obtain ⟨candidate, hcandidate, h⟩ := bind_eq_ok.mp h
    have hdate : newDate candidateMs = some candidate := by
      cases hd : newDate candidateMs with
      | none => rw [hd] at hcandidate; cases hcandidate
      | some ms => rw [hd] at hcandidate; exact congrArg some (Except.ok.inj hcandidate)
    cases hallowed : resolveNextAllowedVkAutoPublishAt rules.calendar.toZone rules.windows candidate with
    | none => exact .inl ⟨0, by omega, candidateMs, candidate, rfl, hdate, hallowed⟩
    | some allowed =>
      rw [hallowed] at h
      dsimp only at h
      have hnext : nextCandidate rules occupiedMs usage candidateMs =
          if rules.dailyLimit ≤ usage.get (rules.calendar.localDay allowed) then
            some (rules.calendar.nextDayStart allowed : ℚ)
          else if advancePastChatSlotCollisions rules.clearanceMs allowed occupiedMs = allowed then none
          else some (advancePastChatSlotCollisions rules.clearanceMs allowed occupiedMs) := by
        rw [nextCandidate, hdate, Option.bind_eq_bind, Option.bind_some, hallowed]
        rfl
      split at h
      · next hquota => exact hlater (hnext.trans (if_pos hquota)) h
      next hquota =>
        split at h
        · cases h
        · next hmoved => exact hlater (hnext.trans ((if_neg hquota).trans (if_neg hmoved))) h

/-- The attempts suffice, for every clearance of whole milliseconds. -/
theorem search_within_budget {clearance : Nat} (hclearance : rules.clearanceMs = clearance)
    (hlimit : 1 ≤ rules.dailyLimit) (earliestMs : ℚ) :
    WithinBudget rules occupiedMs usage earliestMs := by
  have hwhole : rules.clearanceMs = ((clearance : Int) : ℚ) := by rw [hclearance]; rfl
  have hskips : ∀ n candidateMs, skipped rules occupiedMs usage n earliestMs = some candidateMs →
      n ≤ occupiedMs.length + usage.keys.length := by
    intro n candidateMs h
    cases hd : newDate earliestMs with
    | none =>
      cases n with
      | zero => exact Nat.zero_le _
      | succ n =>
        rw [skipped, nextCandidate, hd] at h
        cases h
    | some t =>
      have hle := skipped_le hwhole hlimit hd h
      have hslots := List.countP_le_length (p := fun o : Int => (t : ℚ) - rules.clearanceMs < o)
        (l := occupiedMs)
      have hdays := List.countP_le_length (p := fun day : Int => rules.calendar.localDay t ≤ day)
        (l := usage.keys)
      exact le_trans hle (Nat.add_le_add hslots hdays)
  refine ⟨fun hnull => ?_, hskips⟩
  rcases resolveSlot_none hnull with ⟨n, hn, hstop⟩ | ⟨lastMs, hlast⟩
  · exact ⟨n, Nat.lt_succ_iff.mp hn, hstop⟩
  · have hle := hskips _ _ hlast
    rw [attemptLimit] at hle
    omega

/-! ## A full day, an occupied slot, and half a millisecond -/

def sampleRules (clearanceMs : ℚ) : Rules where
  calendar := utcZones.moscow
  windows := ⟨⟨0, 0⟩, none, none⟩
  clearanceMs
  dailyLimit := 1

theorem search_within_budget_full : WithinBudget (sampleRules 60000) [86400000] ((∅ : Usage).insert 0 1) 7 ∧
    resolveSlot (sampleRules 60000) [86400000] ((∅ : Usage).insert 0 1) 5 7 = .ok (some 86460000) :=
  ⟨search_within_budget (by rfl) (by decide) 7, by decide +kernel⟩

/-- The fraction is cut off, and the same collision is found again until the attempts are used up. -/
theorem halfMillisecond_exhausts : ¬WithinBudget (sampleRules (1 / 2)) [0] ∅ 0 := by
  intro h
  obtain ⟨n, -, lastMs, candidate, -, -, hnone⟩ := h.null (by decide +kernel)
  have hallowed : isMinuteAllowed (localMinute utcZones.moscow.toZone candidate) ⟨⟨0, 0⟩, none, none⟩ =
      true := rfl
  rw [resolveNextAllowedVkAutoPublishAt, sampleRules, if_pos hallowed] at hnone
  cases hnone

end Maxim.Admin.VkAutopublish
