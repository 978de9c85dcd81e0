import Maxim.Admin.VkAutopublish.LocalDays
import Maxim.Admin.VkAutopublish.Budget

/-!
# The earliest slot

Every move of the search passes over instants that the rules forbid: minutes
outside the windows, the rest of a full day, and the surroundings of an occupied
slot. Where the days are plain and the clock counts whole minutes, no allowed
instant is lost.
-/

namespace Maxim.Admin.VkAutopublish

open Maxim.Library

/-- The clock shows a whole minute at each whole minute, and runs on to the next one. -/
def Aligned (localMs : Int → Int) (u : Int) : Prop :=
  localMs (u - u % MINUTE_MS) % MINUTE_MS = 0 ∧
    localMs u = localMs (u - u % MINUTE_MS) + u % MINUTE_MS

/-! ## Minutes -/

section Minutes

variable {z : Zone} {windows : Windows} {u cursor b t : Int}

theorem emod_minute (u : Int) : 0 ≤ u % MINUTE_MS ∧ u % MINUTE_MS < MINUTE_MS :=
  ⟨Int.emod_nonneg u (by decide), Int.emod_lt_of_pos u (by decide)⟩

theorem Aligned.localMs_emod (h : Aligned z.localMs u) : z.localMs u % MINUTE_MS = u % MINUTE_MS := by
  obtain ⟨hwhole, hms⟩ := h
  simp only [MINUTE_MS] at *
  omega

theorem Aligned.localMinute_eq (h : Aligned z.localMs u) :
    localMinute z u = localMinute z (u - u % MINUTE_MS) := by
  obtain ⟨hwhole, hms⟩ := h
  unfold localMinute
  simp only [MINUTE_MS] at *
  omega

theorem localMinute_congr (h : Aligned z.localMs u) (ht : Aligned z.localMs t)
    (hsame : u - u % MINUTE_MS = t - t % MINUTE_MS) : localMinute z u = localMinute z t := by
  rw [h.localMinute_eq, hsame, ← ht.localMinute_eq]

theorem searchAllowed_first {turns : Nat} (hcursor : cursor % MINUTE_MS = 0)
    (h : searchAllowed z windows turns cursor = some t)
    (haligned : ∀ u, cursor ≤ u → u < t → Aligned z.localMs u) :
    t % MINUTE_MS = 0 ∧
      ∀ u, cursor ≤ u → u < t → isMinuteAllowed (localMinute z u) windows = false := by
  induction turns generalizing cursor with
  | zero => cases h
  | succ turns ih =>
    unfold searchAllowed at h
    split at h
    · obtain rfl := Option.some.inj h
      exact ⟨hcursor, fun u hu hut => absurd hut (not_lt.mpr hu)⟩
    · next hforbidden =>
      have hpos : 0 < MINUTE_MS := by decide
      have hnext : (cursor + MINUTE_MS) % MINUTE_MS = 0 := by
        rw [Int.add_emod_right]
        exact hcursor
      obtain ⟨hwhole, hlater⟩ := ih hnext h fun u hu => haligned u (by omega)
      refine ⟨hwhole, fun u hu hut => ?_⟩
      by_cases hminute : u < cursor + MINUTE_MS
      · have hstart : u - u % MINUTE_MS = cursor - cursor % MINUTE_MS := by
          simp only [MINUTE_MS] at *
          omega
        have hle := (searchAllowed_spec h).1
        rw [localMinute_congr (haligned u hu hut) (haligned cursor (le_refl _) (by omega)) hstart]
        exact Bool.eq_false_iff.mpr hforbidden
      · exact hlater u (not_lt.mp hminute) hut

theorem resolveNextAllowed_first (h : resolveNextAllowedVkAutoPublishAt z windows b = some t)
    (haligned : ∀ u, b ≤ u → u < t → Aligned z.localMs u) :
    (t = b ∨ t % MINUTE_MS = 0) ∧
      ∀ u, b ≤ u → u < t → isMinuteAllowed (localMinute z u) windows = false := by
  rcases eq_or_lt_of_le (resolveNextAllowed_spec h).1 with rfl | hlt
  · exact ⟨.inl rfl, fun u hu hut => absurd hut (not_lt.mpr hu)⟩
  have hb := haligned b (le_refl _) hlt
  unfold resolveNextAllowedVkAutoPublishAt at h
  split at h
  · rw [Option.some.inj h] at hlt
    exact absurd hlt (lt_irrefl _)
  next hforbidden =>
    split at h
    · cases h
    dsimp only at h
    rw [hb.localMs_emod] at h
    generalize hcursor : (if b - b % MINUTE_MS < b then b - b % MINUTE_MS + MINUTE_MS
      else b - b % MINUTE_MS) = cursor at h
    have hbounds : cursor % MINUTE_MS = 0 ∧ b ≤ cursor ∧ ∀ u, b ≤ u → u < cursor →
        u - u % MINUTE_MS = b - b % MINUTE_MS := by
      obtain ⟨hnonneg, hminute⟩ := emod_minute b
      by_cases hmid : b - b % MINUTE_MS < b
      · rw [if_pos hmid] at hcursor
        simp only [MINUTE_MS] at *
        refine ⟨by omega, by omega, fun u hu hlt => by omega⟩
      · rw [if_neg hmid] at hcursor
        simp only [MINUTE_MS] at *
        refine ⟨by omega, by omega, fun u hu hlt => by omega⟩
    obtain ⟨hwhole, hbefore, hminute⟩ := hbounds
    obtain ⟨hlast, hlater⟩ := searchAllowed_first hwhole h fun u hu => haligned u (by omega)
    refine ⟨.inr hlast, fun u hu hut => ?_⟩
    by_cases hsame : u < cursor
    · rw [localMinute_congr (haligned u hu hut) hb (hminute u hu hsame)]
      exact Bool.eq_false_iff.mpr hforbidden
    · exact hlater u (not_lt.mp hsame) hut

end Minutes

/-! ## Collisions -/

theorem advance_blocks {clearanceMs resultMs x : ℚ} {occupiedMs : List Int} (hx : resultMs ≤ x)
    (hlt : x < advancePastChatSlotCollisions clearanceMs resultMs occupiedMs) :
    ∃ o ∈ occupiedMs, |x - o| < clearanceMs := by
  induction occupiedMs generalizing resultMs with
  | nil => exact absurd hlt (not_lt.mpr hx)
  | cons o rest ih =>
    unfold advancePastChatSlotCollisions at hlt
    split at hlt
    · obtain ⟨o', ho', hnear⟩ := ih hx hlt
      exact ⟨o', List.mem_cons_of_mem _ ho', hnear⟩
    next hbehind =>
      split at hlt
      · exact absurd hlt (not_lt.mpr hx)
      next hahead =>
        by_cases hpast : (o : ℚ) + clearanceMs ≤ x
        · obtain ⟨o', ho', hnear⟩ := ih hpast hlt
          exact ⟨o', List.mem_cons_of_mem _ ho', hnear⟩
        · refine ⟨o, List.mem_cons_self, abs_lt.mpr ⟨?_, ?_⟩⟩
          · linarith [not_le.mp hahead]
          · linarith [not_le.mp hpast]

theorem lt_of_newDate {ms : ℚ} {b u : Int} (h : newDate ms = some b) (hu : u < b) : (u : ℚ) < ms := by
  by_contra hle
  have hle := not_lt.mp hle
  unfold newDate at h
  split at h
  · cases h
  obtain rfl := Option.some.inj h
  have hden : (0 : Int) < ms.den := by exact_mod_cast ms.den_pos
  have hmul : ms.num ≤ u * ms.den := by
    have hle := Rat.le_iff _ _ |>.mp hle
    simpa using hle
  have htdiv : ms.num.tdiv ms.den ≤ u := by
    have hmono := Int.tdiv_le_tdiv hden hmul
    rwa [Int.mul_tdiv_cancel u (ne_of_gt hden)] at hmono
  omega

/-! ## One slot -/

variable {c : DayClock} {rules : Rules} {occupiedMs : List Int} {usage : Usage} {roundRobin : Bool}
  {spacingMs : ℚ} {b b' slot t u : Int}

/-- The planner's zone is that of the clock. -/
structure DayClock.Drives (c : DayClock) (calendar : Calendar) : Prop where
  localDay : calendar.localDay = c.localDay
  localMs : calendar.localMs = c.localMs
  nextDayStart : ∀ t, calendar.nextDayStart t = resolveNextLocalDayStartMs c t

/-- The date of the instant and the next one are plain, and its clock counts whole minutes. -/
structure DayClock.Regular (c : DayClock) (u : Int) : Prop where
  plain : ∃ first next, c.Plain u first next
  aligned : Aligned c.localMs u

/-- The lower bound, a whole minute, the start of a day, or an instant that is just clear of an occupied
slot. -/
inductive Stop (rules : Rules) (occupiedMs : List Int) (b slot : Int) : Prop
  | bound (h : slot = b)
  | minute (h : slot % MINUTE_MS = 0)
  | day (u : Int) (hu : b ≤ u) (h : slot = rules.calendar.nextDayStart u)
  | clear (o : Int) (ho : o ∈ occupiedMs) (h : newDate (o + rules.clearanceMs) = some slot)

/-- No instant from the bound on satisfies the rules earlier. -/
structure Earliest (rules : Rules) (occupiedMs : List Int) (usage : Usage) (b slot : Int) : Prop where
  bound : b ≤ slot
  free : Free rules occupiedMs usage slot
  stop : Stop rules occupiedMs b slot
  first : ∀ u, b ≤ u → u < slot → ¬Free rules occupiedMs usage u

theorem Stop.trans (h : Stop rules occupiedMs b b') (h' : Stop rules occupiedMs b' slot)
    (hle : b ≤ b') : Stop rules occupiedMs b slot := by
  cases h' with
  | bound h' => exact h' ▸ h
  | minute h' => exact .minute h'
  | day u hu h' => exact .day u (le_trans hle hu) h'
  | clear o ho h' => exact .clear o ho h'

theorem Earliest.move (hle : b ≤ b') (hstop : Stop rules occupiedMs b b')
    (hpassed : ∀ u, b ≤ u → u < b' → ¬Free rules occupiedMs usage u)
    (h : Earliest rules occupiedMs usage b' slot) : Earliest rules occupiedMs usage b slot := by
  refine ⟨le_trans hle h.bound, h.free, hstop.trans h.stop hle, fun u hu hlt => ?_⟩
  rcases lt_or_ge u b' with hbefore | hafter
  · exact hpassed u hu hbefore
  · exact h.first u hafter hlt

theorem newDate_of_read {ms : ℚ} {candidate : Int}
    (h : readDate (newDate ms) "candidate" = .ok candidate) : newDate ms = some candidate := by
  cases hd : newDate ms with
  | none => rw [hd] at h; cases h
  | some t => rw [hd] at h; exact congrArg some (Except.ok.inj h)

theorem resolveSlot_dated {attempts : Nat} {candidateMs : ℚ}
    (h : resolveSlot rules occupiedMs usage attempts candidateMs = .ok (some slot)) :
    ∃ b, newDate candidateMs = some b := by
  cases attempts with
  | zero => cases h
  | succ attempts =>
    obtain ⟨candidate, hcandidate, -⟩ := bind_eq_ok.mp h
    exact ⟨candidate, newDate_of_read hcandidate⟩

theorem lt_nextDayStart (rules : Rules) (t : Int) : t < rules.calendar.nextDayStart t := by
  by_contra hle
  have hmono := rules.calendar.localDay_mono _ _ (not_lt.mp hle)
  have hlater := rules.calendar.localDay_nextDayStart t
  omega

theorem full_day (hc : c.Drives rules.calendar) (hplain : ∃ first next, c.Plain t first next)
    (hquota : rules.dailyLimit ≤ usage.get (rules.calendar.localDay t)) (hle : t ≤ u)
    (hlt : u < rules.calendar.nextDayStart t) : ¬Free rules occupiedMs usage u := by
  obtain ⟨first, next, hplain⟩ := hplain
  intro hfree
  rw [hc.nextDayStart, hplain.next_eq] at hlt
  have hfirst := (hplain.stretch t).mp rfl
  have hday := (hplain.stretch u).mpr ⟨le_trans hfirst.1 hle, hlt⟩
  have hcount := hfree.quota
  rw [hc.localDay, hday] at hcount
  rw [hc.localDay] at hquota
  omega

theorem forbidden_minutes (hc : c.Drives rules.calendar)
    (hnext : resolveNextAllowedVkAutoPublishAt rules.calendar.toZone rules.windows b = some t)
    (hregular : ∀ u, b ≤ u → u < t → c.Regular u) :
    Stop rules occupiedMs b t ∧ ∀ u, b ≤ u → u < t → ¬Free rules occupiedMs usage u := by
  obtain ⟨hkind, hforbidden⟩ := resolveNextAllowed_first hnext fun u hu hlt =>
    hc.localMs ▸ (hregular u hu hlt).aligned
  refine ⟨hkind.elim .bound .minute, fun u hu hlt hfree => ?_⟩
  have hallowed := hfree.allowed
  rw [hforbidden u hu hlt] at hallowed
  cases hallowed

theorem resolveSlot_bound (hs : occupiedMs.Pairwise (· ≤ ·)) {attempts : Nat} {candidateMs : ℚ}
    (hb : newDate candidateMs = some b)
    (h : resolveSlot rules occupiedMs usage attempts candidateMs = .ok (some slot)) : b ≤ slot := by
  cases attempts with
  | zero => cases h
  | succ attempts =>
    obtain ⟨candidate, hcandidate, h⟩ := bind_eq_ok.mp h
    obtain rfl := Option.some.inj (hb.symm.trans (newDate_of_read hcandidate))
    cases hnext : resolveNextAllowedVkAutoPublishAt rules.calendar.toZone rules.windows b with
    | none =>
      rw [hnext] at h
      cases h
    | some allowed =>
      rw [hnext] at h
      dsimp only at h
      refine le_trans (resolveNextAllowed_spec hnext).1 ?_
      split at h
      · have hday := (resolveSlot_spec hs h).1 _ (le_refl _)
        exact le_trans (le_of_lt (lt_nextDayStart rules allowed)) hday
      · split at h
        · rw [Option.some.inj (Except.ok.inj h)]
        · exact (resolveSlot_spec hs h).1 allowed (advance_le _ _ _)

/-- The search returns the earliest free instant, as long as the days on its way are regular. -/
theorem resolveSlot_earliest (hc : c.Drives rules.calendar) (hs : occupiedMs.Pairwise (· ≤ ·))
    {attempts : Nat} {candidateMs : ℚ} (hb : newDate candidateMs = some b)
    (h : resolveSlot rules occupiedMs usage attempts candidateMs = .ok (some slot))
    (hregular : ∀ u, b ≤ u → u < slot → c.Regular u) : Earliest rules occupiedMs usage b slot := by
  have hfree := (resolveSlot_spec hs h).2
  induction attempts generalizing candidateMs b with
  | zero => cases h
  | succ attempts ih =>
    obtain ⟨candidate, hcandidate, h⟩ := bind_eq_ok.mp h
    obtain rfl := Option.some.inj (hb.symm.trans (newDate_of_read hcandidate))
    cases hnext : resolveNextAllowedVkAutoPublishAt rules.calendar.toZone rules.windows b with
    | none =>
      rw [hnext] at h
      cases h
    | some allowed =>
      rw [hnext] at h
      dsimp only at h
      have hle := (resolveNextAllowed_spec hnext).1
      have hminutes : allowed ≤ slot → Stop rules occupiedMs b allowed ∧
          ∀ u, b ≤ u → u < allowed → ¬Free rules occupiedMs usage u := fun hslot =>
        forbidden_minutes hc hnext fun u hu hlt => hregular u hu (lt_of_lt_of_le hlt hslot)
      have hmove : ∀ {nextMs : ℚ} {b' : Int}, newDate nextMs = some b' →
          resolveSlot rules occupiedMs usage attempts nextMs = .ok (some slot) → allowed ≤ b' →
          Stop rules occupiedMs b b' →
          (∀ u, allowed ≤ u → u < b' → ¬Free rules occupiedMs usage u) →
          Earliest rules occupiedMs usage b slot := by
        intro nextMs b' hb' h hlater hstop hpassed
        have hslot := resolveSlot_bound hs hb' h
        have hrest := ih hb' h fun u hu => hregular u (le_trans hle (le_trans hlater hu))
        refine hrest.move (le_trans hle hlater) hstop fun u hu hlt => ?_
        rcases lt_or_ge u allowed with hbefore | hafter
        · exact (hminutes (le_trans hlater hslot)).2 u hu hbefore
        · exact hpassed u hafter hlt
      split at h
      · next hquota =>
        have hlt := lt_nextDayStart rules allowed
        have hslot := (resolveSlot_spec hs h).1 _ (le_refl _)
        obtain ⟨b', hdate⟩ := resolveSlot_dated h
        obtain rfl := newDate_cast hdate
        refine hmove hdate h (le_of_lt hlt) (.day allowed hle rfl) fun u hu hu' => ?_
        exact full_day hc (hregular allowed hle (lt_of_lt_of_le hlt hslot)).plain hquota hu hu'
      · split at h
        · obtain rfl := Option.some.inj (Except.ok.inj h)
          obtain ⟨hstop, hpassed⟩ := hminutes (le_refl _)
          exact ⟨hle, hfree, hstop, hpassed⟩
        · next hcollides =>
          obtain ⟨b', hdate⟩ := resolveSlot_dated h
          obtain hsame | ⟨o, ho, -, hmoved⟩ := advance_cases rules.clearanceMs allowed occupiedMs
          · exact absurd hsame hcollides
          have hlater := le_of_newDate hdate (advance_le _ _ _)
          refine hmove hdate h hlater (.clear o ho (hmoved ▸ hdate)) fun u hu hu' hclear => ?_
          obtain ⟨o', ho', hnear⟩ := advance_blocks (Int.cast_le.mpr hu) (lt_of_newDate hdate hu')
          exact absurd (hclear.clear o' ho') (not_le.mpr hnear)

/-! ## The plan -/

/-- Every slot is the earliest one for what is taken before it. -/
def EarliestPlan (rules : Rules) (roundRobin : Bool) (spacingMs : ℚ) :
    ℚ → List Int → Usage → List Int → Prop
  | _, _, _, [] => True
  | earliestMs, occupiedMs, usage, slot :: rest =>
    (∃ b, newDate earliestMs = some b ∧ Earliest rules occupiedMs usage b slot) ∧
      EarliestPlan rules roundRobin spacingMs (slot + spacingMs)
        (if roundRobin then insertSorted occupiedMs slot else occupiedMs)
        (incrementQuotaUsage usage (rules.calendar.localDay slot)) rest

def RegularUntil (c : DayClock) (earliestMs : ℚ) (slots : List Int) : Prop :=
  ∀ b, newDate earliestMs = some b → ∀ slot ∈ slots, ∀ u, b ≤ u → u < slot → c.Regular u

theorem planSlots_earliest (hc : c.Drives rules.calendar) (hspacing : 0 ≤ spacingMs) {count : Nat}
    {earliestMs : ℚ} {slots : List Int} (hs : occupiedMs.Pairwise (· ≤ ·))
    (h : planSlots rules roundRobin spacingMs count earliestMs occupiedMs usage = .ok slots)
    (hregular : RegularUntil c earliestMs slots) :
    EarliestPlan rules roundRobin spacingMs earliestMs occupiedMs usage slots := by
  induction count generalizing earliestMs occupiedMs usage slots with
  | zero =>
    obtain rfl := Except.ok.inj h
    trivial
  | succ count ih =>
    obtain ⟨found, hfound, h⟩ := bind_eq_ok.mp h
    cases found with
    | none => cases h
    | some slot =>
      obtain ⟨rest, hrest, h⟩ := bind_eq_ok.mp h
      obtain rfl := Except.ok.inj h
      obtain ⟨b, hb⟩ := resolveSlot_dated hfound
      have hearliest := resolveSlot_earliest hc hs hb hfound (hregular b hb slot List.mem_cons_self)
      refine ⟨⟨b, hb, hearliest⟩, ih ?_ hrest fun b' hb' later hlater u hu => ?_⟩
      · split
        · exact insertSorted_sorted hs slot
        · exact hs
      · have hnext : slot ≤ b' := le_of_newDate hb' (by linarith)
        have hbound := hearliest.bound
        exact hregular b hb later (List.mem_cons_of_mem _ hlater) u (by omega)

def planRules (zones : Zones) (options : PlanOptions) : Rules where
  calendar := zones.normalize options.settings.schedulerTimezone
  windows := parseScheduleWindows options.settings options.source
  clearanceMs := clearanceMs options
  dailyLimit := readPositiveInteger options.source.dailyLimit DEFAULT_DAILY_LIMIT

/-- What the planner has read when it takes the first slot. -/
structure Prepared (zones : Zones) (options : PlanOptions) (earliestMs : ℚ) (occupiedMs : List Int)
    (usage : Usage) : Prop where
  bound : ∃ nowMs lastSourceMs, options.now = some nowMs ∧
    options.lastSourceAt = lastSourceMs.map some ∧
    earliestMs = earliest nowMs lastSourceMs (sourceSpacingMs options)
  occupied : readOccupied options = .ok occupiedMs
  usage : ∀ day, usage.get day =
    recordedOn (zones.normalize options.settings.schedulerTimezone).toZone options day

theorem plan_prepared {zones : Zones} {options : PlanOptions} {slots : List Int}
    (h : planVkAutoPublishSourceSlots zones options = .ok slots) (hslots : slots ≠ []) :
    ∃ earliestMs occupiedMs usage, Prepared zones options earliestMs occupiedMs usage ∧
      0 ≤ sourceSpacingMs options ∧
      planSlots (planRules zones options) options.settings.roundRobinEnabled (sourceSpacingMs options)
        options.count.num.toNat earliestMs occupiedMs usage = .ok slots := by
  unfold planVkAutoPublishSourceSlots at h
  split at h
  · cases h
  · split at h
    · exact absurd (Except.ok.inj h).symm hslots
    · obtain ⟨nowMs, hnow, h⟩ := bind_eq_ok.mp h
      obtain ⟨lastSourceMs, hlast, h⟩ := bind_eq_ok.mp h
      obtain ⟨spacingMs, hspacing, h⟩ := bind_eq_ok.mp h
      obtain ⟨clearance, hclearance, h⟩ := bind_eq_ok.mp h
      obtain ⟨usage, husage, h⟩ := bind_eq_ok.mp h
      obtain ⟨occupiedMs, hoccupied, h⟩ := bind_eq_ok.mp h
      have hnow : options.now = some nowMs := by
        cases hn : options.now with
        | none => rw [hn] at hnow; cases hnow
        | some t => rw [hn] at hnow; exact congrArg some (Except.ok.inj hnow)
      obtain ⟨rfl, hnonneg⟩ := readSpacing_spec hspacing
      obtain rfl := readClearance_spec hclearance
      refine ⟨_, occupiedMs, usage, ⟨⟨nowMs, lastSourceMs, hnow, readLastSourceAt_spec hlast, rfl⟩,
        hoccupied, buildQuotaUsage_spec hnow husage⟩, hnonneg, h⟩

theorem plan_earliest {zones : Zones} {options : PlanOptions} {slots : List Int}
    (hc : c.Drives (zones.normalize options.settings.schedulerTimezone))
    (h : planVkAutoPublishSourceSlots zones options = .ok slots) (hslots : slots ≠ []) :
    ∃ earliestMs occupiedMs usage, Prepared zones options earliestMs occupiedMs usage ∧
      (RegularUntil c earliestMs slots → EarliestPlan (planRules zones options)
        options.settings.roundRobinEnabled (sourceSpacingMs options) earliestMs occupiedMs usage slots) := by
  obtain ⟨earliestMs, occupiedMs, usage, hprepared, hspacing, hplan⟩ := plan_prepared h hslots
  refine ⟨earliestMs, occupiedMs, usage, hprepared, fun hregular => ?_⟩
  exact planSlots_earliest hc hspacing (readOccupied_spec hprepared.occupied).1 hplan hregular

def utcClock : DayClock where
  localDay t := t / DAY_MS
  localMs t := t % DAY_MS
  startOfDay t := t / DAY_MS * DAY_MS
  plusDay t := t + DAY_MS
  startOfDay_day t := by
    unfold DAY_MS
    omega
  startOfDay_midnight t u _ _ := by
    unfold DAY_MS
    omega
  plusDay_exact t u _ _ := by
    unfold DAY_MS
    omega

def utcClocks : DayClocks := ⟨fun _ => none, utcClock⟩

theorem utcClock_plain (t : Int) :
    utcClock.Plain t (t / DAY_MS * DAY_MS) ((t / DAY_MS + 1) * DAY_MS) := by
  refine ⟨⟨fun u => ?_, fun u hday hms => ?_, ?_, fun u hday => ?_, fun u hday => ?_⟩, ?_⟩ <;>
    simp only [utcClock, DAY_MS] at * <;> omega

theorem utcClock_regular (u : Int) : utcClock.Regular u := by
  refine ⟨⟨_, _, utcClock_plain u⟩, ?_, ?_⟩ <;> simp only [utcClock, DAY_MS, MINUTE_MS] <;> omega

theorem utcClock_drives : utcClock.Drives utcZones.moscow := by
  refine ⟨rfl, rfl, fun t => ?_⟩
  change (t / DAY_MS + 1) * DAY_MS = t / DAY_MS * DAY_MS + DAY_MS
  rw [Int.add_mul, Int.one_mul]

/-- 2018-11-04T03:00:00Z, when the clocks of São Paulo went from 00:00 to 01:00. -/
def SAO_PAULO_JUMP : Int := 1541300400000

def HOUR_MS : Int := 3600000

def saoPauloWall (t : Int) : Int :=
  if t < SAO_PAULO_JUMP then t - 3 * HOUR_MS else t - 2 * HOUR_MS

/-- The instant that shows a local time; a skipped one is moved forward. -/
def saoPauloInstant (wall : Int) : Int :=
  if wall < SAO_PAULO_JUMP - 2 * HOUR_MS then wall + 3 * HOUR_MS else wall + 2 * HOUR_MS

theorem saoPaulo_shown (t : Int) : saoPauloWall t < SAO_PAULO_JUMP - 3 * HOUR_MS ∨
    SAO_PAULO_JUMP - 2 * HOUR_MS ≤ saoPauloWall t := by
  unfold saoPauloWall
  split <;> omega

theorem saoPaulo_exact {wall : Int} (h : wall < SAO_PAULO_JUMP - 3 * HOUR_MS ∨
    SAO_PAULO_JUMP - 2 * HOUR_MS ≤ wall) : saoPauloWall (saoPauloInstant wall) = wall := by
  have hhour : 0 < HOUR_MS := by decide
  unfold saoPauloInstant
  rcases h with hbefore | hafter
  · rw [if_pos (by omega), saoPauloWall, if_pos (by omega)]
    omega
  · rw [if_neg (by omega), saoPauloWall, if_neg (by omega)]
    omega

theorem saoPaulo_skipped {wall : Int} (h : SAO_PAULO_JUMP - 3 * HOUR_MS ≤ wall)
    (h' : wall < SAO_PAULO_JUMP - 2 * HOUR_MS) :
    saoPauloWall (saoPauloInstant wall) = wall + HOUR_MS := by
  rw [saoPauloInstant, if_pos h', saoPauloWall, if_neg (by omega)]
  omega

def saoPauloClock : DayClock where
  localDay t := saoPauloWall t / DAY_MS
  localMs t := saoPauloWall t % DAY_MS
  startOfDay t := saoPauloInstant (saoPauloWall t / DAY_MS * DAY_MS)
  plusDay t := saoPauloInstant (saoPauloWall t + DAY_MS)
  startOfDay_day t := by
    by_cases hskipped : SAO_PAULO_JUMP - 3 * HOUR_MS ≤ saoPauloWall t / DAY_MS * DAY_MS ∧
        saoPauloWall t / DAY_MS * DAY_MS < SAO_PAULO_JUMP - 2 * HOUR_MS
    · rw [saoPaulo_skipped hskipped.1 hskipped.2]
      simp only [SAO_PAULO_JUMP, HOUR_MS, DAY_MS] at *
      omega
    · rw [saoPaulo_exact (by omega)]
      simp only [DAY_MS]
      omega
  startOfDay_midnight t u hday hms := by
    have hshown := saoPaulo_shown u
    have hwall : saoPauloWall t / DAY_MS * DAY_MS = saoPauloWall u := by
      simp only [DAY_MS] at *
      omega
    rw [hwall, saoPaulo_exact hshown, hms]
  plusDay_exact t u hday hms := by
    have hshown := saoPaulo_shown u
    have hwall : saoPauloWall t + DAY_MS = saoPauloWall u := by
      simp only [DAY_MS] at *
      omega
    rw [hwall, saoPaulo_exact hshown]
    exact ⟨hday, hms⟩

def saoPauloClocks : DayClocks :=
  ⟨fun name => if name = "America/Sao_Paulo" then some saoPauloClock else none, utcClock⟩

end Maxim.Admin.VkAutopublish
