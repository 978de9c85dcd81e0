import Maxim.Admin.VkAutopublish.Timing
import Maxim.Library.SortedInsert
import Mathlib.Data.List.AList
import Maxim.Library.Fallible

/-!
# Planning of autopublish slots

The planner takes one slot after the other. Each is searched for in a loop that
moves a candidate to an allowed minute, past a day without quota and past the
slots of the chat, until nothing moves it any more.
-/

namespace Maxim.Admin.VkAutopublish

open Maxim.Library

/-- A date of the caller; `none` is an invalid date. -/
abbrev JsDate := Option Int

/-- `options` of `planVkAutoPublishSourceSlots`; `undefined` and `null` are `none`. -/
structure PlanOptions where
  count : ℚ
  now : JsDate
  lastSourceAt : Option JsDate
  existingChatSlots : List JsDate
  existingSourceQuotaSlots : List JsDate
  currentLocalDayPublishedCount : Option ℚ
  currentLocalDayPublishedAt : Option JsDate
  settings : Settings
  source : Source
  chatSlotClearanceMs : Option ℚ
  sourceSpacingMsOverride : Option ℚ

def MAX_SAFE_INTEGER : ℚ := 9007199254740991

def isInteger (v : ℚ) : Bool := v.den == 1

def readDate (value : JsDate) (field : String) : Except String Int :=
  match value with
  | some ms => .ok ms
  | none => .error ("Invalid VK autopublish " ++ field ++ " date.")

def readDates (values : List JsDate) (field : String) : Nat → Except String (List Int)
  | index => match values with
    | [] => .ok []
    | value :: rest => do
      let ms ← readDate value (field ++ "[" ++ toString index ++ "]")
      let others ← readDates rest field (index + 1)
      return ms :: others

def readNonNegativeNumber (value : ℚ) (field : String) : Except String ℚ :=
  if value < 0 then .error ("VK autopublish " ++ field ++ " must be non-negative.") else .ok value

def readNonNegativeInteger (value : Option ℚ) (field : String) : Except String Nat :=
  match value with
  | none => .ok 0
  | some v =>
    if isInteger v = false ∨ MAX_SAFE_INTEGER < v ∨ v < 0 then
      .error ("VK autopublish " ++ field ++ " must be a non-negative integer.")
    else .ok v.num.toNat

def readPositiveInteger (value : Option ℚ) (fallback : Nat) : Nat :=
  match value with
  | some v => if isInteger v ∧ v ≤ MAX_SAFE_INTEGER ∧ 0 < v then v.num.toNat else fallback
  | none => fallback

def readClearance (value : Option ℚ) : Except String ℚ :=
  match value with
  | none => .ok VK_AUTOPUBLISH_CHAT_SLOT_CLEARANCE_MS
  | some v =>
    if v < 0 then .error "VK autopublish chat slot clearance must be non-negative." else .ok v

/-- `new Date(ms)`: the fraction is cut off, and dates have a range. -/
def newDate (ms : ℚ) : JsDate :=
  if 8640000000000000 < |ms| then none else some (ms.num.tdiv ms.den)

abbrev Usage := AList fun _ : Int => Nat

def Usage.get (usage : Usage) (day : Int) : Nat := (usage.lookup day).getD 0

def incrementQuotaUsage (usage : Usage) (day : Int) : Usage := usage.insert day (usage.get day + 1)

/-- The day of what has been published: the given date, or now. -/
def readPublishedAt (nowMs : Int) (options : PlanOptions) : Except String Int :=
  match options.currentLocalDayPublishedAt with
  | some value => readDate value "currentLocalDayPublishedAt"
  | none => .ok nowMs

def publishedUsage (z : Zone) (nowMs : Int) (options : PlanOptions) (publishedCount : Nat) :
    Except String Usage :=
  if 0 < publishedCount then do
    let publishedDayMs ← readPublishedAt nowMs options
    return (∅ : Usage).insert (z.localDay publishedDayMs) publishedCount
  else .ok ∅

def buildQuotaUsage (z : Zone) (nowMs : Int) (options : PlanOptions) : Except String Usage := do
  let publishedCount ← readNonNegativeInteger options.currentLocalDayPublishedCount
    "currentLocalDayPublishedCount"
  let published ← publishedUsage z nowMs options publishedCount
  let slots ← readDates options.existingSourceQuotaSlots "existingSourceQuotaSlots" 0
  return slots.foldl (fun usage slotMs => incrementQuotaUsage usage (z.localDay slotMs)) published

/-- What the search for one slot depends on. -/
structure Rules where
  calendar : Calendar
  windows : Windows
  clearanceMs : ℚ
  dailyLimit : Nat

/-- `resolveCollisionFreeAllowedSlot`; the attempts are used up one a turn. -/
def resolveSlot (rules : Rules) (occupiedMs : List Int) (usage : Usage) :
    Nat → ℚ → Except String (Option Int)
  | 0, _ => .ok none
  | attempts + 1, candidateMs => do
    let candidate ← readDate (newDate candidateMs) "candidate"
    match resolveNextAllowedVkAutoPublishAt rules.calendar.toZone rules.windows candidate with
    | none => .ok none
    | some allowed =>
      if rules.dailyLimit ≤ usage.get (rules.calendar.localDay allowed) then
        resolveSlot rules occupiedMs usage attempts (rules.calendar.nextDayStart allowed)
      else
        let nextCollisionFreeMs := advancePastChatSlotCollisions rules.clearanceMs allowed occupiedMs
        if nextCollisionFreeMs = allowed then .ok (some allowed)
        else resolveSlot rules occupiedMs usage attempts nextCollisionFreeMs

/-- The loop of the planner over the slots that are left. -/
def planSlots (rules : Rules) (roundRobinEnabled : Bool) (spacingMs : ℚ) :
    Nat → ℚ → List Int → Usage → Except String (List Int)
  | 0, _, _, _ => .ok []
  | count + 1, earliestMs, occupiedMs, usage => do
    let attemptLimit := occupiedMs.length + usage.keys.length + 2
    match ← resolveSlot rules occupiedMs usage (attemptLimit + 1) earliestMs with
    | none => .error "VK autopublish timing rules do not contain an available slot."
    | some slot =>
      let rest ← planSlots rules roundRobinEnabled spacingMs count (slot + spacingMs)
        (if roundRobinEnabled then insertSorted occupiedMs slot else occupiedMs)
        (incrementQuotaUsage usage (rules.calendar.localDay slot))
      return slot :: rest

def readLastSourceAt (options : PlanOptions) : Except String (Option Int) :=
  match options.lastSourceAt with
  | some value => (readDate value "lastSourceAt").map some
  | none => .ok none

def readSpacing (options : PlanOptions) : Except String ℚ :=
  match options.sourceSpacingMsOverride with
  | some value => readNonNegativeNumber value "sourceSpacingMsOverride"
  | none => .ok (resolveVkAutoPublishSourceSpacingMs options.settings options.source)

/-- The slots of the chat in order, if the sources take turns. -/
def readOccupied (options : PlanOptions) : Except String (List Int) :=
  if options.settings.roundRobinEnabled then
    (readDates options.existingChatSlots "existingChatSlots" 0).map fun dates =>
      dates.insertionSort (· ≤ ·)
  else .ok []

def earliest (nowMs : Int) (lastSourceMs : Option Int) (spacingMs : ℚ) : ℚ :=
  match lastSourceMs with
  | some last => max nowMs (last + spacingMs)
  | none => nowMs

def planVkAutoPublishSourceSlots (zones : Zones) (options : PlanOptions) :
    Except String (List Int) :=
  if isInteger options.count = false ∨ options.count < 0 then
    .error "VK autopublish slot count must be a non-negative integer."
  else if options.count = 0 then .ok []
  else do
    let nowMs ← readDate options.now "now"
    let lastSourceMs ← readLastSourceAt options
    let spacingMs ← readSpacing options
    let clearanceMs ← readClearance options.chatSlotClearanceMs
    let calendar := zones.normalize options.settings.schedulerTimezone
    let dailyLimit := readPositiveInteger options.source.dailyLimit DEFAULT_DAILY_LIMIT
    let windows := parseScheduleWindows options.settings options.source
    let usage ← buildQuotaUsage calendar.toZone nowMs options
    let occupiedMs ← readOccupied options
    planSlots { calendar, windows, clearanceMs, dailyLimit } options.settings.roundRobinEnabled
      spacingMs options.count.num.toNat (earliest nowMs lastSourceMs spacingMs) occupiedMs usage

/-! ## One slot -/

theorem le_of_newDate {ms : ℚ} {t e : Int} (h : newDate ms = some t) (he : (e : ℚ) ≤ ms) : e ≤ t := by
  unfold newDate at h
  split at h
  · cases h
  · have ht : ms.num.tdiv ms.den = t := Option.some.inj h
    have hden : (0 : Int) < ms.den := by exact_mod_cast ms.den_pos
    have hmul : e * ms.den ≤ ms.num := by
      have hle := Rat.le_iff _ _ |>.mp he
      simpa using hle
    rw [← ht]
    exact Int.le_tdiv_of_mul_le hden hmul

variable {rules : Rules} {occupiedMs : List Int} {usage : Usage} {roundRobin : Bool} {spacingMs : ℚ}

/-- What the search for a slot guarantees. -/
structure Free (rules : Rules) (occupiedMs : List Int) (usage : Usage) (slot : Int) : Prop where
  allowed : isMinuteAllowed (localMinute rules.calendar.toZone slot) rules.windows = true
  quota : usage.get (rules.calendar.localDay slot) < rules.dailyLimit
  clear : ∀ t ∈ occupiedMs, rules.clearanceMs ≤ |(slot : ℚ) - t|

/-- Every turn moves the candidate forward, and the last one has found nothing to move it. -/
theorem resolveSlot_spec (hs : occupiedMs.Pairwise (· ≤ ·)) {attempts : Nat} {candidateMs : ℚ}
    {slot : Int} (h : resolveSlot rules occupiedMs usage attempts candidateMs = .ok (some slot)) :
    (∀ e : Int, (e : ℚ) ≤ candidateMs → e ≤ slot) ∧ Free rules occupiedMs usage slot := by
  induction attempts generalizing candidateMs with
  | zero => cases h
  | succ attempts ih =>
    obtain ⟨candidate, hcandidate, h⟩ := bind_eq_ok.mp h
    have hdate : newDate candidateMs = some candidate := by
      cases hd : newDate candidateMs with
      | none => rw [hd] at hcandidate; cases hcandidate
      | some ms => rw [hd] at hcandidate; exact congrArg some (Except.ok.inj hcandidate)
    cases hnext : resolveNextAllowedVkAutoPublishAt rules.calendar.toZone rules.windows candidate with
    | none =>
      rw [hnext] at h
      cases h
    | some allowed =>
      rw [hnext] at h
      dsimp only at h
      obtain ⟨hle, hminute⟩ := resolveNextAllowed_spec hnext
      have hstart : ∀ e : Int, (e : ℚ) ≤ candidateMs → e ≤ allowed := fun e he =>
        Int.le_trans (le_of_newDate hdate he) hle
      by_cases hquota : rules.dailyLimit ≤ usage.get (rules.calendar.localDay allowed)
      · rw [if_pos hquota] at h
        obtain ⟨hlater, hfree⟩ := ih h
        have hday : allowed ≤ rules.calendar.nextDayStart allowed := by
          by_contra hlt
          have hmono := rules.calendar.localDay_mono _ _ (Int.le_of_lt (Int.not_le.mp hlt))
          have hnext := rules.calendar.localDay_nextDayStart allowed
          omega
        refine ⟨fun e he => hlater e ?_, hfree⟩
        exact Int.cast_le.mpr (Int.le_trans (hstart e he) hday)
      · rw [if_neg hquota] at h
        by_cases hsame : advancePastChatSlotCollisions rules.clearanceMs allowed occupiedMs = allowed
        · rw [if_pos hsame] at h
          obtain rfl := Option.some.inj (Except.ok.inj h)
          refine ⟨hstart, hminute, Nat.lt_of_not_le hquota, fun t ht => ?_⟩
          have hclear := @advance_clears rules.clearanceMs allowed occupiedMs hs t ht
          rw [hsame] at hclear
          rw [le_abs]
          rcases hclear with hpast | hahead
          · exact .inl (by linarith)
          · exact .inr (by linarith)
        · rw [if_neg hsame] at h
          obtain ⟨hlater, hfree⟩ := ih h
          refine ⟨fun e he => hlater e ?_, hfree⟩
          have hcast : (e : ℚ) ≤ allowed := Int.cast_le.mpr (hstart e he)
          exact le_trans hcast (advance_le _ _ _)

/-! ## The loop -/

theorem get_increment (usage : Usage) (day day' : Int) :
    (incrementQuotaUsage usage day).get day' = usage.get day' + if day' = day then 1 else 0 := by
  unfold incrementQuotaUsage Usage.get
  by_cases hday : day' = day
  · subst hday
    rw [AList.lookup_insert, if_pos rfl]
    rfl
  · rw [AList.lookup_insert_ne hday, if_neg hday, Nat.add_zero]

def plannedOn (z : Zone) (slots : List Int) (day : Int) : Nat :=
  slots.countP fun t => z.localDay t == day

/-- What the loop guarantees of the slots that it adds. -/
structure Planned (rules : Rules) (roundRobin : Bool) (spacingMs : ℚ) (count : Nat) (earliestMs : ℚ)
    (occupiedMs : List Int) (usage : Usage) (slots : List Int) : Prop where
  count : slots.length = count
  start : ∀ e : Int, (e : ℚ) ≤ earliestMs → ∀ t ∈ slots, e ≤ t
  spaced : slots.Pairwise fun a b => a + ⌊spacingMs⌋ ≤ b
  allowed : ∀ t ∈ slots,
    isMinuteAllowed (localMinute rules.calendar.toZone t) rules.windows = true
  quota : ∀ day, plannedOn rules.calendar.toZone slots day = 0 ∨
    usage.get day + plannedOn rules.calendar.toZone slots day ≤ rules.dailyLimit
  clear : ∀ t ∈ slots, ∀ o ∈ occupiedMs, rules.clearanceMs ≤ |(t : ℚ) - o|
  apart : roundRobin = true → slots.Pairwise fun a b : Int => rules.clearanceMs ≤ |(a : ℚ) - b|

theorem Planned.cons {count : Nat} {earliestMs : ℚ} {slot : Int} {slots : List Int}
    (hspacing : 0 ≤ spacingMs) (hstart : ∀ e : Int, (e : ℚ) ≤ earliestMs → e ≤ slot)
    (hfree : Free rules occupiedMs usage slot)
    (h : Planned rules roundRobin spacingMs count (slot + spacingMs)
      (if roundRobin then insertSorted occupiedMs slot else occupiedMs)
      (incrementQuotaUsage usage (rules.calendar.localDay slot)) slots) :
    Planned rules roundRobin spacingMs (count + 1) earliestMs occupiedMs usage (slot :: slots) := by
  have hkept : ∀ o ∈ occupiedMs, o ∈ if roundRobin then insertSorted occupiedMs slot else occupiedMs := by
    intro o ho
    split
    · exact (insertSorted_perm occupiedMs slot).mem_iff.mpr (List.mem_cons_of_mem _ ho)
    · exact ho
  refine ⟨?_, ?_, ?_, ?_, ?_, ?_, ?_⟩
  · rw [List.length_cons, h.count]
  · intro e he t ht
    rcases List.mem_cons.mp ht with rfl | ht
    · exact hstart e he
    · have hle : (e : ℚ) ≤ slot := Int.cast_le.mpr (hstart e he)
      exact h.start e (by linarith) t ht
  · refine List.pairwise_cons.mpr ⟨fun t ht => h.start _ ?_ t ht, h.spaced⟩
    have hfloor := Int.floor_le spacingMs
    rw [Int.cast_add]
    linarith
  · intro t ht
    rcases List.mem_cons.mp ht with rfl | ht
    · exact hfree.allowed
    · exact h.allowed t ht
  · intro day
    have hquota := h.quota day
    have hlimit := hfree.quota
    rw [get_increment] at hquota
    unfold plannedOn at hquota ⊢
    rw [List.countP_cons]
    by_cases hday : day = rules.calendar.localDay slot
    · subst hday
      simp only [beq_self_eq_true, if_true] at hquota ⊢
      omega
    · have hne : (rules.calendar.localDay slot == day) = false := by
        simpa using fun heq : rules.calendar.localDay slot = day => hday heq.symm
      rw [if_neg hday] at hquota
      rw [hne, if_neg Bool.false_ne_true]
      omega
  · intro t ht o ho
    rcases List.mem_cons.mp ht with rfl | ht
    · exact hfree.clear o ho
    · exact h.clear t ht o (hkept o ho)
  · intro hrr
    refine List.pairwise_cons.mpr ⟨fun t ht => ?_, h.apart hrr⟩
    have hmem : slot ∈ if roundRobin then insertSorted occupiedMs slot else occupiedMs := by
      rw [if_pos hrr]
      exact (insertSorted_perm occupiedMs slot).mem_iff.mpr List.mem_cons_self
    have hclear := h.clear t ht slot hmem
    rwa [abs_sub_comm] at hclear

theorem planSlots_spec (hspacing : 0 ≤ spacingMs) {count : Nat} {earliestMs : ℚ} {slots : List Int}
    (hs : occupiedMs.Pairwise (· ≤ ·))
    (h : planSlots rules roundRobin spacingMs count earliestMs occupiedMs usage = .ok slots) :
    Planned rules roundRobin spacingMs count earliestMs occupiedMs usage slots := by
  induction count generalizing earliestMs occupiedMs usage slots with
  | zero =>
    obtain rfl := Except.ok.inj h
    exact ⟨rfl, by simp, .nil, by simp, fun _ => .inl rfl, by simp, fun _ => .nil⟩
  | succ count ih =>
    obtain ⟨found, hfound, h⟩ := bind_eq_ok.mp h
    cases found with
    | none => cases h
    | some slot =>
      obtain ⟨rest, hrest, h⟩ := bind_eq_ok.mp h
      obtain rfl := Except.ok.inj h
      obtain ⟨hstart, hfree⟩ := resolveSlot_spec hs hfound
      refine .cons hspacing hstart hfree (ih ?_ hrest)
      split
      · exact insertSorted_sorted hs slot
      · exact hs

/-! ## The plan -/

/-- The quota usage that the caller has recorded for a local day. -/
def recordedOn (z : Zone) (options : PlanOptions) (day : Int) : Nat :=
  (if (options.currentLocalDayPublishedAt.getD options.now).any fun t => z.localDay t == day then
    (options.currentLocalDayPublishedCount.getD 0).num.toNat else 0) +
  options.existingSourceQuotaSlots.countP fun date => date.any fun t => z.localDay t == day

theorem readDates_spec {values : List JsDate} {field : String} {index : Nat} {dates : List Int}
    (h : readDates values field index = .ok dates) : values = dates.map some := by
  induction values generalizing index dates with
  | nil =>
    unfold readDates at h
    obtain rfl := Except.ok.inj h
    rfl
  | cons value rest ih =>
    unfold readDates at h
    obtain ⟨ms, hms, h⟩ := bind_eq_ok.mp h
    obtain ⟨others, hothers, h⟩ := bind_eq_ok.mp h
    obtain rfl := Except.ok.inj h
    cases value with
    | none => cases hms
    | some value =>
      obtain rfl := Except.ok.inj hms
      rw [ih hothers]
      rfl

theorem get_foldl_increment (z : Zone) (slots : List Int) (usage : Usage) (day : Int) :
    (slots.foldl (fun usage slotMs => incrementQuotaUsage usage (z.localDay slotMs)) usage).get day =
      usage.get day + plannedOn z slots day := by
  induction slots generalizing usage with
  | nil => rfl
  | cons t slots ih =>
    rw [List.foldl_cons, ih, get_increment]
    unfold plannedOn
    rw [List.countP_cons]
    by_cases hday : day = z.localDay t
    · simp [hday]
      omega
    · have hne : (z.localDay t == day) = false := by
        simpa using fun heq : z.localDay t = day => hday heq.symm
      simp [hday, hne]

theorem readNonNegativeInteger_spec {value : Option ℚ} {field : String} {n : Nat}
    (h : readNonNegativeInteger value field = .ok n) : n = (value.getD 0).num.toNat := by
  unfold readNonNegativeInteger at h
  cases value with
  | none =>
    obtain rfl := Except.ok.inj h
    rfl
  | some v =>
    dsimp only at h
    split at h
    · cases h
    · exact (Except.ok.inj h).symm

variable {options : PlanOptions}

theorem publishedUsage_spec {z : Zone} {nowMs : Int} {n : Nat} {usage : Usage}
    (hnow : options.now = some nowMs) (h : publishedUsage z nowMs options n = .ok usage) (day : Int) :
    usage.get day = if (options.currentLocalDayPublishedAt.getD options.now).any
      fun t => z.localDay t == day then n else 0 := by
  unfold publishedUsage at h
  by_cases hpos : 0 < n
  · rw [if_pos hpos] at h
    obtain ⟨ms, hms, h⟩ := bind_eq_ok.mp h
    obtain rfl := Except.ok.inj h
    have hdate : options.currentLocalDayPublishedAt.getD options.now = some ms := by
      unfold readPublishedAt at hms
      cases hat : options.currentLocalDayPublishedAt with
      | none =>
        rw [hat] at hms
        rw [Option.getD_none, hnow, Except.ok.inj hms]
      | some value =>
        rw [hat] at hms
        cases value with
        | none => cases hms
        | some t =>
          rw [Option.getD_some]
          exact congrArg some (Except.ok.inj hms)
    rw [hdate, Option.any_some]
    unfold Usage.get
    by_cases hday : day = z.localDay ms
    · rw [hday, AList.lookup_insert, if_pos (beq_self_eq_true _)]
      rfl
    · have hne : (z.localDay ms == day) = false := by
        simpa using fun heq : z.localDay ms = day => hday heq.symm
      rw [AList.lookup_insert_ne hday, hne, if_neg Bool.false_ne_true]
      rfl
  · rw [if_neg hpos] at h
    obtain rfl := Except.ok.inj h
    have hzero : n = 0 := by omega
    rw [hzero]
    split <;> rfl

theorem buildQuotaUsage_spec {z : Zone} {nowMs : Int} {usage : Usage}
    (hnow : options.now = some nowMs) (h : buildQuotaUsage z nowMs options = .ok usage) (day : Int) :
    usage.get day = recordedOn z options day := by
  obtain ⟨publishedCount, hcount, h⟩ := bind_eq_ok.mp h
  obtain ⟨published, hpublished, h⟩ := bind_eq_ok.mp h
  obtain ⟨slots, hslots, h⟩ := bind_eq_ok.mp h
  obtain rfl := Except.ok.inj h
  have hslots := readDates_spec hslots
  rw [get_foldl_increment, recordedOn, hslots, List.countP_map]
  refine congrArg₂ (· + ·) ?_ rfl
  rw [readNonNegativeInteger_spec hcount] at hpublished
  exact publishedUsage_spec hnow hpublished day

/-- The spacing of the source, which need not be a whole number of milliseconds. -/
def sourceSpacingMs (options : PlanOptions) : ℚ :=
  options.sourceSpacingMsOverride.getD
    (resolveVkAutoPublishSourceSpacingMs options.settings options.source)

def clearanceMs (options : PlanOptions) : ℚ :=
  options.chatSlotClearanceMs.getD VK_AUTOPUBLISH_CHAT_SLOT_CLEARANCE_MS

theorem readSpacing_spec {spacingMs : ℚ}
    (h : readSpacing options = .ok spacingMs) :
    spacingMs = sourceSpacingMs options ∧ 0 ≤ spacingMs := by
  unfold readSpacing at h
  unfold sourceSpacingMs
  cases hover : options.sourceSpacingMsOverride with
  | none =>
    rw [hover] at h
    obtain rfl := Except.ok.inj h
    refine ⟨rfl, mul_nonneg ?_ (by norm_num)⟩
    refine le_trans ?_ (le_trans (le_max_left _ _) (le_max_left _ _))
    norm_num [VK_AUTOPUBLISH_MIN_SOURCE_SPACING_MS]
  | some value =>
    rw [hover] at h
    dsimp only [readNonNegativeNumber] at h
    split at h
    · cases h
    · next hneg =>
      obtain rfl := Except.ok.inj h
      exact ⟨rfl, not_lt.mp hneg⟩

theorem readClearance_spec {ms : ℚ}
    (h : readClearance options.chatSlotClearanceMs = .ok ms) : ms = clearanceMs options := by
  unfold readClearance at h
  unfold clearanceMs
  cases hclear : options.chatSlotClearanceMs with
  | none =>
    rw [hclear] at h
    exact (Except.ok.inj h).symm
  | some value =>
    rw [hclear] at h
    dsimp only at h
    split at h
    · cases h
    · exact (Except.ok.inj h).symm

theorem readOccupied_spec {occupiedMs : List Int}
    (h : readOccupied options = .ok occupiedMs) :
    occupiedMs.Pairwise (· ≤ ·) ∧ (options.settings.roundRobinEnabled = true →
      ∀ t, some t ∈ options.existingChatSlots → t ∈ occupiedMs) := by
  unfold readOccupied at h
  split at h
  · cases hread : readDates options.existingChatSlots "existingChatSlots" 0 with
    | error e =>
      rw [hread] at h
      cases h
    | ok dates =>
      rw [hread] at h
      obtain rfl := Except.ok.inj h
      refine ⟨List.pairwise_insertionSort _ _, fun _ t ht => ?_⟩
      rw [readDates_spec hread] at ht
      obtain ⟨u, hu, heq⟩ := List.mem_map.mp ht
      obtain rfl := Option.some.inj heq
      exact (List.perm_insertionSort _ _).mem_iff.mpr hu
  · next hturns =>
    obtain rfl := Except.ok.inj h
    exact ⟨.nil, fun hrr => absurd hrr hturns⟩

theorem readLastSourceAt_spec {lastSourceMs : Option Int}
    (h : readLastSourceAt options = .ok lastSourceMs) :
    options.lastSourceAt = lastSourceMs.map some := by
  unfold readLastSourceAt at h
  cases hlast : options.lastSourceAt with
  | none =>
    rw [hlast] at h
    obtain rfl := Except.ok.inj h
    rfl
  | some value =>
    rw [hlast] at h
    cases value with
    | none => cases h
    | some t =>
      obtain rfl := Except.ok.inj h
      rfl

/-- Every rule of the plan. A spacing counts in whole milliseconds. -/
structure Obeys (zones : Zones) (options : PlanOptions) (slots : List Int) : Prop where
  count : (slots.length : ℚ) = options.count
  spaced : slots.Pairwise fun a b => a + ⌊sourceSpacingMs options⌋ ≤ b
  fromNow : ∀ now, options.now = some now → ∀ t ∈ slots, now ≤ t
  afterLast : ∀ last, options.lastSourceAt = some (some last) →
    ∀ t ∈ slots, last + ⌊sourceSpacingMs options⌋ ≤ t
  allowed : ∀ t ∈ slots,
    isMinuteAllowed (localMinute (zones.normalize options.settings.schedulerTimezone).toZone t)
      (parseScheduleWindows options.settings options.source) = true
  quota : ∀ day,
    recordedOn (zones.normalize options.settings.schedulerTimezone).toZone options day +
        plannedOn (zones.normalize options.settings.schedulerTimezone).toZone slots day ≤
      readPositiveInteger options.source.dailyLimit DEFAULT_DAILY_LIMIT ∨
    readPositiveInteger options.source.dailyLimit DEFAULT_DAILY_LIMIT <
        recordedOn (zones.normalize options.settings.schedulerTimezone).toZone options day ∧
      plannedOn (zones.normalize options.settings.schedulerTimezone).toZone slots day = 0
  clear : options.settings.roundRobinEnabled = true → ∀ t ∈ slots, ∀ o : Int,
    some o ∈ options.existingChatSlots → clearanceMs options ≤ |(t : ℚ) - o|
  apart : options.settings.roundRobinEnabled = true →
    slots.Pairwise fun a b : Int => clearanceMs options ≤ |(a : ℚ) - b|

/-- A library that knows no zone but its default, which has no offsets. -/
def utcZones : Zones where
  zone _ := none
  moscow :=
    { utc with
      nextDayStart := fun t => (t / DAY_MS + 1) * DAY_MS
      localDay_nextDayStart := fun t => by
        change t / DAY_MS < (t / DAY_MS + 1) * DAY_MS / DAY_MS
        unfold DAY_MS
        omega }

/-- Two slots of a source that may publish twice a day, in a chat that takes turns. -/
def twoSlots : PlanOptions where
  count := 2
  now := some 36000000
  lastSourceAt := some (some 35000000)
  existingChatSlots := [some 43200000]
  existingSourceQuotaSlots := [some 3600000]
  currentLocalDayPublishedCount := none
  currentLocalDayPublishedAt := none
  settings :=
    { schedulerTimezone := none, workHoursStart := some "09:00", workHoursEnd := some "12:30",
      quietHoursStart := none, quietHoursEnd := none, distributeEvenlyEnabled := true,
      roundRobinEnabled := true }
  source :=
    { publishIntervalMinutes := some 90, dailyLimit := some 2, minPublishIntervalMinutes := none,
      quietHoursStart := some "11:00", quietHoursEnd := some "11:45" }
  chatSlotClearanceMs := none
  sourceSpacingMsOverride := none

/-- The same source with a minimum of half an hour and one 128th of a minute. -/
def fractionalSpacing : PlanOptions :=
  { twoSlots with
    existingSourceQuotaSlots := []
    source :=
      { publishIntervalMinutes := some 10, dailyLimit := some 2,
        minPublishIntervalMinutes := some (3841 / 128), quietHoursStart := none,
        quietHoursEnd := none } }

end Maxim.Admin.VkAutopublish
