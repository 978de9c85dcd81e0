import Maxim.Library.CivilTime
import Maxim.Library.Text
import Mathlib.Algebra.Order.Floor.Ring
import Mathlib.Data.Rat.Floor

/-!
# Allowed minutes and collisions of the autopublish timing

A source may publish in the work hours of the chat and outside both quiet ranges.
A candidate is moved to the next allowed minute, and past the slots of the chat
that are too close to it.
-/

namespace Maxim.Admin.VkAutopublish

open Maxim.Library

def VK_AUTOPUBLISH_MIN_SOURCE_SPACING_MS : ℚ := 5 * 60000

def VK_AUTOPUBLISH_CHAT_SLOT_CLEARANCE_MS : ℚ := 60000

def DEFAULT_PUBLISH_INTERVAL_MINUTES : ℚ := 60

def DEFAULT_MIN_PUBLISH_INTERVAL_MINUTES : ℚ := 30

def DEFAULT_DAILY_LIMIT : Nat := 3

def DEFAULT_WORK_HOURS_START : String := "09:00"

def DEFAULT_WORK_HOURS_END : String := "22:00"

def ALLOWED_SLOT_LOOKAHEAD_MINUTES : Nat := 8 * 24 * 60

/-- A zone in which the library also computes where the next day starts. -/
structure Calendar extends Zone where
  nextDayStart : Int → Int
  localDay_nextDayStart : ∀ t, localDay t < localDay (nextDayStart t)

/-- The zones that the library knows by name. -/
structure Zones where
  zone : String → Option Calendar
  moscow : Calendar

/-- `normalizeVkAutoPublishTimezone`; an unknown name is Moscow. -/
def Zones.normalize (zones : Zones) (value : Option String) : Calendar :=
  (value.bind fun name => zones.zone (trim name)).getD zones.moscow

/-- A number is finite: the source treats the others as it treats no number or a negative one. -/
structure Settings where
  schedulerTimezone : Option String
  workHoursStart : Option String
  workHoursEnd : Option String
  quietHoursStart : Option String
  quietHoursEnd : Option String
  distributeEvenlyEnabled : Bool
  roundRobinEnabled : Bool

structure Source where
  publishIntervalMinutes : Option ℚ
  dailyLimit : Option ℚ
  minPublishIntervalMinutes : Option ℚ
  quietHoursStart : Option String
  quietHoursEnd : Option String

/-! ## Windows -/

structure DailyRange where
  startMinute : Nat
  endMinute : Nat
  deriving DecidableEq

structure Windows where
  work : DailyRange
  globalQuiet : Option DailyRange
  sourceQuiet : Option DailyRange

/-- A decimal digit of at most `max`. -/
def digit (max : Nat) (c : Char) : Option Nat :=
  if 48 ≤ c.toNat ∧ c.toNat ≤ 48 + max then some (c.toNat - 48) else none

def parseTimeOfDay (value : Option String) : Option Nat := do
  match (trim (← value)).toList with
  | [h₁, h₂, colon, m₁, m₂] =>
    let tens ← digit 2 h₁
    let hour ← digit (if tens = 2 then 3 else 9) h₂
    let minuteTens ← digit 5 m₁
    let minute ← digit 9 m₂
    if colon.toNat = 58 then some ((tens * 10 + hour) * 60 + (minuteTens * 10 + minute)) else none
  | _ => none

def parseOptionalDailyRange (first last : Option String) : Option DailyRange := do
  let startMinute ← parseTimeOfDay first
  let endMinute ← parseTimeOfDay last
  return { startMinute, endMinute }

def parseScheduleWindows (settings : Settings) (source : Source) : Windows where
  work := (parseOptionalDailyRange settings.workHoursStart settings.workHoursEnd).getD
    ((parseOptionalDailyRange (some DEFAULT_WORK_HOURS_START) (some DEFAULT_WORK_HOURS_END)).getD
      ⟨0, 0⟩)
  globalQuiet := parseOptionalDailyRange settings.quietHoursStart settings.quietHoursEnd
  sourceQuiet := parseOptionalDailyRange source.quietHoursStart source.quietHoursEnd

example : parseOptionalDailyRange (some DEFAULT_WORK_HOURS_START) (some DEFAULT_WORK_HOURS_END) =
    some ⟨540, 1320⟩ := by decide +kernel

def isMinuteInRange (minute : Int) (range : DailyRange) : Bool :=
  if range.startMinute = range.endMinute then true
  else if range.startMinute < range.endMinute then
    decide (range.startMinute ≤ minute) && decide (minute < range.endMinute)
  else decide (range.startMinute ≤ minute) || decide (minute < range.endMinute)

def isMinuteAllowed (minute : Int) (windows : Windows) : Bool :=
  isMinuteInRange minute windows.work && !(windows.globalQuiet.any (isMinuteInRange minute)) &&
    !(windows.sourceQuiet.any (isMinuteInRange minute))

def hasAnyAllowedMinute (windows : Windows) : Bool :=
  (List.range (24 * 60)).any fun minute => isMinuteAllowed minute windows

def localMinute (z : Zone) (t : Int) : Int := z.localMs t / MINUTE_MS

/-- The loop over the minutes from `cursor` on. -/
def searchAllowed (z : Zone) (windows : Windows) : Nat → Int → Option Int
  | 0, _ => none
  | turns + 1, cursor =>
    if isMinuteAllowed (localMinute z cursor) windows then some cursor
    else searchAllowed z windows turns (cursor + MINUTE_MS)

/-- `resolveNextAllowedVkAutoPublishAt`; the search starts with the first full local minute. -/
def resolveNextAllowedVkAutoPublishAt (z : Zone) (windows : Windows) (candidateMs : Int) :
    Option Int :=
  if isMinuteAllowed (localMinute z candidateMs) windows then some candidateMs
  else if hasAnyAllowedMinute windows = false then none
  else
    let minuteStart := candidateMs - z.localMs candidateMs % MINUTE_MS
    let cursor := if minuteStart < candidateMs then minuteStart + MINUTE_MS else minuteStart
    searchAllowed z windows (ALLOWED_SLOT_LOOKAHEAD_MINUTES + 1) cursor

def resolveVkAutoPublishSourceSpacingMs (settings : Settings) (source : Source) : ℚ :=
  let publishIntervalMinutes := (source.publishIntervalMinutes.filter fun v => decide (0 < v)).getD
    DEFAULT_PUBLISH_INTERVAL_MINUTES
  let minPublishIntervalMinutes :=
    (source.minPublishIntervalMinutes.filter fun v => decide (0 ≤ v)).getD
      DEFAULT_MIN_PUBLISH_INTERVAL_MINUTES
  max (max (VK_AUTOPUBLISH_MIN_SOURCE_SPACING_MS / 60000)
    (if settings.distributeEvenlyEnabled then publishIntervalMinutes else 0))
    minPublishIntervalMinutes * 60000

def advancePastChatSlotCollisions (clearanceMs : ℚ) : ℚ → List Int → ℚ
  | resultMs, [] => resultMs
  | resultMs, occupiedAtMs :: rest =>
    if (occupiedAtMs : ℚ) ≤ resultMs - clearanceMs then
      advancePastChatSlotCollisions clearanceMs resultMs rest
    else if resultMs + clearanceMs ≤ occupiedAtMs then resultMs
    else advancePastChatSlotCollisions clearanceMs (occupiedAtMs + clearanceMs) rest

/-! ## What a step finds -/

variable {z : Zone} {windows : Windows} {clearanceMs resultMs : ℚ} {occupiedMs : List Int}

theorem searchAllowed_spec {turns : Nat} {cursor t : Int}
    (h : searchAllowed z windows turns cursor = some t) :
    cursor ≤ t ∧ isMinuteAllowed (localMinute z t) windows = true := by
  induction turns generalizing cursor with
  | zero => cases h
  | succ turns ih =>
    unfold searchAllowed at h
    by_cases hallowed : isMinuteAllowed (localMinute z cursor) windows = true
    · rw [if_pos hallowed] at h
      obtain rfl := Option.some.inj h
      exact ⟨Int.le_refl _, hallowed⟩
    · rw [if_neg hallowed] at h
      obtain ⟨hle, hminute⟩ := ih h
      have hms : 0 ≤ MINUTE_MS := by decide
      exact ⟨by omega, hminute⟩

theorem resolveNextAllowed_spec {candidateMs t : Int}
    (h : resolveNextAllowedVkAutoPublishAt z windows candidateMs = some t) :
    candidateMs ≤ t ∧ isMinuteAllowed (localMinute z t) windows = true := by
  unfold resolveNextAllowedVkAutoPublishAt at h
  by_cases hallowed : isMinuteAllowed (localMinute z candidateMs) windows = true
  · rw [if_pos hallowed] at h
    obtain rfl := Option.some.inj h
    exact ⟨Int.le_refl _, hallowed⟩
  · rw [if_neg hallowed] at h
    split at h
    · cases h
    · obtain ⟨hle, hminute⟩ := searchAllowed_spec h
      have hnonneg : 0 ≤ z.localMs candidateMs % MINUTE_MS := Int.emod_nonneg _ (by decide)
      have hlt : z.localMs candidateMs % MINUTE_MS < MINUTE_MS := Int.emod_lt_of_pos _ (by decide)
      refine ⟨?_, hminute⟩
      split at hle <;> omega

theorem advance_le (clearanceMs resultMs : ℚ) (occupiedMs : List Int) :
    resultMs ≤ advancePastChatSlotCollisions clearanceMs resultMs occupiedMs := by
  induction occupiedMs generalizing resultMs with
  | nil => exact le_refl _
  | cons occupiedAtMs rest ih =>
    unfold advancePastChatSlotCollisions
    split
    · exact ih _
    · next hnear =>
      split
      · exact le_refl _
      · have hmoved : resultMs ≤ occupiedAtMs + clearanceMs := by linarith [not_le.mp hnear]
        exact le_trans hmoved (ih _)

theorem advance_clears (hs : occupiedMs.Pairwise (· ≤ ·)) :
    ∀ t ∈ occupiedMs,
      (t : ℚ) ≤ advancePastChatSlotCollisions clearanceMs resultMs occupiedMs - clearanceMs ∨
        advancePastChatSlotCollisions clearanceMs resultMs occupiedMs + clearanceMs ≤ t := by
  induction occupiedMs generalizing resultMs with
  | nil => simp
  | cons occupiedAtMs rest ih =>
    obtain ⟨hhead, hrest⟩ := List.pairwise_cons.mp hs
    intro t ht
    unfold advancePastChatSlotCollisions
    split
    · next hpast =>
      rcases List.mem_cons.mp ht with rfl | ht
      · have hle := advance_le clearanceMs resultMs rest
        exact .inl (by linarith)
      · exact ih hrest t ht
    · split
      · next hahead =>
        have hle : occupiedAtMs ≤ t := by
          rcases List.mem_cons.mp ht with rfl | ht
          · exact Int.le_refl _
          · exact hhead t ht
        have hle : (occupiedAtMs : ℚ) ≤ t := Int.cast_le.mpr hle
        exact .inr (le_trans hahead hle)
      · rcases List.mem_cons.mp ht with rfl | ht
        · have hle := advance_le clearanceMs (t + clearanceMs) rest
          exact .inl (by linarith)
        · exact ih hrest t ht

end Maxim.Admin.VkAutopublish
