import Maxim.Library.Decimal
import Maxim.Library.Expiry
import Maxim.Library.Run

/-!
# Admission of heavy starts

One key paces all heavy starts. It holds the date of the last start, or of the
first look at an empty key, with the interval of the caller who wrote it, and
it lives for two such intervals. The text of the key keeps 14 digits of a date.
-/

namespace Maxim.Moderation.MessageDuplicate.HeavyAdmission

open Maxim.Library

structure Input where
  eligibleAtMs : Nat
  intervalMs : Nat
  deadlineAtMs : Nat
  deriving DecidableEq

def isSafePositive (value : Nat) : Bool := 0 < value && value ≤ 9007199254740991

def validateDuplicateHeavyAdmission (input : Input) : Bool :=
  isSafePositive input.eligibleAtMs && isSafePositive input.intervalMs &&
    isSafePositive input.deadlineAtMs && 1000 ≤ input.intervalMs && input.intervalMs ≤ 600000

structure State where
  atMs : Nat
  intervalMs : Nat
  deriving DecidableEq

def State.valid (state : State) : Bool := 1000 ≤ state.intervalMs && state.intervalMs ≤ 600000

inductive Result
  | granted (startedAtMs : Nat)
  | deferred (retryAtMs : Nat)
  | expired
  | failed (message : String)
  deriving DecidableEq

/-- `SET … PX`; `cjson.encode` prints the date with 14 digits. -/
def stored (now intervalMs : Nat) : Slot State :=
  cell ⟨significant 14 now, intervalMs⟩ (now + intervalMs * 2)

def start (now : Nat) (input : Input) (last previousInterval : Nat) (key : Slot State) :
    Slot State × Result :=
  let retry := max input.eligibleAtMs (last + max input.intervalMs previousInterval)
  if input.deadlineAtMs ≤ retry then (key, .expired)
  else if now < retry then (key, .deferred retry)
  else (stored now input.intervalMs, .granted now)

/-- `DUPLICATE_HEAVY_ADMISSION_SCRIPT` on a key that has not expired. -/
def admissionScript (now : Nat) (input : Input) (key : Slot State) : Slot State × Result :=
  if input.deadlineAtMs ≤ now || input.deadlineAtMs ≤ input.eligibleAtMs then (key, .expired)
  else match content key with
    | none => start now input now input.intervalMs (stored now input.intervalMs)
    | some state =>
      if state.valid then start now input state.atMs state.intervalMs key
      else (key, .failed "Invalid duplicate heavy admission state")

def admitDuplicateHeavyStart (now : Nat) (input : Input) (key : Slot State) : Slot State × Result :=
  if validateDuplicateHeavyAdmission input then admissionScript now input (purge now key)
  else (purge now key, .failed "Invalid duplicate heavy admission bounds")

abbrev AdmissionRun (h : List (Entry Input Result)) (t : Nat) (key : Slot State) : Prop :=
  Run admitDuplicateHeavyStart (fun _ _ _ => True) none h t key

/-! ## One call -/

variable {now t : Nat} {input : Input} {key next : Slot State} {last previousInterval : Nat}

theorem start_cases (last : Nat) :
    (start now input last previousInterval key).1 = key ∧
      (∀ g, (start now input last previousInterval key).2 ≠ .granted g) ∨
    (input.eligibleAtMs ≤ now ∧ last + max input.intervalMs previousInterval ≤ now ∧
      start now input last previousInterval key = (stored now input.intervalMs, .granted now)) := by
  unfold start
  dsimp only
  split
  · exact .inl ⟨rfl, fun g => by simp⟩
  split
  · exact .inl ⟨rfl, fun g => by simp⟩
  · exact .inr ⟨by omega, by omega, rfl⟩

/-- What one call does to the key: nothing, a first look at an empty key, or a start. -/
inductive Effect (now : Nat) (input : Input) (key next : Slot State) (result : Result) : Prop
  | waits (hkey : next = purge now key) (hresult : ∀ g, result ≠ .granted g)
  | looks (hempty : purge now key = none) (hkey : next = stored now input.intervalMs)
      (hresult : ∀ g, result ≠ .granted g)
  | starts {state : State} (hstate : content (purge now key) = some state)
      (heligible : input.eligibleAtMs ≤ now) (hdeadline : now < input.deadlineAtMs)
      (hspaced : state.atMs + max input.intervalMs state.intervalMs ≤ now)
      (hkey : next = stored now input.intervalMs) (hresult : result = .granted now)

theorem Effect.granted {result : Result} {g : Nat} (h : Effect now input key next result)
    (hresult : result = .granted g) :
    g = now ∧ input.eligibleAtMs ≤ g ∧ g < input.deadlineAtMs := by
  cases h with
  | waits _ hno => exact absurd hresult (hno g)
  | looks _ _ hno => exact absurd hresult (hno g)
  | starts _ heligible hdeadline _ _ hgranted =>
    rw [hresult] at hgranted
    cases hgranted
    exact ⟨rfl, heligible, hdeadline⟩

theorem step_effect (now : Nat) (input : Input) (key : Slot State) :
    Effect now input key (admitDuplicateHeavyStart now input key).1
      (admitDuplicateHeavyStart now input key).2 := by
  unfold admitDuplicateHeavyStart
  split
  next hvalid =>
    unfold admissionScript
    split
    · exact .waits rfl fun g => by simp
    next hlive =>
      simp only [Bool.or_eq_true, decide_eq_true_eq, not_or, Nat.not_le] at hlive
      split
      next hnone =>
        have hempty : purge now key = none := by simpa [content] using hnone
        simp only [validateDuplicateHeavyAdmission, Bool.and_eq_true, decide_eq_true_eq] at hvalid
        rcases start_cases now with ⟨hkey, hresult⟩ | ⟨-, hspaced, -⟩
        · exact .looks hempty hkey hresult
        · omega
      next state hstate =>
        split
        · rcases start_cases state.atMs with ⟨hkey, hresult⟩ | ⟨heligible, hspaced, heq⟩
          · exact .waits hkey hresult
          · rw [heq]
            exact .starts hstate heligible hlive.1 hspaced rfl rfl
        · exact .waits rfl fun g => by simp
  · exact .waits rfl fun g => by simp

/-! ## Spacing -/

/-- A start at `g` with interval `i` binds: the key was written at `g` or later for long enough,
or it is empty and the interval is over. -/
def Binds (g i t : Nat) (key : Slot State) : Prop :=
  key = none ∧ g + i ≤ t ∨ ∃ a j, key = cell ⟨a, j⟩ (a + j * 2) ∧ g ≤ a ∧ g + i ≤ a + j

variable {g i j : Nat}

theorem Binds.mono (h : Binds g i t key) (hle : t ≤ now) : Binds g i now key := by
  rcases h with ⟨hnone, hover⟩ | hwritten
  · exact .inl ⟨hnone, by omega⟩
  · exact .inr hwritten

theorem Binds.purge (h : Binds g i t key) (hle : t ≤ now) : Binds g i now (purge now key) := by
  rcases h with ⟨rfl, hover⟩ | ⟨a, j, rfl, hlast, hlong⟩
  · exact .inl ⟨rfl, by omega⟩
  · rw [purge_cell]
    split
    · exact .inr ⟨a, j, rfl, hlast, hlong⟩
    · exact .inl ⟨rfl, by omega⟩

theorem binds_stored (hnow : now < 10 ^ 14) (hlast : g ≤ now) (hlong : g + i ≤ now + j) :
    Binds g i now (stored now j) := by
  refine .inr ⟨now, j, ?_, hlast, hlong⟩
  rw [stored, significant_of_lt (by decide) hnow]

theorem Binds.step {result : Result} (h : Binds g i t key) (hle : t ≤ now) (hnow : now < 10 ^ 14)
    (heffect : Effect now input key next result) :
    Binds g i now next ∧ ∀ g', result = .granted g' → g + max i input.intervalMs ≤ g' := by
  have hpurged := h.purge hle
  cases heffect with
  | waits hkey hresult =>
    rw [hkey]
    exact ⟨hpurged, fun g' hg => absurd hg (hresult g')⟩
  | looks hempty hkey hresult =>
    rcases hpurged with ⟨-, hover⟩ | ⟨a, j, hcell, -, -⟩
    · rw [hkey]
      exact ⟨binds_stored hnow (by omega) (by omega), fun g' hg => absurd hg (hresult g')⟩
    · rw [hempty] at hcell
      cases hcell
  | @starts state hstate _ _ hspaced hkey hresult =>
    rcases hpurged with ⟨hnone, -⟩ | ⟨a, j, hcell, hlast, hlong⟩
    · rw [hnone] at hstate
      cases hstate
    · rw [hcell, content_cell] at hstate
      cases hstate
      dsimp only at hspaced
      rw [hkey]
      refine ⟨binds_stored hnow (by omega) (by omega), fun g' hg => ?_⟩
      rw [hresult] at hg
      cases hg
      omega

theorem binds_granted {result : Result} (hnow : now < 10 ^ 14)
    (heffect : Effect now input key next result) (hresult : result = .granted g) :
    Binds g input.intervalMs now next := by
  cases heffect with
  | waits _ hno => exact absurd hresult (hno g)
  | looks _ _ hno => exact absurd hresult (hno g)
  | starts _ _ _ _ hkey hgranted =>
    rw [hresult] at hgranted
    cases hgranted
    rw [hkey]
    exact binds_stored hnow (Nat.le_refl _) (Nat.le_refl _)

variable {h h₁ h₂ : List (Entry Input Result)} {x : Entry Input Result}

theorem binds_since (hr : AdmissionRun (h₁ ++ x :: h₂) t key) (hclock : t < 10 ^ 14)
    (hx : x.reply = .granted g) : Binds g x.request.intervalMs t key := by
  have hsmall : ∀ e ∈ h₁ ++ x :: h₂, e.now < 10 ^ 14 := fun e he =>
    (hr.now_le e he).trans_lt hclock
  have hrun := Run.restrictAt (P := fun now _ => now < 10 ^ 14) hr hsmall
  rw [List.append_cons] at hrun
  refine Run.since (fun _ t key => Binds g x.request.intervalMs t key) ?_
    (fun _ _ _ _ hb hle => hb.mono hle) ?_ hrun
  · intro t₁ key₁ hpre
    obtain ⟨t₀, key₀, -, -, ⟨-, hnow⟩, rfl, hreply, rfl⟩ := hpre.snoc_inv
    exact binds_granted hnow (step_effect _ _ _) (hreply.symm.trans hx)
  · rintro _ _ t key input - - hb ⟨-, hnow⟩
    exact (hb.step le_rfl hnow (step_effect t input key)).1

/-- As long as a date has at most 14 digits, two starts are at least the larger of their intervals
apart. No start is early or late. -/
theorem heavy_starts_spaced (hr : AdmissionRun h t key) :
    (∀ h₁ x h₂ y h₃ g g', h = h₁ ++ x :: h₂ ++ y :: h₃ → x.reply = .granted g →
      y.reply = .granted g' → g' < 10 ^ 14 →
      g + max x.request.intervalMs y.request.intervalMs ≤ g') ∧
    ∀ x ∈ h, ∀ g, x.reply = .granted g →
      g = x.now ∧ x.request.eligibleAtMs ≤ g ∧ g < x.request.deadlineAtMs := by
  refine ⟨?_, ?_⟩
  · rintro h₁ x h₂ y h₃ g g' rfl hx hy hsmall
    rw [List.append_cons] at hr
    obtain ⟨t₁, key₁, hr₁, -⟩ := hr.of_append
    obtain ⟨t₀, key₀, hr₀, hle, -, -, hreply, -⟩ := hr₁.snoc_inv
    have heffect := step_effect y.now y.request key₀
    rw [← hreply] at heffect
    obtain ⟨rfl, -, -⟩ := heffect.granted hy
    have hb := binds_since hr₀ (hle.trans_lt hsmall) hx
    exact (hb.step hle hsmall heffect).2 _ hy
  · intro x hmem g hx
    obtain ⟨h₁, h₂, rfl⟩ := List.append_of_mem hmem
    rw [List.append_cons] at hr
    obtain ⟨t₁, key₁, hr₁, -⟩ := hr.of_append
    obtain ⟨t₀, key₀, -, -, -, -, hreply, -⟩ := hr₁.snoc_inv
    have heffect := step_effect x.now x.request key₀
    rw [← hreply] at heffect
    exact heffect.granted hx

def pacedCalls : List (Nat × Input) :=
  [(10 ^ 12, ⟨1, 1000, 10 ^ 13⟩), (10 ^ 12 + 1000, ⟨1, 1000, 10 ^ 13⟩),
    (10 ^ 12 + 2500, ⟨1, 1500, 10 ^ 13⟩)]

theorem heavy_starts_spaced_paced :
    ∃ t key, AdmissionRun (play admitDuplicateHeavyStart none pacedCalls).1 t key ∧
      10 ^ 12 + 1000 + max 1000 1500 ≤ 10 ^ 12 + 2500 := by
  obtain ⟨t, hr⟩ : ∃ t, AdmissionRun (play admitDuplicateHeavyStart none pacedCalls).1 t
      (play admitDuplicateHeavyStart none pacedCalls).2 :=
    run_play (by decide) (accepted_of_forall (fun _ _ _ => trivial) _ _)
  exact ⟨t, _, hr, (heavy_starts_spaced hr).1
    [⟨10 ^ 12, ⟨1, 1000, 10 ^ 13⟩, .deferred (10 ^ 12 + 1000)⟩]
    ⟨10 ^ 12 + 1000, ⟨1, 1000, 10 ^ 13⟩, .granted (10 ^ 12 + 1000)⟩
    [] ⟨10 ^ 12 + 2500, ⟨1, 1500, 10 ^ 13⟩, .granted (10 ^ 12 + 2500)⟩ []
    (10 ^ 12 + 1000) (10 ^ 12 + 2500) (by rfl) rfl rfl (by decide)⟩

/-- Three calls with the shortest interval at dates of 15 digits. -/
def lateCalls : List (Nat × Input) :=
  [(10 ^ 14 - 1000, ⟨1, 1000, 10 ^ 15⟩), (10 ^ 14 + 4, ⟨1, 1000, 10 ^ 15⟩),
    (10 ^ 14 + 1000, ⟨1, 1000, 10 ^ 15⟩)]

/-- At 15 digits the date of a start is rounded down, and the next start comes too early. -/
theorem late_starts_too_close :
    ¬∀ (h : List (Entry Input Result)) (t : Nat) (key : Slot State), AdmissionRun h t key →
      ∀ h₁ x h₂ y h₃ g g', h = h₁ ++ x :: h₂ ++ y :: h₃ → x.reply = .granted g →
        y.reply = .granted g' → g + max x.request.intervalMs y.request.intervalMs ≤ g' := by
  intro hall
  obtain ⟨t, hr⟩ : ∃ t, AdmissionRun (play admitDuplicateHeavyStart none lateCalls).1 t
      (play admitDuplicateHeavyStart none lateCalls).2 :=
    run_play (by decide) (accepted_of_forall (fun _ _ _ => trivial) _ _)
  have hclose := hall _ t _ hr [⟨10 ^ 14 - 1000, ⟨1, 1000, 10 ^ 15⟩, .deferred (10 ^ 14)⟩]
    ⟨10 ^ 14 + 4, ⟨1, 1000, 10 ^ 15⟩, .granted (10 ^ 14 + 4)⟩ []
    ⟨10 ^ 14 + 1000, ⟨1, 1000, 10 ^ 15⟩, .granted (10 ^ 14 + 1000)⟩ [] (10 ^ 14 + 4)
    (10 ^ 14 + 1000) (by rfl) rfl rfl
  exact absurd hclose (by decide)

end Maxim.Moderation.MessageDuplicate.HeavyAdmission
