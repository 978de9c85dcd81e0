import Mathlib.Logic.Function.Basic

/-!
# Stored values with an absolute expiry

A slot is empty or holds a value and the last clock reading at which the value
can still be read. `purge` forgets what has expired. A component that purges
its slots when it reads the clock needs no other expiry rule: what remains is
readable for the whole step.
-/

namespace Maxim.Library

/-- A stored value. Without `expiresAt` it stays until it is deleted. -/
structure Cell (α : Type) where
  value : α
  expiresAt : Option Nat
  deriving DecidableEq, Repr

variable {α κ : Type}

/-- The value can be read at `now`: it expires only when the clock is past its expiry. -/
def Cell.live (now : Nat) (c : Cell α) : Bool :=
  match c.expiresAt with
  | none => true
  | some x => decide (now ≤ x)

abbrev Slot (α : Type) := Option (Cell α)

def purge (now : Nat) (s : Slot α) : Slot α := s.filter (Cell.live now)

def content (s : Slot α) : Option α := s.map Cell.value

def expiry (s : Slot α) : Option Nat := s.bind Cell.expiresAt

/-- Give the value of a slot another expiry. An empty slot stays empty. -/
def expireAt (x : Nat) (s : Slot α) : Slot α := s.map fun c => { c with expiresAt := some x }

def cell (v : α) (x : Nat) : Slot α := some ⟨v, some x⟩

@[simp] theorem live_some (now x : Nat) (v : α) : Cell.live now ⟨v, some x⟩ = decide (now ≤ x) := rfl
@[simp] theorem live_none (now : Nat) (v : α) : Cell.live now ⟨v, none⟩ = true := rfl
@[simp] theorem content_none : content (none : Slot α) = none := rfl
@[simp] theorem content_some (c : Cell α) : content (some c) = some c.value := rfl
@[simp] theorem content_cell (v : α) (x : Nat) : content (cell v x) = some v := rfl
@[simp] theorem expiry_none : expiry (none : Slot α) = none := rfl
@[simp] theorem expiry_cell (v : α) (x : Nat) : expiry (cell v x) = some x := rfl
@[simp] theorem purge_none (now : Nat) : purge now (none : Slot α) = none := rfl
@[simp] theorem expireAt_none (x : Nat) : expireAt x (none : Slot α) = none := rfl
@[simp] theorem expireAt_some (x : Nat) (c : Cell α) :
    expireAt x (some c) = some ⟨c.value, some x⟩ := rfl

theorem live_mono {t t' : Nat} {c : Cell α} (h : c.live t' = true) (hle : t ≤ t') :
    c.live t = true := by
  cases hx : c.expiresAt with
  | none => simp [Cell.live, hx]
  | some x =>
    simp only [Cell.live, hx, decide_eq_true_eq] at h ⊢
    omega

theorem purge_eq_some {now : Nat} {s : Slot α} {c : Cell α} :
    purge now s = some c ↔ s = some c ∧ c.live now = true := by
  simp [purge, Option.filter_eq_some_iff]

theorem purge_some_of_live {now : Nat} {c : Cell α} (h : c.live now = true) :
    purge now (some c) = some c := purge_eq_some.mpr ⟨rfl, h⟩

theorem purge_cell (now : Nat) (v : α) (x : Nat) :
    purge now (cell v x) = if now ≤ x then cell v x else none := by
  simp [purge, cell, Option.filter]

theorem purge_eq_none {now : Nat} {s : Slot α} :
    purge now s = none ↔ ∀ c, s = some c → c.live now = false := by
  cases s with
  | none => simp
  | some c => simp [purge, Option.filter]

theorem content_purge_eq_some {now : Nat} {s : Slot α} {v : α} (h : content (purge now s) = some v) :
    content s = some v := by
  obtain ⟨c, hc, rfl⟩ := Option.map_eq_some_iff.mp h
  rw [(purge_eq_some.mp hc).1, content_some]

theorem purge_eq_self_or_none (now : Nat) (s : Slot α) : purge now s = s ∨ purge now s = none := by
  cases hs : purge now s with
  | none => exact .inr rfl
  | some c => exact .inl (purge_eq_some.mp hs).1.symm

/-! ## Deadlines -/

/-- The deadline `d` has passed, or a later one is stored and cannot expire before `d`. -/
def Guards (t : Nat) (s : Slot Nat) (d : Nat) : Prop :=
  d ≤ t ∨ ∃ v x, s = cell v x ∧ d ≤ v ∧ d ≤ x

theorem Guards.mono {t t' d : Nat} {s : Slot Nat} (h : Guards t s d) (hle : t ≤ t') :
    Guards t' s d := h.imp_left fun hd => Nat.le_trans hd hle

theorem Guards.purge {t d : Nat} {s : Slot Nat} (h : Guards t s d) :
    Guards t (Library.purge t s) d := by
  rcases h with hd | ⟨v, x, rfl, hv, hx⟩
  · exact .inl hd
  · by_cases hlive : t ≤ x
    · exact .inr ⟨v, x, purge_some_of_live (by simpa using hlive), hv, hx⟩
    · exact .inl (by omega)

theorem Guards.le {t d : Nat} {s : Slot Nat} (h : Guards t s d) :
    d ≤ t ∨ d ≤ (content s).getD 0 := by
  rcases h with hd | ⟨v, x, rfl, hv, -⟩
  · exact .inl hd
  · exact .inr hv

theorem guards_cell {t d v x : Nat} (hv : d ≤ v) (hx : d ≤ x) : Guards t (cell v x) d :=
  .inr ⟨v, x, rfl, hv, hx⟩

/-! ## Owners -/

/-- The clock has reached `d`, or the slot holds `v` and keeps it at least until `d`. -/
def Holds (t : Nat) (s : Slot α) (v : α) (d : Int) : Prop :=
  d ≤ t ∨ ∃ x : Nat, s = cell v x ∧ d ≤ x

/-- What the slot holds expires, and not after `b`. -/
def ExpiresBy (b : Nat) (s : Slot α) : Prop :=
  ∀ c, s = some c → ∃ x, c.expiresAt = some x ∧ x ≤ b

section Holds

variable {t t' : Nat} {s : Slot α} {v : α} {d d' : Int}

theorem Holds.mono (h : Holds t s v d) (hle : t ≤ t') : Holds t' s v d :=
  h.imp_left fun hd => by omega

theorem holds_cell {x : Nat} (hx : d ≤ x) : Holds t (cell v x) v d := .inr ⟨x, rfl, hx⟩

theorem Holds.content (h : Holds t s v d) (hlt : t < d) : content (Library.purge t s) = some v := by
  rcases h with hd | ⟨x, rfl, hx⟩
  · omega
  · rw [purge_cell, if_pos (by omega), content_cell]

theorem Holds.replaced {s' : Slot α} (h : Holds t s v d) (hne : Library.content (purge t s) ≠ some v) :
    Holds t s' v d := by
  by_cases hd : d ≤ t
  · exact .inl hd
  · exact absurd (h.content (by omega)) hne

theorem Holds.purge (h : Holds t s v d) : Holds t (Library.purge t s) v d := by
  rcases purge_eq_self_or_none t s with hs | hs
  · rwa [hs]
  · exact h.replaced (by simp [hs])

theorem Holds.extended {x : Nat} (h : Holds t s v d) (hs : ExpiresBy x s) :
    Holds t (cell v x) v d := by
  rcases h with hd | ⟨y, rfl, hy⟩
  · exact .inl hd
  · obtain ⟨z, hz, hle⟩ := hs ⟨v, some y⟩ rfl
    obtain rfl : y = z := by simpa using hz
    exact holds_cell (by omega)

theorem ExpiresBy.mono {b b' : Nat} (h : ExpiresBy b s) (hle : b ≤ b') : ExpiresBy b' s := by
  intro c hc
  obtain ⟨x, hx, hb⟩ := h c hc
  exact ⟨x, hx, by omega⟩

theorem ExpiresBy.purge {b : Nat} (h : ExpiresBy b s) : ExpiresBy b (Library.purge t s) :=
  fun c hc => h c (purge_eq_some.mp hc).1

theorem expiresBy_none {b : Nat} : ExpiresBy b (none : Slot α) := fun _ h => by cases h

theorem expiresBy_cell {b x : Nat} (hx : x ≤ b) : ExpiresBy b (cell v x) := by
  intro c hc
  cases hc
  exact ⟨x, rfl, hx⟩

end Holds

abbrev Slots (κ α : Type) := κ → Slot α

variable [DecidableEq κ]

def put (m : Slots κ α) (k : κ) (s : Slot α) : Slots κ α := Function.update m k s

@[simp] theorem put_same (m : Slots κ α) (k : κ) (s : Slot α) : put m k s k = s := by
  simp [put]

theorem put_other (m : Slots κ α) {k k' : κ} (h : k' ≠ k) (s : Slot α) :
    put m k s k' = m k' := by
  simp [put, h]

theorem put_apply (m : Slots κ α) (k k' : κ) (s : Slot α) :
    put m k s k' = if k' = k then s else m k' := by
  simp [put, Function.update_apply]

end Maxim.Library
