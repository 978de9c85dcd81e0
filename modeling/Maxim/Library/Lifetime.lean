import Maxim.Library.Table

/-!
# Extending lifetimes

A key that is written again and again gets its expiry extended: it then lives
for at least a given time, and a key that would live longer is left alone.
-/

namespace Maxim.Library

variable {α κ ν : Type}

/-- Extend the expiry of a value that would not live for `ttlMs` from now on. -/
def extendTtl (now ttlMs : Nat) (s : Slot α) : Slot α :=
  s.map fun c => match c.expiresAt with
    | some x => if x - now < ttlMs then { c with expiresAt := some (now + ttlMs) } else c
    | none => { c with expiresAt := some (now + ttlMs) }

/-- The slot is empty, has no expiry, or expires no later than `b`. -/
def Within (b : Nat) (s : Slot α) : Prop :=
  ∀ c, s = some c → ∀ x, c.expiresAt = some x → x ≤ b

theorem ExpiresAt.within {s : Slot α} {d b : Nat} (h : ExpiresAt d s) (hle : d ≤ b) :
    Within b s := by
  intro c hc x hx
  have hd := h c hc
  rw [hx, Option.some.injEq] at hd
  omega

theorem Within.setField [DecidableEq κ] {s : Slot (Table κ ν)} {b : Nat}
    (h : Within b s) (k : κ) (v : ν) : Within b (setField s k v) := by
  intro c hc x hx
  cases s with
  | none =>
    rw [Library.setField, Option.some.injEq] at hc
    rw [← hc] at hx
    simp at hx
  | some c₀ =>
    rw [Library.setField, Option.some.injEq] at hc
    rw [← hc] at hx
    exact h c₀ rfl x hx

theorem expiresAt_cell (v : α) (x : Nat) : ExpiresAt x (cell v x) := by
  intro c hc
  rw [cell, Option.some.injEq] at hc
  rw [← hc]

theorem ExpiresAt.purge {x : Nat} {s : Slot α} (h : ExpiresAt x s) (now : Nat) :
    ExpiresAt x (purge now s) := fun c hc => h c (purge_eq_some.mp hc).1

theorem expiresAt_extendTtl {now ttlMs : Nat} {s : Slot α} (hpos : 0 < ttlMs)
    (h : Within (now + ttlMs) s) : ExpiresAt (now + ttlMs) (extendTtl now ttlMs s) := by
  intro c hc
  obtain ⟨c₀, hc₀, rfl⟩ := Option.map_eq_some_iff.mp hc
  cases hx : c₀.expiresAt with
  | none => rfl
  | some x =>
    have hle := h c₀ hc₀ x hx
    dsimp only
    split
    · rfl
    · rw [hx]
      congr 1
      omega

theorem content_extendTtl (now ttlMs : Nat) (s : Slot α) :
    content (extendTtl now ttlMs s) = content s := by
  cases s with
  | none => rfl
  | some c =>
    simp only [extendTtl, Option.map_some, content_some, Option.some.injEq]
    split
    · split <;> rfl
    · rfl

@[simp] theorem field_extendTtl [DecidableEq κ] (now ttlMs : Nat) (s : Slot (Table κ ν)) (k : κ) :
    field (extendTtl now ttlMs s) k = field s k := by
  cases s with
  | none => rfl
  | some c =>
    simp only [extendTtl, Option.map_some, field, Option.bind_some]
    split
    · split <;> rfl
    · rfl

theorem apply_put [DecidableEq κ] {β : Type} {f : Slot α → β} {g : Slot α → Slot α}
    (h : ∀ s, f (g s) = f s) (m : Slots κ α) (k k' : κ) : f (put m k (g (m k)) k') = f (m k') := by
  rw [put_apply]
  split
  · rename_i heq
    rw [h, heq]
  · rfl

end Maxim.Library
