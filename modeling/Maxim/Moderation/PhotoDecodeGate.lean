import Maxim.Library.Run
import Mathlib.Data.List.Nodup

/-!
# The gate of the photo decode pipelines

A gate lets a number of operations run and a number of callers wait. An
operation that ends hands its slot to the caller that has waited longest,
without a change of the counter. A timer takes a waiting caller off the queue,
and a caller that comes to its slot too late gives it up.
-/

namespace Maxim.Moderation.PhotoDecodeGate

open Maxim.Library

def MAX_SAFE_INTEGER : Int := 9007199254740991

/-- The gate and where the callers are in `run`. Callers are numbered in the order of their calls. -/
structure Gate where
  active : Int
  waiters : List Nat
  /-- The waiters whose timer is set. -/
  timers : List Nat
  deadline : Nat → Int
  /-- The callers that have a slot and whose continuation has not run. -/
  starting : List Nat
  /-- The callers whose operation has not settled. -/
  running : List Nat
  calls : Nat

def Gate.empty : Gate := ⟨0, [], [], fun _ => 0, [], [], 0⟩

/-- What happens at the gate. `now` is what the clock reads, which need not be in order. -/
inductive Request
  | run (now deadlineAtMs : Int)
  /-- A caller with a slot goes on. Its operation can throw before it returns a promise. -/
  | proceed (now : Int) (id : Nat) (throws : Bool)
  /-- The operation of a caller completes or fails. -/
  | settle (id : Nat)
  | timer (id : Nat)
  deriving DecidableEq, Repr

inductive Reply
  | admitted (id : Nat)
  | queued (id : Nat)
  | refused (id : Nat) (capacity : Bool)
  | started (id : Nat)
  /-- The operation was called and threw, and the slot went to another caller or back to the gate. -/
  | threw (id : Nat) (handed : Option Nat)
  | late (id : Nat) (handed : Option Nat)
  | settled (id : Nat) (handed : Option Nat)
  | timedOut (id : Nat)
  | nothing
  deriving DecidableEq, Repr

/-- `release`, with the caller that is resolved. -/
def Gate.release (g : Gate) : Gate × Option Nat :=
  match g.waiters with
  | next :: rest =>
    ({ g with waiters := rest, timers := g.timers.filter (· ≠ next), starting := g.starting ++ [next] }, some next)
  | [] => ({ g with active := g.active - 1 }, none)

def Gate.called (deadlineAtMs : Int) (g : Gate) : Gate :=
  { g with calls := g.calls + 1, deadline := fun c => if c = g.calls then deadlineAtMs else g.deadline c }

/-- `acquire`, up to where it waits. -/
def Gate.acquire (maxConcurrent maxQueued : Nat) (now : Int) (deadlineAtMs : Int) (g : Gate) : Gate × Reply :=
  if deadlineAtMs ≤ now then (g.called deadlineAtMs, .refused g.calls false)
  else if g.active < maxConcurrent then
    ({ g.called deadlineAtMs with active := g.active + 1, starting := g.starting ++ [g.calls] },
      .admitted g.calls)
  else if maxQueued ≤ g.waiters.length then (g.called deadlineAtMs, .refused g.calls true)
  else
    ({ g.called deadlineAtMs with
      waiters := g.waiters ++ [g.calls]
      timers := if deadlineAtMs = MAX_SAFE_INTEGER then g.timers else g.timers ++ [g.calls] },
      .queued g.calls)

/-- What `run` does with its slot, up to where it waits for the operation. -/
def Gate.proceed (now : Int) (id : Nat) (throws : Bool) (g : Gate) : Gate × Reply :=
  if id ∈ g.starting then
    let g := { g with starting := g.starting.filter (· ≠ id) }
    if g.deadline id ≤ now then
      let r := g.release
      (r.1, .late id r.2)
    else if throws then
      let r := g.release
      (r.1, .threw id r.2)
    else ({ g with running := g.running ++ [id] }, .started id)
  else (g, .nothing)

def Gate.settle (id : Nat) (g : Gate) : Gate × Reply :=
  if id ∈ g.running then
    let r := { g with running := g.running.filter (· ≠ id) }.release
    (r.1, .settled id r.2)
  else (g, .nothing)

/-- The timer removes its waiter when it is there. -/
def Gate.timer (id : Nat) (g : Gate) : Gate × Reply :=
  if id ∈ g.timers then
    ({ g with timers := g.timers.filter (· ≠ id), waiters := g.waiters.erase id }, .timedOut id)
  else (g, .nothing)

def step (maxConcurrent maxQueued : Nat) (_ : Nat) : Request → Gate → Gate × Reply
  | .run now deadlineAtMs, g => g.acquire maxConcurrent maxQueued now deadlineAtMs
  | .proceed now id throws, g => g.proceed now id throws
  | .settle id, g => g.settle id
  | .timer id, g => g.timer id

/-! ## The slots -/

/-- Every slot but `left` has one caller, and nobody waits while a slot is free. -/
structure Held (maxConcurrent maxQueued left : Nat) (g : Gate) : Prop where
  active : g.active = (g.starting.length + g.running.length + left : Nat)
  slots : g.active ≤ maxConcurrent
  queue : g.waiters.length ≤ maxQueued
  full : g.waiters ≠ [] → g.active = maxConcurrent
  order : g.waiters.Pairwise (· < ·)
  apart : (g.starting ++ g.running ++ g.waiters).Nodup
  numbered : ∀ id ∈ g.starting ++ g.running ++ g.waiters, id < g.calls
  timers : ∀ id ∈ g.timers, id ∈ g.waiters

variable {maxConcurrent maxQueued : Nat} {g : Gate}

theorem held_empty : Held maxConcurrent maxQueued 0 .empty := by
  constructor <;> simp [Gate.empty]

theorem Held.release (h : Held maxConcurrent maxQueued 1 g) : Held maxConcurrent maxQueued 0 g.release.1 := by
  unfold Gate.release
  split
  · next next rest hw =>
    have hqueue := h.queue
    have horder := h.order
    have hactive := h.active
    have hperm : (g.starting ++ g.running ++ g.waiters).Perm (g.starting ++ [next] ++ g.running ++ rest) := by
      rw [hw, List.append_assoc, List.append_assoc, List.append_assoc, List.singleton_append]
      exact List.Perm.append_left _ List.perm_middle
    rw [hw] at hqueue horder
    refine ⟨?_, h.slots, ?_, fun _ => h.full (by rw [hw]; simp), (List.pairwise_cons.mp horder).2,
      hperm.nodup_iff.mp h.apart, fun id hid => h.numbered id (hperm.mem_iff.mpr hid), ?_⟩
    · simp only [List.length_append, List.length_singleton]
      omega
    · exact Nat.le_of_succ_le hqueue
    · intro id hid
      obtain ⟨hid, hne⟩ := List.mem_filter.mp hid
      have hmem := h.timers id hid
      rw [hw] at hmem
      exact (List.mem_cons.mp hmem).resolve_left (of_decide_eq_true hne)
  · next hw =>
    have hactive := h.active
    have hslots := h.slots
    refine ⟨?_, ?_, h.queue, fun hne => absurd hw hne, h.order, h.apart, h.numbered, h.timers⟩
    · simp only [hactive]
      omega
    · change g.active - 1 ≤ _
      omega

theorem perm_leave {l : List Nat} {id : Nat} (hl : l.Nodup) (hid : id ∈ l) :
    l.Perm (id :: l.filter (· ≠ id)) := by
  have herase : l.erase id = l.filter (· ≠ id) := by
    rw [hl.erase_eq_filter]
    exact List.filter_congr fun c _ => by simp [bne, beq_eq_decide]
  exact herase ▸ List.perm_cons_erase hid

theorem Held.starting_left {id : Nat} (h : Held maxConcurrent maxQueued 0 g) (hid : id ∈ g.starting) :
    Held maxConcurrent maxQueued 1 { g with starting := g.starting.filter (· ≠ id) } := by
  have hsub : (g.starting.filter (· ≠ id) ++ g.running ++ g.waiters).Sublist
      (g.starting ++ g.running ++ g.waiters) :=
    (List.filter_sublist.append_right _).append_right _
  have hlength := (perm_leave (List.Nodup.of_append_left h.apart).of_append_left hid).length_eq
  rw [List.length_cons] at hlength
  refine ⟨?_, h.slots, h.queue, h.full, h.order, hsub.nodup h.apart, fun c hc => h.numbered c (hsub.subset hc),
    h.timers⟩
  rw [h.active]
  simp only
  omega

theorem Held.running_left {id : Nat} (h : Held maxConcurrent maxQueued 0 g) (hid : id ∈ g.running) :
    Held maxConcurrent maxQueued 1 { g with running := g.running.filter (· ≠ id) } := by
  have hsub : (g.starting ++ g.running.filter (· ≠ id) ++ g.waiters).Sublist
      (g.starting ++ g.running ++ g.waiters) :=
    (List.filter_sublist.append_left _).append_right _
  have hlength := (perm_leave (List.Nodup.of_append_left h.apart).of_append_right hid).length_eq
  rw [List.length_cons] at hlength
  refine ⟨?_, h.slots, h.queue, h.full, h.order, hsub.nodup h.apart, fun c hc => h.numbered c (hsub.subset hc),
    h.timers⟩
  rw [h.active]
  simp only
  omega

theorem Held.started {id : Nat} (h : Held maxConcurrent maxQueued 0 g) (hid : id ∈ g.starting) :
    Held maxConcurrent maxQueued 0
      { g with starting := g.starting.filter (· ≠ id), running := g.running ++ [id] } := by
  have hlength := (perm_leave (List.Nodup.of_append_left h.apart).of_append_left hid).length_eq
  rw [List.length_cons] at hlength
  have hperm : (g.starting.filter (· ≠ id) ++ (g.running ++ [id]) ++ g.waiters).Perm
      (g.starting ++ g.running ++ g.waiters) := by
    have hleave := perm_leave (List.Nodup.of_append_left h.apart).of_append_left hid
    rw [List.perm_iff_count] at hleave ⊢
    intro c
    have hleave := hleave c
    simp only [List.count_append, List.count_cons, List.count_nil] at hleave ⊢
    omega
  refine ⟨?_, h.slots, h.queue, h.full, h.order, hperm.nodup_iff.mpr h.apart,
    fun c hc => h.numbered c (hperm.mem_iff.mp hc), h.timers⟩
  rw [h.active]
  simp only [List.length_append, List.length_singleton]
  omega

theorem Held.timedOut {id : Nat} (h : Held maxConcurrent maxQueued 0 g) :
    Held maxConcurrent maxQueued 0
      { g with timers := g.timers.filter (· ≠ id), waiters := g.waiters.erase id } := by
  have hsub : (g.waiters.erase id).Sublist g.waiters := List.erase_sublist
  have hall := hsub.append_left (g.starting ++ g.running)
  refine ⟨h.active, h.slots, Nat.le_trans hsub.length_le h.queue, fun hne => h.full fun hnil => hne ?_,
    List.Pairwise.sublist hsub h.order, hall.nodup h.apart, fun c hc => h.numbered c (hall.subset hc), ?_⟩
  · simp only [hnil, List.erase_nil]
  · intro c hc
    obtain ⟨hc, hne⟩ := List.mem_filter.mp hc
    exact (List.mem_erase_of_ne (of_decide_eq_true hne)).mpr (h.timers c hc)

theorem Held.fresh (h : Held maxConcurrent maxQueued 0 g) (l r : List Nat)
    (hperm : (l ++ r).Perm (g.calls :: (g.starting ++ g.running ++ g.waiters))) :
    (l ++ r).Nodup ∧ ∀ id ∈ l ++ r, id < g.calls + 1 := by
  refine ⟨hperm.nodup_iff.mpr (List.nodup_cons.mpr ⟨fun hmem => ?_, h.apart⟩), fun id hid => ?_⟩
  · exact absurd (h.numbered _ hmem) (Nat.lt_irrefl _)
  · rcases List.mem_cons.mp (hperm.mem_iff.mp hid) with rfl | hid
    · exact Nat.lt_succ_self _
    · exact Nat.lt_succ_of_lt (h.numbered id hid)

/-! ## What a request does -/

inductive Moves (maxConcurrent maxQueued : Nat) (g : Gate) : Gate → Reply → Prop
  | nothing : Moves maxConcurrent maxQueued g g .nothing
  | refused (d : Int) (capacity : Bool) :
    Moves maxConcurrent maxQueued g (g.called d) (.refused g.calls capacity)
  | admitted (d : Int) : g.active < maxConcurrent →
    Moves maxConcurrent maxQueued g
      { g.called d with active := g.active + 1, starting := g.starting ++ [g.calls] } (.admitted g.calls)
  | queued (d : Int) (timers : List Nat) : maxConcurrent ≤ g.active → g.waiters.length < maxQueued →
    (∀ c ∈ timers, c ∈ g.timers ∨ c = g.calls) →
    Moves maxConcurrent maxQueued g
      { g.called d with waiters := g.waiters ++ [g.calls], timers := timers } (.queued g.calls)
  | started (id : Nat) : id ∈ g.starting →
    Moves maxConcurrent maxQueued g
      { g with starting := g.starting.filter (· ≠ id), running := g.running ++ [id] } (.started id)
  | threw (id : Nat) : id ∈ g.starting →
    Moves maxConcurrent maxQueued g { g with starting := g.starting.filter (· ≠ id) }.release.1
      (.threw id { g with starting := g.starting.filter (· ≠ id) }.release.2)
  | late (id : Nat) : id ∈ g.starting →
    Moves maxConcurrent maxQueued g { g with starting := g.starting.filter (· ≠ id) }.release.1
      (.late id { g with starting := g.starting.filter (· ≠ id) }.release.2)
  | settled (id : Nat) : id ∈ g.running →
    Moves maxConcurrent maxQueued g { g with running := g.running.filter (· ≠ id) }.release.1
      (.settled id { g with running := g.running.filter (· ≠ id) }.release.2)
  | timedOut (id : Nat) : id ∈ g.timers →
    Moves maxConcurrent maxQueued g
      { g with timers := g.timers.filter (· ≠ id), waiters := g.waiters.erase id } (.timedOut id)

theorem acquire_moves (maxConcurrent maxQueued : Nat) (now d : Int) (g : Gate) :
    Moves maxConcurrent maxQueued g (g.acquire maxConcurrent maxQueued now d).1
      (g.acquire maxConcurrent maxQueued now d).2 := by
  unfold Gate.acquire
  by_cases hlate : d ≤ now
  · rw [if_pos hlate]
    exact .refused d false
  rw [if_neg hlate]
  by_cases hfree : g.active < maxConcurrent
  · rw [if_pos hfree]
    exact .admitted d hfree
  rw [if_neg hfree]
  by_cases hfull : maxQueued ≤ g.waiters.length
  · rw [if_pos hfull]
    exact .refused d true
  rw [if_neg hfull]
  refine .queued d _ (Int.not_lt.mp hfree) (Nat.not_le.mp hfull) fun c hc => ?_
  split at hc
  · exact .inl hc
  · exact (List.mem_append.mp hc).imp_right List.mem_singleton.mp

theorem proceed_moves (maxConcurrent maxQueued : Nat) (now : Int) (id : Nat) (throws : Bool) (g : Gate) :
    Moves maxConcurrent maxQueued g (g.proceed now id throws).1 (g.proceed now id throws).2 := by
  unfold Gate.proceed
  by_cases hid : id ∈ g.starting
  · rw [if_pos hid]
    by_cases hlate : g.deadline id ≤ now
    · simp only [hlate, if_true]
      exact .late id hid
    · cases throws
      · simp only [hlate, if_false, Bool.false_eq_true]
        exact .started id hid
      · simp only [hlate, if_false, if_true]
        exact .threw id hid
  · rw [if_neg hid]
    exact .nothing

theorem step_moves (maxConcurrent maxQueued tick : Nat) (q : Request) (g : Gate) :
    Moves maxConcurrent maxQueued g (step maxConcurrent maxQueued tick q g).1
      (step maxConcurrent maxQueued tick q g).2 := by
  cases q with
  | run now d => exact acquire_moves maxConcurrent maxQueued now d g
  | proceed now id throws => exact proceed_moves maxConcurrent maxQueued now id throws g
  | settle id =>
    simp only [step, Gate.settle]
    by_cases hid : id ∈ g.running
    · rw [if_pos hid]
      exact .settled id hid
    · rw [if_neg hid]
      exact .nothing
  | timer id =>
    simp only [step, Gate.timer]
    by_cases hid : id ∈ g.timers
    · rw [if_pos hid]
      exact .timedOut id hid
    · rw [if_neg hid]
      exact .nothing

/-- Every request keeps the slots. -/
theorem Held.moves (h : Held maxConcurrent maxQueued 0 g) {g' : Gate} {r : Reply}
    (hm : Moves maxConcurrent maxQueued g g' r) : Held maxConcurrent maxQueued 0 g' := by
  have hactive := h.active
  cases hm with
  | nothing => exact h
  | refused d capacity =>
    exact ⟨h.active, h.slots, h.queue, h.full, h.order, h.apart,
      fun id hid => Nat.lt_succ_of_lt (h.numbered id hid), h.timers⟩
  | admitted d hfree =>
    have hempty : g.waiters = [] := by
      by_contra hne
      have hfull := h.full hne
      omega
    obtain ⟨hapart, hnum⟩ := h.fresh (g.starting ++ [g.calls] ++ g.running) g.waiters (by
      rw [List.perm_iff_count]
      intro c
      simp only [List.count_append, List.count_cons, List.count_nil]
      omega)
    refine ⟨?_, hfree, h.queue, fun hne => absurd hempty hne, h.order, hapart, hnum, h.timers⟩
    simp only [Gate.called, List.length_append, List.length_singleton]
    omega
  | queued d timers hbusy hroom htimers =>
    obtain ⟨hapart, hnum⟩ := h.fresh (g.starting ++ g.running) (g.waiters ++ [g.calls]) (by
      rw [List.perm_iff_count]
      intro c
      simp only [List.count_append, List.count_cons, List.count_nil]
      omega)
    refine ⟨h.active, h.slots, ?_, fun _ => Int.le_antisymm h.slots hbusy, ?_, hapart, hnum, fun c hc => ?_⟩
    · rw [List.length_append, List.length_singleton]
      exact hroom
    · refine List.pairwise_append.mpr ⟨h.order, List.pairwise_singleton _ _, fun c hc d hd => ?_⟩
      rw [List.mem_singleton.mp hd]
      exact h.numbered c (List.mem_append_right _ hc)
    · rcases htimers c hc with hc | rfl
      · exact List.mem_append_left _ (h.timers c hc)
      · exact List.mem_append_right _ (List.mem_singleton.mpr rfl)
  | started id hid => exact h.started hid
  | threw id hid => exact (h.starting_left hid).release
  | late id hid => exact (h.starting_left hid).release
  | settled id hid => exact (h.running_left hid).release
  | timedOut id hid => exact h.timedOut

/-! ## What the answers say -/

def Reply.out : Reply → Option Nat
  | .refused id _ | .late id _ | .timedOut id => some id
  | _ => none

def Reply.invokes : Reply → Option Nat
  | .started id | .threw id _ => some id
  | _ => none

/-- The caller that gets a slot. -/
def Reply.grants : Reply → Option Nat
  | .admitted id => some id
  | .threw _ handed | .late _ handed | .settled _ handed => handed
  | _ => none

def Gate.inside (g : Gate) : List Nat := g.starting ++ g.running ++ g.waiters

def Gate.pending (g : Gate) : List Nat := g.starting ++ g.waiters

theorem mem_release_inside {c : Nat} : c ∈ g.release.1.inside ↔ c ∈ g.inside := by
  unfold Gate.release
  split
  · next next rest hw =>
    simp only [Gate.inside, hw, List.mem_append, List.mem_cons, List.not_mem_nil, or_false]
    tauto
  · rfl

theorem mem_release_pending {c : Nat} : c ∈ g.release.1.pending ↔ c ∈ g.pending := by
  unfold Gate.release
  split
  · next next rest hw =>
    simp only [Gate.pending, hw, List.mem_append, List.mem_cons, List.not_mem_nil, or_false]
    tauto
  · rfl

@[simp]
theorem release_calls : g.release.1.calls = g.calls := by
  unfold Gate.release
  split <;> rfl

theorem release_waiters (g : Gate) : g.release.1.waiters = g.waiters.tail ∧ g.release.2 = g.waiters.head? := by
  unfold Gate.release
  split
  · next hw => simp [hw]
  · next hw => simp [hw]

variable {g' : Gate} {r : Reply} {id c : Nat}

theorem Moves.calls_le (hm : Moves maxConcurrent maxQueued g g' r) : g.calls ≤ g'.calls := by
  cases hm <;> simp [Gate.called]

theorem Moves.inside (hm : Moves maxConcurrent maxQueued g g' r) (hc : c ∈ g'.inside) :
    c ∈ g.inside ∨ c = g.calls ∧ c < g'.calls := by
  cases hm with
  | nothing | refused => exact .inl hc
  | admitted | queued =>
    by_cases hnew : c = g.calls
    · exact .inr ⟨hnew, Nat.lt_succ_of_le (Nat.le_of_eq hnew)⟩
    · simp only [Gate.inside, Gate.called, List.mem_append, List.mem_singleton, hnew, or_false] at hc ⊢
      exact .inl hc
  | started id hid =>
    simp only [Gate.inside, List.mem_append, List.mem_filter, List.mem_singleton] at hc ⊢
    rcases hc with (⟨hc, -⟩ | hc | rfl) | hc
    · exact .inl (.inl (.inl hc))
    · exact .inl (.inl (.inr hc))
    · exact .inl (.inl (.inl hid))
    · exact .inl (.inr hc)
  | threw | late =>
    rw [mem_release_inside] at hc
    simp only [Gate.inside, List.mem_append, List.mem_filter] at hc ⊢
    exact .inl (hc.imp_left (Or.imp_left And.left))
  | settled =>
    rw [mem_release_inside] at hc
    simp only [Gate.inside, List.mem_append, List.mem_filter] at hc ⊢
    exact .inl (hc.imp_left (Or.imp_right And.left))
  | timedOut =>
    simp only [Gate.inside, List.mem_append] at hc ⊢
    exact .inl (hc.imp_right List.mem_of_mem_erase)

theorem Moves.pending (hm : Moves maxConcurrent maxQueued g g' r) (hc : c ∈ g'.pending) :
    c ∈ g.pending ∨ c = g.calls := by
  cases hm with
  | nothing | refused => exact .inl hc
  | admitted | queued =>
    by_cases hnew : c = g.calls
    · exact .inr hnew
    · simp only [Gate.pending, Gate.called, List.mem_append, List.mem_singleton, hnew, or_false] at hc ⊢
      exact hc
  | started =>
    simp only [Gate.pending, List.mem_append, List.mem_filter] at hc ⊢
    exact .inl (hc.imp_left And.left)
  | threw | late =>
    rw [mem_release_pending] at hc
    simp only [Gate.pending, List.mem_append, List.mem_filter] at hc ⊢
    exact .inl (hc.imp_left And.left)
  | settled =>
    rw [mem_release_pending] at hc
    exact .inl hc
  | timedOut =>
    simp only [Gate.pending, List.mem_append] at hc ⊢
    exact .inl (hc.imp_right List.mem_of_mem_erase)

theorem Moves.waits (hm : Moves maxConcurrent maxQueued g g' r) (hc : c ∈ g.waiters) :
    c ∈ g'.waiters ∨ r.grants = some c ∨ r = .timedOut c := by
  have hrelease : ∀ g₁ : Gate, g₁.waiters = g.waiters →
      c ∈ g₁.release.1.waiters ∨ g₁.release.2 = some c := by
    intro g₁ hw
    obtain ⟨htail, hhead⟩ := release_waiters g₁
    rw [htail, hhead, hw]
    cases hl : g.waiters with
    | nil => exact absurd hc (hl ▸ List.not_mem_nil)
    | cons first rest =>
      rcases List.mem_cons.mp (hl ▸ hc) with rfl | hc
      · exact .inr rfl
      · exact .inl hc
  cases hm with
  | nothing | refused | admitted | started => exact .inl hc
  | queued => exact .inl (List.mem_append_left _ hc)
  | threw id | late id => exact (hrelease { g with starting := g.starting.filter (· ≠ id) } rfl).imp_right .inl
  | settled id => exact (hrelease { g with running := g.running.filter (· ≠ id) } rfl).imp_right .inl
  | timedOut id hid =>
    by_cases hcid : c = id
    · exact .inr (.inr (hcid ▸ rfl))
    · exact .inl ((List.mem_erase_of_ne hcid).mpr hc)

theorem Moves.granted (hm : Moves maxConcurrent maxQueued g g' r) (h : Held maxConcurrent maxQueued 0 g)
    (hr : r.grants = some id) : g.waiters.head? = some id ∨ g.waiters = [] ∧ id = g.calls := by
  cases hm with
  | nothing | refused | queued | started | timedOut => cases hr
  | admitted d hfree =>
    refine .inr ⟨?_, (Option.some.inj hr).symm⟩
    by_contra hne
    have hfull := h.full hne
    omega
  | threw | late | settled =>
    rw [Reply.grants, (release_waiters _).2] at hr
    exact .inl hr

theorem Moves.invoked (hm : Moves maxConcurrent maxQueued g g' r) (h : Held maxConcurrent maxQueued 0 g)
    (hr : r.invokes = some id) : id ∈ g.pending ∧ id < g'.calls ∧ id ∉ g'.pending := by
  have hgone : ∀ {id}, id ∈ g.starting → id ∉ g.starting.filter (· ≠ id) ++ g.waiters := by
    intro id hid hmem
    rcases List.mem_append.mp hmem with hmem | hmem
    · exact absurd rfl (of_decide_eq_true (List.mem_filter.mp hmem).2)
    · exact (List.nodup_append.mp h.apart).2.2 _ (List.mem_append_left _ hid) _ hmem rfl
  have hnum : ∀ {id}, id ∈ g.starting → id < g.calls := fun hid =>
    h.numbered _ (List.mem_append_left _ (List.mem_append_left _ hid))
  cases hm with
  | nothing | refused | queued | admitted | late | settled | timedOut => cases hr
  | started id hid =>
    obtain rfl := Option.some.inj hr
    exact ⟨List.mem_append_left _ hid, hnum hid, hgone hid⟩
  | threw id hid =>
    obtain rfl := Option.some.inj hr
    refine ⟨List.mem_append_left _ hid, ?_, fun hmem => ?_⟩
    · rw [release_calls]
      exact hnum hid
    · exact hgone hid (mem_release_pending.mp hmem)

theorem Moves.failed (hm : Moves maxConcurrent maxQueued g g' r) (h : Held maxConcurrent maxQueued 0 g)
    (hr : r.out = some id) : (id ∈ g.pending ∨ id = g.calls) ∧ id < g'.calls ∧ id ∉ g'.inside := by
  cases hm with
  | nothing | admitted | queued | started | threw | settled => cases hr
  | refused d capacity =>
    obtain rfl := Option.some.inj hr
    exact ⟨.inr rfl, Nat.lt_succ_self _, fun hmem => Nat.lt_irrefl _ (h.numbered _ hmem)⟩
  | late id hid =>
    obtain rfl := Option.some.inj hr
    have hall : _ ∈ g.inside := List.mem_append_left _ (List.mem_append_left _ hid)
    refine ⟨.inl (List.mem_append_left _ hid), ?_, fun hmem => ?_⟩
    · rw [release_calls]
      exact h.numbered _ hall
    · rw [mem_release_inside] at hmem
      have hapart := h.apart
      rw [List.append_assoc, List.nodup_append] at hapart
      simp only [Gate.inside, List.append_assoc] at hmem
      rcases List.mem_append.mp hmem with hmem | hmem
      · exact absurd rfl (of_decide_eq_true (List.mem_filter.mp hmem).2)
      · exact hapart.2.2 _ hid _ hmem rfl
  | timedOut id hid =>
    obtain rfl := Option.some.inj hr
    have hwait := h.timers _ hid
    have hapart := List.nodup_append.mp h.apart
    refine ⟨.inl (List.mem_append_right _ hwait), h.numbered _ (List.mem_append_right _ hwait), fun hmem => ?_⟩
    rcases List.mem_append.mp hmem with hmem | hmem
    · exact hapart.2.2 _ hmem _ hwait rfl
    · exact hapart.2.1.not_mem_erase hmem

/-! ## Every run -/

/-- What the answers so far say about the callers. -/
structure Story (rs : List Reply) (g : Gate) : Prop where
  /-- A caller that the gate failed is gone. -/
  out : ∀ r ∈ rs, ∀ id, r.out = some id → id < g.calls ∧ id ∉ g.inside
  /-- An operation is called once, with the slot. -/
  invoked : ∀ r ∈ rs, ∀ id, r.invokes = some id → id < g.calls ∧ id ∉ g.pending
  served : ∀ r ∈ rs, ∀ id, r = .queued id →
    id ∈ g.waiters ∨ ∃ r' ∈ rs, r'.grants = some id ∨ r' = .timedOut id

theorem Gate.mem_inside_of_pending (hc : c ∈ g.pending) : c ∈ g.inside := by
  simp only [Gate.pending, Gate.inside, List.mem_append] at hc ⊢
  exact hc.imp_left .inl

theorem Story.moves {rs : List Reply} (hs : Story rs g) (h : Held maxConcurrent maxQueued 0 g)
    (hm : Moves maxConcurrent maxQueued g g' r) : Story (rs ++ [r]) g' := by
  refine ⟨fun r' hr' id hout => ?_, fun r' hr' id hin => ?_, fun r' hr' id hq => ?_⟩
  · rcases List.mem_append.mp hr' with hr' | hr'
    · obtain ⟨hlt, hgone⟩ := hs.out r' hr' id hout
      refine ⟨Nat.lt_of_lt_of_le hlt hm.calls_le, fun hmem => ?_⟩
      rcases hm.inside hmem with hmem | ⟨rfl, -⟩
      · exact hgone hmem
      · exact Nat.lt_irrefl _ hlt
    · rw [List.mem_singleton.mp hr'] at hout
      exact (hm.failed h hout).2
  · rcases List.mem_append.mp hr' with hr' | hr'
    · obtain ⟨hlt, hgone⟩ := hs.invoked r' hr' id hin
      refine ⟨Nat.lt_of_lt_of_le hlt hm.calls_le, fun hmem => ?_⟩
      rcases hm.pending hmem with hmem | rfl
      · exact hgone hmem
      · exact Nat.lt_irrefl _ hlt
    · rw [List.mem_singleton.mp hr'] at hin
      exact (hm.invoked h hin).2
  · rcases List.mem_append.mp hr' with hr' | hr'
    · rcases hs.served r' hr' id hq with hwait | ⟨r₁, hr₁, hdone⟩
      · refine (hm.waits hwait).imp_right fun hdone => ⟨r, ?_, hdone⟩
        exact List.mem_append_right _ (List.mem_singleton.mpr rfl)
      · exact .inr ⟨r₁, List.mem_append_left _ hr₁, hdone⟩
    · obtain rfl := (List.mem_singleton.mp hr').symm.trans hq
      cases hm with
      | queued => exact .inl (List.mem_append_right _ (List.mem_singleton.mpr rfl))

variable {h : List (Entry Request Reply)} {t : Nat}

theorem run_story (hr : Run (step maxConcurrent maxQueued) (fun _ _ _ => True) .empty h t g) :
    Held maxConcurrent maxQueued 0 g ∧ Story (h.map Entry.reply) g := by
  induction hr with
  | nil => exact ⟨held_empty, by constructor <;> simp⟩
  | @snoc _ _ s now q _ _ _ ih =>
    have hm := step_moves maxConcurrent maxQueued now q s
    rw [List.map_append]
    exact ⟨ih.1.moves hm, ih.2.moves ih.1 hm⟩

variable {pre post : List (Entry Request Reply)}

theorem run_split {e : Entry Request Reply}
    (hr : Run (step maxConcurrent maxQueued) (fun _ _ _ => True) .empty (pre ++ e :: post) t g) :
    ∃ g₁ g₂, Held maxConcurrent maxQueued 0 g₁ ∧ Story (pre.map Entry.reply) g₁ ∧
      Moves maxConcurrent maxQueued g₁ g₂ e.reply := by
  rw [← List.singleton_append, ← List.append_assoc] at hr
  obtain ⟨t₂, g₂, hr, -⟩ := hr.of_append
  obtain ⟨t₁, g₁, hr₁, -, -, -, hreply, rfl⟩ := hr.snoc_inv
  obtain ⟨hheld, hstory⟩ := run_story hr₁
  exact ⟨g₁, _, hheld, hstory, hreply ▸ step_moves maxConcurrent maxQueued e.now e.request g₁⟩

theorem run_served {e : Entry Request Reply} {i j : Nat}
    (hr : Run (step maxConcurrent maxQueued) (fun _ _ _ => True) .empty (pre ++ e :: post) t g)
    (hj : e.reply.grants = some j) (hij : i < j) (hi : ∃ x ∈ pre, x.reply = .queued i) :
    ∃ x ∈ pre, x.reply.grants = some i ∨ x.reply = .timedOut i := by
  obtain ⟨g₁, g₂, hheld, hstory, hm⟩ := run_split hr
  obtain ⟨x, hx, hq⟩ := hi
  rcases hstory.served _ (List.mem_map_of_mem hx) i hq with hwait | ⟨_, hmem, hdone⟩
  · rcases hm.granted hheld hj with hhead | ⟨hnil, -⟩
    · -- the first of the callers that wait came before `i`
      obtain ⟨rest, hw⟩ := List.head?_eq_some_iff.mp hhead
      have horder := hheld.order
      rw [hw] at horder hwait
      rcases List.mem_cons.mp hwait with rfl | hwait
      · exact absurd hij (Nat.lt_irrefl _)
      · exact absurd hij (Nat.lt_asymm ((List.pairwise_cons.mp horder).1 i hwait))
    · exact absurd hwait (hnil ▸ List.not_mem_nil)
  · obtain ⟨x', hx', rfl⟩ := List.mem_map.mp hmem
    exact ⟨x', hx', hdone⟩

theorem run_failed {e : Entry Request Reply} {id : Nat}
    (hr : Run (step maxConcurrent maxQueued) (fun _ _ _ => True) .empty (pre ++ e :: post) t g)
    (hout : e.reply.out = some id) :
    (∀ x ∈ pre ++ e :: post, x.reply.invokes ≠ some id) ∧ ∀ x ∈ post, x.reply.grants ≠ some id := by
  obtain ⟨g₁, g₂, hheld, hstory, hm⟩ := run_split hr
  obtain ⟨hwas, -⟩ := hm.failed hheld hout
  have hlater : ∀ x ∈ post, x.reply.invokes ≠ some id ∧ x.reply.grants ≠ some id := by
    intro x hx
    obtain ⟨mid, rest, rfl⟩ := List.append_of_mem hx
    have hr' : Run (step maxConcurrent maxQueued) (fun _ _ _ => True) .empty
        ((pre ++ e :: mid) ++ x :: rest) t g := by
      rwa [List.append_assoc, List.cons_append]
    obtain ⟨g₃, g₄, hheld₃, hstory₃, hm₃⟩ := run_split hr'
    have hmem : e.reply ∈ (pre ++ e :: mid).map Entry.reply := List.mem_map_of_mem (by simp)
    obtain ⟨hlt, hgone⟩ := hstory₃.out _ hmem id hout
    refine ⟨fun hin => hgone (Gate.mem_inside_of_pending (hm₃.invoked hheld₃ hin).1), fun hslot => ?_⟩
    rcases hm₃.granted hheld₃ hslot with hhead | ⟨-, rfl⟩
    · exact hgone (List.mem_append_right _ (List.mem_of_mem_head? hhead))
    · exact Nat.lt_irrefl _ hlt
  refine ⟨fun x hx => ?_, fun x hx => (hlater x hx).2⟩
  rcases List.mem_append.mp hx with hx | hx
  · intro hin
    obtain ⟨hlt, hgone⟩ := hstory.invoked _ (List.mem_map_of_mem hx) id hin
    rcases hwas with hwas | rfl
    · exact hgone hwas
    · exact Nat.lt_irrefl _ hlt
  · rcases List.mem_cons.mp hx with rfl | hx
    · cases hreply : x.reply <;> simp_all [Reply.out, Reply.invokes]
    · exact (hlater x hx).1

/-- In every run as many slots are taken as callers have one, no more operations run and no more
callers wait than the gate allows, a slot goes to the caller that has waited longest, a caller that
the gate has failed is gone without its operation, and a gate without a caller is empty. -/
theorem gate_fair_without_leak (maxConcurrent maxQueued : Nat) (hpositive : 0 < maxConcurrent)
    (h : List (Entry Request Reply)) (t : Nat) (g : Gate)
    (hr : Run (step maxConcurrent maxQueued) (fun _ _ _ => True) .empty h t g) :
    (g.running.Nodup ∧ g.running.length ≤ maxConcurrent) ∧
    ((g.starting ++ g.running).Nodup ∧ g.active = ((g.starting ++ g.running).length : Nat)) ∧
    g.waiters.length ≤ maxQueued ∧
    (∀ pre e post i j, h = pre ++ e :: post → e.reply.grants = some j → i < j →
      (∃ x ∈ pre, x.reply = .queued i) → ∃ x ∈ pre, x.reply.grants = some i ∨ x.reply = .timedOut i) ∧
    (∀ pre e post id, h = pre ++ e :: post → e.reply.out = some id →
      (∀ x ∈ h, x.reply.invokes ≠ some id) ∧ (∀ x ∈ post, x.reply.grants ≠ some id) ∧
        id ∉ g.starting ++ g.running ++ g.waiters) ∧
    (g.starting = [] → g.running = [] → g.active = 0 ∧ g.waiters = []) := by
  obtain ⟨hheld, hstory⟩ := run_story hr
  have hholders := List.Nodup.of_append_left hheld.apart
  have hactive := hheld.active
  have hslots := hheld.slots
  refine ⟨⟨hholders.of_append_right, ?_⟩, ⟨hholders, ?_⟩, hheld.queue, ?_, ?_, ?_⟩
  · omega
  · rw [hactive, List.length_append]
    rfl
  · rintro pre e post i j rfl hj hij hi
    exact run_served hr hj hij hi
  · rintro pre e post id rfl hout
    obtain ⟨hnever, hslot⟩ := run_failed hr hout
    exact ⟨hnever, hslot, (hstory.out _ (List.mem_map_of_mem (by simp)) id hout).2⟩
  · intro hstarting hrunning
    simp only [hstarting, hrunning, List.length_nil] at hactive
    refine ⟨by omega, ?_⟩
    by_contra hne
    have hfull := hheld.full hne
    omega

/-- Three callers for one slot: the second waits too long, the third gets the slot of the first. -/
def sampleAsks : List (Nat × Request) :=
  [(1, .run 10 100), (2, .run 11 20), (3, .run 12 100), (4, .run 13 100), (5, .proceed 14 0 false),
    (6, .timer 1), (7, .settle 0), (8, .proceed 30 2 true)]

theorem gate_fair_without_leak_sample :
    (play (step 1 2) .empty sampleAsks).2.active = 0 ∧ (play (step 1 2) .empty sampleAsks).2.waiters = [] := by
  have hrun : ∃ t, Run (step 1 2) (fun _ _ _ => True) .empty (play (step 1 2) .empty sampleAsks).1 t
      (play (step 1 2) .empty sampleAsks).2 :=
    run_play (by decide) (accepted_of_forall (fun _ _ _ => trivial) _ _)
  obtain ⟨t, hrun⟩ := hrun
  exact (gate_fair_without_leak 1 2 (by decide) _ t _ hrun).2.2.2.2.2 (by decide) (by decide)

/-! ## Runs without an end -/

def stateAt (maxConcurrent maxQueued : Nat) (requests : Nat → Request) : Nat → Gate
  | 0 => .empty
  | t + 1 => (step maxConcurrent maxQueued t (requests t) (stateAt maxConcurrent maxQueued requests t)).1

def replyAt (maxConcurrent maxQueued : Nat) (requests : Nat → Request) (t : Nat) : Reply :=
  (step maxConcurrent maxQueued t (requests t) (stateAt maxConcurrent maxQueued requests t)).2

def Gate.holders (g : Gate) : List Nat := g.starting ++ g.running

def Gate.ahead (g : Gate) (c : Nat) : Nat := (g.waiters.filter (· < c)).length

theorem held_stateAt (requests : Nat → Request) (t : Nat) :
    Held maxConcurrent maxQueued 0 (stateAt maxConcurrent maxQueued requests t) := by
  induction t with
  | zero => exact held_empty
  | succ t ih => exact ih.moves (step_moves maxConcurrent maxQueued t _ _)

/-- A caller gives its slot up only to the caller that has waited longest. -/
theorem Moves.gives_up (hm : Moves maxConcurrent maxQueued g g' r) (hc : c ∈ g.holders) (hgone : c ∉ g'.holders) :
    g'.waiters = g.waiters.tail ∧ r.grants = g.waiters.head? := by
  cases hm with
  | nothing | refused | queued | timedOut => exact absurd hc hgone
  | admitted =>
    refine absurd ?_ hgone
    simp only [Gate.holders, Gate.called, List.mem_append] at hc ⊢
    exact hc.imp_left .inl
  | started id hid =>
    refine absurd ?_ hgone
    simp only [Gate.holders, List.mem_append, List.mem_filter, List.mem_singleton, decide_eq_true_eq] at hc ⊢
    tauto
  | threw | late | settled => exact release_waiters _

theorem Moves.ahead_le (hm : Moves maxConcurrent maxQueued g g' r) (h : Held maxConcurrent maxQueued 0 g)
    (hc : c ∈ g.waiters) : g'.ahead c ≤ g.ahead c := by
  have hsub : ∀ {l : List Nat}, l.Sublist g.waiters → (l.filter (· < c)).length ≤ g.ahead c :=
    fun hl => (hl.filter _).length_le
  cases hm with
  | nothing | refused | admitted | started => exact Nat.le_refl _
  | queued =>
    have hlt : c < g.calls := h.numbered c (List.mem_append_right _ hc)
    simp [Gate.ahead, Nat.not_lt_of_lt hlt]
  | threw | late | settled =>
    rw [Gate.ahead, (release_waiters _).1]
    exact hsub (List.tail_sublist _)
  | timedOut => exact hsub List.erase_sublist

theorem Moves.ahead_lt {a : Nat} (hm : Moves maxConcurrent maxQueued g g' r)
    (h : Held maxConcurrent maxQueued 0 g) (hc : c ∈ g.waiters) (hr : r.grants ≠ some c) (ha : a ∈ g.holders)
    (hgone : a ∉ g'.holders) : g'.ahead c < g.ahead c := by
  obtain ⟨htail, hhead⟩ := hm.gives_up ha hgone
  have horder := h.order
  rw [Gate.ahead, Gate.ahead, htail]
  cases hl : g.waiters with
  | nil => exact absurd (hl ▸ hc) List.not_mem_nil
  | cons first rest =>
    rw [hl] at hc horder hhead
    have hne : c ≠ first := fun he => hr (he ▸ hhead)
    have hlt := (List.pairwise_cons.mp horder).1 c ((List.mem_cons.mp hc).resolve_left hne)
    simp [hlt]

theorem served_of_moves {G : Nat → Gate} {R : Nat → Reply} (hpositive : 0 < maxConcurrent)
    (hheld : ∀ u, Held maxConcurrent maxQueued 0 (G u))
    (hmoves : ∀ u, Moves maxConcurrent maxQueued (G u) (G (u + 1)) (R u))
    (hends : ∀ t, ∀ c ∈ (G t).holders, ∃ u, t ≤ u ∧ c ∉ (G u).holders) (hc : c ∈ (G t).waiters) :
    ∃ u, t ≤ u ∧ ((R u).grants = some c ∨ R u = .timedOut c) := by
  by_contra hnever
  have hwaits : ∀ u, t ≤ u → c ∈ (G u).waiters := by
    intro u hu
    induction hu with
    | refl => exact hc
    | @step u hu ih => exact ((hmoves u).waits ih).resolve_right fun hdone => hnever ⟨u, hu, hdone⟩
  have hless : ∀ n u, t ≤ u → (G u).ahead c = n → False := by
    intro n
    induction n using Nat.strongRecOn with
    | ind n ih =>
      intro u hu hn
      have hfull := (hheld u).full (List.ne_nil_of_mem (hwaits u hu))
      have hactive := (hheld u).active
      obtain ⟨a, ha⟩ : ∃ a, a ∈ (G u).holders := by
        refine List.exists_mem_of_length_pos ?_
        rw [Gate.holders, List.length_append]
        omega
      -- some slot is taken, and its caller keeps it until somebody ahead of `c` has gone
      have hkeep : ∀ w, u ≤ w → a ∈ (G w).holders ∧ (G w).ahead c ≤ n ∨ (G w).ahead c < n := by
        intro w hw
        induction hw with
        | refl => exact .inl ⟨ha, Nat.le_of_eq hn⟩
        | @step v hv ih =>
          have htv := Nat.le_trans hu hv
          have hle := (hmoves v).ahead_le (hheld v) (hwaits v htv)
          rcases ih with ⟨hin, hleft⟩ | hlt
          · by_cases hstill : a ∈ (G (v + 1)).holders
            · exact .inl ⟨hstill, Nat.le_trans hle hleft⟩
            · have hlt := (hmoves v).ahead_lt (hheld v) (hwaits v htv) (fun hr => hnever ⟨v, htv, .inl hr⟩) hin hstill
              exact .inr (Nat.lt_of_lt_of_le hlt hleft)
          · exact .inr (Nat.lt_of_le_of_lt hle hlt)
      obtain ⟨w, hw, hgone⟩ := hends u a ha
      exact ih _ ((hkeep w hw).resolve_left fun h => hgone h.1) w (Nat.le_trans hu hw) rfl
  exact hless _ t (Nat.le_refl t) rfl

/-- Nobody waits for ever, whoever else comes: when every caller with a slot ends, each caller that waits
gets a slot or is timed out. -/
theorem every_waiter_served (maxConcurrent maxQueued : Nat) (hpositive : 0 < maxConcurrent)
    (requests : Nat → Request)
    (hends : ∀ t, ∀ c ∈ (stateAt maxConcurrent maxQueued requests t).holders,
      ∃ u, t ≤ u ∧ c ∉ (stateAt maxConcurrent maxQueued requests u).holders)
    (t c : Nat) (hc : c ∈ (stateAt maxConcurrent maxQueued requests t).waiters) :
    ∃ u, t ≤ u ∧ ((replyAt maxConcurrent maxQueued requests u).grants = some c ∨
      replyAt maxConcurrent maxQueued requests u = .timedOut c) :=
  served_of_moves hpositive (held_stateAt requests) (fun u => step_moves maxConcurrent maxQueued u _ _) hends hc

/-- Two callers for one slot, and then nobody. -/
def sampleRequests (t : Nat) : Request :=
  [Request.run 0 9, .run 0 9, .proceed 0 0 false, .settle 0, .proceed 0 1 true].getD t (.timer 0)

theorem every_waiter_served_sample :
    ∃ u, 2 ≤ u ∧ ((replyAt 1 1 sampleRequests u).grants = some 1 ∨ replyAt 1 1 sampleRequests u = .timedOut 1) := by
  have hidle : ∀ t, stateAt 1 1 sampleRequests (t + 5) = stateAt 1 1 sampleRequests 5 := by
    intro t
    induction t with
    | zero => rfl
    | succ t ih => exact congrArg (fun g => (g.timer 0).1) ih
  refine every_waiter_served 1 1 (by decide) sampleRequests (fun t c _ => ⟨t + 5, Nat.le_add_right t 5, ?_⟩) 2 1 (by decide)
  rw [hidle]
  exact List.not_mem_nil

end Maxim.Moderation.PhotoDecodeGate
