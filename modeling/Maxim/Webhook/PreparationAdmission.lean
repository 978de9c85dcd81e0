import Maxim.Library.Keyed
import Maxim.Library.Run
import Mathlib.Data.List.Count
import Mathlib.Logic.Function.Basic

/-!
# Admission of webhook preparations

A preparation runs at once or not at all. The admission counts the running
tasks in a set of promises, in a record for each bot and in one record for all
of them. A completion callback holds the record that its task was counted in,
and the record of a bot is dropped when it has come down to zero. A refused
task of a priority class can reserve the last slot for its class.
-/

namespace Maxim.Webhook.PreparationAdmission

open Maxim.Library

inductive WorkClass
  | ordinary
  | interactive
  | lifecycle
  deriving DecidableEq, Repr

inductive WebhookPreparationSchedulingState
  | available
  | shared_capacity
  | scope_capacity
  | closed
  deriving DecidableEq, Repr

/-- `Record<WorkClass, number>`. -/
abbrev Counts := WorkClass → Int

def Counts.zero : Counts := fun _ => 0

def Counts.add (w : WorkClass) (n : Int) (c : Counts) : Counts := Function.update c w (c w + n)

/-- `Object.values(botCounts).every((count) => count === 0)`. -/
def Counts.isZero (c : Counts) : Bool := [.ordinary, .interactive, .lifecycle].all fun w => c w == 0

/-- A task whose completion callback has not run, with the record that the callback holds. -/
structure Task (β : Type) where
  id : Nat
  botId : β
  workClass : WorkClass
  botCounts : Nat

structure Admission (β : Type) where
  byBot : β → Option Nat
  records : Nat → Counts
  nextRecord : Nat
  active : List Nat
  byClass : Counts
  closed : Bool
  /-- In the order of insertion. -/
  reservations : List (WorkClass × Nat)
  pending : List (Task β)
  nextTask : Nat

variable {β : Type} [DecidableEq β]

def Admission.start : Admission β :=
  ⟨fun _ => none, fun _ => .zero, 0, [], .zero, false, [], [], 0⟩

/-! ## The limits -/

def maxInFlight (poolMax : Nat) : Nat := max 1 (min 12 (poolMax / 2))

def botClassLimit (poolMax : Nat) : Nat :=
  if maxInFlight poolMax ≤ 8 then max 1 (min 2 (maxInFlight poolMax / 2)) else maxInFlight poolMax / 3

structure Availability where
  botActive : Int
  globalFull : Bool
  reserved : Bool
  limited : Bool

def Admission.expire (now : Nat) (s : Admission β) : Admission β :=
  { s with reservations := s.reservations.filter fun r => now < r.2 }

def Admission.botCounts (botId : β) (s : Admission β) : Counts :=
  match s.byBot botId with
  | some record => s.records record
  | none => .zero

/-- Of the reservations that have not expired. -/
def Admission.availability (poolMax : Nat) (botId : β) (w : WorkClass) (s : Admission β) : Availability :=
  let botActive := s.botCounts botId w
  let globalFull : Bool := maxInFlight poolMax ≤ s.active.length
  let reserved := match s.reservations.head? with
    | some (next, _) => w != next && decide (maxInFlight poolMax - 1 ≤ s.active.length)
    | none => false
  { botActive, globalFull, reserved
    limited := s.closed || globalFull || reserved || decide (botClassLimit poolMax ≤ botActive) ||
      (w == .interactive && decide (1 ≤ s.byClass .interactive)) }

def Admission.reserveNextSlot (poolMax : Nat) (w : WorkClass) (a : Availability) (later : Nat)
    (s : Admission β) : Admission β :=
  if w ≠ .ordinary ∧ !s.closed ∧ (a.globalFull || a.reserved) ∧ a.botActive < botClassLimit poolMax ∧
      (w ≠ .interactive ∨ s.byClass .interactive < 1) then
    { s with reservations := upsert Prod.fst (w, later + 5000) s.reservations }
  else s

def Admission.schedulingState (poolMax : Nat) (botId : β) (w : WorkClass) (now later : Nat)
    (s : Admission β) : Admission β × WebhookPreparationSchedulingState :=
  let s := s.expire now
  let a := s.availability poolMax botId w
  (s.reserveNextSlot poolMax w a later,
    if s.closed then .closed
    else if a.globalFull then .shared_capacity
    else if botClassLimit poolMax ≤ a.botActive ∨ w = .interactive ∧ 1 ≤ s.byClass .interactive then
      .scope_capacity
    else if a.reserved then .shared_capacity
    else .available)

/-! ## Running -/

/-- The counts go up, in the record of the bot or in a new one. -/
def Admission.admission (botId : β) (w : WorkClass) (s : Admission β) : Admission β :=
  let record := (s.byBot botId).getD s.nextRecord
  { s with
    reservations := if w = .ordinary then s.reservations else s.reservations.filter fun r => r.1 ≠ w
    records := Function.update s.records record ((s.botCounts botId).add w 1)
    nextRecord := if (s.byBot botId).isSome then s.nextRecord else s.nextRecord + 1
    byBot := Function.update s.byBot botId (some record)
    byClass := s.byClass.add w 1
    active := s.active ++ [s.nextTask]
    pending := s.pending ++ [⟨s.nextTask, botId, w, record⟩]
    nextTask := s.nextTask + 1 }

/-- The identity of the task, or a rejection. -/
def Admission.run (poolMax : Nat) (botId : β) (w : WorkClass) (now later : Nat) (s : Admission β) :
    Admission β × Option Nat :=
  let s := s.expire now
  let a := s.availability poolMax botId w
  if a.limited then (s.reserveNextSlot poolMax w a later, none)
  else (s.admission botId w, some s.nextTask)

/-- The completion callback of a task. -/
def Admission.finishTask (task : Task β) (s : Admission β) : Admission β :=
  let counts := (s.records task.botCounts).add task.workClass (-1)
  { s with
    active := s.active.filter (· ≠ task.id)
    records := Function.update s.records task.botCounts counts
    byBot := if counts.isZero then Function.update s.byBot task.botId none else s.byBot
    byClass := s.byClass.add task.workClass (-1)
    pending := s.pending.filter fun p => p.id ≠ task.id }

def Admission.finish (id : Nat) (s : Admission β) : Admission β :=
  match findKey Task.id id s.pending with
  | some task => s.finishTask task
  | none => s

inductive Request (β : Type)
  /-- The clock is read twice, the second time after a delay. -/
  | run (botId : β) (workClass : WorkClass) (delay : Nat)
  | schedulingState (botId : β) (workClass : WorkClass) (delay : Nat)
  | canRun (botId : β) (workClass : WorkClass) (delay : Nat)
  | finish (id : Nat)
  | stop
  deriving DecidableEq, Repr

inductive Reply
  | admitted (id : Nat)
  | deferred
  | state (state : WebhookPreparationSchedulingState)
  | can (available : Bool)
  | done
  deriving DecidableEq, Repr

def step (poolMax : Nat) (now : Nat) : Request β → Admission β → Admission β × Reply
  | .run botId w delay, s =>
    match s.run poolMax botId w now (now + delay) with
    | (s, some id) => (s, .admitted id)
    | (s, none) => (s, .deferred)
  | .schedulingState botId w delay, s =>
    let r := s.schedulingState poolMax botId w now (now + delay)
    (r.1, .state r.2)
  | .canRun botId w delay, s =>
    let r := s.schedulingState poolMax botId w now (now + delay)
    (r.1, .can (r.2 = .available))
  | .finish id, s => (s.finish id, .done)
  | .stop, s => ({ s with closed := true }, .done)

/-! ## The counts -/

namespace Counts

theorem add_self (w : WorkClass) (n : Int) (c : Counts) : c.add w n w = c w + n := Function.update_self ..

theorem add_of_ne {w w' : WorkClass} (h : w' ≠ w) (n : Int) (c : Counts) : c.add w n w' = c w' :=
  Function.update_of_ne h ..

theorem isZero_iff {c : Counts} : c.isZero = true ↔ ∀ w, c w = 0 := by
  simp only [isZero, List.all_eq_true, beq_iff_eq]
  constructor
  · intro h w
    exact h w (by cases w <;> simp)
  · exact fun h w _ => h w

end Counts

def Task.inScope (b : β) (w : WorkClass) (t : Task β) : Bool := t.botId = b && t.workClass = w

omit [DecidableEq β] in
theorem perm_cons_filter {l : List (Task β)} {t : Task β} (h : (l.map Task.id).Nodup) (ht : t ∈ l) :
    l.Perm (t :: l.filter fun p => p.id ≠ t.id) := by
  have hnodup : (t :: l.filter fun p => p.id ≠ t.id).Nodup :=
    List.nodup_cons.mpr ⟨by simp, (h.of_map _).filter _⟩
  rw [List.perm_ext_iff_of_nodup (h.of_map _) hnodup]
  intro p
  simp only [List.mem_cons, List.mem_filter, decide_eq_true_eq]
  constructor
  · intro hp
    by_cases hid : p.id = t.id
    · exact .inl (List.inj_on_of_nodup_map h hp ht hid)
    · exact .inr ⟨hp, hid⟩
  · rintro (rfl | ⟨hp, -⟩)
    · exact ht
    · exact hp

/-- The set, the records and the totals count the tasks whose callback has not run. -/
structure Balanced (s : Admission β) : Prop where
  ids : (s.pending.map Task.id).Nodup
  fresh : ∀ t ∈ s.pending, t.id < s.nextTask
  active : s.active = s.pending.map Task.id
  record : ∀ t ∈ s.pending, s.byBot t.botId = some t.botCounts
  counts : ∀ b r, s.byBot b = some r → ∀ w, s.records r w = s.pending.countP (Task.inScope b w)
  used : ∀ b r, s.byBot b = some r → ∃ t ∈ s.pending, t.botId = b
  separate : ∀ b b' r, s.byBot b = some r → s.byBot b' = some r → b = b'
  allocated : ∀ b r, s.byBot b = some r → r < s.nextRecord
  classes : ∀ w, s.byClass w = s.pending.countP fun t => t.workClass = w

theorem balanced_start : Balanced (.start : Admission β) := by
  constructor <;> simp [Admission.start, Counts.zero]

namespace Balanced

variable {s : Admission β} {b : β} {w : WorkClass}

theorem with_reservations (h : Balanced s) (l : List (WorkClass × Nat)) (c : Bool) :
    Balanced { s with reservations := l, closed := c } :=
  ⟨h.ids, h.fresh, h.active, h.record, h.counts, h.used, h.separate, h.allocated, h.classes⟩

theorem botCounts_eq (h : Balanced s) (b : β) (w : WorkClass) :
    s.botCounts b w = s.pending.countP (Task.inScope b w) := by
  cases hr : s.byBot b with
  | some r =>
    rw [Admission.botCounts, hr]
    exact h.counts b r hr w
  | none =>
    rw [Admission.botCounts, hr, List.countP_eq_zero.mpr]
    · rfl
    · intro t ht hin
      rw [Task.inScope, Bool.and_eq_true, decide_eq_true_eq, decide_eq_true_eq] at hin
      rw [← hin.1, h.record t ht] at hr
      cases hr

theorem length_active (h : Balanced s) : s.active.length = s.pending.length := by
  rw [h.active, List.length_map]

theorem countP_snoc (l : List (Task β)) (id record : Nat) (b b' : β) (w w' : WorkClass) :
    (l ++ [Task.mk id b w record]).countP (Task.inScope b' w') =
      l.countP (Task.inScope b' w') + if b = b' ∧ w = w' then 1 else 0 := by
  rw [List.countP_append, List.countP_singleton]
  simp only [Task.inScope, Bool.and_eq_true, decide_eq_true_eq]

theorem admission (h : Balanced s) (b : β) (w : WorkClass) : Balanced (s.admission b w) := by
  let record := (s.byBot b).getD s.nextRecord
  have hself (r : Nat) (hr : s.byBot b = some r) : record = r := by
    change (s.byBot b).getD s.nextRecord = r
    rw [hr]
    rfl
  have hother (b' : β) (r : Nat) (hb : b' ≠ b) (hr : s.byBot b' = some r) : r ≠ record := by
    intro heq
    cases hs : s.byBot b with
    | none =>
      have hlt := h.allocated b' r hr
      change r = (s.byBot b).getD s.nextRecord at heq
      rw [hs, Option.getD_none] at heq
      omega
    | some r' => exact hb (h.separate b' b r hr (by rw [hs, heq, hself r' hs]))
  have hbyBot : (s.admission b w).byBot = Function.update s.byBot b (some record) := rfl
  have hpending : (s.admission b w).pending = s.pending ++ [⟨s.nextTask, b, w, record⟩] := rfl
  have hrecords : (s.admission b w).records = Function.update s.records record ((s.botCounts b).add w 1) := rfl
  constructor
  · rw [hpending, List.map_append, List.nodup_append']
    refine ⟨h.ids, List.nodup_singleton _, fun id hid hnew => ?_⟩
    obtain ⟨t, ht, rfl⟩ := List.mem_map.mp hid
    exact absurd (List.mem_singleton.mp hnew) (Nat.ne_of_lt (h.fresh t ht))
  · intro t ht
    rcases List.mem_append.mp ht with ht | ht
    · exact Nat.lt_succ_of_lt (h.fresh t ht)
    · rw [List.mem_singleton.mp ht]
      exact Nat.lt_succ_self _
  · rw [hpending, List.map_append, ← h.active]
    rfl
  · intro t ht
    rw [hbyBot]
    rcases List.mem_append.mp ht with ht | ht
    · by_cases hb : t.botId = b
      · rw [hb, Function.update_self, hself t.botCounts (hb ▸ h.record t ht)]
      · rw [Function.update_of_ne hb, h.record t ht]
    · rw [List.mem_singleton.mp ht, Function.update_self]
  · intro b' r hr w'
    rw [hbyBot] at hr
    rw [hpending, hrecords, countP_snoc]
    by_cases hb : b' = b
    · subst hb
      rw [Function.update_self] at hr
      obtain rfl := Option.some.inj hr
      rw [Function.update_self]
      by_cases hw : w' = w
      · rw [hw, Counts.add_self, h.botCounts_eq, if_pos ⟨rfl, rfl⟩]
        norm_cast
      · rw [Counts.add_of_ne hw, h.botCounts_eq, if_neg fun hc => hw hc.2.symm]
        norm_cast
    · rw [Function.update_of_ne hb] at hr
      rw [Function.update_of_ne (hother b' r hb hr), h.counts b' r hr, if_neg fun hc => hb hc.1.symm]
      norm_cast
  · intro b' r hr
    rw [hbyBot] at hr
    rw [hpending]
    by_cases hb : b' = b
    · exact ⟨⟨s.nextTask, b, w, record⟩, List.mem_append_right _ (List.mem_singleton.mpr rfl), hb.symm⟩
    · rw [Function.update_of_ne hb] at hr
      obtain ⟨t, ht, hbot⟩ := h.used b' r hr
      exact ⟨t, List.mem_append_left _ ht, hbot⟩
  · intro b₁ b₂ r h₁ h₂
    rw [hbyBot] at h₁ h₂
    by_cases hb₁ : b₁ = b
    · by_cases hb₂ : b₂ = b
      · rw [hb₁, hb₂]
      · rw [hb₁, Function.update_self] at h₁
        rw [Function.update_of_ne hb₂] at h₂
        exact absurd (Option.some.inj h₁).symm (hother b₂ r hb₂ h₂)
    · rw [Function.update_of_ne hb₁] at h₁
      by_cases hb₂ : b₂ = b
      · rw [hb₂, Function.update_self] at h₂
        exact absurd (Option.some.inj h₂).symm (hother b₁ r hb₁ h₁)
      · rw [Function.update_of_ne hb₂] at h₂
        exact h.separate b₁ b₂ r h₁ h₂
  · intro b' r hr
    rw [hbyBot] at hr
    change r < if (s.byBot b).isSome then s.nextRecord else s.nextRecord + 1
    by_cases hb : b' = b
    · rw [hb, Function.update_self] at hr
      obtain rfl := Option.some.inj hr
      change (s.byBot b).getD s.nextRecord < _
      cases hs : s.byBot b with
      | none => exact Nat.lt_succ_self _
      | some r => exact h.allocated b r hs
    · rw [Function.update_of_ne hb] at hr
      have hlt := h.allocated b' r hr
      split <;> omega
  · intro w'
    rw [hpending, List.countP_append, List.countP_singleton]
    change s.byClass.add w 1 w' = _
    by_cases hw : w' = w
    · rw [hw, Counts.add_self, h.classes, if_pos (decide_eq_true rfl)]
      norm_cast
    · rw [Counts.add_of_ne hw, h.classes, if_neg fun hc => hw (of_decide_eq_true hc).symm]
      norm_cast

theorem finishTask (h : Balanced s) {t : Task β} (ht : t ∈ s.pending) : Balanced (s.finishTask t) := by
  have hperm := perm_cons_filter h.ids ht
  let counts := (s.records t.botCounts).add t.workClass (-1)
  have hdef : counts = (s.records t.botCounts).add t.workClass (-1) := rfl
  have hpending : (s.finishTask t).pending = s.pending.filter fun p => p.id ≠ t.id := rfl
  have hrecords : (s.finishTask t).records = Function.update s.records t.botCounts counts := rfl
  have hrecord := h.record t ht
  have hcounts (w : WorkClass) : counts w = (s.finishTask t).pending.countP (Task.inScope t.botId w) := by
    have hcount := hperm.countP_eq (Task.inScope t.botId w)
    rw [List.countP_cons] at hcount
    rw [hpending]
    by_cases hw : w = t.workClass
    · subst hw
      rw [if_pos (by simp [Task.inScope])] at hcount
      rw [hdef, Counts.add_self, h.counts _ _ hrecord, hcount]
      omega
    · rw [if_neg (by simp [Task.inScope, Ne.symm hw])] at hcount
      rw [hdef, Counts.add_of_ne hw, h.counts _ _ hrecord, hcount]
      rfl
  have hzero : counts.isZero = true ↔ ∀ p ∈ (s.finishTask t).pending, p.botId ≠ t.botId := by
    rw [Counts.isZero_iff]
    constructor
    · intro hall p hp hb
      have hnone := hall p.workClass
      rw [hcounts, Int.natCast_eq_zero, List.countP_eq_zero] at hnone
      exact hnone p hp (by simp [Task.inScope, hb])
    · intro hall w
      rw [hcounts, Int.natCast_eq_zero, List.countP_eq_zero]
      intro p hp hin
      rw [Task.inScope, Bool.and_eq_true, decide_eq_true_eq] at hin
      exact hall p hp hin.1
  have hbyBot (b : β) (r : Nat) : (s.finishTask t).byBot b = some r ↔
      s.byBot b = some r ∧ (b = t.botId → counts.isZero = false) := by
    change (if counts.isZero then Function.update s.byBot t.botId none else s.byBot) b = some r ↔ _
    split
    · next hz =>
      by_cases hb : b = t.botId
      · simp [hb, hz]
      · simp [hb]
    · next hz => simp [hz]
  have hother {b : β} {r : Nat} (hb : b ≠ t.botId) (hr : s.byBot b = some r) : r ≠ t.botCounts := by
    rintro rfl
    exact hb (h.separate _ _ _ hr hrecord)
  constructor
  · exact (List.filter_sublist.map Task.id).nodup h.ids
  · exact fun p hp => h.fresh p (List.mem_filter.mp hp).1
  · change s.active.filter _ = _
    rw [hpending, h.active, List.filter_map]
    rfl
  · intro p hp
    rw [hbyBot]
    refine ⟨h.record p (List.mem_filter.mp hp).1, fun hb => ?_⟩
    rw [Bool.eq_false_iff, Ne, hzero]
    exact fun hall => hall p hp hb
  · intro b r hr w
    obtain ⟨hr, -⟩ := (hbyBot b r).mp hr
    rw [hrecords]
    by_cases hb : b = t.botId
    · subst hb
      obtain rfl := Option.some.inj (hr.symm.trans hrecord)
      rw [Function.update_self, hcounts]
    · have hcount := hperm.countP_eq (Task.inScope b w)
      rw [List.countP_cons, if_neg (by simp [Task.inScope, Ne.symm hb])] at hcount
      rw [Function.update_of_ne (hother hb hr), h.counts b r hr, hpending, hcount]
      rfl
  · intro b r hr
    obtain ⟨hr, hb⟩ := (hbyBot b r).mp hr
    by_cases hbot : b = t.botId
    · have hsome := hb hbot
      rw [Bool.eq_false_iff, Ne, hzero] at hsome
      push Not at hsome
      obtain ⟨p, hp, hpb⟩ := hsome
      exact ⟨p, hp, hpb.trans hbot.symm⟩
    · obtain ⟨p, hp, rfl⟩ := h.used b r hr
      refine ⟨p, List.mem_filter.mpr ⟨hp, decide_eq_true fun hid => ?_⟩, rfl⟩
      exact hbot (congrArg Task.botId (List.inj_on_of_nodup_map h.ids hp ht hid))
  · intro b b' r hr hr'
    exact h.separate b b' r ((hbyBot b r).mp hr).1 ((hbyBot b' r).mp hr').1
  · exact fun b r hr => h.allocated b r ((hbyBot b r).mp hr).1
  · intro w
    have hcount := hperm.countP_eq fun p => decide (p.workClass = w)
    rw [List.countP_cons] at hcount
    change s.byClass.add t.workClass (-1) w = _
    rw [hpending]
    by_cases hw : w = t.workClass
    · subst hw
      rw [if_pos (decide_eq_true rfl)] at hcount
      rw [Counts.add_self, h.classes, hcount]
      omega
    · rw [if_neg (by simp [Ne.symm hw])] at hcount
      rw [Counts.add_of_ne hw, h.classes, hcount]
      rfl

end Balanced

/-! ## What a request does -/

/-- What an admitted task has found. -/
structure Admissible (poolMax now : Nat) (b : β) (w : WorkClass) (s : Admission β) : Prop where
  isOpen : s.closed = false
  free : s.active.length < maxInFlight poolMax
  scope : s.botCounts b w < botClassLimit poolMax
  interactive : w = .interactive → s.byClass .interactive < 1
  reservation : ∀ c expiry, s.reservations.find? (fun r => now < r.2) = some (c, expiry) →
    w = c ∨ s.active.length < maxInFlight poolMax - 1

section Requests

variable {poolMax now later : Nat} {s : Admission β} {b : β} {w : WorkClass}

omit [DecidableEq β] in
theorem admissible_of_not_limited (h : ((s.expire now).availability poolMax b w).limited = false) :
    Admissible poolMax now b w s := by
  simp only [Admission.availability, Bool.or_eq_false_iff, decide_eq_false_iff_not, Bool.and_eq_false_iff,
    beq_eq_false_iff_ne] at h
  obtain ⟨⟨⟨⟨hopen, hfree⟩, hreserved⟩, hscope⟩, hinteractive⟩ := h
  refine ⟨hopen, Nat.not_le.mp hfree, Int.not_le.mp hscope, ?_, ?_⟩
  · exact fun hw => Int.not_le.mp (hinteractive.resolve_left fun hne => hne hw)
  · intro c expiry hfind
    rw [Admission.expire, List.head?_filter, hfind] at hreserved
    simp only [Bool.and_eq_false_iff, bne_eq_false_iff_eq, decide_eq_false_iff_not] at hreserved
    exact hreserved.imp_right Nat.not_le.mp

omit [DecidableEq β] in
theorem reserveNextSlot_eq (poolMax later : Nat) (w : WorkClass) (s : Admission β) (a : Availability) :
    ∃ l, s.reserveNextSlot poolMax w a later = { s with reservations := l } := by
  unfold Admission.reserveNextSlot
  split
  · exact ⟨_, rfl⟩
  · exact ⟨s.reservations, rfl⟩

theorem run_cases (poolMax now later : Nat) (s : Admission β) (b : β) (w : WorkClass) :
    (∃ l, s.run poolMax b w now later = ({ s with reservations := l }, none)) ∨
    (∃ l, s.run poolMax b w now later = (({ s with reservations := l }).admission b w, some s.nextTask) ∧
      Admissible poolMax now b w s) := by
  cases hl : ((s.expire now).availability poolMax b w).limited with
  | true =>
    obtain ⟨l, hr⟩ := reserveNextSlot_eq poolMax later w (s.expire now)
      ((s.expire now).availability poolMax b w)
    refine .inl ⟨l, ?_⟩
    simp only [Admission.run, hl, if_true, hr]
    rfl
  | false =>
    refine .inr ⟨(s.expire now).reservations, ?_, admissible_of_not_limited hl⟩
    simp only [Admission.run, hl, Bool.false_eq_true, if_false]
    rfl

omit [DecidableEq β] in
theorem schedulingState_eq (poolMax now later : Nat) (s : Admission β) (b : β) (w : WorkClass) :
    ∃ l, (s.schedulingState poolMax b w now later).1 = { s with reservations := l } := by
  obtain ⟨l, hr⟩ := reserveNextSlot_eq poolMax later w (s.expire now)
      ((s.expire now).availability poolMax b w)
  exact ⟨l, hr⟩

theorem step_cases (poolMax now : Nat) (s : Admission β) (q : Request β) :
    (∃ l c, (step poolMax now q s).1 = { s with reservations := l, closed := c } ∧
      (∀ id, (step poolMax now q s).2 ≠ .admitted id) ∧
      (∀ id, q = .finish id → findKey Task.id id s.pending = none) ∧
      (s.closed = true ∨ q = .stop → c = true)) ∨
    (∃ b w delay l, q = .run b w delay ∧ Admissible poolMax now b w s ∧
      step poolMax now q s = (({ s with reservations := l }).admission b w, .admitted s.nextTask)) ∨
    (∃ t ∈ s.pending, q = .finish t.id ∧ step poolMax now q s = (s.finishTask t, .done)) := by
  cases q with
  | run b w delay =>
    rcases run_cases poolMax now (now + delay) s b w with
      ⟨l, hr⟩ | ⟨l, hr, hadm⟩
    · refine .inl ⟨l, s.closed, ?_, ?_, ?_, ?_⟩ <;> simp [step, hr]
    · refine .inr (.inl ⟨b, w, delay, l, rfl, hadm, ?_⟩)
      simp only [step, hr]
  | schedulingState b w delay =>
    obtain ⟨l, hl⟩ := schedulingState_eq poolMax now (now + delay) s b w
    refine .inl ⟨l, s.closed, ?_, ?_, ?_, ?_⟩ <;> simp [step, hl]
  | canRun b w delay =>
    obtain ⟨l, hl⟩ := schedulingState_eq poolMax now (now + delay) s b w
    refine .inl ⟨l, s.closed, ?_, ?_, ?_, ?_⟩ <;> simp [step, hl]
  | finish id =>
    cases hf : findKey Task.id id s.pending with
    | none => refine .inl ⟨s.reservations, s.closed, ?_, ?_, ?_, ?_⟩ <;> simp [step, Admission.finish, hf]
    | some t =>
      refine .inr (.inr ⟨t, mem_of_findKey hf, ?_, ?_⟩)
      · rw [key_of_findKey hf]
      · simp only [step, Admission.finish, hf]
  | stop => refine .inl ⟨s.reservations, true, ?_, ?_, ?_, ?_⟩ <;> simp [step]

end Requests

/-! ## Runs -/

/-- The running tasks after one more request: admitted ones are, completed ones are not. -/
def runningAfter (l : List (Nat × β × WorkClass)) (e : Entry (Request β) Reply) : List (Nat × β × WorkClass) :=
  match e.request, e.reply with
  | .run b w _, .admitted id => l ++ [(id, b, w)]
  | .finish id, _ => l.filter fun p => p.1 ≠ id
  | _, _ => l

/-- The tasks of a history that were admitted and have not completed. -/
def running (h : List (Entry (Request β) Reply)) : List (Nat × β × WorkClass) := h.foldl runningAfter []

omit [DecidableEq β] in
theorem running_snoc (h : List (Entry (Request β) Reply)) (e : Entry (Request β) Reply) :
    running (h ++ [e]) = runningAfter (running h) e := List.foldl_concat ..

def Task.entry (t : Task β) : Nat × β × WorkClass := (t.id, t.botId, t.workClass)

/-- The limits, counted on tasks. -/
structure Limited (poolMax : Nat) (s : Admission β) : Prop where
  total : s.pending.length ≤ maxInFlight poolMax
  scope : ∀ b w, s.pending.countP (Task.inScope b w) ≤ botClassLimit poolMax
  interactive : (s.pending.countP fun t => t.workClass = .interactive) ≤ 1

section Runs

variable {poolMax now : Nat} {s : Admission β} {b : β} {w : WorkClass}

theorem Limited.admission {l : List (WorkClass × Nat)} (h : Limited poolMax s) (hb : Balanced s)
    (hadm : Admissible poolMax now b w s) : Limited poolMax ({ s with reservations := l }.admission b w) := by
  have hpending : ∃ record, ({ s with reservations := l }.admission b w).pending =
      s.pending ++ [⟨s.nextTask, b, w, record⟩] := ⟨_, rfl⟩
  obtain ⟨record, hpending⟩ := hpending
  refine ⟨?_, ?_, ?_⟩
  · rw [hpending, List.length_append, List.length_singleton, ← hb.length_active]
    exact hadm.free
  · intro b' w'
    rw [hpending, Balanced.countP_snoc]
    split
    · next heq =>
      have hscope := hadm.scope
      rw [heq.1, heq.2, hb.botCounts_eq] at hscope
      omega
    · exact h.scope b' w'
  · rw [hpending, List.countP_append, List.countP_singleton]
    split
    · next heq =>
      have hfree := hadm.interactive (of_decide_eq_true heq)
      rw [hb.classes] at hfree
      omega
    · exact h.interactive

theorem Limited.finishTask {t : Task β} (h : Limited poolMax s) : Limited poolMax (s.finishTask t) := by
  have hsub : (s.finishTask t).pending.Sublist s.pending := List.filter_sublist
  exact ⟨Nat.le_trans hsub.length_le h.total, fun b w => Nat.le_trans hsub.countP_le (h.scope b w),
    Nat.le_trans hsub.countP_le h.interactive⟩

/-- What holds after every run: counts, limits, and that `pending` are the running tasks. -/
structure Sound (poolMax : Nat) (h : List (Entry (Request β) Reply)) (s : Admission β) : Prop where
  balanced : Balanced s
  limited : Limited poolMax s
  pending : s.pending.map Task.entry = running h
  closed : (∃ e ∈ h, e.request = .stop) → s.closed = true

variable {h : List (Entry (Request β) Reply)}

theorem Sound.step (hs : Sound poolMax h s) (q : Request β) :
    Sound poolMax (h ++ [⟨now, q, (step poolMax now q s).2⟩]) (step poolMax now q s).1 := by
  have hstop (r : Reply) (hmem : ∃ e ∈ h ++ [Entry.mk now q r], e.request = .stop) :
      s.closed = true ∨ q = .stop := by
    obtain ⟨e, he, hreq⟩ := hmem
    rcases List.mem_append.mp he with he | he
    · exact .inl (hs.closed ⟨e, he, hreq⟩)
    · rw [List.mem_singleton.mp he] at hreq
      exact .inr hreq
  rcases step_cases poolMax now s q with
    ⟨l, c, hstate, hreply, hfinish, hclosed⟩ | ⟨b, w, delay, l, rfl, hadm, hstate⟩ | ⟨t, ht, rfl, hstate⟩
  · rw [hstate]
    refine ⟨hs.balanced.with_reservations l c, ⟨hs.limited.total, hs.limited.scope, hs.limited.interactive⟩,
      ?_, fun hmem => hclosed (hstop _ hmem)⟩
    rw [running_snoc]
    refine hs.pending.trans ?_
    unfold runningAfter
    split
    · next hr => exact absurd hr (hreply _)
    · next id hq =>
      symm
      rw [List.filter_eq_self]
      intro p hp
      rw [decide_eq_true_eq]
      intro hid
      rw [← hs.pending] at hp
      obtain ⟨t, ht, rfl⟩ := List.mem_map.mp hp
      have hnone := hfinish id hq
      rw [findKey, List.find?_eq_none] at hnone
      exact hnone t ht (decide_eq_true hid)
    · rfl
  · rw [hstate]
    refine ⟨(hs.balanced.with_reservations l s.closed).admission b w, hs.limited.admission hs.balanced hadm, ?_,
      fun hmem => ?_⟩
    · rw [running_snoc, ← hs.pending]
      exact List.map_append
    · exact (hstop _ hmem).resolve_right (by simp)
  · rw [hstate]
    refine ⟨hs.balanced.finishTask ht, hs.limited.finishTask, ?_, fun hmem => ?_⟩
    · rw [running_snoc, ← hs.pending]
      change (s.pending.filter _).map Task.entry = (s.pending.map Task.entry).filter _
      rw [List.filter_map]
      rfl
    · exact (hstop _ hmem).resolve_right (by simp)

theorem sound_of_run {t : Nat}
    (hr : Run (step poolMax) (fun _ _ _ => True) .start h t s) : Sound poolMax h s := by
  refine hr.invariant (fun h _ s => Sound poolMax h s) ?_ (fun _ _ _ _ hs _ => hs)
    (fun h t s q hs _ => hs.step q)
  exact ⟨balanced_start, ⟨Nat.zero_le _, fun _ _ => Nat.zero_le _, Nat.zero_le _⟩, rfl, by simp⟩

/-- The limits, on the tasks of a history. -/
structure WithinLimits (poolMax : Nat) (l : List (Nat × β × WorkClass)) : Prop where
  total : l.length ≤ maxInFlight poolMax
  scope : ∀ b w, l.countP (fun p => p.2 = (b, w)) ≤ botClassLimit poolMax
  interactive : l.countP (fun p => p.2.2 = .interactive) ≤ 1

/-- The structures count the tasks of a history, and a bot has an entry when one of its tasks runs. -/
structure CountsRunning (s : Admission β) (l : List (Nat × β × WorkClass)) : Prop where
  active : s.active = l.map Prod.fst
  distinct : (l.map Prod.fst).Nodup
  byClass : ∀ w, s.byClass w = l.countP fun p => p.2.2 = w
  byBot : ∀ b r, s.byBot b = some r → ∀ w, s.records r w = l.countP fun p => p.2 = (b, w)
  entry : ∀ b, (s.byBot b).isSome = true ↔ ∃ p ∈ l, p.2.1 = b

theorem countP_entry (l : List (Task β)) (b : β) (w : WorkClass) :
    (l.map Task.entry).countP (fun p => p.2 = (b, w)) = l.countP (Task.inScope b w) := by
  rw [List.countP_map]
  refine List.countP_congr fun t _ => ?_
  simp only [Function.comp_apply, Task.entry, Task.inScope, Prod.mk.injEq, Bool.and_eq_true, decide_eq_true_eq]

omit [DecidableEq β] in
theorem countP_class (l : List (Task β)) (w : WorkClass) :
    (l.map Task.entry).countP (fun p => p.2.2 = w) = l.countP fun t => t.workClass = w := List.countP_map

theorem Sound.withinLimits (hs : Sound poolMax h s) :
    WithinLimits poolMax (running h) := by
  rw [← hs.pending]
  refine ⟨?_, fun b w => ?_, ?_⟩
  · rw [List.length_map]
    exact hs.limited.total
  · rw [countP_entry]
    exact hs.limited.scope b w
  · rw [countP_class]
    exact hs.limited.interactive

theorem Sound.countsRunning (hs : Sound poolMax h s) :
    CountsRunning s (running h) := by
  have hids : (s.pending.map Task.entry).map Prod.fst = s.pending.map Task.id := List.map_map
  rw [← hs.pending]
  refine ⟨by rw [hids, hs.balanced.active], hids ▸ hs.balanced.ids, fun w => ?_, fun b r hr w => ?_, fun b => ?_⟩
  · rw [countP_class, hs.balanced.classes]
  · rw [countP_entry, hs.balanced.counts b r hr]
  · constructor
    · intro hb
      obtain ⟨r, hr⟩ := Option.isSome_iff_exists.mp hb
      obtain ⟨t, ht, hbot⟩ := hs.balanced.used b r hr
      exact ⟨t.entry, List.mem_map_of_mem ht, hbot⟩
    · rintro ⟨p, hp, rfl⟩
      obtain ⟨t, ht, rfl⟩ := List.mem_map.mp hp
      exact Option.isSome_iff_exists.mpr ⟨t.botCounts, hs.balanced.record t ht⟩

theorem admissible_of_admitted {delay id : Nat}
    (h : (step poolMax now (.run b w delay) s).2 = .admitted id) : Admissible poolMax now b w s := by
  rcases run_cases poolMax now (now + delay) s b w with
    ⟨l, hr⟩ | ⟨l, -, hadm⟩
  · simp only [step, hr] at h
    cases h
  · exact hadm

theorem deferred_keeps {delay : Nat} (h : (step poolMax now (.run b w delay) s).2 = .deferred) :
    ∃ l, (step poolMax now (.run b w delay) s).1 = { s with reservations := l } := by
  rcases run_cases poolMax now (now + delay) s b w with
    ⟨l, hr⟩ | ⟨l, hr, -⟩
  · exact ⟨l, by simp only [step, hr]⟩
  · simp only [step, hr] at h
    cases h

/-- The admission keeps its limits and its counts in every run. -/
theorem preparation_admission_sound {h : List (Entry (Request β) Reply)} {t : Nat}
    (hr : Run (step poolMax) (fun _ _ _ => True) .start h t s) :
    WithinLimits poolMax (running h) ∧ CountsRunning s (running h) ∧
    (∀ now b w delay, (step poolMax now (.run b w delay) s).2 = .deferred →
      ∃ l, (step poolMax now (.run b w delay) s).1 = { s with reservations := l }) ∧
    ((∃ e ∈ h, e.request = .stop) → ∀ now b w delay id,
      (step poolMax now (.run b w delay) s).2 ≠ .admitted id) ∧
    (∀ now b w delay id, (step poolMax now (.run b w delay) s).2 = .admitted id →
      (running h).length + 1 = maxInFlight poolMax →
      ∀ c expiry, s.reservations.find? (fun r => now < r.2) = some (c, expiry) → w = c) := by
  have hs := sound_of_run hr
  refine ⟨hs.withinLimits, hs.countsRunning, fun _ _ _ _ => deferred_keeps, ?_, ?_⟩
  · intro hstop now b w delay id hadmitted
    have hopen := (admissible_of_admitted hadmitted).isOpen
    rw [hs.closed hstop] at hopen
    cases hopen
  · intro now b w delay id hadmitted hlast c expiry hfind
    refine ((admissible_of_admitted hadmitted).reservation c expiry hfind).resolve_right ?_
    rw [hs.countsRunning.active, List.length_map]
    omega

/-- Two bots fill a pool of four, an interactive task reserves the next slot and the bots' tasks complete. -/
def sampleRequests : List (Nat × Request Nat) :=
  [(0, .run 1 .ordinary 0), (1, .run 2 .ordinary 0), (2, .run 3 .interactive 0), (3, .finish 0),
    (4, .run 4 .ordinary 0), (5, .run 3 .interactive 0), (6, .finish 1)]

theorem preparation_admission_sound_sample :
    (play (step 4) .start sampleRequests).1.map Entry.reply =
      [.admitted 0, .admitted 1, .deferred, .done, .deferred, .admitted 2, .done] ∧
    WithinLimits 4 (running (play (step 4) .start sampleRequests).1) := by
  have hrun : ∃ t, Run (step 4) (fun _ _ _ => True) .start (play (step 4) .start sampleRequests).1 t
      (play (step 4) .start sampleRequests).2 :=
    run_play (by decide) (accepted_of_forall (fun _ _ _ => trivial) _ _)
  obtain ⟨t, hr⟩ := hrun
  exact ⟨by decide, (preparation_admission_sound hr).1⟩

end Runs

end Maxim.Webhook.PreparationAdmission
