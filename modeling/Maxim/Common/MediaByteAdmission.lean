import Mathlib.Algebra.BigOperators.Group.List.Basic
import Mathlib.Data.List.Induction
import Mathlib.Data.List.Nodup
import Mathlib.Algebra.GroupWithZero.Nat
import Maxim.Library.Keyed

/-!
# The byte budget of the media preparation

Permits of different sizes share a budget. A caller that finds no room waits in
a queue; a release, an abort and a deadline each wake the callers at its head
that now fit. Callers are numbered in the order of their calls.
-/

namespace Maxim.Common.MediaByteAdmission

inductive MediaByteAdmissionFailure
  | deadline
  | aborted
  | queueFull
  | stopping
  deriving DecidableEq

structure Waiter where
  id : Nat
  bytes : Nat
  deadlineAtMs : Int

structure Permit where
  id : Nat
  bytes : Nat

/-- `permits` are granted and not released. `granted` and `rejected` record the answers in their order. -/
structure Admission where
  now : Int := 0
  reservedBytes : Nat := 0
  active : Nat := 0
  stopping : Bool := false
  waiters : List Waiter := []
  permits : List Permit := []
  calls : Nat := 0
  granted : List Nat := []
  rejected : List (Nat × MediaByteAdmissionFailure) := []

def maxSafeInteger : Nat := 2 ^ 53 - 1

namespace Admission

variable {budgetBytes maxWaiters : Nat} {s : Admission}

def grant (id bytes : Nat) (s : Admission) : Admission :=
  { s with
    reservedBytes := s.reservedBytes + bytes, active := s.active + 1
    permits := s.permits ++ [⟨id, bytes⟩], granted := s.granted ++ [id] }

def reject (id : Nat) (reason : MediaByteAdmissionFailure) (s : Admission) : Admission :=
  { s with rejected := s.rejected ++ [(id, reason)] }

/-- The loop of `drain`, over the waiters that are left. -/
def drainLoop (budgetBytes : Nat) : List Waiter → Admission → Admission
  | [], s => { s with waiters := [] }
  | waiter :: rest, s =>
    if waiter.deadlineAtMs ≤ s.now then drainLoop budgetBytes rest (s.reject waiter.id .deadline)
    else if budgetBytes - s.reservedBytes < waiter.bytes then { s with waiters := waiter :: rest }
    else drainLoop budgetBytes rest (s.grant waiter.id waiter.bytes)

def drain (budgetBytes : Nat) (s : Admission) : Admission :=
  if s.stopping then s else drainLoop budgetBytes s.waiters s

/-- `assertReservation`, which throws otherwise. -/
def fitsBudget (budgetBytes bytes : Nat) : Bool := 1 ≤ bytes && bytes ≤ budgetBytes

def hasRoom (budgetBytes bytes : Nat) (s : Admission) : Bool :=
  !s.stopping && s.waiters.isEmpty && bytes ≤ budgetBytes - s.reservedBytes

/-- `null` changes nothing. -/
def tryAcquire (budgetBytes bytes : Nat) (s : Admission) : Admission :=
  if fitsBudget budgetBytes bytes && s.hasRoom budgetBytes bytes then
    { s with calls := s.calls + 1 }.grant s.calls bytes
  else s

/-- `aborted` is the state of the signal at the call. -/
def acquire (budgetBytes maxWaiters bytes : Nat) (deadlineAtMs : Int) (aborted : Bool) (s : Admission) :
    Admission :=
  let called := { s with calls := s.calls + 1 }
  if !fitsBudget budgetBytes bytes || maxSafeInteger < deadlineAtMs.natAbs then s
  else if s.stopping then called.reject s.calls .stopping
  else if aborted then called.reject s.calls .aborted
  else if deadlineAtMs ≤ s.now then called.reject s.calls .deadline
  else if s.hasRoom budgetBytes bytes then called.grant s.calls bytes
  else if maxWaiters ≤ s.waiters.length then called.reject s.calls .queueFull
  else { called with waiters := s.waiters ++ [⟨s.calls, bytes, deadlineAtMs⟩] }

def release (budgetBytes id : Nat) (s : Admission) : Admission :=
  match s.permits.find? (·.id = id) with
  | none => s
  | some permit =>
    { s with
      reservedBytes := s.reservedBytes - permit.bytes, active := s.active - 1
      permits := s.permits.filter (·.id ≠ id) }.drain budgetBytes

/-- `fail` of a waiter that is still there. -/
def fail (budgetBytes id : Nat) (reason : MediaByteAdmissionFailure) (s : Admission) : Admission :=
  if s.waiters.any (·.id = id) then
    ({ s with waiters := s.waiters.filter (·.id ≠ id) }.reject id reason).drain budgetBytes
  else s

def close (s : Admission) : Admission :=
  { s with stopping := true, waiters := [], rejected := s.rejected ++ s.waiters.map (·.id, .stopping) }

end Admission

/-- What happens, in any order. The timer of a waiter may run at any time. -/
inductive Request
  | tryAcquire (bytes : Nat)
  | acquire (bytes : Nat) (deadlineAtMs : Int) (aborted : Bool)
  | release (id : Nat)
  | abort (id : Nat)
  | timer (id : Nat)
  | close
  | advance (ms : Nat)

def step (budgetBytes maxWaiters : Nat) (s : Admission) : Request → Admission
  | .tryAcquire bytes => s.tryAcquire budgetBytes bytes
  | .acquire bytes deadlineAtMs aborted => s.acquire budgetBytes maxWaiters bytes deadlineAtMs aborted
  | .release id => s.release budgetBytes id
  | .abort id => s.fail budgetBytes id .aborted
  | .timer id => s.fail budgetBytes id .deadline
  | .close => s.close
  | .advance ms => { s with now := s.now + ms }

def run (budgetBytes maxWaiters : Nat) (requests : List Request) : Admission :=
  requests.foldl (step budgetBytes maxWaiters) {}

namespace Admission

variable {budgetBytes maxWaiters : Nat} {s : Admission}

def waiting (s : Admission) : List Nat := s.waiters.map Waiter.id

/-- The bytes are those of the permits, and every caller has at most one place. -/
structure Books (budgetBytes : Nat) (s : Admission) : Prop where
  bytes : s.reservedBytes = (s.permits.map Permit.bytes).sum
  active : s.active = s.permits.length
  budget : s.reservedBytes ≤ budgetBytes
  order : (s.granted ++ s.waiting).Pairwise (· < ·)
  once : (s.granted ++ s.waiting ++ s.rejected.map Prod.fst).Nodup
  fresh : ∀ id ∈ s.granted ++ s.waiting ++ s.rejected.map Prod.fst, id < s.calls
  held : ∀ p ∈ s.permits, p.id ∈ s.granted
  apart : (s.permits.map Permit.id).Nodup

theorem books_empty : Books budgetBytes {} := by
  constructor <;> simp [waiting]

theorem Books.enqueue (h : Books budgetBytes s) (bytes : Nat) (deadlineAtMs : Int) :
    Books budgetBytes { s with calls := s.calls + 1, waiters := s.waiters ++ [⟨s.calls, bytes, deadlineAtMs⟩] } := by
  have hperm : (s.granted ++ (s.waiting ++ [s.calls]) ++ s.rejected.map Prod.fst).Perm
      (s.calls :: (s.granted ++ s.waiting ++ s.rejected.map Prod.fst)) := by
    rw [← List.append_assoc, List.append_assoc _ [s.calls]]
    exact List.perm_middle
  have hwaiting : waiting { s with calls := s.calls + 1, waiters := s.waiters ++ [⟨s.calls, bytes, deadlineAtMs⟩] } =
      s.waiting ++ [s.calls] := List.map_append
  refine ⟨h.bytes, h.active, h.budget, ?_, ?_, ?_, h.held, h.apart⟩ <;> rw [hwaiting]
  · rw [← List.append_assoc]
    refine List.pairwise_append.mpr ⟨h.order, List.pairwise_singleton _ _, fun id hid c hc => ?_⟩
    exact List.mem_singleton.mp hc ▸ h.fresh id (List.mem_append_left _ hid)
  · exact hperm.nodup_iff.mpr (List.nodup_cons.mpr ⟨fun hmem => Nat.lt_irrefl _ (h.fresh _ hmem), h.once⟩)
  · intro id hid
    rcases List.mem_cons.mp (hperm.mem_iff.mp hid) with rfl | hid
    · exact Nat.lt_succ_self _
    · exact Nat.lt_succ_of_lt (h.fresh id hid)

theorem Books.grantHead {w : Waiter} {rest : List Waiter} (h : Books budgetBytes { s with waiters := w :: rest })
    (hfits : w.bytes ≤ budgetBytes - s.reservedBytes) :
    Books budgetBytes ({ s with waiters := rest }.grant w.id w.bytes) := by
  have hids : s.granted ++ [w.id] ++ rest.map Waiter.id = s.granted ++ (w :: rest).map Waiter.id := by simp
  have hbytes : s.reservedBytes = _ := h.bytes
  have hactive : s.active = _ := h.active
  have hnot : w.id ∉ s.granted := fun hmem =>
    Nat.lt_irrefl _ ((List.pairwise_append.mp h.order).2.2 _ hmem _ List.mem_cons_self)
  refine ⟨?_, ?_, ?_, ?_, ?_, ?_, ?_, ?_⟩
  · simp [grant, hbytes]
  · simp [grant, hactive]
  · have := h.budget
    simp only [grant] at this ⊢
    omega
  · simpa only [grant, waiting, hids] using h.order
  · simpa only [grant, waiting, hids] using h.once
  · simpa only [grant, waiting, hids] using h.fresh
  · intro p hp
    rcases List.mem_append.mp hp with hp | hp
    · exact List.mem_append_left _ (h.held p hp)
    · exact List.mem_append_right _ (List.mem_singleton.mp hp ▸ List.mem_cons_self)
  · simp only [grant, List.map_append, List.map_singleton]
    refine List.nodup_append.mpr ⟨h.apart, List.nodup_singleton _, fun id hid c hc he => hnot ?_⟩
    obtain ⟨p, hp, rfl⟩ := List.mem_map.mp hid
    exact List.mem_singleton.mp hc ▸ he ▸ h.held p hp

theorem Books.rejectAt {w : Waiter} {l r : List Waiter} (reason : MediaByteAdmissionFailure)
    (h : Books budgetBytes { s with waiters := l ++ w :: r }) :
    Books budgetBytes ({ s with waiters := l ++ r }.reject w.id reason) := by
  have hperm : (s.granted ++ (l ++ r).map Waiter.id ++ (s.rejected ++ [(w.id, reason)]).map Prod.fst).Perm
      (s.granted ++ (l ++ w :: r).map Waiter.id ++ s.rejected.map Prod.fst) := by
    rw [List.perm_iff_count]
    intro id
    simp only [List.map_append, List.map_cons, List.map_nil, List.count_append, List.count_cons, List.count_nil]
    omega
  refine ⟨h.bytes, h.active, h.budget, ?_, hperm.nodup_iff.mpr h.once, fun id hid => h.fresh id (hperm.mem_iff.mp hid),
    h.held, h.apart⟩
  refine h.order.sublist (List.Sublist.append_left ?_ _)
  exact ((List.sublist_cons_self w r).append_left l).map Waiter.id

theorem Books.released {p : Permit} (h : Books budgetBytes s) (hp : p ∈ s.permits) :
    Books budgetBytes { s with
      reservedBytes := s.reservedBytes - p.bytes, active := s.active - 1
      permits := s.permits.filter (·.id ≠ p.id) } := by
  have hperm : s.permits.Perm (p :: s.permits.filter (·.id ≠ p.id)) := by
    refine (List.filter_append_perm (fun q => q.id = p.id) s.permits).symm.trans ?_
    have hone : s.permits.filter (fun q => q.id = p.id) = [p] := by
      refine List.perm_singleton.mp ((List.perm_ext_iff_of_nodup (h.apart.of_map _ |>.filter _)
        (List.nodup_singleton p)).mpr fun q => ?_)
      simp only [List.mem_filter, decide_eq_true_eq, List.mem_singleton]
      refine ⟨fun hq => List.inj_on_of_nodup_map h.apart hq.1 hp hq.2, ?_⟩
      rintro rfl
      exact ⟨hp, rfl⟩
    rw [hone]
    simp
  have hsum := (hperm.map Permit.bytes).sum_eq
  have hlength := hperm.length_eq
  rw [List.map_cons, List.sum_cons] at hsum
  rw [List.length_cons] at hlength
  have hbytes := h.bytes
  have hactive := h.active
  have hbudget := h.budget
  exact ⟨by dsimp only; omega, by dsimp only; omega, by dsimp only; omega, h.order, h.once, h.fresh,
    fun q hq => h.held q (List.mem_of_mem_filter hq), (List.filter_sublist.map _).nodup h.apart⟩

theorem drainLoop_books (ws : List Waiter) (h : Books budgetBytes { s with waiters := ws }) :
    Books budgetBytes (drainLoop budgetBytes ws s) ∧
      (drainLoop budgetBytes ws s).waiters.length ≤ ws.length ∧
      (drainLoop budgetBytes ws s).stopping = s.stopping ∧
      ∀ w ∈ (drainLoop budgetBytes ws s).waiters.head?,
        budgetBytes - (drainLoop budgetBytes ws s).reservedBytes < w.bytes := by
  induction ws generalizing s with
  | nil => exact ⟨h, Nat.le_refl _, rfl, by simp [drainLoop]⟩
  | cons w rest ih =>
    rw [drainLoop]
    split
    · obtain ⟨h1, h2, h3, h4⟩ := ih (s := s.reject w.id .deadline) (h.rejectAt (l := []) .deadline)
      exact ⟨h1, Nat.le_succ_of_le h2, h3, h4⟩
    · split
      · next hbig =>
        refine ⟨h, Nat.le_refl _, rfl, fun v hv => ?_⟩
        rwa [← Option.some_inj.mp hv]
      · next hfits =>
        obtain ⟨h1, h2, h3, h4⟩ := ih (s := s.grant w.id w.bytes) (h.grantHead (Nat.not_lt.mp hfits))
        exact ⟨h1, Nat.le_succ_of_le h2, h3, h4⟩

/-- What every request keeps. -/
structure Fair (budgetBytes maxWaiters : Nat) (s : Admission) : Prop where
  books : Books budgetBytes s
  queue : s.waiters.length ≤ maxWaiters
  blocked : s.stopping = false → ∀ w ∈ s.waiters.head?, budgetBytes - s.reservedBytes < w.bytes
  closed : s.stopping → s.waiters = []

theorem Books.drain (h : Books budgetBytes s) (hqueue : s.waiters.length ≤ maxWaiters)
    (hclosed : s.stopping → s.waiters = []) : Fair budgetBytes maxWaiters (s.drain budgetBytes) := by
  rw [Admission.drain]
  cases hs : s.stopping with
  | true => exact ⟨h, hqueue, fun hf => (Bool.noConfusion (hs.symm.trans hf)), hclosed⟩
  | false =>
    obtain ⟨hb, hlen, hstop, hhead⟩ := drainLoop_books s.waiters h
    exact ⟨hb, Nat.le_trans hlen hqueue, fun _ => hhead, fun ht => Bool.noConfusion (hs.symm.trans (hstop.symm.trans ht))⟩

theorem Fair.rejected (h : Fair budgetBytes maxWaiters s) (bytes : Nat) (deadlineAtMs : Int)
    (reason : MediaByteAdmissionFailure) :
    Fair budgetBytes maxWaiters ({ s with calls := s.calls + 1 }.reject s.calls reason) := by
  have hb := Books.rejectAt (s := { s with calls := s.calls + 1 }) (r := []) reason (h.books.enqueue bytes deadlineAtMs)
  rw [List.append_nil] at hb
  exact ⟨hb, h.queue, h.blocked, h.closed⟩

theorem Fair.granted {bytes : Nat} (h : Fair budgetBytes maxWaiters s) (hroom : s.hasRoom budgetBytes bytes) :
    Fair budgetBytes maxWaiters ({ s with calls := s.calls + 1 }.grant s.calls bytes) := by
  simp only [hasRoom, Bool.and_eq_true, Bool.not_eq_true', List.isEmpty_iff, decide_eq_true_eq] at hroom
  obtain ⟨⟨hs, hnil⟩, hfits⟩ := hroom
  have hb := h.books.enqueue bytes 0
  rw [hnil] at hb
  have hg := Books.grantHead (s := { s with calls := s.calls + 1 }) hb hfits
  rw [← hnil] at hg
  exact ⟨hg, h.queue, fun _ w hw => by simp [grant, hnil] at hw, fun _ => hnil⟩

theorem Fair.acquire (h : Fair budgetBytes maxWaiters s) (bytes : Nat) (deadlineAtMs : Int) (aborted : Bool) :
    Fair budgetBytes maxWaiters (s.acquire budgetBytes maxWaiters bytes deadlineAtMs aborted) := by
  rw [Admission.acquire]
  have hrej := h.rejected bytes deadlineAtMs
  split_ifs with hrange hstop habort hlate hroom hfull
  · exact h
  · exact hrej _
  · exact hrej _
  · exact hrej _
  · exact h.granted hroom
  · exact hrej _
  · refine ⟨h.books.enqueue bytes deadlineAtMs, ?_, fun hs w hw => ?_, fun hs => absurd hs hstop⟩
    · rw [List.length_append, List.length_singleton]
      omega
    · cases hws : s.waiters with
      | nil =>
        rw [hws] at hw
        simp only [hasRoom, hws, Bool.and_eq_true, decide_eq_true_eq, List.isEmpty_nil, not_and, Nat.not_le] at hroom
        exact Option.some_inj.mp hw ▸ hroom ⟨by simpa using hstop, trivial⟩
      | cons v rest =>
        rw [hws] at hw
        exact h.blocked hs w (by rw [hws]; exact hw)

theorem Fair.fail (h : Fair budgetBytes maxWaiters s) (id : Nat) (reason : MediaByteAdmissionFailure) :
    Fair budgetBytes maxWaiters (s.fail budgetBytes id reason) := by
  rw [Admission.fail]
  split
  · next hany =>
    obtain ⟨w, hw, hid⟩ := List.any_eq_true.mp hany
    obtain ⟨l, r, hlr⟩ := List.append_of_mem hw
    have hids : (l.map Waiter.id ++ w.id :: r.map Waiter.id).Nodup := by
      have := h.books.once.of_append_left.of_append_right
      rwa [waiting, hlr, List.map_append, List.map_cons] at this
    have hother : ∀ v ∈ l ++ r, v.id ≠ id := by
      rintro v hv rfl
      refine (List.nodup_cons.mp (List.perm_middle.nodup_iff.mp hids)).1 ?_
      rw [of_decide_eq_true hid, ← List.map_append]
      exact List.mem_map_of_mem hv
    have hfilter : s.waiters.filter (·.id ≠ id) = l ++ r := by
      rw [hlr, List.filter_append, List.filter_cons_of_neg (by simpa using of_decide_eq_true hid), ← List.filter_append]
      exact List.filter_eq_self.mpr fun v hv => decide_eq_true (hother v hv)
    have hb : Books budgetBytes { s with waiters := l ++ w :: r } := hlr ▸ h.books
    rw [hfilter, ← of_decide_eq_true hid]
    refine (hb.rejectAt reason).drain ?_ fun hs => ?_
    · have := h.queue
      rw [hlr] at this
      simp only [reject, List.length_append, List.length_cons] at this ⊢
      omega
    · have := h.closed hs
      simp [hlr] at this
  · exact h

theorem Fair.step (h : Fair budgetBytes maxWaiters s) (q : Request) :
    Fair budgetBytes maxWaiters (step budgetBytes maxWaiters s q) := by
  cases q with
  | tryAcquire bytes =>
    rw [MediaByteAdmission.step, Admission.tryAcquire]
    split
    · next hroom => exact h.granted (Bool.and_eq_true _ _ |>.mp hroom).2
    · exact h
  | acquire bytes deadlineAtMs aborted => exact h.acquire bytes deadlineAtMs aborted
  | release id =>
    rw [MediaByteAdmission.step, Admission.release]
    split
    · exact h
    · next p hp =>
      obtain rfl : p.id = id := of_decide_eq_true (List.find?_some (p := fun q : Permit => decide (q.id = id)) hp)
      exact (h.books.released (List.mem_of_find?_eq_some hp)).drain h.queue h.closed
  | abort id => exact h.fail id _
  | timer id => exact h.fail id _
  | close =>
    have hperm : (s.granted ++ [] ++ (s.rejected ++ s.waiters.map fun w : Waiter => (w.id, MediaByteAdmissionFailure.stopping)).map Prod.fst).Perm
        (s.granted ++ s.waiting ++ s.rejected.map Prod.fst) := by
      rw [List.append_nil, List.append_assoc, List.map_append, List.map_map]
      exact List.Perm.append_left _ List.perm_append_comm
    have hb := h.books
    refine ⟨⟨hb.bytes, hb.active, hb.budget, ?_, hperm.nodup_iff.mpr hb.once,
      fun id hid => hb.fresh id (hperm.mem_iff.mp hid), hb.held, hb.apart⟩, Nat.zero_le _, nofun, fun _ => rfl⟩
    exact hb.order.sublist (List.Sublist.append_left (List.nil_sublist _) _)
  | advance ms => exact ⟨{ h.books with }, h.queue, h.blocked, h.closed⟩

theorem step_closed (q : Request) (hs : s.stopping) :
    (MediaByteAdmission.step budgetBytes maxWaiters s q).granted = s.granted ∧
      (MediaByteAdmission.step budgetBytes maxWaiters s q).stopping := by
  cases q with
  | tryAcquire bytes => simp [MediaByteAdmission.step, tryAcquire, hasRoom, hs]
  | acquire bytes deadlineAtMs aborted =>
    simp only [MediaByteAdmission.step, acquire, hs, if_true]
    split_ifs
    · exact ⟨rfl, hs⟩
    · exact ⟨rfl, rfl⟩
  | release id =>
    simp only [MediaByteAdmission.step, release, drain, hs, if_true]
    split
    · exact ⟨rfl, hs⟩
    · exact ⟨rfl, rfl⟩
  | abort id | timer id =>
    simp only [MediaByteAdmission.step, fail, drain, reject, hs, if_true]
    split_ifs
    · exact ⟨rfl, rfl⟩
    · exact ⟨rfl, hs⟩
  | close => exact ⟨rfl, rfl⟩
  | advance ms => exact ⟨rfl, hs⟩

end Admission

open Admission

variable {budgetBytes maxWaiters : Nat}

theorem run_fair (requests : List Request) : Fair budgetBytes maxWaiters (run budgetBytes maxWaiters requests) := by
  induction requests using List.reverseRecOn with
  | nil => exact ⟨books_empty, Nat.zero_le _, nofun, nofun⟩
  | append_singleton requests q ih =>
    rw [run, List.foldl_append]
    exact ih.step q

/-- After every run the reserved bytes are those of the permits not released, within the budget;
the queue is within its limit; the callers granted so far came in this order and before every
caller that waits; the first waiter does not fit; nobody has two answers or a permit without a
grant; and a closed budget grants nothing more. -/
theorem byte_budget_fair (budgetBytes maxWaiters : Nat) (requests : List Request) :
    let s := run budgetBytes maxWaiters requests
    (s.reservedBytes = (s.permits.map Permit.bytes).sum ∧ s.reservedBytes ≤ budgetBytes ∧
        s.active = s.permits.length) ∧
      s.waiters.length ≤ maxWaiters ∧
      (s.granted ++ s.waiting).Pairwise (· < ·) ∧
      (s.stopping = false → ∀ w ∈ s.waiters.head?, budgetBytes - s.reservedBytes < w.bytes) ∧
      ((s.granted ++ s.waiting ++ s.rejected.map Prod.fst).Nodup ∧ ∀ p ∈ s.permits, p.id ∈ s.granted) ∧
      ∀ later, s.stopping → (run budgetBytes maxWaiters (requests ++ later)).granted = s.granted := by
  have hf : Fair budgetBytes maxWaiters (run budgetBytes maxWaiters requests) := run_fair requests
  refine ⟨⟨hf.books.bytes, hf.books.budget, hf.books.active⟩, hf.queue, hf.books.order, hf.blocked,
    ⟨hf.books.once, hf.books.held⟩, fun later hs => ?_⟩
  have hclosed : (run budgetBytes maxWaiters (requests ++ later)).granted = (run budgetBytes maxWaiters requests).granted ∧
      (run budgetBytes maxWaiters (requests ++ later)).stopping := by
    induction later using List.reverseRecOn with
    | nil => rw [List.append_nil]; exact ⟨rfl, hs⟩
    | append_singleton later q ih =>
      obtain ⟨hg, ht⟩ := ih
      rw [← List.append_assoc, run, List.foldl_append]
      obtain ⟨hg', ht'⟩ := @step_closed budgetBytes maxWaiters _ q ht
      exact ⟨hg'.trans hg, ht'⟩
  exact hclosed.1

namespace Admission

variable {s : Admission}

/-! ## Every caller is answered -/

/-- The callers with an answer, and those that wait. -/
def answered (s : Admission) : Nat := s.granted.length + s.rejected.length

/-- What serving the queue does. -/
structure Drained (s s' : Admission) : Prop where
  waiters : s'.waiters.Sublist s.waiters
  calls : s'.calls = s.calls
  answered : s'.answered + s'.waiters.length = s.answered + s.waiters.length
  permits : s'.permits.length + s'.waiters.length ≤ s.permits.length + s.waiters.length

theorem drained_drainLoop (ws : List Waiter) (s : Admission) :
    Drained { s with waiters := ws } (drainLoop budgetBytes ws s) := by
  induction ws generalizing s with
  | nil => exact ⟨.slnil, rfl, rfl, Nat.le_refl _⟩
  | cons w rest ih =>
    rw [drainLoop]
    split_ifs
    · obtain ⟨hsub, hcalls, hanswered, hle⟩ := ih (s.reject w.id .deadline)
      simp only [reject, answered, List.length_append, List.length_cons, List.length_nil] at *
      exact ⟨hsub.cons w, hcalls, by simp [answered]; omega, by simp; omega⟩
    · exact ⟨List.Sublist.refl _, rfl, rfl, Nat.le_refl _⟩
    · obtain ⟨hsub, hcalls, hanswered, hle⟩ := ih (s.grant w.id w.bytes)
      simp only [grant, answered, List.length_append, List.length_cons, List.length_nil] at *
      exact ⟨hsub.cons w, hcalls, by simp [answered]; omega, by simp; omega⟩

theorem drained_drain (s : Admission) : Drained s (s.drain budgetBytes) := by
  rw [drain]
  split
  · exact ⟨List.Sublist.refl _, rfl, rfl, Nat.le_refl _⟩
  · exact drained_drainLoop s.waiters s

/-- Every waiter fits into the empty budget, and every call has an answer or waits. -/
structure Kept (budgetBytes : Nat) (s : Admission) : Prop where
  fits : ∀ w ∈ s.waiters, w.bytes ≤ budgetBytes
  places : s.answered + s.waiters.length = s.calls

theorem Kept.drain (h : Kept budgetBytes s) : Kept budgetBytes (s.drain budgetBytes) := by
  have hd : Drained s (s.drain budgetBytes) := drained_drain s
  exact ⟨fun w hw => h.fits w (hd.waiters.subset hw), hd.answered.trans (h.places.trans hd.calls.symm)⟩

theorem Kept.step (h : Kept budgetBytes s) (hs : (s.granted ++ s.waiting).Pairwise (· < ·)) (q : Request) :
    Kept budgetBytes (MediaByteAdmission.step budgetBytes maxWaiters s q) := by
  obtain ⟨hfits, hplaces⟩ := h
  have hone : ∀ s' : Admission, s'.waiters = s.waiters → s'.calls = s.calls + 1 → s'.answered = s.answered + 1 →
      Kept budgetBytes s' := fun s' hw hc ha => ⟨hw ▸ hfits, by rw [hw, hc, ha]; omega⟩
  have hfail : ∀ id reason, Kept budgetBytes (s.fail budgetBytes id reason) := by
    intro id reason
    rw [fail]
    split
    · next hany =>
      have hsplit := List.length_eq_length_filter_add (l := s.waiters) fun w => decide (w.id = id)
      have hle := Library.length_filter_key_le_one hs.nodup.of_append_right id
      have hpos : 0 < (s.waiters.filter fun w => decide (w.id = id)).length :=
        List.length_pos_iff_exists_mem.mpr (by simpa using hany)
      have hnot : (s.waiters.filter fun w => !decide (w.id = id)) = s.waiters.filter (·.id ≠ id) := by simp
      rw [hnot] at hsplit
      refine Kept.drain ⟨fun w hw => hfits w (List.mem_filter.mp hw).1, ?_⟩
      simp only [reject, answered, List.length_append, List.length_cons, List.length_nil] at hplaces ⊢
      omega
    · exact ⟨hfits, hplaces⟩
  cases q with
  | tryAcquire bytes =>
    rw [MediaByteAdmission.step, tryAcquire]
    split
    · exact hone _ rfl rfl (by simp [grant, answered]; omega)
    · exact ⟨hfits, hplaces⟩
  | acquire bytes deadlineAtMs aborted =>
    rw [MediaByteAdmission.step, acquire]
    split_ifs with hrange
    · exact ⟨hfits, hplaces⟩
    · exact hone _ rfl rfl (by simp [reject, answered]; omega)
    · exact hone _ rfl rfl (by simp [reject, answered]; omega)
    · exact hone _ rfl rfl (by simp [reject, answered]; omega)
    · exact hone _ rfl rfl (by simp [grant, answered]; omega)
    · exact hone _ rfl rfl (by simp [reject, answered]; omega)
    · refine ⟨fun w hw => ?_, by simp [answered] at *; omega⟩
      rcases List.mem_append.mp hw with hw | hw
      · exact hfits w hw
      · obtain rfl := List.mem_singleton.mp hw
        simp only [fitsBudget] at hrange
        grind
  | release id =>
    rw [MediaByteAdmission.step, release]
    split
    · exact ⟨hfits, hplaces⟩
    · exact Kept.drain ⟨hfits, hplaces⟩
  | abort id => exact hfail id _
  | timer id => exact hfail id _
  | close =>
    refine ⟨fun w hw => by (cases hw), ?_⟩
    simp only [MediaByteAdmission.step, close, answered, List.length_append, List.length_map, List.length_nil] at hplaces ⊢
    omega
  | advance ms => exact ⟨hfits, hplaces⟩

theorem run_kept (requests : List Request) : Kept budgetBytes (run budgetBytes maxWaiters requests) := by
  induction requests using List.reverseRecOn with
  | nil => exact ⟨nofun, rfl⟩
  | append_singleton requests q ih =>
    rw [run, List.foldl_append]
    exact ih.step (@run_fair budgetBytes maxWaiters requests).books.order q

theorem Kept.waiters_nil (hk : Kept budgetBytes s) (hf : Fair budgetBytes maxWaiters s) (h : s.permits = []) :
    s.waiters = [] ∧ s.reservedBytes = 0 := by
  have hbytes : s.reservedBytes = 0 := by rw [hf.books.bytes, h]; rfl
  refine ⟨?_, hbytes⟩
  cases hs : s.stopping with
  | true => exact hf.closed hs
  | false =>
    cases hw : s.waiters with
    | nil => rfl
    | cons w rest =>
      have hblocked := hf.blocked hs w (by rw [hw]; rfl)
      have hfits := hk.fits w (by rw [hw]; exact List.mem_cons_self)
      omega

theorem release_fewer {p : Permit} (hp : p ∈ s.permits) :
    (s.release budgetBytes p.id).permits.length + (s.release budgetBytes p.id).waiters.length <
      s.permits.length + s.waiters.length := by
  rw [release]
  split
  · next hnone => exact absurd (List.find?_eq_none.mp hnone p hp) (by simp)
  · next permit _ =>
    refine Nat.lt_of_le_of_lt (drained_drain _).permits (Nat.add_lt_add_right ?_ _)
    exact List.length_filter_lt_length_iff_exists.mpr ⟨p, hp, by simp⟩

/-- Nobody waits for ever: from every reachable state the release of some permits empties the budget, and
then every call has been answered, with a permit or a failure. -/
theorem releases_answer_every_call (budgetBytes maxWaiters : Nat) (requests : List Request) :
    ∃ ids : List Nat, let s := run budgetBytes maxWaiters (requests ++ ids.map .release)
      s.permits = [] ∧ s.waiters = [] ∧ s.reservedBytes = 0 ∧ s.granted.length + s.rejected.length = s.calls := by
  induction hn : (run budgetBytes maxWaiters requests).permits.length +
      (run budgetBytes maxWaiters requests).waiters.length using Nat.strongRecOn generalizing requests with
  | ind n ih =>
    have hk : Kept budgetBytes (run budgetBytes maxWaiters requests) := run_kept requests
    cases hp : (run budgetBytes maxWaiters requests).permits with
    | nil =>
      obtain ⟨hwaiters, hbytes⟩ := hk.waiters_nil (run_fair requests) hp
      have hplaces := hk.places
      rw [hwaiters] at hplaces
      refine ⟨[], ?_⟩
      rw [List.map_nil, List.append_nil]
      exact ⟨hp, hwaiters, hbytes, hplaces⟩
    | cons p rest =>
      have hfewer : (run budgetBytes maxWaiters (requests ++ [.release p.id])).permits.length +
          (run budgetBytes maxWaiters (requests ++ [.release p.id])).waiters.length < n := by
        rw [← hn, run, List.foldl_append]
        exact release_fewer (hp ▸ List.mem_cons_self)
      obtain ⟨ids, h⟩ := ih _ hfewer (requests ++ [.release p.id]) rfl
      exact ⟨p.id :: ids, by simpa using h⟩

end Admission

end Maxim.Common.MediaByteAdmission
