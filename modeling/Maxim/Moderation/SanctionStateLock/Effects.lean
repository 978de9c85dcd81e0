import Maxim.Moderation.SanctionStateLock.Lease

/-!
# What one step around the lock can do

A step changes nothing, or lets Redis perform one command, or moves one call.
A lease that moves keeps its expiry or takes the one of a granted renewal, and
a lost lease stays lost.
-/

namespace Maxim.Moderation.SanctionStateLock

open Maxim.Library

variable {ι : Type}

/-! ## The lease -/

/-- `next` may come after `lease`, when `earned` holds of the expiries that Redis has granted. -/
structure Lease.Follows (earned : Int → Prop) (lease next : Lease) : Prop where
  expiry : next.conservativeExpiresAtMs = lease.conservativeExpiresAtMs ∨
    earned next.conservativeExpiresAtMs
  le : lease.conservativeExpiresAtMs ≤ next.conservativeExpiresAtMs
  lost : lease.lost = true → next.lost = true

namespace Lease

variable {earned : Int → Prop} {lease next last : Lease} {date startedAtMs delay : Int}

theorem Follows.same (he : next.conservativeExpiresAtMs = lease.conservativeExpiresAtMs)
    (hl : lease.lost = true → next.lost = true) : lease.Follows earned next :=
  ⟨.inl he, by omega, hl⟩

theorem Follows.trans (h : lease.Follows earned next) (h' : next.Follows earned last) :
    lease.Follows earned last := by
  refine ⟨?_, by have := h.le; have := h'.le; omega, fun hl => h'.lost (h.lost hl)⟩
  rcases h'.expiry with he | he
  · rw [he]
    exact h.expiry
  · exact .inr he

theorem markLeaseLost_follows : lease.Follows earned lease.markLeaseLost :=
  .same rfl fun _ => rfl

theorem schedule_expiry :
    (lease.schedule date delay).conservativeExpiresAtMs = lease.conservativeExpiresAtMs := by
  unfold schedule
  dsimp only
  split_ifs <;> rfl

theorem schedule_follows : lease.Follows earned (lease.schedule date delay) := by
  refine .same schedule_expiry fun hl => ?_
  simp [schedule, hl]

theorem recordSuccessfulRenewal_follows (he : earned (startedAtMs + ttlMs)) :
    lease.Follows earned (lease.recordSuccessfulRenewal date startedAtMs).1 := by
  unfold recordSuccessfulRenewal
  split
  · exact markLeaseLost_follows
  · refine ⟨?_, le_max_left _ _, fun hl => hl⟩
    rcases max_choice lease.conservativeExpiresAtMs (startedAtMs + ttlMs) with hm | hm
    · exact .inl hm
    · right
      dsimp only
      rwa [hm]

theorem assertNotExpired_follows : lease.Follows earned (lease.assertNotExpired date).1 := by
  unfold assertNotExpired
  split_ifs
  · exact .same rfl fun hl => hl
  · exact markLeaseLost_follows
  · exact .same rfl fun hl => hl

theorem beat_follows : lease.Follows earned (lease.beat date).1 := by
  unfold beat
  split_ifs
  · exact .same rfl fun hl => hl
  · exact .same rfl fun _ => rfl
  · exact .same rfl fun hl => hl

theorem beatAnswered_follows {renewed : Nat}
    (he : 0 < renewed → earned (startedAtMs + ttlMs)) :
    lease.Follows earned (lease.beatAnswered date startedAtMs renewed) := by
  unfold beatAnswered
  dsimp only
  have hended : lease.Follows earned { lease with renewing := false } := .same rfl fun hl => hl
  split
  · exact hended.trans markLeaseLost_follows
  next hr =>
    have hrec : Follows earned { lease with renewing := false }
        (recordSuccessfulRenewal date startedAtMs { lease with renewing := false }).1 :=
      recordSuccessfulRenewal_follows (he (by omega))
    split
    next recorded heq =>
      rw [heq] at hrec
      exact (hended.trans hrec).trans schedule_follows
    next recorded heq =>
      rw [heq] at hrec
      exact hended.trans hrec

theorem beatFailed_follows : lease.Follows earned (lease.beatFailed date) := by
  have hended : lease.Follows earned { lease with renewing := false } := .same rfl fun hl => hl
  unfold beatFailed
  dsimp only
  split
  · exact hended.trans markLeaseLost_follows
  · exact hended.trans schedule_follows

theorem assertAnswered_follows {renewed : Nat}
    (he : 0 < renewed → earned (startedAtMs + ttlMs)) :
    lease.Follows earned (lease.assertAnswered date startedAtMs renewed).1 := by
  unfold assertAnswered
  split
  · exact markLeaseLost_follows
  next hr =>
    have hrec : lease.Follows earned (lease.recordSuccessfulRenewal date startedAtMs).1 :=
      recordSuccessfulRenewal_follows (he (by omega))
    split
    next recorded heq =>
      rw [heq] at hrec
      exact hrec.trans assertNotExpired_follows
    next recorded heq => rwa [heq] at hrec

/-- When an `assertOwned` resolves. -/
theorem assertAnswered_true {renewed : Nat}
    (h : lease.assertAnswered date startedAtMs renewed = (next, true)) :
    0 < renewed ∧ date < startedAtMs + ttlMs ∧ lease.lost = false ∧
      startedAtMs + ttlMs ≤ next.conservativeExpiresAtMs := by
  unfold assertAnswered recordSuccessfulRenewal at h
  split at h
  · cases h
  next hr =>
    split at h
    next recorded heq =>
      split at heq
      · cases heq
      next hd =>
        cases heq
        unfold assertNotExpired at h
        split at h
        · cases h
        next hl =>
          split at h
          · cases h
          · cases h
            exact ⟨by omega, by omega, by simpa using hl, le_max_right _ _⟩
    · cases h

theorem settle_follows : lease.Follows earned (lease.settle date) := by
  unfold settle
  split
  · exact markLeaseLost_follows
  · exact .same rfl fun hl => hl

theorem settle_lost (h : (lease.settle date).lost = false) :
    lease.lost = false ∧ date < lease.conservativeExpiresAtMs := by
  unfold settle at h
  split at h
  · cases h
  next hs =>
    rw [h] at hs
    exact ⟨h, by simpa using hs⟩

theorem start_expiry :
    (start date startedAtMs).conservativeExpiresAtMs = startedAtMs + ttlMs := schedule_expiry

theorem start_lost (date startedAtMs : Int) :
    (start date startedAtMs).lost = true ∨ date < startedAtMs + ttlMs := by
  by_cases hd : startedAtMs + ttlMs - date ≤ 0
  · left
    simp [start, schedule, hd, markLeaseLost]
  · right
    omega

end Lease

/-! ## Commands -/

section Commands

variable [DecidableEq ι]

/-- What Redis does with a command: grant the lock, which is free or the
caller's, leave it, or delete the caller's. -/
theorem perform_cases (now : Nat) (token : ι) (lock : Slot ι) (command : Command) :
    let done := command.perform now token lock
    (command.Grants done.2 ∧ done.1 = cell token (now + ttlMs) ∧
      ∀ i ≠ token, content (purge now lock) ≠ some i) ∨
    (¬command.Grants done.2 ∧ done.1 = purge now lock) ∨
    (command = .release ∧ done.1 = none ∧ content (purge now lock) = some token) := by
  have hrenew : (0 < (renewLock now token lock).2 ∧
        (renewLock now token lock).1 = cell token (now + ttlMs) ∧
        ∀ i ≠ token, content (purge now lock) ≠ some i) ∨
      (¬0 < (renewLock now token lock).2 ∧ (renewLock now token lock).1 = purge now lock) := by
    unfold renewLock
    split
    next hc =>
      left
      obtain ⟨c, hp, rfl⟩ := Option.map_eq_some_iff.mp hc
      refine ⟨Nat.one_pos, by rw [hp]; rfl, fun i hi he => hi ?_⟩
      rw [hc] at he
      exact (Option.some.inj he).symm
    · exact .inr ⟨Nat.lt_irrefl 0, rfl⟩
  dsimp only
  cases command with
  | acquire deadlineAtMs =>
    simp only [Command.perform, Command.Grants, acquireLockBeforeDeadline]
    split_ifs with hd hp
    · exact .inr (.inl ⟨by simp, rfl⟩)
    · exact .inl ⟨rfl, rfl, fun i _ => by simp [hp]⟩
    · exact .inr (.inl ⟨by simp, rfl⟩)
  | heartbeat =>
    rcases hrenew with h | h
    · exact .inl h
    · exact .inr (.inl h)
  | assertOwned =>
    rcases hrenew with h | h
    · exact .inl h
    · exact .inr (.inl h)
  | release =>
    simp only [Command.perform, Command.Grants, releaseLock]
    split_ifs with hc
    · exact .inr (.inr ⟨trivial, rfl, hc⟩)
    · exact .inr (.inl ⟨not_false, rfl⟩)

/-- A command that does not delete the lock of `i` leaves it as long as it was. -/
theorem perform_holds {now : Nat} {token i : ι} {lock : Slot ι} {command : Command} {d : Int}
    (h : Holds now lock i d) (hs : ExpiresBy (now + ttlMs) lock)
    (hne : ¬(command = .release ∧ token = i)) :
    Holds now (command.perform now token lock).1 i d := by
  rcases perform_cases now token lock command with ⟨-, he, hc⟩ | ⟨-, he⟩ | ⟨hr, he, hc⟩
  · by_cases hi : i = token
    · rw [he, hi]
      exact (hi ▸ h).extended hs
    · exact h.replaced (hc i hi)
  · rw [he]
    exact h.purge
  · refine h.replaced fun hi => hne ⟨hr, ?_⟩
    rw [hc] at hi
    exact Option.some.inj hi

theorem perform_expires {now : Nat} {token : ι} {lock : Slot ι} {command : Command}
    (hs : ExpiresBy (now + ttlMs) lock) :
    ExpiresBy (now + ttlMs) (command.perform now token lock).1 := by
  rcases perform_cases now token lock command with ⟨-, he, -⟩ | ⟨-, he⟩ | ⟨-, he, -⟩ <;> rw [he]
  · exact expiresBy_cell le_rfl
  · exact hs.purge
  · exact expiresBy_none

end Commands

/-! ## Steps -/

/-- Redis has granted call `i` the lock until `b` at least, by the clock of the call. -/
def Earned (world : World ι) (i : ι) (b : Int) : Prop :=
  ∃ request ∈ world.wire, request.owner = i ∧ request.Granted ∧ b = request.startedAtMs + ttlMs

def Call.Unleased (call : Call) : Prop := ∀ lease stage, call ≠ .leased lease stage

/-- How a step moves one call, and what it answers. -/
inductive Goes (world : World ι) (date : Int) (event : Event ι) (i : ι) :
    Call → Call → Outcome ι → Prop
  | waits {call next : Call} {outcome : Outcome ι} (hc : call.Unleased) (hn : next.Unleased)
      (ho : outcome = .silent ∨ ∃ error, outcome = .threw i error) :
      Goes world date event i call next outcome
  | enters {call : Call} {startedAtMs : Int} (hc : call.Unleased)
      (he : Earned world i (startedAtMs + ttlMs)) :
      Goes world date event i call (.leased (Lease.start date startedAtMs) .operating) (.entered i)
  | follows {lease next : Lease} {stage : Stage} {outcome : Outcome ι}
      (hl : lease.Follows (Earned world i) next)
      (ho : outcome = .silent ∨ ∃ error, outcome = .rejected i error) :
      Goes world date event i (.leased lease stage) (.leased next stage) outcome
  | resolves {lease next : Lease} {stage : Stage} {startedAtMs : Int}
      (hl : lease.Follows (Earned world i) next) (he : Earned world i (startedAtMs + ttlMs))
      (hw : ∃ request ∈ world.wire, request.owner = i ∧ request.command = .assertOwned ∧
        request.awaited = true) (hlost : lease.lost = false) (hdate : date < startedAtMs + ttlMs)
      (hnext : startedAtMs + ttlMs ≤ next.conservativeExpiresAtMs) :
      Goes world date event i (.leased lease stage) (.leased next stage) (.resolved i startedAtMs)
  | halts {lease : Lease} {operationFailed : Bool} (hev : event = .settle i operationFailed) :
      Goes world date event i (.leased lease .operating)
        (.leased lease.halt (.stopping operationFailed)) .silent
  | stops {lease : Lease} {operationFailed : Bool} (hev : event = .stop i) :
      Goes world date event i (.leased lease (.stopping operationFailed))
        (.leased (lease.settle date) (.releasing operationFailed (lease.settle date).lost)) .silent
  | ends {lease : Lease} {operationFailed leaseLostError : Bool} :
      Goes world date event i (.leased lease (.releasing operationFailed leaseLostError))
        (.leased lease .over) (finish i operationFailed leaseLostError)

namespace Goes

variable {world : World ι} {date : Int} {event : Event ι} {i : ι} {call next : Call}
  {outcome : Outcome ι}

/-- The expiry of a lease is the one it had, or one that Redis has granted. -/
theorem expiry (h : Goes world date event i call next outcome) {lease' : Lease} {stage' : Stage}
    (hn : next = .leased lease' stage') :
    (∃ lease stage, call = .leased lease stage ∧
      lease'.conservativeExpiresAtMs = lease.conservativeExpiresAtMs) ∨
    Earned world i lease'.conservativeExpiresAtMs := by
  cases h with
  | waits _ hu => exact absurd hn (hu _ _)
  | enters _ he =>
    cases hn
    right
    rwa [Lease.start_expiry]
  | follows hl _ =>
    cases hn
    exact hl.expiry.imp_left fun he => ⟨_, _, rfl, he⟩
  | resolves hl _ _ _ _ _ =>
    cases hn
    exact hl.expiry.imp_left fun he => ⟨_, _, rfl, he⟩
  | halts =>
    cases hn
    exact .inl ⟨_, _, rfl, rfl⟩
  | @stops lease _ _ =>
    cases hn
    have hl : lease.Follows (Earned world i) (lease.settle date) := Lease.settle_follows
    exact hl.expiry.imp_left fun he => ⟨_, _, rfl, he⟩
  | ends =>
    cases hn
    exact .inl ⟨_, _, rfl, rfl⟩

/-- A call keeps its lease; the expiry never goes back and a lost lease stays lost. -/
theorem keeps (h : Goes world date event i call next outcome) {lease : Lease} {stage : Stage}
    (hc : call = .leased lease stage) : ∃ lease' stage', next = .leased lease' stage' ∧
      lease.conservativeExpiresAtMs ≤ lease'.conservativeExpiresAtMs ∧
      (lease.lost = true → lease'.lost = true) := by
  cases h with
  | waits hu => exact absurd hc (hu _ _)
  | enters hu => exact absurd hc (hu _ _)
  | follows hl _ =>
    cases hc
    exact ⟨_, _, rfl, hl.le, hl.lost⟩
  | resolves hl _ _ _ _ _ =>
    cases hc
    exact ⟨_, _, rfl, hl.le, hl.lost⟩
  | halts =>
    cases hc
    exact ⟨_, _, rfl, le_rfl, fun hl => hl⟩
  | stops =>
    cases hc
    have hl : lease.Follows (Earned world i) (lease.settle date) := Lease.settle_follows
    exact ⟨_, _, rfl, hl.le, hl.lost⟩
  | ends =>
    cases hc
    exact ⟨_, _, rfl, le_rfl, fun hl => hl⟩

/-- An operation settles once. -/
theorem settled (h : Goes world date event i call next outcome) {lease : Lease} {stage : Stage}
    (hc : call = .leased lease stage) (hs : stage ≠ .operating) :
    ∃ lease' stage', next = .leased lease' stage' ∧ stage' ≠ .operating := by
  cases h with
  | waits hu => exact absurd hc (hu _ _)
  | enters hu => exact absurd hc (hu _ _)
  | follows _ _ =>
    cases hc
    exact ⟨_, _, rfl, hs⟩
  | resolves _ _ _ _ _ _ =>
    cases hc
    exact ⟨_, _, rfl, hs⟩
  | halts =>
    cases hc
    exact absurd rfl hs
  | stops => exact ⟨_, _, rfl, by simp⟩
  | ends => exact ⟨_, _, rfl, by simp⟩

/-- Nothing but its settling ends an operation. -/
theorem settles (h : Goes world date event i call next outcome) {lease : Lease} {stage : Stage}
    (hn : next = .leased lease stage) (hs : stage ≠ .operating) :
    (∃ lease₀ stage₀, call = .leased lease₀ stage₀ ∧ stage₀ ≠ .operating) ∨
      ∃ failed, event = .settle i failed := by
  cases h with
  | waits _ hu => exact absurd hn (hu _ _)
  | enters =>
    cases hn
    exact absurd rfl hs
  | follows _ _ =>
    cases hn
    exact .inl ⟨_, _, rfl, hs⟩
  | resolves _ _ _ _ _ _ =>
    cases hn
    exact .inl ⟨_, _, rfl, hs⟩
  | halts hev => exact .inr ⟨_, hev⟩
  | stops => exact .inl ⟨_, _, rfl, by simp⟩
  | ends => exact .inl ⟨_, _, rfl, by simp⟩

/-- Only Redis performs commands. -/
theorem ne_performed (h : Goes world date event i call next outcome) (owner : ι)
    (command : Command) (status : Nat) : outcome ≠ .performed owner command status := by
  cases h with
  | waits _ _ ho => rcases ho with rfl | ⟨_, rfl⟩ <;> simp
  | follows _ ho => rcases ho with rfl | ⟨_, rfl⟩ <;> simp
  | ends =>
    unfold finish
    split_ifs <;> simp
  | _ => simp

end Goes

/-- A call `i` that has just become `next` may send this. -/
structure Sends (date : Int) (event : Event ι) (i : ι) (next : Call) (request : Request ι) :
    Prop where
  owner : request.owner = i
  started : request.startedAtMs = date
  unheard : request.reply = none
  guard : request.command = .assertOwned → event = .assertOwned i
  release : request.command = .release → ∃ lease failed lost,
    next = .leased lease (.releasing failed lost)

/-- A request that was sent before; its caller may have heard of it. -/
def Carried (world : World ι) (request : Request ι) : Prop :=
  ∃ sent ∈ world.wire, ∃ awaited, request = { sent with awaited } ∧
    (awaited = true → sent.awaited = true)

inductive Effect [DecidableEq ι] (offset : ι → Int) (now : Nat) (event : Event ι) (world : World ι) :
    World ι → Outcome ι → Prop
  | idle {outcome : Outcome ι} {wire : List (Request ι)}
      (ho : outcome = .silent ∨ ∃ i error, outcome = .rejected i error)
      (hwire : ∀ request ∈ wire, Carried world request) :
      Effect offset now event world { world with wire } outcome
  | performs {n : Nat} {request : Request ι} (hn : world.wire[n]? = some request) :
      Effect offset now event world
        { world with
            lock := (request.command.perform now request.owner world.lock).1
            wire := world.wire.set n { request with
              reply := some (request.command.perform now request.owner world.lock).2 } }
        (.performed request.owner request.command
          (request.command.perform now request.owner world.lock).2)
  | moves {i : ι} {next : Call} {outcome : Outcome ι} {wire : List (Request ι)}
      (hg : Goes world (now + offset i) event i (world.call i) next outcome)
      (hwire : ∀ request ∈ wire, Sends (now + offset i) event i next request ∨
        Carried world request) :
      Effect offset now event world
        { world with call := Function.update world.call i next, wire } outcome

theorem Carried.refl {world : World ι} {request : Request ι} (h : request ∈ world.wire) :
    Carried world request := ⟨request, h, request.awaited, rfl, fun ha => ha⟩

theorem carried_of_heard {world : World ι} {request : Request ι} {n : Nat}
    (h : request ∈ (world.heard n).wire) : Carried world request := by
  obtain ⟨k, hk⟩ := List.mem_iff_getElem?.mp h
  simp only [World.heard, List.getElem?_modify] at hk
  obtain ⟨sent, hs, rfl⟩ := Option.map_eq_some_iff.mp hk
  have hmem := List.mem_of_getElem? hs
  by_cases hkn : n = k
  · exact ⟨sent, hmem, false, by simp [hkn], by simp⟩
  · simpa [hkn] using Carried.refl hmem

section Effect

variable [DecidableEq ι] {offset : ι → Int} {now : Nat} {event : Event ι} {world : World ι}

theorem Effect.silent : Effect offset now event world world .silent :=
  .idle (.inl rfl) fun _ => Carried.refl

variable {outcome : Outcome ι}

theorem Effect.setCall {i : ι} {next : Call}
    (hg : Goes world (now + offset i) event i (world.call i) next outcome) :
    Effect offset now event world (world.setCall i next) outcome :=
  .moves hg fun _ hr => .inr (.refl hr)

/-- One call moves and sends a request. -/
theorem Effect.send {i : ι} {next : Call} {request : Request ι}
    (hg : Goes world (now + offset i) event i (world.call i) next outcome)
    (hs : Sends (now + offset i) event i next request) :
    Effect offset now event world ((world.setCall i next).send request) outcome := by
  refine .moves hg fun r hr => ?_
  rcases List.mem_append.mp hr with hr | hr
  · exact .inr (.refl hr)
  · rw [List.mem_singleton.mp hr]
    exact .inl hs

theorem Effect.heard {i : ι} {next : Call} {n : Nat}
    (hg : Goes world (now + offset i) event i (world.call i) next outcome) :
    Effect offset now event world ((world.heard n).setCall i next) outcome :=
  .moves hg fun _ hr => .inr (carried_of_heard hr)

theorem Effect.unheard {n : Nat}
    (ho : outcome = .silent ∨ ∃ i error, outcome = .rejected i error) :
    Effect offset now event world (world.heard n) outcome :=
  .idle ho fun _ => carried_of_heard

theorem attempt_effect {i : ι} {deadlineAtMs : Int} (hu : (world.call i).Unleased) :
    Effect offset now event world (attempt (now + offset i) i deadlineAtMs world).1
      (attempt (now + offset i) i deadlineAtMs world).2 := by
  unfold attempt
  split
  · exact .setCall (.waits hu (by simp [Call.Unleased]) (.inr ⟨_, rfl⟩))
  · refine .send (.waits hu (by simp [Call.Unleased]) (.inl rfl)) ⟨rfl, rfl, rfl, ?_, ?_⟩ <;> simp

theorem acquireAnswered_effect {i : ι} {deadlineAtMs startedAtMs : Int} {status n : Nat}
    (hu : (world.call i).Unleased) (he : status = 1 → Earned world i (startedAtMs + ttlMs)) :
    let answer := acquireAnswered (now + offset i) i deadlineAtMs startedAtMs status
      (world.heard n)
    Effect offset now event world answer.1 answer.2 := by
  dsimp only
  unfold acquireAnswered
  split_ifs with h1 h0 h2 hd
  · exact .heard (.enters hu (he h1))
  · exact .heard (.waits hu (by simp [Call.Unleased]) (.inr ⟨_, rfl⟩))
  · exact .heard (.waits hu (by simp [Call.Unleased]) (.inr ⟨_, rfl⟩))
  · exact .heard (.waits hu (by simp [Call.Unleased]) (.inr ⟨_, rfl⟩))
  · exact .heard (.waits hu (by simp [Call.Unleased]) (.inl rfl))

theorem answered_effect {request : Request ι} {status n : Nat}
    (he : request.command.Grants status →
      Earned world request.owner (request.startedAtMs + ttlMs))
    (hw : ∃ sent ∈ world.wire, sent.owner = request.owner ∧ sent.command = request.command ∧
      sent.awaited = true) :
    let answer := answered (now + offset request.owner) request status (world.heard n)
    Effect offset now event world answer.1 answer.2 := by
  have hcall : (world.heard n).call = world.call := rfl
  dsimp only
  unfold answered
  dsimp only
  rw [hcall]
  split
  next hcmd hc =>
    rw [hcmd] at he
    exact acquireAnswered_effect (by simp [hc, Call.Unleased]) he
  next lease stage hcmd hc =>
    rw [hcmd] at he
    refine .heard ?_
    rw [hc]
    exact .follows (Lease.beatAnswered_follows he) (.inl rfl)
  next lease stage hcmd hc =>
    rw [hcmd] at he hw
    have hf : lease.Follows (Earned world request.owner)
        (lease.assertAnswered (now + offset request.owner) request.startedAtMs status).1 :=
      Lease.assertAnswered_follows he
    split
    next next heq =>
      rw [heq] at hf
      obtain ⟨hpos, hdate, hlost, hnext⟩ := Lease.assertAnswered_true heq
      refine .heard ?_
      rw [hc]
      exact .resolves hf (he hpos) hw hlost hdate hnext
    next next heq =>
      rw [heq] at hf
      refine .heard ?_
      rw [hc]
      exact .follows hf (.inr ⟨_, rfl⟩)
  next lease operationFailed leaseLostError hcmd hc =>
    refine .heard ?_
    rw [hc]
    exact .ends
  · exact .unheard (.inl rfl)

theorem failed_effect {request : Request ι} {n : Nat} :
    let answer := failed (now + offset request.owner) request (world.heard n)
    Effect offset now event world answer.1 answer.2 := by
  have hcall : (world.heard n).call = world.call := rfl
  dsimp only
  unfold failed
  dsimp only
  rw [hcall]
  split
  next hcmd hc =>
    exact .heard (.waits (by simp [hc, Call.Unleased]) (by simp [Call.Unleased]) (.inr ⟨_, rfl⟩))
  next lease stage hcmd hc =>
    refine .heard ?_
    rw [hc]
    exact .follows Lease.beatFailed_follows (.inl rfl)
  · exact .unheard (.inr ⟨_, _, rfl⟩)
  next lease operationFailed leaseLostError hcmd hc =>
    refine .heard ?_
    rw [hc]
    exact .ends
  · exact .unheard (.inl rfl)

theorem step_effect (offset : ι → Int) (now : Nat) (event : Event ι) (world : World ι) :
    Effect offset now event world (step offset now event world).1
      (step offset now event world).2 := by
  cases event with
  | runExclusive i waitTimeoutMs =>
    simp only [step]
    split
    next hc _ =>
      exact .setCall (.waits (by simp [hc, Call.Unleased]) (by simp [Call.Unleased]) (.inr ⟨_, rfl⟩))
    next hc _ => exact attempt_effect (by simp [hc, Call.Unleased])
    · exact .silent
  | perform n =>
    simp only [step]
    split
    · exact .silent
    next request hn =>
      split
      · exact .silent
      · exact .performs hn
  | reply n =>
    simp only [step]
    split
    next owner command startedAtMs status hn =>
      have hmem := List.mem_of_getElem? hn
      exact answered_effect (fun hg => ⟨_, hmem, rfl, ⟨status, rfl, hg⟩, rfl⟩)
        ⟨_, hmem, rfl, rfl, rfl⟩
    · exact .silent
  | error n =>
    simp only [step]
    split
    · exact failed_effect
    · exact .silent
  | resume i =>
    simp only [step]
    split
    next hc =>
      split
      · exact .silent
      · exact attempt_effect (by simp [hc, Call.Unleased])
    · exact .silent
  | beat i =>
    simp only [step]
    split
    next lease stage hc =>
      have hf : lease.Follows (Earned world i) (lease.beat (now + offset i)).1 :=
        Lease.beat_follows
      split
      · split
        next next heq =>
          rw [heq] at hf
          refine .send (hc ▸ .follows hf (.inl rfl)) ⟨rfl, rfl, rfl, ?_, ?_⟩ <;> simp
        next next heq =>
          rw [heq] at hf
          exact .setCall (hc ▸ .follows hf (.inl rfl))
      · exact .silent
    · exact .silent
  | assertOwned i =>
    simp only [step]
    split
    next lease stage hc =>
      have hf : lease.Follows (Earned world i) (lease.assertNotExpired (now + offset i)).1 :=
        Lease.assertNotExpired_follows
      unfold assertOwned
      split
      next next heq =>
        rw [heq] at hf
        exact .setCall (hc ▸ .follows hf (.inr ⟨_, rfl⟩))
      next next heq =>
        rw [heq] at hf
        refine .send (hc ▸ .follows hf (.inl rfl)) ⟨rfl, rfl, rfl, fun _ => rfl, ?_⟩
        simp
    · exact .silent
  | settle i operationFailed =>
    simp only [step]
    split
    next lease hc => exact .setCall (hc ▸ .halts rfl)
    · exact .silent
  | stop i =>
    simp only [step]
    split
    next lease operationFailed hc =>
      split
      · exact .silent
      · refine .send (hc ▸ .stops rfl) ⟨rfl, rfl, rfl, ?_, fun _ => ⟨_, _, _, rfl⟩⟩
        simp
    · exact .silent

end Effect

end Maxim.Moderation.SanctionStateLock
