import Maxim.Admin.ManagedGiveaway.Notifications.Programs
import Maxim.Library.Protocol

/-!
# A winner notification is sent at most once

DISPATCHING is a one-way fence. A send starts only after its worker brought the
row from PENDING or RETRYABLE to DISPATCHING, and no statement brings it back,
whoever holds the lock by then.
-/

namespace Maxim.Admin.ManagedGiveaway.Notifications

open Maxim.Library

variable {ω : Type}

/-! ## What a call may do -/

/-- A call that has found the row, that has passed the fence, that has sent, or that is about to
reroll. -/
inductive Stage
  | start
  | due (n : Notification)
  | fenced (n : Notification)
  | sent (n : Notification)
  | rerolls (status : WinnerStatus)

inductive May : Call → Stage → Op → Prop
  | expire (i : OutboxInputs) (q : Stage) :
    May (.outbox i) q (.update (.expireDispatch i.now) i.expire)
  | exhaust (i : OutboxInputs) (q : Stage) :
    May (.outbox i) q (.update (.failExhausted i.now) i.exhaust)
  | find (i : OutboxInputs) (q : Stage) (now : Nat) (inBatch : Bool) (error : Option String) :
    May (.outbox i) q (.findDue now inBatch error)
  | defer (i : OutboxInputs) (q : Stage) : May (.outbox i) q (.update (.defer i.deferredAt) i.defer)
  | claim (i : OutboxInputs) (n : Notification) (attemptStartedAt leaseAt : Nat) (fate : Fate) :
    May (.outbox i) (.due n) (.update (.claim n.status attemptStartedAt leaseAt) fate)
  | beforeSend (i : OutboxInputs) (n : Notification) (leaseAt : Nat) (fate : Fate) :
    May (.outbox i) (.due n) (.update (.beforeSend n.status leaseAt) fate)
  | send (i : OutboxInputs) (n : Notification) : May (.outbox i) (.fenced n) .send
  | complete (i : OutboxInputs) (n : Notification) (leaseAt completedAt : Nat) (fate : Fate) :
    May (.outbox i) (.sent n) (.update (.complete leaseAt completedAt) fate)
  | ambiguous (i : OutboxInputs) (n : Notification) (q : Stage) (leaseAt : Nat) (fate : Fate)
    (stage : q = .due n ∨ q = .sent n) :
    May (.outbox i) q (.update (.ambiguous n.status leaseAt) fate)
  | release (i : OutboxInputs) (n : Notification) (leaseAt failedAt attemptCount : Nat) (fate : Fate) :
    May (.outbox i) (.due n) (.update (.release n.status leaseAt failedAt attemptCount) fate)
  | findWinner (i : RerollInputs) (q : Stage) : May (.reroll i) q .findWinner
  | reroll (i : RerollInputs) (status : WinnerStatus) :
    May (.reroll i) (.rerolls status) (.reroll status i.now i.fate)

def Stage.next (q : Stage) : (e : Op) → e.Reply → Stage
  | .findDue _ _ _, .ok (some n) => .due n
  | .update (.beforeSend _ _) _, .ok true =>
    match q with
    | .due n => .fenced n
    | q => q
  | .send, _ =>
    match q with
    | .fenced n => .sent n
    | q => q
  | .findWinner, status => .rerolls status
  | _, _ => q

def dispatching : Protocol Call Op Op.Reply Stage where
  init := .start
  may := May
  next := Stage.next

variable {n : Notification}

theorem settleFailure_follows {i : OutboxInputs} {q : Stage} {a : AttemptInputs}
    {attempted : Bool} (hq : q = .due n ∨ attempted = true ∧ q = .sent n) :
    (settleFailure n a attempted).Follows dispatching (.outbox i) q := by
  cases attempted with
  | true =>
    refine Prog.follows_await (.ambiguous i n q _ _ ?_) fun _ => trivial
    exact hq.imp_right And.right
  | false =>
    obtain rfl := hq.resolve_right fun h => by cases h.1
    exact Prog.follows_await (.release i n _ _ _ _) fun _ => trivial

theorem settleSent_follows {i : OutboxInputs} {a : AttemptInputs}
    {messageId : String} : (settleSent n a messageId).Follows dispatching (.outbox i) (.sent n) := by
  refine Prog.follows_await (.complete i n _ _ _) fun saved => ?_
  cases saved with
  | ok found => trivial
  | error error =>
    change Prog.Follows _ _ (ite _ _ _) (Stage.sent n)
    split
    · exact Prog.follows_await (.complete i n _ _ _) fun _ => trivial
    · exact settleFailure_follows (.inr ⟨rfl, rfl⟩)

theorem processWinnerNotification_follows {i : OutboxInputs} {a : AttemptInputs} :
    (processWinnerNotification n a).Follows dispatching (.outbox i) (.due n) := by
  refine Prog.follows_await (.claim i n _ _ _) fun claimed => ?_
  obtain error | _ | _ := claimed
  · trivial
  · trivial
  change Prog.Follows _ _ (match a.prepared with | .error _ => _ | .ok _ => _) (Stage.due n)
  cases a.prepared with
  | error error => exact settleFailure_follows (.inl rfl)
  | ok _ =>
    refine Prog.follows_await (.beforeSend i n _ _) fun transitioned => ?_
    obtain error | _ | _ := transitioned
    · exact settleFailure_follows (.inl rfl)
    · exact settleFailure_follows (.inl rfl)
    refine Prog.follows_await (.send i n) fun _ => ?_
    cases a.sent with
    | error error => exact settleFailure_follows (.inr ⟨rfl, rfl⟩)
    | ok messageId => exact settleSent_follows

theorem outbox_follows (i : OutboxInputs) :
    (processWinnerNotificationOutbox i).Follows dispatching (.outbox i) .start := by
  rw [processWinnerNotificationOutbox]
  split
  · refine Prog.follows_await (.expire i _) fun expired => ?_
    cases expired with
    | error error => trivial
    | ok _ =>
      refine Prog.follows_await (.exhaust i _) fun exhausted => ?_
      cases exhausted with
      | error error => trivial
      | ok _ =>
        refine Prog.follows_await (.find i _ _ _ _) fun notifications => ?_
        obtain error | _ | n := notifications
        · trivial
        · trivial
        change Prog.Follows _ _ (ite _ _ _) (Stage.due n)
        split
        · rw [synchronizeResultsAndProcess]
          split
          · refine Prog.follows_await (.find i _ _ _ _) fun refreshed => ?_
            obtain error | _ | n' := refreshed
            · trivial
            · trivial
            · exact processWinnerNotification_follows
          · exact Prog.follows_await (.defer i _) fun _ => trivial
        · exact processWinnerNotification_follows
  · trivial

theorem reroll_follows (i : RerollInputs) :
    (rerollManagedGiveawayWinner i).Follows dispatching (.reroll i) .start := by
  refine Prog.follows_await (.findWinner i _) fun status => ?_
  split
  · trivial
  · refine Prog.follows_await (.reroll i status) fun error => ?_
    cases error <;> trivial

theorem program_follows (i : Call) : i.program.Follows dispatching i dispatching.init := by
  cases i with
  | outbox i => exact outbox_follows i
  | reroll i => exact reroll_follows i

/-! ## What a step does -/

def isFinal (status : NotificationStatus) : Bool :=
  status = .sent ∨ status = .ambiguous ∨ status = .canceled ∨ status = .failedTerminal

inductive Moves : NotificationStatus → NotificationStatus → Prop
  | stays (status : NotificationStatus) : Moves status status
  | retried (status : NotificationStatus) (opened : isOpen status = true) : Moves status .retryable
  | dispatched (status : NotificationStatus) (opened : isOpen status = true) : Moves status .dispatching
  | ended (status status' : NotificationStatus) (opened : isOpen status = true)
    (final : status' = .ambiguous ∨ status' = .canceled ∨ status' = .failedTerminal) :
    Moves status status'
  | sent : Moves .dispatching .sent
  | ambiguous : Moves .dispatching .ambiguous

def isDispatched (status : NotificationStatus) : Bool :=
  status = .dispatching ∨ status = .sent ∨ status = .ambiguous

theorem isDispatched_of_isOpen {status : NotificationStatus} (h : isOpen status = true) :
    isDispatched status = false := by
  cases status <;> first | rfl | cases h

theorem Moves.isDispatched {status status' : NotificationStatus} (h : Moves status status')
    (hs : isDispatched status = true) : isDispatched status' = true := by
  cases h with
  | stays => exact hs
  | retried _ hopen | dispatched _ hopen | ended _ _ hopen =>
    rw [isDispatched_of_isOpen hopen] at hs
    cases hs
  | sent | ambiguous => rfl

structure Step (s s' : Outbox) : Prop where
  moves : Moves s.notification.status s'.notification.status
  final : isFinal s.notification.status = true → s'.notification = s.notification
  attempts : s.notification.attemptCount ≤ GIVEAWAY_WINNER_NOTIFICATION_MAX_ATTEMPTS →
    s'.notification.attemptCount ≤ GIVEAWAY_WINNER_NOTIFICATION_MAX_ATTEMPTS

theorem Step.same {s s' : Outbox} (h : s'.notification = s.notification) : Step s s' where
  moves := h ▸ .stays _
  final _ := h
  attempts hle := h ▸ hle

def Update.status? : Update → Option NotificationStatus
  | .claim status _ _ | .beforeSend status _ | .ambiguous status _ | .release status _ _ _ =>
    some status
  | .expireDispatch _ | .failExhausted _ | .defer _ | .complete _ _ => none

theorem isFinal_of_isOpen {status : NotificationStatus} (h : isOpen status = true) :
    isFinal status = false := by
  cases status <;> first | rfl | cases h

theorem update_moves {u : Update}
    (hread : ∀ status, u.status? = some status → isOpen status = true) (hguard : u.guard n = true) :
    Moves n.status (u.data n).status ∧ isFinal n.status = false := by
  cases u with
  | expireDispatch now =>
    obtain ⟨hstatus, -⟩ := of_decide_eq_true hguard
    rw [hstatus]
    exact ⟨.ambiguous, rfl⟩
  | failExhausted now =>
    obtain ⟨hopen, -⟩ := of_decide_eq_true hguard
    exact ⟨.ended _ _ hopen (.inr (.inr rfl)), isFinal_of_isOpen hopen⟩
  | defer deferredAt =>
    obtain ⟨hopen, -⟩ := of_decide_eq_true hguard
    exact ⟨.stays _, isFinal_of_isOpen hopen⟩
  | claim status attemptStartedAt leaseAt =>
    obtain ⟨hstatus, -⟩ := of_decide_eq_true hguard
    exact ⟨.stays _, isFinal_of_isOpen (hstatus ▸ hread status rfl)⟩
  | beforeSend status leaseAt =>
    obtain ⟨hstatus, -⟩ := of_decide_eq_true hguard
    have hopen := hstatus ▸ hread status rfl
    exact ⟨.dispatched _ hopen, isFinal_of_isOpen hopen⟩
  | complete leaseAt completedAt =>
    obtain ⟨hstatus, -⟩ := of_decide_eq_true hguard
    rw [hstatus]
    exact ⟨.sent, rfl⟩
  | ambiguous status leaseAt =>
    obtain ⟨-, hstatus | hstatus⟩ := of_decide_eq_true hguard
    · have hopen := hstatus ▸ hread status rfl
      exact ⟨.ended _ _ hopen (.inl rfl), isFinal_of_isOpen hopen⟩
    · rw [hstatus]
      exact ⟨.ambiguous, rfl⟩
  | release status leaseAt failedAt attemptCount =>
    obtain ⟨hstatus, -⟩ := of_decide_eq_true hguard
    have hopen := hstatus ▸ hread status rfl
    refine ⟨?_, isFinal_of_isOpen hopen⟩
    rw [Update.data]
    split
    · exact .ended _ _ hopen (.inr (.inr rfl))
    · exact .retried _ hopen

theorem update_attempts {u : Update} (hguard : u.guard n = true)
    (hle : n.attemptCount ≤ GIVEAWAY_WINNER_NOTIFICATION_MAX_ATTEMPTS) :
    (u.data n).attemptCount ≤ GIVEAWAY_WINNER_NOTIFICATION_MAX_ATTEMPTS := by
  cases u with
  | claim status attemptStartedAt leaseAt =>
    obtain ⟨-, -, hlt, -⟩ := of_decide_eq_true hguard
    exact hlt
  | release status leaseAt failedAt attemptCount =>
    rw [Update.data]
    split <;> exact hle
  | _ => exact hle

theorem step_of_update {s : Outbox} {u : Update} {fate : Fate}
    (hread : ∀ status, u.status? = some status → isOpen status = true) :
    Step s (updateMany s u fate).1 := by
  rw [updateMany]
  split
  · next hwrites =>
    obtain ⟨hmoves, hfinal⟩ := update_moves hread hwrites.2
    exact ⟨hmoves, fun h => (nomatch hfinal.symm.trans h), update_attempts hwrites.2⟩
  · exact .same rfl

theorem step_of_reroll {s : Outbox} {status : WinnerStatus} {now : Nat} {fate : Fate} :
    Step s (rerolled s status now fate).1 := by
  rw [rerolled.eq_def]
  split
  · dsimp only
    split
    · by_cases hopen : isOpen s.notification.status = true
      · have hstatus : cancel now s.notification =
            { s.notification with status := .canceled, lockedAt := none, nextAttemptAt := now } :=
          if_pos hopen
        refine ⟨?_, fun h => (nomatch (isFinal_of_isOpen hopen).symm.trans h), fun hle => ?_⟩
        · change Moves _ (cancel now s.notification).status
          rw [hstatus]
          exact .ended _ _ hopen (.inr (.inl rfl))
        · change (cancel now s.notification).attemptCount ≤ _
          rw [hstatus]
          exact hle
      · exact .same (if_neg hopen)
    · exact .same rfl
  · exact .same rfl

def Stage.found? : Stage → Option Notification
  | .due n | .fenced n | .sent n => some n
  | .start | .rerolls _ => none

theorem step_of_may {i : Call} {q : Stage} {e : Op} (s : Outbox)
    (hq : ∀ n, q.found? = some n → isOpen n.status = true) (hmay : May i q e) :
    Step s (e.run s).1 := by
  have hread {n : Notification} (hn : q.found? = some n) :
      ∀ status, some n.status = some status → isOpen status = true :=
    fun status he => Option.some.inj he ▸ hq n hn
  cases hmay with
  | expire | exhaust | defer | complete => exact step_of_update fun _ h => by cases h
  | find | findWinner | send => exact .same rfl
  | claim j n | beforeSend j n | release j n => exact step_of_update (hread rfl)
  | ambiguous j n q leaseAt fate hstage =>
    refine step_of_update (hread ?_)
    rcases hstage with rfl | rfl <;> rfl
  | reroll => exact step_of_reroll

/-! ## Sends -/

abbrev Event (ω : Type) := PoolEntry ω Call Op Op.Reply String Unit

/-- The worker that a step brings past the fence. -/
def dispatches? (x : Event ω) : Option ω :=
  match performed? x with
  | some (w, _, ⟨.update (.beforeSend _ _) _, .ok true⟩) => some w
  | _ => none

/-- The worker that starts to send. -/
def sends? (x : Event ω) : Option ω :=
  match performed? x with
  | some (w, _, ⟨.send, _⟩) => some w
  | _ => none

variable {h : List (Event ω)} {x : Event ω} {w : ω} {i : Call} {q : Stage} {s s' : Outbox}

/-- The fence was passed at most once, by who has sent. -/
structure Guarded (h : List (Event ω)) (s : Outbox) : Prop where
  closed : isDispatched s.notification.status = false → h.filterMap dispatches? = []
  first : h.filterMap dispatches? = [] → h.filterMap sends? = []
  once : (h.filterMap sends?).length ≤ 1
  attempts : s.notification.attemptCount ≤ GIVEAWAY_WINNER_NOTIFICATION_MAX_ATTEMPTS

/-- Who is past the fence is alone there, and has not sent yet. -/
structure Stage.Holds (h : List (Event ω)) (w : ω) (q : Stage) : Prop where
  found : ∀ n, q.found? = some n → isOpen n.status = true
  alone : ∀ n, q = .fenced n → h.filterMap dispatches? = [w] ∧ h.filterMap sends? = []

theorem filterMap_quiet {β : Type} {f : Event ω → Option β} (hx : f x = none) :
    (h ++ [x]).filterMap f = h.filterMap f := by simp [List.filterMap_append, hx]

theorem filterMap_snoc {β : Type} {f : Event ω → Option β} {b : β} (hx : f x = some b) :
    (h ++ [x]).filterMap f = h.filterMap f ++ [b] := by simp [List.filterMap_append, hx]

theorem Guarded.quiet (hg : Guarded h s) (hd : dispatches? x = none) (hs : sends? x = none)
    (hstep : Step s s') : Guarded (h ++ [x]) s' := by
  refine ⟨fun hstatus => ?_, ?_, ?_, hstep.attempts hg.attempts⟩
  · rw [filterMap_quiet hd]
    refine hg.closed (Bool.eq_false_iff.mpr fun hbefore => ?_)
    rw [hstep.moves.isDispatched hbefore] at hstatus
    cases hstatus
  · rw [filterMap_quiet hd, filterMap_quiet hs]
    exact hg.first
  · rw [filterMap_quiet hs]
    exact hg.once

theorem Stage.Holds.quiet (hq : q.Holds h w) (hd : dispatches? x = none) (hs : sends? x = none) :
    q.Holds (h ++ [x]) w where
  found := hq.found
  alone n hn := by
    rw [filterMap_quiet hd, filterMap_quiet hs]
    exact hq.alone n hn

theorem quiet_of_performed {e : Op} {r : e.Reply} (hx : performed? x = some (w, i, ⟨e, r⟩))
    (hd : ∀ status leaseAt fate, e ≠ .update (.beforeSend status leaseAt) fate) (hs : e ≠ .send) :
    dispatches? x = none ∧ sends? x = none := by
  rw [dispatches?, sends?, hx]
  cases e with
  | update u fate =>
    cases u with
    | beforeSend status leaseAt => exact absurd rfl (hd status leaseAt fate)
    | _ => exact ⟨rfl, rfl⟩
  | send => exact absurd rfl hs
  | _ => exact ⟨rfl, rfl⟩

/-- What one step keeps, of the store, of its own call and of the others. -/
def Kept (h : List (Event ω)) (x : Event ω) (w : ω) (q' : Stage) (s' : Outbox) : Prop :=
  Guarded (h ++ [x]) s' ∧ q'.Holds (h ++ [x]) w ∧
    ∀ w' (q : Stage), w' ≠ w → q.Holds h w' → q.Holds (h ++ [x]) w'

theorem kept_of_quiet {q' : Stage} (hg : Guarded h s) (hquiet : dispatches? x = none ∧ sends? x = none)
    (hstep : Step s s') (hq : q'.Holds h w) : Kept h x w q' s' :=
  ⟨hg.quiet hquiet.1 hquiet.2 hstep, hq.quiet hquiet.1 hquiet.2,
    fun _ _ _ hq' => hq'.quiet hquiet.1 hquiet.2⟩

/-- The statement of `beforeSend`. -/
theorem kept_of_beforeSend {leaseAt : Nat} {fate : Fate} (hg : Guarded h s)
    (hq : (Stage.due n).Holds h w) (hx : performed? x = some (w, i,
      ⟨.update (.beforeSend n.status leaseAt) fate, (updateMany s (.beforeSend n.status leaseAt) fate).2⟩))
    (hstep : Step s (updateMany s (.beforeSend n.status leaseAt) fate).1) :
    Kept h x w (Stage.next (.due n) (.update (.beforeSend n.status leaseAt) fate)
      (updateMany s (.beforeSend n.status leaseAt) fate).2)
      (updateMany s (.beforeSend n.status leaseAt) fate).1 := by
  have hsends : sends? x = none := by rw [sends?, hx]
  by_cases hpassed : fate = .committed ∧ (Update.beforeSend n.status leaseAt).guard s.notification = true
  · obtain ⟨rfl, hguard⟩ := hpassed
    have hreply : updateMany s (.beforeSend n.status leaseAt) .committed =
        ({ s with notification := { s.notification with status := .dispatching } }, .ok true) := by
      rw [updateMany, hguard, if_pos ⟨rfl, rfl⟩]
      rfl
    rw [hreply] at hx hstep ⊢
    have hd : dispatches? x = some w := by rw [dispatches?, hx]
    obtain ⟨hstatus, -⟩ := of_decide_eq_true hguard
    have hopen := hq.found n rfl
    have hnone := hg.closed (isDispatched_of_isOpen (hstatus ▸ hopen))
    refine ⟨⟨fun h => (nomatch h), fun h => ?_, ?_, hstep.attempts hg.attempts⟩, ⟨hq.found, ?_⟩, ?_⟩
    · rw [filterMap_snoc hd] at h
      simp at h
    · rw [filterMap_quiet hsends]
      exact hg.once
    · intro _ _
      rw [filterMap_snoc hd, filterMap_quiet hsends, hnone]
      exact ⟨rfl, hg.first hnone⟩
    · refine fun w' q' _ hq' => ⟨hq'.found, fun m hm => ?_⟩
      have halone := (hq'.alone m hm).1
      rw [hnone] at halone
      cases halone
  · have hreply : (updateMany s (.beforeSend n.status leaseAt) fate).2 ≠ .ok true := by
      intro h
      cases fate with
      | committed => exact hpassed ⟨rfl, Except.ok.inj h⟩
      | lost error | rolledBack error => cases h
    generalize (updateMany s (.beforeSend n.status leaseAt) fate).2 = r at hx hreply ⊢
    have hd : dispatches? x = none := by
      rw [dispatches?, hx]
      obtain error | _ | _ := r
      · rfl
      · rfl
      · exact absurd rfl hreply
    have hnext : Stage.next (.due n) (.update (.beforeSend n.status leaseAt) fate) r = .due n := by
      obtain error | _ | _ := r
      · rfl
      · rfl
      · exact absurd rfl hreply
    rw [hnext]
    exact kept_of_quiet hg ⟨hd, hsends⟩ hstep hq

theorem kept_of_send (hg : Guarded h s) (hq : (Stage.fenced n).Holds h w)
    (hx : performed? x = some (w, i, ⟨.send, ()⟩)) : Kept h x w (.sent n) s := by
  obtain ⟨hdispatched, hunsent⟩ := hq.alone n rfl
  have hd : dispatches? x = none := by rw [dispatches?, hx]
  have hsends : sends? x = some w := by rw [sends?, hx]
  refine ⟨⟨?_, fun h => ?_, ?_, hg.attempts⟩, ⟨hq.found, fun _ h => (nomatch h)⟩, ?_⟩
  · rw [filterMap_quiet hd]
    exact hg.closed
  · rw [filterMap_quiet hd, hdispatched] at h
    cases h
  · rw [filterMap_snoc hsends, hunsent]
    exact le_rfl
  · refine fun w' q' hne hq' => ⟨hq'.found, fun m hm => ?_⟩
    have halone := (hq'.alone m hm).1
    rw [hdispatched] at halone
    exact absurd (List.singleton_inj.mp halone).symm hne

theorem kept_of_may {e : Op} (hx : performed? x = some (w, i, ⟨e, (e.run s).2⟩)) (hg : Guarded h s)
    (hq : q.Holds h w) (hmay : May i q e) : Kept h x w (q.next e (e.run s).2) (e.run s).1 := by
  have hstep := step_of_may s hq.found hmay
  cases hmay with
  | beforeSend j n leaseAt fate => exact kept_of_beforeSend hg hq hx hstep
  | send j n => exact kept_of_send hg hq hx
  | find j q now inBatch error =>
    have hquiet := quiet_of_performed hx (fun _ _ _ h => by cases h) fun h => by cases h
    refine kept_of_quiet hg hquiet hstep ?_
    cases error with
    | some error => exact hq
    | none =>
      change (Stage.next q (.findDue now inBatch none) (.ok (ite _ _ _))).Holds h w
      split
      · next hdue =>
        refine ⟨fun n hn => ?_, fun n hn => by cases hn⟩
        obtain rfl := Option.some.inj hn
        exact (of_decide_eq_true hdue.2).1
      · exact hq
  | findWinner j q =>
    have hquiet := quiet_of_performed hx (fun _ _ _ h => by cases h) fun h => by cases h
    exact kept_of_quiet hg hquiet hstep ⟨fun n h => (by cases h), fun n h => (by cases h)⟩
  | expire | exhaust | defer | claim | complete | ambiguous | release | reroll =>
    have hquiet := quiet_of_performed hx (fun _ _ _ h => by cases h) fun h => by cases h
    exact kept_of_quiet hg hquiet hstep hq

/-! ## Runs -/

section Runs

variable [DecidableEq ω] {ok : List (Event ω) → Nat → Move ω Call → Prop} {s₀ : Outbox} {t : Nat}
  {p : Pool ω Call Op Op.Reply String Unit Outbox}

abbrev after (s₀ : Outbox) (h : List (Event ω)) : Notification :=
  (Pool.after Op.run Call.program s₀ h).notification

abbrev OutboxRun (ok : List (Event ω) → Nat → Move ω Call → Prop) (s₀ : Outbox) :=
  Run (Pool.step Op.run Call.program) ok (Pool.start (ω := ω) (ξ := String) (α := Unit) s₀)

def Cancels (before after : Notification) (x : Event ω) : Prop :=
  (∃ w i status now fate r, performed? x = some (w, i, ⟨.reroll status now fate, r⟩)) ∧
    isOpen before.status = true ∧ after.status = .canceled

structure SentOnce (s₀ : Outbox) (h : List (Event ω)) : Prop where
  once : (h.filterMap sends?).length ≤ 1
  dispatching : ∀ h₁ h₂, h = h₁ ++ h₂ → (after s₀ h₁).status = .dispatching →
    (after s₀ h).status = .dispatching ∨ (after s₀ h).status = .sent ∨
      (after s₀ h).status = .ambiguous
  final : ∀ h₁ h₂, h = h₁ ++ h₂ → isFinal (after s₀ h₁).status = true → after s₀ h = after s₀ h₁
  canceled : ∀ h₁ x h₂, h = h₁ ++ x :: h₂ → Cancels (after s₀ h₁) (after s₀ (h₁ ++ [x])) x →
    ∀ y ∈ h₂, sends? y = none
  attempts : (after s₀ h).attemptCount ≤ GIVEAWAY_WINNER_NOTIFICATION_MAX_ATTEMPTS

theorem run_guarded (hstart : s₀.notification.attemptCount ≤ GIVEAWAY_WINNER_NOTIFICATION_MAX_ATTEMPTS)
    (hr : OutboxRun ok s₀ h t p) :
    Guarded h p.store ∧ ∀ w i q, dispatching.phase h w = some (i, q) → q.Holds h w := by
  refine Pool.run_ghost (fun _ _ => True) Guarded (fun h w _ q _ => q.Holds h w) program_follows
    ⟨fun _ => rfl, fun _ => rfl, Nat.zero_le _, hstart⟩ ?_ ?_ ?_ hr fun _ _ _ _ => trivial
  · intro h x s hx hg
    have hd : dispatches? x = none := by rw [dispatches?, hx]
    have hs : sends? x = none := by rw [sends?, hx]
    exact ⟨hg.quiet hd hs (.same rfl), fun _ _ _ hq => hq.quiet hd hs⟩
  · exact fun _ _ _ _ _ => ⟨fun n h => (by cases h), fun n h => (by cases h)⟩
  · rintro h x w i q e s hx - - hg hq - hmay
    obtain ⟨hg', hown, hothers⟩ := kept_of_may hx hg hq hmay
    exact ⟨hg', hown, fun w' _ q' hne hq' => hothers w' q' hne hq'⟩

variable {h₁ h₂ : List (Event ω)}

theorem run_step
    (hstart : s₀.notification.attemptCount ≤ GIVEAWAY_WINNER_NOTIFICATION_MAX_ATTEMPTS)
    (hr : OutboxRun ok s₀ (h₁ ++ x :: h₂) t p) :
    Step (Pool.after Op.run Call.program s₀ h₁) (Pool.after Op.run Call.program s₀ (h₁ ++ [x])) := by
  obtain ⟨t₁, p₁, hr₁, hstore, hx⟩ := Pool.run_at program_follows hr
  obtain ⟨-, hholds⟩ := run_guarded hstart hr₁
  rw [hstore] at hx
  rcases hx.performed with ⟨-, hsame⟩ | ⟨w, i, q, e, -, hq, hmay, hafter⟩
  · rw [hsame]
    exact .same rfl
  · rw [hafter]
    exact step_of_may _ (hholds w i q hq).found hmay

theorem row_since {P : Notification → Prop}
    (hstart : s₀.notification.attemptCount ≤ GIVEAWAY_WINNER_NOTIFICATION_MAX_ATTEMPTS)
    (hstep : ∀ s s' : Outbox, Step s s' → P s.notification → P s'.notification)
    (hr : OutboxRun ok s₀ (h₁ ++ h₂) t p) (hbefore : P (after s₀ h₁)) : P (after s₀ (h₁ ++ h₂)) := by
  induction h₂ using List.reverseRecOn generalizing t p with
  | nil => rwa [List.append_nil]
  | append_singleton h₂ x ih =>
    rw [← List.append_assoc] at hr ⊢
    obtain ⟨t₁, p₁, hr₁, -⟩ := hr.of_append
    exact hstep _ _ (run_step hstart hr) (ih hr₁)

theorem final_since
    (hstart : s₀.notification.attemptCount ≤ GIVEAWAY_WINNER_NOTIFICATION_MAX_ATTEMPTS)
    (hr : OutboxRun ok s₀ (h₁ ++ h₂) t p) (hfinal : isFinal (after s₀ h₁).status = true) :
    after s₀ (h₁ ++ h₂) = after s₀ h₁ :=
  row_since (P := (· = after s₀ h₁)) hstart
    (fun s s' hx he => (hx.final (by rw [he]; exact hfinal)).trans he) hr rfl

theorem dispatched_of_sends
    (hstart : s₀.notification.attemptCount ≤ GIVEAWAY_WINNER_NOTIFICATION_MAX_ATTEMPTS)
    (hr : OutboxRun ok s₀ (h₁ ++ x :: h₂) t p) (hsends : sends? x = some w) :
    isDispatched (after s₀ h₁).status = true := by
  obtain ⟨t₁, p₁, hr₁, hstore, hx⟩ := Pool.run_at program_follows hr
  obtain ⟨hg, hholds⟩ := run_guarded hstart hr₁
  rw [hstore] at hx hg
  rcases hx.performed with ⟨hnone, -⟩ | ⟨w', i, q, e, hperformed, hq, hmay, -⟩
  · rw [sends?, hnone] at hsends
    cases hsends
  · by_contra hopen
    have hclosed := hg.closed (Bool.eq_false_iff.mpr hopen)
    have hquiet := quiet_of_performed hperformed
    cases hmay with
    | send j n =>
      have halone := ((hholds w' _ _ hq).alone n rfl).1
      rw [hclosed] at halone
      cases halone
    | beforeSend =>
      rw [sends?, hperformed] at hsends
      cases hsends
    | _ =>
      rw [(hquiet (fun _ _ _ h => by cases h) fun h => by cases h).2] at hsends
      cases hsends

theorem winner_notification_sent_once
    (hstart : s₀.notification.attemptCount ≤ GIVEAWAY_WINNER_NOTIFICATION_MAX_ATTEMPTS)
    (hr : OutboxRun ok s₀ h t p) : SentOnce s₀ h := by
  have hg := (run_guarded hstart hr).1
  rw [← Pool.run_after hr] at hg
  refine ⟨hg.once, ?_, ?_, ?_, hg.attempts⟩
  · rintro h₁ h₂ rfl hdispatching
    have hkept := row_since (P := fun n => isDispatched n.status = true) hstart
      (fun s s' hx => hx.moves.isDispatched) hr (by rw [hdispatching]; rfl)
    exact of_decide_eq_true hkept
  · rintro h₁ h₂ rfl hfinal
    exact final_since hstart hr hfinal
  · rintro h₁ x h₂ rfl ⟨-, -, hcanceled⟩ y hy
    obtain ⟨l, l', rfl⟩ := List.append_of_mem hy
    have hsplit : h₁ ++ x :: (l ++ y :: l') = (h₁ ++ x :: l) ++ y :: l' := by simp
    rw [hsplit] at hr
    cases hsends : sends? y with
    | none => rfl
    | some w =>
      have hdispatched := dispatched_of_sends hstart hr hsends
      obtain ⟨t₁, p₁, hr₁, -⟩ := hr.of_append
      rw [List.append_cons] at hr₁ hdispatched
      rw [final_since hstart hr₁ (by rw [hcanceled]; rfl), hcanceled] at hdispatched
      cases hdispatched

end Runs

/-! ## Examples -/

def sampleAttempt (now : Nat) : AttemptInputs where
  attemptStartedAt := now
  leaseAt := now
  claim := .committed
  prepared := .ok ()
  beforeSend := .committed
  attempted := false
  sent := .ok "mid"
  completedAt := now
  complete := .committed
  completedAgainAt := now
  completeAgain := .committed
  failedAt := now
  fail := .committed

def sampleOutbox (now : Nat) : Nat → Nat × Move Nat Call := fun w =>
  (now, .call w (.outbox {
    now, selected := true, expire := .committed, exhaust := .committed, inBatch := true
    findError := none, synchronizeResultsBeforeDispatch := false, resultsConfirmed := false
    deferredAt := now, defer := .committed, dispatchNow := now, refreshError := none
    attempt := sampleAttempt now }))

/-- A worker stalls before the fence, another one sends, and the winner is rerolled. -/
def stalledRun : List (Event Nat) × Pool Nat Call Op Op.Reply String Unit Outbox :=
  play (Pool.step Op.run Call.program)
    (Pool.start ⟨{ winnerId := 101, nextAttemptAt := 0 }, .selected, .completed⟩)
    (sampleOutbox 1000 0 :: List.replicate 4 (1000, .resume 0) ++
      sampleOutbox 70000 1 :: List.replicate 7 (70000, .resume 1) ++
      List.replicate 2 (70001, .resume 0) ++
      (70002, .call 2 (.reroll ⟨70002, true, .committed⟩)) :: List.replicate 2 (70002, .resume 2))

theorem winner_notification_sent_once_stalled :
    SentOnce ⟨{ winnerId := 101, nextAttemptAt := 0 }, .selected, .completed⟩ stalledRun.1 ∧
      stalledRun.1.filterMap sends? = [1] ∧
      stalledRun.2.store = ⟨⟨101, .sent, 70000, 2, none⟩, .rerolled, .completed⟩ := by
  obtain ⟨t, hr⟩ : ∃ t, OutboxRun (fun _ _ _ => True)
      ⟨{ winnerId := 101, nextAttemptAt := 0 }, .selected, .completed⟩ stalledRun.1 t stalledRun.2 :=
    run_play (by decide) (accepted_of_forall (fun _ _ _ => trivial) _ _)
  exact ⟨winner_notification_sent_once (by decide) hr, by decide +kernel, by decide +kernel⟩

end Maxim.Admin.ManagedGiveaway.Notifications
