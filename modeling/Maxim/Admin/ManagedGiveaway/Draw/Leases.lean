import Maxim.Admin.ManagedGiveaway.Awards
import Maxim.Admin.ManagedGiveaway.Actors
import Maxim.Library.Fallible

/-!
# Entries and draws of one giveaway

A draw claims the row, reads it back with its entries, asks the channels who is
still eligible, and completes the giveaway in one transaction. An entry is
admitted in a transaction of its own. The answers of the channels, the random
numbers and the clock are part of the call, and so is what becomes of the
transaction: it commits, it commits and the answer is lost, or it is rolled
back.
-/

namespace Maxim.Admin.ManagedGiveaway.Draw

open Maxim.Library

variable {υ ρ α : Type}

structure RandomBytes where
  bytes : List (Fin 256)
  length_eq : bytes.length = 32

def hexByte (n : Fin 256) : List Char := [Nat.digitChar (n.val / 16), Nat.digitChar (n.val % 16)]

def RandomBytes.hex (b : RandomBytes) : String := String.ofList (b.bytes.flatMap hexByte)

/-- What the transaction of `drawGiveaway` writes. -/
structure Completion (υ ρ : Type) where
  lockedAt : Option Nat
  drawSeed : String
  completedAt : Nat
  refreshedEntries : List (Entry υ ρ)
  rankedEntries : List (Entry υ ρ × ρ)
  winnersToCreate : List (Winner υ)
  deriving DecidableEq, Repr

inductive Op (υ ρ : Type)
  | findGiveawayById
  | row (e : ManagedGiveaway.Op)
  /-- The transaction of `enterGiveaway`. -/
  | admission (userId : υ) (state : EligibilityState) (checkedAt : Nat)
  /-- The transaction of `drawGiveaway`. -/
  | complete (c : Completion υ ρ) (fate : Fate)
  deriving DecidableEq, Repr

/-- A transaction of a draw answers with the completed giveaway, or with its error. -/
def Op.Reply : Op υ ρ → Type
  | .findGiveawayById => Records υ ρ
  | .row e => e.Reply
  | .admission _ _ _ => Bool
  | .complete _ _ => Except String (Records υ ρ)

/-! ## Transactions -/

section Transactions

variable [DecidableEq υ]

def upsertEntry (entries : List (Entry υ ρ)) (userId : υ) (state : EligibilityState)
    (checkedAt : Nat) : List (Entry υ ρ) :=
  if entries.any (·.userId = userId) then
    entries.map fun entry =>
      if entry.userId = userId then
        { entry with eligibilityState := state, checkedAt := some checkedAt }
      else entry
  else entries ++ [{ userId, eligibilityState := state, checkedAt := some checkedAt }]

def admits (row : Giveaway) (checkedAt : Nat) : Bool :=
  row.status == .active && checkedAt < row.endsAt && row.startsAt.all (· ≤ checkedAt)

def saveEntry (s : Records υ ρ) (userId : υ) (state : EligibilityState) (checkedAt : Nat) :
    Records υ ρ × Bool :=
  if admits s.giveaway checkedAt then
    ({ s with
        giveaway := { s.giveaway with updatedAt := checkedAt }
        entries := upsertEntry s.entries userId state checkedAt }, true)
  else (s, false)

def Completion.entry (c : Completion υ ρ) (entry : Entry υ ρ) : Entry υ ρ :=
  match c.refreshedEntries.find? (·.userId = entry.userId) with
  | none => entry
  | some refreshed =>
    { entry with
      eligibilityState := refreshed.eligibilityState
      drawRank := (c.rankedEntries.find? (·.1.userId = entry.userId)).map Prod.snd
      checkedAt := some c.completedAt }

/-- The rows of the winners after SELECTED ones were deleted, with their notifications. -/
def unselect (s : Records υ ρ) : Records υ ρ :=
  { s with
    winners := s.winners.filter (·.status ≠ .selected)
    notifications := s.notifications.filter fun n =>
      ¬s.winners.any fun winner => winner.status = .selected ∧ winner.id = n.winnerId }

/-- `deleteMany` and `createMany`. -/
def replaceWinners (s : Records υ ρ) (winners : List (Winner υ)) (createdAt : Nat) :
    Records υ ρ :=
  let s := unselect s
  { s with
    winners := s.winners ++ winners
    notifications := s.notifications ++
      winners.map fun winner => { winnerId := winner.id, nextAttemptAt := createdAt } }

/-- The transaction, or its error. -/
def completed (s : Records υ ρ) (c : Completion υ ρ) : Except String (Records υ ρ) :=
  let owned := s.giveaway.update c.completedAt (.completeDraw c.lockedAt c.drawSeed)
  if owned.2 then
    let s := { s with giveaway := owned.1, entries := s.entries.map c.entry }
    let s := replaceWinners s c.winnersToCreate c.completedAt
    if WinnerKeys s.winners then .ok s else .error "P2002"
  else .error "Итоги уже обрабатывает другой исполнитель."

def transact (s : Records υ ρ) (c : Completion υ ρ) (fate : Fate) :
    Records υ ρ × Except String (Records υ ρ) :=
  match fate, completed s c with
  | .rolledBack error, _ => (s, .error error)
  | _, .error error => (s, .error error)
  | .lost error, .ok s' => (s', .error error)
  | .committed, .ok s' => (s', .ok s')

def Op.run : (e : Op υ ρ) → Records υ ρ → Records υ ρ × e.Reply
  | .findGiveawayById, s => (s, s)
  | .row e, s => ({ s with giveaway := (e.run s.giveaway).1 }, (e.run s.giveaway).2)
  | .admission userId state checkedAt, s => saveEntry s userId state checkedAt
  | .complete c fate, s => transact s c fate

end Transactions

abbrev Service (υ ρ α : Type) := Prog (Op υ ρ) Op.Reply String α

def findGiveawayById : Service υ ρ (Records υ ρ) := Prog.perform Op.findGiveawayById

def update (now : Nat) (u : Update) : Service υ ρ Bool := Prog.perform (Op.row (.update now u))

def admission (userId : υ) (state : EligibilityState) (checkedAt : Nat) : Service υ ρ Bool :=
  Prog.perform (Op.admission userId state checkedAt)

def complete (c : Completion υ ρ) (fate : Fate) : Service υ ρ (Except String (Records υ ρ)) :=
  Prog.perform (Op.complete c fate)

def onRow : ManagedGiveaway.Service α → Service υ ρ α
  | .ret a => .ret a
  | .fail error => .fail error
  | .op e k => .op (.row e) fun r => onRow (k r)

/-! ## Entering -/

structure EnterInputs (υ : Type) where
  userId : υ
  startedAt : Nat
  activatedAt : Nat
  openAt : Nat
  eligibility : Except String EligibilityState
  checkedAt : Nat
  confirmedAt : Nat

def activateScheduledGiveawayIfDue (giveaway : Records υ ρ) (now activatedAt : Nat) :
    Service υ ρ Unit :=
  if giveaway.giveaway.status = .scheduled ∧ giveaway.giveaway.startsAt.any (· ≤ now) then do
    let activated ← update activatedAt (.activate activatedAt)
    if activated then do
      let _ ← findGiveawayById
      pure ()
    else pure ()
  else pure ()

/-- `findPublicGiveawayById`. What `assertGiveawayPubliclyAccessible` refuses is not open either. -/
def findPublicGiveawayById (now activatedAt : Nat) : Service υ ρ (Records υ ρ) := do
  let giveaway ← findGiveawayById
  let _ ← activateScheduledGiveawayIfDue giveaway now activatedAt
  findGiveawayById

def assertGiveawayOpenForEntry (giveaway : Records υ ρ) (now : Nat) : Service υ ρ Unit :=
  let row := giveaway.giveaway
  if row.status = .scheduled then .fail "Розыгрыш ещё не стартовал."
  else if row.status ≠ .active then .fail "Участие в этом розыгрыше уже закрыто."
  else if row.startsAt.any (now < ·) then .fail "Розыгрыш ещё не стартовал."
  else if row.endsAt ≤ now then .fail "Розыгрыш уже завершён."
  else pure ()

/-- `enterGiveaway`. The check inside the transaction rolls it back when it fails. -/
def enterGiveaway (i : EnterInputs υ) : Service υ ρ Unit := do
  let refreshed ← findPublicGiveawayById i.startedAt i.activatedAt
  let _ ← assertGiveawayOpenForEntry refreshed i.openAt
  match i.eligibility with
  | .error error => .fail error
  | .ok state => do
    let _ ← assertGiveawayOpenForEntry refreshed i.confirmedAt
    let admitted ← admission i.userId state i.checkedAt
    if admitted then pure () else .fail "Приём заявок уже закрыт. Обновите итоги."

/-! ## Drawing -/

structure DrawInputs (υ : Type) where
  runner : Bool
  now : Nat
  random : RandomBytes
  eligibility : Except String (υ → Option EligibilityState)
  /-- `randomUUID`, by the place of the winner. -/
  winnerId : Nat → Nat
  completedAt : Nat
  fate : Fate
  restoredAt : Nat
  services : Services
  results : ResultsInputs
  edits : EditInputs

inductive DrawClaim (υ ρ : Type)
  | claimed (giveaway : Records υ ρ) (drawSeed : String)
  | completed

/-- `claimGiveawayForDraw` after its claim was refused. -/
def resumeClaim (current : Records υ ρ) (drawSeed : String) (now : Nat) :
    Service υ ρ (DrawClaim υ ρ) :=
  let row := current.giveaway
  if row.status = .completed then pure .completed
  else if row.status = .drawing ∧ row.lockedBefore (now - GIVEAWAY_LOCK_STALE_MS) then do
    let resumedSeed := (nullableString row.drawSeed).getD drawSeed
    let resumed ← update now (.resumeDraw resumedSeed (row.drawnAt.getD now) now)
    if resumed then
      let giveaway ← findGiveawayById
      pure (.claimed giveaway resumedSeed)
    else .fail "Итоги уже подводятся."
  else if row.status = .drawing then .fail "Итоги уже подводятся."
  else .fail CLOSE_REFUSED

def claimGiveawayForDraw (giveaway : Records υ ρ) (drawSeed : String) (now : Nat) :
    Service υ ρ (DrawClaim υ ρ) := do
  if giveaway.giveaway.status = .completed then pure .completed
  else
    let claimed ← update now (.claimDraw giveaway.giveaway drawSeed now)
    if claimed then
      let giveaway ← findGiveawayById
      pure (.claimed giveaway drawSeed)
    else
      let current ← findGiveawayById
      resumeClaim current drawSeed now

def LOOKUP_UNAVAILABLE : String := "ManagedGiveawayMembershipLookupUnavailableError"

/-- The entries as the eligibility check found them, unless one was left open. -/
def refreshEntries (eligibility : υ → Option EligibilityState) (now : Nat)
    (entries : List (Entry υ ρ)) : Except String (List (Entry υ ρ)) :=
  entries.mapM fun entry =>
    match eligibility entry.userId with
    | none | some .pending => .error LOOKUP_UNAVAILABLE
    | some state => .ok { entry with eligibilityState := state, checkedAt := some now }

/-- The prizes in the order of their positions, each with the entry of its place. -/
def winnersToCreate (prizes : List Prize) (ranked : List (Entry υ ρ × ρ)) (winnerId : Nat → Nat)
    (selectedAt : Nat) (claimDeadlineAt : Option Nat) : List (Winner υ) :=
  ((prizes.insertionSort fun left right => left.position ≤ right.position).zip ranked).mapIdx
    fun index row =>
      { id := winnerId index, prizeId := row.1.id, entryId := row.2.1.userId, rank := index + 1
        selectedAt, claimDeadlineAt }

section Draw

variable [LinearOrder υ] [LinearOrder ρ] (ranks : DrawRanks υ ρ)

/-- What a draw that holds its claim writes. -/
def completion (i : DrawInputs υ) (giveaway : Records υ ρ) (drawSeed : String) :
    Except String (Completion υ ρ) := do
  let eligibility ← i.eligibility
  let refreshedEntries ← refreshEntries eligibility i.now giveaway.entries
  let rankedEntries := ranks.rankEntries drawSeed refreshedEntries
  pure {
    lockedAt := giveaway.giveaway.lockedAt
    drawSeed, completedAt := i.completedAt, refreshedEntries, rankedEntries
    winnersToCreate := winnersToCreate giveaway.prizes rankedEntries i.winnerId i.completedAt
      (giveaway.buildGiveawayClaimDeadlineAt i.completedAt) }

/-- A failed draw gives the giveaway back and rethrows its error. -/
def restoreDraw (i : DrawInputs υ) (initial : Status) (giveaway : Records υ ρ)
    (drawSeed error : String) : Service υ ρ Unit := do
  let _ ← update i.restoredAt
    (.restoreDraw giveaway.giveaway.lockedAt drawSeed (restoredStatus i.runner initial))
  .fail error

def drawClaimed (i : DrawInputs υ) (initial : Status) (giveaway : Records υ ρ) (drawSeed : String) :
    Service υ ρ Unit :=
  match completion ranks i giveaway drawSeed with
  | .error error => restoreDraw i initial giveaway drawSeed error
  | .ok c => do
    let answer ← complete c i.fate
    match answer with
    | .error error => restoreDraw i initial giveaway drawSeed error
    | .ok completed =>
      let _ ← onRow (republishGiveawayResults i.services i.results i.edits completed.giveaway)
      let _ ← findGiveawayById

def drawGiveaway (i : DrawInputs υ) : Service υ ρ Unit := do
  let initial ← findGiveawayById
  let initialDrawSeed := (nullableString initial.giveaway.drawSeed).getD i.random.hex
  let claim ← claimGiveawayForDraw initial initialDrawSeed i.now
  match claim with
  | .completed => pure ()
  | .claimed giveaway drawSeed => drawClaimed ranks i initial.giveaway.status giveaway drawSeed

inductive Call (υ : Type)
  | draw (i : DrawInputs υ)
  | enter (i : EnterInputs υ)

def Call.program : Call υ → Service υ ρ Unit
  | .draw i => drawGiveaway ranks i
  | .enter i => enterGiveaway i

end Draw

end Maxim.Admin.ManagedGiveaway.Draw

/-!
## How a draw holds its lease

A draw that has claimed or resumed the giveaway reads it back, and from then on
it names the lease of that read. What a call may do is settled by what it has
read and by the last update that was counted.
-/

namespace Maxim.Admin.ManagedGiveaway.Draw

open Maxim.Library

variable {υ ρ α : Type}

inductive Stage (υ ρ : Type)
  | start
  | read (initial : Records υ ρ)
  | refused (initial : Records υ ρ)
  | current (initial current : Records υ ρ)
  | leased (initial : Records υ ρ) (drawSeed : String)
  | holding (initial : Records υ ρ) (drawSeed : String) (giveaway : Records υ ρ)
  | completed
  | over

def Records.seedOr (giveaway : Records υ ρ) (drawSeed : String) : String :=
  (nullableString giveaway.giveaway.drawSeed).getD drawSeed

section Protocol

variable [LinearOrder υ] [LinearOrder ρ] (ranks : DrawRanks υ ρ)

inductive May : Call υ → Stage υ ρ → Op υ ρ → Prop
  | find (i : Call υ) (q : Stage υ ρ) : May i q .findGiveawayById
  | activate (i : EnterInputs υ) (q : Stage υ ρ) :
    May (.enter i) q (.row (.update i.activatedAt (.activate i.activatedAt)))
  | admission (i : EnterInputs υ) (q : Stage υ ρ) (state : EligibilityState) :
    May (.enter i) q (.admission i.userId state i.checkedAt)
  | claim (i : DrawInputs υ) (initial : Records υ ρ) : May (.draw i) (.read initial)
    (.row (.update i.now (.claimDraw initial.giveaway (Records.seedOr initial i.random.hex) i.now)))
  | resume (i : DrawInputs υ) (initial current : Records υ ρ) (drawnAt : Nat)
    (status : current.giveaway.status = .drawing) : May (.draw i) (.current initial current)
      (.row (.update i.now (.resumeDraw
        (Records.seedOr current (Records.seedOr initial i.random.hex)) drawnAt i.now)))
  | complete (i : DrawInputs υ) (initial : Records υ ρ) (drawSeed : String) (giveaway : Records υ ρ)
    (c : Completion υ ρ) (prepared : completion ranks i giveaway drawSeed = .ok c) :
    May (.draw i) (.holding initial drawSeed giveaway) (.complete c i.fate)
  | restore (i : DrawInputs υ) (initial : Records υ ρ) (drawSeed : String) (giveaway : Records υ ρ) :
    May (.draw i) (.holding initial drawSeed giveaway) (.row (.update i.restoredAt
      (.restoreDraw giveaway.giveaway.lockedAt drawSeed
        (restoredStatus i.runner initial.giveaway.status))))
  | publish (i : DrawInputs υ) (now : Nat) (u : Update) (republishes : u.republishes = true) :
    May (.draw i) .completed (.row (.update now u))

def Stage.find (q : Stage υ ρ) (s : Records υ ρ) : Stage υ ρ :=
  match q with
  | .start => .read s
  | .refused initial => .current initial s
  | .leased initial drawSeed => .holding initial drawSeed s
  | q => q

def Stage.update (q : Stage υ ρ) (u : Update) (counted : Bool) : Stage υ ρ :=
  match u, q with
  | .claimDraw _ drawSeed _, .read initial =>
    if counted then .leased initial drawSeed else .refused initial
  | .resumeDraw drawSeed _ _, .current initial _ => if counted then .leased initial drawSeed else .over
  | .restoreDraw _ _ _, _ => .over
  | _, q => q

def drawing : Protocol (Call υ) (Op υ ρ) Op.Reply (Stage υ ρ) where
  init := .start
  may := May ranks
  next q
    | .findGiveawayById, s => q.find s
    | .row (.update _ u), r => q.update u r
    | .row .find, _ => q
    | .admission _ _ _, _ => q
    | .complete _ _, answer =>
      match answer with
      | .ok _ => .completed
      | .error _ => q

variable {ranks} {i : Call υ} {q : Stage υ ρ}

theorem next_update (q : Stage υ ρ) (now : Nat) (u : Update) (s : Records υ ρ) :
    (drawing ranks).next q (.row (.update now u)) ((Op.row (.update now u)).run s).2 =
      q.update u (s.giveaway.update now u).2 := rfl

theorem next_complete (q : Stage υ ρ) (c : Completion υ ρ) (fate : Fate) (s : Records υ ρ) :
    (drawing ranks).next q (.complete c fate) ((Op.complete c fate).run s).2 = q ∨
      (drawing ranks).next q (.complete c fate) ((Op.complete c fate).run s).2 = .completed ∧
        completed s c = .ok (transact s c fate).1 := by
  cases h : (transact s c fate).2 with
  | error error => exact .inl (congrArg ((drawing ranks).next q (.complete c fate)) h)
  | ok s' =>
    refine .inr ⟨congrArg ((drawing ranks).next q (.complete c fate)) h, ?_⟩
    cases fate with
    | committed =>
      cases hs : completed s c with
      | ok s' => simp [transact, hs]
      | error error => simp [transact, hs] at h
    | lost error => cases hs : completed s c <;> simp [transact, hs] at h
    | rolledBack error => simp [transact] at h

theorem completion_ok {i : DrawInputs υ} {giveaway : Records υ ρ} {drawSeed : String}
    {c : Completion υ ρ} (h : completion ranks i giveaway drawSeed = .ok c) :
    ∃ eligibility refreshedEntries, i.eligibility = .ok eligibility ∧
      refreshEntries eligibility i.now giveaway.entries = .ok refreshedEntries ∧ c =
        { lockedAt := giveaway.giveaway.lockedAt, drawSeed, completedAt := i.completedAt
          refreshedEntries, rankedEntries := ranks.rankEntries drawSeed refreshedEntries
          winnersToCreate := winnersToCreate giveaway.prizes
            (ranks.rankEntries drawSeed refreshedEntries) i.winnerId i.completedAt
            (giveaway.buildGiveawayClaimDeadlineAt i.completedAt) } := by
  obtain ⟨eligibility, heligibility, h⟩ := bind_eq_ok.mp h
  obtain ⟨refreshedEntries, hrefreshed, h⟩ := bind_eq_ok.mp h
  exact ⟨eligibility, refreshedEntries, heligibility, hrefreshed, (Except.ok.inj h).symm⟩

theorem follows_find {f : Records υ ρ → Service υ ρ α}
    (hf : ∀ s, (f s).Follows (drawing ranks) i (q.find s)) :
    (findGiveawayById >>= f).Follows (drawing ranks) i q := ⟨.find i q, hf⟩

theorem follows_update {now : Nat} {u : Update} {f : Bool → Service υ ρ α}
    (hu : May ranks i q (.row (.update now u)))
    (hf : ∀ r, (f r).Follows (drawing ranks) i (q.update u r)) :
    (update now u >>= f).Follows (drawing ranks) i q := ⟨hu, hf⟩

omit [LinearOrder υ] [LinearOrder ρ] in
theorem ops_onRow {P : Op υ ρ → Prop} {x : ManagedGiveaway.Service α} (hx : x.Ops fun e => P (.row e)) :
    (onRow x : Service υ ρ α).Ops P := by
  induction x with
  | ret a => trivial
  | fail error => trivial
  | op e k ih => exact ⟨hx.1, fun r => ih r (hx.2 r)⟩

theorem follows_complete {c : Completion υ ρ} {fate : Fate}
    {f : Except String (Records υ ρ) → Service υ ρ α} (hc : May ranks i q (.complete c fate))
    (hf : ∀ r, (f r).Follows (drawing ranks) i ((drawing ranks).next q (.complete c fate) r)) :
    (complete c fate >>= f).Follows (drawing ranks) i q := ⟨hc, hf⟩

theorem open_stays (giveaway : Records υ ρ) (now : Nat) :
    (assertGiveawayOpenForEntry giveaway now).Ops ((drawing ranks).Stays i q) := by
  rw [assertGiveawayOpenForEntry]
  split
  · trivial
  split
  · trivial
  split
  · trivial
  split <;> trivial

theorem activate_stays (p : EnterInputs υ) (giveaway s : Records υ ρ) :
    (activateScheduledGiveawayIfDue giveaway p.startedAt p.activatedAt).Ops
      ((drawing ranks).Stays (.enter p) (.read s)) := by
  rw [activateScheduledGiveawayIfDue]
  split
  · refine ⟨⟨.activate p _, fun _ => rfl⟩, fun activated => ?_⟩
    cases activated
    · trivial
    · exact ⟨⟨.find _ _, fun _ => rfl⟩, fun _ => trivial⟩
  · trivial

theorem findPublic_follows (p : EnterInputs υ) {f : Records υ ρ → Service υ ρ α}
    (hf : ∀ giveaway refreshed, (f refreshed).Follows (drawing ranks) (.enter p) (.read giveaway)) :
    (findPublicGiveawayById p.startedAt p.activatedAt >>= f).Follows (drawing ranks) (.enter p)
      .start := by
  refine ⟨.find _ _, fun giveaway => ?_⟩
  change Prog.Follows _ _ (Prog.bind (Prog.bind (activateScheduledGiveawayIfDue giveaway _ _) _) f) _
  rw [Prog.bind_assoc]
  refine Prog.follows_of_stays (activate_stays p giveaway giveaway) fun _ => ?_
  exact follows_find fun refreshed => hf giveaway refreshed

theorem enter_follows (p : EnterInputs υ) :
    (enterGiveaway p : Service υ ρ Unit).Follows (drawing ranks) (.enter p) .start := by
  refine findPublic_follows p fun giveaway refreshed => ?_
  refine Prog.follows_of_stays (open_stays refreshed p.openAt) fun _ => ?_
  cases p.eligibility with
  | error error => trivial
  | ok state =>
    refine Prog.follows_of_stays (open_stays refreshed p.confirmedAt) fun _ => ?_
    refine ⟨.admission p _ state, fun admitted => ?_⟩
    cases admitted <;> trivial

section Draw

variable (p : DrawInputs υ) (initial : Records υ ρ)

theorem restore_follows (giveaway : Records υ ρ) (drawSeed error : String) :
    (restoreDraw p initial.giveaway.status giveaway drawSeed error).Follows (drawing ranks) (.draw p)
      (.holding initial drawSeed giveaway) :=
  follows_update (.restore p initial drawSeed giveaway) fun _ => trivial

theorem republish_stays (row : Giveaway) :
    (onRow (republishGiveawayResults p.services p.results p.edits row) : Service υ ρ Bool).Ops
      ((drawing ranks).Stays (.draw p) .completed) := by
  refine ops_onRow ((republish_republishes p.services p.results p.edits row).mono ?_)
  rintro - ⟨now, u, rfl, hu⟩
  refine ⟨.publish p now u hu, fun r => ?_⟩
  cases u with
  | claimDraw | resumeDraw | restoreDraw => cases hu
  | _ => rfl

theorem drawn_follows (giveaway : Records υ ρ) (drawSeed : String) :
    (drawClaimed ranks p initial.giveaway.status giveaway drawSeed).Follows (drawing ranks) (.draw p)
      (.holding initial drawSeed giveaway) := by
  rw [drawClaimed]
  cases hc : completion ranks p giveaway drawSeed with
  | error error => exact restore_follows p initial giveaway drawSeed error
  | ok c =>
    refine follows_complete (.complete p initial drawSeed giveaway c hc) fun answer => ?_
    cases answer with
    | error error => exact restore_follows p initial giveaway drawSeed error
    | ok completed =>
      refine Prog.follows_of_stays (republish_stays p completed.giveaway) fun _ => ?_
      exact follows_find fun _ => trivial

variable {p initial} {f : DrawClaim υ ρ → Service υ ρ Unit}
  (hcompleted : ∀ q, (f .completed).Follows (drawing ranks) (.draw p) q)
  (hclaimed : ∀ giveaway drawSeed, (f (.claimed giveaway drawSeed)).Follows (drawing ranks) (.draw p)
    (.holding initial drawSeed giveaway))

include hcompleted hclaimed

theorem resumeClaim_follows (current : Records υ ρ) :
    (resumeClaim current (Records.seedOr initial p.random.hex) p.now >>= f).Follows (drawing ranks)
      (.draw p) (.current initial current) := by
  rw [resumeClaim]
  dsimp only
  split
  · exact hcompleted _
  split
  · next hdrawing =>
    refine follows_update (.resume p initial current _ hdrawing.1) fun resumed => ?_
    cases resumed
    · trivial
    · exact follows_find fun giveaway => hclaimed giveaway _
  split <;> trivial

theorem claim_follows :
    (claimGiveawayForDraw initial (Records.seedOr initial p.random.hex) p.now >>= f).Follows
      (drawing ranks) (.draw p) (.read initial) := by
  rw [claimGiveawayForDraw]
  split
  · exact hcompleted _
  refine follows_update (.claim p initial) fun claimed => ?_
  cases claimed
  · exact follows_find fun current => resumeClaim_follows hcompleted hclaimed current
  · exact follows_find fun giveaway => hclaimed giveaway _

end Draw

theorem program_follows (i : Call υ) :
    (i.program ranks).Follows (drawing ranks) i (drawing ranks).init := by
  cases i with
  | enter p => exact enter_follows p
  | draw p =>
    refine follows_find fun initial => ?_
    refine claim_follows (fun _ => ?_) fun giveaway drawSeed => ?_
    · trivial
    · exact drawn_follows p initial giveaway drawSeed

end Protocol

/-! ## What a history says -/

abbrev Event (ω υ ρ : Type) := PoolEntry ω (Call υ) (Op υ ρ) Op.Reply String Unit

/-- The update of a step, when its row is counted, and its worker. -/
def counted? (x : Event ω υ ρ) : Option (ω × Update) :=
  match performed? x with
  | some (w, _, ⟨.row (.update _ u), true⟩) => some (w, u)
  | _ => none

theorem counted_of_performed {ω : Type} {x : Event ω υ ρ} {w : ω} {i : Call υ} {now : Nat} {u : Update}
    {r : Bool} (hx : performed? x = some (w, i, ⟨.row (.update now u), r⟩)) :
    counted? x = if r then some (w, u) else none := by
  rw [counted?, hx]
  cases r <;> rfl

section Transactions

variable [DecidableEq υ]

theorem completed_ok {s s' : Records υ ρ} {c : Completion υ ρ} (h : completed s c = .ok s') :
    (Update.completeDraw c.lockedAt c.drawSeed).guard s.giveaway = true ∧ WinnerKeys s'.winners ∧
      s' = replaceWinners
        { s with
          giveaway := { (Update.completeDraw c.lockedAt c.drawSeed).data s.giveaway with
            updatedAt := c.completedAt }
          entries := s.entries.map c.entry } c.winnersToCreate c.completedAt := by
  rw [completed, Giveaway.update] at h
  by_cases hguard : (Update.completeDraw c.lockedAt c.drawSeed).guard s.giveaway = true
  · simp only [if_pos hguard, if_true] at h
    split at h
    · next hkeys =>
      obtain rfl := Except.ok.inj h
      exact ⟨hguard, hkeys, rfl⟩
    · cases h
  · simp only [if_neg hguard] at h
    cases h

theorem transact_eq (s : Records υ ρ) (c : Completion υ ρ) (fate : Fate) :
    (transact s c fate).1 = match completed s c with
      | .ok s' => if fate.commits then s' else s
      | .error _ => s := by
  cases hs : completed s c <;> cases fate <;> simp [transact, hs, Fate.commits]

end Transactions

section Runs

variable {ω : Type} [DecidableEq ω] [LinearOrder υ] [LinearOrder ρ] (ranks : DrawRanks υ ρ)

/-- A run in which every statement and every transaction is one step. A call that is never resumed
has crashed. -/
abbrev DrawRun (ok : List (Event ω υ ρ) → Nat → Move ω (Call υ) → Prop) (s₀ : Records υ ρ) :=
  Run (Pool.step Op.run (Call.program ranks)) ok
    (Pool.start s₀ : Pool ω (Call υ) (Op υ ρ) Op.Reply String Unit (Records υ ρ))

def after (s₀ : Records υ ρ) (h : List (Event ω υ ρ)) : Records υ ρ :=
  Pool.after Op.run (Call.program ranks) s₀ h

/-- The transaction of a draw that a step commits, and its worker. -/
def commits? (s : Records υ ρ) (x : Event ω υ ρ) : Option (ω × Completion υ ρ) :=
  match performed? x with
  | some (w, _, ⟨.complete c fate, _⟩) =>
    if fate.commits ∧ (completed s c).toBool then some (w, c) else none
  | _ => none

omit [DecidableEq ω] [LinearOrder ρ] in
theorem performed_of_commits {s : Records υ ρ} {x : Event ω υ ρ} {w : ω} {c : Completion υ ρ}
    (h : commits? s x = some (w, c)) :
    ∃ i fate r, performed? x = some (w, i, ⟨.complete c fate, r⟩) := by
  rw [commits?] at h
  split at h
  · next hx =>
    split at h
    · obtain ⟨rfl, rfl⟩ := Prod.mk.inj (Option.some.inj h)
      exact ⟨_, _, _, hx⟩
    · cases h
  · cases h

end Runs

end Maxim.Admin.ManagedGiveaway.Draw
