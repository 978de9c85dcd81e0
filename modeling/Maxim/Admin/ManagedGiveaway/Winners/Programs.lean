import Maxim.Admin.ManagedGiveaway.Awards
import Maxim.Library.Interleave

/-!
# Claims, expiries, deliveries and rerolls of one giveaway

Each call reads the giveaway and writes later. A single statement writes the
rows that its WHERE clause finds; a reroll writes in one transaction. The clock,
the eligibility check and the random ids are part of the call. Two readings of
the clock in one statement differ by what `elapsed` says.
-/

namespace Maxim.Admin.ManagedGiveaway.Winners

open Maxim.Library

variable {υ ρ α : Type}

/-- What the transaction of `rerollManagedGiveawayWinner` writes. -/
structure Reroll (υ ρ : Type) where
  winnerId : Nat
  status : WinnerStatus
  prizeId : Nat
  rank : Nat
  entryId : υ
  drawRank : ρ
  now : Nat
  nextWinnerId : Nat
  claimDeadlineAt : Option Nat
  deriving DecidableEq, Repr

inductive Op (υ ρ : Type)
  | findGiveaway
  /-- The ids of due winners, as far as the page takes them. -/
  | findDue (now : Nat) (page : Nat → Bool)
  | expireOwn (winnerId checkedAt expiredAt : Nat)
  | claim (winnerId claimedAt : Nat)
  | expireDue (winnerIds : List Nat) (now : Nat)
  | deliver (winnerId : Nat) (status : WinnerStatus) (checkedAt deliveredAt : Nat)
  | reroll (r : Reroll υ ρ) (fate : Fate)

/-- A transaction of a reroll answers with its error, if it fails. -/
def Op.Reply : Op υ ρ → Type
  | .findGiveaway => Records υ ρ
  | .findDue _ _ => List Nat
  | .expireOwn _ _ _ | .claim _ _ | .expireDue _ _ | .deliver _ _ _ _ => Bool
  | .reroll _ _ => Option String

/-! ## Statements -/

/-- Write the rows that a WHERE clause finds, and answer whether there are any. -/
def updateWinners (s : Records υ ρ) (guard : Winner υ → Bool) (data : Winner υ → Winner υ) :
    Records υ ρ × Bool :=
  ({ s with winners := s.winners.map fun winner => if guard winner then data winner else winner },
    s.winners.any guard)

def dueAt (now : Nat) (winner : Winner υ) : Bool := winner.claimDeadlineAt.any (· ≤ now)

def expire (expiredAt : Nat) (winner : Winner υ) : Winner υ :=
  { winner with status := .expired, expiredAt := some expiredAt }

def confirm (claimedAt : Nat) (winner : Winner υ) : Winner υ :=
  { winner with status := .claimed, claimedAt := some claimedAt }

def handOver (deliveredAt : Nat) (winner : Winner υ) : Winner υ :=
  { winner with status := .delivered, deliveredAt := some deliveredAt }

def replace (rerolledAt : Nat) (winner : Winner υ) : Winner υ :=
  { winner with status := .rerolled, rerolledAt := some rerolledAt }

/-- The winner that a reroll creates. -/
def Reroll.next (r : Reroll υ ρ) : Winner υ where
  id := r.nextWinnerId
  prizeId := r.prizeId
  entryId := r.entryId
  rank := r.rank
  selectedAt := r.now
  claimDeadlineAt := r.claimDeadlineAt

section Transactions

variable [DecidableEq υ]

def Reroll.write (r : Reroll υ ρ) (s : Records υ ρ) : Records υ ρ :=
  { s with
    entries := s.entries.map fun entry =>
      if entry.userId = r.entryId then
        { entry with drawRank := some r.drawRank, checkedAt := some r.now }
      else entry
    winners := (updateWinners s (fun winner => winner.id = r.winnerId ∧ winner.status = r.status)
      (replace r.now)).1.winners ++ [r.next]
    notifications := (s.notifications.map fun n =>
      if n.winnerId = r.winnerId ∧ (n.status = .pending ∨ n.status = .retryable) then
        { n with status := .canceled, lockedAt := none, nextAttemptAt := r.now }
      else n) ++ [{ winnerId := r.nextWinnerId, nextAttemptAt := r.now }] }

/-- The transaction, or its error: a row that is not found, or a key that is taken. -/
def rerolled (s : Records υ ρ) (r : Reroll υ ρ) : Except String (Records υ ρ) :=
  if ¬s.entries.any (·.userId = r.entryId) then .error "P2025"
  else if ¬s.winners.any (fun winner => winner.id = r.winnerId ∧ winner.status = r.status) then
    .error "P2025"
  else if WinnerKeys (r.write s).winners ∧ ∀ n ∈ s.notifications, n.winnerId ≠ r.nextWinnerId then
    .ok (r.write s)
  else .error "P2002"

def transact (s : Records υ ρ) (r : Reroll υ ρ) (fate : Fate) : Records υ ρ × Option String :=
  match fate, rerolled s r with
  | .rolledBack error, _ => (s, some error)
  | _, .error error => (s, some error)
  | .lost error, .ok s' => (s', some error)
  | .committed, .ok s' => (s', none)

def Op.run : (e : Op υ ρ) → Records υ ρ → Records υ ρ × e.Reply
  | .findGiveaway, s => (s, s)
  | .findDue now page, s =>
    (s, (s.winners.filter fun winner =>
      winner.status = .selected ∧ dueAt now winner ∧ page winner.id).map Winner.id)
  | .expireOwn winnerId checkedAt expiredAt, s =>
    updateWinners s (fun winner =>
      winner.id = winnerId ∧ winner.status = .selected ∧ dueAt checkedAt winner) (expire expiredAt)
  | .claim winnerId claimedAt, s =>
    updateWinners s (fun winner =>
      winner.id = winnerId ∧ winner.status = .selected ∧ ¬dueAt claimedAt winner) (confirm claimedAt)
  | .expireDue winnerIds now, s =>
    updateWinners s (fun winner => winner.id ∈ winnerIds ∧ winner.status = .selected) (expire now)
  | .deliver winnerId status checkedAt deliveredAt, s =>
    updateWinners s (fun winner => winner.id = winnerId ∧ winner.status = status ∧
      (status = .selected → ¬dueAt checkedAt winner)) (handOver deliveredAt)
  | .reroll r fate, s => transact s r fate

end Transactions

abbrev Service (υ ρ α : Type) := Prog (Op υ ρ) Op.Reply String α

def findGiveaway : Service υ ρ (Records υ ρ) := Prog.perform Op.findGiveaway

def findDue (now : Nat) (page : Nat → Bool) : Service υ ρ (List Nat) :=
  Prog.perform (Op.findDue now page)

def expireOwn (winnerId checkedAt expiredAt : Nat) : Service υ ρ Bool :=
  Prog.perform (Op.expireOwn winnerId checkedAt expiredAt)

def claim (winnerId claimedAt : Nat) : Service υ ρ Bool := Prog.perform (Op.claim winnerId claimedAt)

def expireDue (winnerIds : List Nat) (now : Nat) : Service υ ρ Bool :=
  Prog.perform (Op.expireDue winnerIds now)

def deliver (winnerId : Nat) (status : WinnerStatus) (checkedAt deliveredAt : Nat) :
    Service υ ρ Bool := Prog.perform (Op.deliver winnerId status checkedAt deliveredAt)

def reroll (r : Reroll υ ρ) (fate : Fate) : Service υ ρ (Option String) :=
  Prog.perform (Op.reroll r fate)

/-! ## Calls -/

structure ClaimInputs (υ : Type) where
  userId : υ
  now : Nat
  checkedAt : Nat
  elapsed : Nat
  eligibility : Except String EligibilityState
  claimedAt : Nat

structure DeliverInputs where
  winnerId : Nat
  now : Nat
  checkedAt : Nat
  elapsed : Nat

structure RerollInputs where
  winnerId : Nat
  now : Nat
  nextWinnerId : Nat
  fate : Fate

section Calls

variable [DecidableEq υ]

/-- `claimGiveaway`. A completed giveaway is not activated any more, so that `findPublicGiveawayById`
only reads it twice. -/
def claimGiveaway (i : ClaimInputs υ) : Service υ ρ Unit := do
  let _ ← findGiveaway
  let giveaway ← findGiveaway
  if giveaway.giveaway.status ≠ .completed then .fail "Розыгрыш ещё не завершён."
  else
    match giveaway.winners.find? fun row => row.entryId = i.userId ∧ row.status ≠ .rerolled with
    | none => .fail "Для вас нет актуального приза."
    | some winner =>
      if winner.status = .claimed then pure ()
      else if winner.status ≠ .selected then .fail "Приз уже обработан."
      else if dueAt i.now winner then do
        let _ ← expireOwn winner.id i.checkedAt (i.checkedAt + i.elapsed)
        .fail "Срок подтверждения приза уже истёк."
      else
        match i.eligibility with
        | .error error => .fail error
        | .ok state =>
          if state ≠ .verified then
            .fail "Не удалось повторно подтвердить выполнение условий розыгрыша."
          else do
            let updated ← claim winner.id i.claimedAt
            if updated then pure ()
            else .fail "Срок подтверждения истёк или победитель уже изменён. Обновите экран."

def expireDueGiveawayClaims (now : Nat) (page : Nat → Bool) : Service υ ρ Unit := do
  let winnerIds ← findDue now page
  if winnerIds = [] then pure ()
  else do
    let _ ← expireDue winnerIds now
    pure ()

def resolveEffectiveWinnerStatus (winner : Winner υ) (now : Nat) : WinnerStatus :=
  if winner.status = .selected ∧ dueAt now winner then .expired else winner.status

def markManagedGiveawayWinnerDelivered (i : DeliverInputs) : Service υ ρ Unit := do
  let giveaway ← findGiveaway
  match giveaway.winners.find? fun row => row.id = i.winnerId with
  | none => .fail "Победитель не найден."
  | some winner =>
    if winner.status = .rerolled then .fail "Победитель не найден."
    else if resolveEffectiveWinnerStatus winner i.now ≠ .claimed ∧
        resolveEffectiveWinnerStatus winner i.now ≠ .selected then
      .fail "Выдачу можно отметить только для актуального победителя."
    else do
      let updated ← deliver winner.id winner.status i.checkedAt (i.checkedAt + i.elapsed)
      if updated then pure () else .fail "Состояние победителя изменилось. Обновите экран."

end Calls

section Rerolls

variable [LinearOrder υ] [LinearOrder ρ] (ranks : DrawRanks υ ρ)

def pickNextRerollCandidate (giveaway : Records υ ρ) (drawSeed : String) : Option (Entry υ ρ × ρ) :=
  ((((giveaway.entries.filter (·.eligibilityState = .verified)).map
    fun entry => (entry, ranks.rankOf drawSeed entry)).filter
      fun row => ¬giveaway.winners.any (·.entryId = row.1.userId)).insertionSort RankedBefore).head?

/-- The checks of `rerollManagedGiveawayWinner`, and what it then writes. -/
def prepareReroll (i : RerollInputs) (giveaway : Records υ ρ) : Except String (Reroll υ ρ) :=
  match giveaway.giveaway.status, giveaway.giveaway.drawSeed with
  | .completed, some drawSeed =>
    if drawSeed = "" then .error "Реролл доступен только после завершения розыгрыша."
    else
      match giveaway.winners.find? fun row => row.id = i.winnerId with
      | none => .error "Победитель для реролла не найден."
      | some winner =>
        if winner.status = .rerolled then .error "Победитель для реролла не найден."
        else if winner.status ≠ .selected ∧ winner.status ≠ .claimed ∧ winner.status ≠ .expired then
          .error "Реролл доступен только для актуального или просроченного места."
        else
          match pickNextRerollCandidate ranks giveaway drawSeed with
          | none => .error "Больше подходящих участников для реролла нет."
          | some (entry, drawRank) =>
            .ok {
              winnerId := winner.id, status := winner.status, prizeId := winner.prizeId
              rank := winner.rank, entryId := entry.userId, drawRank, now := i.now
              nextWinnerId := i.nextWinnerId
              claimDeadlineAt := giveaway.buildGiveawayClaimDeadlineAt i.now }
  | _, _ => .error "Реролл доступен только после завершения розыгрыша."

def rerollManagedGiveawayWinner (i : RerollInputs) : Service υ ρ Unit := do
  let giveaway ← findGiveaway
  match prepareReroll ranks i giveaway with
  | .error error => .fail error
  | .ok r => do
    let error ← reroll r i.fate
    match error with
    | some error => .fail error
    | none => pure ()

inductive Call (υ : Type)
  | claim (i : ClaimInputs υ)
  | expire (now : Nat) (page : Nat → Bool)
  | deliver (i : DeliverInputs)
  | reroll (i : RerollInputs)

def Call.program : Call υ → Service υ ρ Unit
  | .claim i => claimGiveaway i
  | .expire now page => expireDueGiveawayClaims now page
  | .deliver i => markManagedGiveawayWinnerDelivered i
  | .reroll i => rerollManagedGiveawayWinner ranks i

end Rerolls

end Maxim.Admin.ManagedGiveaway.Winners
