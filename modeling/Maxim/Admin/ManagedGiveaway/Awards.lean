import Maxim.Admin.ManagedGiveaway.Row
import Mathlib.Data.List.Sort
import Mathlib.Data.Prod.Lex
import Mathlib.Data.String.Basic
import Mathlib.Algebra.GroupWithZero.Nat

/-!
# Entries and winners of a managed giveaway

The tables beside the row. An entry is named by its user, who has one entry in
a giveaway. Users and draw ranks are compared as `localeCompare` compares them.
A winner that was rerolled stays in the table, and the partial unique indexes
leave it out.
-/

namespace Maxim.Admin.ManagedGiveaway

open Maxim.Library

variable {υ ρ : Type}

inductive EligibilityState
  | pending
  | verified
  | rejected
  deriving DecidableEq, Repr

inductive WinnerStatus
  | selected
  | claimed
  | delivered
  | expired
  | rerolled
  deriving DecidableEq, Repr

inductive NotificationStatus
  | pending
  | retryable
  | dispatching
  | sent
  | ambiguous
  | failedTerminal
  | canceled
  deriving DecidableEq, Repr

structure Prize where
  id : Nat
  position : Int
  deriving DecidableEq, Repr

structure Entry (υ ρ : Type) where
  userId : υ
  eligibilityState : EligibilityState := .pending
  drawRank : Option ρ := none
  checkedAt : Option Nat := none
  deriving DecidableEq, Repr

structure Winner (υ : Type) where
  id : Nat
  prizeId : Nat
  entryId : υ
  rank : Nat
  status : WinnerStatus := .selected
  selectedAt : Nat
  claimDeadlineAt : Option Nat
  claimedAt : Option Nat := none
  deliveredAt : Option Nat := none
  expiredAt : Option Nat := none
  rerolledAt : Option Nat := none
  deriving DecidableEq, Repr

structure Notification where
  winnerId : Nat
  status : NotificationStatus := .pending
  nextAttemptAt : Nat
  attemptCount : Nat := 0
  lockedAt : Option Nat := none
  deriving DecidableEq, Repr

/-- A giveaway with its relations. -/
structure Records (υ ρ : Type) where
  giveaway : Giveaway
  claimHours : Int
  prizes : List Prize
  entries : List (Entry υ ρ)
  winners : List (Winner υ)
  notifications : List Notification
  deriving DecidableEq, Repr

/-- What becomes of a transaction: it commits, it commits and the answer is lost, or it is rolled
back. -/
inductive Fate
  | committed
  | lost (error : String)
  | rolledBack (error : String)
  deriving DecidableEq, Repr

def Fate.commits : Fate → Bool
  | .rolledBack _ => false
  | _ => true

/-! ## Keys -/

def Winner.isActive (winner : Winner υ) : Bool := winner.status != .rerolled

/-- The primary key and the partial unique indexes `managed_giveaway_winners_active_prize_key` and
`managed_giveaway_winners_active_entry_key`. -/
structure WinnerKeys (winners : List (Winner υ)) : Prop where
  id : (winners.map Winner.id).Nodup
  activePrize : ((winners.filter Winner.isActive).map Winner.prizeId).Nodup
  activeEntry : ((winners.filter Winner.isActive).map Winner.entryId).Nodup

instance [DecidableEq υ] (winners : List (Winner υ)) : Decidable (WinnerKeys winners) :=
  decidable_of_iff ((winners.map Winner.id).Nodup ∧
      ((winners.filter Winner.isActive).map Winner.prizeId).Nodup ∧
      ((winners.filter Winner.isActive).map Winner.entryId).Nodup)
    ⟨fun h => ⟨h.1, h.2.1, h.2.2⟩, fun h => ⟨h.id, h.activePrize, h.activeEntry⟩⟩

theorem WinnerKeys.unique {winners : List (Winner υ)} (h : WinnerKeys winners) {a b : Winner υ}
    (ha : a ∈ winners) (hb : b ∈ winners) (he : a.id = b.id) : a = b :=
  List.inj_on_of_nodup_map h.id ha hb he

theorem Winner.isActive_iff {winner : Winner υ} : winner.isActive = true ↔ winner.status ≠ .rerolled := by
  simp [isActive]

/-! ## Ranks -/

/-- `createHash('sha256')` in hexadecimal, and the user ids as text. -/
structure DrawRanks (υ ρ : Type) where
  digest : String → ρ
  text : υ → String

def DrawRanks.buildManagedGiveawayDrawRank (ranks : DrawRanks υ ρ) (drawSeed : String) (userId : υ) : ρ :=
  ranks.digest (trim drawSeed ++ ":" ++ trim (ranks.text userId))

/-- `entry.drawRank ?? buildManagedGiveawayDrawRank(drawSeed, entry.userId)`. -/
def DrawRanks.rankOf (ranks : DrawRanks υ ρ) (drawSeed : String) (entry : Entry υ ρ) : ρ :=
  entry.drawRank.getD (ranks.buildManagedGiveawayDrawRank drawSeed entry.userId)

section Order

variable [LinearOrder υ] [LinearOrder ρ]

/-- By `drawRank`, then by `userId`. -/
abbrev RankedBefore (left right : Entry υ ρ × ρ) : Prop :=
  toLex (left.2, left.1.userId) ≤ toLex (right.2, right.1.userId)

instance : Std.Total (RankedBefore : Entry υ ρ × ρ → Entry υ ρ × ρ → Prop) :=
  ⟨fun _ _ => le_total _ _⟩

instance : IsTrans (Entry υ ρ × ρ) RankedBefore := ⟨fun _ _ _ => le_trans⟩

/-- The VERIFIED entries with their ranks, in order. -/
def DrawRanks.rankEntries (ranks : DrawRanks υ ρ) (drawSeed : String) (entries : List (Entry υ ρ)) :
    List (Entry υ ρ × ρ) :=
  ((entries.filter (·.eligibilityState = .verified)).map
    fun entry => (entry, ranks.rankOf drawSeed entry)).insertionSort RankedBefore

theorem DrawRanks.rankEntries_perm (ranks : DrawRanks υ ρ) (drawSeed : String)
    (entries : List (Entry υ ρ)) :
    ((ranks.rankEntries drawSeed entries).map Prod.fst).Perm
      (entries.filter (·.eligibilityState = .verified)) := by
  have hperm := (List.perm_insertionSort RankedBefore
    ((entries.filter (·.eligibilityState = .verified)).map
      fun entry => (entry, ranks.rankOf drawSeed entry))).map Prod.fst
  rwa [List.map_map, show Prod.fst ∘ (fun entry => (entry, ranks.rankOf drawSeed entry)) = id from rfl,
    List.map_id] at hperm

theorem DrawRanks.mem_rankEntries {ranks : DrawRanks υ ρ} {drawSeed : String}
    {entries : List (Entry υ ρ)} {row : Entry υ ρ × ρ} :
    row ∈ ranks.rankEntries drawSeed entries ↔
      row.1 ∈ entries ∧ row.1.eligibilityState = .verified ∧ row.2 = ranks.rankOf drawSeed row.1 := by
  rw [rankEntries, List.mem_insertionSort, List.mem_map]
  constructor
  · rintro ⟨entry, hentry, rfl⟩
    obtain ⟨hmem, hstate⟩ := List.mem_filter.mp hentry
    exact ⟨hmem, of_decide_eq_true hstate, rfl⟩
  · rintro ⟨hmem, hstate, hrank⟩
    exact ⟨row.1, List.mem_filter.mpr ⟨hmem, decide_eq_true hstate⟩, by rw [← hrank]⟩

theorem DrawRanks.rankEntries_sorted (ranks : DrawRanks υ ρ) (drawSeed : String)
    (entries : List (Entry υ ρ)) : (ranks.rankEntries drawSeed entries).Pairwise RankedBefore :=
  List.pairwise_insertionSort _ _

end Order

/-! ## Dates -/

def Records.buildGiveawayClaimDeadlineAt (giveaway : Records υ ρ) (base : Nat) : Option Nat :=
  some (base + (max 1 (min 336 giveaway.claimHours)).toNat * 60 * 60 * 1000)

end Maxim.Admin.ManagedGiveaway
