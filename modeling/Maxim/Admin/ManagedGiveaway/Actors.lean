import Maxim.Admin.ManagedGiveaway.Programs
import Maxim.Library.Protocol

/-!
# What an actor may do, and when

A publisher writes the published status after it has acquired the lock of the
publication. A draw claims the giveaway in the status that it has read, and a
failed one restores that status. The results are published only of a giveaway
that was completed.
-/

namespace Maxim.Admin.ManagedGiveaway

open Maxim.Library

inductive Stage
  | idle
  | read (row : Giveaway)
  | locked (lockAt : Nat) (key : Option String)
  | refused (initial : Giveaway)
  | drawing (initial : Status)
  | results

/-- The call has seen the giveaway completed. -/
def Stage.completed : Stage → Prop
  | .read row => row.status = .completed
  | .results => True
  | _ => False

def Call.runner : Call → Bool
  | .processDue _ _ _ _ => true
  | _ => false

def Update.may (i : Call) (q : Stage) : Update → Prop
  | .publish next _ => (next = .scheduled ∨ next = .active) ∧ ∃ lockAt key, q = .locked lockAt key
  | .recoverPublication _ _ next _ => next = .scheduled ∨ next = .active
  | .cancel status => status = .draft ∨ status = .scheduled ∨ status = .active
  | .claimDraw initial _ _ => q = .read initial
  | .resumeDraw _ _ _ => ∃ initial, q = .refused initial
  | .restoreDraw _ _ status => ∃ initial, q = .drawing initial ∧ status = restoredStatus i.runner initial
  | .release .results _ _ _ | .lockResults _ _ | .writeResults _ | .unlockResults _ _ _
  | .recoverResults _ _ _ => q.completed
  | _ => True

def Update.next (q : Stage) : Update → Bool → Stage
  | .acquirePublication _ lockAt key, true => .locked lockAt key
  | .publish _ _, _ | .unlockPublication _ _, _ | .restoreDraw _ _ _, _ => .idle
  | .claimDraw initial _ _, claimed => if claimed then .drawing initial.status else .refused initial
  | .resumeDraw _ _ _, true =>
    match q with
    | .refused initial => .drawing initial.status
    | q => q
  | .completeDraw _ _, true => .results
  | _, _ => q

def actor : Protocol Call Op Op.Reply Stage where
  init := .idle
  may i q
    | .find => True
    | .update _ u => u.may i q
  next q
    | .find, row =>
      match q with
      | .idle | .read _ => .read row
      | q => q
    | .update _ u, r => u.next q r

section Programs

variable {i : Call} {q : Stage} {α : Type}

theorem follows_find {f : Giveaway → Service α}
    (hf : ∀ row, (f row).Follows actor i (actor.next q .find row)) :
    (find >>= f).Follows actor i q := ⟨trivial, hf⟩

theorem follows_update {now : Nat} {u : Update} {f : Bool → Service α} (hu : u.may i q)
    (hf : ∀ r, (f r).Follows actor i (u.next q r)) : (update now u >>= f).Follows actor i q := ⟨hu, hf⟩

/-- All that the reconciliation does to the row is the release of a stale lock. -/
theorem reconcile_ops {P : Op → Prop} (v : Services) (giveaway : Giveaway) (phase : Phase) (now : Nat)
    (ledger : Ledger) (hP : ∀ lockedAt key kept, P (.update now (.release phase lockedAt key kept))) :
    (reconcileStaleGiveawaySendLock v giveaway phase now ledger).Ops P := by
  rw [reconcileStaleGiveawaySendLock]
  cases giveaway.lockedAt with
  | none => trivial
  | some lockedAt =>
    dsimp only
    split
    · trivial
    · cases ledger with
      | free => exact ⟨hP _ _ _, fun released => trivial⟩
      | _ => trivial

theorem nextStatus_published (giveaway : Giveaway) (now : Nat) :
    nextStatus giveaway now = .scheduled ∨ nextStatus giveaway now = .active := by
  rw [nextStatus]
  split
  · exact .inl rfl
  · exact .inr rfl

theorem publishLocked_follows (v : Services) (p : PublishInputs) (giveaway : Giveaway)
    {next : Status} (hnext : next = .scheduled ∨ next = .active) :
    (publishLocked v p giveaway next).Follows actor i q := by
  rw [publishLocked]
  split
  · trivial
  split
  · trivial
  split
  · trivial
  refine follows_update trivial fun locked => ?_
  cases locked
  · trivial
  · cases p.send with
    | accepted messageId => exact follows_update ⟨hnext, _, _, rfl⟩ fun _ => trivial
    | failed message ambiguous =>
      cases ambiguous
      · exact follows_update trivial fun _ => trivial
      · trivial

theorem publish_follows (v : Services) (p : PublishInputs) :
    (publishManagedGiveaway v p).Follows actor i .idle := by
  refine follows_find fun giveaway => ?_
  split
  · trivial
  split
  · trivial
  cases giveaway.lockedAt with
  | none => exact publishLocked_follows v p giveaway (nextStatus_published giveaway p.now)
  | some lockedAt =>
    refine Prog.follows_of_stays (reconcile_ops v giveaway .publication p.now p.ledger
      fun _ _ _ => ⟨trivial, fun _ => rfl⟩) fun r => ?_
    cases r with
    | blocked => trivial
    | completed messageId =>
      refine follows_update (nextStatus_published giveaway p.now) fun recovered => ?_
      cases recovered
      · refine follows_find fun current => ?_
        split <;> trivial
      · trivial
    | retryable =>
      refine follows_find fun giveaway => ?_
      exact publishLocked_follows v p giveaway (nextStatus_published giveaway p.retryAt)

theorem cancel_follows (canceledAt : Nat) :
    (cancelManagedGiveaway canceledAt).Follows actor i .idle := by
  refine follows_find fun giveaway => ?_
  split
  · next hstatus =>
    refine follows_update hstatus fun canceled => ?_
    cases canceled <;> trivial
  · trivial

def Update.republishes : Update → Bool
  | .release phase _ _ _ => phase == .results
  | .lockResults _ _ | .writeResults _ | .unlockResults _ _ _ | .recoverResults _ _ _
  | .replaceResults _ _ _ _ => true
  | _ => false

def Op.Republishes (e : Op) : Prop := ∃ now u, e = .update now u ∧ u.republishes = true

theorem update_republishes {now : Nat} {u : Update} {f : Bool → Service α} (hu : u.republishes = true)
    (hf : ∀ r, (f r).Ops Op.Republishes) : (update now u >>= f).Ops Op.Republishes :=
  ⟨⟨now, u, rfl, hu⟩, hf⟩

theorem sendResults_republishes (v : Services) {edit : Giveaway → Service Bool} (p : ResultsInputs)
    (giveaway : Giveaway) (hedit : ∀ g, (edit g).Ops Op.Republishes) :
    (sendResults v edit p giveaway).Ops Op.Republishes := by
  refine update_republishes rfl fun locked => ?_
  cases locked
  · trivial
  cases p.send with
  | accepted messageId =>
    refine update_republishes rfl fun _ => ?_
    split
    · exact hedit _
    · trivial
  | failed message ambiguous =>
    cases ambiguous
    · exact update_republishes rfl fun _ => trivial
    · trivial

theorem republishWith_republishes (v : Services) {edit : Giveaway → Service Bool} (p : ResultsInputs)
    (giveaway : Giveaway) (hedit : ∀ g, (edit g).Ops Op.Republishes) :
    (republishWith v edit p giveaway).Ops Op.Republishes := by
  rw [republishWith]
  split
  · exact hedit _
  split
  · trivial
  cases giveaway.lockedAt with
  | none => exact sendResults_republishes v p giveaway hedit
  | some lockedAt =>
    refine Prog.Ops.bind (reconcile_ops v giveaway .results p.now p.ledger
      fun _ _ _ => ⟨_, _, rfl, rfl⟩) fun r => ?_
    cases r with
    | blocked => trivial
    | retryable => exact sendResults_republishes v p giveaway hedit
    | completed messageId =>
      refine update_republishes rfl fun recovered => ?_
      cases recovered
      · trivial
      · exact hedit _

theorem edit_republishes (v : Services) (edited : Bool) (replacements : List (Nat × ResultsInputs))
    (giveaway : Giveaway) :
    (editGiveawayResultsMessage v edited replacements giveaway).Ops Op.Republishes := by
  induction replacements generalizing giveaway with
  | nil => trivial
  | cons head rest ih =>
    rw [editGiveawayResultsMessage]
    cases nullableString giveaway.resultsMessageId with
    | none => trivial
    | some resultsMessageId =>
      refine update_republishes rfl fun replaced => ?_
      cases replaced
      · trivial
      · rw [if_pos rfl]
        exact republishWith_republishes v head.2 _ ih

theorem republish_republishes (v : Services) (p : ResultsInputs) (e : EditInputs)
    (giveaway : Giveaway) : (republishGiveawayResults v p e giveaway).Ops Op.Republishes :=
  republishWith_republishes v p giveaway fun g => edit_republishes v e.edited e.replacements g

/-- The publication of the results leaves the stage as it is. -/
theorem republish_stays (v : Services) (p : ResultsInputs) (e : EditInputs) (giveaway : Giveaway)
    (hq : q.completed) : (republishGiveawayResults v p e giveaway).Ops (actor.Stays i q) := by
  refine (republish_republishes v p e giveaway).mono ?_
  rintro - ⟨now, u, rfl, hu⟩
  cases u with
  | release phase lockedAt key kept =>
    cases phase with
    | publication => cases hu
    | results => exact ⟨hq, fun _ => rfl⟩
  | lockResults | writeResults | unlockResults | recoverResults => exact ⟨hq, fun _ => rfl⟩
  | replaceResults => exact ⟨trivial, fun _ => rfl⟩
  | _ => cases hu

/-- A draw that holds its claim. -/
theorem drawn_follows (v : Services) (p : DrawInputs) {initial : Status} (hi : i.runner = p.runner)
    (giveaway : Giveaway) (drawSeed : String) :
    (drawClaimed v p initial giveaway drawSeed).Follows actor i (.drawing initial) := by
  have hrestore (message : String) :
      (restoreDraw p initial giveaway drawSeed message).Follows actor i (.drawing initial) :=
    follows_update ⟨initial, rfl, by rw [hi]⟩ fun _ => trivial
  rw [drawClaimed]
  cases p.failure with
  | some message => exact hrestore message
  | none =>
    refine follows_update trivial fun completed => ?_
    cases completed
    · exact hrestore _
    · refine Prog.follows_of_stays (republish_stays v p.results p.edits _ trivial) fun confirmed => ?_
      exact follows_find fun _ => trivial

section Claim

variable {initial : Giveaway} {f : DrawClaim → Service Result}
  (hcompleted : ∀ q, (f .completed).Follows actor i q)
  (hclaimed : ∀ giveaway drawSeed,
    (f (.claimed giveaway drawSeed)).Follows actor i (.drawing initial.status))

include hcompleted hclaimed

theorem resumeClaim_follows (current : Giveaway) (drawSeed : String) (now : Nat) :
    (resumeClaim current drawSeed now >>= f).Follows actor i (.refused initial) := by
  rw [resumeClaim]
  split
  · exact hcompleted _
  split
  · refine follows_update ⟨initial, rfl⟩ fun resumed => ?_
    cases resumed
    · trivial
    · exact follows_find fun giveaway => hclaimed giveaway _
  split <;> trivial

theorem claim_follows (drawSeed : String) (now : Nat) :
    (claimGiveawayForDraw initial drawSeed now >>= f).Follows actor i (.read initial) := by
  rw [claimGiveawayForDraw]
  split
  · exact hcompleted _
  refine follows_update rfl fun claimed => ?_
  cases claimed
  · exact follows_find fun current => resumeClaim_follows hcompleted hclaimed current drawSeed now
  · exact follows_find fun giveaway => hclaimed giveaway _

end Claim

theorem drawGiveaway_follows (v : Services) (p : DrawInputs) (hi : i.runner = p.runner)
    (row : Giveaway) : (drawGiveaway v p).Follows actor i (.read row) := by
  refine follows_find fun initial => ?_
  refine claim_follows (fun _ => ?_) (fun giveaway drawSeed => ?_) _ p.now
  · trivial
  · exact drawn_follows v p hi giveaway drawSeed

end Programs

/-- Every call keeps to what an actor may do. -/
theorem program_follows (i : Call) : i.program.Follows actor i .idle := by
  cases i with
  | publish v p => exact publish_follows v p
  | cancel canceledAt => exact cancel_follows canceledAt
  | close v p =>
    refine follows_find fun giveaway => ?_
    split
    · exact drawGiveaway_follows v _ rfl giveaway
    · trivial
  | processDue v now staleLockBefore p =>
    refine follows_find fun giveaway => ?_
    split
    · exact drawGiveaway_follows v _ rfl giveaway
    split
    · refine follows_update trivial fun claimed => ?_
      cases claimed
      · trivial
      · exact follows_find fun _ => trivial
    · trivial
  | activate now =>
    refine follows_find fun giveaway => ?_
    split
    · refine follows_update trivial fun activated => ?_
      cases activated
      · trivial
      · exact follows_find fun _ => trivial
    · trivial
  | refresh v p e =>
    refine follows_find fun giveaway => ?_
    split
    · next hcompleted =>
      exact Prog.follows_of_stays (republish_stays v p e giveaway hcompleted) fun _ => trivial
    · trivial
  | edit now description startsAt endsAt =>
    refine follows_find fun giveaway => ?_
    split
    · trivial
    refine follows_update trivial fun edited => ?_
    cases edited <;> trivial

end Maxim.Admin.ManagedGiveaway
