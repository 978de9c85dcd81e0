import Maxim.Moderation.RequiredSubscription.Statements
import Maxim.Library.Interleave

/-!
# Calls of the candidate store

Each method of the store as a program over its statements. Besides the workers
there are the other rules, which write claims, violations and events of their
own, the administrators, and the clock. A worker may stop for good between any
two statements.
-/

namespace Maxim.Moderation.RequiredSubscription

open Maxim.Library

inductive Op
  | insert (source : Source)
  | read (id : String)
  | claim (id token : String)
  | renewLease (id token : String)
  | assertLease (id token : String)
  /-- The clock goes on by `d₁` before `issuedAt` and by `d₂` after it. -/
  | freeze (input : FreezeInput) (d₁ d₂ : Nat)
  | persist (id token : String) (d₁ d₂ : Nat)
  | readEffects (id token : String)
  | receipt (id token : String) (receipt : Receipt)
  | beginBan (id token : String)
  | patch (id token : String) (patch : Patch)
  | claimReputation (id token : String)
  | finish (id token : String) (status : CandidateStatus) (errorCode : Option String) (delayMs : Nat)
  /-- The clock goes on. -/
  | pass (ms : Nat)
  | otherClaim (n : Nat) (claim : MessageClaim)
  | otherViolation (n : Nat) (violation : Violation)
  | otherEvent (n : Nat) (event : ModerationEvent)
  | administer (settings : String → Option ChatSettings) (messageHeld memberHeld : String → String → Bool)
      (globalUserHeld : String → Bool)

def Op.Reply : Op → Type
  | .insert _ | .claim _ _ | .renewLease _ _ | .receipt _ _ _ | .beginBan _ _ | .patch _ _ _
  | .claimReputation _ _ | .finish _ _ _ _ _ => Nat
  | .read _ => Except String (Option Row)
  | .assertLease _ _ => Bool
  | .freeze _ _ _ => Except String FreezeResult
  | .persist _ _ _ _ => Except String ModerationEvent
  | .readEffects _ _ => Option Effects
  | .pass _ | .otherClaim _ _ | .otherViolation _ _ | .otherEvent _ _ | .administer _ _ _ _ => Unit

/-- A transaction commits or leaves the tables as they were; the clock goes on. -/
def transaction {α : Type} (db : Db) (clock : Nat) (result : Except String (Db × α)) :
    Db × Except String α :=
  match result with
  | .error e => ({ db with clock }, .error e)
  | .ok (next, a) => ({ next with clock }, .ok a)

def leased (db : Db) (id token : String) : Option Row :=
  (db.rows id).filter (·.ownedBy token db.clock)

def Op.run (sha256 : String → String) : (e : Op) → Db → Db × e.Reply
  | .insert source, db => db.insert sha256 source
  | .read id, db => (db, readWith sha256 db id)
  | .claim id token, db => db.update id (claimGuard db.clock) (claimData db.clock token)
  | .renewLease id token, db =>
    db.update id (·.ownedBy token db.clock) ({ · with leaseExpiresAt := some (db.clock + LEASE_MS) })
  | .assertLease id token, db => (db, (leased db id token).isSome)
  | .freeze input d₁ d₂, db =>
    transaction db (db.clock + d₁ + d₂)
      (freezeOwnClaimAndDecision sha256 input (db.clock + d₁) (db.clock + d₁ + d₂) db)
  | .persist id token d₁ d₂, db =>
    transaction db (db.clock + d₁ + d₂)
      (persistDeterministicEvent sha256 id token (db.clock + d₁) (db.clock + d₁ + d₂) db)
  | .readEffects id token, db => (db, (leased db id token).map (·.effects))
  | .receipt id token r, db => db.patch id token (fun row => r.guard row.effects) r.apply
  | .beginBan id token, db =>
    db.patch id token (beginBanGuard id db.clock)
      ({ · with phase := some .banStarted, actionKey := some (id ++ ":sanction-ban") })
  | .patch id token p, db => db.patch id token (fun _ => true) p.apply
  | .claimReputation id token, db =>
    db.patch id token (·.effects.reputation.isNone) ({ · with reputation := some .started })
  | .finish id token status errorCode delayMs, db =>
    db.update id (·.ownedBy token db.clock) (finishData db.clock status errorCode delayMs)
  | .pass ms, db => ({ db with clock := db.clock + ms }, ())
  | .otherClaim n c, db =>
    let other := { c with id := .generated n }
    (if conflicts db.claims other then db else { db with claims := db.claims ++ [other] }, ())
  | .otherViolation n v, db =>
    (if db.violations.any (·.id = .generated n) then db
      else { db with violations := db.violations ++ [{ v with id := .generated n }] }, ())
  | .otherEvent n e, db =>
    (if db.events.any (·.id = .generated n) then db
      else { db with events := db.events ++ [{ e with id := .generated n }] }, ())
  | .administer settings messageHeld memberHeld globalUserHeld, db =>
    ({ db with settings, messageHeld, memberHeld, globalUserHeld }, ())

abbrev Service (α : Type) := Prog Op Op.Reply String α

def read (id : String) : Service (Except String (Option Row)) := Prog.perform (Op.read id)

def assertLease (id token : String) : Service Unit :=
  (Prog.perform (Op.assertLease id token)).bind fun (held : Bool) =>
    if held then .ret () else .fail "Required-subscription candidate lease lost"

def readEffects (id token : String) : Service Effects :=
  (Prog.perform (Op.readEffects id token)).bind fun (effects : Option Effects) =>
    match effects with
    | some effects => .ret effects
    | none => .fail "Required-subscription candidate lease lost"

/-! ## Methods -/

inductive Answer
  | done
  | registered (id : String) (created : Bool)
  | claimed (row : Option Row)
  | frozen (result : FreezeResult)
  | event (event : ModerationEvent)
  | effects (effects : Effects)
  | began (started : Bool)
  | reputation (state : String)

def register (sha256 : String → String) (input : Source) : Service Answer :=
  match readRequiredSubscriptionCandidateSource input with
  | none => .fail "Invalid required-subscription candidate source"
  | some source =>
    let id := buildRequiredSubscriptionCandidateId sha256 source.toBinding
    (Prog.perform (Op.insert source)).bind fun (inserted : Nat) =>
    (read id).bind fun row =>
    match row with
    | .error e => .fail e
    | .ok row =>
      if row.map (·.source) = some source then .ret (.registered id (0 < inserted))
      else .fail "Required-subscription candidate immutable source conflict"

def claim (id token : String) : Service Answer :=
  (Prog.perform (Op.claim id token)).bind fun (count : Nat) =>
  if count = 0 then .ret (.claimed none)
  else (read id).bind fun row =>
    match row with
    | .error e => .fail e
    | .ok row =>
      if row.bind (·.leaseToken) = some token then .ret (.claimed row)
      else .fail "Required-subscription candidate claim lost"

def renewLease (id token : String) : Service Answer :=
  (Prog.perform (Op.renewLease id token)).bind fun (count : Nat) =>
  if count = 0 then .fail "Required-subscription candidate lease lost" else .ret .done

def freeze (input : FreezeInput) (d₁ d₂ : Nat) : Service Answer :=
  (Prog.perform (Op.freeze input d₁ d₂)).bind fun (result : Except String FreezeResult) =>
  match result with
  | .error e => .fail e
  | .ok result => .ret (.frozen result)

def persist (id token : String) (d₁ d₂ : Nat) : Service Answer :=
  (Prog.perform (Op.persist id token d₁ d₂)).bind fun (event : Except String ModerationEvent) =>
  match event with
  | .error e => .fail e
  | .ok event => .ret (.event event)

def Receipt.candidateId : Receipt → String
  | .notice receipt => receipt.candidateId
  | .delete receipt => receipt.candidateId

def Receipt.binding : Receipt → Binding
  | .notice receipt => receipt.binding
  | .delete receipt => receipt.binding

/-- What `recordReceipt` asks of a receipt of the row. -/
def Receipt.refused (row : Row) : Receipt → Option String
  | .notice receipt =>
    if trim receipt.receiptId = "" || 1024 < receipt.receiptId.length || trim receipt.noticeKey = "" ||
        2048 < receipt.noticeKey.length ||
        (receipt.kind = .noticeHandoff && receipt.noticeKey ≠ noticeKey row.columns) ||
        (row.frozenPlan.isNone && receipt.kind ≠ .mediaCoverage) then
      some "Invalid required-subscription notice receipt"
    else none
  | .delete receipt =>
    if receipt.reasonKey ≠ "REQUIRED_SUBSCRIPTION:message-delete" || receipt.rollout ≠ "execute" ||
        trim receipt.intentId = "" || 1024 < receipt.intentId.length then
      some "Invalid required-subscription DELETE receipt"
    else none

/-- `bytes` is the length of the text of the receipt. -/
def recordReceipt (id token : String) (receipt : Receipt) (bytes : Nat) : Service Answer :=
  (read id).bind fun row =>
  match row with
  | .error e => .fail e
  | .ok row =>
    match row.filter fun row => receipt.candidateId = id && receipt.binding.chatId = row.columns.chatId &&
        receipt.binding.userId = row.columns.userId && receipt.binding.messageId = row.columns.messageId &&
        receipt.binding.sourceAtMs = row.source.sourceAtMs &&
        receipt.binding.deadlineAtMs = row.source.deadlineAtMs &&
        receipt.binding.policySha256 = row.columns.policySha256 with
    | none => .fail "Required-subscription candidate receipt binding mismatch"
    | some row =>
      match receipt.refused row with
      | some e => .fail e
      | none =>
        if 8192 < bytes then .fail "Invalid required-subscription candidate receipt"
        else (Prog.perform (Op.receipt id token receipt)).bind fun (count : Nat) =>
          if count = 0 then .fail "Required-subscription candidate receipt conflict or lease lost"
          else .ret .done

def beginBan (id token : String) (receiptOnly : Bool) (actionKey : String) : Service Answer :=
  if actionKey ≠ id ++ ":sanction-ban" then
    .fail "Required-subscription BAN action binding mismatch"
  else if receiptOnly then .ret (.began false)
  else (Prog.perform (Op.beginBan id token)).bind fun (count : Nat) =>
    if count = 0 then (assertLease id token).bind fun _ => .ret (.began false)
    else .ret (.began true)

def patch (id token : String) (p : Patch) : Service Answer :=
  (Prog.perform (Op.patch id token p)).bind fun (count : Nat) =>
  if count = 0 then (assertLease id token).bind fun _ => .ret .done else .ret .done

def claimReputation (id token : String) : Service Answer :=
  (Prog.perform (Op.claimReputation id token)).bind fun (count : Nat) =>
  if count ≠ 0 then .ret (.reputation "run")
  else (readEffects id token).bind fun effects =>
    .ret (.reputation (if effects.reputation = some .done then "done" else "unknown"))

/-- `/^[A-Z0-9_]{1,100}$/`. -/
def validErrorCode (errorCode : String) : Bool :=
  1 ≤ errorCode.length && errorCode.length ≤ 100 &&
    errorCode.toList.all fun c => ('A' ≤ c && c ≤ 'Z') || c.isDigit || c = '_'

def finish (id token : String) (status : CandidateStatus) (errorCode : Option String) (delayMs : Nat) :
    Service Answer :=
  if 3600000 < delayMs || errorCode.any (fun code => code ≠ "" && !validErrorCode code) then
    .fail "Invalid required-subscription candidate completion"
  else (Prog.perform (Op.finish id token status errorCode delayMs)).bind fun (count : Nat) =>
    if count = 0 then .fail "Required-subscription candidate completion lease lost" else .ret .done

/-! ## Calls -/

inductive Call
  | register (input : Source)
  | claim (id token : String)
  | renewLease (id token : String)
  | assertLease (id token : String)
  | freeze (input : FreezeInput) (d₁ d₂ : Nat)
  | readEffects (id token : String)
  | persist (id token : String) (d₁ d₂ : Nat)
  | recordReceipt (id token : String) (receipt : Receipt) (bytes : Nat)
  | beginBan (id token : String) (receiptOnly : Bool) (actionKey : String)
  | patch (id token : String) (patch : Patch)
  | claimReputation (id token : String)
  /-- `status` is not `RUNNING`. -/
  | finish (id token : String) (status : CandidateStatus) (running : status ≠ .running)
      (errorCode : Option String) (delayMs : Nat)
  /-- What happens outside of the store. -/
  | pass (ms : Nat)
  | otherClaim (n : Nat) (claim : MessageClaim)
  | otherViolation (n : Nat) (violation : Violation)
  | otherEvent (n : Nat) (event : ModerationEvent)
  | administer (settings : String → Option ChatSettings) (messageHeld memberHeld : String → String → Bool)
      (globalUserHeld : String → Bool)

def outside (e : Op) : Service Answer := (Prog.perform e).bind fun _ => .ret .done

def Call.program (sha256 : String → String) : Call → Service Answer
  | .register input => RequiredSubscription.register sha256 input
  | .claim id token => RequiredSubscription.claim id token
  | .renewLease id token => RequiredSubscription.renewLease id token
  | .assertLease id token => (RequiredSubscription.assertLease id token).bind fun _ => .ret .done
  | .freeze input d₁ d₂ => RequiredSubscription.freeze input d₁ d₂
  | .readEffects id token =>
    (RequiredSubscription.readEffects id token).bind fun effects => .ret (.effects effects)
  | .persist id token d₁ d₂ => RequiredSubscription.persist id token d₁ d₂
  | .recordReceipt id token receipt bytes =>
    RequiredSubscription.recordReceipt id token receipt bytes
  | .beginBan id token receiptOnly actionKey =>
    RequiredSubscription.beginBan id token receiptOnly actionKey
  | .patch id token p => RequiredSubscription.patch id token p
  | .claimReputation id token => RequiredSubscription.claimReputation id token
  | .finish id token status _ errorCode delayMs =>
    RequiredSubscription.finish id token status errorCode delayMs
  | .pass ms => outside (.pass ms)
  | .otherClaim n c => outside (.otherClaim n c)
  | .otherViolation n v => outside (.otherViolation n v)
  | .otherEvent n e => outside (.otherEvent n e)
  | .administer settings messageHeld memberHeld globalUserHeld =>
    outside (.administer settings messageHeld memberHeld globalUserHeld)

end Maxim.Moderation.RequiredSubscription

/-!
## What one step does to the candidate tables

A step leaves the authority of every candidate as it is, registers one, or
freezes one decision. A freeze writes the plan, the claim on the message
action and the strike together, or nothing.
-/

namespace Maxim.Moderation.RequiredSubscription

open Maxim.Library

variable {sha256 : String → String} {db next : Db} {id : String}

/-! ## Freezing -/

/-- One decision is frozen at `issuedAt`. -/
structure Freezes (sha256 : String → String) (db : Db) (id : String) (issuedAt : Nat) (row : Row)
    (plan : FrozenPlan) (next : Db) : Prop where
  found : db.rows id = some row
  columns : row.columns = row.source.toBinding
  unplanned : row.frozenPlan = none
  free : conflicts db.claims (ownClaim sha256 id row.columns issuedAt) = false
  count : plan.violationCount24h = strikes (db.violations ++ [ownViolation id row.columns issuedAt])
    row.columns.chatId row.columns.userId
    (windowStart db.events row.columns.chatId row.columns.userId issuedAt) issuedAt
  issued : plan.sanction.issuedAtMs = issuedAt
  source : plan.source = row.source
  rows : ∃ updatedAt, next.rows = Function.update db.rows id
    (some { row with frozenPlan := some plan, claimId := some (.candidate id), updatedAt })
  claims : next.claims = db.claims ++ [ownClaim sha256 id row.columns issuedAt]
  violations : next.violations = db.violations ++ [ownViolation id row.columns issuedAt]

theorem readWith_some {row : Row} (h : readWith sha256 db id = .ok (some row)) :
    db.rows id = some row ∧ row.columns = row.source.toBinding ∧
      id = buildRequiredSubscriptionCandidateId sha256 row.columns := by
  unfold readWith at h
  split at h
  · cases h
  next stored hrow =>
    split at h
    next hagree =>
      cases h
      simp only [Row.agrees, Bool.and_eq_true, decide_eq_true_eq] at hagree
      obtain ⟨⟨⟨⟨-, hid⟩, hcol⟩, -⟩, -⟩ := hagree
      exact ⟨hrow, hcol, hcol ▸ hid⟩
    · cases h

theorem checkedPlan_some {input : FreezeInput} {source : Source} {settings : ChatSettings}
    {n issuedAt : Nat} {plan : FrozenPlan}
    (h : checkedPlan input source settings n issuedAt = some plan) :
    plan.violationCount24h = n ∧ plan.sanction.issuedAtMs = issuedAt ∧ plan.source = source := by
  obtain ⟨-, hcheck⟩ := Option.filter_eq_some_iff.mp h
  simp only [Bool.and_eq_true, decide_eq_true_eq] at hcheck
  obtain ⟨⟨⟨⟨hvalid, hn⟩, hissued⟩, -⟩, -⟩ := hcheck
  refine ⟨hn, hissued, ?_⟩
  simp only [validPlan, Bool.and_eq_true, decide_eq_true_eq] at hvalid
  exact hvalid.1.1.1.1.1.2

theorem freezeDecision_cases {input : FreezeInput} {row : Row} {settings : ChatSettings}
    {issuedAt savedAt : Nat} {result : FreezeResult} (hrow : db.rows input.id = some row)
    (hcol : row.columns = row.source.toBinding)
    (h : freezeDecision sha256 input row settings issuedAt savedAt db = .ok (next, result)) :
    next = db ∨ ∃ plan, Freezes sha256 db input.id issuedAt row plan next := by
  unfold freezeDecision at h
  dsimp only at h
  split at h
  · cases h
  split at h
  · cases h
    exact .inl rfl
  next hfree =>
    split at h
    · cases h
    split at h
    · cases h
    next plan hplan =>
      split at h
      next hguard =>
        cases h
        obtain ⟨hcount, hissued, hsource⟩ := checkedPlan_some hplan
        simp only [Bool.and_eq_true, Option.isNone_iff_eq_none] at hguard
        exact .inr ⟨plan, hrow, hcol, hguard.1.2, by simpa using hfree, hcount, hissued, hsource,
          ⟨_, rfl⟩, rfl, rfl⟩
      · cases h

theorem freeze_cases {input : FreezeInput} {issuedAt savedAt : Nat} {result : FreezeResult}
    (h : freezeOwnClaimAndDecision sha256 input issuedAt savedAt db = .ok (next, result)) :
    next = db ∨ ∃ row plan, Freezes sha256 db input.id issuedAt row plan next := by
  unfold freezeOwnClaimAndDecision at h
  split at h
  · cases h
  · cases h
  next row hread =>
    obtain ⟨hrow, hcol, -⟩ := readWith_some hread
    split at h
    · cases h
    split at h
    · cases h
      exact .inl rfl
    · split at h
      · cases h
        exact .inl rfl
      split at h
      · cases h
        exact .inl rfl
      split at h
      · cases h
        exact .inl rfl
      · split at h
        · cases h
          exact .inl rfl
        split at h
        · cases h
          exact .inl rfl
        · rcases freezeDecision_cases hrow hcol h with hsame | ⟨plan, hfreeze⟩
          · exact .inl hsame
          · exact .inr ⟨row, plan, hfreeze⟩

/-! ## Changes -/

/-- The row keeps its source, its deadline, its policy, its plan and its claim. -/
structure Row.Keeps (row next : Row) : Prop where
  columns : next.columns = row.columns
  source : next.source = row.source
  frozenPlan : next.frozenPlan = row.frozenPlan
  claimId : next.claimId = row.claimId

/-- What one step does to the rows, the claims and the violations. -/
inductive Change (sha256 : String → String) (db next : Db) : Prop
  /-- Other rules may have written. -/
  | outside {claims : List MessageClaim} {violations : List Violation} (hrows : next.rows = db.rows)
      (hclaims : next.claims = db.claims ++ claims)
      (hfree : ∀ c ∈ claims, (∃ n, c.id = .generated n) ∧ conflicts db.claims c = false)
      (hone : claims.length ≤ 1)
      (hviolations : next.violations = db.violations ++ violations)
      (hother : ∀ v ∈ violations, ∃ n, v.id = .generated n)
  | registers {id : String} {row : Row} (hnew : db.rows id = none)
      (hrows : next.rows = Function.update db.rows id (some row)) (hplan : row.frozenPlan = none)
      (hclaim : row.claimId = none) (hcolumns : row.columns = row.source.toBinding)
      (hclaims : next.claims = db.claims) (hviolations : next.violations = db.violations)
  | updates {id : String} {row row' : Row} (hrow : db.rows id = some row) (hkeeps : row.Keeps row')
      (hrows : next.rows = Function.update db.rows id (some row')) (hclaims : next.claims = db.claims)
      (hviolations : next.violations = db.violations)
  | freezes {id : String} {issuedAt : Nat} {row : Row} {plan : FrozenPlan}
      (hstart : db.clock ≤ issuedAt) (hend : issuedAt ≤ next.clock)
      (hfreeze : Freezes sha256 db id issuedAt row plan next)

theorem Change.same (hrows : next.rows = db.rows) (hclaims : next.claims = db.claims)
    (hviolations : next.violations = db.violations) : Change sha256 db next :=
  @Change.outside sha256 db next [] [] hrows (by simp [hclaims]) (by simp) (by simp)
    (by simp [hviolations]) (by simp)

theorem update_change {guard : Row → Bool} {data : Row → Row} (hkeeps : ∀ row : Row, row.Keeps (data row)) :
    Change sha256 db (db.update id guard data).1 := by
  unfold Db.update
  split
  · exact .same rfl rfl rfl
  next row hrow =>
    split
    · exact .updates hrow (hkeeps row) rfl rfl rfl
    · exact .same rfl rfl rfl

theorem transaction_change {α : Type} {clock : Nat} {result : Except String (Db × α)}
    (h : ∀ next a, result = .ok (next, a) → Change sha256 db { next with clock }) :
    Change sha256 db (transaction db clock result).1 := by
  unfold transaction
  split
  · exact .same rfl rfl rfl
  next next a => exact h next a rfl

theorem persist_cases {token : String} {finalNow savedAt : Nat} {event : ModerationEvent}
    (h : persistDeterministicEvent sha256 id token finalNow savedAt db = .ok (next, event)) :
    ∃ row row', db.rows id = some row ∧ row.Keeps row' ∧
      row'.effects.currentPhase = .sqlCommitted ∧
      next.rows = Function.update db.rows id (some row') ∧ next.claims = db.claims ∧
      next.violations = db.violations := by
  unfold persistDeterministicEvent at h
  split at h
  · cases h
  · cases h
  next row hread =>
    obtain ⟨hrow, -, -⟩ := readWith_some hread
    split at h
    · cases h
    next plan hplan =>
      split at h
      · cases h
      dsimp only at h
      split at h
      · cases h
      split at h
      · cases h
      split at h
      · cases h
      · cases h
        let effects := { row.effects with
          phase := some .sqlCommitted, eventId := some plan.sanction.eventId }
        exact ⟨row, { row with effects, updatedAt := savedAt }, hrow, ⟨rfl, rfl, rfl, rfl⟩, rfl, rfl,
          rfl, rfl⟩

theorem op_change (e : Op) (db : Db) : Change sha256 db (e.run sha256 db).1 := by
  cases e with
  | insert source =>
    simp only [Op.run, Db.insert]
    split
    · exact .same rfl rfl rfl
    next hnew => exact .registers hnew rfl rfl rfl rfl rfl rfl
  | read => exact .same rfl rfl rfl
  | claim => exact update_change fun row => ⟨rfl, rfl, rfl, rfl⟩
  | renewLease => exact update_change fun row => ⟨rfl, rfl, rfl, rfl⟩
  | assertLease => exact .same rfl rfl rfl
  | freeze input d₁ d₂ =>
    refine transaction_change fun next a h => ?_
    rcases freeze_cases h with rfl | ⟨row, plan, hf⟩
    · exact .same rfl rfl rfl
    · have hf' : Freezes sha256 db input.id (db.clock + d₁) row plan
          { next with clock := db.clock + d₁ + d₂ } :=
        ⟨hf.found, hf.columns, hf.unplanned, hf.free, hf.count, hf.issued, hf.source, hf.rows,
          hf.claims, hf.violations⟩
      exact .freezes (Nat.le_add_right _ _) (Nat.le_add_right _ _) hf'
  | persist id token d₁ d₂ =>
    refine transaction_change fun next a h => ?_
    obtain ⟨row, row', hrow, hkeeps, -, hrows, hclaims, hviolations⟩ := persist_cases h
    exact .updates hrow hkeeps hrows hclaims hviolations
  | readEffects => exact .same rfl rfl rfl
  | receipt => exact update_change fun row => ⟨rfl, rfl, rfl, rfl⟩
  | beginBan => exact update_change fun row => ⟨rfl, rfl, rfl, rfl⟩
  | patch => exact update_change fun row => ⟨rfl, rfl, rfl, rfl⟩
  | claimReputation => exact update_change fun row => ⟨rfl, rfl, rfl, rfl⟩
  | finish => exact update_change fun row => ⟨rfl, rfl, rfl, rfl⟩
  | pass => exact .same rfl rfl rfl
  | otherClaim n c =>
    simp only [Op.run]
    split
    · exact .same rfl rfl rfl
    next hfree =>
      refine @Change.outside sha256 db _ [_] [] rfl rfl ?_ le_rfl (by simp) (by simp)
      intro c' hc'
      rw [List.mem_singleton.mp hc']
      exact ⟨⟨n, rfl⟩, by simpa using hfree⟩
  | otherViolation n v =>
    simp only [Op.run]
    split
    · exact .same rfl rfl rfl
    · refine @Change.outside sha256 db _ [] [_] rfl (by simp) (by simp) (by simp) rfl ?_
      intro v' hv'
      rw [List.mem_singleton.mp hv']
      exact ⟨n, rfl⟩
  | otherEvent n e =>
    simp only [Op.run]
    split
    · exact .same rfl rfl rfl
    · exact .same rfl rfl rfl
  | administer => exact .same rfl rfl rfl

/-- The clock never goes back. -/
theorem op_clock (e : Op) (db : Db) : db.clock ≤ (e.run sha256 db).1.clock := by
  have hupdate : ∀ id guard data, (db.update id guard data).1.clock = db.clock := by
    intro id guard data
    unfold Db.update
    split
    · rfl
    · split
      · rfl
      · rfl
  have htransaction : ∀ {α : Type} (clock : Nat) (result : Except String (Db × α)),
      (transaction db clock result).1.clock = clock := by
    intro α clock result
    unfold transaction
    split
    · rfl
    · rfl
  cases e with
  | insert source =>
    simp only [Op.run, Db.insert]
    split
    · exact Nat.le_refl _
    · exact Nat.le_refl _
  | freeze input d₁ d₂ =>
    simp only [Op.run, htransaction]
    omega
  | persist id token d₁ d₂ =>
    simp only [Op.run, htransaction]
    omega
  | claim => exact (hupdate _ _ _).ge
  | renewLease => exact (hupdate _ _ _).ge
  | receipt => exact (hupdate _ _ _).ge
  | beginBan => exact (hupdate _ _ _).ge
  | patch => exact (hupdate _ _ _).ge
  | claimReputation => exact (hupdate _ _ _).ge
  | finish => exact (hupdate _ _ _).ge
  | pass ms => exact Nat.le_add_right _ _
  | otherClaim n c =>
    simp only [Op.run]
    split <;> exact Nat.le_refl _
  | otherViolation n v =>
    simp only [Op.run]
    split <;> exact Nat.le_refl _
  | otherEvent n e =>
    simp only [Op.run]
    split <;> exact Nat.le_refl _
  | read => exact Nat.le_refl _
  | assertLease => exact Nat.le_refl _
  | readEffects => exact Nat.le_refl _
  | administer => exact Nat.le_refl _

end Maxim.Moderation.RequiredSubscription
