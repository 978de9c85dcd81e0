import Maxim.Max.ActionLedger.Operations

/-!
# What an operation does to a row

An operation writes at most the row of its own job. Every invariant of the
ledger is derived from the list of the rewrites of that row, with the
conditions under which the source makes them.
-/

namespace Maxim.Max.ActionLedger

def Op.key : Op → String
  | .read jobId | .claim jobId _ _ _ | .complete jobId _ _ _ _ | .release jobId _
  | .quarantine jobId _ _ _ => jobId
  | .createIfAbsent job _ | .createStarted job _ | .startFirst _ job _ | .startAgain _ job _
  | .startMember job _ _ | .prepare job | .succeed job _ | .settleFailure job _
  | .enqueueState job _ _ | .upsert job _ | .clearNoRoute job
  | .clearManagedBroadcast job => job.idempotencyKey
  | .prepareRetry r _ => r.jobId

abbrev Answered := (op : Op) × op.Answer

/-- What an answer authorises: the remote send of a job under a dispatch token, or a crash-fenced
member action. -/
inductive Grant
  | send (jobId dispatchToken : String)
  | member (job : Job)
  deriving DecidableEq

def Answered.grant : Answered → Option Grant
  | ⟨.claim jobId token _ _, true⟩ => some (.send jobId token)
  | ⟨.startMember job _ _, .started⟩ => some (.member job)
  | _ => none

def Answered.freed : Answered → Option (String × String)
  | ⟨.release jobId token, true⟩ => some (jobId, token)
  | _ => none

variable {jobId k : String}

theorem Answered.eq_of_grant_send {a : Answered} {token : String}
    (h : a.grant = some (.send jobId token)) :
    ∃ startedAt botId, a = ⟨.claim jobId token startedAt botId, true⟩ := by
  obtain ⟨op, r⟩ := a
  cases op with
  | claim jobId' token' startedAt botId =>
    cases r with
    | true =>
      obtain ⟨rfl, rfl⟩ := Grant.send.inj (Option.some.inj h)
      exact ⟨startedAt, botId, rfl⟩
    | false => simp [Answered.grant] at h
  | startMember => cases r <;> simp [Answered.grant] at h
  | _ => simp [Answered.grant] at h

theorem Answered.eq_of_freed {a : Answered} {token : String}
    (h : a.freed = some (jobId, token)) : a = ⟨.release jobId token, true⟩ := by
  obtain ⟨op, r⟩ := a
  cases op with
  | release jobId' token' =>
    cases r with
    | true =>
      obtain ⟨rfl, rfl⟩ := Prod.mk.inj (Option.some.inj h)
      rfl
    | false => simp [Answered.freed] at h
  | _ => simp [Answered.freed] at h

/-- The job and the mutation of an operation that may create a row. -/
def Op.creates : Op → Option (Job × Mutation)
  | .createIfAbsent job m | .createStarted job m | .startMember job m _ | .upsert job m =>
    some (job, m)
  | _ => none

/-- The start that an operation makes on a row. -/
def Op.starts : Op → Option (StartKind × Job × Mutation)
  | .startFirst kind job m | .startAgain kind job m => some (kind, job, m)
  | .startMember job m _ => some (.member, job, m)
  | _ => none

/-- The row of its job before and after an operation. -/
inductive Answered.Rewrites : Answered → Option Row → Option Row → Prop
  | same (x : Answered) (o : Option Row) (hx : x.grant = none) (hfree : x.freed = none) :
    Rewrites x o o
  | creates (x : Answered) (job : Job) (m : Mutation) (n : Nat)
    (hx : x.1.creates = some (job, m))
    (hgrant : ∀ held, x.1 = .startMember job m held → x.grant = some (.member job)) :
    Rewrites x none (some { buildPlainMutationInput m (buildCreateInput job) with
      attemptCount := n })
  | starts (x : Answered) (kind : StartKind) (job : Job) (m m' : Mutation) (row : Row)
    (hx : x.1.starts = some (kind, job, m)) (hm : m' = m ∨ m' = withoutFirstAttempt m)
    (hgrant : ∀ held, x.1 = .startMember job m held → x.grant = some (.member job))
    (hrow : kind.guard row = true) : Rewrites x (some row) (some (startData job m' row))
  | prepares (job : Job) (r : Bool) (row : Row) (hrow : (row.unfenced && row.unsettled) = true) :
    Rewrites ⟨.prepare job, r⟩ (some row) (some (buildUpdateInput job row))
  | succeeds (job : Job) (m : Mutation) (r : Bool) (row : Row)
    (hrow : row.remoteMessageId.isNone = true) :
    Rewrites ⟨.succeed job m, r⟩ (some row) (some (recordData job m row))
  | settles (job : Job) (m : Mutation) (r : Bool) (row : Row)
    (hrow : (row.remoteMessageId.isNone && row.unsettled) = true) :
    Rewrites ⟨.settleFailure job m, r⟩ (some row) (some (recordData job m row))
  | enqueues (job : Job) (statuses : List Status) (m : Mutation) (r : Bool) (row : Row)
    (hrow : (statuses.contains row.status && row.unsettled && row.unattempted &&
      row.completedAt.isNone) = true) :
    Rewrites ⟨.enqueueState job statuses m, r⟩ (some row) (some (recordData job m row))
  | upserts (job : Job) (m : Mutation) (r : Bool) (row : Row) :
    Rewrites ⟨.upsert job m, r⟩ (some row) (some (startData job m row))
  | claims (jobId token : String) (startedAt : Nat) (botId : String) (row : Row)
    (hrow : (row.unfenced && row.unsettled) = true) :
    Rewrites ⟨.claim jobId token startedAt botId, true⟩ (some row) (some { row with
      dispatchToken := some token, dispatchStartedAt := some startedAt
      dispatchBotId := some botId })
  | completes (jobId token remoteMessageId : String) (completedAt : Nat) (fault : Option Bool)
    (r : Option Bool) (row : Row) (hrow : row.claimedBy token = true) :
    Rewrites ⟨.complete jobId token remoteMessageId completedAt fault, r⟩ (some row)
      (some (completeData remoteMessageId completedAt row))
  | releases (jobId token : String) (row : Row) (hrow : row.claimedBy token = true) :
    Rewrites ⟨.release jobId token, true⟩ (some row) (some (releaseData row))
  | quarantines (jobId token : String) (error : ErrorColumns) (completedAt : Nat) (r : Bool)
    (row : Row) (hrow : row.claimedBy token = true) :
    Rewrites ⟨.quarantine jobId token error completedAt, r⟩ (some row)
      (some (quarantineData error completedAt row))
  | clears (x : Answered) (row : Row) (hx : x.grant = none) (hfree : x.freed = none)
    (hrow : row.unfenced = true) (hstatus : row.status = .failedTerminal) : Rewrites x (some row) none
  | retries (r : NightModeRetry) (b : Option Bool) (row : Row) (hrow : r.applies row = true) : 
    Rewrites ⟨.prepareRetry r true, b⟩ (some row) (some (r.data row))

/-! ## The rows of other jobs -/

theorem Ledger.update_lookup_ne (l : Ledger) (guard : Row → Bool)
    (data : Row → Row) (hk : k ≠ jobId) : (l.update jobId guard data).1.lookup k = l.lookup k := by
  rcases l.update_cases jobId guard data with h | ⟨row, -, -, h⟩ <;> rw [h]
  exact AList.lookup_insert_ne hk

theorem Ledger.createIfAbsent_lookup_ne (l : Ledger) (row : Row)
    (hk : k ≠ jobId) : (l.createIfAbsent jobId row).1.lookup k = l.lookup k := by
  rcases l.createIfAbsent_cases jobId row with h | ⟨-, h⟩ <;> rw [h]
  exact AList.lookup_insert_ne hk

theorem Ledger.delete_lookup_ne (l : Ledger) (guard : Row → Bool)
    (hk : k ≠ jobId) : (l.delete jobId guard).1.lookup k = l.lookup k := by
  rcases l.delete_cases jobId guard with h | ⟨row, -, -, h⟩ <;> rw [h]
  exact AList.lookup_erase_ne hk

theorem Ledger.upsert_lookup_ne (l : Ledger) (create : Row)
    (data : Row → Row) (hk : k ≠ jobId) : (l.upsert jobId create data).lookup k = l.lookup k := by
  unfold Ledger.upsert
  split <;> exact AList.lookup_insert_ne hk

theorem Ledger.updateStarted_cases (l : Ledger) (kind : StartKind) (job : Job) (m : Mutation) :
    (l.updateStarted kind job m).2 = false ∨ ∃ row m', l.lookup job.idempotencyKey = some row ∧
      (m' = m ∨ m' = withoutFirstAttempt m) ∧ kind.guard row = true ∧
      l.updateStarted kind job m = (l.insert job.idempotencyKey (startData job m' row), true) := by
  unfold Ledger.updateStarted Ledger.startFirst Ledger.startAgain
  rcases l.update_cases job.idempotencyKey
    (fun row => kind.guard row && row.firstAttemptAt.isNone) (startData job m) with
    h | ⟨row, hrow, hg, h⟩ <;> simp only [h]
  · rcases l.update_cases job.idempotencyKey
      (fun row => kind.guard row && row.firstAttemptAt.isSome)
      (startData job (withoutFirstAttempt m)) with h' | ⟨row, hrow, hg, h'⟩ <;> simp only [h']
    · exact .inl rfl
    · exact .inr ⟨row, _, hrow, .inr rfl, (Bool.and_eq_true_iff.mp hg).1, rfl⟩
  · exact .inr ⟨row, m, hrow, .inl rfl, (Bool.and_eq_true_iff.mp hg).1, rfl⟩

/-- A start either changes nothing, or finds no hold and no blocking row and writes its own row. -/
theorem Ledger.startMember_cases (l : Ledger) (job : Job) (m : Mutation) (held : Bool) :
    (l.startMember job m held).1 = l ∧ (l.startMember job m held).2 ≠ .started ∨
      held = false ∧ l.entries.any (fun e => e.2.blocks job e.1) = false ∧
      ∃ row, l.startMember job m held = (l.insert job.idempotencyKey row, .started) ∧
        (l.lookup job.idempotencyKey = none ∧ row = startedRow job m ∨
          ∃ old m', l.lookup job.idempotencyKey = some old ∧
            (m' = m ∨ m' = withoutFirstAttempt m) ∧ StartKind.guard .member old = true ∧
            row = startData job m' old) := by
  unfold Ledger.startMember
  split
  · exact .inl ⟨rfl, by simp⟩
  next hheld =>
  split
  · exact .inl ⟨rfl, by simp⟩
  next hblocks =>
  have hfree : held = false ∧ l.entries.any (fun e => e.2.blocks job e.1) = false :=
    ⟨Bool.eq_false_iff.mpr hheld, Bool.eq_false_iff.mpr hblocks⟩
  rcases l.updateStarted_cases .member job m with h | ⟨old, m', hold, hm, hg, h⟩
  · rcases hu : l.updateStarted .member job m with ⟨l', b⟩
    rw [hu] at h
    subst h
    rcases l.createIfAbsent_cases job.idempotencyKey (startedRow job m) with h' | ⟨hnone, h'⟩
    · simp only [h']
      exact .inl ⟨trivial, by simp⟩
    · simp only [h']
      exact .inr ⟨hfree.1, hfree.2, _, rfl, .inl ⟨hnone, rfl⟩⟩
  · simp only [h]
    exact .inr ⟨hfree.1, hfree.2, _, rfl, .inr ⟨old, m', hold, hm, hg, rfl⟩⟩

theorem Op.run_lookup_ne (op : Op) (l : Ledger) (hk : k ≠ op.key) :
    (op.run l).1.lookup k = l.lookup k := by
  cases op with
  | read => rfl
  | createIfAbsent | createStarted => exact l.createIfAbsent_lookup_ne _ hk
  | startFirst | startAgain | prepare | succeed | settleFailure | enqueueState | claim | release
  | quarantine => exact l.update_lookup_ne _ _ hk
  | startMember job m held =>
    rcases l.startMember_cases job m held with ⟨h, -⟩ | ⟨-, -, row, h, -⟩
    · exact congrArg (AList.lookup k) h
    · exact (congrArg (AList.lookup k ·.1) h).trans (AList.lookup_insert_ne hk)
  | upsert => exact l.upsert_lookup_ne _ _ hk
  | complete jobId token remote completedAt fault =>
    match fault with
    | none | some true => exact l.update_lookup_ne _ _ hk
    | some false => rfl
  | clearNoRoute | clearManagedBroadcast => exact l.delete_lookup_ne _ hk
  | prepareRetry r freshAccess =>
    cases freshAccess with
    | true => exact l.update_lookup_ne _ _ hk
    | false => rfl

/-! ## The row of the job -/

theorem Ledger.update_rewrites (l : Ledger) (op : Op) (r : Bool → op.Answer) (jobId : String)
    (guard : Row → Bool) (data : Row → Row)
    (hfalse : Answered.grant ⟨op, r false⟩ = none) (hfree : Answered.freed ⟨op, r false⟩ = none)
    (hdata : ∀ row, guard row = true →
      Answered.Rewrites ⟨op, r true⟩ (some row) (some (data row))) :
    Answered.Rewrites ⟨op, r (l.update jobId guard data).2⟩ (l.lookup jobId)
      ((l.update jobId guard data).1.lookup jobId) := by
  rcases l.update_cases jobId guard data with h | ⟨row, hrow, hg, h⟩ <;> rw [h]
  · exact .same _ _ hfalse hfree
  · rw [hrow, AList.lookup_insert]
    exact hdata row hg

theorem Ledger.createIfAbsent_rewrites (l : Ledger) (op : Op) (r : Bool → op.Answer)
    (jobId : String) (row : Row) (hfalse : Answered.grant ⟨op, r false⟩ = none)
    (hfree : Answered.freed ⟨op, r false⟩ = none)
    (hrow : Answered.Rewrites ⟨op, r true⟩ none (some row)) :
    Answered.Rewrites ⟨op, r (l.createIfAbsent jobId row).2⟩ (l.lookup jobId)
      ((l.createIfAbsent jobId row).1.lookup jobId) := by
  rcases l.createIfAbsent_cases jobId row with h | ⟨hnone, h⟩ <;> rw [h]
  · exact .same _ _ hfalse hfree
  · rw [hnone, AList.lookup_insert]
    exact hrow

theorem Ledger.delete_rewrites (l : Ledger) (op : Op) (r : Bool → op.Answer) (jobId : String)
    (guard : Row → Bool) (hr : ∀ b, Answered.grant ⟨op, r b⟩ = none)
    (hfree : ∀ b, Answered.freed ⟨op, r b⟩ = none)
    (hguard : ∀ row, guard row = true → row.unfenced = true ∧ row.status = .failedTerminal) :
    Answered.Rewrites ⟨op, r (l.delete jobId guard).2⟩ (l.lookup jobId)
      ((l.delete jobId guard).1.lookup jobId) := by
  rcases l.delete_cases jobId guard with h | ⟨row, hrow, hg, h⟩ <;> rw [h]
  · exact .same _ _ (hr false) (hfree false)
  · rw [hrow, AList.lookup_erase]
    exact .clears _ row (hr true) (hfree true) (hguard row hg).1 (hguard row hg).2

/-- Every operation makes one of the listed rewrites of the row of its job. -/
theorem Op.run_rewrites (op : Op) (l : Ledger) :
    Answered.Rewrites ⟨op, (op.run l).2⟩ (l.lookup op.key) ((op.run l).1.lookup op.key) := by
  cases op with
  | read => exact .same _ _ rfl rfl
  | createIfAbsent job m =>
    exact l.createIfAbsent_rewrites (.createIfAbsent job m) id _ _ rfl rfl (.creates _ job m 0 rfl nofun)
  | createStarted job m =>
    exact l.createIfAbsent_rewrites (.createStarted job m) id _ _ rfl rfl (.creates _ job m _ rfl nofun)
  | startFirst kind job m =>
    exact l.update_rewrites (.startFirst kind job m) id _ _ _ rfl rfl fun row hrow =>
      .starts _ kind job m m row rfl (.inl rfl) nofun (Bool.and_eq_true_iff.mp hrow).1
  | startAgain kind job m =>
    exact l.update_rewrites (.startAgain kind job m) id _ _ _ rfl rfl fun row hrow =>
      .starts _ kind job m _ row rfl (.inr rfl) nofun (Bool.and_eq_true_iff.mp hrow).1
  | startMember job m held =>
    change Answered.Rewrites ⟨.startMember job m held, (l.startMember job m held).2⟩
      (l.lookup job.idempotencyKey) ((l.startMember job m held).1.lookup job.idempotencyKey)
    rcases l.startMember_cases job m held with ⟨hl, hr⟩ | ⟨-, -, row, h, hrow⟩
    · rw [hl]
      refine .same _ _ ?_ rfl
      cases hs : (l.startMember job m held).2 with
      | started => exact absurd hs hr
      | _ => rfl
    · rw [h, AList.lookup_insert]
      rcases hrow with ⟨hnone, rfl⟩ | ⟨old, m', hold, hm, hg, rfl⟩
      · rw [hnone]
        exact .creates _ job m _ rfl fun _ _ => rfl
      · rw [hold]
        exact .starts _ .member job m m' old rfl hm (fun _ _ => rfl) hg
  | prepare job =>
    exact l.update_rewrites (.prepare job) id _ _ _ rfl rfl fun row hrow => .prepares job _ row hrow
  | succeed job m =>
    exact l.update_rewrites (.succeed job m) id _ _ _ rfl rfl fun row hrow => .succeeds job m _ row hrow
  | settleFailure job m =>
    exact l.update_rewrites (.settleFailure job m) id _ _ _ rfl rfl fun row hrow =>
      .settles job m _ row hrow
  | enqueueState job statuses m =>
    exact l.update_rewrites (.enqueueState job statuses m) id _ _ _ rfl rfl fun row hrow =>
      .enqueues job statuses m _ row hrow
  | upsert job m =>
    change Answered.Rewrites ⟨.upsert job m, true⟩ (l.lookup job.idempotencyKey)
      ((l.upsert job.idempotencyKey _ (startData job m)).lookup job.idempotencyKey)
    unfold Ledger.upsert
    cases hl : l.lookup job.idempotencyKey with
    | none =>
      simp only [AList.lookup_insert]
      exact .creates _ job m _ rfl nofun
    | some row =>
      simp only [AList.lookup_insert]
      exact .upserts job m true row
  | claim jobId token startedAt botId =>
    exact l.update_rewrites (.claim jobId token startedAt botId) id _ _ _ rfl rfl fun row hrow =>
      .claims jobId token startedAt botId row hrow
  | complete jobId token remote completedAt fault =>
    match fault with
    | none =>
      exact l.update_rewrites (.complete jobId token remote completedAt none) some _ _ _ rfl rfl
        fun row hrow => .completes jobId token remote completedAt none _ row hrow
    | some true =>
      exact l.update_rewrites (.complete jobId token remote completedAt (some true))
        (fun _ => none) _ _ _ rfl rfl
        fun row hrow => .completes jobId token remote completedAt _ _ row hrow
    | some false => exact .same _ _ rfl rfl
  | release jobId token =>
    exact l.update_rewrites (.release jobId token) id _ _ _ rfl rfl fun row hrow =>
      .releases jobId token row hrow
  | quarantine jobId token error completedAt =>
    exact l.update_rewrites (.quarantine jobId token error completedAt) id _ _ _ rfl rfl fun row hrow =>
      .quarantines jobId token error completedAt _ row hrow
  | clearNoRoute job =>
    refine l.delete_rewrites (.clearNoRoute job) id _ _ (fun _ => rfl) (fun _ => rfl)
      fun row hrow => ?_
    simp only [isLegacyPreDispatchNoRouteRow, Bool.and_eq_true, beq_iff_eq] at hrow
    exact ⟨hrow.2.2, hrow.2.1.1.1.1.1.1⟩
  | clearManagedBroadcast job =>
    refine l.delete_rewrites (.clearManagedBroadcast job) id _ _ (fun _ => rfl) (fun _ => rfl)
      fun row hrow => ?_
    simp only [Bool.and_eq_true, beq_iff_eq] at hrow
    exact ⟨hrow.1.2, hrow.1.1.1.1.1.2⟩
  | prepareRetry r freshAccess =>
    cases freshAccess with
    | true =>
      exact l.update_rewrites (.prepareRetry r true) some _ _ _ rfl rfl
        fun row hrow => .retries r _ row hrow
    | false => exact .same _ _ rfl rfl

end Maxim.Max.ActionLedger
