import Maxim.Max.ActionLedger.Rewrites
import Maxim.Max.ActionLedger.Service

/-!
# What a call performs

The operations that each method may perform, for every answer it may get, and
which results authorise something. A result authorises exactly what the answer
that it ends on grants.
-/

namespace Maxim.Max.ActionLedger

open Maxim.Library

-- The methods are unfolded here up to their operations; what a trimmed text is does not matter.
seal nullableString trim

/-- Operations of the checks before enqueueing and executing. -/
inductive Checks (job : Job) : Op → Prop
  | read : Checks job (.read job.idempotencyKey)
  | clearNoRoute : Checks job (.clearNoRoute job)
  | clearManagedBroadcast : Checks job (.clearManagedBroadcast job)

inductive Performs : Call → Op → Prop
  | checkEnqueue (job : Job) (op : Op) (h : Checks job op) : Performs (.assertCanEnqueue job) op
  | checkExecute (job : Job) (op : Op) (h : Checks job op) : Performs (.assertCanExecute job) op
  | prepareRetry (chatId sessionKey : String) (opens : Bool) (botIds : List String)
    (freshAccess : Bool) (now : Nat) (r : NightModeRetry) :
    Performs (.prepareRetry chatId sessionKey opens botIds freshAccess now)
      (.prepareRetry r freshAccess)
  | enqueueCreates (job : Job) (enqueuedAt : Option Nat) (recordedAt : Nat) :
    Performs (.recordEnqueuedIfAbsent job enqueuedAt recordedAt)
      (.createIfAbsent job (enqueuedMutation enqueuedAt recordedAt))
  | enqueueAgain (job : Job) (enqueuedAt : Option Nat) (recordedAt : Nat) :
    Performs (.recordEnqueuedIfAbsent job enqueuedAt recordedAt)
      (.enqueueState job [.failedRetryable] (enqueuedMutation enqueuedAt recordedAt))
  | enqueueFails (job : Job) (e : Failure) :
    Performs (.recordEnqueueFailedIfAbsent job e)
      (.createIfAbsent job (enqueueFailedMutation job e))
  | enqueueUnknown (job : Job) (e : Failure) (now : Nat) :
    Performs (.recordEnqueueAmbiguousIfAbsent job e now)
      (.createIfAbsent job (enqueueAmbiguousMutation e now))
  | enqueueUnknownAgain (job : Job) (e : Failure) (now : Nat) :
    Performs (.recordEnqueueAmbiguousIfAbsent job e now)
      (.enqueueState job [.enqueued, .failedRetryable] (enqueueAmbiguousMutation e now))
  | startChecks (job : Job) (enqueuedAt : Option Nat) (now : Nat) (held : Bool) (op : Op)
    (h : Checks job op) : Performs (.recordStarted job enqueuedAt now held) op
  | startFirst (job : Job) (enqueuedAt : Option Nat) (now : Nat) (held : Bool) (kind : StartKind)
    (hjob : job.actionType.crashFenced = false) :
    Performs (.recordStarted job enqueuedAt now held)
      (.startFirst kind job (startedMutation enqueuedAt now))
  | startAgain (job : Job) (enqueuedAt : Option Nat) (now : Nat) (held : Bool) (kind : StartKind)
    (hjob : job.actionType.crashFenced = false) :
    Performs (.recordStarted job enqueuedAt now held)
      (.startAgain kind job (startedMutation enqueuedAt now))
  | startSend (job : Job) (enqueuedAt : Option Nat) (now : Nat) (held : Bool)
    (hjob : job.actionType = .sendMessage) :
    Performs (.recordStarted job enqueuedAt now held)
      (.createIfAbsent job (startedMutation enqueuedAt now))
  | startPlain (job : Job) (enqueuedAt : Option Nat) (now : Nat) (held : Bool)
    (hjob : job.actionType.crashFenced = false) :
    Performs (.recordStarted job enqueuedAt now held)
      (.createStarted job (startedMutation enqueuedAt now))
  | startMember (job : Job) (enqueuedAt : Option Nat) (now : Nat) (held : Bool)
    (hjob : job.actionType.crashFenced = true) (huser : trim (job.userId.getD "") ≠ "")
    (hchat : trim job.chatId ≠ "") :
    Performs (.recordStarted job enqueuedAt now held)
      (.startMember job (startedMutation enqueuedAt now) held)
  | prepares (job : Job) (hjob : job.actionType = .sendMessage) :
    Performs (.recordPrepared job) (.prepare job)
  | prepareReads (job : Job) : Performs (.recordPrepared job) (.read job.idempotencyKey)
  | succeedCreates (job : Job) (now : Nat) (hjob : job.actionType = .sendMessage) :
    Performs (.recordSucceeded job now) (.createIfAbsent job (succeededMutation now))
  | succeeds (job : Job) (now : Nat) (hjob : job.actionType = .sendMessage) :
    Performs (.recordSucceeded job now) (.succeed job (succeededMutation now))
  | succeedUpserts (job : Job) (now : Nat) (hjob : job.actionType ≠ .sendMessage) :
    Performs (.recordSucceeded job now) (.upsert job (succeededMutation now))
  | skips (job : Job) (reason : String) (now : Nat) :
    Performs (.recordSkipped job reason now) (.upsert job (skippedMutation reason now))
  | failCreates (job : Job) (e : Failure) (exhausted : Bool) (now : Nat)
    (hjob : job.actionType = .sendMessage) :
    Performs (.recordFailed job e exhausted now)
      (.createIfAbsent job (failedMutation job e exhausted now))
  | failSettles (job : Job) (e : Failure) (exhausted : Bool) (now : Nat)
    (hjob : job.actionType = .sendMessage) :
    Performs (.recordFailed job e exhausted now)
      (.settleFailure job (failedMutation job e exhausted now))
  | failUpserts (job : Job) (e : Failure) (exhausted : Bool) (now : Nat)
    (hjob : job.actionType ≠ .sendMessage) :
    Performs (.recordFailed job e exhausted now)
      (.upsert job (failedMutation job e exhausted now))
  | claims (job : Job) (botId bot : String) (first second a : ClaimAttempt)
    (ha : a = first ∨ a = second) (hjob : job.actionType = .sendMessage) :
    Performs (.claimSendDispatch job botId first second)
      (.claim job.idempotencyKey a.dispatchToken a.startedAt bot)
  | claimReads (job : Job) (botId : String) (first second : ClaimAttempt) :
    Performs (.claimSendDispatch job botId first second) (.read job.idempotencyKey)
  | claimQuarantines (job : Job) (botId : String) (first second : ClaimAttempt)
    (token : String) (error : ErrorColumns) (completedAt : Nat)
    (hjob : job.actionType = .sendMessage) :
    Performs (.claimSendDispatch job botId first second)
      (.quarantine job.idempotencyKey token error completedAt)
  | completes (job : Job) (dispatchToken remoteMessageId token remote : String) (now : Nat)
    (fault : Option Bool) (failure : Thrown) (hjob : job.actionType = .sendMessage) :
    Performs (.completeSendDispatch job dispatchToken remoteMessageId now fault failure)
      (.complete job.idempotencyKey token remote now fault)
  | completeReads (job : Job) (dispatchToken remoteMessageId : String) (now : Nat)
    (fault : Option Bool) (failure : Thrown) :
    Performs (.completeSendDispatch job dispatchToken remoteMessageId now fault failure)
      (.read job.idempotencyKey)
  | releases (job : Job) (dispatchToken token : String) (hjob : job.actionType = .sendMessage) :
    Performs (.releaseSendDispatch job dispatchToken) (.release job.idempotencyKey token)
  | releaseReads (job : Job) (dispatchToken : String) :
    Performs (.releaseSendDispatch job dispatchToken) (.read job.idempotencyKey)
  | quarantines (job : Job) (dispatchToken token : String) (error : ErrorColumns) (now : Nat)
    (hjob : job.actionType = .sendMessage) :
    Performs (.recordAmbiguousSendDispatch job dispatchToken error now)
      (.quarantine job.idempotencyKey token error now)

/-- What a result authorises its caller to do. -/
def Call.grant : Call → Except Thrown Result → Option Grant
  | .claimSendDispatch job _ _ _, .ok (.claim (.claimed token)) =>
    some (.send job.idempotencyKey token)
  | .recordStarted job _ _ _, .ok .done =>
    if job.actionType.crashFenced then some (.member job) else none
  | _, _ => none

/-- The operation is one of the call's, and the answer grants what the result authorises. -/
def Answers (i : Call) (op : Op) (r : op.Answer) (o : Option (Except Thrown Result)) : Prop :=
  Answered.grant ⟨op, r⟩ = o.bind i.grant

/-! ## The operations of the methods -/

section Methods

variable {P : Op → Prop}

theorem ops_liftExcept {α : Type} (x : Except Thrown α) : (liftExcept x).Ops P := by
  cases x <;> trivial

variable {job : Job}

theorem ops_clearLegacyStates (hP : ∀ op, Checks job op → P op) {row : Row}
    {clear : Service Unit} (h : clearLegacyStates job row = some clear) : clear.Ops P := by
  unfold clearLegacyStates at h
  split at h
  · obtain rfl := Option.some.inj h
    exact (Prog.ops_perform (hP _ .clearNoRoute)).bind fun r => by split <;> trivial
  · split at h
    · obtain rfl := Option.some.inj h
      exact (Prog.ops_perform (hP _ .clearManagedBroadcast)).bind fun r => by split <;> trivial
    · exact absurd h (by simp)

theorem ops_assertCanEnqueue (hP : ∀ op, Checks job op → P op) :
    (assertCanEnqueue job).Ops P := by
  unfold assertCanEnqueue
  split
  · trivial
  · refine (Prog.ops_perform (hP _ .read)).bind fun row => ?_
    cases row with
    | none => trivial
    | some row =>
      dsimp only
      split
      · next clear hclear => exact ops_clearLegacyStates hP hclear
      · split
        · split <;> trivial
        · refine (ops_liftExcept _).bind fun c => ?_
          cases c with
          | some c => trivial
          | none =>
            dsimp only
            repeat' split
            all_goals trivial

theorem ops_assertCanExecute (hP : ∀ op, Checks job op → P op) :
    (assertCanExecute job).Ops P := by
  refine (Prog.ops_perform (hP _ .read)).bind fun row => ?_
  cases row with
  | none => trivial
  | some row =>
    refine (ops_liftExcept _).bind fun c => ?_
    cases c with
    | some c => trivial
    | none =>
      dsimp only
      split
      · next clear hclear => exact ops_clearLegacyStates hP hclear
      · repeat' split
        all_goals trivial

theorem ops_updateStarted {kind : StartKind} {m : Mutation}
    (hfirst : P (.startFirst kind job m)) (hagain : P (.startAgain kind job m)) :
    (updateStarted kind job m).Ops P := by
  refine (Prog.ops_perform hfirst).bind fun first => ?_
  split
  · trivial
  · exact Prog.ops_perform hagain

theorem ops_recordProtectedSendTransition {m : Mutation}
    (hP : ∀ op, Checks job op → P op) (hcreate : P (.createIfAbsent job m))
    (hfirst : P (.startFirst .send job m)) (hagain : P (.startAgain .send job m)) :
    (recordProtectedSendTransition job m).Ops P := by
  refine (Prog.ops_perform hcreate).bind fun _ =>
    (ops_updateStarted hfirst hagain).bind fun updated => ?_
  split
  · trivial
  · refine (Prog.ops_perform (hP _ .read)).bind fun row => (ops_liftExcept _).bind fun c => ?_
    cases c with
    | some c => trivial
    | none => exact (ops_assertCanExecute hP).bind fun _ => trivial

theorem ops_recordGuardedStart {m : Mutation} (hP : ∀ op, Checks job op → P op)
    (hcreate : P (.createStarted job m)) (hfirst : P (.startFirst .plain job m))
    (hagain : P (.startAgain .plain job m)) : (recordGuardedStart job m).Ops P := by
  refine (ops_updateStarted hfirst hagain).bind fun updated => ?_
  split
  · trivial
  · refine (Prog.ops_perform hcreate).bind fun created => ?_
    split
    · trivial
    · refine (ops_updateStarted hfirst hagain).bind fun updated => ?_
      split
      · trivial
      · exact (ops_assertCanExecute hP).bind fun _ => trivial

/-- What comes after the check of the action type. -/
theorem ops_assertSendAction {α : Type} {f : Unit → Service α}
    (hf : job.actionType = .sendMessage → (f ()).Ops P) :
    ((assertSendAction job).bind f).Ops P := by
  unfold assertSendAction
  split
  · next hjob => exact hf hjob
  · trivial

theorem ops_requireDispatchToken (value : String) : (requireDispatchToken value).Ops P := by
  unfold requireDispatchToken
  split <;> trivial

theorem ops_recordPrepared
    (hprepare : job.actionType = .sendMessage → P (.prepare job))
    (hread : P (.read job.idempotencyKey)) : (recordPrepared job).Ops P := by
  refine ops_assertSendAction fun hjob => (Prog.ops_perform (hprepare hjob)).bind fun r => ?_
  split
  · trivial
  · refine (Prog.ops_perform hread).bind fun row => (ops_liftExcept _).bind fun c => ?_
    cases c <;> trivial

theorem ops_recordAmbiguousSendDispatch {error : ErrorColumns} {now : Nat}
    (hP : job.actionType = .sendMessage → ∀ token,
      P (.quarantine job.idempotencyKey token error now)) (dispatchToken : String) :
    (recordAmbiguousSendDispatch job dispatchToken error now).Ops P := by
  unfold recordAmbiguousSendDispatch
  refine ops_assertSendAction fun hjob => ?_
  exact (ops_requireDispatchToken dispatchToken).bind fun token =>
    Prog.ops_perform (hP hjob token)

theorem ops_completeSendDispatch {now : Nat} {fault : Option Bool}
    (hP : job.actionType = .sendMessage → ∀ token remote,
      P (.complete job.idempotencyKey token remote now fault))
    (hread : P (.read job.idempotencyKey)) (dispatchToken remoteMessageId : String)
    (failure : Thrown) :
    (completeSendDispatch job dispatchToken remoteMessageId now fault failure).Ops P := by
  refine ops_assertSendAction fun hjob => (ops_requireDispatchToken dispatchToken).bind fun token => ?_
  split
  · trivial
  · refine (Prog.ops_perform (hP hjob token _)).bind fun r => ?_
    split
    · trivial
    · refine (Prog.ops_perform hread).bind fun row => (ops_liftExcept _).bind fun c => ?_
      split <;> trivial
    · refine (Prog.ops_perform hread).bind fun row => (ops_liftExcept _).bind fun c => ?_
      split <;> trivial

theorem ops_releaseSendDispatch
    (hP : job.actionType = .sendMessage → ∀ token, P (.release job.idempotencyKey token))
    (hread : P (.read job.idempotencyKey)) (dispatchToken : String) :
    (releaseSendDispatch job dispatchToken).Ops P := by
  refine ops_assertSendAction fun hjob => (ops_requireDispatchToken dispatchToken).bind fun token =>
    (Prog.ops_perform (hP hjob token)).bind fun r => ?_
  split
  · trivial
  · refine (Prog.ops_perform hread).bind fun row => (ops_liftExcept _).bind fun c => ?_
    split <;> trivial

theorem ops_prepareRetry {freshAccess : Bool} (hP : ∀ r, P (.prepareRetry r freshAccess))
    (chatId sessionKey : String) (opens : Bool) (botIds : List String) (now : Nat) :
    (prepareRetry chatId sessionKey opens botIds freshAccess now).Ops P := by
  unfold prepareRetry
  dsimp only
  split
  · trivial
  · refine (Prog.ops_perform (hP _)).bind fun r => ?_
    split <;> trivial

end Methods

/-! ## Results -/

theorem Checks.grant {job : Job} {op : Op} (h : Checks job op) (r : op.Answer) :
    Answered.grant ⟨op, r⟩ = none := by
  cases h <;> rfl

/-- A call that can authorise nothing performs no operation whose answer grants something. -/
theorem Performs.grant {i : Call} {op : Op} (h : Performs i op) (hi : ∀ y, i.grant y = none)
    (r : op.Answer) : Answered.grant ⟨op, r⟩ = none := by
  cases h with
  | checkEnqueue job _ h | checkExecute job _ h | startChecks job _ _ _ _ h => exact h.grant r
  | claims => exact absurd (hi (.ok (.claim (.claimed "")))) (by simp [Call.grant])
  | startMember job _ _ _ hjob => exact absurd (hi (.ok .done)) (by simp [Call.grant, hjob])
  | _ => rfl

theorem sound_of_ops {i : Call} {α : Type} {x : Service α} {f : α → Result}
    (hi : i.program = x.bind fun a => .ret (f a)) (hx : x.Ops (Performs i))
    (hgrant : ∀ y, i.grant y = none) : i.program.Sound (Performs i) (Answers i) := by
  have hret : (x.bind fun a => (.ret (f a) : Service Result)).Ops (Performs i) :=
    hx.bind fun _ => trivial
  rw [hi]
  refine hret.sound (fun _ hp => hp) fun op r o hp _ => ?_
  unfold Answers
  rw [hp.grant hgrant r]
  cases o with
  | none => rfl
  | some y => exact (hgrant y).symm

def Claim.token : Claim → Option String
  | .claimed token => some token
  | .recovered _ _ _ => none

def tokenOf {α : Type} (token : α → Option String) (y : Except Thrown α) : Option String :=
  y.toOption.bind token

/-- A claim returns a dispatch token exactly when the answer granted it. -/
def ClaimAnswers {α : Type} (job : Job) (token : α → Option String) (op : Op) (r : op.Answer)
    (o : Option (Except Thrown α)) : Prop :=
  Answered.grant ⟨op, r⟩ = (o.bind (tokenOf token)).map fun t => .send job.idempotencyKey t

theorem claimAnswers_of_every {α : Type} {job : Job} {token : α → Option String} {P : Op → Prop}
    {x : Service α}
    (hx : x.Every (fun op => P op ∧ ∀ r, Answered.grant ⟨op, r⟩ = none)
      fun y => tokenOf token y = none) : x.Sound P (ClaimAnswers job token) := by
  refine hx.sound (fun _ h => h.1) fun op r o hp hq => ?_
  unfold ClaimAnswers
  rw [hp.2 r]
  cases o with
  | none => rfl
  | some y => simp [hq y rfl]

theorem sound_claimOnce {job : Job} {P : Op → Prop} {a : ClaimAttempt} {bot : String}
    (hclaim : P (.claim job.idempotencyKey a.dispatchToken a.startedAt bot))
    (hread : P (.read job.idempotencyKey))
    (hP : ∀ token error, P (.quarantine job.idempotencyKey token error a.quarantinedAt)) :
    (claimOnce job bot a).Sound P (ClaimAnswers job fun c => c.bind Claim.token) := by
  refine ⟨hclaim, fun r => ?_⟩
  cases r with
  | true => exact ⟨rfl, trivial⟩
  | false =>
    refine ⟨rfl, claimAnswers_of_every (Prog.every_await ⟨hread, fun _ => rfl⟩ fun row => ?_)⟩
    refine Prog.Every.bind (ops_liftExcept _) (fun c _ => ?_) fun _ _ => rfl
    cases c with
    | some c => exact rfl
    | none =>
      dsimp only
      split
      · split
        · split <;> exact rfl
        · refine Prog.Every.bind (ops_recordAmbiguousSendDispatch
            (fun _ token => ⟨hP token _, fun _ => rfl⟩) _) (fun q _ => ?_) fun _ _ => rfl
          split <;> exact rfl
      · split <;> exact rfl

theorem sound_claimSendDispatch (job : Job) (botId : String) (first second : ClaimAttempt) :
    (claimSendDispatch job botId first second).Sound
      (Performs (.claimSendDispatch job botId first second)) (ClaimAnswers job Claim.token) := by
  unfold claimSendDispatch assertSendAction
  split
  · next hjob =>
    simp only [Prog.bind]
    split
    · trivial
    · next bot hbot =>
      have hclaim : ∀ a, a = first ∨ a = second → (claimOnce job bot a).Sound
          (Performs (.claimSendDispatch job botId first second))
          (ClaimAnswers job fun c => c.bind Claim.token) := fun a ha =>
        sound_claimOnce (Performs.claims job botId bot first second a ha hjob)
          (Performs.claimReads ..) fun _ _ => Performs.claimQuarantines _ _ _ _ _ _ _ hjob
      refine (hclaim first (.inl rfl)).bind (fun c => ?_) ?_ ?_ ?_
      · cases c with
        | some c => trivial
        | none =>
          refine (hclaim second (.inr rfl)).bind (fun c => ?_) ?_ ?_ ?_
          · cases c with
            | some c => trivial
            | none =>
              refine claimAnswers_of_every
                (Prog.every_await ⟨Performs.claimReads .., fun _ => rfl⟩ fun row => ?_)
              refine Prog.Every.bind (ops_liftExcept _) (fun c _ => ?_) fun _ _ => rfl
              cases c <;> exact rfl
          · intro op r c hc
            cases c <;> exact hc
          · exact fun op r z hz => hz
          · exact fun op r hr => hr
      · intro op r c hc
        cases c <;> exact hc
      · exact fun op r z hz => hz
      · exact fun op r hr => hr
  · trivial

theorem program_sound (i : Call) : i.program.Sound (Performs i) (Answers i) := by
  cases i with
  | assertCanEnqueue job =>
    exact sound_of_ops rfl (ops_assertCanEnqueue fun op => .checkEnqueue job op) fun _ => rfl
  | assertCanExecute job =>
    exact sound_of_ops rfl (ops_assertCanExecute fun op => .checkExecute job op) fun _ => rfl
  | prepareRetry chatId sessionKey opens botIds freshAccess now =>
    exact sound_of_ops rfl (ops_prepareRetry (fun r => .prepareRetry _ _ _ _ _ _ r) ..) fun _ => rfl
  | recordEnqueuedIfAbsent job enqueuedAt recordedAt =>
    refine sound_of_ops rfl ((Prog.ops_perform (.enqueueCreates ..)).bind fun r => ?_) fun _ => rfl
    split
    · trivial
    · exact (Prog.ops_perform (.enqueueAgain ..)).bind fun _ => trivial
  | recordEnqueueFailedIfAbsent job e =>
    exact sound_of_ops rfl ((Prog.ops_perform (.enqueueFails ..)).bind fun _ => trivial) fun _ => rfl
  | recordEnqueueAmbiguousIfAbsent job e now =>
    refine sound_of_ops rfl ((Prog.ops_perform (.enqueueUnknown ..)).bind fun r => ?_) fun _ => rfl
    split
    · trivial
    · exact (Prog.ops_perform (.enqueueUnknownAgain ..)).bind fun _ => trivial
  | recordStarted job enqueuedAt now held =>
    by_cases hfenced : job.actionType.crashFenced = true
    · have hsend : job.actionType ≠ .sendMessage := by
        intro h
        simp [h, ActionType.crashFenced] at hfenced
      simp only [Call.program, recordStarted, if_neg hsend, if_pos hfenced]
      split
      · trivial
      · next hids =>
        rw [not_or] at hids
        refine ⟨.startMember job enqueuedAt now held hfenced hids.1 hids.2, fun r => ?_⟩
        cases r with
        | started => exact ⟨(if_pos hfenced).symm, trivial⟩
        | held | blocked => exact ⟨rfl, trivial⟩
        | notExecutable row =>
          cases row with
          | none => exact ⟨rfl, trivial⟩
          | some row =>
            dsimp only [Prog.bind]
            split <;> exact ⟨rfl, trivial⟩
    · have hplain : job.actionType.crashFenced = false := Bool.eq_false_iff.mpr hfenced
      refine sound_of_ops rfl ?_ fun y => ?_
      · unfold recordStarted
        dsimp only
        split
        · next hjob =>
          exact ops_recordProtectedSendTransition (fun op => .startChecks job _ _ _ op)
            (.startSend job _ _ _ hjob) (.startFirst job _ _ _ .send hplain)
            (.startAgain job _ _ _ .send hplain)
        · exact ops_recordGuardedStart (fun op => .startChecks job _ _ _ op)
            (.startPlain job _ _ _ hplain) (.startFirst job _ _ _ .plain hplain)
            (.startAgain job _ _ _ .plain hplain)
      · rcases y with z | c
        · rfl
        · cases c <;> simp [Call.grant, hplain]
  | recordPrepared job =>
    exact sound_of_ops rfl (ops_recordPrepared (.prepares job) (.prepareReads job)) fun _ => rfl
  | recordSucceeded job now =>
    refine sound_of_ops rfl ?_ fun _ => rfl
    unfold recordSucceeded
    split
    · trivial
    · split
      · next hjob =>
        exact (Prog.ops_perform (.succeedCreates job now hjob)).bind fun _ =>
          (Prog.ops_perform (.succeeds job now hjob)).bind fun _ => trivial
      · next hjob =>
        exact (Prog.ops_perform (.succeedUpserts job now hjob)).bind fun _ => trivial
  | recordSkipped job reason now =>
    exact sound_of_ops rfl ((Prog.ops_perform (.skips ..)).bind fun _ => trivial) fun _ => rfl
  | claimSendDispatch job botId first second =>
    refine (sound_claimSendDispatch job botId first second).bind (fun _ => trivial) ?_ ?_ ?_
    · intro op r c hc
      refine hc.trans ?_
      cases c <;> rfl
    · exact fun op r z hz => hz.trans rfl
    · exact fun op r hr => hr.trans rfl
  | completeSendDispatch job token remote now fault failure =>
    exact sound_of_ops rfl
      (ops_completeSendDispatch (fun h _ _ => .completes _ _ _ _ _ _ _ _ h) (.completeReads ..) ..) fun _ => rfl
  | releaseSendDispatch job token =>
    exact sound_of_ops rfl (ops_releaseSendDispatch (fun h _ => .releases _ _ _ h) (.releaseReads ..) _)
      fun _ => rfl
  | recordAmbiguousSendDispatch job token error now =>
    exact sound_of_ops rfl (ops_recordAmbiguousSendDispatch (fun h _ => .quarantines _ _ _ _ _ h) _)
      fun _ => rfl
  | recordFailed job e exhausted now =>
    refine sound_of_ops rfl ?_ fun _ => rfl
    unfold recordFailed
    split
    · trivial
    · split
      · next hjob =>
        exact (Prog.ops_perform (.failCreates job e exhausted now hjob)).bind fun _ =>
          (Prog.ops_perform (.failSettles job e exhausted now hjob)).bind fun _ => trivial
      · next hjob =>
        exact (Prog.ops_perform (.failUpserts job e exhausted now hjob)).bind fun _ => trivial

end Maxim.Max.ActionLedger
