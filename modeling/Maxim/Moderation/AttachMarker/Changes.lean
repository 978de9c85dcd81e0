import Maxim.Moderation.AttachMarker.Store

/-!
# What a method performs

A claim that answers `claimed`, and a send start that resolves, end on one
counted statement that grants the same. No other statement grants anything.
-/

namespace Maxim.Moderation.AttachMarker

open Maxim.Library

-- What a trimmed text is does not matter here.
seal nullableString trim

/-- What an answer lets the caller do with the marker: send, or work under a lock token. -/
inductive Grant
  | send (kind : MarkerKind) (lockToken : String)
  | claim (kind : MarkerKind) (lockToken : String)
  deriving DecidableEq

def Call.grant : Call → Except String Answer → Option Grant
  | .claim kind _ _ _ _, .ok (.claim (.claimed lockToken _)) => some (.claim kind lockToken)
  | .recordReplacementSendStarted kind lockToken _, .ok _ => some (.send kind lockToken)
  | .recordChannelReplySendStarted lockToken _, .ok _ => some (.send .channelAutoPost lockToken)
  | .recordChatReplySendStarted f _ _ _, .ok (.started _) =>
    some (.send .chatAutoComment f.lockToken)
  | _, _ => none

def Update.grant : Update → Option Grant
  | .repairSkipped _ lockToken _ _ => some (.claim .channelAutoPost lockToken)
  | .reclaim r => some (.claim r.kind r.lockToken)
  | .replyFence _ lockToken _ _ _ _ => some (.send .chatAutoComment lockToken)
  | .sendStarted kind lockToken _ _ => some (.send kind lockToken)
  | _ => none

abbrev Answered := (op : Op) × op.Answer

def Answered.grant : Answered → Option Grant
  | ⟨.create c, true⟩ => some (.claim c.kind c.lockToken)
  | ⟨.update u, true⟩ => u.grant
  | _ => none

/-- Only a skipped edit without evidence in its last error is selected for repair. -/
def Op.Sane : Op → Prop
  | .update (.repairSkipped lastError _ _ _) =>
    hasChannelEditRecoveryEvidence lastError = false ∧ isAmbiguousError lastError = false
  | _ => True

/-- The result with which a call ends grants what its last statement granted. -/
def Answers (i : Call) (op : Op) (r : op.Answer) (o : Option (Except String Answer)) : Prop :=
  ∀ y g, o = some y → i.grant y = some g → Answered.grant ⟨op, r⟩ = some g

/-! ## Claims -/

def ClaimAnswers (kind : MarkerKind) (op : Op) (r : op.Answer) (o : Option (Except String Claim)) :
    Prop :=
  ∀ lockToken markerId, o = some (.ok (.claimed lockToken markerId)) →
    Answered.grant ⟨op, r⟩ = some (.claim kind lockToken)

/-- A part of a claim that has not claimed anything yet. -/
structure Fair (kind : MarkerKind) (x : Store Claim) : Prop where
  sound : x.Sound Op.Sane (ClaimAnswers kind)
  unclaimed : ∀ lockToken markerId, x.result? ≠ some (.ok (.claimed lockToken markerId))

variable {kind : MarkerKind}

theorem Fair.bind {α : Type} {Q : Except String α → Prop} {x : Store α} {f : α → Store Claim}
    (hx : x.Every Op.Sane Q) (hf : ∀ a, Q (.ok a) → Fair kind (f a)) : Fair kind (x.bind f) := by
  induction x with
  | ret a => exact hf a hx
  | fail z => exact ⟨trivial, by simp [Prog.bind, Prog.result?]⟩
  | op e k ih =>
    refine ⟨⟨hx.1, fun r => ⟨fun lockToken markerId h => ?_, (ih r (hx.2 r)).sound⟩⟩, ?_⟩
    · exact absurd h ((ih r (hx.2 r)).unclaimed lockToken markerId)
    · simp [Prog.bind, Prog.result?]

theorem fair_ret {c : Claim} (h : ∀ lockToken markerId, c ≠ .claimed lockToken markerId) :
    Fair kind (.ret c) := by
  refine ⟨trivial, fun lockToken markerId he => h lockToken markerId ?_⟩
  exact Except.ok.inj (Option.some.inj he)

/-- A statement that claims with some of its answers. -/
theorem fair_op {op : Op} {f : op.Answer → Store Claim} (hop : op.Sane)
    (hf : ∀ r, (∃ lockToken markerId, f r = .ret (.claimed lockToken markerId) ∧
      Answered.grant ⟨op, r⟩ = some (.claim kind lockToken)) ∨ Fair kind (f r)) :
    Fair kind ((Prog.perform op).bind f) := by
  refine ⟨⟨hop, fun r => ?_⟩, by simp [Prog.perform, Prog.bind, Prog.result?]⟩
  change ClaimAnswers kind op r (f r).result? ∧ (f r).Sound _ _
  rcases hf r with ⟨lockToken, markerId, hr, hgrant⟩ | hr
  · rw [hr]
    refine ⟨fun t i h => ?_, trivial⟩
    rw [← (Claim.claimed.inj (Except.ok.inj (Option.some.inj h))).1]
    exact hgrant
  · exact ⟨fun t i h => absurd h (hr.unclaimed t i), hr.sound⟩

theorem resolveAuditRecovery_every (messageId : String) (markerId lockToken : Option String)
    (audit : Option (Option CommentAudit)) :
    (resolveAuditRecovery messageId markerId lockToken audit).Every Op.Sane fun y =>
      ∀ c, y = .ok (some c) → ∀ t i, c ≠ .claimed t i := by
  refine Prog.Every.bind (Q := fun y => y.isOk = true) ⟨trivial, fun _ => rfl⟩ (fun read _ => ?_) fun _ h => by cases h
  have hupdate : ∀ (u : Update) (c : Claim) (message : String), (∀ t i, c ≠ .claimed t i) →
      Op.Sane (.update u) → Prog.Every Op.Sane
        (fun y : Except String (Option Claim) => ∀ c, y = .ok (some c) → ∀ t i, c ≠ .claimed t i)
        (update u >>= fun counted => if counted then .ret (some c) else .fail message) := by
    intro u c message hc hu
    refine ⟨hu, fun counted => ?_⟩
    cases counted with
    | false => intro c' h; cases h
    | true => intro c' h; obtain rfl := Option.some.inj (Except.ok.inj h); exact hc
  have hnone : ∀ c : Claim, (.ok none : Except String (Option Claim)) = .ok (some c) →
      ∀ t i, c ≠ .claimed t i := by
    intro c h
    cases h
  split
  · split
    · exact hnone
    · split
      · exact hnone
      · split
        · split
          · exact hnone
          · exact hupdate _ _ _ (by simp) trivial
        · split
          · exact hnone
          · split
            · intro c h
              obtain rfl := Option.some.inj (Except.ok.inj h)
              simp
            · exact hupdate _ _ _ (by simp) trivial
  · exact hnone

theorem resolveCompletionState_every (kind : MarkerKind) (allowRecovery : Bool) (audits : Audits) :
    (resolveCompletionState kind allowRecovery audits).Ops Op.Sane := by
  refine ⟨trivial, fun marker => ?_⟩
  change Prog.Every _ _ (if _ then _ else _)
  repeat' split
  all_goals trivial

theorem claimExisting_fair (params : ClaimParams) (draws : Draws) (epoch : Option LockEpoch)
    (allowRecovery : Bool) (hallow : allowRecovery = true → kind = .channelAutoPost)
    (completionState : CompletionState) (existing : Option MarkerRow) :
    Fair kind (claimExisting kind params draws epoch allowRecovery completionState existing) := by
  have htake : ∀ existing recoveryClaim lockToken markerId, Fair kind
      ((update (reclaim kind params draws existing recoveryClaim lockToken markerId)).bind
        fun claimed => .ret (if claimed then claimedAs kind lockToken markerId else .inProgress)) := by
    intro existing recoveryClaim lockToken markerId
    refine fair_op trivial fun claimed => ?_
    cases claimed with
    | false => exact .inr (fair_ret (by simp))
    | true => exact .inl ⟨lockToken, _, rfl, rfl⟩
  unfold claimExisting
  dsimp only
  cases existing with
  | none =>
    refine fair_op trivial fun created => ?_
    cases created with
    | true => exact .inl ⟨_, _, rfl, rfl⟩
    | false =>
      refine .inr ?_
      by_cases hk : kind = .channelAutoPost
      · simp only [Bool.false_eq_true, if_false, if_pos hk]
        exact fair_ret (by simp)
      · simp only [Bool.false_eq_true, if_false, if_neg hk]
        exact htake none _ _ _
  | some row =>
    dsimp only
    split
    · exact fair_ret (by simp)
    · split
      · split
        · next hrepair =>
          obtain ⟨hallowed, hrow⟩ := Bool.and_eq_true_iff.mp hrepair
          obtain rfl := hallow hallowed
          simp only [MarkerRow.recoverable, Bool.and_eq_true, Bool.not_eq_true'] at hrow
          refine fair_op ⟨hrow.1.2, hrow.2⟩ fun claimed => ?_
          cases claimed with
          | false => exact .inr (fair_ret (by simp))
          | true => exact .inl ⟨_, _, rfl, rfl⟩
        · exact fair_ret (by simp)
      · split
        · exact fair_ret (by simp)
        · split
          · exact fair_ret (by simp)
          · split
            · refine fair_op trivial fun skipped => .inr (fair_ret ?_)
              cases skipped <;> simp
            · exact htake (some row) _ _ _

theorem claim_fair (messageId : String) (params : ClaimParams) (draws : Draws) (audits : Audits) :
    Fair kind (claim kind messageId params draws audits) := by
  have hepoch : ∀ e : Except String (Option LockEpoch), (liftExcept e).Ops Op.Sane := by
    intro e
    cases e <;> trivial
  refine Fair.bind (hepoch _) fun epoch _ => ?_
  have hrecovered : Prog.Every Op.Sane
      (fun y : Except String (Option Claim) => ∀ c, y = .ok (some c) → ∀ t i, c ≠ .claimed t i)
      (if kind = .chatAutoComment then resolveAuditRecovery messageId none none audits.comment
        else .ret none) := by
    split
    · exact resolveAuditRecovery_every _ _ _ _
    · intro c h
      cases h
  refine Fair.bind hrecovered fun recovered hclaim => ?_
  cases recovered with
  | some answer => exact fair_ret (hclaim answer rfl)
  | none =>
    refine Fair.bind (resolveCompletionState_every _ _ _) fun completionState _ => ?_
    split
    · exact fair_ret (by simp)
    · refine Fair.bind (Prog.ops_perform trivial) fun existing _ => ?_
      refine claimExisting_fair params draws epoch _ (fun h => ?_) completionState existing
      simp only [Bool.and_eq_true, beq_iff_eq] at h
      exact h.1.1

/-! ## Every call -/

variable {i : Call}

theorem sound_of_ungranted {x : Store Answer} (hx : x.Every Op.Sane fun y => i.grant y = none) :
    x.Sound Op.Sane (Answers i) :=
  Prog.Every.sound hx (fun _ he => he) fun _ _ _ _ ho y g hy hg => by
    rw [ho y hy] at hg
    cases hg

theorem sound_of_ops {x : Store Answer} (hgrant : ∀ y, i.grant y = none) (hx : x.Ops Op.Sane) :
    x.Sound Op.Sane (Answers i) :=
  Prog.Every.sound hx (fun _ he => he) fun _ _ _ _ _ y g _ hg => by
    rw [hgrant y] at hg
    cases hg

theorem updateOrFail_ops {u : Update} (hu : Op.Sane (.update u)) (message : String) :
    (updateOrFail u message).Ops Op.Sane := by
  refine ⟨hu, fun updated => ?_⟩
  cases updated <;> trivial

theorem updateAnyway_ops {u : Update} (hu : Op.Sane (.update u)) :
    (updateAnyway u).Ops Op.Sane := ⟨hu, fun _ => trivial⟩

theorem inspectDispatchClaim_ops (markerId lockToken : String) :
    (inspectDispatchClaim markerId lockToken).Ops Op.Sane := by
  refine Prog.Ops.bind ⟨trivial, fun _ => trivial⟩ fun marker => ?_
  repeat' split
  all_goals trivial

theorem refreshDispatchClaim_ops (markerId lockToken : String) (now : Nat) :
    (refreshDispatchClaim markerId lockToken now).Ops Op.Sane := by
  refine Prog.Ops.bind (inspectDispatchClaim_ops markerId lockToken) fun state => ?_
  split
  · trivial
  · exact ⟨trivial, fun _ => trivial⟩

theorem readPendingJobIdentity_ops : readPendingJobIdentity.Ops Op.Sane := by
  refine Prog.Ops.bind ⟨trivial, fun _ => trivial⟩ fun marker => ?_
  repeat' split
  all_goals trivial

theorem recordSendStarted_sound {lockToken : String} {reply : Bool} {now : Nat}
    (hi : ∀ y g, i.grant y = some g → y.isOk = true ∧ g = .send kind lockToken) :
    (recordSendStarted kind lockToken reply now).Sound Op.Sane (Answers i) := by
  refine ⟨trivial, fun updated => ?_⟩
  cases updated with
  | true => exact ⟨fun y g _ hg => by rw [(hi y g hg).2]; rfl, trivial⟩
  | false =>
    refine ⟨fun y g hy hg => ?_, trivial⟩
    obtain rfl := Option.some.inj hy
    cases (hi _ g hg).1

theorem recordChatReplySendFence_sound (f : ReplyFence) (now : Nat) (match₁ match₂ : Bool) :
    (recordChatReplySendFence f now match₁ match₂).Sound Op.Sane
      (Answers (.recordChatReplySendStarted f now match₁ match₂)) := by
  unfold recordChatReplySendFence
  cases resolveInputEpoch f.publisherSettingsRevision f.publicationPolicyRevision with
  | error e => trivial
  | ok epoch =>
    cases epoch with
    | none => trivial
    | some epoch =>
      change Prog.Sound _ _ (if _ then _ else _)
      split
      · trivial
      · refine ⟨trivial, fun updated => ?_⟩
        cases updated with
        | true =>
          refine ⟨fun y g hy hg => ?_, trivial⟩
          obtain rfl := Option.some.inj hy
          obtain rfl := Option.some.inj hg
          rfl
        | false =>
          refine ⟨fun y g hy => (by cases hy), sound_of_ungranted ?_⟩
          change Prog.Every _ _ ((inspectDispatchClaim f.markerId f.lockToken).bind _)
          refine Prog.Every.bind (inspectDispatchClaim_ops f.markerId f.lockToken)
            (fun state _ => ?_) fun z _ => rfl
          change Call.grant _ (.ok (if _ then _ else _)) = none
          split <;> rfl

/-- The result of a claim, as the answer of its call. -/
theorem claim_sound (messageId : String) (params : ClaimParams) (draws : Draws) (audits : Audits) :
    (Call.claim kind messageId params draws audits).program.Sound Op.Sane
      (Answers (.claim kind messageId params draws audits)) := by
  refine Prog.Sound.bind (claim_fair messageId params draws audits).sound (fun _ => trivial) ?_ ?_ ?_
  · intro op r c hc y g hy hg
    obtain rfl := Option.some.inj hy
    cases c with
    | claimed lockToken markerId =>
      obtain rfl := Option.some.inj hg
      exact hc lockToken markerId rfl
    | _ => cases hg
  · intro op r z _ y g hy hg
    obtain rfl := Option.some.inj hy
    cases hg
  · intro op r _ y g hy
    cases hy

theorem program_sound (i : Call) : i.program.Sound Op.Sane (Answers i) := by
  cases i with
  | claim kind messageId params draws audits => exact claim_sound messageId params draws audits
  | recordReplacementSendStarted kind lockToken now =>
    refine recordSendStarted_sound fun y g hg => ?_
    cases y with
    | error e => cases hg
    | ok a => exact ⟨rfl, (Option.some.inj hg).symm⟩
  | recordChannelReplySendStarted lockToken now =>
    refine recordSendStarted_sound fun y g hg => ?_
    cases y with
    | error e => cases hg
    | ok a => exact ⟨rfl, (Option.some.inj hg).symm⟩
  | recordChatReplySendStarted f now match₁ match₂ =>
    exact recordChatReplySendFence_sound f now match₁ match₂
  | probeAuditRecovery messageId markerId lockToken audit =>
    refine sound_of_ops (fun y => rfl) ?_
    exact Prog.Every.bind (resolveAuditRecovery_every messageId markerId lockToken audit)
      (fun _ _ => trivial) fun _ _ => trivial
  | complete kind lockToken c => exact sound_of_ops (fun y => rfl) (updateAnyway_ops trivial)
  | skipAfterAdmissionFailure | completeAuditRecovery | recordReplacementMessage
  | recordChatReplyMessage | recordChannelReplyMessage | assertEditClaimCurrent =>
    refine sound_of_ops (fun y => rfl) (updateOrFail_ops ?_ _)
    trivial
  | skipAfterSettingsChange => exact sound_of_ops (fun y => rfl) ⟨trivial, fun _ => trivial⟩
  | readPendingJobIdentity => exact sound_of_ops (fun y => rfl) readPendingJobIdentity_ops
  | refreshDispatchClaim markerId lockToken now =>
    exact sound_of_ops (fun y => rfl)
      (Prog.Ops.bind (refreshDispatchClaim_ops markerId lockToken now) fun _ => trivial)
  | inspectDispatchClaim markerId lockToken =>
    exact sound_of_ops (fun y => rfl)
      (Prog.Ops.bind (inspectDispatchClaim_ops markerId lockToken) fun _ => trivial)
  | recordRetryableFailure | release =>
    exact sound_of_ops (fun y => rfl) (updateAnyway_ops trivial)
  | deferBeforeDispatch admitted lockToken botId linkType source now reason =>
    refine sound_of_ops (fun y => rfl) ?_
    change Prog.Every _ _ (if _ then _ else _)
    split
    · trivial
    · refine ⟨trivial, fun updated => ?_⟩
      cases updated <;> trivial

end Maxim.Moderation.AttachMarker

/-!
## What an update does to the lock and the evidence

Every update that counts a row claims it, starts a send on it, gives the send
up, records a message, ends it, completes it, or leaves its evidence alone.
-/

namespace Maxim.Moderation.AttachMarker

open Maxim.Library

def MarkerRow.Recorded (row : MarkerRow) : Prop :=
  row.replacementMessageId ≠ none ∨ row.replyMessageId ≠ none

def MarkerRow.Closed (kind : MarkerKind) (row : MarkerRow) : Prop :=
  row.Recorded ∨ row.status = .succeeded ∨
    row.status = .skipped ∧ ¬(kind = .channelAutoPost ∧ row.recoverable = true)

/-- The holder of the token has started a send. -/
structure MarkerRow.Fenced (lockToken : String) (row : MarkerRow) : Prop where
  held : row.heldBy lockToken = true
  started : row.replacementSendStartedAt ≠ none

structure MarkerRow.Claimable (kind : MarkerKind) (row : MarkerRow) : Prop where
  unsent : row.unsent = true
  status : row.status = .inProgress ∨ kind = .channelAutoPost ∧ row.recoverable = true

variable {row : MarkerRow}

theorem MarkerRow.unsent_iff : row.unsent = true ↔
    row.replacementMessageId = none ∧ row.replyMessageId = none ∧
      row.replacementSendStartedAt = none := by
  simp [MarkerRow.unsent, and_assoc]

theorem MarkerRow.heldBy_iff {lockToken : String} :
    row.heldBy lockToken = true ↔ row.lockToken = some lockToken ∧ row.status = .inProgress := by
  simp [MarkerRow.heldBy]

theorem MarkerRow.unsent.not_recorded (h : row.unsent = true) :
    ¬row.Recorded := by
  obtain ⟨hreplacement, hreply, -⟩ := MarkerRow.unsent_iff.mp h
  simp [MarkerRow.Recorded, hreplacement, hreply]

theorem MarkerRow.Closed.recorded {kind : MarkerKind} (h : row.Closed kind)
    (hstatus : row.status = .inProgress) : row.Recorded := by
  rcases h with h | h | ⟨h, -⟩
  · exact h
  · rw [hstatus] at h
    cases h
  · rw [hstatus] at h
    cases h

theorem MarkerRow.Claimable.not_closed {kind : MarkerKind}
    (h : row.Claimable kind) : ¬row.Closed kind := by
  rintro (hrecorded | hsucceeded | ⟨hskipped, hnot⟩)
  · exact MarkerRow.unsent.not_recorded h.unsent hrecorded
  · rcases h.status with hs | ⟨-, hs⟩
    · rw [hsucceeded] at hs
      cases hs
    · simp [MarkerRow.recoverable, hsucceeded] at hs
  · rcases h.status with hs | hs
    · rw [hskipped] at hs
      cases hs
    · exact hnot hs

/-- The token under which an update gives a send up: a release, or a retryable failure. -/
def Update.givesUp : Update → Option String
  | .release _ lockToken _ => some lockToken
  | .retryableFailure _ lockToken _ _ _ _ _ => some lockToken
  | _ => none

inductive Change (row : MarkerRow) : Update → MarkerRow → Prop
  | claims (u : Update) (row' : MarkerRow) (lockToken : String)
    (grant : u.grant = some (.claim u.kind lockToken)) (claimable : row.Claimable u.kind) :
    Change row u row'
  | fences (markerId lockToken : String) (settingsMatch : Bool) (contentHash : Option String)
    (now : Nat) (senderBotId : Option String) (row' : MarkerRow)
    (held : row.heldBy lockToken = true) (unsent : row.unsent = true) :
    Change row (.replyFence markerId lockToken settingsMatch contentHash now senderBotId) row'
  | starts (kind : MarkerKind) (lockToken : String) (reply : Bool) (now : Nat)
    (held : row.heldBy lockToken = true) (replacement : row.replacementMessageId = none)
    (unstarted : row.replacementSendStartedAt = none) :
    Change row (.sendStarted kind lockToken reply now)
      ((Update.sendStarted kind lockToken reply now).data row)
  | givesUp (u : Update) (lockToken : String) (row' : MarkerRow)
    (gives : u.givesUp = some lockToken) (held : row.heldBy lockToken = true)
    (replacement : row'.replacementMessageId = row.replacementMessageId)
    (reply : row'.replyMessageId = row.replyMessageId) (quiet : u.grant = none) : Change row u row'
  | records (u : Update) (row' : MarkerRow) (recorded : row'.Recorded)
    (active : row.status = .inProgress) (quiet : u.grant = none) : Change row u row'
  | ends (u : Update) (row' : MarkerRow) (closed : row'.Closed u.kind) (quiet : u.grant = none) :
    Change row u row'
  | completes (kind : MarkerKind) (lockToken : String) (c : Completion)
    (held : row.heldBy lockToken = true) :
    Change row (.complete kind lockToken c) (c.data kind lockToken row)
  | keeps (u : Update) (row' : MarkerRow) (unsent : row.unsent = true)
    (active : row.status = .inProgress) (quiet : u.grant = none) : Change row u row'

theorem update_change {u : Update} (hu : Op.Sane (.update u))
    (h : u.guard row = true) : Change row u (u.data row) := by
  cases u with
  | repairSkipped lastError lockToken now params =>
    simp only [Update.guard, Bool.and_eq_true, beq_iff_eq] at h
    obtain ⟨⟨⟨hstatus, hmode⟩, hunsent⟩, herror⟩ := h
    refine .claims _ _ lockToken rfl ⟨hunsent, .inr ⟨rfl, ?_⟩⟩
    obtain ⟨hreplacement, hreply, hstarted⟩ := MarkerRow.unsent_iff.mp hunsent
    simp [MarkerRow.recoverable, hstatus, hmode, hreplacement, hreply, hstarted, herror, hu.1, hu.2,
      truthy]
  | skipStale read source botId =>
    refine .ends _ _ (.inr (.inr ⟨rfl, ?_⟩)) rfl
    simp [Update.kind]
  | reclaim r =>
    simp only [Update.guard, Bool.and_eq_true, beq_iff_eq] at h
    exact .claims _ _ r.lockToken rfl ⟨h.1.2, .inl h.1.1.1.1.2⟩
  | recoverAudit markerId replyMessageId => exact .ends _ _ (.inr (.inl rfl)) rfl
  | finalizeAudit markerId replyMessageId => exact .ends _ _ (.inr (.inl rfl)) rfl
  | complete kind lockToken c => exact .completes kind lockToken c h
  | recordReplacement kind lockToken replacementMessageId publishedUrl =>
    exact .records _ _ (.inl (by simp [Update.data])) (MarkerRow.heldBy_iff.mp h).2 rfl
  | replyFence markerId lockToken settingsMatch contentHash now senderBotId =>
    simp only [Update.guard, Bool.and_eq_true] at h
    exact .fences _ _ _ _ _ _ _ h.1.1.1.2 h.1.2
  | sendStarted kind lockToken reply now =>
    simp only [Update.guard, Bool.and_eq_true, Option.isNone_iff_eq_none] at h
    exact .starts kind lockToken reply now h.1.1 h.1.2 h.2
  | chatReplyResult lockToken replyMessageId senderBotId =>
    exact .records _ _ (.inr (by simp [Update.data])) (MarkerRow.heldBy_iff.mp h).2 rfl
  | channelReplyResult lockToken replyMessageId publishedUrl =>
    exact .records _ _ (.inr (by simp [Update.data])) (MarkerRow.heldBy_iff.mp h).2 rfl
  | release kind lockToken r => exact .givesUp _ lockToken _ rfl h rfl rfl rfl
  | skipAdmission markerId lockToken botId reason =>
    refine .ends _ _ (.inr (.inr ⟨rfl, ?_⟩)) rfl
    simp [Update.kind]
  | skipSettings markerId lockToken botId =>
    refine .ends _ _ (.inr (.inr ⟨rfl, ?_⟩)) rfl
    simp [Update.kind]
  | refresh markerId lockToken now =>
    simp only [Update.guard, Bool.and_eq_true] at h
    exact .keeps _ _ h.2 (MarkerRow.heldBy_iff.mp h.1.2).2 rfl
  | retryableFailure markerId lockToken senderBotId sendStartedAt now lastError lastStatusCode =>
    simp only [Update.guard, Bool.and_eq_true] at h
    exact .givesUp _ lockToken _ rfl h.1.1.1.2 rfl rfl rfl
  | handOff lockToken botId linkType source since reason =>
    simp only [Update.guard, Bool.and_eq_true] at h
    exact .keeps _ _ h.1.1.1.2 (MarkerRow.heldBy_iff.mp h.1.1.1.1.1.1.1.1.1).2 rfl
  | assertEdit lockToken now =>
    simp only [Update.guard, Bool.and_eq_true] at h
    exact .keeps _ _ h.2 (MarkerRow.heldBy_iff.mp h.1.1).2 rfl

/-! ## Completions -/

/-- The completion leaves a skipped edit without any message, which a later claim may repair. -/
def Completion.reopens (lockToken : String) (c : Completion) : Bool :=
  c.status == .skipped && c.deliveryMode == some "edit_message" &&
    c.replacementMessageId.isNone && c.replyMessageId.isNone && !c.terminalEditAttemptExhausted &&
    !isChannelEditRecoveryLock lockToken && !hasChannelEditRecoveryEvidence c.lastError &&
    !isAmbiguousError c.lastError

theorem startsWith_append (s t : String) : startsWith (s ++ t) s = true := by
  simp [startsWith]

theorem hasEvidence_withEvidence (lastError : Option String) :
    hasChannelEditRecoveryEvidence (some (withChannelEditRecoveryEvidence lastError)) = true := by
  unfold withChannelEditRecoveryEvidence
  split
  · exact startsWith_append _ _
  · split
    · next h => simpa [hasChannelEditRecoveryEvidence] using h
    · split
      · exact startsWith_append _ _
      · rw [hasChannelEditRecoveryEvidence, Option.any_some, String.append_assoc]
        exact startsWith_append _ _

theorem Completion.data_closed {kind : MarkerKind} {lockToken : String} {c : Completion}
    (row : MarkerRow) (h : ¬(kind = .channelAutoPost ∧ c.reopens lockToken = true)) :
    (c.data kind lockToken row).Closed kind := by
  by_cases hsucceeded : c.status = .succeeded
  · exact .inr (.inl hsucceeded)
  · have hskipped : c.status = .skipped := by
      cases hs : c.status with
      | inProgress => exact absurd hs c.final
      | succeeded => exact absurd hs hsucceeded
      | skipped => rfl
    by_cases hrecorded : (c.data kind lockToken row).Recorded
    · exact .inl hrecorded
    · refine .inr (.inr ⟨hskipped, fun ⟨hkind, hrecoverable⟩ => h ⟨hkind, ?_⟩⟩)
      have hids : c.replacementMessageId = none ∧ c.replyMessageId = none := by
        simpa [MarkerRow.Recorded, Completion.data] using hrecorded
      simp only [MarkerRow.recoverable, Bool.and_eq_true, Bool.not_eq_true', beq_iff_eq]
        at hrecoverable
      obtain ⟨⟨⟨⟨⟨⟨_, hmode⟩, _⟩, _⟩, _⟩, hevidence⟩, hambiguous⟩ := hrecoverable
      have hmode' : c.deliveryMode = some "edit_message" := hmode
      have hfresh : c.editExhausted kind lockToken = false := by
        by_contra hex
        rw [Bool.not_eq_false] at hex
        simp only [Completion.data, hex, if_true] at hevidence
        rw [hasEvidence_withEvidence] at hevidence
        cases hevidence
      simp only [Completion.data, hfresh, Bool.false_eq_true, if_false] at hevidence hambiguous
      have hexhausted : c.terminalEditAttemptExhausted = false ∧
          isChannelEditRecoveryLock lockToken = false := by
        simpa [Completion.editExhausted, hkind, hskipped, hmode'] using hfresh
      simp [Completion.reopens, hskipped, hmode', hids, hexhausted, hevidence, hambiguous]

end Maxim.Moderation.AttachMarker
