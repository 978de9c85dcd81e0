import Maxim.Moderation.AttachMarker.Changes

/-!
# The send fence of a marker

A started send stays on the row until its holder gives it up, and a recorded
message closes the row. Two steps break this: a send start that does not look
at the reply, and a completion that leaves a started send as a skipped edit.
-/

namespace Maxim.Moderation.AttachMarker

open Maxim.Library

/-- Any number of workers over the markers of one chat and message. -/
abbrev Workers (ω : Type) := Pool ω Call Op Op.Answer String Answer Markers

abbrev Record (ω : Type) := PoolEntry ω Call Op Op.Answer String Answer

abbrev step {ω : Type} [DecidableEq ω] (now : Nat) (m : Move ω Call) (p : Workers ω) :
    Workers ω × Option (Shown Call Op Op.Answer String Answer) :=
  Pool.step Op.run Call.program now m p

variable {ω : Type}

def granted (x : Record ω) : Option Grant :=
  x.reply.bind fun shown => shown.result.bind shown.call.grant

def answered (x : Record ω) : Option Answered := x.reply.bind Shown.op

def Authorises (kind : MarkerKind) (lockToken : String) (x : Record ω) : Prop :=
  granted x = some (.send kind lockToken)

def Claims (kind : MarkerKind) (lockToken : String) (x : Record ω) : Prop :=
  granted x = some (.claim kind lockToken)

/-- The holder of the token releases the marker or records a retryable failure. -/
def GivesUp (kind : MarkerKind) (lockToken : String) (x : Record ω) : Prop :=
  ∃ u, answered x = some ⟨.update u, true⟩ ∧ u.kind = kind ∧ u.givesUp = some lockToken

/-! ## The condition -/

/-- A channel send or a replacement is started by the holder of a row that has a reply. -/
def StartsAfterReply (s : Markers) (x : Record ω) : Prop :=
  ∃ kind lockToken reply now r row,
    answered x = some ⟨.update (.sendStarted kind lockToken reply now), r⟩ ∧
    s kind = some row ∧ row.heldBy lockToken = true ∧ row.replyMessageId ≠ none

/-- The holder of a row with a started send or a recorded message completes it as a skipped edit
that may be repaired. -/
def ReopensEvidence (s : Markers) (x : Record ω) : Prop :=
  ∃ lockToken c r row, answered x = some ⟨.update (.complete .channelAutoPost lockToken c), r⟩ ∧
    s .channelAutoPost = some row ∧ row.heldBy lockToken = true ∧ row.unsent = false ∧
    c.reopens lockToken = true

structure Meets (s : Markers) (x : Record ω) : Prop where
  start : ¬StartsAfterReply s x
  completion : ¬ReopensEvidence s x

/-! ## One step -/

theorem start_grants_nothing (i : Call) : i.program.result?.bind i.grant = none := by
  cases i with
  | claim kind messageId params draws audits =>
    have hclaims : Fair kind (claim kind messageId params draws audits) :=
      claim_fair messageId params draws audits
    have hfair := hclaims.unclaimed
    cases hclaim : claim kind messageId params draws audits with
    | ret c =>
      rw [hclaim] at hfair
      cases c with
      | claimed t i => exact absurd rfl (hfair t i)
      | _ => simp [Call.program, hclaim, bind, Prog.bind, Prog.result?, Call.grant]
    | fail z => simp [Call.program, hclaim, bind, Prog.bind, Prog.result?, Call.grant]
    | op e k => simp [Call.program, hclaim, bind, Prog.bind, Prog.result?]
  | recordChatReplySendStarted f now match₁ match₂ =>
    simp only [Call.program, recordChatReplySendFence]
    cases resolveInputEpoch f.publisherSettingsRevision f.publicationPolicyRevision with
    | error e => rfl
    | ok epoch =>
      cases epoch with
      | none => rfl
      | some epoch =>
        change (Prog.result? (if _ then _ else _)).bind _ = none
        split <;> rfl
  | recordReplacementSendStarted | recordChannelReplySendStarted => rfl
  | _ => exact Option.bind_eq_none_iff.mpr fun _ _ => rfl

inductive Touches (kind : MarkerKind) (s s' : Markers) (x : Record ω) : Prop
  | same (store : s' kind = s kind) (sends : ∀ token, ¬Authorises kind token x)
    (claims : ∀ token, ¬Claims kind token x)
  | creates (c : Creation) (absent : s kind = none) (sends : ∀ token, ¬Authorises kind token x)
  | updates (u : Update) (row : MarkerRow) (about : u.kind = kind) (found : s kind = some row)
    (written : s' kind = some (u.data row)) (change : Change row u (u.data row))
    (counted : answered x = some ⟨.update u, true⟩)
    (grants : ∀ g, granted x = some g → u.grant = some g)

def Grant.kind : Grant → MarkerKind
  | .send kind _ => kind
  | .claim kind _ => kind

theorem Update.kind_of_grant {u : Update} {g : Grant} (h : u.grant = some g) : g.kind = u.kind := by
  cases u <;> first
    | (obtain rfl := Option.some.inj h; rfl)
    | cases h

abbrev Effect (s s' : Markers) (x : Record ω) : Prop :=
  Pool.Effect Op.run Call.program (fun _ => True) (fun _ => Op.Sane) Answers s s' x.reply

theorem touches {s s' : Markers} {x : Record ω} (h : Effect s s' x) (kind : MarkerKind) :
    Touches kind s s' x := by
  have hquiet : (∀ g, granted x = some g → g.kind ≠ kind) → s' kind = s kind →
      Touches kind s s' x := fun hg hs =>
    .same hs (fun token ht => hg _ ht rfl) fun token ht => hg _ ht rfl
  obtain ⟨now, m, reply⟩ := x
  cases h with
  | idle store => exact hquiet (by simp [granted]) (by rw [store])
  | starts i store =>
    refine hquiet (fun g hg => ?_) (by rw [store])
    exact absurd ((start_grants_nothing i).symm.trans hg) (by simp)
  | performs i op result store accepted sane answer =>
    have hgrant : ∀ g, granted (⟨now, m, some ⟨i, some ⟨op, (op.run s).2⟩, result⟩⟩ : Record ω) =
        some g → Answered.grant ⟨op, (op.run s).2⟩ = some g := by
      intro g hg
      have hresult : result.bind i.grant = some g := hg
      obtain ⟨y, hy, hyg⟩ := Option.bind_eq_some_iff.mp hresult
      exact answer y g hy hyg
    cases op with
    | find k =>
      refine hquiet (fun g hg => ?_) (by rw [store]; rfl)
      cases hgrant g hg
    | create c =>
      cases hc : s c.kind with
      | some row =>
        simp only [Op.run, hc] at store hgrant
        exact hquiet (fun g hg => (by cases hgrant g hg)) (by rw [store])
      | none =>
        simp only [Op.run, hc] at store hgrant
        by_cases hk : c.kind = kind
        · subst hk
          exact .creates c hc fun token ht => by cases hgrant _ ht
        · refine hquiet (fun g hg => ?_) ?_
          · obtain rfl := Option.some.inj (hgrant g hg)
            exact hk
          · rw [store, Function.update_of_ne (Ne.symm hk)]
    | update u =>
      cases hf : (s u.kind).filter u.guard with
      | none =>
        simp only [Op.run, hf] at store hgrant
        exact hquiet (fun g hg => (by cases hgrant g hg)) (by rw [store])
      | some row =>
        obtain ⟨hrow, hguard⟩ := Option.filter_eq_some_iff.mp hf
        by_cases hk : u.kind = kind
        · subst hk
          refine .updates u row rfl hrow ?_ (update_change sane hguard) ?_ fun g hg => ?_
          · rw [store]
            simp [Op.run, hf]
          · simp [answered, Op.run, hf]
          · have h := hgrant g hg
            simp only [Op.run, hf] at h
            exact h
        · simp only [Op.run, hf] at store hgrant
          refine hquiet (fun g hg => ?_) ?_
          · rw [Update.kind_of_grant (hgrant g hg)]
            exact hk
          · rw [store, Function.update_of_ne (Ne.symm hk)]

variable {kind : MarkerKind}

theorem Touches.send {s s' : Markers} {x : Record ω} (h : Touches kind s s' x)
    (hx : Meets s x) {lockToken : String} (ha : Authorises kind lockToken x) :
    ∃ row, s kind = some row ∧ row.heldBy lockToken = true ∧ row.unsent = true ∧
      ∃ row', s' kind = some row' ∧ row'.Fenced lockToken := by
  cases h with
  | same _ sends => exact absurd ha (sends lockToken)
  | creates _ _ sends => exact absurd ha (sends lockToken)
  | updates u row about found written change counted grants =>
    have hgrant := grants _ ha
    cases change with
    | claims _ _ token hclaim => rw [hclaim] at hgrant; cases hgrant
    | fences markerId token settingsMatch contentHash now senderBotId _ held unsent =>
      obtain ⟨-, rfl⟩ := Grant.send.inj (Option.some.inj hgrant)
      exact ⟨row, found, held, unsent, _, written, held, by simp [Update.data]⟩
    | starts k token reply now held replacement unstarted =>
      obtain ⟨rfl, rfl⟩ := Grant.send.inj (Option.some.inj hgrant)
      have hreply : row.replyMessageId = none := by
        by_contra hne
        exact hx.start ⟨k, token, reply, now, true, row, counted, found, held, hne⟩
      exact ⟨row, found, held, MarkerRow.unsent_iff.mpr ⟨replacement, hreply, unstarted⟩, _, written,
        held, by simp [Update.data]⟩
    | completes => cases hgrant
    | givesUp _ _ _ _ _ _ _ quiet | records _ _ _ _ quiet | ends _ _ _ quiet
    | keeps _ _ _ _ quiet => rw [quiet] at hgrant; cases hgrant

theorem Touches.claim {s s' : Markers} {x : Record ω} (h : Touches kind s s' x)
    {lockToken : String} (hc : Claims kind lockToken x) {row : MarkerRow} (hrow : s kind = some row) :
    row.Claimable kind := by
  cases h with
  | same _ _ claims => exact absurd hc (claims lockToken)
  | creates _ absent => rw [absent] at hrow; cases hrow
  | updates u row' about found written change counted grants =>
    obtain rfl := Option.some.inj (hrow.symm.trans found)
    subst about
    have hgrant := grants _ hc
    cases change with
    | claims _ _ token _ claimable => exact claimable
    | fences => cases hgrant
    | starts => cases hgrant
    | completes => cases hgrant
    | givesUp _ _ _ _ _ _ _ quiet | records _ _ _ _ quiet | ends _ _ _ quiet
    | keeps _ _ _ _ quiet => rw [quiet] at hgrant; cases hgrant

def Shut (kind : MarkerKind) (s : Markers) : Prop := ∃ row, s kind = some row ∧ row.Closed kind

theorem Touches.shut {s s' : Markers} {x : Record ω} (h : Touches kind s s' x)
    (hx : Meets s x) (hs : Shut kind s) : Shut kind s' := by
  obtain ⟨row, hrow, hclosed⟩ := hs
  cases h with
  | same store => exact ⟨row, store.trans hrow, hclosed⟩
  | creates _ absent => rw [absent] at hrow; cases hrow
  | updates u row' about found written change counted =>
    obtain rfl := Option.some.inj (hrow.symm.trans found)
    subst about
    refine ⟨_, written, ?_⟩
    generalize hdata : u.data row = row' at change
    cases change with
    | claims _ _ _ _ claimable => exact absurd hclosed claimable.not_closed
    | fences _ _ _ _ _ _ _ held unsent =>
      have hactive := (MarkerRow.heldBy_iff.mp held).2
      exact absurd (hclosed.recorded hactive) (MarkerRow.unsent.not_recorded unsent)
    | starts k token reply now held =>
      exact .inl (hclosed.recorded (MarkerRow.heldBy_iff.mp held).2)
    | givesUp _ token _ _ held replacement reply =>
      have hrecorded := hclosed.recorded (MarkerRow.heldBy_iff.mp held).2
      rw [MarkerRow.Recorded, ← replacement, ← reply] at hrecorded
      exact .inl hrecorded
    | records _ _ recorded => exact .inl recorded
    | ends _ _ closed => exact closed
    | completes k token c held =>
      refine Completion.data_closed row fun hreopened => ?_
      obtain ⟨rfl, hreopens⟩ := hreopened
      have hrecorded := hclosed.recorded (MarkerRow.heldBy_iff.mp held).2
      refine hx.completion ⟨token, c, true, row, counted, hrow, held, ?_, hreopens⟩
      by_contra hunsent
      rw [Bool.not_eq_false] at hunsent
      exact MarkerRow.unsent.not_recorded hunsent hrecorded
    | keeps _ _ unsent active =>
      exact absurd (hclosed.recorded active) (MarkerRow.unsent.not_recorded unsent)

def Sending (kind : MarkerKind) (lockToken : String) (s : Markers) : Prop :=
  ∃ row, s kind = some row ∧ row.Fenced lockToken

theorem Touches.sending {s s' : Markers} {x : Record ω}
    (h : Touches kind s s' x) (hx : Meets s x) {lockToken : String}
    (hs : Sending kind lockToken s) :
    GivesUp kind lockToken x ∨ Sending kind lockToken s' ∨ Shut kind s' := by
  obtain ⟨row, hrow, hfenced⟩ := hs
  have hunsent : row.unsent ≠ true := fun hunsent =>
    hfenced.started (MarkerRow.unsent_iff.mp hunsent).2.2
  cases h with
  | same store => exact .inr (.inl ⟨row, store.trans hrow, hfenced⟩)
  | creates _ absent => rw [absent] at hrow; cases hrow
  | updates u row' about found written change counted =>
    obtain rfl := Option.some.inj (hrow.symm.trans found)
    subst about
    generalize hdata : u.data row = row' at change
    rw [hdata] at written
    cases change with
    | claims _ _ _ _ claimable => exact absurd claimable.unsent hunsent
    | fences _ _ _ _ _ _ _ _ unsent => exact absurd unsent hunsent
    | starts _ _ _ _ _ _ unstarted => exact absurd unstarted hfenced.started
    | givesUp _ token _ gives held =>
      have htoken : some token = some lockToken :=
        (MarkerRow.heldBy_iff.mp held).1.symm.trans (MarkerRow.heldBy_iff.mp hfenced.held).1
      exact .inl ⟨u, counted, rfl, gives.trans htoken⟩
    | records _ _ recorded => exact .inr (.inr ⟨_, written, .inl recorded⟩)
    | ends _ _ closed => exact .inr (.inr ⟨_, written, closed⟩)
    | completes k token c held =>
      refine .inr (.inr ⟨_, written, Completion.data_closed row fun ⟨hk, hreopens⟩ => ?_⟩)
      subst hk
      exact hx.completion ⟨token, c, true, row, counted, hrow, held,
        Bool.not_eq_true _ |>.mp hunsent, hreopens⟩
    | keeps _ _ unsent => exact absurd unsent hunsent

/-! ## Whole runs -/

section Runs

variable [DecidableEq ω] {s₀ : Markers}

def markersAfter (s₀ : Markers) (h : List (Record ω)) : Markers :=
  (replay step (Pool.start s₀) h).store

def KeepsFence (s₀ : Markers) (h : List (Record ω)) (now : Nat) (m : Move ω Call) : Prop :=
  Meets (markersAfter s₀ h) ⟨now, m, (step now m (replay step (Pool.start s₀) h)).2⟩

/-- Any workers, in any order, whose steps all meet the condition. -/
abbrev FencedRun (s₀ : Markers) : List (Record ω) → Nat → Workers ω → Prop :=
  Run step (KeepsFence s₀) (Pool.start s₀)

structure SendFence (kind : MarkerKind) (s₀ : Markers) (h : List (Record ω)) : Prop where
  /-- A send is authorised on a row in progress under the caller's token without evidence. -/
  send : ∀ h₁ x h₂ lockToken, h = h₁ ++ x :: h₂ → Authorises kind lockToken x →
    ∃ row, markersAfter s₀ h₁ kind = some row ∧ row.heldBy lockToken = true ∧ row.unsent = true
  /-- So is a claim, whoever held the row; or there is no row, or a skipped edit to repair. -/
  claim : ∀ h₁ x h₂ lockToken row, h = h₁ ++ x :: h₂ → Claims kind lockToken x →
    markersAfter s₀ h₁ kind = some row → row.Claimable kind
  /-- Between two sends, the holder of the first token has given it up. -/
  between : ∀ h₁ x h₂ y h₃ first second, h = h₁ ++ x :: (h₂ ++ y :: h₃) →
    Authorises kind first x → Authorises kind second y → ∃ z ∈ h₂, GivesUp kind first z
  /-- After a recorded reply or replacement nothing is sent. -/
  recorded : ∀ h₁ h₂ y h₃ row lockToken, h = h₁ ++ (h₂ ++ y :: h₃) →
    markersAfter s₀ h₁ kind = some row → row.Recorded → ¬Authorises kind lockToken y

variable {h : List (Record ω)} {t : Nat} {p : Workers ω}

theorem run_snoc {x : Record ω} (hr : FencedRun s₀ (h ++ [x]) t p) (kind : MarkerKind) :
    ∃ t₁ p₁, FencedRun s₀ h t₁ p₁ ∧ markersAfter s₀ h = p₁.store ∧ Meets p₁.store x ∧
      Touches kind p₁.store p.store x := by
  obtain ⟨t₁, p₁, hr₁, -, hx, -, hrep, rfl⟩ := hr.snoc_inv
  have hstore : replay step (Pool.start s₀) h = p₁ := hr₁.replay_eq
  have he := Pool.run_effect (C := fun _ => True) (P := fun _ => Op.Sane) (R := Answers)
    (fun i _ => program_sound i) (fun _ _ _ _ _ => trivial) hr₁ x.now hx
  rw [← hrep] at he
  refine ⟨t₁, p₁, hr₁, by rw [markersAfter, hstore], ?_, touches he kind⟩
  rw [KeepsFence, markersAfter, hstore, ← hrep] at hx
  exact hx

theorem run_lasts (kind : MarkerKind) (Q : Markers → Prop) (P : Record ω → Prop)
    {h₁ : List (Record ω)} (h₂ : List (Record ω)) (hpre : Q (markersAfter s₀ h₁))
    (hstep : ∀ s s' x, Touches kind s s' x → Meets s x → Q s → P x ∨ Q s')
    (hr : FencedRun s₀ (h₁ ++ h₂) t p) : (∃ z ∈ h₂, P z) ∨ Q p.store := by
  induction h₂ using List.reverseRecOn generalizing t p with
  | nil =>
    rw [List.append_nil] at hr
    rw [markersAfter, hr.replay_eq] at hpre
    exact .inr hpre
  | append_singleton h₂ x ih =>
    rw [← List.append_assoc] at hr
    obtain ⟨t₂, p₂, hr₂, -, hmeets, htouch⟩ := run_snoc hr kind
    rcases ih hr₂ with ⟨z, hz, hp⟩ | hq
    · exact .inl ⟨z, List.mem_append_left _ hz, hp⟩
    · refine (hstep _ _ _ htouch hmeets hq).imp_left fun hp => ?_
      exact ⟨x, List.mem_append_right _ (List.mem_singleton.mpr rfl), hp⟩

theorem run_upto {h₁ h₂ : List (Record ω)} {x : Record ω} (hr : FencedRun s₀ (h₁ ++ x :: h₂) t p) :
    ∃ t₁ p₁, FencedRun s₀ (h₁ ++ [x]) t₁ p₁ := by
  rw [List.append_cons] at hr
  obtain ⟨t₁, p₁, hr₁, -⟩ := hr.of_append
  exact ⟨t₁, p₁, hr₁⟩

/-- In every run whose steps meet the condition, the fence holds. -/
theorem marker_send_fence (kind : MarkerKind) (hr : FencedRun s₀ h t p) : SendFence kind s₀ h := by
  constructor
  · rintro h₁ x h₂ lockToken rfl hx
    obtain ⟨t₁, p₁, hr₁⟩ := run_upto hr
    obtain ⟨t₀, p₀, -, hstore, hmeets, htouch⟩ := run_snoc hr₁ kind
    obtain ⟨row, hrow, hheld, hunsent, -⟩ := htouch.send hmeets hx
    exact ⟨row, hstore ▸ hrow, hheld, hunsent⟩
  · rintro h₁ x h₂ lockToken row rfl hx hrow
    obtain ⟨t₁, p₁, hr₁⟩ := run_upto hr
    obtain ⟨t₀, p₀, -, hstore, -, htouch⟩ := run_snoc hr₁ kind
    exact htouch.claim hx (hstore ▸ hrow)
  · rintro h₁ x h₂ y h₃ first second rfl hx hy
    obtain ⟨t₁, p₁, hr₁⟩ := run_upto hr
    obtain ⟨t₀, p₀, -, -, hmeets, htouch⟩ := run_snoc hr₁ kind
    obtain ⟨-, -, -, -, hsending⟩ := htouch.send hmeets hx
    rw [List.append_cons, ← List.append_assoc] at hr
    obtain ⟨t₃, p₃, hr₃⟩ := run_upto hr
    obtain ⟨t₂, p₂, hr₂, -, hmeets₂, htouch₂⟩ := run_snoc hr₃ kind
    obtain ⟨row, hrow, hheld, hunsent, -⟩ := htouch₂.send hmeets₂ hy
    have hlast := run_lasts kind (fun s => Sending kind first s ∨ Shut kind s)
      (GivesUp kind first) h₂ (.inl (by rw [markersAfter, hr₁.replay_eq]; exact hsending))
      (fun s s' x htouch hmeets hs => hs.elim (htouch.sending hmeets) fun hs =>
        .inr (.inr (htouch.shut hmeets hs))) hr₂
    rcases hlast with hz | ⟨row', hrow', hfenced⟩ | ⟨row', hrow', hclosed⟩
    · exact hz
    · obtain rfl := Option.some.inj (hrow.symm.trans hrow')
      exact absurd (MarkerRow.unsent_iff.mp hunsent).2.2 hfenced.started
    · obtain rfl := Option.some.inj (hrow.symm.trans hrow')
      exact absurd hclosed (MarkerRow.Claimable.not_closed
        ⟨hunsent, .inl (MarkerRow.heldBy_iff.mp hheld).2⟩)
  · rintro h₁ h₂ y h₃ row lockToken rfl hrow hrecorded hy
    rw [← List.append_assoc] at hr
    obtain ⟨t₃, p₃, hr₃⟩ := run_upto hr
    obtain ⟨t₂, p₂, hr₂, -, hmeets₂, htouch₂⟩ := run_snoc hr₃ kind
    obtain ⟨row', hrow', hheld, hunsent, -⟩ := htouch₂.send hmeets₂ hy
    have hlast := run_lasts kind (Shut kind) (fun _ => False) h₂
      ⟨row, hrow, .inl hrecorded⟩ (fun s s' x htouch hmeets hs => .inr (htouch.shut hmeets hs)) hr₂
    rcases hlast with ⟨-, -, hfalse⟩ | ⟨row'', hrow'', hclosed⟩
    · exact hfalse
    · obtain rfl := Option.some.inj (hrow'.symm.trans hrow'')
      exact absurd hclosed (MarkerRow.Claimable.not_closed
        ⟨hunsent, .inl (MarkerRow.heldBy_iff.mp hheld).2⟩)

end Runs

/-! ## A reply and another send -/

/-- The marker and the lock token that a call is about. -/
def Call.token? : Call → Option (MarkerKind × String)
  | .claim _ _ _ _ _ | .probeAuditRecovery _ _ _ _ | .completeAuditRecovery _ _
  | .readPendingJobIdentity => none
  | .complete kind lockToken _ | .recordReplacementMessage kind lockToken _ _
  | .recordReplacementSendStarted kind lockToken _ | .release kind lockToken _ =>
    some (kind, lockToken)
  | .recordChannelReplyMessage lockToken _ _ | .recordChannelReplySendStarted lockToken _
  | .deferBeforeDispatch _ lockToken _ _ _ _ _ | .assertEditClaimCurrent lockToken _ =>
    some (.channelAutoPost, lockToken)
  | .recordChatReplySendStarted f _ _ _ => some (.chatAutoComment, f.lockToken)
  | .skipAfterAdmissionFailure _ lockToken _ _ | .skipAfterSettingsChange _ lockToken _
  | .recordChatReplyMessage lockToken _ _ | .refreshDispatchClaim _ lockToken _
  | .inspectDispatchClaim _ lockToken | .recordRetryableFailure _ lockToken _ _ _ _ _ =>
    some (.chatAutoComment, lockToken)

def Call.lockUuid? : Call → Option String
  | .claim _ _ _ draws _ => some draws.lockUuid
  | _ => none

/-- A worker passes the lock tokens that its own claims have answered, and no two claims draw the
same token. -/
def OwnTokens (h : List (Record ω)) (_now : Nat) (m : Move ω Call) : Prop :=
  ∀ w i, m = .call w i →
    (∀ kind lockToken, i.token? = some (kind, lockToken) →
      ∃ e ∈ h, e.request = .resume w ∧ Claims kind lockToken e) ∧
    ∀ uuid, i.lockUuid? = some uuid →
      ∀ e ∈ h, ∀ w' i', e.request = .call w' i' → i'.lockUuid? ≠ some uuid

theorem ownTokens_resume {h : List (Record ω)} {now : Nat} {w : ω} :
    OwnTokens h now (.resume w) := by
  intro w' i hm
  cases hm

theorem ownTokens_call {h : List (Record ω)} {now : Nat} {w : ω} {i : Call}
    {lockToken : String} (hi : i.token? = some (kind, lockToken)) (hu : i.lockUuid? = none)
    (he : ∃ e ∈ h, e.request = .resume w ∧ Claims kind lockToken e) :
    OwnTokens h now (.call w i) := by
  intro w' i' hm
  obtain ⟨rfl, rfl⟩ := Move.call.inj hm
  refine ⟨fun k token ht => ?_, fun uuid ht => ?_⟩
  · obtain ⟨rfl, rfl⟩ := Prod.mk.inj (Option.some.inj (hi.symm.trans ht))
    exact he
  · rw [hu] at ht
    cases ht

def noMarkers : Markers := fun _ => none

def firstClaim : Call :=
  .claim .channelAutoPost "message" { source := .webhook, botId := none }
    ⟨"uuid", "marker", 1, 1, 1⟩ ⟨none, false, none⟩

/-- A worker claims the marker, starts a reply, and records it. -/
def repliedMoves : List (Nat × Move Nat Call) :=
  [(1, .call 0 firstClaim), (1, .resume 0), (1, .resume 0), (1, .resume 0),
    (2, .call 0 (.recordChannelReplySendStarted "uuid" 2)), (2, .resume 0),
    (3, .call 0 (.recordChannelReplyMessage "uuid" "reply" none)), (3, .resume 0)]

def replied : List (Record Nat) × Workers Nat := play step (Pool.start noMarkers) repliedMoves

def repliedTwice : List (Record Nat) × Workers Nat :=
  play step (Pool.start noMarkers)
    (repliedMoves ++ [(4, .call 0 (.recordChannelReplySendStarted "uuid" 4)), (4, .resume 0)])

theorem keepsFence_of_unanswered {s₀ : Markers} {h : List (Record Nat)} {now : Nat}
    {m : Move Nat Call}
    (ha : answered (⟨now, m, (step now m (replay step (Pool.start s₀) h)).2⟩ : Record Nat) = none) :
    KeepsFence s₀ h now m := by
  constructor
  · rintro ⟨kind, lockToken, reply, now', r, row, hx, -⟩
    rw [ha] at hx
    cases hx
  · rintro ⟨lockToken, c, r, row, hx, -⟩
    rw [ha] at hx
    cases hx

theorem run_replied : ∃ t, FencedRun noMarkers replied.1 t replied.2 := by
  refine run_play (by decide) ⟨keepsFence_of_unanswered rfl, ?_, ?_, ?_,
    keepsFence_of_unanswered rfl, ?_, keepsFence_of_unanswered rfl, ?_, trivial⟩
  all_goals
    constructor
    · rintro ⟨kind, lockToken, reply, now', r, row, hx, hrow, -, hne⟩
      cases hx <;> cases hrow <;> exact hne rfl
    · rintro ⟨lockToken, c, r, row, hx, -⟩
      cases hx

/-- The fence of a marker that is claimed, sent for and answered once. -/
theorem marker_send_fence_replied : (∃ x ∈ replied.1, Authorises .channelAutoPost "uuid" x) ∧
    SendFence .channelAutoPost noMarkers replied.1 := by
  obtain ⟨t, hr⟩ := run_replied
  exact ⟨⟨replied.1[5], List.getElem_mem _, rfl⟩, marker_send_fence .channelAutoPost hr⟩

/-- A second reply is authorised after the first is recorded. -/
theorem second_reply_authorised :
    ¬∀ (h : List (Record Nat)) (t : Nat) (p : Workers Nat),
      Run step OwnTokens (Pool.start noMarkers) h t p → SendFence .channelAutoPost noMarkers h := by
  intro hall
  have hclaim : ∀ h : List (Record Nat), h.length = 0 → OwnTokens h 1 (.call 0 firstClaim) := by
    intro h hh w i hm
    obtain ⟨rfl, rfl⟩ := Move.call.inj hm
    obtain rfl := List.length_eq_zero_iff.mp hh
    exact ⟨fun kind lockToken ht => (by cases ht), fun _ _ e he => (by cases he)⟩
  obtain ⟨t, hr⟩ : ∃ t, Run step OwnTokens (Pool.start noMarkers) repliedTwice.1 t repliedTwice.2 := by
    refine run_play (by decide) ⟨hclaim _ rfl, ownTokens_resume, ownTokens_resume, ownTokens_resume,
      ownTokens_call rfl rfl ?_, ownTokens_resume, ownTokens_call rfl rfl ?_, ownTokens_resume,
      ownTokens_call rfl rfl ?_, ownTokens_resume, trivial⟩
    all_goals exact ⟨replied.1[3], by simp [replied, repliedMoves, play], rfl, rfl⟩
  obtain ⟨row, hrow, -, hunsent⟩ := (hall _ t _ hr).send (repliedTwice.1.take 9) repliedTwice.1[9] []
    "uuid" rfl rfl
  obtain rfl := Option.some.inj hrow
  cases hunsent

end Maxim.Moderation.AttachMarker
