import Maxim.Library.Protocol
import Maxim.Publisher.AutoReply.Delivery.Fence

/-!
# What a worker may do, and when

A worker records a fence for the delivery that it loaded under its own token,
enters the HTTP send right after, and clears the fence only when the answer was
a definitive rejection. Everything the tables keep through a step is collected
here as well.
-/

namespace Maxim.Publisher.AutoReply.Delivery

open Maxim.Library

variable {κ : Type}

/-- How far a call has come with its fence. -/
inductive FenceState
  | idle
  | recorded (key : Key) (started : Nat)
  | answered (key : Key) (outcome : SendOutcome)

structure Progress where
  loaded : Option LeasedDelivery
  fence : FenceState

def Progress.start : Progress := ⟨none, .idle⟩

def FenceState.waits : FenceState → Bool
  | .recorded _ _ => true
  | _ => false

def Update.clears : Update → Bool
  | .clearDefinitiveSendFence _ => true
  | _ => false

/-- Neither a fence, nor a send, nor a clear. -/
def Op.quiet : Op κ → Bool
  | .recordSendFence _ _ _ _ _ | .send _ _ => false
  | .update _ u => !u.clears
  | _ => true

def Call.token? : Call κ → Option String
  | .process _ i => some i.lockToken
  | _ => none

/-- What the operations of a call may do after what it has been answered. -/
def worker : Protocol (Call κ) (Op κ) Op.Reply Progress where
  init := .start
  may i q
    | .recordSendFence cfg d lockToken _ _ =>
      i.token? = some lockToken ∧ q.loaded = some d ∧ d.currentEpoch cfg = true ∧ q.fence = .idle
    | .send key _ => ∃ started, q.fence = .recorded key started
    | .update key (.clearDefinitiveSendFence lockToken) =>
      i.token? = some lockToken ∧
        ∃ outcome, q.fence = .answered key outcome ∧ outcome.definitiveNonDelivery = true
    | _ => q.fence.waits = false
  next q
    | .load _ _, some d => { q with loaded := some d }
    | .recordSendFence _ d _ _ _, .ok started => { q with fence := .recorded d.key started }
    | .send key _, outcome => { q with fence := .answered key outcome }
    | .update _ (.clearDefinitiveSendFence _), true => { q with fence := .idle }
    | _, _ => q

section Programs

variable {i : Call κ} {q : Progress}

theorem follows_find {α : Type} {key : Key} {f : Option Row → Service κ α}
    (hq : q.fence.waits = false) (hf : ∀ r, (f r).Follows worker i q) :
    (find key >>= f).Follows worker i q := ⟨hq, hf⟩

theorem follows_readFence {α : Type} {source : SourceIdentity}
    {f : Option FenceStatus → Service κ α} (hq : q.fence.waits = false)
    (hf : ∀ r, (f r).Follows worker i q) : (readFence source >>= f).Follows worker i q := ⟨hq, hf⟩

theorem follows_update {α : Type} {key : Key} {u : Update} {f : Bool → Service κ α}
    (hu : u.clears = false) (hq : q.fence.waits = false) (hf : ∀ b, (f b).Follows worker i q) :
    (update key u >>= f).Follows worker i q := by
  cases u with
  | clearDefinitiveSendFence lockToken => cases hu
  | _ => exact ⟨hq, hf⟩

theorem follows_clear {α : Type} {key : Key} {lockToken : String} {outcome : SendOutcome}
    {f : Bool → Service κ α} (htoken : i.token? = some lockToken)
    (hq : q.fence = .answered key outcome) (hout : outcome.definitiveNonDelivery = true)
    (hkept : (f false).Follows worker i q)
    (hcleared : (f true).Follows worker i { q with fence := .idle }) :
    (update key (.clearDefinitiveSendFence lockToken) >>= f).Follows worker i q :=
  ⟨⟨htoken, outcome, hq, hout⟩, Bool.rec hkept hcleared⟩

theorem retryOrFailClaim_follows (key : Key) (lockToken : String) (final : Bool) (message : String)
    (hq : q.fence.waits = false) :
    (retryOrFailClaim key lockToken final message).Follows worker i q := by
  cases final <;> exact follows_update rfl hq fun _ => trivial

theorem cancelClaim_follows (key : Key) (lockToken : String) (hq : q.fence.waits = false) :
    (cancelClaim key lockToken).Follows worker i q := follows_update rfl hq fun _ => trivial

theorem completeSent_follows (d : LeasedDelivery) (started : Nat) (remoteMessageId : String)
    (attempts : Nat) (hq : q.fence.waits = false) :
    (completeSent d started remoteMessageId attempts).Follows worker i q := by
  induction attempts with
  | zero => trivial
  | succ attempts ih =>
    refine follows_update rfl hq fun completed => ?_
    cases completed
    · exact ih
    · trivial

theorem definitive_of_invalidAttachment {outcome : SendOutcome}
    (h : outcome.definitiveInvalidAttachment = true) : outcome.definitiveNonDelivery = true := by
  cases outcome with
  | sent messageId => cases h
  | failed statusCode aboutAttachment =>
    simp only [SendOutcome.definitiveInvalidAttachment, Bool.and_eq_true, Bool.or_eq_true,
      beq_iff_eq] at h
    rcases h.1 with rfl | rfl <;> rfl

variable {d : LeasedDelivery} {lockToken : String}

theorem settleFailure_follows (final : Bool) {outcome : SendOutcome}
    {refresh : Option (Service κ Result)} (htoken : i.token? = some lockToken)
    (hq : q.fence = .answered d.key outcome)
    (hrefresh : ∀ x, refresh = some x → x.Follows worker i { q with fence := .idle }) :
    (settleFailure d lockToken final outcome refresh).Follows worker i q := by
  have hanswered : q.fence.waits = false := by rw [hq]; rfl
  rw [settleFailure]
  split
  · next x hx =>
    obtain ⟨hx, hinvalid⟩ := Option.filter_eq_some_iff.mp hx
    refine follows_clear htoken hq (definitive_of_invalidAttachment hinvalid) trivial ?_
    exact hrefresh x hx
  · split
    · next hdefinitive =>
      have hend : ∀ q : Progress, q.fence.waits = false →
          (if outcome.rateLimited = true then
            retryOrFailClaim d.key lockToken final "RATE_LIMITED"
          else update d.key (.failClaim lockToken) >>= fun _ => pure Result.done :
            Service κ Result).Follows worker i q := by
        intro q hwaits
        split
        · exact retryOrFailClaim_follows d.key lockToken final _ hwaits
        · exact follows_update rfl hwaits fun _ => trivial
      exact follows_clear htoken hq hdefinitive (hend q hanswered) (hend _ rfl)
    · exact follows_update rfl hanswered fun _ => trivial

theorem dispatch_follows {cfg : Config} (final : Bool) (a : AttemptInputs)
    {refresh : Option (Service κ Result)} (htoken : i.token? = some lockToken)
    (hloaded : q.loaded = some d) (hepoch : d.currentEpoch cfg = true) (hq : q.fence = .idle)
    (hrefresh : ∀ x, refresh = some x → x.Follows worker i q) :
    (dispatch cfg d lockToken final a refresh).Follows worker i q := by
  have hidle : q.fence.waits = false := by rw [hq]; rfl
  rw [dispatch]
  split
  · exact cancelClaim_follows d.key lockToken hidle
  · exact retryOrFailClaim_follows d.key lockToken final _ hidle
  · refine follows_readFence hidle fun source => ?_
    split
    · exact cancelClaim_follows d.key lockToken hidle
    · refine ⟨⟨htoken, hloaded, hepoch, hq⟩, fun started => ?_⟩
      cases started with
      | error z => exact cancelClaim_follows d.key lockToken hidle
      | ok started =>
        refine ⟨⟨started, rfl⟩, fun outcome => ?_⟩
        cases outcome with
        | sent messageId => exact completeSent_follows d started messageId _ rfl
        | failed statusCode aboutAttachment =>
          refine settleFailure_follows final htoken rfl fun x hx => ?_
          have hback : ({ loaded := q.loaded, fence := .idle } : Progress) = q := by
            rw [← hq]
          exact hback ▸ hrefresh x hx

theorem deliver_follows (cfg : Config) (p : ProcessInputs) (htoken : i.token? = some p.lockToken) :
    (deliver cfg p).Follows worker i .start := by
  refine ⟨rfl, fun loaded => ?_⟩
  cases loaded with
  | none => exact retryOrFailClaim_follows p.key p.lockToken p.final _ rfl
  | some d =>
    have hcancel : (cancelClaim p.key p.lockToken : Service κ Result).Follows worker i
        ⟨some d, .idle⟩ := cancelClaim_follows p.key p.lockToken rfl
    have hretry (final : Bool) (message : String) :
        (retryOrFailClaim p.key p.lockToken final message : Service κ Result).Follows worker i
          ⟨some d, .idle⟩ := retryOrFailClaim_follows p.key p.lockToken final message rfl
    change Prog.Follows worker i (if ¬d.currentEpoch cfg then _ else _) ⟨some d, .idle⟩
    by_cases hepoch : d.currentEpoch cfg = true
    · rw [if_neg (not_not.mpr hepoch)]
      refine follows_readFence rfl fun source => ?_
      by_cases hsource : source ≠ some .ready ∨ p.route = .epochChanged
      · rw [if_pos hsource]
        exact hcancel
      rw [if_neg hsource]
      by_cases hroute : p.route = .failed
      · rw [if_pos hroute]
        exact hretry _ _
      rw [if_neg hroute]
      cases p.uploads with
      | failed => exact hretry _ _
      | invalid => exact hretry _ _
      | prepared =>
        refine dispatch_follows p.final p.first htoken rfl hepoch rfl fun x hx => ?_
        split at hx
        · obtain rfl := Option.some.inj hx
          split
          · exact dispatch_follows p.final p.second htoken rfl hepoch rfl fun x hx => by cases hx
          · exact retryOrFailClaim_follows d.key p.lockToken p.final _ rfl
        · cases hx
    · rw [if_pos hepoch]
      exact hcancel

theorem process_follows (cfg : Config) (p : ProcessInputs) (htoken : i.token? = some p.lockToken) :
    (process cfg p).Follows worker i .start := by
  refine follows_find rfl fun initial => ?_
  cases initial with
  | none => trivial
  | some initial =>
    dsimp only
    split
    · trivial
    split
    · exact follows_update rfl rfl fun _ => trivial
    split
    · trivial
    refine follows_update rfl rfl fun claimed => ?_
    cases claimed
    · trivial
    · exact deliver_follows cfg p htoken

theorem may_of_quiet {e : Op κ} (he : e.quiet = true) (hq : q.fence.waits = false) :
    worker.may i q e ∧ ∀ r, (worker.next q e r).fence = q.fence := by
  cases e with
  | recordSendFence cfg d lockToken ready e => cases he
  | send key outcome => cases he
  | load key lockToken => exact ⟨hq, fun r => by cases r <;> rfl⟩
  | update key u =>
    cases u with
    | clearDefinitiveSendFence lockToken => cases he
    | _ => exact ⟨hq, fun _ => rfl⟩
  | _ => exact ⟨hq, fun _ => rfl⟩

theorem follows_of_quiet {x : Service κ Result} (hx : x.Ops fun e => e.quiet = true)
    (hq : q.fence.waits = false) : x.Follows worker i q := by
  induction x generalizing q with
  | ret a => trivial
  | fail z => trivial
  | op e k ih =>
    obtain ⟨hmay, hnext⟩ := may_of_quiet (i := i) hx.1 hq
    exact ⟨hmay, fun r => ih r (hx.2 r) (by rw [hnext, hq])⟩

theorem admitSource_quiet (source : SourceIdentity) (receipt : Receipt) :
    (admitSource source receipt : Service κ _).Ops fun e => e.quiet = true := by
  refine Prog.Ops.bind (Prog.ops_perform rfl) fun existing => ?_
  cases existing with
  | some status =>
    dsimp only
    split <;> trivial
  | none =>
    dsimp only
    split
    · trivial
    split
    · trivial
    · exact ⟨rfl, fun _ => ⟨rfl, fun _ => trivial⟩⟩

theorem ensureDeliveryJob_quiet (delivery : Row) (dispatchDisabled : Bool) :
    (ensureDeliveryJob delivery dispatchDisabled : Service κ Unit).Ops fun e => e.quiet = true := by
  rw [ensureDeliveryJob]
  split
  · exact ⟨rfl, fun _ => trivial⟩
  · trivial

theorem suppress_quiet (key : Key) (delivery : Row) (dispatchDisabled : Bool)
    (state : Option FenceStatus) : (do
      if state ≠ some .ready then do
        let _ ← update key .cancelPending
        pure (.observed .suppressed)
      else do
        ensureDeliveryJob delivery dispatchDisabled
        pure (.observed .selected) : Service κ Result).Ops fun e => e.quiet = true := by
  split
  · exact ⟨rfl, fun _ => trivial⟩
  · exact Prog.Ops.bind (ensureDeliveryJob_quiet delivery dispatchDisabled) fun _ => trivial

theorem observeNewMessage_quiet (p : MessageInputs) :
    (observeNewMessage p : Service κ Result).Ops fun e => e.quiet = true := by
  rw [observeNewMessage]
  split
  · trivial
  next selected =>
    refine Prog.Ops.bind (admitSource_quiet p.source p.receipt) fun state => ?_
    split
    · trivial
    refine ⟨rfl, fun _ => ⟨rfl, fun delivery => ?_⟩⟩
    cases delivery with
    | none => trivial
    | some delivery =>
      exact ⟨rfl, fun confirmed => suppress_quiet p.key delivery p.dispatchDisabled confirmed⟩

theorem observeMessage_quiet (p : MessageInputs) :
    (observeMessage p : Service κ Result).Ops fun e => e.quiet = true := by
  rw [observeMessage]
  split
  · refine Prog.Ops.bind (Prog.ops_perform rfl) fun delivery => ?_
    cases delivery with
    | none => exact observeNewMessage_quiet p
    | some delivery =>
      refine Prog.Ops.bind (admitSource_quiet p.source p.receipt) fun state => ?_
      exact suppress_quiet p.key delivery p.dispatchDisabled state
  · exact observeNewMessage_quiet p

theorem cancelDelivery_quiet (p : ChangeInputs) (fenceFailed : Bool) :
    (cancelDelivery p fenceFailed : Service κ Result).Ops fun e => e.quiet = true := by
  rw [cancelDelivery]
  cases fenceFailed
  all_goals
    split
    · exact ⟨rfl, fun _ => trivial⟩
    · trivial

theorem observeChange_quiet (p : ChangeInputs) :
    (observeChange p : Service κ Result).Ops fun e => e.quiet = true := by
  refine Prog.Ops.bind (Prog.ops_perform rfl) fun existing => ?_
  split
  · trivial
  split
  · exact cancelDelivery_quiet p false
  split
  · exact cancelDelivery_quiet p true
  · exact ⟨rfl, fun _ => cancelDelivery_quiet p false⟩

theorem recover_quiet (key : Key) (now : Nat) :
    (recover key now : Service κ Result).Ops fun e => e.quiet = true := by
  refine Prog.Ops.bind (Prog.ops_perform rfl) fun row => ?_
  cases row with
  | none => trivial
  | some row =>
    dsimp only
    split
    · split <;> exact ⟨rfl, fun _ => trivial⟩
    · trivial

theorem program_follows (i : Call κ) : i.program.Follows worker i .start := by
  cases i with
  | process cfg p => exact process_follows cfg p rfl
  | observeMessage p => exact follows_of_quiet (observeMessage_quiet p) rfl
  | observeChange p => exact follows_of_quiet (observeChange_quiet p) rfl
  | recover key now => exact follows_of_quiet (recover_quiet key now) rfl
  | tick us => exact ⟨rfl, fun _ => trivial⟩
  | writeRule ruleId rule => exact ⟨rfl, fun _ => trivial⟩
  | writeTrigger triggerId trigger => exact ⟨rfl, fun _ => trivial⟩
  | writeContent contentRevisionId content => exact ⟨rfl, fun _ => trivial⟩
  | writeChat chatId chat => exact ⟨rfl, fun _ => trivial⟩

end Programs

end Maxim.Publisher.AutoReply.Delivery

/-!
## What the tables keep

No operation takes a delivery away or writes the columns it was created with,
and none turns back the version of a rule, the clock or a completed source
fence. So what a worker has loaded stays known until the rule is written.
-/

namespace Maxim.Publisher.AutoReply.Delivery

open Maxim.Library

variable {κ ω : Type} {semanticKey : SourceIdentity → κ} {s s' : Db κ} {d : LeasedDelivery}

/-- A rule and a later state of it. -/
structure Rule.Before (rule rule' : Rule) : Prop where
  chatId : rule'.chatId = rule.chatId
  version : rule.version ≤ rule'.version
  same : rule'.version = rule.version → rule' = rule

theorem Rule.Before.refl (rule : Rule) : rule.Before rule := ⟨rfl, Nat.le_refl _, fun _ => rfl⟩

/-- What no operation takes back. -/
structure Keeps (s s' : Db κ) : Prop where
  row : ∀ key row, s.deliveries key = some row →
    ∃ row', s'.deliveries key = some row' ∧ row'.toNewDelivery = row.toNewDelivery
  created : ∀ key row, s.deliveries key = none → s'.deliveries key = some row → row.key = key
  rule : ∀ id rule, s.rules id = some rule → ∃ rule', s'.rules id = some rule' ∧ rule.Before rule'
  completed : ∀ key, s.fences key = some .completed → s'.fences key = some .completed
  clock : s.clock ≤ s'.clock

theorem Keeps.of_deliveries (deliveries : Key → Option Row)
    (hrow : ∀ key row, s.deliveries key = some row →
      ∃ row', deliveries key = some row' ∧ row'.toNewDelivery = row.toNewDelivery)
    (hcreated : ∀ key row, s.deliveries key = none → deliveries key = some row → row.key = key) :
    Keeps s { s with deliveries } where
  row := hrow
  created := hcreated
  rule _ rule h := ⟨rule, h, .refl rule⟩
  completed _ h := h
  clock := Nat.le_refl _

theorem Keeps.refl (s : Db κ) : Keeps s s :=
  .of_deliveries s.deliveries (fun key row h => ⟨row, h, rfl⟩)
    fun key row hnone hsome => absurd (hnone.symm.trans hsome) (by simp)

theorem Update.data_toNewDelivery (u : Update) (row : Row) :
    (u.data row).toNewDelivery = row.toNewDelivery := by
  cases u <;> rfl

/-- A row is written over with one that was created alike. -/
theorem Keeps.write {key : Key} {row row' : Row} (hrow : s.deliveries key = some row)
    (hsame : row'.toNewDelivery = row.toNewDelivery) :
    Keeps s { s with deliveries := Function.update s.deliveries key (some row') } := by
  refine .of_deliveries _ (fun k old hold => ?_) fun k new hnone hnew => ?_
  · by_cases hk : k = key
    · subst hk
      obtain rfl := Option.some.inj (hrow.symm.trans hold)
      exact ⟨row', Function.update_self .., hsame⟩
    · exact ⟨old, (Function.update_of_ne hk ..).trans hold, rfl⟩
  · by_cases hk : k = key
    · subst hk
      rw [hrow] at hnone
      cases hnone
    · rw [Function.update_of_ne hk, hnone] at hnew
      cases hnew

theorem Db.update_cases (s : Db κ) (key : Key) (u : Update) :
    s.update key u = (s, false) ∨ ∃ row, s.deliveries key = some row ∧ u.guard row = true ∧
      s.update key u =
        ({ s with deliveries := Function.update s.deliveries key (some (u.data row)) }, true) := by
  rw [Db.update]
  split
  · next row hrow =>
    split
    · next hguard => exact .inr ⟨row, hrow, hguard, rfl⟩
    · exact .inl rfl
  · exact .inl rfl

theorem Db.update_keeps (s : Db κ) (key : Key) (u : Update) : Keeps s (s.update key u).1 := by
  rcases s.update_cases key u with h | ⟨row, hrow, -, h⟩
  · rw [h]
    exact .refl s
  · rw [h]
    exact .write hrow (u.data_toNewDelivery row)

theorem Db.create_keeps (s : Db κ) (new : NewDelivery) : Keeps s (s.create new) := by
  rw [Db.create]
  split
  · exact .refl s
  · next hnone =>
    refine .of_deliveries _ (fun k old hold => ?_) fun k row hk hrow => ?_
    · have hne : k ≠ new.key := fun he => absurd (hnone.symm.trans (he ▸ hold)) (by simp)
      exact ⟨old, (Function.update_of_ne hne ..).trans hold, rfl⟩
    · by_cases he : k = new.key
      · subst he
        rw [Function.update_self, Option.some.injEq] at hrow
        exact hrow ▸ rfl
      · rw [Function.update_of_ne he, hk] at hrow
        cases hrow

/-- What a send fence makes of the deliveries. -/
theorem recordSendFence_keeps (cfg : Config) (d : LeasedDelivery) (lockToken : String)
    (ready : Bool) (e : Elapsed) (s : Db κ) :
    Keeps s (recordSendFence semanticKey cfg d lockToken ready e s).1 := by
  have hlater : s.clock ≤ e.finalAt s.clock := by
    simp only [Elapsed.finalAt, Elapsed.setAt, Elapsed.conflictAt, Elapsed.insertAt]
    omega
  rw [recordSendFence]
  split
  next s₂ started hok =>
    obtain ⟨-, row, current, hreads, hbind⟩ := sendFenceTransaction_reads hok (by simp) (by simp)
    obtain ⟨s₁, hclaim, hfinal⟩ := bind_eq_ok.mp hbind
    have hrest := (claimCooldown_ok hclaim).rest
    obtain ⟨row', s₃, hrow', -, -, hrebase, rfl⟩ := assertFinal_ok hfinal
    have hrest₃ := (rebaseCooldown_some hrebase).1
    rw [hrest] at hrow' hrest₃
    let fenced : Row := { row' with dispatchStartedAt := some started }
    have hwrite : Keeps s
        { s with deliveries := Function.update s.deliveries d.key (some fenced) } :=
      .write hrow' rfl
    rw [hrest₃]
    exact ⟨hwrite.row, hwrite.created, hwrite.rule, hwrite.completed, hlater⟩
  next z herror => exact ⟨(Keeps.refl s).row, (Keeps.refl s).created, (Keeps.refl s).rule,
    (Keeps.refl s).completed, hlater⟩

variable [DecidableEq κ]

/-- Only the fence of one source is written, and a completed one stays. -/
theorem Keeps.of_fence {key : κ} {status : FenceStatus}
    (h : s.fences key = none ∨ status = .completed) :
    Keeps s { s with fences := Function.update s.fences key (some status) } := by
  refine ⟨(Keeps.refl s).row, (Keeps.refl s).created, (Keeps.refl s).rule, fun k hk => ?_,
    Nat.le_refl _⟩
  by_cases he : k = key
  · subst he
    rcases h with h | rfl
    · rw [hk] at h
      cases h
    · exact Function.update_self ..
  · exact (Function.update_of_ne he ..).trans hk

theorem Op.run_keeps (e : Op κ) (s : Db κ) : Keeps s (e.run semanticKey s).1 := by
  cases e with
  | find key => exact .refl s
  | update key u => exact s.update_keeps key u
  | load key lockToken => exact .refl s
  | readFence source => exact .refl s
  | recordSendFence cfg d lockToken ready e => exact recordSendFence_keeps cfg d lockToken ready e s
  | send key outcome => exact .refl s
  | admitSource source =>
    rw [Op.run]
    split
    · exact .refl s
    · next hnone => exact .of_fence (.inl hnone)
  | cancelSource source => exact .of_fence (.inr rfl)
  | create new => exact s.create_keeps new
  | tick us =>
    exact ⟨(Keeps.refl s).row, (Keeps.refl s).created, (Keeps.refl s).rule,
      (Keeps.refl s).completed, Nat.le_add_right ..⟩
  | writeRule ruleId rule =>
    refine ⟨(Keeps.refl s).row, (Keeps.refl s).created, fun id old hold => ?_,
      (Keeps.refl s).completed, Nat.le_refl _⟩
    by_cases hid : id = ruleId
    · subst hid
      refine ⟨rule.after (some old), ?_, rfl, Nat.le_succ _, fun h => absurd h (Nat.succ_ne_self _)⟩
      change Function.update s.rules id _ id = _
      rw [Function.update_self, hold]
    · exact ⟨old, (Function.update_of_ne hid ..).trans hold, .refl old⟩
  | writeTrigger triggerId trigger => exact ⟨(Keeps.refl s).row, (Keeps.refl s).created,
      (Keeps.refl s).rule, (Keeps.refl s).completed, Nat.le_refl _⟩
  | writeContent contentRevisionId content => exact ⟨(Keeps.refl s).row, (Keeps.refl s).created,
      (Keeps.refl s).rule, (Keeps.refl s).completed, Nat.le_refl _⟩
  | writeChat chatId chat => exact ⟨(Keeps.refl s).row, (Keeps.refl s).created,
      (Keeps.refl s).rule, (Keeps.refl s).completed, Nat.le_refl _⟩

def Keyed (s : Db κ) : Prop := ∀ key row, s.deliveries key = some row → row.key = key

omit [DecidableEq κ] in
theorem Keyed.keeps (hs : Keyed s) (hk : Keeps s s') : Keyed s' := by
  intro key row' hrow'
  cases hrow : s.deliveries key with
  | none => exact hk.created key row' hrow hrow'
  | some row =>
    obtain ⟨row'', hrow'', hsame⟩ := hk.row key row hrow
    obtain rfl := Option.some.inj (hrow'.symm.trans hrow'')
    exact (congrArg NewDelivery.key hsame).trans (hs key row hrow)

omit [DecidableEq κ] in
theorem Known.keeps (hs : Known s d) (hk : Keeps s s') : Known s' d := by
  obtain ⟨row, hrow, hsame⟩ := hs.row
  obtain ⟨row', hrow', hsame'⟩ := hk.row _ row hrow
  obtain ⟨rule, hrule, hle, hunchanged⟩ := hs.rule
  obtain ⟨rule', hrule', hbefore⟩ := hk.rule _ rule hrule
  refine ⟨⟨row', hrow', hsame'.trans hsame⟩, rule', hrule', Nat.le_trans hle hbefore.version, ?_⟩
  intro hversion
  have hstill : rule.version = d.rule.version := Nat.le_antisymm (hversion ▸ hbefore.version) hle
  rw [hbefore.same (hversion.trans hstill.symm), hunchanged hstill]

theorem load_known (hs : Keyed s) {key : Key} {lockToken : String}
    (h : ((Op.load key lockToken).run semanticKey s).2 = some d) : Known s d := by
  obtain ⟨row, hrow, hlease⟩ := Option.bind_eq_some_iff.mp h
  obtain ⟨hfound, -⟩ := Option.filter_eq_some_iff.mp hrow
  obtain ⟨hrule, rfl⟩ := Db.lease_eq_some hlease
  exact ⟨⟨d.toRow, hs key _ hfound ▸ hfound, rfl⟩, d.rule, hrule, Nat.le_refl _, fun _ => rfl⟩

/-! ## Runs -/

abbrev Event (κ ω : Type) := PoolEntry ω (Call κ) (Op κ) Op.Reply ServiceError Result

variable [DecidableEq ω]

/-- A run in which every statement and every transaction is one step. A worker that is never resumed
has crashed. `ok` is what the callers promise. -/
abbrev DeliveryRun (semanticKey : SourceIdentity → κ)
    (ok : List (Event κ ω) → Nat → Move ω (Call κ) → Prop) (s₀ : Db κ) :=
  Run (Pool.step (Op.run semanticKey) Call.program) ok
    (Pool.start s₀ : Pool ω (Call κ) (Op κ) Op.Reply ServiceError Result (Db κ))

def tablesAfter (semanticKey : SourceIdentity → κ) (s₀ : Db κ) (h : List (Event κ ω)) : Db κ :=
  (replay (Pool.step (Op.run semanticKey) Call.program) (Pool.start s₀) h).store

omit [DecidableEq ω] in
theorem next_known (hs : Keyed s) {q : Progress} (hq : ∀ d, q.loaded = some d → Known s d)
    {e : Op κ} (hd : (worker.next q e (e.run semanticKey s).2).loaded = some d) :
    Known (e.run semanticKey s).1 d := by
  have hkeep : q.loaded = some d → Known (e.run semanticKey s).1 d :=
    fun h => (hq d h).keeps (e.run_keeps s)
  cases e with
  | load key lockToken =>
    generalize hanswer : ((Op.load key lockToken).run semanticKey s).2 = answer at hd
    cases answer with
    | none => exact hkeep hd
    | some d' =>
      obtain rfl := Option.some.inj hd
      exact load_known hs hanswer
  | recordSendFence cfg d' lockToken ready e =>
    generalize ((Op.recordSendFence cfg d' lockToken ready e).run semanticKey s).2 = answer at hd
    cases answer <;> exact hkeep hd
  | update key u =>
    generalize ((Op.update key u).run semanticKey s).2 = answer at hd
    cases u <;> cases answer <;> exact hkeep hd
  | _ => exact hkeep hd

theorem run_known {ok : List (Event κ ω) → Nat → Move ω (Call κ) → Prop} {s₀ : Db κ}
    (hs₀ : Keyed s₀) {h : List (Event κ ω)} {t : Nat}
    {p : Pool ω (Call κ) (Op κ) Op.Reply ServiceError Result (Db κ)}
    (hr : DeliveryRun semanticKey ok s₀ h t p) :
    Keyed p.store ∧ ∀ w i q, worker.phase h w = some (i, q) →
      ∀ d, q.loaded = some d → Known p.store d := by
  refine Pool.run_rely Keyed (fun _ q s => ∀ d, q.loaded = some d → Known s d) program_follows hs₀
    (fun i s hs d hd => by cases hd) (fun i q e s hs hknown hmay => ?_)
    (fun i q e s i' q' hs _ _ hknown d hd => (hknown d hd).keeps (e.run_keeps s)) hr
  refine ⟨hs.keeps (e.run_keeps s), fun d hd => ?_⟩
  exact next_known hs hknown hd

end Maxim.Publisher.AutoReply.Delivery
