import Maxim.Library.Run
import Maxim.Statistics.Ingest.Settled

/-!
# Idempotence and monotonicity of the ingest

Requests of one entity under one producer epoch arrive in any order and any
number of times, with any answers of the checks against the clock. What a
history has answered and recorded stays, however it goes on.
-/

namespace Maxim.Statistics.Ingest

open Maxim.Library Relation

/-- A request and what the clock says about it. -/
structure Call where
  clock : Clock
  request : IngestRequest

abbrev Reply := Except StatsFailure IngestResult

variable {δ : Type} {hash : Subject → δ} {entity : Entity} {epoch : String} {s s' : Rows δ}

theorem Later.recordRequest (s : Rows δ) (id : String) (record : RequestRecord δ) :
    Later s (s.recordRequest id record) :=
  ⟨(Later.refl s).measurements, (Later.refl s).health⟩

theorem requests_recordRequest {id id' : String} {record : RequestRecord δ} :
    (s.recordRequest id record).requests id' = if id' = id then some record else s.requests id' :=
  Function.update_apply _ _ _ _

theorem requests_moved {request : IngestRequest} (hm : Moved hash request s s') :
    s'.requests = s.requests := by
  cases hm <;> rfl

theorem requests_moves {request : IngestRequest} (hm : Moves hash request s s') :
    s'.requests = s.requests :=
  Moves.keeps (fun _ _ hmove hs => (requests_moved hmove).trans hs) hm rfl

theorem settled_recordRequest {id : String} {record : RequestRecord δ} {op : Operation}
    (h : Settled hash s op) : Settled hash (s.recordRequest id record) op := by
  cases op <;> exact h

def OfEpoch (epoch : String) (s : Rows δ) : Prop :=
  ∀ key row, s.measurements key = some row → row.producerEpoch = epoch

theorem OfEpoch.moved {request : IngestRequest} (hepoch : request.producerEpoch = epoch)
    (hm : Moved hash request s s') (h : OfEpoch epoch s) : OfEpoch epoch s' := by
  have hwrite : ∀ key new, FactRow.producerEpoch new = epoch → OfEpoch epoch (s.write key new) := by
    intro key new hnew key' row hrow
    rw [measurements_write] at hrow
    split at hrow
    · rw [← Option.some.inj hrow, hnew]
    · exact h key' row hrow
  cases hm with
  | touched => exact h
  | reported => exact h
  | superseded => exact h
  | counted => exact hwrite _ _ hepoch
  | skipped key rev content old hold => exact hwrite _ _ (h key old hold)
  | stored => exact hwrite _ _ hepoch

variable {h : List (Entry Call Reply)} {t : Nat}

/-- The records of the requests are the answers of the history, and every answer stays true. -/
structure Answered (hash : Subject → δ) (h : List (Entry Call Reply)) (s : Rows δ) : Prop where
  recorded : ∀ e ∈ h, ∀ result, e.reply = .ok result →
    s.requests e.request.request.requestId = some ⟨hash (.request e.request.request), result⟩
  settled : ∀ id receipt, s.requests id = some receipt → ∃ e ∈ h, e.reply = .ok receipt.result ∧
    e.request.request.requestId = id ∧ receipt.bodyHash = hash (.request e.request.request) ∧
    List.Forall₂ (fun op (result : OperationResult) =>
      result.status = .applied → Settled hash s op) e.request.request.operations
      receipt.result.results

theorem Answered.settled_snoc (hs : Answered hash h s) (e : Entry Call Reply) (id : String)
    (receipt : RequestRecord δ) (hreceipt : s.requests id = some receipt) :
    ∃ e' ∈ h ++ [e], e'.reply = .ok receipt.result ∧
      e'.request.request.requestId = id ∧
      receipt.bodyHash = hash (.request e'.request.request) ∧
      List.Forall₂ (fun op (result : OperationResult) =>
        result.status = .applied → Settled hash s op) e'.request.request.operations
        receipt.result.results := by
  obtain ⟨e', he', hrest⟩ := hs.settled id receipt hreceipt
  exact ⟨e', List.mem_append_left _ he', hrest⟩

section Calls

variable [DecidableEq δ]

def step (hash : Subject → δ) (_ : Nat) (call : Call) (s : Rows δ) : Rows δ × Reply :=
  ingest hash call.clock call.request s

/-- The schema accepts the request, and it is one of this entity and epoch. -/
def Accepts (entity : Entity) (epoch : String) (request : IngestRequest) : Prop :=
  statsIngestRequestSchema request = true ∧ request.entity = entity ∧
    request.producerEpoch = epoch

abbrev Ingests (hash : Subject → δ) (entity : Entity) (epoch : String) :=
  Run (step hash) (fun _ _ call => Accepts entity epoch call.request) (Rows.initial : Rows δ)

theorem operations_valid {request : IngestRequest} (h : Accepts entity epoch request) :
    ∀ op ∈ request.operations, op ∈ request.operations ∧ operationSchema op = true := by
  intro op hop
  have hschema := h.1
  simp only [statsIngestRequestSchema, Bool.and_eq_true, List.all_eq_true] at hschema
  exact ⟨hop, hschema.1.1.2 op hop⟩

theorem step_cases (hash : Subject → δ) (now : Nat) (call : Call) (s : Rows δ) :
    (∃ failure, step hash now call s = (s, .error failure)) ∨
      (∃ receipt, s.requests call.request.requestId = some receipt ∧
        receipt.bodyHash = hash (.request call.request) ∧
        step hash now call s = (s, .ok receipt.result)) ∨
      s.requests call.request.requestId = none ∧
        ∃ p, operateFrom hash call.clock call.request 0 call.request.operations
            ⟨s, s.dataRevision, []⟩ = .ok p ∧
          step hash now call s = (p.rows.recordRequest call.request.requestId
            ⟨hash (.request call.request), ⟨call.request.requestId, p.revision, p.results⟩⟩,
            .ok ⟨call.request.requestId, p.revision, p.results⟩) := by
  cases hdone : transact hash call.clock call.request s with
  | error failure => exact .inl ⟨failure, ingest_eq_error.mpr ⟨hdone, rfl⟩⟩
  | ok done =>
    obtain ⟨s', result⟩ := done
    have hstep : step hash now call s = (s', .ok result) := ingest_eq_ok.mpr hdone
    rcases transact_cases hdone with ⟨receipt, hreceipt, hbody, rfl, rfl⟩ |
      ⟨hnew, p, hp, rfl, rfl⟩
    · exact .inr (.inl ⟨receipt, hreceipt, hbody, hstep⟩)
    · exact .inr (.inr ⟨hnew, p, hp, hstep⟩)

theorem step_keeps {I : Rows δ → Prop} {call : Call} (hcall : Accepts entity epoch call.request)
    (hmove : ∀ s s', Moved hash call.request s s' → I s → I s')
    (hrecord : ∀ s id record, I s → I (s.recordRequest id record)) (now : Nat) (hs : I s) :
    I (step hash now call s).1 := by
  rcases step_cases hash now call s with ⟨failure, heq⟩ | ⟨receipt, -, -, heq⟩ | ⟨-, p, hp, heq⟩
  · rwa [heq]
  · rwa [heq]
  · rw [heq]
    have hmoves := operateFrom_moves (operations_valid hcall) hp
    exact hrecord _ _ _ (Moves.keeps hmove hmoves hs)

/-! ## What holds after every history -/

theorem ingests_counted (hinj : Function.Injective hash) (hr : Ingests hash entity epoch h t s) :
    Counted hash s := by
  refine hr.invariant (fun _ _ s => Counted hash s) counted_initial (fun _ _ _ _ hs _ => hs) ?_
  intro _ now s call hs hcall
  exact step_keeps hcall (fun _ _ hm hs => hm.keeps_counted hinj hs)
    (fun _ _ _ hs => hs.congr rfl fun _ => rfl) now hs

theorem ingests_ofEpoch (hr : Ingests hash entity epoch h t s) : OfEpoch epoch s := by
  refine hr.invariant (fun _ _ s => OfEpoch epoch s) (by simp [OfEpoch, Rows.initial])
    (fun _ _ _ _ hs _ => hs) ?_
  intro _ now s call hs hcall
  exact step_keeps hcall (fun _ _ hm hs => hs.moved hcall.2.2 hm) (fun _ _ _ hs => hs) now hs

theorem Answered.step (hs : Answered hash h s) {call : Call}
    (hcall : Accepts entity epoch call.request) (now : Nat) :
    Answered hash (h ++ [⟨now, call, (Ingest.step hash now call s).2⟩])
      (Ingest.step hash now call s).1 := by
  rcases step_cases hash now call s with ⟨failure, heq⟩ | ⟨receipt, hreceipt, hbody, heq⟩ |
    ⟨hnew, p, hp, heq⟩
  · rw [heq]
    refine ⟨fun e he result hresult => ?_, hs.settled_snoc _⟩
    rcases List.mem_append.mp he with he | he
    · exact hs.recorded e he result hresult
    · rw [List.mem_singleton.mp he] at hresult
      cases hresult
  · rw [heq]
    refine ⟨fun e he result hresult => ?_, hs.settled_snoc _⟩
    rcases List.mem_append.mp he with he | he
    · exact hs.recorded e he result hresult
    · rw [List.mem_singleton.mp he] at hresult ⊢
      rw [← Except.ok.inj hresult, ← hbody]
      exact hreceipt
  · rw [heq]
    have hvalid := operations_valid hcall
    have hmoves := operateFrom_moves hvalid hp
    refine ⟨fun e he result hresult => ?_, fun id receipt hreceipt => ?_⟩
    · rw [requests_recordRequest, requests_moves hmoves]
      rcases List.mem_append.mp he with he | he
      · have hrecorded := hs.recorded e he result hresult
        rw [if_neg fun hid => by rw [hid, hnew] at hrecorded; cases hrecorded]
        exact hrecorded
      · rw [List.mem_singleton.mp he] at hresult ⊢
        rw [if_pos rfl, ← Except.ok.inj hresult]
    · rw [requests_recordRequest, requests_moves hmoves] at hreceipt
      by_cases hid : id = call.request.requestId
      · rw [if_pos hid, Option.some.injEq] at hreceipt
        subst hreceipt
        obtain ⟨results, hresults, hall⟩ := operateFrom_settles hvalid hp
        refine ⟨_, List.mem_append_right _ List.mem_cons_self, rfl, hid.symm, rfl, ?_⟩
        rw [hresults, List.nil_append]
        exact hall.imp fun _ _ hsettled happlied => settled_recordRequest (hsettled happlied)
      · rw [if_neg hid] at hreceipt
        obtain ⟨e, he, hreply, hrequest, hbody, hall⟩ := hs.settled id receipt hreceipt
        refine ⟨e, List.mem_append_left _ he, hreply, hrequest, hbody, ?_⟩
        exact hall.imp fun _ _ hsettled happlied =>
          settled_recordRequest (hmoves.settled (hsettled happlied))

theorem ingests_answered (hr : Ingests hash entity epoch h t s) : Answered hash h s := by
  refine hr.invariant (fun h _ s => Answered hash h s) ⟨by simp, by simp [Rows.initial]⟩
    (fun _ _ _ _ hs _ => hs) ?_
  exact fun _ now s call hs hcall => hs.step hcall now

/-! ## What a history keeps -/

theorem ingests_since {h₁ h₂ : List (Entry Call Reply)} {t₁ : Nat} {s₁ : Rows δ} {I : Rows δ → Prop}
    (hr : Ingests hash entity epoch (h₁ ++ h₂) t s) (hr₁ : Ingests hash entity epoch h₁ t₁ s₁)
    (hstep : ∀ now call s, Accepts entity epoch call.request → I s → I (step hash now call s).1)
    (hs : I s₁) : I s := by
  refine hr.since (fun _ _ s => I s) ?_ (fun _ _ _ _ hs _ => hs) ?_
  · intro t' s' hr'
    rw [(hr₁.unique hr').2]
    exact hs
  · exact fun _ _ now s call _ _ hs hcall => hstep now call s hcall hs

/-! ## The contract -/

/-- What the ingest promises when the history `h` has led to the rows `s`. -/
structure Contract (hash : Subject → δ) (entity : Entity) (epoch : String)
    (h : List (Entry Call Reply)) (s : Rows δ) : Prop where
  /-- A repeated request gets the first answer, and one of another body is refused. -/
  repeated : ∀ e ∈ h, ∀ result, e.reply = .ok result → ∀ now call,
    call.request.requestId = e.request.request.requestId →
    (call.request = e.request.request → step hash now call s = (s, .ok result)) ∧
      (call.request ≠ e.request.request → step hash now call s =
        (s, .error ⟨.idempotencyConflict, 409, call.request.requestId⟩))
  failed : ∀ now call failure, (step hash now call s).2 = .error failure →
    (step hash now call s).1 = s
  later : ∀ h₁ h₂ t₁ s₁, h = h₁ ++ h₂ → Ingests hash entity epoch h₁ t₁ s₁ → Later s₁ s
  /-- A counter is the number of the events that it counts. -/
  counted : ∀ day row, s.measurements (membershipDay day) = some row → ∀ type,
    counter (carried (some row)) type =
      some (countedIds hash s day type row.deleteFence).ncard
  /-- No event is counted for two days or in two counters. -/
  countedOnce : ∀ id day day' type type' fence fence', id ∈ countedIds hash s day type fence →
    id ∈ countedIds hash s day' type' fence' → day = day' ∧ type = type'
  accepted : ∀ day row, s.measurements (membershipDay day) = some row →
    ((carried (some row)).joined.getD 0) + ((carried (some row)).left.getD 0) ≤
      (acceptedIds s day).ncard
  /-- An applied operation that is sent again, among any others, changes nothing. -/
  resent : ∀ e ∈ h, ∀ result, e.reply = .ok result → ∀ op answer,
    (op, answer) ∈ e.request.request.operations.zip result.results →
    answer.status = .applied → op.isAddEvents = false → ∀ (call : Call) authority pre post,
    Accepts entity epoch call.request →
    call.request.operations = pre ++ resend authority op :: post → ∀ p,
    operateFrom hash call.clock call.request 0 pre ⟨s, s.dataRevision, []⟩ = .ok p →
    ChangesNothing p
      (operate hash call.clock call.request pre.length (resend authority op) p)
  /-- A complete day stays, unless a request deletes it. -/
  complete : ∀ h₁ h₂ t₁ s₁, h = h₁ ++ h₂ → Ingests hash entity epoch h₁ t₁ s₁ → ∀ key row,
    s₁.measurements key = some row → Complete row →
    KeepsComplete key row s ∨ ∃ e ∈ h₂, (∃ result, e.reply = .ok result) ∧
      DeletedBy key row e.request.request

theorem repeated_of_recorded {request : IngestRequest} {result : IngestResult}
    (hinj : Function.Injective hash)
    (hrecorded : s.requests request.requestId = some ⟨hash (.request request), result⟩)
    (now : Nat) (call : Call) (hid : call.request.requestId = request.requestId) :
    (call.request = request → step hash now call s = (s, .ok result)) ∧
      (call.request ≠ request → step hash now call s =
        (s, .error ⟨.idempotencyConflict, 409, call.request.requestId⟩)) := by
  rw [← hid] at hrecorded
  constructor
  · intro hsame
    refine ingest_eq_ok.mpr ?_
    unfold transact
    rw [hrecorded, hsame]
    exact if_neg (not_not.mpr rfl)
  · intro hother
    refine ingest_eq_error.mpr ⟨?_, rfl⟩
    unfold transact
    rw [hrecorded]
    refine if_pos fun hbody => hother ?_
    exact (Subject.request.inj (hinj hbody)).symm

theorem resend_after (hepoch : OfEpoch epoch s) {op : Operation} (hop : op.isAddEvents = false)
    (hs : Settled hash s op) {call : Call} (hcall : Accepts entity epoch call.request)
    {authority : Authority} {pre post : List Operation}
    (hops : call.request.operations = pre ++ resend authority op :: post) {p : Tx δ}
    (hp : operateFrom hash call.clock call.request 0 pre ⟨s, s.dataRevision, []⟩ = .ok p) :
    ChangesNothing p
      (operate hash call.clock call.request pre.length (resend authority op) p) := by
  have hvalid : ∀ op' ∈ pre, op' ∈ call.request.operations ∧ operationSchema op' = true := by
    intro op' hop'
    refine operations_valid hcall op' ?_
    rw [hops]
    exact List.mem_append_left _ hop'
  have hmoves := operateFrom_moves hvalid hp
  have hpepoch : OfEpoch epoch p.rows :=
    Moves.keeps (fun _ _ hm hs => OfEpoch.moved hcall.2.2 hm hs) hmoves hepoch
  rw [← hcall.2.2] at hpepoch
  exact operate_resend authority hpepoch hop (hmoves.settled hs)

theorem ingests_complete (hinj : Function.Injective hash) {h₁ h₂ : List (Entry Call Reply)}
    {t₁ : Nat} {s₁ : Rows δ} (hr : Ingests hash entity epoch (h₁ ++ h₂) t s)
    (hr₁ : Ingests hash entity epoch h₁ t₁ s₁) {key : DayKey} {row : FactRow δ}
    (hs : KeepsComplete key row s₁) :
    KeepsComplete key row s ∨ ∃ e ∈ h₂, (∃ result, e.reply = .ok result) ∧
      DeletedBy key row e.request.request := by
  induction h₂ using List.reverseRecOn generalizing t s with
  | nil =>
    rw [List.append_nil] at hr
    rw [(hr₁.unique hr).2]
    exact .inl hs
  | append_singleton h₂ e ih =>
    rw [← List.append_assoc] at hr
    obtain ⟨t', s', hr', -, hcall, -, hreply, rfl⟩ := hr.snoc_inv
    rcases ih hr' with hkeeps | ⟨e', he', hdeleted⟩
    · rcases step_cases hash e.now e.request s' with ⟨failure, heq⟩ | ⟨receipt, -, -, heq⟩ |
        ⟨-, p, hp, heq⟩
      · exact .inl (by rwa [heq])
      · exact .inl (by rwa [heq])
      · have hmoves := operateFrom_moves (operations_valid hcall) hp
        rcases hmoves.keepsComplete hinj (ingests_counted hinj hr') hkeeps with hkept | hdeleted
        · exact .inl (by rw [heq]; exact hkept)
        · rw [heq] at hreply
          exact .inr ⟨e, List.mem_append_right _ List.mem_cons_self, ⟨_, hreply⟩, hdeleted⟩
    · exact .inr ⟨e', List.mem_append_left _ he', hdeleted⟩

/-- Whatever requests an entity has received, the ingest keeps its contract. -/
theorem ingest_contract (hinj : Function.Injective hash) (hr : Ingests hash entity epoch h t s) :
    Contract hash entity epoch h s where
  repeated e he result hresult now call hid :=
    repeated_of_recorded hinj ((ingests_answered hr).recorded e he result hresult) now call hid
  failed now call failure hfailed := by
    rcases step_cases hash now call s with ⟨_, heq⟩ | ⟨_, -, -, heq⟩ | ⟨-, _, -, heq⟩
    · rw [heq]
    · rw [heq]
    · rw [heq] at hfailed
      cases hfailed
  later h₁ h₂ t₁ s₁ hsplit hr₁ := by
    rw [hsplit] at hr
    refine ingests_since hr hr₁ (fun now call s hcall hs => ?_) (Later.refl s₁)
    exact step_keeps (I := Later s₁) hcall (fun _ _ hm hs => hs.trans hm.later)
      (fun s id record hs => hs.trans (Later.recordRequest s id record)) now hs
  counted day row hrow type := ((ingests_counted hinj hr).rows day row hrow).counters type
  countedOnce _ _ _ _ _ _ _ hid hid' := counted_once hinj hid hid'
  accepted day row hrow := joined_add_left_le hinj (ingests_counted hinj hr) hrow
  resent e he result hresult op answer hmem happlied hevents call authority pre post hcall hops p
      hp := by
    have hanswered := ingests_answered hr
    have hrecorded := hanswered.recorded e he result hresult
    obtain ⟨e', -, -, -, hbody, hall⟩ := hanswered.settled _ _ hrecorded
    rw [← Subject.request.inj (hinj hbody)] at hall
    have hsettled := (List.forall₂_iff_zip.mp hall).2 hmem happlied
    exact resend_after (ingests_ofEpoch hr) hevents hsettled hcall hops hp
  complete h₁ h₂ t₁ s₁ hsplit hr₁ key row hrow hcomplete := by
    rw [hsplit] at hr
    exact ingests_complete hinj hr hr₁ (keepsComplete_self hrow hcomplete)

end Calls

/-! ## A channel with one membership day -/

def channel : Entity := ⟨.channel, "-70001"⟩

def sampleDay : StatsDay := ⟨20000, by decide⟩

def sampleTime (second : Fin 86400) : StatsTime := ⟨sampleDay, second, [], by decide⟩

def joinAt (eventId : String) (capturedRevision : Nat) : MembershipEvent :=
  ⟨eventId, capturedRevision, .join, sampleTime 60, sampleTime 61⟩

/-- A request with one operation, at a time when every check passes. -/
def sampleCall (requestId : String) (op : Operation) : Call where
  clock := ⟨fun _ => false, fun _ => false, fun _ _ => false, fun _ => false⟩
  request := ⟨requestId, "epoch", channel, [op]⟩

def addCall (requestId : String) (event : MembershipEvent) : Call :=
  sampleCall requestId (.addEvents ⟨"source", 1⟩ [event])

def deleteCall (requestId : String) (sourceRevision : Nat) : Call :=
  sampleCall requestId (.deleteDay (membershipDay sampleDay) sourceRevision ⟨"source", 1⟩)

theorem ingests_play {hash : Subject → Subject} {calls : List Call}
    (hcalls : ∀ call ∈ calls, Accepts channel "epoch" call.request) :
    ∃ t, Ingests hash channel "epoch"
      (play (step hash) Rows.initial (calls.map fun call => (0, call))).1 t
      (play (step hash) Rows.initial (calls.map fun call => (0, call))).2 := by
  refine run_play ?_ ?_
  · rw [List.map_map]
    exact List.pairwise_map.mpr (List.pairwise_of_forall fun _ _ => Nat.le_refl _)
  · have haccepted : ∀ pre post : List (Nat × Call), (∀ c ∈ post, c.2 ∈ calls) →
        Accepted (step hash) (fun _ _ call => Accepts channel "epoch" call.request) Rows.initial
          pre post := by
      intro pre post hpost
      induction post generalizing pre with
      | nil => trivial
      | cons c post ih =>
        exact ⟨hcalls _ (hpost c List.mem_cons_self),
          ih _ fun c' hc' => hpost c' (List.mem_cons_of_mem _ hc')⟩
    refine haccepted _ _ fun c hc => ?_
    obtain ⟨call, hcall, rfl⟩ := List.mem_map.mp hc
    exact hcall

theorem ingest_contract_day :
    Contract id channel "epoch"
      (play (step id) Rows.initial
        ([addCall "r1" (joinAt "e1" 3), deleteCall "r2" 2].map fun call => (0, call))).1
      (play (step id) Rows.initial
        ([addCall "r1" (joinAt "e1" 3), deleteCall "r2" 2].map fun call => (0, call))).2 := by
  have hcalls : ∀ call ∈ [addCall "r1" (joinAt "e1" 3), deleteCall "r2" 2],
      Accepts channel "epoch" call.request := by
    unfold Accepts
    decide +kernel
  obtain ⟨t, hr⟩ := ingests_play hcalls
  exact ingest_contract Function.injective_id hr

end Maxim.Statistics.Ingest
