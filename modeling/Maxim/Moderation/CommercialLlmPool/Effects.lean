import Maxim.Library.Run
import Maxim.Moderation.CommercialLlmPool.Scripts

/-!
# Clients and workers of the pool

`reserve`, `respond` and `wait` read the store, decide, and run a script on
what they have read. Between two steps of one client any others may take
theirs, and a client may stop at any point.
-/

namespace Maxim.Moderation.CommercialLlmPool

open Maxim.Library

/-- `tokenPattern`: five groups of hexadecimal digits in lower case. -/
def isToken (s : String) : Bool :=
  s.toList.length == 36 && s.toList.zipIdx.all fun (c, i) =>
    if i = 8 ∨ i = 13 ∨ i = 18 ∨ i = 23 then c == '-' else c.isDigit || 'a' ≤ c && c ≤ 'f'

/-- What the pool takes from its protocol: the message of a request body that is the canonical
request of that message for the node's model, the digest of the canonical request with the neutral
model, whether the texts are within their limits, and whether a body is an envelope of the model. -/
structure Protocol where
  message : CommercialLlmPoolNodeId → String → Option String
  digest : String → String
  slotFits : Reservation → Bool
  jobFits : Job → Bool
  responseFits : Response → Bool
  envelope : CommercialLlmPoolNodeId → String → Bool

/-- `none` when the request is refused. -/
def Protocol.payloadDigest (P : Protocol) (nodeId : CommercialLlmPoolNodeId) (body : String) : Option String :=
  if body.utf8ByteSize > COMMERCIAL_LLM_POOL_REQUEST_BYTES then none
  else (P.message nodeId body).map P.digest

structure PoolRequest where
  jobId : String
  attempt : Attempt
  deadlineAtMs : Nat
  body : String

inductive CommercialLlmPoolOutcome
  | complete (body : String)
  | unavailable
  | timeout
  | failed
  deriving DecidableEq

/-- The public methods. A reservation gets the identifier that `randomUUID` draws. -/
inductive Call
  | acquireWorker (nodeId : CommercialLlmPoolNodeId) (session : String)
  | refreshWorker (nodeId : CommercialLlmPoolNodeId) (session : String) (ready : Bool)
  | releaseWorker (nodeId : CommercialLlmPoolNodeId) (session : String)
  | reserve (nodeId : CommercialLlmPoolNodeId) (request : PoolRequest) (consultation : Bool) (id : String)
  | respond (nodeId : CommercialLlmPoolNodeId) (session id body : String)
  | release (r : Reservation)
  | releaseUndispatched (r : Reservation)
  | wait (r : Reservation)

/-- What a client has read, and the script it runs next. An aborted `wait` has no outcome. -/
inductive Phase
  | reserve (next : Reservation) (heartbeat : Heartbeat) (consultation : Bool)
  | respond (nodeId : CommercialLlmPoolNodeId) (session id body : String) (slot : Reservation)
  | wait (r : Reservation)
  | accept (r : Reservation) (response : Response) (job : Job)
  | finish (r : Reservation) (outcome : Option CommercialLlmPoolOutcome)

/-- What a step shows: the answer of its script, or the result of its call. -/
inductive Reply
  | worker (owns : Bool)
  | slot (assigned : Option (Option (Reservation × Nat)))
  | reserved (r : Reservation) (granted : Bool)
  | responded (nodeId : CommercialLlmPoolNodeId) (session id body : String) (sent : Bool)
  | released (r : Reservation) (did : Bool)
  | accepted (r : Reservation) (did : Bool)
  | returned (r : Reservation) (outcome : Option CommercialLlmPoolOutcome) (did : Bool)
  | refused
  | silent
  deriving DecidableEq

/-- The first step of a call. -/
def Call.start (P : Protocol) (now : Nat) (s : Store) : Call → Store × Option Phase × Reply
  | .acquireWorker nodeId session =>
    if ¬isToken session then (s, none, .refused)
    else
      let (s, owns) := CommercialLlmPool.acquireWorker now nodeId session s
      (s, none, .worker owns)
  | .refreshWorker nodeId session ready =>
    if ¬isToken session then (s, none, .refused)
    else
      let (s, assigned) := CommercialLlmPool.refreshWorker now nodeId session ready s
      (s, none, .slot assigned)
  | .releaseWorker nodeId session =>
    (CommercialLlmPool.releaseWorker nodeId session s, none, .worker false)
  | .reserve nodeId request consultation id =>
    if ¬isToken request.jobId ∨ MAX_SAFE_INTEGER < request.deadlineAtMs ∨
        consultation && !nodeId.large then (s, none, .refused)
    else match P.payloadDigest nodeId request.body, content (s.node nodeId).lease,
        content (s.node nodeId).heartbeat with
      | some payloadSha256, some session, some heartbeat =>
        if isToken session && heartbeat.session == session && heartbeat.nodeId == nodeId && heartbeat.ready
        then
          (s, some (.reserve ⟨nodeId, session, id, request.jobId, request.attempt,
            request.deadlineAtMs, request.body, payloadSha256⟩ heartbeat consultation), .silent)
        else (s, none, .refused)
      | _, _, _ => (s, none, .refused)
  | .respond nodeId session id body =>
    if ¬isToken session ∨ ¬isToken id ∨ body.utf8ByteSize > COMMERCIAL_LLM_POOL_RESPONSE_BYTES then
      (s, none, .refused)
    else match (content (s.node nodeId).slot).filter fun slot => P.slotFits slot && slot.same id session with
      | some slot => (s, some (.respond nodeId session id body slot), .silent)
      | none => (s, none, .refused)
  | .release r =>
    let (s, did) := CommercialLlmPool.release now r s
    (s, none, .released r did)
  | .releaseUndispatched r =>
    if r.nodeId ≠ .server9b then (s, none, .refused)
    else
      let (s, did) := CommercialLlmPool.releaseUndispatched now r s
      (s, none, .released r did)
  | .wait r => (s, some (.wait r), .silent)

/-- What `wait` does with what it has read. `late` is its reading of its own clock. -/
def poll (P : Protocol) (late : Bool) (r : Reservation) (s : Store) : Phase :=
  let n := s.node r.nodeId
  if content n.lease ≠ some r.session then .finish r (some .unavailable)
  else match (content (s.job r.jobId)).filter fun job =>
      P.jobFits job && job.id == r.id && job.state == .pending with
    | none => .finish r (some (if late then .timeout else .failed))
    | some job =>
      if content n.slot ≠ some r then .finish r (some (if late then .timeout else .failed))
      else match (content n.response).filter fun response =>
          P.responseFits response && response.same r.id r.session with
        | none => .wait r
        | some response =>
          if response.body.utf8ByteSize ≤ COMMERCIAL_LLM_POOL_RESPONSE_BYTES &&
              P.envelope r.nodeId response.body then .accept r response job
          else .finish r (some .failed)

/-- The next step of a call. When the answer of the store is lost, `wait` fails, and its last
release may not have reached the store. -/
def Phase.next (P : Protocol) (now : Nat) (late lost : Bool) (s : Store) :
    Phase → Store × Option Phase × Reply
  | .reserve next heartbeat consultation =>
    let (s, granted) := CommercialLlmPool.reserve now next heartbeat consultation s
    (s, none, .reserved next granted)
  | .respond nodeId session id body slot =>
    let (s, sent) := CommercialLlmPool.respond now nodeId session id body slot s
    (s, none, .responded nodeId session id body sent)
  | .wait r =>
    (s, some (if lost then .finish r (some .failed) else poll P late r s), .silent)
  | .accept r response job =>
    let (s, did) := CommercialLlmPool.accept now r response job s
    (s, some (.finish r (some (if did && !lost then .complete response.body else .failed))),
      .accepted r did)
  | .finish r outcome =>
    if lost then (s, none, .returned r outcome false)
    else
      let (s, did) := CommercialLlmPool.release now r s
      (s, none, .returned r outcome did)

/-- A `wait` whose own clock has reached the deadline. -/
def Phase.expire : Phase → Phase
  | .wait r => .finish r (some .timeout)
  | phase => phase

/-- A `wait` that is told to stop. -/
def Phase.stop : Phase → Phase
  | .wait r | .accept r _ _ => .finish r none
  | phase => phase

structure Pool (ω : Type) where
  store : Store
  client : ω → Option Phase

inductive Move (ω : Type)
  | call (w : ω) (c : Call)
  | resume (w : ω) (late lost : Bool)
  | expire (w : ω)
  | stop (w : ω)
  | crash (w : ω)
  | others (o : Others)

variable {ω : Type}

def Pool.start : Pool ω := ⟨Store.empty, fun _ => none⟩

variable [DecidableEq ω]

/-- One step of one client. What has expired is gone before it. -/
def step (P : Protocol) (now : Nat) (move : Move ω) (p : Pool ω) : Pool ω × Reply :=
  let s := p.store.purge now
  match move with
  | .call w c =>
    match p.client w with
    | some _ => ({ p with store := s }, .silent)
    | none =>
      let (s, phase, reply) := c.start P now s
      (⟨s, Function.update p.client w phase⟩, reply)
  | .resume w late lost =>
    match p.client w with
    | none => ({ p with store := s }, .silent)
    | some phase =>
      let (s, phase, reply) := phase.next P now late lost s
      (⟨s, Function.update p.client w phase⟩, reply)
  | .expire w => (⟨s, Function.update p.client w ((p.client w).map Phase.expire)⟩, .silent)
  | .stop w => (⟨s, Function.update p.client w ((p.client w).map Phase.stop)⟩, .silent)
  | .crash w => (⟨s, Function.update p.client w none⟩, .silent)
  | .others o => ({ p with store := { s with others := o } }, .silent)

abbrev Event (ω : Type) := Entry (Move ω) Reply

def Move.drawn : Move ω → Option String
  | .call _ (.reserve _ _ _ id) => some id
  | _ => none

/-- Every job has one deadline, and `randomUUID` draws no identifier twice. -/
def Asks (deadline : String → Nat) (h : List (Event ω)) (_now : Nat) (move : Move ω) : Prop :=
  (∀ w nodeId request consultation id, move = .call w (.reserve nodeId request consultation id) →
    request.deadlineAtMs = deadline request.jobId) ∧
  ∀ id, move.drawn = some id → ∀ e ∈ h, e.request.drawn ≠ some id

abbrev PoolRun (P : Protocol) (deadline : String → Nat) : List (Event ω) → Nat → Pool ω → Prop :=
  Run (step P) (Asks deadline) Pool.start

end Maxim.Moderation.CommercialLlmPool

/-!
## What the scripts write

Most scripts only take slots and responses away. A reservation writes a slot
and a job record, an answer writes a response, and a job record is written back
once, as released or as complete.
-/

namespace Maxim.Moderation.CommercialLlmPool

open Maxim.Library

variable {now : Nat} {s s' : Store} {r : Reservation}

@[simp] theorem setNode_node_same (s : Store) (nodeId : CommercialLlmPoolNodeId) (n : Node) :
    (s.setNode nodeId n).node nodeId = n := Function.update_self _ _ _

theorem setNode_node_other (s : Store) {nodeId m : CommercialLlmPoolNodeId} (n : Node)
    (h : m ≠ nodeId) : (s.setNode nodeId n).node m = s.node m := Function.update_of_ne h _ _

/-- Slots and responses stay or go, and nothing is written. -/
structure Shrinks (s s' : Store) : Prop where
  slot : ∀ n, (s'.node n).slot = (s.node n).slot ∨ (s'.node n).slot = none
  response : ∀ n, (s'.node n).response = (s.node n).response ∨ (s'.node n).response = none

structure Quiet (s s' : Store) : Prop extends Shrinks s s' where
  job : s'.job = s.job

theorem Shrinks.of_node (h : s'.node = s.node) : Shrinks s s' :=
  ⟨fun n => .inl (by rw [h]), fun n => .inl (by rw [h])⟩

theorem Quiet.refl (s : Store) : Quiet s s := ⟨.of_node rfl, rfl⟩

theorem Quiet.of_others (s : Store) (o : Others) : Quiet s { s with others := o } := ⟨.of_node rfl, rfl⟩

theorem Shrinks.setNode {nodeId : CommercialLlmPoolNodeId} {n : Node}
    (hslot : n.slot = (s.node nodeId).slot ∨ n.slot = none)
    (hresponse : n.response = (s.node nodeId).response ∨ n.response = none) :
    Shrinks s (s.setNode nodeId n) := by
  constructor
  · intro m
    by_cases hm : m = nodeId
    · subst hm
      rwa [setNode_node_same]
    · exact .inl (by rw [setNode_node_other s n hm])
  · intro m
    by_cases hm : m = nodeId
    · subst hm
      rwa [setNode_node_same]
    · exact .inl (by rw [setNode_node_other s n hm])

theorem filter_self_or_none {α : Type} (o : Option α) (p : α → Bool) :
    o.filter p = o ∨ o.filter p = none := by
  cases o with
  | none => exact .inl rfl
  | some a =>
    by_cases hp : p a = true
    · exact .inl (by simp [Option.filter, hp])
    · exact .inr (by simp [Option.filter, hp])

/-! ## Workers -/

theorem quiet_acquireWorker (nodeId : CommercialLlmPoolNodeId) (session : String) :
    Quiet s (acquireWorker now nodeId session s).1 := by
  rw [acquireWorker]
  split
  · exact .refl s
  · exact ⟨.setNode (.inl rfl) (.inl rfl), rfl⟩

theorem quiet_refreshWorker (nodeId : CommercialLlmPoolNodeId) (session : String) (ready : Bool) :
    Quiet s (refreshWorker now nodeId session ready s).1 := by
  rw [refreshWorker]
  split
  · exact .refl s
  · exact ⟨.setNode (.inl rfl) (.inl rfl), rfl⟩

theorem quiet_releaseWorker (nodeId : CommercialLlmPoolNodeId) (session : String) :
    Quiet s (releaseWorker nodeId session s) := by
  rw [releaseWorker]
  split
  · exact .refl s
  · exact ⟨.setNode (filter_self_or_none _ _) (filter_self_or_none _ _), rfl⟩

/-! ## Reservation -/

/-- What a granted reservation found, and what it wrote. -/
structure Granted (now : Nat) (next : Reservation) (s s' : Store) : Prop where
  early : now < next.deadlineAtMs
  lease : content (s.node next.nodeId).lease = some next.session
  replaced : ∀ slot, content (s.node next.nodeId).slot = some slot → slot.session ≠ next.session
  fence : fenceAllows next (content (s.job next.jobId)) = true
  job : s'.job = put s.job next.jobId (cell next.job next.deadlineAtMs)
  slot : (s'.node next.nodeId).slot = cell next next.deadlineAtMs
  response : (s'.node next.nodeId).response = none
  node : ∀ n, n ≠ next.nodeId → s'.node n = s.node n

theorem reserve_spec (next : Reservation) (heartbeat : Heartbeat) (consultation : Bool) :
    (reserve now next heartbeat consultation s).2 = false ∧
        Quiet s (reserve now next heartbeat consultation s).1 ∨
      (reserve now next heartbeat consultation s).2 = true ∧
        Granted now next s (reserve now next heartbeat consultation s).1 := by
  rw [reserve]
  dsimp only
  split
  · exact .inl ⟨rfl, .refl s⟩
  rename_i htime
  split
  · exact .inl ⟨rfl, .refl s⟩
  rename_i hlease
  split
  · exact .inl ⟨rfl, .refl s⟩
  rename_i hslot
  generalize (if consultation = true then yields now s.others else (s.others, true)) = free
  split
  · exact .inl ⟨rfl, .of_others s _⟩
  split
  · exact .inl ⟨rfl, .of_others s _⟩
  rename_i hfence
  refine .inr ⟨rfl, ?_⟩
  rw [not_or, not_le] at htime
  rw [not_or, not_not] at hlease
  refine ⟨htime.1, hlease.1, fun slot hsome heq => ?_, not_not.mp hfence, rfl, ?_, ?_, fun n hn => ?_⟩
  · exact hslot (by rw [hsome, Option.any_some, heq, beq_self_eq_true])
  · dsimp only
    rw [Function.update_self]
  · dsimp only
    rw [Function.update_self]
  · exact Function.update_of_ne hn _ _

/-! ## Responses -/

/-- What an answer found, and what it wrote. -/
structure Sent (nodeId : CommercialLlmPoolNodeId) (session id body : String) (slot : Reservation)
    (s s' : Store) : Prop where
  lease : content (s.node nodeId).lease = some session
  slot : content (s.node nodeId).slot = some slot
  empty : content (s.node nodeId).response = none
  job : s'.job = s.job
  kept : (s'.node nodeId).slot = (s.node nodeId).slot
  response : ∃ x, (s'.node nodeId).response = cell ⟨session, id, body⟩ x
  node : ∀ n, n ≠ nodeId → s'.node n = s.node n

theorem respond_spec (nodeId : CommercialLlmPoolNodeId) (session id body : String) (slot : Reservation) :
    (respond now nodeId session id body slot s).2 = false ∧
        Quiet s (respond now nodeId session id body slot s).1 ∨
      (respond now nodeId session id body slot s).2 = true ∧
        Sent nodeId session id body slot s (respond now nodeId session id body slot s).1 := by
  rw [respond]
  split
  · exact .inl ⟨rfl, .refl s⟩
  rename_i hread
  rw [not_or, not_not, not_not] at hread
  split
  · exact .inl ⟨rfl, .refl s⟩
  split
  · exact .inl ⟨rfl, .setNode (.inr rfl) (.inr rfl), rfl⟩
  split
  · exact .inl ⟨rfl, .refl s⟩
  rename_i hempty
  rw [Option.isSome_iff_ne_none, not_not] at hempty
  refine .inr ⟨rfl, hread.1, hread.2, hempty, rfl, ?_, ⟨now + pttl now (s.node nodeId).slot, ?_⟩,
    fun n hn => ?_⟩
  · rw [setNode_node_same]
  · rw [setNode_node_same]
  · exact setNode_node_other s _ hn

/-! ## Job records -/

/-- A pending record is written back with another state, and keeps its expiry. -/
structure Rewritten (now : Nat) (jobId : String) (job : Job) (state : JobState) (s s' : Store) : Prop
    extends Shrinks s s' where
  stored : content (s.job jobId) = some job
  pending : job.state = .pending
  lives : 0 < pttl now (s.job jobId)
  job : s'.job = put s.job jobId (cell (job.encoded state) (now + pttl now (s.job jobId)))

theorem cleanUp_shrinks (r : Reservation) (s : Store) : Shrinks s (cleanUp r s) := by
  rw [cleanUp]
  split
  · exact .setNode (filter_self_or_none _ _) (filter_self_or_none _ _)
  · exact .of_node rfl

theorem cleanUp_job (r : Reservation) (s : Store) : (cleanUp r s).job = s.job := by
  rw [cleanUp]
  split <;> rfl

theorem releasable_eq_some {job : Job} (h : releasable now r s = some job) :
    content (s.job r.jobId) = some job ∧ job.same r.id r.session = true ∧ job.state = .pending ∧
      0 < pttl now (s.job r.jobId) := by
  obtain ⟨hsome, hall⟩ := Option.filter_eq_some_iff.mp h
  simp only [Bool.and_eq_true, beq_iff_eq, decide_eq_true_eq] at hall
  exact ⟨hsome, hall.1.1, hall.1.2, hall.2⟩

theorem release_spec (r : Reservation) :
    (release now r s).2 = false ∧ Quiet s (release now r s).1 ∨
      (release now r s).2 = true ∧ ∃ job, job.same r.id r.session = true ∧
        Rewritten now r.jobId job .released s (release now r s).1 := by
  rw [release]
  cases hjob : releasable now r s with
  | none => exact .inl ⟨rfl, cleanUp_shrinks r s, cleanUp_job r s⟩
  | some job =>
    obtain ⟨hstored, hsame, hpending, hlives⟩ := releasable_eq_some hjob
    refine .inr ⟨rfl, job, hsame, ?_, hstored, hpending, hlives, ?_⟩
    · have h := cleanUp_shrinks r (setState now r.jobId job .released s)
      exact ⟨h.slot, h.response⟩
    · rw [cleanUp_job, setState]

theorem releaseUndispatched_spec (r : Reservation) :
    (releaseUndispatched now r s).2 = false ∧ Quiet s (releaseUndispatched now r s).1 ∨
      (releaseUndispatched now r s).2 = true ∧ ∃ job, job.same r.id r.session = true ∧
        Rewritten now r.jobId job .released s (releaseUndispatched now r s).1 := by
  rw [releaseUndispatched]
  split
  · exact .inl ⟨rfl, .refl s⟩
  cases hjob : releasable now r s with
  | none => exact .inl ⟨rfl, .refl s⟩
  | some job =>
    obtain ⟨hstored, hsame, hpending, hlives⟩ := releasable_eq_some hjob
    refine .inr ⟨rfl, job, hsame, ?_, hstored, hpending, hlives, rfl⟩
    have h : Shrinks (setState now r.jobId job .released s)
        ((setState now r.jobId job .released s).setNode r.nodeId
          { s.node r.nodeId with slot := none }) := .setNode (.inr rfl) (.inl rfl)
    exact ⟨h.slot, h.response⟩

theorem accept_spec (r : Reservation) (response : Response) (job : Job) :
    (accept now r response job s).2 = false ∧ Quiet s (accept now r response job s).1 ∨
      (accept now r response job s).2 = true ∧ content (s.node r.nodeId).response = some response ∧
        Rewritten now r.jobId job .complete s (accept now r response job s).1 := by
  rw [accept]
  split
  · exact .inl ⟨rfl, .refl s⟩
  rename_i hread
  simp only [not_or, not_not] at hread
  split
  · exact .inl ⟨rfl, .refl s⟩
  rename_i hjob
  simp only [not_or, not_not] at hjob
  exact .inr ⟨rfl, hread.2.2.1, .of_node rfl, hread.2.2.2, hjob.1, Nat.pos_of_ne_zero hjob.2.1, rfl⟩

end Maxim.Moderation.CommercialLlmPool
