import Mathlib.Data.Prod.Lex
import Maxim.Library.Json
import Maxim.Library.Run

/-!
# Deferred scopes of the outbox

Receipts that a poll cannot take are remembered by scope: a scope retains two
exact receipts and covers the others by two intervals, one that a reader is
crossing and one for the next pass. Beyond a limit of scopes the overflow scope
covers everything.
-/

namespace Maxim.Webhook.DeferredScopes

open Maxim.Library

inductive WorkClass
  | ordinary
  | interactive
  | lifecycle
  deriving DecidableEq, Repr

def WorkClass.text : WorkClass → String
  | .ordinary => "ordinary"
  | .interactive => "interactive"
  | .lifecycle => "lifecycle"

structure WebhookPreparationScope where
  botId : String
  workClass : WorkClass
  deriving DecidableEq, Repr

/-- `JSON.stringify([scope.botId, scope.workClass])`. -/
def webhookPreparationScopeKey (scope : WebhookPreparationScope) : List Char :=
  '[' :: Json.quoted scope.botId.toList ++ ',' :: Json.quoted scope.workClass.text.toList ++ [']']

structure DeferredScopeCursor (ι : Type) where
  id : ι
  createdAt : Nat
  deriving DecidableEq, Repr

structure Interval (ι : Type) where
  first : DeferredScopeCursor ι
  last : DeferredScopeCursor ι
  deriving DecidableEq, Repr

/-- `retained` lists the work units in the order in which they were first retained. -/
structure DeferredScopeState (υ ι : Type) where
  key : List Char
  scope : Option WebhookPreparationScope
  current : Option (Interval ι)
  after : Option (DeferredScopeCursor ι)
  next : Option (Interval ι)
  retained : List (υ × DeferredScopeCursor ι)
  deriving DecidableEq, Repr

def DEFERRED_SCOPE_LIMIT : Nat := 32
def DEFERRED_SCOPE_IDENTITIES : Nat := 2
def OVERFLOW_SCOPE : List Char := "overflow".toList

structure DeferredWebhookScopes (υ ι : Type) where
  states : List (DeferredScopeState υ ι)
  readOffset : Nat
  identityOffset : Nat
  deriving DecidableEq, Repr

def DeferredWebhookScopes.empty {υ ι : Type} : DeferredWebhookScopes υ ι := ⟨[], 0, 0⟩

variable {υ ι : Type} [DecidableEq υ] [LinearOrder ι]

def compare (left right : DeferredScopeCursor ι) : Int :=
  let time := (left.createdAt : Int) - right.createdAt
  if time ≠ 0 then time else if left.id < right.id then -1 else if right.id < left.id then 1 else 0

def includeCursor (interval : Option (Interval ι)) (cursor : DeferredScopeCursor ι) : Interval ι :=
  match interval with
  | some interval =>
    ⟨if compare cursor interval.first < 0 then cursor else interval.first,
      if 0 < compare cursor interval.last then cursor else interval.last⟩
  | none => ⟨cursor, cursor⟩

/-! ## One state -/

namespace DeferredScopeState

def receipt (state : DeferredScopeState υ ι) (workUnitKey : υ) : Option (DeferredScopeCursor ι) :=
  state.retained.lookup workUnitKey

/-- The last lines of `capture`. -/
def capture (state : DeferredScopeState υ ι) (workUnitKey : υ) (cursor : DeferredScopeCursor ι) :
    DeferredScopeState υ ι :=
  if (state.receipt workUnitKey).any fun c => decide (c.id = cursor.id) then state
  else if state.current.isSome then { state with next := some (includeCursor state.next cursor) }
  else { state with current := some (includeCursor state.current cursor) }

/-- `retained.set` of a work unit that is retained. -/
def replace (state : DeferredScopeState υ ι) (workUnitKey : υ) (cursor : DeferredScopeCursor ι) :
    DeferredScopeState υ ι :=
  { state with retained := state.retained.map fun e => if e.1 = workUnitKey then (e.1, cursor) else e }

def retain (state : DeferredScopeState υ ι) (workUnitKey : υ) (cursor : DeferredScopeCursor ι) :
    DeferredScopeState υ ι × Bool :=
  match state.receipt workUnitKey with
  | some existing =>
    if existing.id ≠ cursor.id then
      if compare existing cursor ≤ 0 then
        ({ state with next := some (includeCursor state.next cursor) }, true)
      else
        ({ state.replace workUnitKey cursor with next := some (includeCursor state.next existing) }, true)
    else (state, true)
  | none =>
    if DEFERRED_SCOPE_IDENTITIES ≤ state.retained.length then (state, false)
    else ({ state with retained := state.retained ++ [(workUnitKey, cursor)] }, true)

def promote (state : DeferredScopeState υ ι) : DeferredScopeState υ ι :=
  match state.current, state.next with
  | none, some next => { state with current := some next, next := none, after := none }
  | _, _ => state

/-- `advance` before the state is pruned. -/
def advance (state : DeferredScopeState υ ι) (after : Option (DeferredScopeCursor ι))
    (complete : Bool) : DeferredScopeState υ ι :=
  let state := if after.isSome then { state with after := after } else state
  if complete then promote { state with current := none, after := none } else state

/-- `release` before the state is pruned. -/
def release (state : DeferredScopeState υ ι) (workUnitKey : υ) (receiptId : ι) :
    DeferredScopeState υ ι :=
  if (state.receipt workUnitKey).any fun c => decide (c.id = receiptId) then
    { state with retained := state.retained.filter fun e => e.1 ≠ workUnitKey }
  else state

/-- What `prune` deletes. -/
def idle (state : DeferredScopeState υ ι) : Bool :=
  state.current.isNone && state.next.isNone && state.retained.isEmpty

end DeferredScopeState

/-! ## All states -/

namespace DeferredWebhookScopes

def find (scopes : DeferredWebhookScopes υ ι) (key : List Char) : Option (DeferredScopeState υ ι) :=
  scopes.states.find? fun state => state.key = key

def has (scopes : DeferredWebhookScopes υ ι) (key : List Char) : Bool := (scopes.find key).isSome

def modify (scopes : DeferredWebhookScopes υ ι) (key : List Char)
    (f : DeferredScopeState υ ι → DeferredScopeState υ ι) : DeferredWebhookScopes υ ι :=
  { scopes with states := scopes.states.map fun state => if state.key = key then f state else state }

def capture (scopes : DeferredWebhookScopes υ ι) (scope : Option WebhookPreparationScope)
    (workUnitKey : υ) (cursor : DeferredScopeCursor ι) : DeferredWebhookScopes υ ι :=
  let requestedKey := match scope with
    | some scope => webhookPreparationScopeKey scope
    | none => OVERFLOW_SCOPE
  let key :=
    if scopes.has requestedKey ∨ scopes.states.length < DEFERRED_SCOPE_LIMIT then requestedKey
    else OVERFLOW_SCOPE
  let scopes :=
    if scopes.has key then scopes
    else { scopes with
      states := scopes.states ++ [⟨key, if key = OVERFLOW_SCOPE then none else scope, none, none, none, []⟩] }
  scopes.modify key fun state => state.capture workUnitKey cursor

/-- The rotation of the states that `selectReaders` and `identities` walk. -/
def ordered (scopes : DeferredWebhookScopes υ ι) (offset : Nat) : List (DeferredScopeState υ ι) :=
  scopes.states.drop (offset % scopes.states.length) ++
    scopes.states.take (offset % scopes.states.length)

def readable (state : DeferredScopeState υ ι) : Bool :=
  state.promote.current.isSome && decide (state.retained.length < DEFERRED_SCOPE_IDENTITIES)

/-- The walk of `selectReaders`: how many states it visits until enough are selected. -/
def visited (take : Nat) : List (DeferredScopeState υ ι) → Nat → Nat
  | [], _ => 0
  | state :: rest, selected =>
    let selected := if readable state then selected + 1 else selected
    if take ≤ selected then 1 else visited take rest selected + 1

def selectReaders (scopes : DeferredWebhookScopes υ ι) (take : Nat) :
    DeferredWebhookScopes υ ι × List (List Char) :=
  let walked := (scopes.ordered scopes.readOffset).take
    (visited take (scopes.ordered scopes.readOffset) 0)
  let offset := scopes.readOffset % scopes.states.length
  if scopes.states.isEmpty then (scopes, [])
  else
    ({ scopes with
        states := scopes.states.map fun state =>
          if walked.any fun w => decide (w.key = state.key) then state.promote else state
        readOffset := (offset + walked.length) % scopes.states.length },
      (walked.filter readable).map DeferredScopeState.key)

/-- One identity per scope before any scope receives its second slot. -/
def identities (scopes : DeferredWebhookScopes υ ι) (take : Nat) :
    DeferredWebhookScopes υ ι × List (υ × ι × Option WebhookPreparationScope) :=
  let ranks := (List.range DEFERRED_SCOPE_IDENTITIES).flatMap fun rank =>
    (scopes.ordered scopes.identityOffset).filterMap fun state =>
      state.retained[rank]?.map fun e => (e.1, e.2.id, state.scope)
  if scopes.states.isEmpty then (scopes, [])
  else
    ({ scopes with
        identityOffset := (scopes.identityOffset % scopes.states.length + 1) % scopes.states.length },
      ranks.take take)

/-- `advance`: the state moves on and is pruned. -/
def advance (scopes : DeferredWebhookScopes υ ι) (key : List Char)
    (after : Option (DeferredScopeCursor ι)) (complete : Bool) : DeferredWebhookScopes υ ι :=
  let moved := scopes.modify key fun state => state.advance after complete
  { moved with states := moved.states.filter fun state => !(decide (state.key = key) && state.idle) }

/-- `release`: every state gives the receipt back and is pruned. -/
def release (scopes : DeferredWebhookScopes υ ι) (workUnitKey : υ) (receiptId : ι) :
    DeferredWebhookScopes υ ι :=
  { scopes with
    states := (scopes.states.map fun state => state.release workUnitKey receiptId).filter
      fun state => !state.idle }

end DeferredWebhookScopes

end Maxim.Webhook.DeferredScopes

/-!
## The reader of the deferred scopes

A poll selects scopes and reads one page of each: the rows of the interval that
the scope is crossing, behind its cursor. Receipts are captured and released at
any time, also between the query of a page and the walk over its rows.
-/

namespace Maxim.Webhook.DeferredScopes

open Maxim.Library

def DEFERRED_SCOPE_RAW_PAGE_SIZE : Nat := 64

/-- A row of a page: what the service reads off it, and whether it is a current representative. -/
structure Row (υ ι : Type) where
  cursor : DeferredScopeCursor ι
  workUnitKey : υ
  scope : WebhookPreparationScope
  current : Bool
  deriving DecidableEq, Repr

/-- A selected scope, and the page that was read for it. -/
structure Reader (υ ι : Type) where
  key : List Char
  page : Option (List (Row υ ι))

structure System (υ ι : Type) where
  scopes : DeferredWebhookScopes υ ι
  reading : List (Reader υ ι)

def System.start {υ ι : Type} : System υ ι := ⟨.empty, []⟩

inductive Request (υ ι : Type)
  | capture (scope : Option WebhookPreparationScope) (workUnitKey : υ) (cursor : DeferredScopeCursor ι)
  | selectReaders (take : Nat)
  /-- The database answers the page query of the first reader. -/
  | page (table : List (Row υ ι))
  | pageFailed
  /-- The walk over the page of the first reader. -/
  | visit
  | identities (take : Nat)
  | release (workUnitKey : υ) (receiptId : ι)

inductive Reply (υ ι : Type)
  | done
  | selected (keys : List (List Char))
  | visited (rows : List (Row υ ι))
  | identities (items : List (υ × ι × Option WebhookPreparationScope))

variable {υ ι : Type} [DecidableEq υ] [LinearOrder ι]

def DeferredScopeCursor.position (c : DeferredScopeCursor ι) : Nat ×ₗ ι := toLex (c.createdAt, c.id)

def deferredScopePage (state : DeferredScopeState υ ι) (table : List (Row υ ι)) : List (Row υ ι) :=
  (table.filter fun row =>
    (state.current.any fun i => decide (i.first.position ≤ row.cursor.position) &&
      decide (row.cursor.position ≤ i.last.position)) &&
    state.after.all fun a => decide (a.position < row.cursor.position)).take
    (DEFERRED_SCOPE_RAW_PAGE_SIZE + 1)

/-- One row of the walk; `none` is a row whose retain returned false. -/
def visitRow (key : List Char) (row : Row υ ι) (scopes : DeferredWebhookScopes υ ι) :
    Option (DeferredWebhookScopes υ ι) :=
  if row.current then
    match scopes.find key with
    | some state =>
      if state.scope.isSome ∧ webhookPreparationScopeKey row.scope ≠ state.key then
        some (scopes.capture (some row.scope) row.workUnitKey row.cursor)
      else if (state.retain row.workUnitKey row.cursor).2 then
        some (scopes.modify key fun state => (state.retain row.workUnitKey row.cursor).1)
      else none
    | none => some scopes
  else some scopes

/-- The walk: the scopes, the rows it visited, and whether a row stopped it. -/
def visitRows (key : List Char) :
    List (Row υ ι) → DeferredWebhookScopes υ ι → DeferredWebhookScopes υ ι × List (Row υ ι) × Bool
  | [], scopes => (scopes, [], false)
  | row :: rest, scopes =>
    match visitRow key row scopes with
    | none => (scopes, [], true)
    | some scopes =>
      let r := visitRows key rest scopes
      (r.1, row :: r.2.1, r.2.2)

/-- The walk over a page, and `advance`. -/
def visitPage (key : List Char) (rows : List (Row υ ι)) (scopes : DeferredWebhookScopes υ ι) :
    DeferredWebhookScopes υ ι × List (Row υ ι) :=
  let r := visitRows key (rows.take DEFERRED_SCOPE_RAW_PAGE_SIZE) scopes
  let after := match r.2.1.getLast? with
    | some row => some row.cursor
    | none => (scopes.find key).bind DeferredScopeState.after
  (r.1.advance key after (!r.2.2 && decide (rows.length ≤ DEFERRED_SCOPE_RAW_PAGE_SIZE)), r.2.1)

/-- One operation of the outbox on the deferred scopes. -/
def step (_now : Nat) (request : Request υ ι) (s : System υ ι) : System υ ι × Reply υ ι :=
  match request with
  | .capture scope workUnitKey cursor =>
    ({ s with scopes := s.scopes.capture scope workUnitKey cursor }, .done)
  | .selectReaders take =>
    let r := s.scopes.selectReaders take
    (⟨r.1, r.2.map fun key => ⟨key, none⟩⟩, .selected r.2)
  | .page table =>
    match s.reading with
    | ⟨key, none⟩ :: rest =>
      ({ s with reading :=
          ⟨key, (s.scopes.find key).map fun state => deferredScopePage state table⟩ :: rest }, .done)
    | _ => (s, .done)
  | .pageFailed =>
    match s.reading with
    | ⟨_, none⟩ :: rest => ({ s with reading := rest }, .done)
    | _ => (s, .done)
  | .visit =>
    match s.reading with
    | ⟨key, some rows⟩ :: rest =>
      let r := visitPage key rows s.scopes
      (⟨r.1, rest⟩, .visited r.2)
    | _ => (s, .done)
  | .identities take =>
    let r := s.scopes.identities take
    ({ s with scopes := r.1 }, .identities r.2)
  | .release workUnitKey receiptId =>
    ({ s with scopes := s.scopes.release workUnitKey receiptId }, .done)

end Maxim.Webhook.DeferredScopes
