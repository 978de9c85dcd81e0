import Maxim.Library.Run
import Maxim.Library.Window
import Maxim.Moderation.CommercialCampaign.SlidingWindow

/-!
# The flood gate of the automatic replies

A message is admitted when its sender and its chat are below their limits in
two sliding windows. The admitted messages of a sender and of a chat are two
sorted sets; what was decided about a message is kept longer than both windows.
-/

namespace Maxim.Publisher.AutoReply.FloodGate

open Maxim.Library
open Maxim.Moderation.CommercialCampaign.SlidingWindow (tostring tostring_lt_iff)

def PUBLISHER_AUTO_REPLY_FLOOD_GATE_BURST_WINDOW_SEC : Nat := 10
def PUBLISHER_AUTO_REPLY_FLOOD_GATE_ROLLING_WINDOW_SEC : Nat := 60
def PUBLISHER_AUTO_REPLY_FLOOD_GATE_DECISION_TTL_SEC : Nat := 120

def burstWindowMs : Nat := PUBLISHER_AUTO_REPLY_FLOOD_GATE_BURST_WINDOW_SEC * 1000
def rollingWindowMs : Nat := PUBLISHER_AUTO_REPLY_FLOOD_GATE_ROLLING_WINDOW_SEC * 1000
def decisionTtlMs : Nat := PUBLISHER_AUTO_REPLY_FLOOD_GATE_DECISION_TTL_SEC * 1000
def setTtlMs : Nat := (PUBLISHER_AUTO_REPLY_FLOOD_GATE_ROLLING_WINDOW_SEC + 1) * 1000

structure FloodGateLimits where
  userBurstLimit : Nat
  userRollingLimit : Nat
  chatBurstLimit : Nat
  chatRollingLimit : Nat

structure FloodGateIdentity where
  publisherBotId : String
  chatId : String
  senderUserId : String
  sourceMessageId : String
  deriving DecidableEq

/-- `requireIdentity` of every part. -/
def FloodGateIdentity.normalize (i : FloodGateIdentity) : Option FloodGateIdentity :=
  match nullableString (some i.publisherBotId), nullableString (some i.chatId),
    nullableString (some i.senderUserId), nullableString (some i.sourceMessageId) with
  | some publisherBotId, some chatId, some senderUserId, some sourceMessageId =>
    some ⟨publisherBotId, chatId, senderUserId, sourceMessageId⟩
  | _, _, _, _ => none

inductive UpstreamDenial
  | backlogLimit
  | backlogUnavailable
  deriving DecidableEq

/-- A call of `reserve` or `replay`. `deadlineMs` is the caller's clock and its command timeout. -/
structure Request where
  identity : FloodGateIdentity
  upstreamDenialReason : Option UpstreamDenial
  replayOnly : Bool
  deadlineMs : Nat

/-- The digests in the keys; the names of the keys keep decisions, senders and chats apart. -/
structure Keys (δ : Type) where
  chat : δ
  user : δ
  decision : δ
  deriving DecidableEq

variable {δ : Type}

def buildKeys (digest : List String → δ) (i : FloodGateIdentity) : Option (Keys δ) :=
  i.normalize.map fun i =>
    { chat := digest ["chat", i.publisherBotId, i.chatId]
      user := digest ["user", i.publisherBotId, i.chatId, i.senderUserId]
      decision := digest ["decision", i.publisherBotId, i.chatId, i.sourceMessageId] }

/-- The keys of the gate. A decision is a number, written as text. -/
structure Gate (δ : Type) where
  decisions : Slots (δ × δ) Nat
  users : Slots (δ × δ) (Table δ Nat)
  chats : Slots δ (Table δ Nat)

def Gate.empty : Gate δ := ⟨fun _ => none, fun _ => none, fun _ => none⟩

/-- What the script answers: a status, and the reason of a denial. -/
abbrev Raw := Int × Nat

def encodeUpstreamDenialReason : Option UpstreamDenial → Nat
  | none => 0
  | some .backlogLimit => 5
  | some .backlogUnavailable => 6

/-- What a stored decision answers. -/
def replayed (decision : Nat) : Raw :=
  if decision = 1 then (2, 0)
  else if 11 ≤ decision ∧ decision ≤ 16 then (0, decision - 10)
  else (-1, 0)

variable [LinearOrder δ]

def zcountAbove (s : Slot (Table δ Nat)) (lo : Int) : Nat :=
  ((ranked s).filter fun e => decide (lo < ((ofLex e).1 : Int))).length

/-- The first limit that is reached. -/
def denyReason (limits : FloodGateLimits) (userBurst userRolling chatBurst chatRolling : Nat) : Nat :=
  if limits.userBurstLimit ≤ userBurst then 1
  else if limits.userRollingLimit ≤ userRolling then 2
  else if limits.chatBurstLimit ≤ chatBurst then 3
  else if limits.chatRollingLimit ≤ chatRolling then 4
  else 0

def Keys.decisionKey (k : Keys δ) : δ × δ := (k.chat, k.decision)

def Keys.userKey (k : Keys δ) : δ × δ := (k.chat, k.user)

/-- `SET … EX` of a decision. -/
def Gate.decide (g : Gate δ) (now : Nat) (k : Keys δ) (decision : Nat) : Gate δ :=
  { g with decisions := put g.decisions k.decisionKey (cell decision (now + decisionTtlMs)) }

/-- The set of a window after `ZREMRANGEBYSCORE`. -/
def trimmed (now : Nat) (s : Slot (Table δ Nat)) : Slot (Table δ Nat) :=
  removeScored (purge now s) (now - rollingWindowMs)

/-- The two sets after the script has trimmed them. -/
def Gate.trim (g : Gate δ) (now : Nat) (k : Keys δ) : Gate δ :=
  { g with
    users := put g.users k.userKey (trimmed now (g.users k.userKey))
    chats := put g.chats k.chat (trimmed now (g.chats k.chat)) }

/-- `ZADD` and `PEXPIRE`. -/
def entered (now : Nat) (member : δ) (s : Slot (Table δ Nat)) : Slot (Table δ Nat) :=
  expireAt (now + setTtlMs) (setField s member now)

/-- The two sets after an admission. -/
def Gate.enter (g : Gate δ) (now : Nat) (k : Keys δ) : Gate δ :=
  { g with
    users := put g.users k.userKey (entered now k.decision (g.users k.userKey))
    chats := put g.chats k.chat (entered now k.decision (g.chats k.chat)) }

/-- The script on a message without a decision, after its sets are trimmed. -/
def admission (limits : FloodGateLimits) (now : Nat) (k : Keys δ) (g : Gate δ) : Gate δ × Raw :=
  let user := g.users k.userKey
  let chat := g.chats k.chat
  match field user k.decision, field chat k.decision with
  | some _, some _ => (g.decide now k 1, (2, 0))
  | none, none =>
    let burstMin := tostring (now - burstWindowMs)
    let reason := denyReason limits (zcountAbove user burstMin) (zcard user)
      (zcountAbove chat burstMin) (zcard chat)
    if reason ≠ 0 then (g.decide now k (reason + 10), (0, reason))
    else ((g.enter now k).decide now k 1, (1, 0))
  | _, _ => (g, (-1, 0))

def script (limits : FloodGateLimits) (now : Nat) (k : Keys δ) (r : Request) (g : Gate δ) :
    Gate δ × Raw :=
  match content (purge now (g.decisions k.decisionKey)) with
  | some decision => (g, replayed decision)
  | none =>
    if r.replayOnly then (g, (3, 0))
    else if r.deadlineMs ≤ now then (g, (-2, 0))
    else
      let upstreamDenial := encodeUpstreamDenialReason r.upstreamDenialReason
      if upstreamDenial ≠ 0 then (g.decide now k (upstreamDenial + 10), (0, upstreamDenial))
      else admission limits now k (g.trim now k)

/-- One call; one whose identity is refused does not reach the script. -/
def step (digest : List String → δ) (limits : FloodGateLimits) (now : Nat) (r : Request)
    (g : Gate δ) : Gate δ × Option Raw :=
  match buildKeys digest r.identity with
  | none => (g, none)
  | some k =>
    let (g, raw) := script limits now k r g
    (g, some raw)

inductive DenialReason
  | userBurst
  | userRolling
  | chatBurst
  | chatRolling
  | backlogLimit
  | backlogUnavailable
  | decisionMissing
  | unavailable
  deriving DecidableEq

inductive FloodGateResult
  | allowed (replayed : Bool)
  | denied (reason : DenialReason)
  deriving DecidableEq

def denialReason : Nat → Option DenialReason
  | 1 => some .userBurst
  | 2 => some .userRolling
  | 3 => some .chatBurst
  | 4 => some .chatRolling
  | 5 => some .backlogLimit
  | 6 => some .backlogUnavailable
  | _ => none

/-- What `evaluate` makes of the answer of the script; `none` is the ambiguous error. -/
def evaluate (replayOnly : Bool) : Option Raw → Option FloodGateResult
  | none => some (.denied .unavailable)
  | some (status, reason) =>
    if (status = 1 ∨ status = 2) ∧ reason = 0 then
      if replayOnly ∧ status = 1 then none else some (.allowed (status == 2))
    else if status = 3 ∧ reason = 0 then some (.denied .decisionMissing)
    else if status = 0 ∧ (denialReason reason).isSome then (denialReason reason).map .denied
    else if (status = -1 ∨ status = -2) ∧ reason = 0 then some (.denied .unavailable)
    else none

abbrev Event := Entry Request (Option Raw)

abbrev GateRun (digest : List String → δ) (limits : FloodGateLimits) :
    List Event → Nat → Gate δ → Prop :=
  Run (step digest limits) (fun _ _ _ => True) Gate.empty

end Maxim.Publisher.AutoReply.FloodGate
