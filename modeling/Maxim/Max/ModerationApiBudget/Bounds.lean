import Maxim.Library.Expiry
import Maxim.Library.Run
import Maxim.Library.TokenBucket
import Mathlib.Data.Rat.Floor

/-!
# The request budget of muted-user moderation

One script reserves an attempt from two buckets, one of the member in the chat
and one of the chat. A granted attempt may make twelve requests, shared by all
that runs inside of it. Numbers are exact.
-/

namespace Maxim.Max.ModerationApiBudget

open Maxim.Library

def REQUESTS_PER_ATTEMPT : Nat := 12

def MAX_ATTEMPT_DURATION_MS : Nat := 60000

def UNAVAILABLE_RETRY_MS : Nat := 5000

/-! ## The script -/

/-- A stored hash. The one of a chat has no level and no cooldown. -/
structure Row extends Bucket where
  level : Nat := 0
  cooldownUntilMs : Nat := 0
  deriving DecidableEq

/-- The keys of the members and the keys of the chats. -/
structure Store where
  actors : Slots String Row
  chats : Slots String Row

def Store.empty : Store := ⟨fun _ => none, fun _ => none⟩

def Store.purge (now : Nat) (s : Store) : Store :=
  ⟨fun k => Library.purge now (s.actors k), fun k => Library.purge now (s.chats k)⟩

structure Keys where
  chat : String
  actor : String

def maxMuteApiBudgetKeys (sha256 : String → String) (chatId subjectUserId : String) : Keys :=
  let chat := sha256 chatId
  let actor := sha256 subjectUserId
  { chat := "maxapi:mute-budget:v1:\x7b" ++ chat ++ "\x7d:chat"
    actor := "maxapi:mute-budget:v1:\x7b" ++ chat ++ "\x7d:actor:" ++ actor }

/-- `read` of the script; `refill` is for one minute. -/
def read (now : Nat) (capacity refill : ℚ) (actor : Bool) (key : Slot Row) : Option Row :=
  match content key with
  | none => some ⟨⟨capacity, now⟩, 0, 0⟩
  | some row =>
    let level := if actor then row.level else 0
    let untilAt := if actor then row.cooldownUntilMs else 0
    if row.tokens < 0 ∨ capacity < row.tokens ∨ now + 1000 < row.atMs ∨ 3 < level ∨
        now + 3600000 < untilAt then none
    else some
      ⟨⟨min capacity (row.tokens + ((now - row.atMs : Nat) : ℚ) * refill / 60000), now⟩, level, untilAt⟩

def delay : Nat → Nat
  | 1 => 300000
  | 2 => 900000
  | _ => 3600000

/-- The answer of the script: 1 or 0, a wait, and a reason. -/
structure Answer where
  granted : Bool
  waitMs : Nat
  reason : Nat
  deriving DecidableEq

/-- `RESERVE_SCRIPT` on keys that have not expired. -/
def reserve (now : Nat) (keys : Keys) (s : Store) : Store × Answer :=
  match read now 72 120 true (s.actors keys.actor), read now 144 480 false (s.chats keys.chat) with
  | some actor, some chat =>
    if now < actor.cooldownUntilMs then (s, ⟨false, actor.cooldownUntilMs - now, 1⟩)
    else if chat.tokens < 12 then (s, ⟨false, ⌈(12 - chat.tokens) * 60000 / 480⌉.toNat, 2⟩)
    else if actor.tokens < 12 then
      let level := min 3 (actor.level + 1)
      ({ s with
          actors := put s.actors keys.actor
            (cell ⟨⟨actor.tokens, now⟩, level, now + delay level⟩ (now + 86400000)) },
        ⟨false, delay level, 1⟩)
    else
      ({ actors := put s.actors keys.actor
          (cell ⟨⟨actor.tokens - 12, now⟩, actor.level, 0⟩ (now + 86400000))
         chats := put s.chats keys.chat (cell ⟨⟨chat.tokens - 12, now⟩, 0, 0⟩ (now + 60000)) },
        ⟨true, 0, 0⟩)
  | _, _ => (s, ⟨false, 5000, 3⟩)

/-! ## Attempts -/

/-- `MaxMuteApiBudgetScope`; no deadline stands for one that is not finite. -/
structure Scope where
  chatId : String
  subjectUserId : String
  intentId : String
  attemptCount : Nat
  deadlineAtMs : Option Int
  deriving DecidableEq

structure AttemptPermit where
  scope : Scope
  expiresAtMs : Int
  remaining : Nat
  closed : Bool
  deriving DecidableEq

/-- One `MaxModerationApiBudget`. -/
structure Client where
  unavailableUntilMs : Int := 0
  closed : Bool := false
  deriving DecidableEq

inductive Reason
  | actorCooldown
  | chatBudget
  | attemptBudget
  | unavailable
  | expired
  deriving DecidableEq

/-- How a call ends, or that it goes on in its callback. -/
inductive Outcome
  | entered
  | rejected (reason : Reason) (retryAfterMs : Nat)
  /-- A request that is counted. -/
  | consumed
  /-- A request outside of all attempts. -/
  | unbudgeted
  | allowed
  | done
  deriving DecidableEq

/-- What a call shows, with the answer of the script if it has run. -/
structure Reply where
  reservation : Option Answer
  outcome : Outcome
  deriving DecidableEq

/-- What becomes of the script: it does not run, its answer is lost, or it answers. -/
inductive Redis
  | unreachable
  | unanswered
  | answered
  deriving DecidableEq

/-- The clock of the process at the start of `run`, when it connects, and after the script. -/
structure Readings where
  start : Int
  connect : Int
  answer : Int

/-- `γ` names the clients and `α` the asynchronous contexts; the permit of a context is the
`activeAttempt` of everything that runs in it. -/
inductive Event (γ α : Type)
  | run (client : γ) (context : α) (scope : Scope) (clock : Readings) (redis : Redis)
  | consumeRequest (client : γ) (context : α) (localNow : Int)
  | assertRequestAllowed (client : γ) (context : α) (localNow : Int)
  /-- The callback of a granted attempt settles. -/
  | settle (context : α)
  | close (client : γ)

structure World (γ α : Type) where
  store : Store
  clients : γ → Client
  permits : α → Option AttemptPermit

variable {γ α : Type} [DecidableEq γ] [DecidableEq α]

def World.start : World γ α := ⟨Store.empty, fun _ => {}, fun _ => none⟩

/-- `assertLive` throws. -/
def expired (client : Client) (permit : AttemptPermit) (localNow : Int) : Bool :=
  client.closed || permit.closed || permit.expiresAtMs ≤ localNow

def sameAttempt (outer inner : Scope) : Bool :=
  outer.chatId = inner.chatId && outer.subjectUserId = inner.subjectUserId &&
    outer.intentId = inner.intentId && outer.attemptCount = inner.attemptCount

def expiredReply : Reply := ⟨none, .rejected .expired 1000⟩

def setClient (w : World γ α) (client : γ) (c : Client) : World γ α :=
  { w with clients := Function.update w.clients client c }

def setPermit (w : World γ α) (context : α) (permit : AttemptPermit) : World γ α :=
  { w with permits := Function.update w.permits context (some permit) }

/-- `run` has not got an answer. -/
def unavailable (w : World γ α) (client : γ) (localNow : Int) (reservation : Option Answer) :
    World γ α × Reply :=
  (setClient w client { w.clients client with unavailableUntilMs := localNow + UNAVAILABLE_RETRY_MS },
    ⟨reservation, .rejected .unavailable UNAVAILABLE_RETRY_MS⟩)

/-- What `run` makes of the answer of the script. -/
def admission (w : World γ α) (context : α) (scope : Scope) (deadlineAtMs localNow : Int) (answer : Answer) :
    World γ α × Reply :=
  if answer.granted then
    (setPermit w context
      { scope
        expiresAtMs := min deadlineAtMs (localNow + MAX_ATTEMPT_DURATION_MS)
        remaining := REQUESTS_PER_ATTEMPT
        closed := false }, ⟨some answer, .entered⟩)
  else
    let reason := if answer.reason = 1 then .actorCooldown
      else if answer.reason = 2 then .chatBudget else .unavailable
    (w, ⟨some answer, .rejected reason (max 1000 (min 3600000 answer.waitMs))⟩)

/-- `run` until its callback starts. -/
def run (sha256 : String → String) (now : Nat) (client : γ) (context : α) (scope : Scope)
    (clock : Readings) (redis : Redis) (w : World γ α) : World γ α × Reply :=
  match w.permits context with
  | some nested =>
    if !sameAttempt nested.scope scope then (w, ⟨none, .rejected .attemptBudget 1000⟩)
    else if expired (w.clients client) nested clock.start then (w, expiredReply)
    else (w, ⟨none, .entered⟩)
  | none =>
    match scope.deadlineAtMs.filter (clock.start < ·) with
    | none => (w, expiredReply)
    | some deadlineAtMs =>
      let c := w.clients client
      if c.closed || clock.connect < c.unavailableUntilMs || redis = .unreachable then
        unavailable w client clock.answer none
      else
        let (store, answer) :=
          reserve now (maxMuteApiBudgetKeys sha256 scope.chatId scope.subjectUserId) w.store
        if redis = .unanswered then unavailable { w with store } client clock.answer (some answer)
        else admission { w with store } context scope deadlineAtMs clock.answer answer

def consumeRequest (client : γ) (context : α) (localNow : Int) (w : World γ α) : World γ α × Reply :=
  match w.permits context with
  | none => (w, ⟨none, .unbudgeted⟩)
  | some permit =>
    if expired (w.clients client) permit localNow then (w, expiredReply)
    else if permit.remaining = 0 then (w, ⟨none, .rejected .attemptBudget 1000⟩)
    else (setPermit w context { permit with remaining := permit.remaining - 1 }, ⟨none, .consumed⟩)

def assertRequestAllowed (client : γ) (context : α) (localNow : Int) (w : World γ α) :
    World γ α × Reply :=
  match w.permits context with
  | none => (w, ⟨none, .allowed⟩)
  | some permit =>
    if expired (w.clients client) permit localNow then (w, expiredReply) else (w, ⟨none, .allowed⟩)

def settle (context : α) (w : World γ α) : World γ α × Reply :=
  match w.permits context with
  | none => (w, ⟨none, .done⟩)
  | some permit => (setPermit w context { permit with closed := true }, ⟨none, .done⟩)

def close (client : γ) (w : World γ α) : World γ α × Reply :=
  (setClient w client { w.clients client with closed := true }, ⟨none, .done⟩)

/-- One event; `now` is the clock of the store. -/
def step (sha256 : String → String) (now : Nat) (event : Event γ α) (w : World γ α) :
    World γ α × Reply :=
  let w := { w with store := w.store.purge now }
  match event with
  | .run client context scope clock redis => run sha256 now client context scope clock redis w
  | .consumeRequest client context localNow => consumeRequest client context localNow w
  | .assertRequestAllowed client context localNow => assertRequestAllowed client context localNow w
  | .settle context => settle context w
  | .close client => close client w

abbrev BudgetRun (sha256 : String → String) (h : List (Entry (Event γ α) Reply)) (t : Nat)
    (w : World γ α) : Prop :=
  Run (step sha256) (fun _ _ _ => True) World.start h t w

def worldAfter (sha256 : String → String) (h : List (Entry (Event γ α) Reply)) : World γ α :=
  replay (step sha256) World.start h

end Maxim.Max.ModerationApiBudget

/-!
## What the request budget grants

Both buckets obey the same rules with their own capacity and rate. A stored
bucket is full again before it expires, so that nothing is gained when it is
forgotten, and an answer other than a grant leaves the tokens of all buckets as
the passing of time does.
-/

namespace Maxim.Max.ModerationApiBudget

open Maxim.Library

/-! ## Buckets -/

inductive Side
  | actor
  | chat

def Side.capacity : Side → ℚ
  | .actor => 72
  | .chat => 144

def Side.rate : Side → ℚ
  | .actor => 120 / 60000
  | .chat => 480 / 60000

def Store.slot (s : Store) : Side → String → Slot Row
  | .actor => s.actors
  | .chat => s.chats

def Keys.of (keys : Keys) : Side → String
  | .actor => keys.actor
  | .chat => keys.chat

def bucket (slot : Slot Row) : Option Bucket := (content slot).map Row.toBucket

def tokensAt (side : Side) (t : Nat) (slot : Slot Row) : ℚ :=
  level side.capacity side.rate t (bucket slot)

theorem tokensAt_le (side : Side) (t : Nat) (slot : Slot Row) : tokensAt side t slot ≤ side.capacity :=
  level_le _ _ _ _

theorem Side.rate_nonneg (side : Side) : 0 ≤ side.rate := by
  cases side
  · norm_num [Side.rate]
  · norm_num [Side.rate]

theorem Side.capacity_nonneg (side : Side) : 0 ≤ side.capacity := by
  cases side
  · norm_num [Side.capacity]
  · norm_num [Side.capacity]

structure Sound (side : Side) (t : Nat) (slot : Slot Row) : Prop where
  tokens : ∀ row, content slot = some row → 0 ≤ row.tokens ∧ row.tokens ≤ side.capacity
  dated : ∀ row, content slot = some row → row.atMs ≤ t
  level : ∀ row, content slot = some row → row.level ≤ 3
  cooldown : ∀ row, content slot = some row → row.cooldownUntilMs ≤ t + 3600000
  full : ∀ c, slot = some c → ∃ x, c.expiresAt = some x ∧
    FullBy side.capacity side.rate x c.value.toBucket

variable {side : Side} {now t t' : Nat} {slot : Slot Row} {v : ℚ}

theorem sound_none (side : Side) (t : Nat) : Sound side t none := by
  constructor <;> intro x hx <;> cases hx

theorem Sound.mono (h : Sound side t slot) (hle : t ≤ t') : Sound side t' slot where
  tokens := h.tokens
  dated row hrow := (h.dated row hrow).trans hle
  level := h.level
  cooldown row hrow := (h.cooldown row hrow).trans (by omega)
  full := h.full

theorem Sound.purge (h : Sound side t slot) : Sound side t (purge now slot) := by
  rcases purge_eq_self_or_none now slot with hs | hs
  · rwa [hs]
  · rw [hs]
    exact sound_none side t

theorem Sound.tokensAt_purge (h : Sound side t slot) (hle : now ≤ t') :
    tokensAt side t' (Library.purge now slot) = tokensAt side t' slot := by
  cases slot with
  | none => rfl
  | some c =>
    obtain ⟨x, hx, hfull⟩ := h.full c rfl
    by_cases hlive : c.live now = true
    · rw [purge_some_of_live hlive]
    · have hexpired : Library.purge now (some c) = none := by
        rw [purge_eq_none]
        rintro _ ⟨⟩
        simpa using hlive
      have hlt : x < now := by
        simpa [Cell.live, hx] using hlive
      rw [hexpired]
      exact (hfull.level side.rate_nonneg (by omega)).symm

theorem Sound.tokensAt_nonneg (h : Sound side t slot) (t' : Nat) : 0 ≤ tokensAt side t' slot := by
  rw [tokensAt, bucket]
  cases hrow : content slot with
  | none => exact side.capacity_nonneg
  | some row =>
    rw [Option.map_some, level_some]
    refine le_min side.capacity_nonneg ?_
    have hrate : 0 ≤ ((t' - row.atMs : Nat) : ℚ) * side.rate :=
      mul_nonneg (Nat.cast_nonneg _) side.rate_nonneg
    linarith [(h.tokens row hrow).1]

theorem sound_written {level cooldown lifetime : Nat} (h0 : 0 ≤ v) (hv : v ≤ side.capacity)
    (hlevel : level ≤ 3) (hcooldown : cooldown ≤ now + 3600000)
    (hlife : side.capacity ≤ (lifetime : ℚ) * side.rate) :
    Sound side now (cell ⟨⟨v, now⟩, level, cooldown⟩ (now + lifetime)) where
  tokens row hrow := by
    cases hrow
    exact ⟨h0, hv⟩
  dated row hrow := by
    cases hrow
    exact Nat.le_refl now
  level row hrow := by
    cases hrow
    exact hlevel
  cooldown row hrow := by
    cases hrow
    exact hcooldown
  full c hc := by
    cases hc
    refine ⟨now + lifetime, rfl, ?_⟩
    rw [FullBy, Nat.add_sub_cancel_left]
    dsimp only
    linarith

theorem Sound.tokensAt_refilled (h : Sound side now slot) (hle : now ≤ t') {level cooldown x : Nat} :
    tokensAt side t' (cell ⟨⟨tokensAt side now slot, now⟩, level, cooldown⟩ x) =
      tokensAt side t' slot := by
  refine level_refilled side.rate_nonneg (fun b hb => ?_) hle
  obtain ⟨row, hrow, rfl⟩ := Option.map_eq_some_iff.mp hb
  exact h.dated row hrow

/-! ## The script -/

variable {s next : Store} {keys : Keys} {answer : Answer}

def SoundStore (t : Nat) (s : Store) : Prop := ∀ side key, Sound side t (s.slot side key)

theorem soundStore_empty (t : Nat) : SoundStore t Store.empty := by
  intro side key
  cases side
  · exact sound_none _ t
  · exact sound_none _ t

theorem slot_purge (s : Store) (side : Side) (key : String) :
    (s.purge now).slot side key = purge now (s.slot side key) := by
  cases side
  · rfl
  · rfl

theorem SoundStore.purge (h : SoundStore t s) : SoundStore t (s.purge now) := by
  intro side key
  rw [slot_purge]
  exact (h side key).purge

theorem read_sound (refill : ℚ) (h : Sound side now slot) (hrate : side.rate = refill / 60000)
    (actor : Bool) : ∃ level cooldown, level ≤ 3 ∧ cooldown ≤ now + 3600000 ∧
      read now side.capacity refill actor slot =
        some ⟨⟨tokensAt side now slot, now⟩, level, cooldown⟩ ∧
      (actor = true → ∀ row, content slot = some row → row.cooldownUntilMs = cooldown) := by
  cases hrow : content slot with
  | none =>
    refine ⟨0, 0, by omega, by omega, ?_, fun _ row hsome => by cases hsome⟩
    simp [read, hrow, tokensAt, bucket]
  | some row =>
    obtain ⟨h0, hv⟩ := h.tokens row hrow
    have hdated := h.dated row hrow
    have hlevel := h.level row hrow
    have hcooldown := h.cooldown row hrow
    have htokens : tokensAt side now slot =
        min side.capacity (row.tokens + ((now - row.atMs : Nat) : ℚ) * refill / 60000) := by
      rw [tokensAt, bucket, hrow, Option.map_some, level_some, hrate, mul_div_assoc]
    refine ⟨if actor then row.level else 0, if actor then row.cooldownUntilMs else 0, ?_, ?_, ?_, ?_⟩
    · split <;> omega
    · split <;> omega
    · rw [read, hrow]
      dsimp only
      rw [if_neg, htokens]
      rintro (hneg | hbig | hlate | hhigh | hfar)
      · exact absurd h0 (not_le.mpr hneg)
      · exact absurd hv (not_le.mpr hbig)
      · omega
      · split at hhigh <;> omega
      · split at hfar <;> omega
    · rintro rfl row' hsome
      cases hsome
      rfl

def Cooling (now : Nat) (slot : Slot Row) : Prop :=
  ∃ row, content slot = some row ∧ now < row.cooldownUntilMs

inductive Effect (now : Nat) (keys : Keys) (s next : Store) (answer : Answer) : Prop
  | refuses (hstore : next = s) (hanswer : answer.granted = false)
  /-- The member has no tokens: the bucket is written down with a cooldown. -/
  | cools (level cooldown : Nat) (hlevel : level ≤ 3) (hcooldown : cooldown ≤ now + 3600000)
      (hidle : ¬Cooling now (s.actors keys.actor)) (hreason : answer.reason = 1)
      (hstore : next = { s with
        actors := put s.actors keys.actor
          (cell ⟨⟨tokensAt .actor now (s.actors keys.actor), now⟩, level, cooldown⟩ (now + 86400000)) })
      (hanswer : answer.granted = false)
  | grants (level : Nat) (hlevel : level ≤ 3) (hactor : 12 ≤ tokensAt .actor now (s.actors keys.actor))
      (hchat : 12 ≤ tokensAt .chat now (s.chats keys.chat))
      (hstore : next =
        { actors := put s.actors keys.actor
            (cell ⟨⟨tokensAt .actor now (s.actors keys.actor) - 12, now⟩, level, 0⟩ (now + 86400000))
          chats := put s.chats keys.chat
            (cell ⟨⟨tokensAt .chat now (s.chats keys.chat) - 12, now⟩, 0, 0⟩ (now + 60000)) })
      (hanswer : answer.granted = true)

theorem delay_le (level : Nat) : delay level ≤ 3600000 := by
  unfold delay
  split <;> omega

theorem reserve_effect (hs : SoundStore now s) (keys : Keys) :
    Effect now keys s (reserve now keys s).1 (reserve now keys s).2 := by
  obtain ⟨level, cooldown, hlevel, -, hactor, hshown⟩ :=
    read_sound 120 (hs .actor keys.actor) rfl true
  obtain ⟨chatLevel, chatCooldown, -, -, hchat, -⟩ :=
    read_sound 480 (hs .chat keys.chat) rfl false
  change read now 72 120 true (s.actors keys.actor) = _ at hactor
  change read now 144 480 false (s.chats keys.chat) = _ at hchat
  rw [reserve, hactor, hchat]
  dsimp only
  split
  · exact .refuses rfl rfl
  next hidle =>
    split
    · exact .refuses rfl rfl
    next hchatEnough =>
      split
      · refine .cools _ _ (Nat.min_le_left _ _) (Nat.add_le_add_left (delay_le _) now) ?_ rfl rfl rfl
        rintro ⟨row, hrow, hcooling⟩
        rw [hshown rfl row hrow] at hcooling
        exact hidle hcooling
      next hactorEnough =>
        exact .grants level hlevel (not_lt.mp hactorEnough) (not_lt.mp hchatEnough) rfl rfl

theorem reserve_chatBudget (h : (reserve now keys s).2.reason = 2) : (reserve now keys s).1 = s := by
  unfold reserve at h ⊢
  split
  next actor chat hactor hchat =>
    rw [hactor, hchat] at h
    dsimp only at h ⊢
    split
    · rfl
    next hidle =>
      rw [if_neg hidle] at h
      split
      · rfl
      next hchatEnough =>
        rw [if_neg hchatEnough] at h
        split
        next hactorEmpty =>
          rw [if_pos hactorEmpty] at h
          cases h
        next hactorEnough =>
          rw [if_neg hactorEnough] at h
          cases h
  · rfl

namespace Effect

theorem sound (h : Effect now keys s next answer) (hs : SoundStore now s) : SoundStore now next := by
  have hactor := hs .actor keys.actor
  have hchat := hs .chat keys.chat
  cases h with
  | refuses hstore => rwa [hstore]
  | cools level cooldown hlevel hcooldown _ _ hstore =>
    intro side key
    rw [hstore]
    cases side with
    | chat => exact hs .chat key
    | actor =>
      simp only [Store.slot, put_apply]
      split
      · exact sound_written (hactor.tokensAt_nonneg now) (tokensAt_le _ _ _) hlevel hcooldown
          (by norm_num [Side.capacity, Side.rate])
      · exact hs .actor key
  | grants level hlevel hactorEnough hchatEnough hstore =>
    intro side key
    rw [hstore]
    cases side with
    | chat =>
      simp only [Store.slot, put_apply]
      split
      · have hle := tokensAt_le .chat now (s.chats keys.chat)
        exact sound_written (by linarith) (by linarith) (by omega) (by omega)
          (by norm_num [Side.capacity, Side.rate])
      · exact hs .chat key
    | actor =>
      simp only [Store.slot, put_apply]
      split
      · have hle := tokensAt_le .actor now (s.actors keys.actor)
        exact sound_written (by linarith) (by linarith) hlevel (by omega)
          (by norm_num [Side.capacity, Side.rate])
      · exact hs .actor key

theorem tokensAt_refused (h : Effect now keys s next answer) (hs : SoundStore now s)
    (hanswer : answer.granted = false) (side : Side) (key : String) (hle : now ≤ t) :
    tokensAt side t (next.slot side key) = tokensAt side t (s.slot side key) := by
  cases h with
  | refuses hstore => rw [hstore]
  | cools level cooldown _ _ _ _ hstore =>
    rw [hstore]
    cases side with
    | chat => rfl
    | actor =>
      simp only [Store.slot, put_apply]
      split
      next hkey =>
        rw [hkey]
        exact (hs .actor keys.actor).tokensAt_refilled hle
      · rfl
  | grants _ _ _ _ _ hgranted =>
    rw [hanswer] at hgranted
    cases hgranted

theorem tokensAt_granted (h : Effect now keys s next answer) (hanswer : answer.granted = true)
    (side : Side) : 12 ≤ tokensAt side now (s.slot side (keys.of side)) ∧
      bucket (next.slot side (keys.of side)) =
        some ⟨tokensAt side now (s.slot side (keys.of side)) - 12, now⟩ ∧
      ∀ key ≠ keys.of side, next.slot side key = s.slot side key := by
  cases h with
  | refuses _ hrefused =>
    rw [hanswer] at hrefused
    cases hrefused
  | cools _ _ _ _ _ _ _ hrefused =>
    rw [hanswer] at hrefused
    cases hrefused
  | grants level _ hactor hchat hstore =>
    rw [hstore]
    cases side with
    | actor =>
      refine ⟨hactor, ?_, fun key hkey => put_other _ hkey _⟩
      simp only [Store.slot, Keys.of, put_same]
      rfl
    | chat =>
      refine ⟨hchat, ?_, fun key hkey => put_other _ hkey _⟩
      simp only [Store.slot, Keys.of, put_same]
      rfl

theorem cooldown_kept (h : Effect now keys s next answer) (hanswer : answer.granted = false)
    {key : String} (hcooling : Cooling now (s.actors key)) : next.actors key = s.actors key := by
  cases h with
  | refuses hstore => rw [hstore]
  | cools _ _ _ _ hidle _ hstore =>
    have hkey : key ≠ keys.actor := by
      rintro rfl
      exact hidle hcooling
    rw [hstore]
    exact put_other _ hkey _
  | grants _ _ _ _ _ hgranted =>
    rw [hanswer] at hgranted
    cases hgranted

end Effect

/-! ## Events -/

variable {γ α : Type} [DecidableEq γ] [DecidableEq α] {sha256 : String → String} {w : World γ α}

def Event.scope? : Event γ α → Option Scope
  | .run _ _ scope _ _ => some scope
  | _ => none

/-- An event leaves the store to the clock, or runs the script once and shows its answer. -/
theorem step_store (now : Nat) (event : Event γ α) (w : World γ α) :
    (step sha256 now event w).1.store = w.store.purge now ∧
      (step sha256 now event w).2.reservation = none ∨
    ∃ scope, event.scope? = some scope ∧
      (step sha256 now event w).1.store = (reserve now
        (maxMuteApiBudgetKeys sha256 scope.chatId scope.subjectUserId) (w.store.purge now)).1 ∧
      (step sha256 now event w).2.reservation = some (reserve now
        (maxMuteApiBudgetKeys sha256 scope.chatId scope.subjectUserId) (w.store.purge now)).2 := by
  cases event with
  | run client context scope clock redis =>
    simp only [step, run]
    split
    · split
      · exact .inl ⟨rfl, rfl⟩
      split
      · exact .inl ⟨rfl, rfl⟩
      · exact .inl ⟨rfl, rfl⟩
    · split
      · exact .inl ⟨rfl, rfl⟩
      split
      · exact .inl ⟨rfl, rfl⟩
      · refine .inr ⟨scope, rfl, ?_⟩
        split
        · exact ⟨rfl, rfl⟩
        · unfold admission
          split
          · exact ⟨rfl, rfl⟩
          · exact ⟨rfl, rfl⟩
  | consumeRequest client context localNow =>
    left
    simp only [step, consumeRequest]
    split
    · exact ⟨rfl, rfl⟩
    split
    · exact ⟨rfl, rfl⟩
    split
    · exact ⟨rfl, rfl⟩
    · exact ⟨rfl, rfl⟩
  | assertRequestAllowed client context localNow =>
    left
    simp only [step, assertRequestAllowed]
    split
    · exact ⟨rfl, rfl⟩
    split
    · exact ⟨rfl, rfl⟩
    · exact ⟨rfl, rfl⟩
  | settle context =>
    left
    simp only [step, settle]
    split
    · exact ⟨rfl, rfl⟩
    · exact ⟨rfl, rfl⟩
  | close client => exact .inl ⟨rfl, rfl⟩

end Maxim.Max.ModerationApiBudget
