import Maxim.Library.Run
import Maxim.Library.Expiry

/-!
# The store of the duplicate-message window

One keyspace belongs to a chat. It holds the reset epochs of authors, the
removals, the lifecycle record and the observed state of each message, the
accepted originals, their counters and the qualifications. Digests and tokens
are values of one type; an empty identity is `none`.
-/

namespace Maxim.Moderation.MessageDuplicate

open Maxim.Library

def DUPLICATE_WINDOW_MAX_SEC : Nat := 48 * 3600

def graceMs : Nat := 11 * 60000

def retentionMs : Nat := DUPLICATE_WINDOW_MAX_SEC * 1000 + graceMs

inductive Mode
  | text
  | message
  | image
  deriving DecidableEq, Repr

/-- What a lifecycle record remembers of the last observed state. -/
structure Materialized (δ : Type) where
  epoch : Nat
  atMs : Nat
  source : δ
  identity : Option δ

structure Life (δ : Type) where
  atMs : Nat
  source : δ
  conflict : Bool
  revision : δ
  introducedAt : Nat
  introducedKnown : Bool
  predecessorRevision : Option δ
  materializedRevision : Option δ
  materialized : Option (Materialized δ)

structure Original (δ : Type) where
  member : δ
  author : δ
  messageId : String
  senderId : String
  publishedAtMs : Nat
  observedAtMs : Nat
  expiresAtMs : Nat
  sourceDigest : δ
  contentDigest : Option δ
  mediaHashes : List String
  epoch : Nat
  revision : δ
  originalId : δ
  deriving DecidableEq

/-- An entry of `matches`; the lists of them are named `matched` here. -/
structure Match (δ : Type) where
  fingerprint : δ
  original : Original δ
  count : Nat
  qualified : Option Nat := none
  deriving DecidableEq

/-- The state of a message before one locator transition. -/
structure Continuity (δ : Type) where
  revision : δ
  identity : Option δ
  publishedAt : Nat
  originalId : δ
  context : δ
  accepted : List δ
  matched : List (Match δ)

/-- The record under `message:`. -/
structure Message (δ : Type) where
  atMs : Nat
  publishedAt : Nat
  source : δ
  identity : Option δ
  context : δ
  epoch : Nat
  revision : δ
  originalId : δ
  accepted : List δ
  matched : List (Match δ)
  continuity : Option (Continuity δ)

structure Count where
  accepted : Nat
  qualified : Nat
  deriving DecidableEq, Repr

structure CounterKey (δ : Type) where
  author : δ
  fingerprint : δ
  originalId : δ
  originalEpoch : Nat
  epoch : Nat
  deriving DecidableEq

/-- All keys of one chat; `priorLife` holds the v3 lifecycle records, which are only read. -/
structure Store (δ : Type) where
  reset : Slots δ Nat
  removed : Slots δ Unit
  priorLife : Slots (δ × Mode) (Life δ)
  life : Slots (δ × Mode) (Life δ)
  message : Slots (δ × Mode) (Message δ)
  group : Slots (δ × δ) (Original δ)
  count : Slots (CounterKey δ) Count
  qualification : Slots δ Nat

variable {δ : Type}

/-- A new keyspace, next to the lifecycle records of the version before. -/
def Store.initial (priorLife : Slots (δ × Mode) (Life δ)) : Store δ where
  reset _ := none
  removed _ := none
  priorLife := priorLife
  life _ := none
  message _ := none
  group _ := none
  count _ := none
  qualification _ := none

def Store.purge (now : Nat) (s : Store δ) : Store δ where
  reset k := Library.purge now (s.reset k)
  removed k := Library.purge now (s.removed k)
  priorLife k := Library.purge now (s.priorLife k)
  life k := Library.purge now (s.life k)
  message k := Library.purge now (s.message k)
  group k := Library.purge now (s.group k)
  count k := Library.purge now (s.count k)
  qualification k := Library.purge now (s.qualification k)

/-! ## Expiries -/

def eventExpiry (now atMs : Nat) : Nat := min (if 0 < atMs then atMs else now) now + retentionMs

/-- `p.windowMs`, cut to the longest window. -/
def windowLimit (windowMs : Nat) : Nat := min windowMs (DUPLICATE_WINDOW_MAX_SEC * 1000)

def windowExpiry (now windowMs atMs : Nat) : Nat :=
  min (if 0 < atMs then atMs else now) now + min (windowLimit windowMs + graceMs) retentionMs

section Write

variable {α : Type}

/-- `write`; what has expired already is not stored. -/
def write (now : Nat) (value : α) (expiresAt : Nat) : Slot α :=
  purge now (cell value (min expiresAt (now + retentionMs)))

def rewrite (now : Nat) (old : Slot α) (value : α) (expiresAt : Nat) : Slot α :=
  let x := min expiresAt (now + retentionMs)
  purge now (cell value (match expiry old with
    | some previousExpiry => if now < previousExpiry then min x previousExpiry else x
    | none => x))

variable {now expiresAt : Nat}

theorem write_eq_some {value : α} {c : Cell α}
    (h : write now value expiresAt = some c) :
    c.value = value ∧ ∃ x, c.expiresAt = some x ∧ x ≤ now + retentionMs := by
  obtain ⟨hc, -⟩ := purge_eq_some.mp h
  obtain rfl := Option.some.inj hc
  exact ⟨rfl, _, rfl, Nat.min_le_right _ _⟩

theorem rewrite_eq_some {old : Slot α} {value : α} {c : Cell α}
    (h : rewrite now old value expiresAt = some c) :
    c.value = value ∧ ∃ x, c.expiresAt = some x ∧ x ≤ now + retentionMs := by
  obtain ⟨hc, -⟩ := purge_eq_some.mp h
  obtain rfl := Option.some.inj hc
  refine ⟨rfl, _, rfl, ?_⟩
  split
  · split <;> omega
  · omega

theorem content_eq_some {s : Slot α} {v : α} : content s = some v ↔ ∃ c, s = some c ∧ c.value = v := by
  simp [content]

theorem content_write {value v : α}
    (h : content (write now value expiresAt) = some v) : v = value := by
  obtain ⟨c, hc, rfl⟩ := content_eq_some.mp h
  exact (write_eq_some hc).1

theorem content_rewrite {old : Slot α} {value v : α}
    (h : content (rewrite now old value expiresAt) = some v) : v = value := by
  obtain ⟨c, hc, rfl⟩ := content_eq_some.mp h
  exact (rewrite_eq_some hc).1

end Write

/-! ## Lifecycle -/

def Store.epoch [DecidableEq δ] (s : Store δ) (author : δ) : Nat := (content (s.reset author)).getD 0

/-- The record of a message that had none. -/
def Life.first (token : δ) (atMs : Nat) (source : δ) (publishedAt : Option Nat) : Life δ where
  atMs := atMs
  source := source
  conflict := false
  revision := token
  introducedAt := publishedAt.getD atMs
  introducedKnown := true
  predecessorRevision := none
  materializedRevision := none
  materialized := none

section Lifecycle

variable [DecidableEq δ]

/-- The record after a later event. -/
def Life.advance (previous : Life δ) (token : δ) (atMs : Nat) (source : δ) : Life δ :=
  let changed := decide (previous.source ≠ source)
  { atMs
    source
    conflict := false
    revision := if !changed && !previous.conflict then previous.revision else token
    introducedAt := if changed then atMs else previous.introducedAt
    introducedKnown := changed || previous.introducedKnown
    predecessorRevision :=
      if changed && !previous.conflict then some previous.revision
      else if !changed then previous.predecessorRevision
      else none
    materializedRevision := previous.materializedRevision
    materialized := previous.materialized }

/-- What a v3 record makes of `publishedAt` and `previous`; `none` refuses the event. -/
def inheritPrior (token : δ) (atMs : Nat) (source : δ) (publishedAt : Option Nat) (prior : Life δ) :
    Option (Option Nat × Option (Life δ)) :=
  if atMs < prior.atMs ∨ (atMs = prior.atMs ∧ (prior.conflict = true ∨ prior.source ≠ source)) then
    none
  else if prior.source ≠ source then some (some atMs, none)
  else if prior.introducedKnown = false then
    some (publishedAt, some {
      atMs := prior.atMs, source := prior.source, conflict := prior.conflict, revision := token
      introducedAt := 0, introducedKnown := false, predecessorRevision := none
      materializedRevision := none, materialized := none })
  else some (publishedAt, none)

/-- `publishedAt` and `previous` of `lifecycle` after its look at the v3 record. -/
def Store.predecessor (s : Store δ) (token : δ) (key : δ × Mode) (atMs : Nat) (source : δ)
    (publishedAt : Option Nat) : Option (Option Nat × Option (Life δ)) :=
  match content (s.life key) with
  | some previous => some (publishedAt, some previous)
  | none =>
    match content (s.priorLife key) with
    | some prior => inheritPrior token atMs source publishedAt prior
    | none => some (publishedAt, none)

def Store.writeLife (s : Store δ) (now : Nat) (key : δ × Mode) (life : Life δ) : Store δ :=
  { s with life := put s.life key (write now life (eventExpiry now life.atMs)) }

def Store.rewriteLife (s : Store δ) (now : Nat) (key : δ × Mode) (life : Life δ) : Store δ :=
  { s with life := put s.life key (rewrite now (s.life key) life (eventExpiry now life.atMs)) }

/-- `lifecycle`, on the record that the callers have read; `none` is a refusal. -/
def lifecycle (now : Nat) (token : δ) (key : δ × Mode) (atMs : Nat) (source : δ)
    (publishedAt : Option Nat) (s : Store δ) : Store δ × Option (Life δ) :=
  match s.predecessor token key atMs source publishedAt with
  | none => (s, none)
  | some (publishedAt, none) =>
    let life := Life.first token atMs source publishedAt
    (s.writeLife now key life, some life)
  | some (_, some previous) =>
    if atMs < previous.atMs then (s, none)
    else if atMs = previous.atMs then
      if previous.source ≠ source then
        (s.rewriteLife now key
          { previous with conflict := true, predecessorRevision := none, revision := token }, none)
      else (s, if previous.conflict then none else some previous)
    else
      let life := previous.advance token atMs source
      (s.writeLife now key life, some life)

/-- One mode of `invalidate`. An unknown time counts as the clock, in the record's expiry too. -/
def invalidateMode (now : Nat) (token member : δ) (s : Store δ) (entry : Mode × δ) : Store δ :=
  let key := (member, entry.1)
  let previous := (content (s.life key)).or (content (s.priorLife key))
  if previous.any fun previous => decide (previous.source = entry.2) then s
  else
    s.rewriteLife now key {
      atMs := (previous.map Life.atMs).getD 0, source := entry.2, conflict := true, revision := token
      introducedAt := 0, introducedKnown := false, predecessorRevision := none
      materializedRevision := previous.bind Life.materializedRevision
      materialized := previous.bind Life.materialized }

/-- `valid`: the original's message is still what it was when it was accepted. -/
def Store.valid (s : Store δ) (mode : Mode) (evidence : Original δ) : Bool :=
  (s.removed evidence.member).isNone && decide (s.epoch evidence.author = evidence.epoch) &&
    (content (s.life (evidence.member, mode))).any (fun life =>
      !life.conflict && decide (life.source = evidence.sourceDigest) &&
        decide (life.revision = evidence.revision)) &&
    (content (s.message (evidence.member, mode))).any fun state =>
      decide (state.epoch = evidence.epoch) && decide (state.source = evidence.sourceDigest) &&
        decide (state.identity = evidence.contentDigest) &&
        decide (state.revision = evidence.revision) &&
        decide (state.originalId = evidence.originalId) &&
        decide (state.publishedAt = evidence.publishedAtMs)

def Store.counterKey (s : Store δ) (author fingerprint : δ) (original : Original δ) : CounterKey δ where
  author := author
  fingerprint := fingerprint
  originalId := original.originalId
  originalEpoch := original.epoch
  epoch := s.epoch author

end Lifecycle

/-! ## Results -/

inductive Kind
  | ok
  | replayed
  | stale
  | deadlineExceeded
  deriving DecidableEq, Repr

structure Result (δ : Type) where
  kind : Kind
  count : Option Nat := none
  qualified : Option Nat := none
  observedAt : Option Nat := none
  revision : Option δ := none
  original : Option (Original δ) := none
  matched : List (Match δ) := []

def Result.stale : Result δ := { kind := .stale }

def Result.replayed (previous : Message δ) : Result δ where
  kind := .replayed
  matched := previous.matched
  observedAt := some previous.atMs
  revision := some previous.revision

/-! ## Check and qualification -/

/-- Arguments of `check` and `qualify`: the binding of a match. -/
structure Check (δ : Type) where
  mode : Mode
  member : δ
  author : δ
  revision : Option δ
  source : δ
  identity : Option δ
  original : Original δ
  fingerprint : δ
  atMs : Nat
  allowed : Nat
  windowMs : Nat
  afterDelete : Bool

section Matching

variable [DecidableEq δ]

/-- The stored match is the one the caller asks for, and its original still stands. -/
def Check.selects (p : Check δ) (s : Store δ) (m : Match δ) : Bool :=
  decide (m.fingerprint = p.fingerprint) && decide (m.original.member = p.original.member) &&
    decide (m.original.member ≠ p.member) &&
    decide (m.original.originalId = p.original.originalId) &&
    decide (m.original.revision = p.original.revision) &&
    decide (m.original.epoch = p.original.epoch) && s.valid p.mode m.original &&
    decide (m.original.publishedAtMs ≤ p.atMs) && decide (p.atMs < m.original.expiresAtMs)

/-- `matching`: the state of the message and the first match of it that is selected. -/
def matching (p : Check δ) (s : Store δ) : Option (Match δ × Message δ) :=
  if p.atMs ≤ s.epoch p.author then none
  else if (s.removed p.member).isSome ∧ p.afterDelete = false then none
  else
    match content (s.message (p.member, p.mode)), content (s.life (p.member, p.mode)) with
    | some state, some life =>
      if p.revision = some state.revision ∧ state.atMs = p.atMs ∧ state.epoch = s.epoch p.author ∧
          state.source = p.source ∧ state.identity = p.identity ∧ life.conflict = false ∧
          life.source = p.source ∧ p.revision = some life.revision then
        (state.matched.find? (p.selects s)).map fun m => (m, state)
      else none
    | _, _ => none

def check (p : Check δ) (s : Store δ) : Store δ × Result δ :=
  match matching p s with
  | none => (s, .stale)
  | some (m, _) =>
    (s, { kind := .ok, count := some (m.qualified.getD m.count), qualified := m.qualified })

def Count.qualify (count : Count) (allowed : Nat) : Count :=
  { count with qualified := min (20 - allowed) (count.qualified + 1) }

/-- Set `qualified` of the first match that is selected. -/
def Message.qualify (state : Message δ) (selects : Match δ → Bool) (qualified : Nat) : Message δ :=
  { state with
    matched := state.matched.modify (state.matched.findIdx selects)
      fun m => { m with qualified := some qualified } }

def qualify (now : Nat) (p : Check δ) (s : Store δ) : Store δ × Result δ :=
  match matching p s with
  | none => (s, .stale)
  | some (m, state) =>
    match m.qualified with
    | some qualified => (s, { kind := .ok, count := some qualified })
    | none =>
      if content (s.qualification p.member) = some (s.epoch p.author) then (s, .stale)
      else
        let key := s.counterKey p.author p.fingerprint m.original
        let count := ((content (s.count key)).getD ⟨p.allowed, 0⟩).qualify p.allowed
        let qualified := min 20 (p.allowed + count.qualified)
        let state := state.qualify (p.selects s) qualified
        let x := windowExpiry now p.windowMs state.atMs
        ({ s with
            count := put s.count key
              (rewrite now (s.count key) count (m.original.expiresAtMs + graceMs))
            qualification := put s.qualification p.member
              (rewrite now (s.qualification p.member) (s.epoch p.author) x)
            message := put s.message (p.member, p.mode)
              (rewrite now (s.message (p.member, p.mode)) state x) },
          { kind := .ok, count := some qualified })

end Matching

end Maxim.Moderation.MessageDuplicate
