import Maxim.Moderation.MessageDuplicate.Window

/-!
# Observation of a message

An observation first answers from what is stored: a refusal or a replay. It
then moves the lifecycle record, decides which incarnation of the message this
is, writes the record and the state, and compares the fingerprints with the
accepted originals. What the comparison stages is dropped if it finds a match.
-/

namespace Maxim.Moderation.MessageDuplicate

open Maxim.Library

/-- Arguments of `observe`; `period` is `periodStart` and `periodEnd`. -/
structure Observe (δ : Type) where
  mode : Mode
  scope : δ
  member : δ
  author : δ
  messageId : String
  senderId : String
  atMs : Nat
  publishedAt : Nat
  source : δ
  lifecycleSource : δ
  identity : Option δ
  pendingSafe : Bool
  mediaHashes : List String
  recompressionOriginal : Option (Original δ)
  fingerprints : List δ
  allowed : Nat
  windowMs : Nat
  context : δ
  period : Option (Nat × Nat)
  token : δ

/-- What the store knows about the message when it is observed. -/
structure Background (δ : Type) where
  previous : Option (Message δ)
  currentEpoch : Nat
  previousLife : Option (Life δ)
  priorLife : Option (Life δ)
  materialized : Option (Materialized δ)

/-- A write that the comparison stages, or the match it finds. -/
inductive Staged (δ : Type)
  | skip
  | anchor (key : δ × δ) (original : Original δ)
  | accept (fingerprint : δ) (counter : CounterKey δ) (count : Count) (expiresAt : Nat)
  | evidence (m : Match δ)

variable {δ : Type}

abbrev Observe.key (p : Observe δ) : δ × Mode := (p.member, p.mode)

def Observe.beforePeriod (p : Observe δ) (publishedAt : Nat) : Bool :=
  p.period.any fun period => decide (publishedAt < period.1)

def Message.incarnation (previous : Message δ) : Materialized δ :=
  ⟨previous.epoch, previous.atMs, previous.source, previous.identity⟩

section Reply

variable [DecidableEq δ]

def Observe.background (p : Observe δ) (s : Store δ) : Background δ :=
  let previous := content (s.message p.key)
  let currentEpoch := s.epoch p.author
  let previousLife := content (s.life p.key)
  let priorLife :=
    if (previousLife.bind Life.materializedRevision).isNone ∧ currentEpoch ≠ 0 then
      content (s.priorLife p.key)
    else none
  { previous, currentEpoch, previousLife, priorLife
    materialized := ((previousLife.bind Life.materialized).or
      (priorLife.bind Life.materialized)).or (previous.map Message.incarnation) }

def Background.resetIncarnation (b : Background δ) : Bool :=
  b.materialized.any fun m => decide (m.epoch ≠ b.currentEpoch)

/-- `previous`, when no reset came after it. -/
def Background.current (b : Background δ) : Option (Message δ) :=
  b.previous.filter fun previous => decide (previous.epoch = b.currentEpoch)

/-- The accepted original that approximate equality relies on is still the expected one. -/
def Observe.recompressionHolds (p : Observe δ) (s : Store δ) : Bool :=
  match p.recompressionOriginal with
  | none => true
  | some expected =>
    match p.fingerprints with
    | [fingerprint] =>
      decide (p.mode = .image) && (content (s.group (p.scope, fingerprint))).any fun original =>
        s.valid p.mode original && decide (original.member = expected.member) &&
          decide (original.revision = expected.revision) &&
          decide (original.originalId = expected.originalId) &&
          decide (original.epoch = expected.epoch) &&
          decide (original.contentDigest = expected.contentDigest) &&
          decide (original.publishedAtMs ≤ p.atMs) && decide (p.atMs < original.expiresAtMs) &&
          !p.beforePeriod original.publishedAtMs
    | _ => false

/-- The incarnation from before a reset comes again, with content that is not proved to be new. -/
def Observe.revoked (p : Observe δ) (b : Background δ) : Bool :=
  b.materialized.any fun m =>
    decide (m.epoch ≠ b.currentEpoch) &&
      (decide (p.atMs ≤ m.atMs) || p.identity.isNone || m.identity.isNone ||
        decide (p.identity = m.identity))

/-- A lifecycle record was materialized once, and nothing says in which epoch. -/
def Observe.unproved (b : Background δ) : Bool :=
  b.materialized.isNone && decide (b.currentEpoch ≠ 0) &&
    ((b.previousLife.bind Life.materializedRevision).isSome ||
      (b.priorLife.bind Life.materializedRevision).isSome)

/-- The pending replay of the very event that is stored. -/
def Observe.pendingReplay (p : Observe δ) (b : Background δ) (previous : Message δ) : Bool :=
  decide (p.atMs = previous.atMs) && decide (p.source = previous.source) && p.identity.isNone &&
    b.previousLife.any fun life =>
      !life.conflict && decide (life.revision = previous.revision) &&
        decide (life.source = previous.source)

/-- The replies before the lifecycle record is moved. -/
def Observe.earlyReply (p : Observe δ) (b : Background δ) (s : Store δ) : Option (Result δ) :=
  if (s.removed p.member).isSome ∨ p.atMs ≤ b.currentEpoch then some .stale
  else if p.recompressionHolds s = false then some .stale
  else if p.revoked b = true then some .stale
  else if Observe.unproved b = true then some .stale
  else (b.current.filter (p.pendingReplay b)).map Result.replayed

/-- `introducedAt` of an incarnation after a reset. -/
def Observe.introduction (p : Observe δ) (b : Background δ) (life : Life δ) : Nat :=
  if (b.materialized.any fun m => decide (life.source = m.source)) = true ∨ b.priorLife.isSome then
    p.atMs
  else life.introducedAt

/-- The record of the incarnation that this observation starts or continues; `none` refuses it. -/
def Observe.reincarnate (p : Observe δ) (b : Background δ) (life : Life δ) : Option (Life δ) :=
  if b.resetIncarnation = true then
    if life.introducedKnown = false then none
    else if p.introduction b life ≤ b.currentEpoch then none
    else
      some { life with
        introducedAt := p.introduction b life, revision := p.token, predecessorRevision := none }
  else if b.previous.isNone ∧ life.materializedRevision.isSome then
    some { life with revision := p.token, predecessorRevision := none }
  else some life

/-- The replies to an event of the current epoch that is old or known. -/
def Observe.knownReply (p : Observe δ) (b : Background δ) (life : Life δ) : Option (Result δ) :=
  b.current.bind fun previous =>
    if p.atMs < previous.atMs then some .stale
    else if previous.context = p.context ∧ previous.revision = life.revision ∧
        previous.source = p.source ∧
        (previous.identity = p.identity ∨ (p.identity.isNone ∧ p.pendingSafe = true)) then
      some (.replayed previous)
    else none

/-! ## The state after the observation -/

/-- The bytes have changed under an unchanged locator. -/
def Observe.provenDifferent (p : Observe δ) (b : Background δ) (life : Life δ) : Bool :=
  b.current.any fun previous =>
    decide (previous.revision = life.revision) && previous.identity.isSome && p.identity.isSome &&
      decide (previous.identity ≠ p.identity)

def Observe.settled (p : Observe δ) (b : Background δ) (life : Life δ) : Life δ :=
  if p.provenDifferent b life = true then
    { life with
      revision := p.token, predecessorRevision := none
      introducedAt := p.atMs, introducedKnown := true }
  else life

def Message.toContinuity (previous : Message δ) : Continuity δ where
  revision := previous.revision
  identity := previous.identity
  publishedAt := previous.publishedAt
  originalId := previous.originalId
  context := previous.context
  accepted := previous.accepted
  matched := previous.matched

def Observe.continuity (p : Observe δ) (b : Background δ) (life : Life δ) : Option (Continuity δ) :=
  b.current.bind fun previous =>
    if previous.source ≠ p.source ∧ previous.identity.isSome ∧
        some previous.revision = life.predecessorRevision then
      some previous.toContinuity
    else if previous.revision = life.revision then
      previous.continuity.filter fun c => decide (some c.revision = life.predecessorRevision)
    else none

/-- `verifiedContinuity`, with the continuity. -/
def Observe.verified (p : Observe δ) (b : Background δ) (life : Life δ) : Option (Continuity δ) :=
  (p.continuity b life).filter fun c =>
    p.identity.isSome && decide (p.identity = c.identity) && life.introducedKnown &&
      decide (life.source = p.source)

/-- `preserveOccurrences`, with the continuity. -/
def Observe.preserved (p : Observe δ) (b : Background δ) (life : Life δ) : Option (Continuity δ) :=
  (p.verified b life).filter fun c => decide (c.context = p.context)

def Observe.originalId (p : Observe δ) (b : Background δ) (life : Life δ) : δ :=
  match p.verified b life with
  | some c => c.originalId
  | none =>
    ((b.previous.filter fun previous => decide (previous.revision = life.revision)).map
      Message.originalId).getD p.token

def Observe.state (p : Observe δ) (b : Background δ) (life : Life δ) : Message δ where
  atMs := p.atMs
  publishedAt := ((p.verified b life).map Continuity.publishedAt).getD life.introducedAt
  source := p.source
  identity := p.identity
  context := p.context
  epoch := b.currentEpoch
  revision := life.revision
  originalId := p.originalId b life
  accepted := p.fingerprints.filter fun fingerprint =>
    (p.preserved b life).any fun c => c.accepted.contains fingerprint
  matched := []
  continuity :=
    if p.identity.isNone ∧ p.pendingSafe = true ∧ life.source = p.source then p.continuity b life
    else none

/-! ## Comparison -/

/-- The last stored match of the same original under the same fingerprint. -/
def Continuity.snapshot (c : Continuity δ) (fingerprint : δ) (original : Original δ) :
    Option (Match δ) :=
  (c.matched.filter fun m =>
    decide (m.fingerprint = fingerprint) && decide (m.original.originalId = original.originalId) &&
      decide (m.original.revision = original.revision)).getLast?

def Observe.standing (p : Observe δ) (s : Store δ) (fingerprint : δ) : Option (Original δ) :=
  (content (s.group (p.scope, fingerprint))).filter fun original =>
    s.valid p.mode original && !p.beforePeriod original.publishedAtMs

/-- The original that this message becomes. -/
def Observe.original (p : Observe δ) (state : Message δ) (expiresAtMs : Nat) : Original δ where
  member := p.member
  author := p.author
  messageId := p.messageId
  senderId := p.senderId
  publishedAtMs := state.publishedAt
  observedAtMs := p.atMs
  expiresAtMs := expiresAtMs
  sourceDigest := p.source
  contentDigest := p.identity
  mediaHashes := p.mediaHashes
  epoch := state.epoch
  revision := state.revision
  originalId := state.originalId

/-- The end of the window that this message would open. -/
def Observe.windowEnd (p : Observe δ) (publishedAt : Nat) : Nat :=
  match p.period with
  | some period => period.2
  | none => publishedAt + windowLimit p.windowMs

/-- The loop body for one fingerprint. -/
def Observe.stage (p : Observe δ) (preserved : Option (Continuity δ)) (state : Message δ)
    (s : Store δ) (fingerprint : δ) : Staged δ :=
  match (p.standing s fingerprint).filter
      (fun original => decide (state.publishedAt < original.expiresAtMs)) with
  | none =>
    let expiresAt := p.windowEnd state.publishedAt
    if p.atMs < expiresAt then .anchor (p.scope, fingerprint) (p.original state expiresAt) else .skip
  | some original =>
    if original.member ≠ p.member ∧ original.publishedAtMs ≤ state.publishedAt ∧
        p.atMs < original.expiresAtMs then
      let counter := s.counterKey p.author fingerprint original
      let count := (content (s.count counter)).getD ⟨0, 0⟩
      if fingerprint ∈ state.accepted then .skip
      else if count.accepted < p.allowed then
        .accept fingerprint counter { count with accepted := count.accepted + 1 }
          (original.expiresAtMs + graceMs)
      else
        .evidence ((preserved.bind fun c => c.snapshot fingerprint original).getD
          { fingerprint, original, count := min 20 (p.allowed + count.qualified + 1) })
    else .skip

def Staged.evidence? : Staged δ → Option (Match δ)
  | .evidence m => some m
  | _ => none

def Staged.accepted? : Staged δ → Option δ
  | .accept fingerprint _ _ _ => some fingerprint
  | _ => none

def Store.apply (now : Nat) (s : Store δ) : Staged δ → Store δ
  | .anchor key original =>
    { s with group := put s.group key (write now original (original.expiresAtMs + graceMs)) }
  | .accept _ counter count expiresAt =>
    { s with count := put s.count counter (rewrite now (s.count counter) count expiresAt) }
  | _ => s

def Observe.compare (now : Nat) (p : Observe δ) (preserved : Option (Continuity δ))
    (state : Message δ) (s : Store δ) : Store δ × Result δ :=
  let staged := p.fingerprints.map (p.stage preserved state s)
  let matched := staged.filterMap Staged.evidence?
  let accepted :=
    if matched.isEmpty then state.accepted ++ staged.filterMap Staged.accepted? else state.accepted
  let s := if matched.isEmpty then staged.foldl (Store.apply now) s else s
  ({ s with
      message := put s.message p.key (rewrite now (s.message p.key) { state with accepted, matched }
        (windowExpiry now p.windowMs state.atMs)) },
    { kind := .ok, matched, observedAt := some state.atMs, revision := some state.revision })

/-- The writes of the record and the state, then the comparison. -/
def Observe.materialize (now : Nat) (p : Observe δ) (b : Background δ) (life : Life δ) (s : Store δ) :
    Store δ × Result δ :=
  let settled := p.settled b life
  let s := if p.provenDifferent b life = true then s.rewriteLife now p.key settled else s
  let state := p.state b settled
  let introduced := { settled with introducedAt := state.publishedAt }
  let s := if (p.verified b settled).isSome then s.rewriteLife now p.key introduced else s
  let s := s.rewriteLife now p.key { introduced with
    materializedRevision := some introduced.revision
    materialized := some state.incarnation }
  let s := { s with
    message := put s.message p.key (write now state (windowExpiry now p.windowMs state.atMs)) }
  if p.identity.isNone ∨ introduced.introducedKnown = false then
    (s, { kind := .ok, revision := some introduced.revision })
  else if (p.period.any fun period =>
      decide (state.publishedAt < period.1) || decide (period.2 ≤ state.publishedAt)) = true then
    (s, { kind := .ok })
  else p.compare now (p.preserved b settled) state s

def observe (now : Nat) (p : Observe δ) (s : Store δ) : Store δ × Result δ :=
  let b := p.background s
  match p.earlyReply b s with
  | some reply => (s, reply)
  | none =>
    match lifecycle now p.token p.key p.atMs p.lifecycleSource (some p.publishedAt) s with
    | (s, none) => (s, .stale)
    | (s, some life) =>
      match p.reincarnate b life with
      | none => (s, .stale)
      | some life =>
        match p.knownReply b life with
        | some reply => (s, reply)
        | none => p.materialize now b life s

end Reply

/-! ## Requests -/

/-- Arguments of `image_anchor`. -/
structure Anchor (δ : Type) where
  mode : Mode
  scope : δ
  fingerprint : δ
  atMs : Nat
  periodStart : Option Nat

inductive Request (δ : Type)
  | observe (p : Observe δ)
  | lifecycle (member : δ) (atMs : Nat) (publishedAt : Option Nat) (sources : List (Mode × δ))
    (token : δ)
  | invalidate (member : δ) (sources : List (Mode × δ)) (token : δ)
  | imageAnchor (p : Anchor δ)
  | check (p : Check δ)
  | qualify (p : Check δ)
  | remove (member : δ)
  | reset (author : δ)

/-- One evaluation of the script; `deadline` is the caller's. -/
structure Call (δ : Type) where
  deadline : Nat
  request : Request δ

def Request.token? : Request δ → Option δ
  | .observe p => some p.token
  | .lifecycle _ _ _ _ token => some token
  | .invalidate _ _ token => some token
  | _ => none

section Step

variable [DecidableEq δ]

def imageAnchor (p : Anchor δ) (s : Store δ) : Store δ × Result δ :=
  match content (s.group (p.scope, p.fingerprint)) with
  | none => (s, .stale)
  | some original =>
    if p.mode ≠ .image ∨ s.valid p.mode original = false ∨ p.atMs < original.publishedAtMs ∨
        original.expiresAtMs ≤ p.atMs ∨
        (p.periodStart.any fun start => decide (original.publishedAtMs < start)) = true then
      (s, .stale)
    else (s, { kind := .ok, original := some original })

def remove (now : Nat) (member : δ) (s : Store δ) : Store δ :=
  match s.removed member with
  | none => { s with removed := put s.removed member (write now () (now + retentionMs)) }
  | some _ => s

/-- The epoch follows the clock, and grows with every reset of its lifetime. -/
def reset (now : Nat) (author : δ) (s : Store δ) : Store δ :=
  { s with
    reset := put s.reset author (cell (max now (s.epoch author + 1)) (now + retentionMs)) }

/-- One step: the script on the keys that have not expired. -/
def step (now : Nat) (c : Call δ) (s : Store δ) : Store δ × Result δ :=
  let s := s.purge now
  if c.deadline < now then (s, { kind := .deadlineExceeded })
  else
    match c.request with
    | .observe p => observe now p s
    | .lifecycle member atMs publishedAt sources token =>
      (sources.foldl (fun s entry =>
        (lifecycle now token (member, entry.1) atMs entry.2 publishedAt s).1) s, { kind := .ok })
    | .invalidate member sources token =>
      (sources.foldl (invalidateMode now token member) s, { kind := .ok })
    | .imageAnchor p => imageAnchor p s
    | .check p => check p s
    | .qualify p => qualify now p s
    | .remove member => (remove now member s, { kind := .ok })
    | .reset author => (reset now author s, { kind := .ok })

end Step

end Maxim.Moderation.MessageDuplicate

/-!
## What the operations do

Every operation but three leaves the states, originals, counters and epochs as
they are and at most renews lifecycle records. A qualification counts once in a
stored match. A reset moves an epoch. An observation writes the record and the
state of its message together, and accepts originals only if it has no match.
-/

namespace Maxim.Moderation.MessageDuplicate

open Maxim.Library

variable {δ : Type}

/-! ## Lifecycle records -/

/-- The later record belongs to the same revision of the message. -/
structure Life.SameRevision (l l' : Life δ) : Prop where
  revision : l'.revision = l.revision
  introducedAt : l'.introducedAt = l.introducedAt
  materializedRevision : l'.materializedRevision = l.materializedRevision
  materialized : l'.materialized = l.materialized

/-- A lifecycle slot holds a record of the old revision, or of the new token. -/
def LifeStep (token : Option δ) (s s' : Slot (Life δ)) : Prop :=
  ∀ l', content s' = some l' → some l'.revision = token ∨ ∃ l, content s = some l ∧ l.SameRevision l'

theorem Life.SameRevision.refl (l : Life δ) : l.SameRevision l := ⟨rfl, rfl, rfl, rfl⟩

theorem Life.SameRevision.trans {l l' l'' : Life δ} (h : l.SameRevision l') (h' : l'.SameRevision l'') :
    l.SameRevision l'' :=
  ⟨h'.revision.trans h.revision, h'.introducedAt.trans h.introducedAt,
    h'.materializedRevision.trans h.materializedRevision, h'.materialized.trans h.materialized⟩

theorem LifeStep.refl (token : Option δ) (s : Slot (Life δ)) : LifeStep token s s :=
  fun l' h => .inr ⟨l', h, .refl l'⟩

theorem LifeStep.trans {token : Option δ} {s s' s'' : Slot (Life δ)} (h : LifeStep token s s')
    (h' : LifeStep token s' s'') : LifeStep token s s'' := by
  intro l'' hl
  rcases h' l'' hl with htoken | ⟨l', hl', hsame'⟩
  · exact .inl htoken
  · rcases h l' hl' with htoken | ⟨l, hl, hsame⟩
    · exact .inl (hsame'.revision ▸ htoken)
    · exact .inr ⟨l, hl, hsame.trans hsame'⟩

/-- The only part of the store that changes is the lifecycle records, and how. -/
structure LifeOnly (token : Option δ) (s s' : Store δ) : Prop where
  life : ∀ k, LifeStep token (s.life k) (s'.life k)
  message : s'.message = s.message
  group : s'.group = s.group
  count : s'.count = s.count
  reset : s'.reset = s.reset

theorem LifeOnly.refl (token : Option δ) (s : Store δ) : LifeOnly token s s :=
  ⟨fun _ => .refl _ _, rfl, rfl, rfl, rfl⟩

theorem LifeOnly.trans {token : Option δ} {s s' s'' : Store δ} (h : LifeOnly token s s')
    (h' : LifeOnly token s' s'') : LifeOnly token s s'' :=
  ⟨fun k => (h.life k).trans (h'.life k), h'.message.trans h.message, h'.group.trans h.group,
    h'.count.trans h.count, h'.reset.trans h.reset⟩

theorem foldl_only {ι : Type} {f : Store δ → ι → Store δ} {t : Option δ}
    (h : ∀ s i, LifeOnly t s (f s i)) (l : List ι) (s : Store δ) : LifeOnly t s (l.foldl f s) := by
  induction l generalizing s with
  | nil => exact .refl _ _
  | cons i l ih => exact (h s i).trans (ih (f s i))

section

variable [DecidableEq δ] {now : Nat} {token : δ} {key : δ × Mode} {s : Store δ} {life : Life δ}

theorem lifeStep_put {slot : Slot (Life δ)} (hslot : ∀ l, content slot = some l → l = life)
    (h : life.revision = token ∨ ∃ l, content (s.life key) = some l ∧ l.SameRevision life)
    (k : δ × Mode) : LifeStep (some token) (s.life k) (put s.life key slot k) := by
  intro l' hl'
  rw [put_apply] at hl'
  split at hl'
  · next hk =>
    subst hk
    obtain rfl := hslot l' hl'
    exact h.imp_left (congrArg some)
  · exact .inr ⟨l', hl', .refl l'⟩

theorem writeLife_only
    (h : life.revision = token ∨ ∃ l, content (s.life key) = some l ∧ l.SameRevision life) :
    LifeOnly (some token) s (s.writeLife now key life) :=
  ⟨lifeStep_put (fun _ => content_write) h, rfl, rfl, rfl, rfl⟩

theorem rewriteLife_only
    (h : life.revision = token ∨ ∃ l, content (s.life key) = some l ∧ l.SameRevision life) :
    LifeOnly (some token) s (s.rewriteLife now key life) :=
  ⟨lifeStep_put (fun _ => content_rewrite) h, rfl, rfl, rfl, rfl⟩

theorem advance_cases (previous : Life δ) (token : δ) (atMs : Nat) (source : δ) :
    (previous.advance token atMs source).revision = token ∨
      previous.SameRevision (previous.advance token atMs source) := by
  by_cases hkeep : previous.source = source ∧ previous.conflict = false
  · refine .inr ⟨?_, ?_, rfl, rfl⟩ <;> simp [Life.advance, hkeep]
  · refine .inl ?_
    by_cases hsource : previous.source = source
    · have hconflict : previous.conflict = true := by
        cases hc : previous.conflict with
        | true => rfl
        | false => exact absurd ⟨hsource, hc⟩ hkeep
      simp [Life.advance, hconflict]
    · simp [Life.advance, hsource]

theorem predecessor_cases {atMs : Nat} {source : δ} {publishedAt publishedAt' : Option Nat}
    {previous : Life δ}
    (h : s.predecessor token key atMs source publishedAt = some (publishedAt', some previous)) :
    content (s.life key) = some previous ∨ previous.revision = token := by
  unfold Store.predecessor at h
  split at h
  · next hlife =>
    obtain ⟨-, hprevious⟩ := Prod.mk.inj (Option.some.inj h)
    exact .inl (hprevious ▸ hlife)
  · split at h
    · unfold inheritPrior at h
      split at h
      · cases h
      · split at h
        · cases h
        · split at h
          · obtain ⟨-, hprevious⟩ := Prod.mk.inj (Option.some.inj h)
            exact .inr (Option.some.inj hprevious ▸ rfl)
          · cases h
    · cases h

theorem lifecycle_cases (now : Nat) (token : δ) (key : δ × Mode) (s : Store δ) (atMs : Nat)
    (source : δ) (publishedAt : Option Nat) :
    LifeOnly (some token) s (lifecycle now token key atMs source publishedAt s).1 ∧
      (∀ k, k ≠ key → (lifecycle now token key atMs source publishedAt s).1.life k = s.life k) ∧
      ∀ life, (lifecycle now token key atMs source publishedAt s).2 = some life →
        life.revision = token ∨ ∃ l, content (s.life key) = some l ∧ l.SameRevision life := by
  unfold lifecycle
  split
  · exact ⟨.refl _ _, fun _ _ => rfl, nofun⟩
  · exact ⟨writeLife_only (.inl rfl), fun k hk => put_other _ hk _,
      fun life h => .inl (Option.some.inj h ▸ rfl)⟩
  · next previous hprevious =>
    have hstored := predecessor_cases hprevious
    split
    · exact ⟨.refl _ _, fun _ _ => rfl, nofun⟩
    · split
      · split
        · exact ⟨rewriteLife_only (.inl rfl), fun k hk => put_other _ hk _, nofun⟩
        · refine ⟨.refl _ _, fun _ _ => rfl, fun life h => ?_⟩
          dsimp only at h
          split at h
          · cases h
          · obtain rfl := Option.some.inj h
            exact hstored.symm.imp_right fun hl => ⟨_, hl, .refl _⟩
      · have hadvance : (previous.advance token atMs source).revision = token ∨
            ∃ l, content (s.life key) = some l ∧
              l.SameRevision (previous.advance token atMs source) := by
          rcases advance_cases previous token atMs source with htoken | hsame
          · exact .inl htoken
          · rcases hstored with hl | htoken
            · exact .inr ⟨previous, hl, hsame⟩
            · exact .inl (hsame.revision.trans htoken)
        exact ⟨writeLife_only hadvance, fun k hk => put_other _ hk _,
          fun life h => Option.some.inj h ▸ hadvance⟩

theorem invalidateMode_only {member : δ} {entry : Mode × δ} :
    LifeOnly (some token) s (invalidateMode now token member s entry) := by
  unfold invalidateMode
  dsimp only
  split
  · exact .refl _ _
  · exact rewriteLife_only (.inl rfl)

end

end Maxim.Moderation.MessageDuplicate
