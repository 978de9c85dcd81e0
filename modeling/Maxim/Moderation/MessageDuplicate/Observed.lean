import Maxim.Moderation.MessageDuplicate.Effects

/-!
# What an observation does

An observation that is not refused writes one lifecycle record and one state,
with one revision. The revision is the new token, or that of a stored record
which belongs to the current epoch. Originals and counters change only if the
observation has no match.
-/

namespace Maxim.Moderation.MessageDuplicate

open Maxim.Library

variable {δ : Type}

def Continues (p : Observe δ) (s : Store δ) (c : Continuity δ) : Prop :=
  ∃ previous, content (s.message p.key) = some previous ∧
    (c = previous.toContinuity ∨ previous.continuity = some c)

theorem current_eq_some {b : Background δ} {previous : Message δ} (h : b.current = some previous) :
    b.previous = some previous := (Option.filter_eq_some_iff.mp h).1

section

variable [DecidableEq δ]

/-- The record keeps the revision of the stored record `l`: nothing was reset since it was
materialized, and its state is still there. -/
structure Kept (p : Observe δ) (s : Store δ) (life l : Life δ) : Prop where
  stored : content (s.life p.key) = some l
  revision : life.revision = l.revision
  introducedAt : life.introducedAt = l.introducedAt
  previous : l.materializedRevision.isSome → ∃ st, content (s.message p.key) = some st
  epoch : ∀ m, l.materialized = some m → m.epoch = s.epoch p.author

def Incarnates (p : Observe δ) (s : Store δ) (life : Life δ) : Prop :=
  life.revision = p.token ∨ ∃ l, Kept p s life l

/-- Where the original that the state belongs to comes from. -/
inductive Origin (p : Observe δ) (s : Store δ) (state : Message δ) : Prop
  | new (h : state.originalId = p.token)
  | previous (previous : Message δ) (stored : content (s.message p.key) = some previous)
    (revision : previous.revision = state.revision) (id : state.originalId = previous.originalId)
    (publishedAt : state.revision = p.token ∨ ∃ l, content (s.life p.key) = some l ∧
      l.revision = state.revision ∧ state.publishedAt = l.introducedAt)
  | continued (c : Continuity δ) (h : Continues p s c) (id : state.originalId = c.originalId)
    (publishedAt : state.publishedAt = c.publishedAt)

/-- A match with an accepted original that stands. -/
structure Fresh (p : Observe δ) (s : Store δ) (state : Message δ) (m : Match δ) : Prop where
  stored : content (s.group (p.scope, m.fingerprint)) = some m.original
  standing : ∃ st, content (s.message (m.original.member, p.mode)) = some st ∧
    st.revision = m.original.revision
  other : m.original.member ≠ p.member
  published : m.original.publishedAtMs ≤ state.publishedAt
  unexpired : p.atMs < m.original.expiresAtMs

def Matches (p : Observe δ) (s : Store δ) (state : Message δ) (m : Match δ) : Prop :=
  (∃ c, Continues p s c ∧ state.publishedAt = c.publishedAt ∧ m ∈ c.matched) ∨ Fresh p s state m

/-- The record and the state that an observation writes, with one revision. -/
structure Written (now : Nat) (p : Observe δ) (s s' : Store δ) (life : Life δ) (state : Message δ) :
    Prop where
  lifeOther : ∀ k, k ≠ p.key → s'.life k = s.life k
  lifeKey : ∀ l, content (s'.life p.key) = some l → l = life
  messageOther : ∀ k, k ≠ p.key → s'.message k = s.message k
  messageKey : ∀ c, s'.message p.key = some c →
    c.value = state ∧ ∃ x, c.expiresAt = some x ∧ x ≤ now + retentionMs
  reset : s'.reset = s.reset
  revision : state.revision = life.revision
  epoch : state.epoch = s.epoch p.author
  materializedRevision : life.materializedRevision = some life.revision
  materialized : life.materialized = some state.incarnation
  introducedAt : life.introducedAt = state.publishedAt
  incarnates : life.revision = p.token ∨ ∃ l, content (s.life p.key) = some l ∧
    life.revision = l.revision ∧
    (l.materializedRevision.isSome → ∃ st, content (s.message p.key) = some st) ∧
    ∀ m, l.materialized = some m → m.epoch = s.epoch p.author
  origin : Origin p s state
  continuity : ∀ c, state.continuity = some c → Continues p s c

/-- The effect of an observation that is not refused. -/
structure Observed (now : Nat) (p : Observe δ) (s s' : Store δ) (reply : Result δ) (life : Life δ)
    (state : Message δ) : Prop extends Written now p s s' life state where
  matched : ∀ m ∈ state.matched, Matches p s state m
  group : ∀ k o, content (s'.group k) = some o →
    content (s.group k) = some o ∨ o = p.original state (p.windowEnd state.publishedAt)
  count : ∀ k c, content (s'.count k) = some c → content (s.count k) = some c ∨
    (c.accepted ≤ p.allowed ∧
      c.qualified = ((content (s.count k)).getD ⟨0, 0⟩).qualified)
  replyMatched : reply.matched = state.matched
  rejected : reply.matched = [] ∨ (reply.revision = some state.revision ∧ s'.group = s.group ∧
    s'.count = s.count ∧ ∃ slot x, s'.message p.key = rewrite now slot state x)

variable {now : Nat} {p : Observe δ} {s s₁ : Store δ} {life : Life δ} {state : Message δ}

/-! ## The incarnation -/

theorem reincarnate_cases {life life' : Life δ}
    (hlife : life.revision = p.token ∨ ∃ l, content (s.life p.key) = some l ∧ l.SameRevision life)
    (h : p.reincarnate (p.background s) life = some life') : Incarnates p s life' := by
  unfold Observe.reincarnate at h
  split at h
  · split at h
    · cases h
    · split at h
      · cases h
      · obtain rfl := Option.some.inj h
        exact .inl rfl
  · next hreset =>
    split at h
    · obtain rfl := Option.some.inj h
      exact .inl rfl
    · next hstate =>
      obtain rfl := Option.some.inj h
      refine hlife.imp_right ?_
      rintro ⟨l, hl, hsame⟩
      refine ⟨l, hl, hsame.revision, hsame.introducedAt, fun hmat => ?_, fun m hm => ?_⟩
      · rw [← hsame.materializedRevision] at hmat
        have hprevious : ¬(content (s.message p.key)).isNone := fun hnone => hstate ⟨hnone, hmat⟩
        cases hc : content (s.message p.key) with
        | none => rw [hc] at hprevious; exact absurd rfl hprevious
        | some st => exact ⟨st, rfl⟩
      · have hb : (p.background s).materialized = some m := by
          simp [Observe.background, hl, hm]
        rw [Background.resetIncarnation, hb] at hreset
        simpa [Observe.background] using hreset

theorem settled_incarnates {b : Background δ} (h : Incarnates p s life) :
    Incarnates p s (p.settled b life) := by
  unfold Observe.settled
  split
  · exact .inl rfl
  · exact h

/-! ## The state -/

variable {c : Continuity δ}

theorem continuity_continues
    (h : p.continuity (p.background s) life = some c) : Continues p s c := by
  unfold Observe.continuity at h
  obtain ⟨previous, hprevious, h⟩ := Option.bind_eq_some_iff.mp h
  have hstored : content (s.message p.key) = some previous := current_eq_some hprevious
  split at h
  · exact ⟨previous, hstored, .inl (Option.some.inj h).symm⟩
  · split at h
    · exact ⟨previous, hstored, .inr (Option.filter_eq_some_iff.mp h).1⟩
    · cases h

theorem verified_continues
    (h : p.verified (p.background s) life = some c) : Continues p s c :=
  continuity_continues (Option.filter_eq_some_iff.mp h).1

theorem preserved_verified {b : Background δ}
    (h : p.preserved b life = some c) : p.verified b life = some c :=
  (Option.filter_eq_some_iff.mp h).1

theorem state_publishedAt {b : Background δ} (h : p.verified b life = some c) :
    (p.state b life).publishedAt = c.publishedAt := by
  simp [Observe.state, h]

theorem state_continuity
    (h : (p.state (p.background s) life).continuity = some c) : Continues p s c := by
  unfold Observe.state at h
  dsimp only at h
  split at h
  · exact continuity_continues h
  · cases h

theorem state_origin (hlife : Incarnates p s life) : Origin p s (p.state (p.background s) life) := by
  have hid : (p.state (p.background s) life).originalId = p.originalId (p.background s) life := rfl
  unfold Observe.originalId at hid
  cases hv : p.verified (p.background s) life with
  | some c =>
    rw [hv] at hid
    exact .continued c (verified_continues hv) hid (state_publishedAt hv)
  | none =>
    rw [hv] at hid
    dsimp only at hid
    cases hp : (p.background s).previous.filter
        fun previous => decide (previous.revision = life.revision) with
    | none =>
      rw [hp] at hid
      exact .new hid
    | some previous =>
      rw [hp] at hid
      obtain ⟨hstored, hrev⟩ := Option.filter_eq_some_iff.mp hp
      refine .previous previous hstored (of_decide_eq_true hrev) hid ?_
      refine hlife.imp_right ?_
      rintro ⟨l, hl⟩
      refine ⟨l, hl.stored, hl.revision.symm, ?_⟩
      have hpub : (p.state (p.background s) life).publishedAt = life.introducedAt := by
        simp [Observe.state, hv]
      rw [hpub, hl.introducedAt]

/-! ## The comparison -/

variable {fingerprint : δ} {original : Original δ}

theorem snapshot_mem {m : Match δ}
    (h : c.snapshot fingerprint original = some m) : m ∈ c.matched :=
  (List.mem_filter.mp (List.mem_of_getLast? h)).1

theorem valid_standing {mode : Mode} (h : s.valid mode original = true) :
    ∃ st, content (s.message (original.member, mode)) = some st ∧
      st.revision = original.revision := by
  unfold Store.valid at h
  obtain ⟨-, hstate⟩ := Bool.and_eq_true_iff.mp h
  obtain ⟨st, hst, hall⟩ := (Option.any_eq_true _ _).mp hstate
  simp only [Bool.and_eq_true, decide_eq_true_eq] at hall
  exact ⟨st, hst, hall.1.1.2⟩

theorem standing_eq_some
    (h : p.standing s fingerprint = some original) :
    content (s.group (p.scope, fingerprint)) = some original ∧ s.valid p.mode original = true := by
  obtain ⟨hstored, hvalid⟩ := Option.filter_eq_some_iff.mp h
  exact ⟨hstored, (Bool.and_eq_true_iff.mp hvalid).1⟩

variable {preserved : Option (Continuity δ)}

theorem stage_evidence {m : Match δ}
    (h : p.stage preserved state s fingerprint = .evidence m) :
    (∃ c, preserved = some c ∧ m ∈ c.matched) ∨ Fresh p s state m := by
  unfold Observe.stage at h
  split at h
  · dsimp only at h
    split at h <;> cases h
  · next original horiginal =>
    obtain ⟨hstanding, -⟩ := Option.filter_eq_some_iff.mp horiginal
    obtain ⟨hstored, hvalid⟩ := standing_eq_some hstanding
    split at h
    · next hopen =>
      dsimp only at h
      split at h
      · cases h
      · split at h
        · cases h
        · have hm := Staged.evidence.inj h
          cases hsnap : preserved.bind fun c => c.snapshot fingerprint original with
          | some m' =>
            rw [hsnap] at hm
            obtain ⟨c, hc, hmem⟩ := Option.bind_eq_some_iff.mp hsnap
            obtain rfl : m' = m := hm
            exact .inl ⟨c, hc, snapshot_mem hmem⟩
          | none =>
            rw [hsnap] at hm
            obtain rfl := hm
            exact .inr ⟨hstored, valid_standing hvalid, hopen.1, hopen.2.1, hopen.2.2⟩
    · cases h

theorem stage_anchor {key : δ × δ}
    (h : p.stage preserved state s fingerprint = .anchor key original) :
    original = p.original state (p.windowEnd state.publishedAt) := by
  unfold Observe.stage at h
  split at h
  · dsimp only at h
    split at h
    · exact (Staged.anchor.inj h).2.symm
    · cases h
  · split at h
    · dsimp only at h
      split at h
      · cases h
      · split at h <;> cases h
    · cases h

theorem stage_accept {fingerprint' : δ}
    {counter : CounterKey δ} {count : Count} {x : Nat}
    (h : p.stage preserved state s fingerprint = .accept fingerprint' counter count x) :
    count.accepted ≤ p.allowed ∧
      count.qualified = ((content (s.count counter)).getD ⟨0, 0⟩).qualified := by
  unfold Observe.stage at h
  split at h
  · dsimp only at h
    split at h <;> cases h
  · split at h
    · dsimp only at h
      split at h
      · cases h
      · split at h
        · next hlt =>
          obtain ⟨-, rfl, rfl, -⟩ := Staged.accept.inj h
          exact ⟨hlt, rfl⟩
        · cases h
    · cases h

/-- The staged writes, performed in order. -/
structure Applied (staged : List (Staged δ)) (s s' : Store δ) : Prop where
  life : s'.life = s.life
  message : s'.message = s.message
  reset : s'.reset = s.reset
  group : ∀ k o, content (s'.group k) = some o →
    content (s.group k) = some o ∨ ∃ key, Staged.anchor key o ∈ staged
  count : ∀ k c, content (s'.count k) = some c →
    content (s.count k) = some c ∨ ∃ fingerprint x, Staged.accept fingerprint k c x ∈ staged

theorem apply_applied (staged : List (Staged δ)) (s : Store δ) :
    Applied staged s (staged.foldl (Store.apply now) s) := by
  induction staged using List.reverseRecOn with
  | nil => exact ⟨rfl, rfl, rfl, fun _ _ h => .inl h, fun _ _ h => .inl h⟩
  | append_singleton staged w ih =>
    rw [List.foldl_append]
    generalize staged.foldl (Store.apply now) s = s₁ at ih
    have hgroup : ∀ k o, content (s₁.group k) = some o → content (s.group k) = some o ∨
        ∃ key, Staged.anchor key o ∈ staged ++ [w] := fun k o h =>
      (ih.group k o h).imp_right fun ⟨key, hmem⟩ => ⟨key, List.mem_append_left _ hmem⟩
    have hcount : ∀ k c, content (s₁.count k) = some c → content (s.count k) = some c ∨
        ∃ fingerprint x, Staged.accept fingerprint k c x ∈ staged ++ [w] := fun k c h =>
      (ih.count k c h).imp_right fun ⟨f, x, hmem⟩ => ⟨f, x, List.mem_append_left _ hmem⟩
    cases w with
    | skip => exact ⟨ih.life, ih.message, ih.reset, hgroup, hcount⟩
    | evidence m => exact ⟨ih.life, ih.message, ih.reset, hgroup, hcount⟩
    | anchor key original =>
      refine ⟨ih.life, ih.message, ih.reset, fun k o h => ?_, hcount⟩
      change content (put s₁.group key _ k) = some o at h
      rw [put_apply] at h
      split at h
      · obtain rfl := content_write h
        exact .inr ⟨key, by simp⟩
      · exact hgroup k o h
    | accept fingerprint counter count x =>
      refine ⟨ih.life, ih.message, ih.reset, hgroup, fun k c h => ?_⟩
      change content (put s₁.count counter _ k) = some c at h
      rw [put_apply] at h
      split at h
      · next hk =>
        obtain rfl := content_rewrite h
        exact .inr ⟨fingerprint, x, by simp [hk]⟩
      · exact hcount k c h

/-! ## The writes -/

/-- Only the lifecycle record of one message has changed. -/
structure LifeAt (key : δ × Mode) (s s' : Store δ) : Prop where
  life : ∀ k, k ≠ key → s'.life k = s.life k
  message : s'.message = s.message
  group : s'.group = s.group
  count : s'.count = s.count
  reset : s'.reset = s.reset

omit [DecidableEq δ] in
theorem LifeAt.trans {key : δ × Mode} {s s' s'' : Store δ} (h : LifeAt key s s')
    (h' : LifeAt key s' s'') : LifeAt key s s'' :=
  ⟨fun k hk => (h'.life k hk).trans (h.life k hk), h'.message.trans h.message,
    h'.group.trans h.group, h'.count.trans h.count, h'.reset.trans h.reset⟩

theorem rewriteLife_at (now : Nat) (key : δ × Mode) (life : Life δ) (s : Store δ) :
    LifeAt key s (s.rewriteLife now key life) :=
  ⟨fun _ hk => put_other _ hk _, rfl, rfl, rfl, rfl⟩

theorem rewriteLife_if (now : Nat) (key : δ × Mode) (life : Life δ) (s : Store δ) (c : Prop)
    [Decidable c] : LifeAt key s (if c then s.rewriteLife now key life else s) := by
  split
  · exact rewriteLife_at now key life s
  · exact ⟨fun _ _ => rfl, rfl, rfl, rfl, rfl⟩

omit [DecidableEq δ] in
theorem Origin.with {accepted : List δ} {matched : List (Match δ)} (h : Origin p s state) :
    Origin p s { state with accepted, matched } := by
  cases h with
  | new h => exact .new h
  | previous previous stored revision id publishedAt =>
    exact .previous previous stored revision id publishedAt
  | continued c h id publishedAt => exact .continued c h id publishedAt

/-- The comparison keeps what is written and adds the matches to the state. -/
theorem compare_observed (h : Written now p s s₁ life state)
    (hmessage : ∀ k, k ≠ p.key → s₁.message k = s.message k) (hgroup : s₁.group = s.group)
    (hcount : s₁.count = s.count)
    (hpreserved : ∀ c, preserved = some c → Continues p s c ∧ state.publishedAt = c.publishedAt) :
    ∃ state', Observed now p s (p.compare now preserved state s₁).1
      (p.compare now preserved state s₁).2 life state' := by
  unfold Observe.compare
  dsimp only
  generalize hstaged : p.fingerprints.map (p.stage preserved state s₁) = staged
  have hmem : ∀ w ∈ staged, ∃ fingerprint, p.stage preserved state s₁ fingerprint = w := by
    intro w hw
    rw [← hstaged] at hw
    obtain ⟨fingerprint, -, hw⟩ := List.mem_map.mp hw
    exact ⟨fingerprint, hw⟩
  generalize haccepted : (if (staged.filterMap Staged.evidence?).isEmpty then
    state.accepted ++ staged.filterMap Staged.accepted? else state.accepted) = accepted
  generalize hs₂ : (if (staged.filterMap Staged.evidence?).isEmpty then
    staged.foldl (Store.apply now) s₁ else s₁) = s₂
  have happlied : Applied staged s₁ s₂ := by
    rw [← hs₂]
    split
    · exact apply_applied staged s₁
    · exact ⟨rfl, rfl, rfl, fun _ _ h => .inl h, fun _ _ h => .inl h⟩
  refine ⟨{ state with accepted, matched := staged.filterMap Staged.evidence? }, ?_⟩
  constructor
  · constructor
    · intro k hk
      change s₂.life k = _
      rw [happlied.life]
      exact h.lifeOther k hk
    · intro l hl
      change content (s₂.life p.key) = some l at hl
      rw [happlied.life] at hl
      exact h.lifeKey l hl
    · intro k hk
      exact (put_other _ hk _).trans ((congrFun happlied.message k).trans (h.messageOther k hk))
    · intro c hc
      change put s₂.message p.key _ p.key = some c at hc
      rw [put_same] at hc
      exact rewrite_eq_some hc
    · exact happlied.reset.trans h.reset
    · exact h.revision
    · exact h.epoch
    · exact h.materializedRevision
    · exact h.materialized
    · exact h.introducedAt
    · exact h.incarnates
    · exact h.origin.with
    · exact h.continuity
  · intro m hm
    obtain ⟨w, hw, hev⟩ := List.mem_filterMap.mp hm
    obtain ⟨fingerprint, hstage⟩ := hmem w hw
    cases w with
    | evidence m' =>
      obtain rfl : m' = m := Option.some.inj hev
      rcases stage_evidence hstage with ⟨c, hc, hmatch⟩ | hfresh
      · obtain ⟨hcont, hpub⟩ := hpreserved c hc
        exact .inl ⟨c, hcont, hpub, hmatch⟩
      · refine .inr ⟨hgroup ▸ hfresh.stored, ?_, hfresh.other, hfresh.published, hfresh.unexpired⟩
        obtain ⟨st, hst, hrev⟩ := hfresh.standing
        rw [hmessage _ fun heq => hfresh.other (congrArg Prod.fst heq)] at hst
        exact ⟨st, hst, hrev⟩
    | skip => cases hev
    | anchor => cases hev
    | accept => cases hev
  · intro k o ho
    rcases happlied.group k o ho with hold | ⟨key, hw⟩
    · rw [hgroup] at hold
      exact .inl hold
    · obtain ⟨fingerprint, hstage⟩ := hmem _ hw
      have hanchor : o = p.original state (p.windowEnd state.publishedAt) := stage_anchor hstage
      exact .inr hanchor
  · intro k c hc
    rcases happlied.count k c hc with hold | ⟨fingerprint', x, hw⟩
    · rw [hcount] at hold
      exact .inl hold
    · obtain ⟨fingerprint, hstage⟩ := hmem _ hw
      have hacc := stage_accept hstage
      rw [hcount] at hacc
      exact .inr hacc
  · rfl
  · cases hm : staged.filterMap Staged.evidence? with
    | nil => exact .inl rfl
    | cons m ms =>
      rw [hm] at hs₂
      obtain rfl : s₁ = s₂ := hs₂
      exact .inr ⟨rfl, hgroup, hcount, _, _, put_same _ _ _⟩

/-- An observation that reaches its writes. -/
theorem materialize_observed (hat : LifeAt p.key s s₁) (hlife : Incarnates p s life) :
    ∃ life' state, Observed now p s (p.materialize now (p.background s) life s₁).1
      (p.materialize now (p.background s) life s₁).2 life' state := by
  unfold Observe.materialize
  dsimp only
  have hsettled := settled_incarnates (b := p.background s) hlife
  generalize p.settled (p.background s) life = settled at hsettled
  generalize hs₂ : (if p.provenDifferent (p.background s) life = true then
    s₁.rewriteLife now p.key settled else s₁) = s₂
  have hat₂ : LifeAt p.key s s₂ := hs₂ ▸ hat.trans (rewriteLife_if _ _ _ _ _)
  generalize hstate : p.state (p.background s) settled = state
  generalize hs₃ : (if (p.verified (p.background s) settled).isSome = true then
    s₂.rewriteLife now p.key { settled with introducedAt := state.publishedAt } else s₂) = s₃
  have hat₃ : LifeAt p.key s s₃ := hs₃ ▸ hat₂.trans (rewriteLife_if _ _ _ _ _)
  generalize hlife' : ({ settled with
    introducedAt := state.publishedAt
    materializedRevision := some settled.revision
    materialized := some state.incarnation } : Life δ) = life'
  have hat₄ := hat₃.trans (rewriteLife_at now p.key life' s₃)
  have hwritten : Written now p s { s₃.rewriteLife now p.key life' with
      message := put s₃.message p.key
        (write now state (windowExpiry now p.windowMs state.atMs)) } life' state := by
    constructor
    · exact hat₄.life
    · intro l hl
      change content (put s₃.life p.key _ p.key) = some l at hl
      rw [put_same] at hl
      exact content_rewrite hl
    · intro k hk
      exact (put_other _ hk _).trans (congrFun hat₃.message k)
    · intro c hc
      change put s₃.message p.key _ p.key = some c at hc
      rw [put_same] at hc
      exact write_eq_some hc
    · exact hat₄.reset
    · rw [← hstate, ← hlife']
      rfl
    · rw [← hstate]
      rfl
    · rw [← hlife']
    · rw [← hlife']
    · rw [← hlife']
    · rw [← hlife']
      exact hsettled.imp_right fun ⟨l, hl⟩ => ⟨l, hl.stored, hl.revision, hl.previous, hl.epoch⟩
    · exact hstate ▸ state_origin hsettled
    · intro c hc
      rw [← hstate] at hc
      exact state_continuity hc
  have hmatched : state.matched = [] := hstate ▸ rfl
  have hplain : ∀ reply : Result δ, reply.matched = [] →
      ∃ life'' state', Observed now p s { s₃.rewriteLife now p.key life' with
        message := put s₃.message p.key
          (write now state (windowExpiry now p.windowMs state.atMs)) } reply life'' state' := by
    intro reply hreply
    refine ⟨life', state, hwritten, ?_, ?_, ?_, hreply.trans hmatched.symm, .inl hreply⟩
    · rw [hmatched]
      nofun
    · intro k o ho
      exact .inl (congrFun hat₃.group k ▸ ho)
    · intro k c hc
      exact .inl (congrFun hat₃.count k ▸ hc)
  split
  · exact hplain _ rfl
  · split
    · exact hplain _ rfl
    · refine ⟨life', compare_observed hwritten hwritten.messageOther hat₃.group hat₃.count ?_⟩
      intro c hc
      have hverified := preserved_verified hc
      exact ⟨verified_continues hverified, hstate ▸ state_publishedAt hverified⟩

/-! ## Every observation -/

/-- A reply without a write to the state of the message: it has no matches, or repeats the stored
ones. -/
def Answers (p : Observe δ) (s : Store δ) (reply : Result δ) : Prop :=
  reply.matched = [] ∨ ∃ previous, content (s.message p.key) = some previous ∧
    reply.matched = previous.matched ∧ reply.revision = some previous.revision

theorem earlyReply_answers {reply : Result δ}
    (h : p.earlyReply (p.background s) s = some reply) : Answers p s reply := by
  unfold Observe.earlyReply at h
  split at h
  · exact .inl (Option.some.inj h ▸ rfl)
  · split at h
    · exact .inl (Option.some.inj h ▸ rfl)
    · split at h
      · exact .inl (Option.some.inj h ▸ rfl)
      · split at h
        · exact .inl (Option.some.inj h ▸ rfl)
        · obtain ⟨previous, hprevious, rfl⟩ := Option.map_eq_some_iff.mp h
          exact .inr ⟨previous, current_eq_some (Option.filter_eq_some_iff.mp hprevious).1, rfl, rfl⟩

theorem knownReply_answers {reply : Result δ}
    (h : p.knownReply (p.background s) life = some reply) : Answers p s reply := by
  obtain ⟨previous, hprevious, h⟩ := Option.bind_eq_some_iff.mp h
  split at h
  · exact .inl (Option.some.inj h ▸ rfl)
  · split at h
    · exact .inr ⟨previous, current_eq_some hprevious, Option.some.inj h ▸ rfl,
        Option.some.inj h ▸ rfl⟩
    · cases h

theorem observe_cases (now : Nat) (p : Observe δ) (s : Store δ) :
    (LifeOnly (some p.token) s (observe now p s).1 ∧ Answers p s (observe now p s).2) ∨
      ∃ life state, Observed now p s (observe now p s).1 (observe now p s).2 life state := by
  unfold observe
  dsimp only
  split
  · next reply hreply => exact .inl ⟨.refl _ _, earlyReply_answers hreply⟩
  · obtain ⟨honly, hother, hlife⟩ := lifecycle_cases now p.token p.key s p.atMs p.lifecycleSource
      (some p.publishedAt)
    split
    · next s₁ hs₁ =>
      rw [hs₁] at honly
      exact .inl ⟨honly, .inl rfl⟩
    · next s₁ life₀ hs₁ =>
      rw [hs₁] at honly hother hlife
      split
      · exact .inl ⟨honly, .inl rfl⟩
      · next life₁ hlife₁ =>
        split
        · next reply hreply => exact .inl ⟨honly, knownReply_answers hreply⟩
        · have hat : LifeAt p.key s s₁ :=
            ⟨hother, honly.message, honly.group, honly.count, honly.reset⟩
          exact .inr (materialize_observed hat (reincarnate_cases (hlife life₀ rfl) hlife₁))

end

end Maxim.Moderation.MessageDuplicate
