import Maxim.Moderation.MessageDuplicate.ResetFence

/-!
# An observation that is repeated

The record and the state that an observation has written carry its date, its
sources and its identity under one revision. The same observation finds them,
answers from them and writes nothing.
-/

namespace Maxim.Moderation.MessageDuplicate

open Maxim.Library

variable {δ : Type}

/-! ## What other operations leave alone -/

/-- Nothing of other messages has changed, and no removal and no epoch. -/
structure Apart (member : δ) (s s' : Store δ) : Prop where
  life : ∀ k, k.1 ≠ member → s'.life k = s.life k
  message : ∀ k, k.1 ≠ member → s'.message k = s.message k
  removed : s'.removed = s.removed
  reset : s'.reset = s.reset

theorem Apart.refl (member : δ) (s : Store δ) : Apart member s s :=
  ⟨fun _ _ => rfl, fun _ _ => rfl, rfl, rfl⟩

theorem Apart.trans {member : δ} {s s' s'' : Store δ} (h : Apart member s s')
    (h' : Apart member s' s'') : Apart member s s'' :=
  ⟨fun k hk => (h'.life k hk).trans (h.life k hk), fun k hk => (h'.message k hk).trans (h.message k hk),
    h'.removed.trans h.removed, h'.reset.trans h.reset⟩

variable [DecidableEq δ] {now : Nat} {p : Observe δ} {s s' : Store δ} {member author : δ}

theorem apart_life (key : δ × Mode) (slot : Slot (Life δ)) (s : Store δ) :
    Apart key.1 s { s with life := put s.life key slot } :=
  ⟨fun _ hk => put_other _ (fun heq => hk (congrArg Prod.fst heq)) _, fun _ _ => rfl, rfl, rfl⟩

theorem apart_message (key : δ × Mode) (slot : Slot (Message δ)) (s : Store δ) :
    Apart key.1 s { s with message := put s.message key slot } :=
  ⟨fun _ _ => rfl, fun _ hk => put_other _ (fun heq => hk (congrArg Prod.fst heq)) _, rfl, rfl⟩

theorem rewriteLife_apart (key : δ × Mode) (life : Life δ) (c : Prop) [Decidable c] (s : Store δ) :
    Apart key.1 s (if c then s.rewriteLife now key life else s) := by
  split
  · exact apart_life key _ s
  · exact .refl _ s

theorem lifecycle_apart (now : Nat) (token : δ) (key : δ × Mode) (atMs : Nat) (source : δ)
    (publishedAt : Option Nat) (s : Store δ) :
    Apart key.1 s (lifecycle now token key atMs source publishedAt s).1 := by
  unfold lifecycle
  split
  · exact .refl _ s
  · exact apart_life key _ s
  · split
    · exact .refl _ s
    · split
      · split
        · exact apart_life key _ s
        · exact .refl _ s
      · exact apart_life key _ s

theorem invalidateMode_apart (now : Nat) (token member : δ) (s : Store δ) (entry : Mode × δ) :
    Apart member s (invalidateMode now token member s entry) := by
  unfold invalidateMode
  dsimp only
  split
  · exact .refl _ s
  · exact apart_life (member, entry.1) _ s

omit [DecidableEq δ] in
theorem foldl_apart {ι : Type} {f : Store δ → ι → Store δ} (h : ∀ s i, Apart member s (f s i))
    (l : List ι) (s : Store δ) : Apart member s (l.foldl f s) := by
  induction l generalizing s with
  | nil => exact .refl _ s
  | cons i l ih => exact (h s i).trans (ih (f s i))

theorem apply_apart (now : Nat) (member : δ) (s : Store δ) (w : Staged δ) :
    Apart member s (s.apply now w) := by
  cases w <;> exact ⟨fun _ _ => rfl, fun _ _ => rfl, rfl, rfl⟩

theorem compare_apart (preserved : Option (Continuity δ)) (state : Message δ) (s : Store δ) :
    Apart p.member s (p.compare now preserved state s).1 := by
  unfold Observe.compare
  dsimp only
  generalize p.fingerprints.map (p.stage preserved state s) = staged
  have hstaged : Apart p.member s (if (staged.filterMap Staged.evidence?).isEmpty then
      staged.foldl (Store.apply now) s else s) := by
    split
    · exact foldl_apart (apply_apart now p.member) staged s
    · exact .refl _ s
  exact hstaged.trans (apart_message p.key _ _)

theorem materialize_apart (b : Background δ) (life : Life δ) (s : Store δ) :
    Apart p.member s (p.materialize now b life s).1 := by
  unfold Observe.materialize
  dsimp only
  generalize p.settled b life = settled
  generalize p.state b settled = state
  generalize hs₂ : (if p.provenDifferent b life = true then s.rewriteLife now p.key settled else s) = s₂
  generalize hs₃ : (if (p.verified b settled).isSome = true then
    s₂.rewriteLife now p.key { settled with introducedAt := state.publishedAt } else s₂) = s₃
  have hs : Apart p.member s s₃ :=
    hs₃ ▸ (hs₂ ▸ rewriteLife_apart p.key _ _ s : Apart p.member s s₂).trans
      (rewriteLife_apart p.key _ _ s₂)
  have hwritten (l : Life δ) (slot : Slot (Message δ)) : Apart p.member s
      { s₃.rewriteLife now p.key l with message := put s₃.message p.key slot } :=
    hs.trans ((apart_life p.key _ s₃).trans (apart_message p.key slot (s₃.rewriteLife now p.key l)))
  split
  · exact hwritten _ _
  · split
    · exact hwritten _ _
    · exact (hwritten _ _).trans (compare_apart _ _ _)

theorem observe_apart (now : Nat) (p : Observe δ) (s : Store δ) :
    Apart p.member s (observe now p s).1 := by
  have hlifecycle := lifecycle_apart now p.token p.key p.atMs p.lifecycleSource (some p.publishedAt) s
  unfold observe
  dsimp only
  split
  · exact .refl _ s
  · split
    · next s₁ hs₁ => rwa [hs₁] at hlifecycle
    · next s₁ life₀ hs₁ =>
      rw [hs₁] at hlifecycle
      split
      · exact hlifecycle
      · split
        · exact hlifecycle
        · exact hlifecycle.trans (materialize_apart _ _ _)

theorem qualify_apart (now : Nat) (p : Check δ) (s : Store δ) : Apart p.member s (qualify now p s).1 := by
  unfold qualify
  split
  · exact .refl _ s
  · split
    · exact .refl _ s
    · split
      · exact .refl _ s
      · next m state _ _ _ =>
        exact (apart_message (p.member, p.mode) _ s).trans
          ⟨fun _ _ => rfl, fun _ _ => rfl, rfl, rfl⟩

/-! ## What an observation leaves -/

/-- The record of the event at hand, without conflict. -/
structure Life.Current (life : Life δ) (p : Observe δ) : Prop where
  atMs : life.atMs = p.atMs
  source : life.source = p.lifecycleSource
  conflict : life.conflict = false

/-- What the observation of an event leaves in the store and has answered. -/
structure Leaves (p : Observe δ) (epoch : Nat) (s' : Store δ) (reply : Result δ) : Prop where
  life : ∀ l, content (s'.life p.key) = some l → l.Current p ∧ l.materializedRevision.isSome = true ∧
    l.materialized = some ⟨epoch, p.atMs, p.source, p.identity⟩
  message : ∀ st, content (s'.message p.key) = some st → st.incarnation = ⟨epoch, p.atMs, p.source, p.identity⟩ ∧
    st.context = p.context ∧ st.matched = reply.matched
  revision : ∀ l st, content (s'.life p.key) = some l → content (s'.message p.key) = some st →
    st.revision = l.revision ∧ ∀ r, reply.revision = some r → r = st.revision

variable {b : Background δ} {life : Life δ} {reply : Result δ}

theorem lifecycle_current
    (h : (lifecycle now p.token p.key p.atMs p.lifecycleSource (some p.publishedAt) s).2 = some life) :
    life.Current p := by
  unfold lifecycle at h
  split at h
  · cases h
  · obtain rfl := Option.some.inj h
    exact ⟨rfl, rfl, rfl⟩
  · split at h
    · cases h
    · split at h
      · next hat =>
        split at h
        · cases h
        next hsource =>
          dsimp only at h
          split at h
          · cases h
          next hconflict =>
            obtain rfl := Option.some.inj h
            exact ⟨hat.symm, not_not.mp hsource, Bool.eq_false_iff.mpr hconflict⟩
      · obtain rfl := Option.some.inj h
        exact ⟨rfl, rfl, rfl⟩

theorem reincarnate_current {life' : Life δ} (hlife : life.Current p)
    (h : p.reincarnate b life = some life') : life'.Current p := by
  unfold Observe.reincarnate at h
  split at h
  · split at h
    · cases h
    · split at h
      · cases h
      · obtain rfl := Option.some.inj h
        exact ⟨hlife.atMs, hlife.source, hlife.conflict⟩
  · split at h
    · obtain rfl := Option.some.inj h
      exact ⟨hlife.atMs, hlife.source, hlife.conflict⟩
    · obtain rfl := Option.some.inj h
      exact hlife

theorem settled_current (hlife : life.Current p) : (p.settled b life).Current p := by
  unfold Observe.settled
  split
  · exact ⟨hlife.atMs, hlife.source, hlife.conflict⟩
  · exact hlife

theorem compare_leaves (now : Nat) (p : Observe δ) (preserved : Option (Continuity δ))
    (state : Message δ) (s : Store δ) :
    (p.compare now preserved state s).1.life = s.life ∧
      (p.compare now preserved state s).2.revision = some state.revision ∧
      ∀ st, content ((p.compare now preserved state s).1.message p.key) = some st →
        ∃ accepted, st =
          { state with accepted, matched := (p.compare now preserved state s).2.matched } := by
  unfold Observe.compare
  dsimp only
  generalize p.fingerprints.map (p.stage preserved state s) = staged
  refine ⟨?_, rfl, fun st hst => ?_⟩
  · split
    · exact (apply_applied staged s).life
    · rfl
  · rw [put_same] at hst
    exact ⟨_, content_rewrite hst⟩

omit [DecidableEq δ] in
theorem leaves_of_written {life' : Life δ} {state : Message δ} {epoch : Nat}
    (hlife : ∀ l, content (s'.life p.key) = some l → l = life')
    (hmessage : ∀ st, content (s'.message p.key) = some st →
      ∃ accepted, st = { state with accepted, matched := reply.matched })
    (hcurrent : life'.Current p) (hmaterialized : life'.materializedRevision.isSome = true ∧
      life'.materialized = some ⟨epoch, p.atMs, p.source, p.identity⟩)
    (hstate : state.incarnation = ⟨epoch, p.atMs, p.source, p.identity⟩ ∧ state.context = p.context)
    (hrevision : state.revision = life'.revision)
    (hreply : ∀ r, reply.revision = some r → r = state.revision) : Leaves p epoch s' reply := by
  refine ⟨fun l hl => ?_, fun st hst => ?_, fun l st hl hst => ?_⟩
  · rw [hlife l hl]
    exact ⟨hcurrent, hmaterialized⟩
  · obtain ⟨accepted, rfl⟩ := hmessage st hst
    exact ⟨hstate.1, hstate.2, rfl⟩
  · obtain ⟨accepted, rfl⟩ := hmessage st hst
    rw [hlife l hl]
    exact ⟨hrevision, hreply⟩

theorem materialize_leaves (hlife : life.Current p) :
    Leaves p b.currentEpoch (p.materialize now b life s).1 (p.materialize now b life s).2 := by
  unfold Observe.materialize
  dsimp only
  have hsettled := settled_current (b := b) hlife
  generalize p.settled b life = settled at hsettled
  generalize hstate : p.state b settled = state
  have hincarnation : state.incarnation = ⟨b.currentEpoch, p.atMs, p.source, p.identity⟩ ∧
      state.context = p.context := hstate ▸ ⟨rfl, rfl⟩
  have hrevision : state.revision = settled.revision := hstate ▸ rfl
  have hempty : state = { state with accepted := state.accepted, matched := [] } := hstate ▸ rfl
  generalize (if (p.verified b settled).isSome = true then
    (if p.provenDifferent b life = true then s.rewriteLife now p.key settled else s).rewriteLife now p.key
      { settled with introducedAt := state.publishedAt }
    else if p.provenDifferent b life = true then s.rewriteLife now p.key settled else s) = s₃
  generalize hlife' : ({ settled with
    introducedAt := state.publishedAt
    materializedRevision := some settled.revision
    materialized := some state.incarnation } : Life δ) = life'
  have hcurrent : life'.Current p := hlife' ▸ ⟨hsettled.atMs, hsettled.source, hsettled.conflict⟩
  have hmaterialized : life'.materializedRevision.isSome = true ∧
      life'.materialized = some ⟨b.currentEpoch, p.atMs, p.source, p.identity⟩ :=
    hlife' ▸ ⟨rfl, congrArg some hincarnation.1⟩
  have hsame : settled.revision = life'.revision := hlife' ▸ rfl
  have hstored : ∀ l, content (put s₃.life p.key
      (rewrite now (s₃.life p.key) life' (eventExpiry now life'.atMs)) p.key) = some l → l = life' := by
    intro l hl
    rw [put_same] at hl
    exact content_rewrite hl
  have hwritten : ∀ st, content (put s₃.message p.key
      (write now state (windowExpiry now p.windowMs state.atMs)) p.key) = some st → st = state := by
    intro st hst
    rw [put_same] at hst
    exact content_write hst
  split
  · exact leaves_of_written hstored (fun st hst => ⟨state.accepted, (hwritten st hst).trans hempty⟩)
      hcurrent hmaterialized hincarnation (hrevision.trans hsame)
      fun r hr => (Option.some.inj hr).symm.trans hrevision.symm
  · split
    · exact leaves_of_written hstored (fun st hst => ⟨state.accepted, (hwritten st hst).trans hempty⟩)
        hcurrent hmaterialized hincarnation (hrevision.trans hsame) fun _ hr => by cases hr
    · obtain ⟨hlifeSame, hreply, hkept⟩ := compare_leaves now p (p.preserved b settled) state
        { s₃.rewriteLife now p.key life' with
          message := put s₃.message p.key (write now state (windowExpiry now p.windowMs state.atMs)) }
      refine leaves_of_written (fun l hl => hstored l ?_) hkept hcurrent hmaterialized hincarnation
        (hrevision.trans hsame) fun r hr => ?_
      · exact (congrArg (fun slots => content (slots p.key)) hlifeSame).symm.trans hl
      · exact Option.some.inj (hr.symm.trans hreply)

/-- An observation that is not refused and not a replay leaves its record and its state. -/
theorem observe_leaves (hok : (observe now p s).2.kind = .ok) :
    (s.removed p.member = none ∧ s.epoch p.author < p.atMs) ∧
      Leaves p (s.epoch p.author) (observe now p s).1 (observe now p s).2 := by
  have hlifecycle : ∀ life, (lifecycle now p.token p.key p.atMs p.lifecycleSource (some p.publishedAt)
      s).2 = some life → life.Current p := fun _ h => lifecycle_current h
  unfold observe at hok ⊢
  dsimp only at hok ⊢
  split at hok
  · next reply hreply =>
    unfold Observe.earlyReply at hreply
    split at hreply
    · rw [← Option.some.inj hreply] at hok
      cases hok
    · split at hreply
      · rw [← Option.some.inj hreply] at hok
        cases hok
      · split at hreply
        · rw [← Option.some.inj hreply] at hok
          cases hok
        · split at hreply
          · rw [← Option.some.inj hreply] at hok
            cases hok
          · obtain ⟨previous, -, rfl⟩ := Option.map_eq_some_iff.mp hreply
            cases hok
  · next hearly =>
    refine ⟨?_, ?_⟩
    · unfold Observe.earlyReply at hearly
      split at hearly
      · cases hearly
      next hfirst =>
        rw [not_or] at hfirst
        exact ⟨by simpa using hfirst.1, Nat.lt_of_not_le hfirst.2⟩
    · split at hok
      · cases hok
      · next s₁ life₀ hs₁ =>
        have hcurrent := hlifecycle life₀ (by rw [hs₁])
        split at hok
        · cases hok
        · next life₁ hlife₁ =>
          split at hok
          · next reply hreply =>
            obtain ⟨previous, -, hreply⟩ := Option.bind_eq_some_iff.mp hreply
            split at hreply
            · rw [← Option.some.inj hreply] at hok
              cases hok
            · split at hreply
              · rw [← Option.some.inj hreply] at hok
                cases hok
              · cases hreply
          · exact materialize_leaves (b := p.background s) (reincarnate_current hcurrent hlife₁)

/-! ## The repetition -/

theorem lifecycle_same (now : Nat) {l : Life δ} (hstored : content (s.life p.key) = some l)
    (hcurrent : l.Current p) :
    lifecycle now p.token p.key p.atMs p.lifecycleSource (some p.publishedAt) s = (s, some l) := by
  have hpredecessor : s.predecessor p.token p.key p.atMs p.lifecycleSource (some p.publishedAt) =
      some (some p.publishedAt, some l) := by
    rw [Store.predecessor, hstored]
  have hlate : ¬p.atMs < l.atMs := by
    rw [hcurrent.atMs]
    exact Nat.lt_irrefl _
  unfold lifecycle
  rw [hpredecessor]
  dsimp only
  rw [if_neg hlate, if_pos hcurrent.atMs.symm, if_neg (not_not.mpr hcurrent.source), hcurrent.conflict]
  rfl

/-- The observation that finds what it has left answers from it. -/
theorem observe_replayed (now : Nat) {l : Life δ} {st : Message δ}
    (hremoved : s.removed p.member = none) (hat : s.epoch p.author < p.atMs)
    (hleft : Leaves p (s.epoch p.author) s reply) (hlife : content (s.life p.key) = some l)
    (hmessage : content (s.message p.key) = some st) (hrecompression : p.recompressionHolds s = true) :
    observe now p s = (s, .replayed st) := by
  obtain ⟨hcurrent, hmaterializedRevision, hmaterialized⟩ := hleft.life l hlife
  obtain ⟨hincarnation, hcontext, -⟩ := hleft.message st hmessage
  have hrevision := (hleft.revision l st hlife hmessage).1
  have hepoch : st.epoch = s.epoch p.author := congrArg Materialized.epoch hincarnation
  have hstAt : st.atMs = p.atMs := congrArg Materialized.atMs hincarnation
  have hstSource : st.source = p.source := congrArg Materialized.source hincarnation
  have hstIdentity : st.identity = p.identity := congrArg Materialized.identity hincarnation
  have hb : (p.background s).materialized = some ⟨s.epoch p.author, p.atMs, p.source, p.identity⟩ := by
    simp [Observe.background, hlife, hmaterialized]
  have hprevious : (p.background s).previous = some st := hmessage
  have hbCurrent : (p.background s).current = some st := by
    rw [Background.current, hprevious]
    exact Option.filter_eq_some_iff.mpr ⟨rfl, decide_eq_true hepoch⟩
  have hrevoked : p.revoked (p.background s) = false := by
    rw [Observe.revoked, hb]
    simp [Observe.background]
  have hunproved : Observe.unproved (p.background s) = false := by
    rw [Observe.unproved, hb]
    rfl
  have hreset : (p.background s).resetIncarnation = false := by
    rw [Background.resetIncarnation, hb]
    simp [Observe.background]
  have hearly : p.earlyReply (p.background s) s =
      ((p.background s).current.filter (p.pendingReplay (p.background s))).map Result.replayed := by
    have hstands : ¬((s.removed p.member).isSome = true ∨ p.atMs ≤ (p.background s).currentEpoch) := by
      rw [hremoved]
      exact not_or.mpr ⟨Bool.false_ne_true, Nat.not_le.mpr hat⟩
    rw [Observe.earlyReply, if_neg hstands, hrecompression, hrevoked, hunproved]
    rfl
  unfold observe
  dsimp only
  rw [hearly, hbCurrent]
  cases hpending : p.pendingReplay (p.background s) st with
  | true => rw [Option.filter_some_pos hpending, Option.map_some]
  | false =>
    have hreincarnate : p.reincarnate (p.background s) l = some l := by
      rw [Observe.reincarnate, hreset, hprevious]
      rfl
    have hknown : p.knownReply (p.background s) l = some (.replayed st) := by
      have hlate : ¬p.atMs < st.atMs := by omega
      rw [Observe.knownReply, hbCurrent, Option.bind_some, if_neg hlate,
        if_pos ⟨hcontext, hrevision, hstSource, .inl hstIdentity⟩]
    rw [Option.filter_some_neg hpending, Option.map_none,
      lifecycle_same now hlife hcurrent]
    dsimp only
    rw [hreincarnate]
    dsimp only
    rw [hknown]

/-! ## Operations in between -/

omit [DecidableEq δ] in
/-- The operation concerns the message or resets the author. -/
def Request.Touches (member author : δ) : Request δ → Prop
  | .observe p => p.member = member
  | .lifecycle member' _ _ _ _ => member' = member
  | .invalidate member' _ _ => member' = member
  | .imageAnchor _ => False
  | .check _ => False
  | .qualify p => p.member = member
  | .remove member' => member' = member
  | .reset author' => author' = author

/-- What is stored about a message and the epoch of its author is what was stored before, or gone. -/
structure Persists (key : δ × Mode) (author : δ) (s s' : Store δ) : Prop where
  life : ∀ c, s'.life key = some c → s.life key = some c
  message : ∀ c, s'.message key = some c → s.message key = some c
  removed : s.removed key.1 = none → s'.removed key.1 = none
  reset : ∀ c, s'.reset author = some c → s.reset author = some c

omit [DecidableEq δ] in
theorem Persists.refl (key : δ × Mode) (author : δ) (s : Store δ) : Persists key author s s :=
  ⟨fun _ h => h, fun _ h => h, fun h => h, fun _ h => h⟩

variable {key : δ × Mode}

omit [DecidableEq δ] in
theorem Persists.trans {s'' : Store δ} (h : Persists key author s s')
    (h' : Persists key author s' s'') : Persists key author s s'' :=
  ⟨fun c hc => h.life c (h'.life c hc), fun c hc => h.message c (h'.message c hc),
    fun hr => h'.removed (h.removed hr), fun c hc => h.reset c (h'.reset c hc)⟩

omit [DecidableEq δ] in
theorem persists_purge (key : δ × Mode) (author : δ) (now : Nat) (s : Store δ) :
    Persists key author s (s.purge now) := by
  refine ⟨fun c hc => (purge_eq_some.mp hc).1, fun c hc => (purge_eq_some.mp hc).1, fun hr => ?_,
    fun c hc => (purge_eq_some.mp hc).1⟩
  change purge now (s.removed key.1) = none
  rw [hr, purge_none]

omit [DecidableEq δ] in
theorem Apart.persists (h : Apart member s s') (hne : key.1 ≠ member) :
    Persists key author s s' := by
  refine ⟨fun c hc => ?_, fun c hc => ?_, fun hr => ?_, fun c hc => ?_⟩
  · rwa [h.life key hne] at hc
  · rwa [h.message key hne] at hc
  · rw [h.removed, hr]
  · rwa [h.reset] at hc

/-- An operation that does not concern the message leaves what is stored about it. -/
theorem step_persists {c : Call δ} (now : Nat) (s : Store δ)
    (h : ¬c.request.Touches key.1 author) : Persists key author s (step now c s).1 := by
  refine (persists_purge key author now s).trans ?_
  unfold step
  dsimp only
  split
  · exact .refl _ _ _
  · split
    · next p hr =>
      rw [hr] at h
      exact (observe_apart now p _).persists (Ne.symm h)
    · next member atMs publishedAt sources token hr =>
      rw [hr] at h
      exact (foldl_apart (fun s entry => lifecycle_apart now token (member, entry.1) atMs entry.2
        publishedAt s) sources _).persists (Ne.symm h)
    · next member sources token hr =>
      rw [hr] at h
      exact (foldl_apart (invalidateMode_apart now token member) sources _).persists (Ne.symm h)
    · next p _ =>
      rw [(imageAnchor_quiet p _).1]
      exact .refl _ _ _
    · next p _ =>
      rw [(check_quiet p _).1]
      exact .refl _ _ _
    · next p hr =>
      rw [hr] at h
      exact (qualify_apart now p _).persists (Ne.symm h)
    · next member hr =>
      rw [hr] at h
      have hne : key.1 ≠ member := Ne.symm h
      unfold remove
      split
      · exact ⟨fun _ hc => hc, fun _ hc => hc, fun hnone => (put_other _ hne _).trans hnone,
          fun _ hc => hc⟩
      · exact .refl _ _ _
    · next author' hr =>
      rw [hr] at h
      have hne : author ≠ author' := Ne.symm h
      refine ⟨fun _ hc => hc, fun _ hc => hc, fun hnone => hnone, fun c hc => ?_⟩
      exact (put_other _ hne _).symm.trans hc

/-! ## Every history -/

abbrev Event (δ : Type) := Entry (Call δ) (Result δ)

theorem run_persists {prior : Slots (δ × Mode) (Life δ)} {pre post : List (Event δ)}
    {t : Nat} (hr : Run step (fun _ _ _ => True) (Store.initial prior) (pre ++ post) t s)
    (hpost : ∀ e ∈ post, ¬e.request.request.Touches key.1 author) :
    Persists key author (replay step (Store.initial prior) pre) s := by
  induction post using List.reverseRecOn generalizing t s with
  | nil =>
    rw [List.append_nil] at hr
    rw [hr.replay_eq]
    exact .refl _ _ _
  | append_singleton post e ih =>
    rw [← List.append_assoc] at hr
    obtain ⟨t₁, s₁, hr₁, -, -, -, -, rfl⟩ := hr.snoc_inv
    refine (ih hr₁ fun e' he' => hpost e' (List.mem_append_left _ he')).trans ?_
    exact step_persists e.now s₁ (hpost e (List.mem_append_right _ (List.mem_singleton.mpr rfl)))

omit [DecidableEq δ] in
theorem Leaves.of_persists {epoch : Nat} (h : Leaves p epoch s reply)
    (hpersists : Persists p.key author s s') : Leaves p epoch s' reply := by
  have hlife : ∀ l, content (s'.life p.key) = some l → content (s.life p.key) = some l := by
    intro l hl
    obtain ⟨c, hc, rfl⟩ := content_eq_some.mp hl
    exact content_eq_some.mpr ⟨c, hpersists.life c hc, rfl⟩
  have hmessage : ∀ st, content (s'.message p.key) = some st →
      content (s.message p.key) = some st := by
    intro st hst
    obtain ⟨c, hc, rfl⟩ := content_eq_some.mp hst
    exact content_eq_some.mpr ⟨c, hpersists.message c hc, rfl⟩
  exact ⟨fun l hl => h.life l (hlife l hl), fun st hst => h.message st (hmessage st hst),
    fun l st hl hst => h.revision l st (hlife l hl) (hmessage st hst)⟩

theorem Persists.epoch_eq (h : Persists key author s s')
    (hreset : (s.reset author).isSome = true → (s'.reset author).isSome = true) :
    s'.epoch author = s.epoch author := by
  unfold Store.epoch
  cases hs' : s'.reset author with
  | some c => rw [h.reset c hs']
  | none =>
    cases hs : s.reset author with
    | none => rfl
    | some c =>
      rw [hs, hs'] at hreset
      cases hreset rfl

theorem accepted_leaves {prior : Slots (δ × Mode) (Life δ)} {h : List (Event δ)} {e : Event δ} {t : Nat}
    (hr : Run step (fun _ _ _ => True) (Store.initial prior) (h ++ [e]) t s)
    (hrequest : e.request.request = .observe p) (hkind : e.reply.kind = .ok) :
    s.removed p.member = none ∧ s.epoch p.author < p.atMs ∧
      Leaves p (s.epoch p.author) s e.reply := by
  obtain ⟨t₀, s₀, -, -, -, -, hreply, rfl⟩ := hr.snoc_inv
  rw [hreply] at hkind ⊢
  unfold step at hkind ⊢
  dsimp only at hkind ⊢
  split at hkind
  · cases hkind
  next hdeadline =>
    rw [if_neg hdeadline]
    rw [hrequest] at hkind ⊢
    dsimp only at hkind ⊢
    obtain ⟨⟨hremoved, hat⟩, hleaves⟩ := observe_leaves hkind
    have hapart := observe_apart e.now p (s₀.purge e.now)
    have hepoch : (observe e.now p (s₀.purge e.now)).1.epoch p.author =
        (s₀.purge e.now).epoch p.author := by
      rw [Store.epoch, hapart.reset]
      rfl
    rw [hepoch, hapart.removed]
    exact ⟨hremoved, hat, hleaves⟩

def threeObserved : List (Nat × Call Nat) :=
  [(5, sampleCall (.observe (sampleObserve 1 11 5))), (5, sampleCall (.observe (sampleObserve 2 12 5))),
    (6, sampleCall (.observe (sampleObserve 3 13 6)))]

def observedAfterReset : List (Nat × Call Nat) :=
  [(5, sampleCall (.reset 0)), (100000000, sampleCall (.observe
    { sampleObserve 1 11 100000000 with windowMs := 172800000 }))]

end Maxim.Moderation.MessageDuplicate