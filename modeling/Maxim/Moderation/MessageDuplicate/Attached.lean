import Maxim.Moderation.MessageDuplicate.Observed

/-!
# One step

A step that is neither a reset nor a successful qualification nor an
observation that writes changes lifecycle records only.
-/

namespace Maxim.Moderation.MessageDuplicate

open Maxim.Library

variable {δ : Type}

theorem content_purge {α : Type} {now : Nat} {slot : Slot α} {v : α}
    (h : content (purge now slot) = some v) : content slot = some v := by
  obtain ⟨c, hc, rfl⟩ := content_eq_some.mp h
  obtain ⟨rfl, -⟩ := purge_eq_some.mp hc
  rfl

theorem qualify_matched {state : Message δ} {selects : Match δ → Bool} {qualified : Nat}
    {m : Match δ} (h : m ∈ (state.qualify selects qualified).matched) :
    ∃ m' ∈ state.matched, m'.fingerprint = m.fingerprint ∧ m'.original = m.original := by
  change m ∈ state.matched.modify _ _ at h
  obtain ⟨i, hi⟩ := List.mem_iff_getElem?.mp h
  rw [List.getElem?_modify] at hi
  cases hm : state.matched[i]? with
  | none =>
    rw [hm] at hi
    cases hi
  | some m' =>
    rw [hm] at hi
    refine ⟨m', List.mem_of_getElem? hm, ?_⟩
    obtain rfl := Option.some.inj hi
    split <;> exact ⟨rfl, rfl⟩

def Message.Holds (st : Message δ) (m : Match δ) : Prop :=
  m ∈ st.matched ∨ ∃ c, st.continuity = some c ∧ m ∈ c.matched

/-- The two states differ in qualifications only. -/
structure Message.SameEvidence (st st' : Message δ) : Prop where
  epoch : st'.epoch = st.epoch
  revision : st'.revision = st.revision
  originalId : st'.originalId = st.originalId
  publishedAt : st'.publishedAt = st.publishedAt
  continuity : st'.continuity = st.continuity
  matched : ∀ m ∈ st'.matched, ∃ m' ∈ st.matched,
    m'.fingerprint = m.fingerprint ∧ m'.original = m.original

theorem Message.SameEvidence.refl (st : Message δ) : st.SameEvidence st :=
  ⟨rfl, rfl, rfl, rfl, rfl, fun m hm => ⟨m, hm, rfl, rfl⟩⟩

theorem Message.SameEvidence.holds {st st' : Message δ} (h : st.SameEvidence st') {m : Match δ}
    (hm : st'.Holds m) : ∃ m', st.Holds m' ∧ m'.fingerprint = m.fingerprint ∧
      m'.original = m.original := by
  rcases hm with hm | ⟨c, hc, hm⟩
  · obtain ⟨m', hm', hfp, ho⟩ := h.matched m hm
    exact ⟨m', .inl hm', hfp, ho⟩
  · rw [h.continuity] at hc
    exact ⟨m, .inr ⟨c, hc, hm⟩, rfl, rfl⟩

theorem qualify_same (state : Message δ) (selects : Match δ → Bool) (qualified : Nat) :
    state.SameEvidence (state.qualify selects qualified) :=
  ⟨rfl, rfl, rfl, rfl, rfl, fun _ => qualify_matched⟩

variable [DecidableEq δ]

/-- Everything one step can do to the keys that have not expired. -/
inductive Effect (now : Nat) (r : Request δ) (s s' : Store δ) (reply : Result δ) : Prop
  | quiet (h : LifeOnly r.token? s s')
    (hreply : reply.matched = [] ∨ ∃ p, r = .observe p ∧ Answers p s reply)
  | reset (author : δ) (hr : r = .reset author) (hs : s' = reset now author s)
    (hreply : reply.matched = [])
  | qualified (p : Check δ) (m : Match δ) (state : Message δ) (hr : r = .qualify p)
    (hm : matching p s = some (m, state)) (qualified x : Nat) (life : s'.life = s.life)
    (message : s'.message = put s.message (p.member, p.mode)
      (rewrite now (s.message (p.member, p.mode)) (state.qualify (p.selects s) qualified) x))
    (group : s'.group = s.group) (y : Nat)
    (count : s'.count = put s.count (s.counterKey p.author p.fingerprint m.original)
      (rewrite now (s.count (s.counterKey p.author p.fingerprint m.original))
        (((content (s.count (s.counterKey p.author p.fingerprint m.original))).getD
          ⟨p.allowed, 0⟩).qualify p.allowed) y))
    (reset : s'.reset = s.reset) (hreply : reply.matched = [])
  | observed (p : Observe δ) (life : Life δ) (state : Message δ) (hr : r = .observe p)
    (h : Observed now p s s' reply life state)

theorem qualify_effect (now : Nat) (p : Check δ) (s : Store δ) :
    Effect now (.qualify p) s (qualify now p s).1 (qualify now p s).2 := by
  unfold qualify
  split
  · exact .quiet (.refl _ _) (.inl rfl)
  · next m state hm =>
    split
    · exact .quiet (.refl _ _) (.inl rfl)
    · split
      · exact .quiet (.refl _ _) (.inl rfl)
      · exact .qualified p m state rfl hm _ _ rfl rfl rfl _ rfl rfl rfl

theorem check_quiet (p : Check δ) (s : Store δ) :
    (check p s).1 = s ∧ (check p s).2.matched = [] := by
  unfold check
  split <;> exact ⟨rfl, rfl⟩

theorem imageAnchor_quiet (p : Anchor δ) (s : Store δ) :
    (imageAnchor p s).1 = s ∧ (imageAnchor p s).2.matched = [] := by
  unfold imageAnchor
  split
  · exact ⟨rfl, rfl⟩
  · split <;> exact ⟨rfl, rfl⟩

theorem remove_only (now : Nat) (member : δ) (s : Store δ) (token : Option δ) :
    LifeOnly token s (remove now member s) := by
  unfold remove
  split
  · exact ⟨fun _ => .refl _ _, rfl, rfl, rfl, rfl⟩
  · exact .refl _ _

theorem step_effect (now : Nat) (c : Call δ) (s : Store δ) :
    Effect now c.request (s.purge now) (step now c s).1 (step now c s).2 := by
  unfold step
  dsimp only
  split
  · exact .quiet (.refl _ _) (.inl rfl)
  · split
    · next p hr =>
      rw [hr]
      rcases observe_cases now p (s.purge now) with ⟨honly, hanswers⟩ | ⟨life, state, h⟩
      · exact .quiet honly (.inr ⟨p, rfl, hanswers⟩)
      · exact .observed p life state rfl h
    · next member atMs publishedAt sources token hr =>
      rw [hr]
      exact .quiet (foldl_only (fun _ _ => (lifecycle_cases _ _ _ _ _ _ _).1) sources _) (.inl rfl)
    · next member sources token hr =>
      rw [hr]
      exact .quiet (foldl_only (fun _ _ => invalidateMode_only) sources _) (.inl rfl)
    · next p hr =>
      obtain ⟨hs, hreply⟩ := imageAnchor_quiet p (s.purge now)
      rw [hs]
      exact .quiet (.refl _ _) (.inl hreply)
    · next p hr =>
      obtain ⟨hs, hreply⟩ := check_quiet p (s.purge now)
      rw [hs]
      exact .quiet (.refl _ _) (.inl hreply)
    · next p hr =>
      rw [hr]
      exact qualify_effect now p (s.purge now)
    · exact .quiet (remove_only _ _ _ _) (.inl rfl)
    · next author hr => exact .reset author hr rfl rfl

theorem matching_eq_some {p : Check δ} {s : Store δ} {m : Match δ} {state : Message δ}
    (h : matching p s = some (m, state)) :
    content (s.message (p.member, p.mode)) = some state ∧ p.revision = some state.revision ∧
      state.epoch = s.epoch p.author ∧ m ∈ state.matched ∧ p.selects s m = true := by
  unfold matching at h
  split at h
  · cases h
  · split at h
    · cases h
    · split at h
      · next st life hst hl =>
        split at h
        · next hcond =>
          obtain ⟨m', hfind, heq⟩ := Option.map_eq_some_iff.mp h
          obtain ⟨rfl, rfl⟩ := Prod.mk.inj heq
          exact ⟨hst, hcond.1, hcond.2.2.1, List.mem_of_find?_eq_some hfind,
            List.find?_some hfind⟩
        · cases h
      · cases h

/-- A state after the step: the old one up to qualifications, or the one just observed. -/
theorem message_step {now : Nat} {r : Request δ} {s s' : Store δ} {reply : Result δ}
    (heffect : Effect now r s s' reply) {k : δ × Mode} {st : Message δ}
    (hst : content (s'.message k) = some st) :
    (∃ st₀, content (s.message k) = some st₀ ∧ st₀.SameEvidence st) ∨
      ∃ p life, r = .observe p ∧ k = p.key ∧ Observed now p s s' reply life st := by
  cases heffect with
  | quiet honly =>
    rw [honly.message] at hst
    exact .inl ⟨st, hst, .refl st⟩
  | reset author hr hs =>
    subst hs
    exact .inl ⟨st, hst, .refl st⟩
  | qualified p m state hr hm q x hlife hmessage =>
    rw [hmessage, put_apply] at hst
    split at hst
    · next hk =>
      obtain rfl := content_rewrite hst
      exact .inl ⟨state, hk ▸ (matching_eq_some hm).1, qualify_same state _ _⟩
    · exact .inl ⟨st, hst, .refl st⟩
  | observed p life state hr ho =>
    by_cases hk : k = p.key
    · subst hk
      obtain ⟨cell, hcell, rfl⟩ := content_eq_some.mp hst
      obtain rfl := (ho.messageKey cell hcell).1
      exact .inr ⟨p, life, hr, rfl, ho⟩
    · rw [ho.messageOther k hk] at hst
      exact .inl ⟨st, hst, .refl st⟩

end Maxim.Moderation.MessageDuplicate

/-!
## Revisions and their states

A revision is attached to a message once the message had a state with it. A
lifecycle record keeps an attached revision only next to a state that has it,
and only within the epoch of that state. Every state, match and reply of a run
is about attached revisions.
-/

namespace Maxim.Moderation.MessageDuplicate

open Maxim.Library

variable {δ : Type}

/-! ## Revisions that had a state -/

def Used (h : List (Entry (Call δ) (Result δ))) (token : δ) : Prop :=
  ∃ e ∈ h, e.request.request.token? = some token

def Unused (h : List (Entry (Call δ) (Result δ))) (c : Call δ) : Prop :=
  ∀ token, c.request.token? = some token → ¬Used h token

/-- A revision that the state of the message has had. A record that still carries it was
materialized in an epoch of `P`, and no other state has come since. -/
structure Attached (P : Nat → Prop) (h : List (Entry (Call δ) (Result δ))) (s : Store δ)
    (key : δ × Mode) (revision : δ) : Prop where
  used : Used h revision
  life : ∀ l, content (s.life key) = some l → l.revision = revision →
    l.materializedRevision.isSome ∧ (∃ m, l.materialized = some m ∧ P m.epoch) ∧
      ∀ st, content (s.message key) = some st → st.revision = revision

variable {now t : Nat} {c : Call δ} {s s' : Store δ} {reply : Result δ}
  {h : List (Entry (Call δ) (Result δ))} {key : δ × Mode} {revision author : δ} {P Q : Nat → Prop}

theorem Used.snoc (hu : Used h revision) (e : Entry (Call δ) (Result δ)) :
    Used (h ++ [e]) revision := by
  obtain ⟨x, hx, hx'⟩ := hu
  exact ⟨x, List.mem_append_left _ hx, hx'⟩

theorem Attached.mono (ha : Attached P h s key revision) (hPQ : ∀ n, P n → Q n) :
    Attached Q h s key revision := by
  refine ⟨ha.used, fun l hl hrev => ?_⟩
  obtain ⟨hmat, ⟨m, hm, hp⟩, hst⟩ := ha.life l hl hrev
  exact ⟨hmat, ⟨m, hm, hPQ _ hp⟩, hst⟩

theorem Attached.purge (ha : Attached P h s key revision) (now : Nat) :
    Attached P h (s.purge now) key revision := by
  refine ⟨ha.used, fun l hl hrev => ?_⟩
  obtain ⟨hmat, hm, hst⟩ := ha.life l (content_purge hl) hrev
  exact ⟨hmat, hm, fun st hst' => hst st (content_purge hst')⟩

variable [DecidableEq δ]

/-- A step keeps the revision attached, with the epoch of the observation if it is one. -/
theorem Attached.step (ha : Attached P h s key revision) (e : Entry (Call δ) (Result δ))
    (hfresh : Unused h c) (heffect : Effect now c.request s s' reply)
    (hobserved : ∀ p life state, c.request = .observe p → p.key = key →
      Observed now p s s' reply life state → life.revision = revision → P (s.epoch p.author)) :
    Attached P (h ++ [e]) s' key revision := by
  refine ⟨ha.used.snoc e, fun l hl hrev => ?_⟩
  cases heffect with
  | quiet honly =>
    rcases honly.life key l hl with htoken | ⟨l₀, hl₀, hsame⟩
    · exact absurd ha.used (hfresh revision (hrev ▸ htoken.symm))
    · obtain ⟨hmat, hm, hst⟩ := ha.life l₀ hl₀ (hsame.revision ▸ hrev)
      rw [hsame.materializedRevision, hsame.materialized, honly.message]
      exact ⟨hmat, hm, hst⟩
  | reset author hr hs =>
    subst hs
    exact ha.life l hl hrev
  | qualified p m state hr hm q x hlife hmessage =>
    rw [hlife] at hl
    obtain ⟨hmat, hm', hst⟩ := ha.life l hl hrev
    refine ⟨hmat, hm', fun st hst' => ?_⟩
    rw [hmessage, put_apply] at hst'
    split at hst'
    · next hk =>
      obtain rfl := content_rewrite hst'
      exact hst state (hk ▸ (matching_eq_some hm).1)
    · exact hst st hst'
  | observed p life state hr ho =>
    by_cases hk : key = p.key
    · subst hk
      obtain rfl := ho.lifeKey l hl
      refine ⟨by rw [ho.materializedRevision]; rfl, ⟨_, ho.materialized, ?_⟩, fun st hst => ?_⟩
      · change P state.epoch
        rw [ho.epoch]
        exact hobserved p l state hr rfl ho hrev
      · obtain ⟨cell, hcell, rfl⟩ := content_eq_some.mp hst
        rw [(ho.messageKey cell hcell).1, ho.revision, hrev]
    · rw [ho.lifeOther key hk] at hl
      rw [ho.messageOther key hk]
      exact ha.life l hl hrev

/-! ## Before the reset -/

/-- An epoch that the author has had: it is not above the current one, or its key has expired. -/
def Past (s : Store δ) (t : Nat) (author : δ) (epoch : Nat) : Prop :=
  epoch ≤ s.epoch author ∨ epoch < t

/-- The original of a match was attached to its message. -/
def MatchAttached (sender : δ → δ) (h : List (Entry (Call δ) (Result δ))) (s : Store δ) (t : Nat)
    (mode : Mode) (m : Match δ) : Prop :=
  m.original.author = sender m.original.member ∧
    Attached (Past s t (sender m.original.member)) h s (m.original.member, mode) m.original.revision

/-- What the callers promise: tokens are new, and a request names the sender of its message. -/
structure Promise (sender : δ → δ) (h : List (Entry (Call δ) (Result δ))) (c : Call δ) : Prop where
  token : Unused h c
  observe : ∀ p, c.request = .observe p → p.author = sender p.member
  binding : ∀ p, c.request = .check p ∨ c.request = .qualify p → p.author = sender p.member

/-- The next epoch is not further ahead of the clock than its key lives. -/
def Paced (now : Nat) (c : Call δ) (s : Store δ) : Prop :=
  ∀ author, c.request = .reset author → s.epoch author < now + retentionMs

structure Inv (sender : δ → δ) (h : List (Entry (Call δ) (Result δ))) (t : Nat) (s : Store δ) :
    Prop where
  capped : ∀ k c, s.message k = some c → ∃ x, c.expiresAt = some x ∧ x ≤ t + retentionMs
  resets : ∀ a c, s.reset a = some c → ∃ x, c.expiresAt = some x ∧ c.value ≤ x
  group : ∀ k o, content (s.group k) = some o → o.author = sender o.member
  life : ∀ k l, content (s.life k) = some l → Used h l.revision
  epoch : ∀ k st, content (s.message k) = some st → Past s t (sender k.1) st.epoch
  attached : ∀ k st, content (s.message k) = some st →
    Attached (Past s t (sender k.1)) h s k st.revision
  matched : ∀ k st, content (s.message k) = some st → ∀ m, st.Holds m →
    MatchAttached sender h s t k.2 m

variable {sender : δ → δ} {n : Nat}

theorem Past.purge (hp : Past s t author n) (hle : t ≤ now)
    (hresets : ∀ a c, s.reset a = some c → ∃ x, c.expiresAt = some x ∧ c.value ≤ x) :
    Past (s.purge now) now author n := by
  rcases hp with hn | hn
  · unfold Store.epoch at hn
    cases hs : s.reset author with
    | none =>
      rw [hs] at hn
      exact .inl (Nat.le_trans hn (Nat.zero_le _))
    | some c =>
      obtain ⟨x, hx, hvalue⟩ := hresets author c hs
      rw [hs, content_some, Option.getD_some] at hn
      by_cases hlive : now ≤ x
      · refine .inl ?_
        have hc : c.live now = true := by simp [Cell.live, hx, hlive]
        have hkept : (s.purge now).reset author = some c := by
          change Library.purge now (s.reset author) = some c
          rw [hs]
          exact purge_some_of_live hc
        rw [Store.epoch, hkept]
        exact hn
      · exact .inr (by omega)
  · exact .inr (Nat.lt_of_lt_of_le hn hle)

theorem epoch_le_step (heffect : Effect now c.request s s' reply) : s.epoch author ≤ s'.epoch author := by
  have hsame : s'.reset = s.reset → s.epoch author ≤ s'.epoch author := by
    intro h
    have hepoch : s.epoch author = s'.epoch author := by rw [Store.epoch, Store.epoch, h]
    exact Nat.le_of_eq hepoch
  cases heffect with
  | quiet honly => exact hsame honly.reset
  | qualified _ _ _ _ _ _ _ _ _ _ _ _ hreset => exact hsame hreset
  | observed p life state hr ho => exact hsame ho.reset
  | reset a hr hs =>
    rw [hs]
    change (content (s.reset author)).getD 0 ≤ (content (put s.reset a _ author)).getD 0
    rw [put_apply]
    split
    · next heq =>
      rw [heq, content_cell, Option.getD_some]
      change s.epoch a ≤ max now (s.epoch a + 1)
      omega
    · exact Nat.le_refl _

theorem Past.step (hp : Past s t author n) (heffect : Effect now c.request s s' reply) :
    Past s' t author n :=
  Or.imp_left (fun hn => Nat.le_trans hn (epoch_le_step heffect)) hp

theorem Inv.purge (hi : Inv sender h t s) (hle : t ≤ now) : Inv sender h now (s.purge now) := by
  constructor
  · intro k c hc
    obtain ⟨x, hx, hbound⟩ := hi.capped k c (purge_eq_some.mp hc).1
    exact ⟨x, hx, by omega⟩
  · exact fun a c hc => hi.resets a c (purge_eq_some.mp hc).1
  · exact fun k o ho => hi.group k o (content_purge ho)
  · exact fun k l hl => hi.life k l (content_purge hl)
  · exact fun k st hst => (hi.epoch k st (content_purge hst)).purge hle hi.resets
  · intro k st hst
    exact ((hi.attached k st (content_purge hst)).purge now).mono fun _ hp => hp.purge hle hi.resets
  · intro k st hst m hm
    obtain ⟨hauthor, hatt⟩ := hi.matched k st (content_purge hst) m hm
    exact ⟨hauthor, (hatt.purge now).mono fun _ hp => hp.purge hle hi.resets⟩

section Step

variable (hi : Inv sender h now s) (hpromise : Promise sender h c)
  (heffect : Effect now c.request s s' reply)

include hpromise heffect

theorem attached_step (k : δ × Mode) (ha : Attached (Past s now (sender k.1)) h s k revision) :
    Attached (Past s' now (sender k.1)) (h ++ [⟨now, c, reply⟩]) s' k revision := by
  refine (ha.step ⟨now, c, reply⟩ hpromise.token heffect fun p _ _ hr hk _ _ => ?_).mono fun _ hp =>
    hp.step heffect
  rw [hpromise.observe p hr, ← hk]
  exact .inl (Nat.le_refl _)

theorem matchAttached_step {mode : Mode} {m : Match δ} (hm : MatchAttached sender h s now mode m) :
    MatchAttached sender (h ++ [⟨now, c, reply⟩]) s' now mode m :=
  ⟨hm.1, attached_step hpromise heffect (m.original.member, mode) hm.2⟩

include hi

/-- The state that an observation writes is attached, and so are its matches. -/
theorem observed_attached {p : Observe δ} {life : Life δ} {state : Message δ}
    (hr : c.request = .observe p) (ho : Observed now p s s' reply life state) :
    Past s' now (sender p.member) state.epoch ∧
      Attached (Past s' now (sender p.member)) (h ++ [⟨now, c, reply⟩]) s' p.key state.revision ∧
      ∀ m, state.Holds m → MatchAttached sender (h ++ [⟨now, c, reply⟩]) s' now p.mode m := by
  have hauthor := hpromise.observe p hr
  have hepoch : Past s' now (sender p.member) state.epoch := by
    rw [ho.epoch, hauthor]
    exact .inl (epoch_le_step heffect)
  have hcontinued : ∀ cont, Continues p s cont → ∀ m ∈ cont.matched,
      MatchAttached sender (h ++ [⟨now, c, reply⟩]) s' now p.mode m := by
    rintro cont ⟨previous, hstored, hcont⟩ m hm
    refine matchAttached_step hpromise heffect (hi.matched p.key previous hstored m ?_)
    rcases hcont with rfl | hcont
    · exact .inl hm
    · exact .inr ⟨cont, hcont, hm⟩
  refine ⟨hepoch, ⟨?_, fun l hl hrev => ?_⟩, fun m hm => ?_⟩
  · rw [ho.revision]
    rcases ho.incarnates with htoken | ⟨l, hl, hrev, -⟩
    · exact ⟨_, List.mem_append_right _ (List.mem_singleton.mpr rfl), by rw [hr, htoken]; rfl⟩
    · rw [hrev]
      exact (hi.life _ l hl).snoc _
  · obtain rfl := ho.lifeKey l hl
    refine ⟨by rw [ho.materializedRevision]; rfl, ⟨_, ho.materialized, hepoch⟩, fun st hst => ?_⟩
    obtain ⟨cell, hcell, rfl⟩ := content_eq_some.mp hst
    rw [(ho.messageKey cell hcell).1]
  · rcases hm with hm | ⟨cont, hcont, hm⟩
    · rcases ho.matched m hm with ⟨cont, hcont, -, hmem⟩ | hfresh
      · exact hcontinued cont hcont m hmem
      · obtain ⟨st, hst, hrev⟩ := hfresh.standing
        refine ⟨hi.group _ _ hfresh.stored, ?_⟩
        rw [← hrev]
        exact attached_step hpromise heffect _ (hi.attached _ st hst)
    · exact hcontinued cont (ho.continuity cont hcont) m hm

/-- A reply with matches carries a revision that is attached, and so are its matches. -/
theorem reply_attached {p : Observe δ} (hr : c.request = .observe p) {m : Match δ}
    (hm : m ∈ reply.matched) : ∃ revision, reply.revision = some revision ∧
      Attached (Past s' now (sender p.member)) (h ++ [⟨now, c, reply⟩]) s' p.key revision ∧
      MatchAttached sender (h ++ [⟨now, c, reply⟩]) s' now p.mode m := by
  have heffect' := heffect
  cases heffect with
  | quiet honly hreply =>
    rcases hreply with hnil | ⟨p', hr', hnil | ⟨previous, hstored, hmatched, hrev⟩⟩
    · rw [hnil] at hm
      cases hm
    · rw [hnil] at hm
      cases hm
    · obtain rfl : p' = p := Request.observe.inj (hr'.symm.trans hr)
      rw [hmatched] at hm
      exact ⟨_, hrev, attached_step hpromise heffect' _ (hi.attached _ previous hstored),
        matchAttached_step hpromise heffect' (hi.matched _ previous hstored m (.inl hm))⟩
  | reset author hr' hs hreply =>
    rw [hreply] at hm
    cases hm
  | qualified _ _ _ _ _ _ _ _ _ _ _ _ _ hreply =>
    rw [hreply] at hm
    cases hm
  | observed p' life state hr' ho =>
    obtain rfl : p' = p := Request.observe.inj (hr'.symm.trans hr)
    obtain ⟨-, hatt, hmatched⟩ := observed_attached hi hpromise heffect' hr ho
    rcases ho.rejected with hnil | ⟨hrev, -⟩
    · rw [hnil] at hm
      cases hm
    · rw [ho.replyMatched] at hm
      exact ⟨_, hrev, hatt, hmatched m (.inl hm)⟩

end Step

theorem capped_step (hi : Inv sender h now s) (heffect : Effect now c.request s s' reply) :
    ∀ k c, s'.message k = some c → ∃ x, c.expiresAt = some x ∧ x ≤ now + retentionMs := by
  intro k cell hc
  cases heffect with
  | quiet honly =>
    rw [honly.message] at hc
    exact hi.capped k cell hc
  | reset author hr hs =>
    subst hs
    exact hi.capped k cell hc
  | qualified p m state hr hm q x hlife hmessage =>
    rw [hmessage, put_apply] at hc
    split at hc
    · exact (rewrite_eq_some hc).2
    · exact hi.capped k cell hc
  | observed p life state hr ho =>
    by_cases hk : k = p.key
    · subst hk
      exact (ho.messageKey cell hc).2
    · rw [ho.messageOther k hk] at hc
      exact hi.capped k cell hc

theorem resets_step (hi : Inv sender h now s) (heffect : Effect now c.request s s' reply)
    (hpaced : Paced now c s) :
    ∀ a c, s'.reset a = some c → ∃ x, c.expiresAt = some x ∧ c.value ≤ x := by
  intro a cell hc
  cases heffect with
  | quiet honly =>
    rw [honly.reset] at hc
    exact hi.resets a cell hc
  | reset author hr hs =>
    subst hs
    change put s.reset author _ a = some cell at hc
    rw [put_apply] at hc
    split at hc
    · obtain rfl := Option.some.inj hc
      have hlt := hpaced author hr
      exact ⟨_, rfl, by dsimp only; omega⟩
    · exact hi.resets a cell hc
  | qualified p m state hr hm q x hlife hmessage hgroup y hcount hreset =>
    rw [hreset] at hc
    exact hi.resets a cell hc
  | observed p life state hr ho =>
    rw [ho.reset] at hc
    exact hi.resets a cell hc

theorem group_step (hi : Inv sender h now s) (hpromise : Promise sender h c)
    (heffect : Effect now c.request s s' reply) :
    ∀ k o, content (s'.group k) = some o → o.author = sender o.member := by
  intro k o hc
  cases heffect with
  | quiet honly =>
    rw [honly.group] at hc
    exact hi.group k o hc
  | reset author hr hs =>
    subst hs
    exact hi.group k o hc
  | qualified p m state hr hm q x hlife hmessage hgroup =>
    rw [hgroup] at hc
    exact hi.group k o hc
  | observed p life state hr ho =>
    rcases ho.group k o hc with hc | rfl
    · exact hi.group k o hc
    · exact hpromise.observe p hr

theorem life_step (hi : ∀ k l, content (s.life k) = some l → Used h l.revision)
    (heffect : Effect now c.request s s' reply) :
    ∀ k l, content (s'.life k) = some l → Used (h ++ [⟨now, c, reply⟩]) l.revision := by
  intro k l hl
  cases heffect with
  | quiet honly =>
    rcases honly.life k l hl with htoken | ⟨l₀, hl₀, hsame⟩
    · exact ⟨_, List.mem_append_right _ (List.mem_singleton.mpr rfl), htoken.symm⟩
    · rw [hsame.revision]
      exact (hi k l₀ hl₀).snoc _
  | reset author hr hs =>
    subst hs
    exact (hi k l hl).snoc _
  | qualified p m state hr hm q x hlife =>
    rw [hlife] at hl
    exact (hi k l hl).snoc _
  | observed p life state hr ho =>
    by_cases hk : k = p.key
    · subst hk
      obtain rfl := ho.lifeKey l hl
      rcases ho.incarnates with htoken | ⟨l₀, hl₀, hrev, -⟩
      · exact ⟨_, List.mem_append_right _ (List.mem_singleton.mpr rfl), by rw [hr, htoken]; rfl⟩
      · rw [hrev]
        exact (hi _ l₀ hl₀).snoc _
    · rw [ho.lifeOther k hk] at hl
      exact (hi k l hl).snoc _

theorem Inv.step (hi : Inv sender h now s) (hpromise : Promise sender h c)
    (heffect : Effect now c.request s s' reply) (hpaced : Paced now c s) :
    Inv sender (h ++ [⟨now, c, reply⟩]) now s' := by
  refine ⟨capped_step hi heffect, resets_step hi heffect hpaced, group_step hi hpromise heffect,
    life_step hi.life heffect, ?_, ?_, ?_⟩
  · intro k st hst
    rcases message_step heffect hst with ⟨st₀, hst₀, hsame⟩ | ⟨p, life, hr, rfl, ho⟩
    · rw [hsame.epoch]
      exact (hi.epoch k st₀ hst₀).step heffect
    · exact (observed_attached hi hpromise heffect hr ho).1
  · intro k st hst
    rcases message_step heffect hst with ⟨st₀, hst₀, hsame⟩ | ⟨p, life, hr, rfl, ho⟩
    · rw [hsame.revision]
      exact attached_step hpromise heffect k (hi.attached k st₀ hst₀)
    · exact (observed_attached hi hpromise heffect hr ho).2.1
  · intro k st hst m hm
    rcases message_step heffect hst with ⟨st₀, hst₀, hsame⟩ | ⟨p, life, hr, rfl, ho⟩
    · obtain ⟨m₀, hm₀, -, horiginal⟩ := hsame.holds hm
      have hatt := matchAttached_step hpromise heffect (hi.matched k st₀ hst₀ m₀ hm₀)
      rw [MatchAttached, horiginal] at hatt
      exact hatt
    · exact (observed_attached hi hpromise heffect hr ho).2.2 m hm

theorem Inv.initial (sender : δ → δ) (priorLife : Slots (δ × Mode) (Life δ)) :
    Inv sender [] 0 (Store.initial priorLife) :=
  ⟨nofun, nofun, nofun, nofun, nofun, nofun, fun _ _ hst => nomatch hst⟩

end Maxim.Moderation.MessageDuplicate
