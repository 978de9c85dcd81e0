import Maxim.Moderation.MessageDuplicate.ResetFence

/-!
# Rejected attempts are no evidence

An observation with a match leaves originals and counters as they are. Counters
stay within what is allowed, an original keeps its publication time and its
window for as long as its id lives, and a match never turns a message against
itself or against a later one.
-/

namespace Maxim.Moderation.MessageDuplicate

open Maxim.Library

variable {δ : Type}

/-! ## Matches -/

def Returned (h : List (Entry (Call δ) (Result δ))) (key : δ × Mode) (m : Match δ) : Prop :=
  ∃ e ∈ h, ∃ q, e.request.request = .observe q ∧ q.key = key ∧
    ∃ m' ∈ e.reply.matched, m'.fingerprint = m.fingerprint ∧ m'.original = m.original

/-- The original is another message, not published later, and the match has been returned. -/
structure Sound (h : List (Entry (Call δ) (Result δ))) (key : δ × Mode) (publishedAt : Nat)
    (m : Match δ) : Prop where
  other : m.original.member ≠ key.1
  published : m.original.publishedAtMs ≤ publishedAt
  returned : Returned h key m

/-- The matches of a state, and those it may take over, are sound. -/
structure SoundState (h : List (Entry (Call δ) (Result δ))) (key : δ × Mode) (st : Message δ) :
    Prop where
  matched : ∀ m ∈ st.matched, Sound h key st.publishedAt m
  continuity : ∀ c, st.continuity = some c → ∀ m ∈ c.matched, Sound h key c.publishedAt m

theorem Returned.snoc {h : List (Entry (Call δ) (Result δ))} {key : δ × Mode} {m : Match δ}
    (hr : Returned h key m) (e : Entry (Call δ) (Result δ)) : Returned (h ++ [e]) key m := by
  obtain ⟨x, hx, hx'⟩ := hr
  exact ⟨x, List.mem_append_left _ hx, hx'⟩

theorem Sound.snoc {h : List (Entry (Call δ) (Result δ))} {key : δ × Mode} {m : Match δ}
    {publishedAt : Nat} (hs : Sound h key publishedAt m) (e : Entry (Call δ) (Result δ)) :
    Sound (h ++ [e]) key publishedAt m := ⟨hs.other, hs.published, hs.returned.snoc e⟩

theorem Sound.congr {h : List (Entry (Call δ) (Result δ))} {key : δ × Mode} {m m' : Match δ}
    {publishedAt : Nat} (hs : Sound h key publishedAt m) (hfingerprint : m.fingerprint = m'.fingerprint)
    (horiginal : m.original = m'.original) : Sound h key publishedAt m' := by
  obtain ⟨e, he, q, hq, hkey, x, hx, hxf, hxo⟩ := hs.returned
  exact ⟨horiginal ▸ hs.other, horiginal ▸ hs.published,
    e, he, q, hq, hkey, x, hx, hxf.trans hfingerprint, hxo.trans horiginal⟩

variable [DecidableEq δ]

/-- A match of a reply: the state it stands in, and when it was created. -/
structure ReplySound (h : List (Entry (Call δ) (Result δ))) (now : Nat) (p : Observe δ)
    (s s' : Store δ) (m : Match δ) : Prop where
  other : m.original.member ≠ p.member
  published : ∃ state : Message δ, m ∈ state.matched ∧
    (content (s.message p.key) = some state ∨
      ∃ slot x, s'.message p.key = rewrite now slot state x) ∧
    m.original.publishedAtMs ≤ state.publishedAt
  created : ¬Returned h p.key m → p.atMs < m.original.expiresAtMs

variable {now t : Nat} {c : Call δ} {s s' : Store δ} {reply : Result δ} {p : Observe δ}
  {h : List (Entry (Call δ) (Result δ))} {life : Life δ} {state : Message δ} {m : Match δ}

omit [DecidableEq δ] in
theorem Continues.sound {cont : Continuity δ} (hc : Continues p s cont)
    (hi : ∀ k st, content (s.message k) = some st → SoundState h k st) :
    ∀ m ∈ cont.matched, Sound h p.key cont.publishedAt m := by
  obtain ⟨previous, hstored, rfl | hcont⟩ := hc
  · exact (hi p.key previous hstored).matched
  · exact (hi p.key previous hstored).continuity cont hcont

omit [DecidableEq δ] in
theorem Matches.sound (hm : Matches p s state m)
    (hi : ∀ k st, content (s.message k) = some st → SoundState h k st) :
    m.original.member ≠ p.member ∧ m.original.publishedAtMs ≤ state.publishedAt ∧
      (¬Returned h p.key m → p.atMs < m.original.expiresAtMs) := by
  rcases hm with ⟨cont, hcont, hpub, hmem⟩ | hfresh
  · have hs := hcont.sound hi m hmem
    exact ⟨hs.other, hpub ▸ hs.published, fun hnew => absurd hs.returned hnew⟩
  · exact ⟨hfresh.other, hfresh.published, fun _ => hfresh.unexpired⟩

theorem soundState_step (hi : ∀ k st, content (s.message k) = some st → SoundState h k st)
    (heffect : Effect now c.request s s' reply) :
    ∀ k st, content (s'.message k) = some st → SoundState (h ++ [⟨now, c, reply⟩]) k st := by
  intro k st hst
  rcases message_step heffect hst with ⟨st₀, hst₀, hsame⟩ | ⟨p, life, hr, rfl, ho⟩
  · have hs := hi k st₀ hst₀
    refine ⟨fun m hm => ?_, fun cont hcont m hm => ?_⟩
    · obtain ⟨m', hm', hfp, horiginal⟩ := hsame.matched m hm
      rw [hsame.publishedAt]
      exact ((hs.matched m' hm').congr hfp horiginal).snoc _
    · rw [hsame.continuity] at hcont
      exact (hs.continuity cont hcont m hm).snoc _
  · refine ⟨fun m hm => ?_, fun cont hcont m hm => ?_⟩
    · obtain ⟨hother, hpub, -⟩ := (ho.matched m hm).sound hi
      refine ⟨hother, hpub, ⟨now, c, reply⟩, List.mem_append_right _ (List.mem_singleton.mpr rfl),
        p, hr, rfl, m, ?_, rfl, rfl⟩
      rw [ho.replyMatched]
      exact hm
    · exact ((ho.continuity cont hcont).sound hi m hm).snoc _

/-- A reply with matches: the originals and counters stay, and the matches are sound. -/
theorem reply_sound (hi : ∀ k st, content (s.message k) = some st → SoundState h k st)
    (heffect : Effect now c.request s s' reply) (hr : c.request = .observe p) :
    (reply.matched ≠ [] → s'.group = s.group ∧ s'.count = s.count) ∧
      ∀ m ∈ reply.matched, ReplySound h now p s s' m := by
  have hempty : reply.matched = [] → (reply.matched ≠ [] → s'.group = s.group ∧ s'.count = s.count) ∧
      ∀ m ∈ reply.matched, ReplySound h now p s s' m := by
    intro hnil
    rw [hnil]
    exact ⟨fun hne => absurd rfl hne, nofun⟩
  cases heffect with
  | quiet honly hreply =>
    rcases hreply with hnil | ⟨p', hr', hnil | ⟨previous, hstored, hmatched, -⟩⟩
    · exact hempty hnil
    · exact hempty hnil
    · obtain rfl : p' = p := Request.observe.inj (hr'.symm.trans hr)
      refine ⟨fun _ => ⟨honly.group, honly.count⟩, fun m hm => ?_⟩
      rw [hmatched] at hm
      have hs := (hi _ previous hstored).matched m hm
      exact ⟨hs.other, ⟨previous, hm, .inl hstored, hs.published⟩,
        fun hnew => absurd hs.returned hnew⟩
  | reset author hr' hs hreply => exact hempty hreply
  | qualified _ _ _ _ _ _ _ _ _ _ _ _ _ hreply => exact hempty hreply
  | observed p' life state hr' ho =>
    obtain rfl : p' = p := Request.observe.inj (hr'.symm.trans hr)
    rcases ho.rejected with hnil | ⟨-, hgroup, hcount, hwritten⟩
    · exact hempty hnil
    · refine ⟨fun _ => ⟨hgroup, hcount⟩, fun m hm => ?_⟩
      rw [ho.replyMatched] at hm
      obtain ⟨hother, hpub, hcreated⟩ := (ho.matched m hm).sound hi
      exact ⟨hother, ⟨state, hm, .inr hwritten, hpub⟩, hcreated⟩

/-! ## Counters -/

/-- The settings of every request that uses them. -/
structure Fixed (allowed windowMs : Nat) (r : Request δ) : Prop where
  observe : ∀ p, r = .observe p → p.allowed = allowed ∧ p.windowMs = windowMs ∧ p.period = none
  binding : ∀ p, r = .qualify p → p.allowed = allowed

def CountBounded (allowed : Nat) (c : Count) : Prop :=
  c.accepted ≤ allowed ∧ c.qualified ≤ 20 - allowed

theorem countBounded_step {allowed windowMs : Nat}
    (hi : ∀ k c, content (s.count k) = some c → CountBounded allowed c)
    (hfixed : Fixed allowed windowMs c.request) (heffect : Effect now c.request s s' reply) :
    ∀ k c, content (s'.count k) = some c → CountBounded allowed c := by
  have hread : ∀ k d, CountBounded allowed d → CountBounded allowed ((content (s.count k)).getD d) := by
    intro k d hd
    cases hc : content (s.count k) with
    | none => exact hd
    | some c => exact hi k c hc
  intro k count hcount
  cases heffect with
  | quiet honly =>
    rw [honly.count] at hcount
    exact hi k count hcount
  | reset author hr hs =>
    subst hs
    exact hi k count hcount
  | qualified p m state hr hm q x hlife hmessage hgroup y hput =>
    rw [hput, put_apply] at hcount
    split at hcount
    · obtain rfl := content_rewrite hcount
      have hallowed := hfixed.binding p hr
      have hold := hread (s.counterKey p.author p.fingerprint m.original) ⟨p.allowed, 0⟩
        ⟨Nat.le_of_eq hallowed, Nat.zero_le _⟩
      refine ⟨hold.1, ?_⟩
      rw [Count.qualify, hallowed]
      exact Nat.min_le_left _ _
    · exact hi k count hcount
  | observed p life state hr ho =>
    rcases ho.count k count hcount with hold | ⟨haccepted, hqualified⟩
    · exact hi k count hold
    · rw [(hfixed.observe p hr).1] at haccepted
      have hold := hread k ⟨0, 0⟩ ⟨Nat.zero_le _, Nat.zero_le _⟩
      exact ⟨haccepted, hqualified ▸ hold.2⟩

/-! ## Originals -/

/-- Every record with an original id agrees with the publication time of the id. -/
structure Anchored (publication : δ → Nat) (windowMs : Nat) (h : List (Entry (Call δ) (Result δ)))
    (s : Store δ) : Prop where
  state : ∀ k st, content (s.message k) = some st →
    Used h st.revision ∧ Used h st.originalId ∧ st.publishedAt = publication st.originalId
  continuity : ∀ k st, content (s.message k) = some st → ∀ c, st.continuity = some c →
    Used h c.originalId ∧ c.publishedAt = publication c.originalId
  used : ∀ k l, content (s.life k) = some l → Used h l.revision
  life : ∀ k l st, content (s.life k) = some l → content (s.message k) = some st →
    l.revision = st.revision → l.introducedAt = st.publishedAt
  group : ∀ k o, content (s.group k) = some o → Used h o.originalId ∧
    o.publishedAtMs = publication o.originalId ∧
    o.expiresAtMs = publication o.originalId + windowLimit windowMs

variable {publication publication' : δ → Nat} {allowed windowMs : Nat}

omit [DecidableEq δ] in
theorem Anchored.agree (ha : Anchored publication windowMs h s)
    (hagree : ∀ x, Used h x → publication' x = publication x) : Anchored publication' windowMs h s := by
  refine ⟨fun k st hst => ?_, fun k st hst c hc => ?_, ha.used, ha.life, fun k o ho => ?_⟩
  · obtain ⟨hrev, hid, hpub⟩ := ha.state k st hst
    exact ⟨hrev, hid, hpub.trans (hagree _ hid).symm⟩
  · obtain ⟨hid, hpub⟩ := ha.continuity k st hst c hc
    exact ⟨hid, hpub.trans (hagree _ hid).symm⟩
  · obtain ⟨hid, hpub, hend⟩ := ha.group k o ho
    rw [hagree _ hid]
    exact ⟨hid, hpub, hend⟩

omit [DecidableEq δ] in
theorem Anchored.purge (ha : Anchored publication windowMs h s) (now : Nat) :
    Anchored publication windowMs h (s.purge now) :=
  ⟨fun k st hst => ha.state k st (content_purge hst),
    fun k st hst => ha.continuity k st (content_purge hst),
    fun k l hl => ha.used k l (content_purge hl),
    fun k l st hl hst => ha.life k l st (content_purge hl) (content_purge hst),
    fun k o ho => ha.group k o (content_purge ho)⟩

omit [DecidableEq δ] in
theorem Continues.anchored {cont : Continuity δ} (hc : Continues p s cont)
    (ha : Anchored publication windowMs h s) :
    Used h cont.originalId ∧ cont.publishedAt = publication cont.originalId := by
  obtain ⟨previous, hstored, rfl | hcont⟩ := hc
  · exact (ha.state p.key previous hstored).2
  · exact ha.continuity p.key previous hstored cont hcont

theorem observed_anchored (ha : Anchored publication windowMs h s) (hfresh : ¬Used h p.token)
    (hpublication : publication p.token = state.publishedAt)
    (ho : Observed now p s s' reply life state) {e : Entry (Call δ) (Result δ)}
    (he : e.request.request.token? = some p.token) :
    Used (h ++ [e]) state.originalId ∧ state.publishedAt = publication state.originalId := by
  cases ho.origin with
  | new hnew =>
    rw [hnew]
    exact ⟨⟨e, List.mem_append_right _ (List.mem_singleton.mpr rfl), he⟩, hpublication.symm⟩
  | previous previous stored revision id publishedAt =>
    obtain ⟨hrev, hid, hpub⟩ := ha.state p.key previous stored
    rw [id]
    refine ⟨hid.snoc e, ?_⟩
    rcases publishedAt with htoken | ⟨l, hl, hlrev, hintro⟩
    · rw [revision, htoken] at hrev
      exact absurd hrev hfresh
    · rw [hintro, ha.life p.key l previous hl stored (hlrev.trans revision.symm), hpub]
  | continued cont hc id publishedAt =>
    obtain ⟨hid, hpub⟩ := hc.anchored ha
    rw [id, publishedAt]
    exact ⟨hid.snoc e, hpub⟩

theorem anchored_step_observed (ha : Anchored publication windowMs h s) (hfresh : Unused h c)
    (hr : c.request = .observe p) (hwindow : p.windowMs = windowMs) (hperiod : p.period = none)
    (hpublication : publication p.token = state.publishedAt)
    (heffect : Effect now c.request s s' reply) (ho : Observed now p s s' reply life state) :
    Anchored publication windowMs (h ++ [⟨now, c, reply⟩]) s' := by
  have htoken : c.request.token? = some p.token := by rw [hr]; rfl
  obtain ⟨hid, hpub⟩ := observed_anchored ha (hfresh _ htoken) hpublication ho
    (e := ⟨now, c, reply⟩) htoken
  have hused := life_step ha.used heffect
  have hmessage : ∀ k st, content (s'.message k) = some st →
      (k ≠ p.key ∧ content (s.message k) = some st) ∨ (k = p.key ∧ st = state) := by
    intro k st hst
    by_cases hk : k = p.key
    · subst hk
      obtain ⟨cell, hcell, rfl⟩ := content_eq_some.mp hst
      exact .inr ⟨rfl, (ho.messageKey cell hcell).1⟩
    · rw [ho.messageOther k hk] at hst
      exact .inl ⟨hk, hst⟩
  have hrevision : Used (h ++ [⟨now, c, reply⟩]) state.revision := by
    rw [ho.revision]
    rcases ho.incarnates with hnew | ⟨l, hl, hrev, -⟩
    · exact ⟨_, List.mem_append_right _ (List.mem_singleton.mpr rfl), by rw [hnew]; exact htoken⟩
    · rw [hrev]
      exact (ha.used _ l hl).snoc _
  refine ⟨fun k st hst => ?_, fun k st hst cont hcont => ?_, hused, fun k l st hl hst hrev => ?_,
    fun k o ho' => ?_⟩
  · rcases hmessage k st hst with ⟨-, hold⟩ | ⟨-, rfl⟩
    · obtain ⟨hr₀, hi₀, hp₀⟩ := ha.state k st hold
      exact ⟨hr₀.snoc _, hi₀.snoc _, hp₀⟩
    · exact ⟨hrevision, hid, hpub⟩
  · rcases hmessage k st hst with ⟨-, hold⟩ | ⟨-, rfl⟩
    · obtain ⟨hi₀, hp₀⟩ := ha.continuity k st hold cont hcont
      exact ⟨hi₀.snoc _, hp₀⟩
    · obtain ⟨hi₀, hp₀⟩ := (ho.continuity cont hcont).anchored ha
      exact ⟨hi₀.snoc _, hp₀⟩
  · rcases hmessage k st hst with ⟨hk, hold⟩ | ⟨rfl, rfl⟩
    · rw [ho.lifeOther k hk] at hl
      exact ha.life k l st hl hold hrev
    · obtain rfl := ho.lifeKey l hl
      exact ho.introducedAt
  · rcases ho.group k o ho' with hold | rfl
    · obtain ⟨hi₀, hp₀⟩ := ha.group k o hold
      exact ⟨hi₀.snoc _, hp₀⟩
    · refine ⟨hid, hpub, ?_⟩
      change p.windowEnd state.publishedAt = publication state.originalId + windowLimit windowMs
      rw [Observe.windowEnd, hperiod, hwindow, hpub]

theorem anchored_step_other (ha : Anchored publication windowMs h s) (hfresh : Unused h c)
    (hmessage : ∀ k st, content (s'.message k) = some st →
      ∃ st₀, content (s.message k) = some st₀ ∧ st₀.SameEvidence st)
    (hgroup : s'.group = s.group) (hlife : ∀ k, LifeStep c.request.token? (s.life k) (s'.life k))
    (heffect : Effect now c.request s s' reply) :
    Anchored publication windowMs (h ++ [⟨now, c, reply⟩]) s' := by
  refine ⟨fun k st hst => ?_, fun k st hst cont hcont => ?_, life_step ha.used heffect,
    fun k l st hl hst hrev => ?_, fun k o ho => ?_⟩
  · obtain ⟨st₀, hst₀, hsame⟩ := hmessage k st hst
    obtain ⟨hr₀, hi₀, hp₀⟩ := ha.state k st₀ hst₀
    rw [hsame.revision, hsame.originalId, hsame.publishedAt]
    exact ⟨hr₀.snoc _, hi₀.snoc _, hp₀⟩
  · obtain ⟨st₀, hst₀, hsame⟩ := hmessage k st hst
    rw [hsame.continuity] at hcont
    obtain ⟨hi₀, hp₀⟩ := ha.continuity k st₀ hst₀ cont hcont
    exact ⟨hi₀.snoc _, hp₀⟩
  · obtain ⟨st₀, hst₀, hsame⟩ := hmessage k st hst
    rw [hsame.revision] at hrev
    rw [hsame.publishedAt]
    rcases hlife k l hl with htoken | ⟨l₀, hl₀, hsame'⟩
    · have hused := (ha.state k st₀ hst₀).1
      rw [← hrev] at hused
      exact absurd hused (hfresh _ htoken.symm)
    · rw [hsame'.introducedAt]
      exact ha.life k l₀ st₀ hl₀ hst₀ (hsame'.revision.symm.trans hrev)
  · rw [hgroup] at ho
    obtain ⟨hi₀, hp₀⟩ := ha.group k o ho
    exact ⟨hi₀.snoc _, hp₀⟩

/-- A step may add the publication time of its token. -/
theorem anchored_step (ha : Anchored publication windowMs h s) (hfresh : Unused h c)
    (hfixed : Fixed allowed windowMs c.request) (heffect : Effect now c.request s s' reply) :
    ∃ publication', (∀ x, Used h x → publication' x = publication x) ∧
      Anchored publication' windowMs (h ++ [⟨now, c, reply⟩]) s' := by
  have heffect' := heffect
  cases heffect with
  | quiet honly =>
    refine ⟨publication, fun _ _ => rfl, anchored_step_other ha hfresh (fun k st hst => ?_)
      honly.group honly.life heffect'⟩
    rw [honly.message] at hst
    exact ⟨st, hst, .refl st⟩
  | reset author hr hs =>
    subst hs
    exact ⟨publication, fun _ _ => rfl, anchored_step_other ha hfresh
      (fun k st hst => ⟨st, hst, .refl st⟩) rfl (fun _ => .refl _ _) heffect'⟩
  | qualified p m state hr hm q x hlife hmessage hgroup =>
    refine ⟨publication, fun _ _ => rfl, anchored_step_other ha hfresh (fun k st hst => ?_) hgroup
      (fun k => ?_) heffect'⟩
    · rcases message_step heffect' hst with hold | ⟨p', life, hr', -⟩
      · exact hold
      · rw [hr] at hr'
        cases hr'
    · rw [hlife]
      exact .refl _ _
  | observed p life state hr ho =>
    have htoken : c.request.token? = some p.token := by rw [hr]; rfl
    obtain ⟨-, hwindow, hperiod⟩ := hfixed.observe p hr
    have hagree : ∀ x, Used h x →
        Function.update publication p.token state.publishedAt x = publication x := by
      intro x hx
      refine Function.update_of_ne (fun heq => ?_) _ _
      exact hfresh _ htoken (heq ▸ hx)
    exact ⟨_, hagree, anchored_step_observed (ha.agree hagree) hfresh hr hwindow hperiod
      (Function.update_self _ _ _) heffect' ho⟩

/-! ## Every run -/

section Run

variable {priorLife : Slots (δ × Mode) (Life δ)}
  {ok : List (Entry (Call δ) (Result δ)) → Nat → Call δ → Prop}

theorem run_sound (hr : Run step ok (Store.initial priorLife) h t s) :
    ∀ k st, content (s.message k) = some st → SoundState h k st := by
  refine Run.invariant
    (fun h _ (s : Store δ) => ∀ k st, content (s.message k) = some st → SoundState h k st)
    ?_ (fun _ _ _ _ hi _ => hi) (fun h t s c hi _ => ?_) hr
  · exact fun k st hst => nomatch hst
  exact soundState_step (fun k st hst => hi k st (content_purge hst)) (step_effect t c s)

theorem run_counts (hok : ∀ h t c, ok h t c → Fixed allowed windowMs c.request)
    (hr : Run step ok (Store.initial priorLife) h t s) :
    ∀ k c, content (s.count k) = some c → CountBounded allowed c := by
  refine Run.invariant
    (fun _ _ (s : Store δ) => ∀ k c, content (s.count k) = some c → CountBounded allowed c)
    ?_ (fun _ _ _ _ hi _ => hi) (fun h t s c hi hc => ?_) hr
  · exact fun k c hc => nomatch hc
  exact countBounded_step (fun k c hcount => hi k c (content_purge hcount)) (hok _ _ _ hc)
    (step_effect t c s)

theorem run_anchored {h₁ h₂ : List (Entry (Call δ) (Result δ))}
    (hok : ∀ h t c, ok h t c → Unused h c ∧ Fixed allowed windowMs c.request)
    (hpre : ∀ t s, Run step ok (Store.initial priorLife) h₁ t s → Anchored publication windowMs h₁ s)
    (hr : Run step ok (Store.initial priorLife) (h₁ ++ h₂) t s) :
    ∃ publication', (∀ x, Used h₁ x → publication' x = publication x) ∧
      Anchored publication' windowMs (h₁ ++ h₂) s := by
  have hboth := Run.since (fun h _ (s : Store δ) => (∀ x, Used h₁ x → Used h x) ∧
    ∃ publication' : δ → Nat, (∀ x, Used h₁ x → publication' x = publication x) ∧
      Anchored publication' windowMs h s)
    (fun t s hr => ⟨fun _ hx => hx, publication, fun _ _ => rfl, hpre t s hr⟩)
    (fun _ _ _ _ hq _ => hq) (fun h t₀ t s c _ _ hq hc => ?_) hr
  · exact hboth.2
  · obtain ⟨hused, publication₁, hagree₁, ha⟩ := hq
    obtain ⟨hfresh, hfixed⟩ := hok _ _ _ hc
    obtain ⟨publication₂, hagree₂, ha₂⟩ := anchored_step (ha.purge t) hfresh hfixed
      (step_effect t c s)
    exact ⟨fun x hx => (hused x hx).snoc _, publication₂,
      fun x hx => (hagree₂ x (hused x hx)).trans (hagree₁ x hx), ha₂⟩

theorem run_originals {h₁ h₂ : List (Entry (Call δ) (Result δ))} {t₁ : Nat} {s₁ : Store δ}
    (hok : ∀ h t c, ok h t c → Unused h c ∧ Fixed allowed windowMs c.request)
    (hr₁ : Run step ok (Store.initial priorLife) h₁ t₁ s₁)
    (hr : Run step ok (Store.initial priorLife) (h₁ ++ h₂) t s) {k₁ k : δ × δ} {o₁ o : Original δ}
    (ho₁ : content (s₁.group k₁) = some o₁) (ho : content (s.group k) = some o)
    (hid : o₁.originalId = o.originalId) :
    o₁.publishedAtMs = o.publishedAtMs ∧ o₁.expiresAtMs = o.expiresAtMs := by
  have hnil : ∀ t s, Run step ok (Store.initial priorLife) [] t s →
      Anchored (fun _ => 0) windowMs [] s := by
    intro t s hr
    obtain ⟨-, rfl⟩ := hr.nil_inv
    refine ⟨fun k st hst => ?_, fun k st hst => ?_, fun k l hl => ?_, fun k l st hl => ?_,
      fun k o ho => ?_⟩
    · cases hst
    · cases hst
    · cases hl
    · cases hl
    · cases ho
  obtain ⟨publication₁, -, ha₁⟩ := run_anchored hok hnil hr₁
  obtain ⟨publication₂, hagree, ha₂⟩ := run_anchored hok (fun t s hr' => by
    obtain ⟨-, rfl⟩ := Run.unique hr₁ hr'
    exact ha₁) hr
  obtain ⟨hused, hpub₁, hend₁⟩ := ha₁.group k₁ o₁ ho₁
  obtain ⟨-, hpub₂, hend₂⟩ := ha₂.group k o ho
  rw [← hid, hagree _ hused] at hpub₂ hend₂
  exact ⟨hpub₁.trans hpub₂.symm, hend₁.trans hend₂.symm⟩

end Run

end Maxim.Moderation.MessageDuplicate
