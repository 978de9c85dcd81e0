import Maxim.Moderation.MessageDuplicate.Attached

/-!
# The reset fence

A reset of an author revokes every match that was found before it and that
involves the author. The epoch key keeps the old records out while it lives; the
old states do not outlive it, and a record that loses its state is given a new
revision when its message is observed again. The epochs must not run further
ahead of the clock than the key lives.
-/

namespace Maxim.Moderation.MessageDuplicate

open Maxim.Library

variable {δ : Type} [DecidableEq δ]

/-- What the callers promise, and the pace of the resets. -/
def Admissible (sender : δ → δ) (priorLife : Slots (δ × Mode) (Life δ))
    (h : List (Entry (Call δ) (Result δ))) (now : Nat) (c : Call δ) : Prop :=
  Promise sender h c ∧ ∀ t s, Run step (fun _ _ _ => True) (Store.initial priorLife) h t s →
    Paced now c (s.purge now)

/-- A revision from before a reset of its author. Its state belongs to an epoch below the one that
the reset has set, and expires while the key of that epoch lives. -/
structure Fenced (h : List (Entry (Call δ) (Result δ))) (t : Nat) (s : Store δ) (key : δ × Mode)
    (revision author : δ) (epoch deadline : Nat) : Prop where
  attached : Attached (· < epoch) h s key revision
  message : ∀ c, s.message key = some c → c.value.revision = revision →
    c.value.epoch < epoch ∧ ∃ x, c.expiresAt = some x ∧ x ≤ deadline
  reset : deadline < t ∨ ∃ c, s.reset author = some c ∧ epoch ≤ c.value ∧
    ∃ x, c.expiresAt = some x ∧ deadline ≤ x
  recent : deadline ≤ t + retentionMs

variable {sender : δ → δ} {priorLife : Slots (δ × Mode) (Life δ)} {now t : Nat} {c : Call δ}
  {s s' : Store δ} {reply : Result δ} {h : List (Entry (Call δ) (Result δ))} {key : δ × Mode}
  {revision author : δ} {epoch deadline : Nat}

/-! ## The invariant of a run -/

theorem Inv.later (hi : Inv sender h t s) (hle : t ≤ now) : Inv sender h now s := by
  have hpast : ∀ a n, Past s t a n → Past s now a n := fun a n hp =>
    Or.imp_right (fun hlt => Nat.lt_of_lt_of_le hlt hle) hp
  refine ⟨fun k c hc => ?_, hi.resets, hi.group, hi.life, fun k st hst => hpast _ _ (hi.epoch k st hst),
    fun k st hst => (hi.attached k st hst).mono (hpast _), fun k st hst m hm => ?_⟩
  · obtain ⟨x, hx, hbound⟩ := hi.capped k c hc
    exact ⟨x, hx, by omega⟩
  · obtain ⟨hauthor, hatt⟩ := hi.matched k st hst m hm
    exact ⟨hauthor, hatt.mono (hpast _)⟩

theorem run_inv (hr : Run step (Admissible sender priorLife) (Store.initial priorLife) h t s) :
    Inv sender h t s := by
  refine @Run.since _ _ _ _ _ _ (Inv sender) [] h (fun t s hr => ?_) (fun _ _ _ _ hi hle => hi.later hle)
    (fun h t₀ t s c hr _ hi hok => ?_) t s (by simpa using hr)
  · obtain ⟨rfl, rfl⟩ := hr.nil_inv
    exact Inv.initial sender priorLife
  · exact (hi.purge (Nat.le_refl t)).step hok.1 (step_effect t c s)
      (hok.2 t₀ s (hr.mono fun _ _ _ _ => trivial))

/-! ## The fence -/

omit [DecidableEq δ] in
theorem Fenced.purge (hf : Fenced h t s key revision author epoch deadline) (hle : t ≤ now) :
    Fenced h now (s.purge now) key revision author epoch deadline := by
  refine ⟨hf.attached.purge now, fun c hc => hf.message c (purge_eq_some.mp hc).1, ?_, ?_⟩
  · rcases hf.reset with hlt | ⟨c, hc, hvalue, x, hx, hxle⟩
    · exact .inl (Nat.lt_of_lt_of_le hlt hle)
    · by_cases hlive : now ≤ x
      · refine .inr ⟨c, purge_eq_some.mpr ⟨hc, ?_⟩, hvalue, x, hx, hxle⟩
        simp [Cell.live, hx, hlive]
      · exact .inl (by omega)
  · have := hf.recent
    omega

theorem Fenced.revoked (hf : Fenced h now s key revision author epoch deadline)
    (hlive : ∀ c, s.message key = some c → c.live now = true) {st : Message δ}
    (hst : content (s.message key) = some st) (hrev : st.revision = revision) :
    st.epoch < epoch ∧ epoch ≤ s.epoch author := by
  obtain ⟨c, hc, rfl⟩ := content_eq_some.mp hst
  obtain ⟨hepoch, x, hx, hxle⟩ := hf.message c hc hrev
  have hnow := hlive c hc
  simp only [Cell.live, hx, decide_eq_true_eq] at hnow
  refine ⟨hepoch, ?_⟩
  rcases hf.reset with hlt | ⟨c', hc', hvalue, -⟩
  · omega
  · rw [Store.epoch, hc']
    exact hvalue

theorem fenced_reset_step (hf : Fenced h now s key revision author epoch deadline)
    (heffect : Effect now c.request s s' reply) :
    deadline < now ∨ ∃ c, s'.reset author = some c ∧ epoch ≤ c.value ∧
      ∃ x, c.expiresAt = some x ∧ deadline ≤ x := by
  have hold := hf.reset
  cases heffect with
  | quiet honly =>
    rw [honly.reset]
    exact hold
  | qualified p m state hr hm q x hlife hmessage hgroup y hcount hreset =>
    rw [hreset]
    exact hold
  | observed p life state hr ho =>
    rw [ho.reset]
    exact hold
  | reset author' hr hs =>
    subst hs
    by_cases heq : author = author'
    · subst heq
      rcases hold with hlt | ⟨c, hc, hvalue, -⟩
      · exact .inl hlt
      · have hepoch : s.epoch author = c.value := by
          rw [Store.epoch, hc]
          rfl
        refine .inr ⟨_, put_same _ _ _, ?_, _, rfl, hf.recent⟩
        dsimp only
        omega
    · change deadline < now ∨ ∃ c, put s.reset author' _ author = some c ∧ _
      rw [put_other _ heq]
      exact hold

theorem fenced_observed (hf : Fenced h now s key revision (sender key.1) epoch deadline)
    (hlive : ∀ c, s.message key = some c → c.live now = true) (hpromise : Promise sender h c)
    {p : Observe δ} (hr : c.request = .observe p) (hkey : p.key = key) {life : Life δ}
    {state : Message δ} (ho : Observed now p s s' reply life state) : life.revision ≠ revision := by
  intro hrev
  subst hkey
  rcases ho.incarnates with htoken | ⟨l, hl, hkept, hstate, hepoch⟩
  · exact hpromise.token revision (by rw [hr, ← hrev, htoken]; rfl) hf.attached.used
  · obtain ⟨hmat, ⟨m, hm, hlt⟩, hsame⟩ := hf.attached.life l hl (hkept.symm.trans hrev)
    obtain ⟨st, hst⟩ := hstate hmat
    obtain ⟨-, hcurrent⟩ := hf.revoked hlive hst (hsame st hst)
    have heq := hepoch m hm
    rw [hpromise.observe p hr] at heq
    change epoch ≤ s.epoch (sender p.member) at hcurrent
    omega

theorem Fenced.step (hf : Fenced h now s key revision (sender key.1) epoch deadline)
    (hlive : ∀ k c, s.message k = some c → c.live now = true) (hpromise : Promise sender h c)
    (heffect : Effect now c.request s s' reply) :
    Fenced (h ++ [⟨now, c, reply⟩]) now s' key revision (sender key.1) epoch deadline := by
  have hreset := fenced_reset_step hf heffect
  have hattached : Attached (· < epoch) (h ++ [⟨now, c, reply⟩]) s' key revision :=
    hf.attached.step _ hpromise.token heffect fun p life state hr hk ho hrev =>
      absurd hrev (fenced_observed hf (hlive key) hpromise hr hk ho)
  refine ⟨hattached, fun cell hc hrev => ?_, hreset, hf.recent⟩
  cases heffect with
  | quiet honly =>
    rw [honly.message] at hc
    exact hf.message cell hc hrev
  | reset author hr hs =>
    subst hs
    exact hf.message cell hc hrev
  | qualified p m state hr hm q x hlife hmessage =>
    rw [hmessage, put_apply] at hc
    split at hc
    · next hk =>
      obtain ⟨hst, -, hepoch, -⟩ := matching_eq_some hm
      have hstate : state.revision = revision := by
        rw [← hrev, (rewrite_eq_some hc).1]
        rfl
      obtain ⟨hlt, hcurrent⟩ := hf.revoked (hlive key) (hk ▸ hst) hstate
      rw [hk] at hcurrent
      rw [hpromise.binding p (.inr hr)] at hepoch
      change epoch ≤ s.epoch (sender p.member) at hcurrent
      omega
    · exact hf.message cell hc hrev
  | observed p life state hr ho =>
    by_cases hk : p.key = key
    · subst hk
      obtain ⟨hvalue, -⟩ := ho.messageKey cell hc
      have hne := fenced_observed hf (hlive _) hpromise hr rfl ho
      rw [hvalue, ho.revision] at hrev
      exact absurd hrev hne
    · rw [ho.messageOther key fun heq => hk heq.symm] at hc
      exact hf.message cell hc hrev

/-! ## From the match to the answer -/

/-- `checkInput` of the binding that is made from a match of a reply. -/
structure Binds (p : Observe δ) (reply : Result δ) (m : Match δ) (q : Check δ) : Prop where
  mode : q.mode = p.mode
  member : q.member = p.member
  author : q.author = p.author
  revision : q.revision = reply.revision
  original : q.original = m.original
  fingerprint : q.fingerprint = m.fingerprint

theorem fenced_of_reset (hi : Inv sender h now s)
    (ha : Attached (Past s now (sender key.1)) h s key revision)
    (hfresh : Unused h c) (hr : c.request = .reset (sender key.1)) :
    Fenced (h ++ [⟨now, c, reply⟩]) now (reset now (sender key.1) s) key revision (sender key.1)
      (max now (s.epoch (sender key.1) + 1)) (now + retentionMs) := by
  have hpast : ∀ n, Past s now (sender key.1) n → n < max now (s.epoch (sender key.1) + 1) := by
    rintro n (hn | hn) <;> omega
  have heffect : Effect now c.request s (reset now (sender key.1) s) ({ kind := .ok } : Result δ) :=
    .reset _ hr rfl rfl
  constructor
  · refine (ha.mono hpast).step _ hfresh heffect fun p _ _ hp => ?_
    rw [hr] at hp
    cases hp
  · intro cell hc hrev
    have hst : content (s.message key) = some cell.value := content_eq_some.mpr ⟨cell, hc, rfl⟩
    exact ⟨hpast _ (hi.epoch key _ hst), hi.capped key cell hc⟩
  · exact .inr ⟨_, put_same _ _ _, Nat.le_refl _, _, rfl, Nat.le_refl _⟩
  · exact Nat.le_refl _

theorem step_reset {a : δ} (hr : c.request = .reset a) (hok : (step now c s).2.kind = .ok) :
    (step now c s).1 = reset now a (s.purge now) := by
  unfold step at hok ⊢
  dsimp only at hok ⊢
  split
  · next hlt =>
    rw [if_pos hlt] at hok
    cases hok
  · rw [hr]

omit [DecidableEq δ] in
theorem purge_live (s : Store δ) (now : Nat) :
    ∀ k c, (s.purge now).message k = some c → c.live now = true :=
  fun _ _ hc => (purge_eq_some.mp hc).2

theorem run_attached {pre post : List (Entry (Call δ) (Result δ))}
    (hr : Run step (Admissible sender priorLife) (Store.initial priorLife) (pre ++ post) t s)
    (hpre : ∀ t s, Run step (Admissible sender priorLife) (Store.initial priorLife) pre t s →
      Attached (Past s t (sender key.1)) pre s key revision) :
    Attached (Past s t (sender key.1)) (pre ++ post) s key revision := by
  refine Run.since (fun h t s => Attached (Past s t (sender key.1)) h s key revision) hpre
    (fun h t t' s ha hle => ?_) (fun h t₀ t s c hr hle ha hok => ?_) hr
  · exact ha.mono fun _ hp => Or.imp_right (fun hlt => Nat.lt_of_lt_of_le hlt hle) hp
  · have hi := (run_inv hr).later hle
    have hpurged := (ha.purge t).mono fun _ hp => hp.purge (Nat.le_refl t) hi.resets
    exact attached_step hok.1 (step_effect t c s) key hpurged

/-- After a reset of its author, an attached revision stays fenced. -/
theorem run_fenced {pre post : List (Entry (Call δ) (Result δ))}
    {e : Entry (Call δ) (Result δ)}
    (hr : Run step (Admissible sender priorLife) (Store.initial priorLife) (pre ++ e :: post) t s)
    (hpre : ∀ t s, Run step (Admissible sender priorLife) (Store.initial priorLife) pre t s →
      Attached (Past s t (sender key.1)) pre s key revision)
    (hreset : e.request.request = .reset (sender key.1)) (hok : e.reply.kind = .ok) :
    ∃ epoch deadline, Fenced (pre ++ e :: post) t s key revision (sender key.1) epoch deadline := by
  rw [List.append_cons] at hr ⊢
  refine Run.since (fun h t s => ∃ epoch deadline,
    Fenced h t s key revision (sender key.1) epoch deadline) (fun t s hr => ?_)
    (fun h t t' s hf hle => ?_) (fun h t₀ t s c hr hle hf hadm => ?_) hr
  · obtain ⟨t₁, s₁, hr₁, hle, hadm, rfl, hrep, rfl⟩ := hr.snoc_inv
    have hi := (run_inv hr₁).purge hle
    have ha := ((hpre t₁ s₁ hr₁).purge e.now).mono fun _ hp =>
      hp.purge hle (run_inv hr₁).resets
    rw [hrep] at hok
    rw [step_reset hreset hok]
    exact ⟨_, _, fenced_of_reset hi ha hadm.1.token hreset⟩
  · obtain ⟨epoch, deadline, hf⟩ := hf
    refine ⟨epoch, deadline, hf.attached, hf.message, ?_, ?_⟩
    · exact Or.imp_left (fun hlt => Nat.lt_of_lt_of_le hlt hle) hf.reset
    · have := hf.recent
      omega
  · obtain ⟨epoch, deadline, hf⟩ := hf
    exact ⟨epoch, deadline, (hf.purge (Nat.le_refl t)).step (purge_live s t) hadm.1
      (step_effect t c s)⟩

theorem valid_epoch {mode : Mode} {original : Original δ} (h : s.valid mode original = true) :
    ∃ st, content (s.message (original.member, mode)) = some st ∧
      st.revision = original.revision ∧ st.epoch = s.epoch original.author := by
  unfold Store.valid at h
  simp only [Bool.and_eq_true, decide_eq_true_eq, Option.any_eq_true] at h
  obtain ⟨⟨⟨-, hepoch⟩, -⟩, st, hst, ⟨⟨⟨⟨hst_epoch, -⟩, -⟩, hrev⟩, -⟩, -⟩ := h
  exact ⟨st, hst, hrev, hst_epoch.trans hepoch.symm⟩

theorem step_of_no_match {q : Check δ} (hq : c.request = .check q ∨ c.request = .qualify q)
    (hm : matching q (s.purge now) = none) :
    (step now c s).2.kind = .stale ∨ (step now c s).2.kind = .deadlineExceeded := by
  unfold step
  dsimp only
  split
  · exact .inr rfl
  · rcases hq with hq | hq
    · rw [hq]
      dsimp only
      rw [check, hm]
      exact .inl rfl
    · rw [hq]
      dsimp only
      rw [qualify, hm]
      exact .inl rfl

section Theorem

variable {p : Observe δ} {m : Match δ} {q : Check δ} {e later : Entry (Call δ) (Result δ)}
  {h₁ h₂ h₃ : List (Entry (Call δ) (Result δ))}

theorem run_reply
    (hr : Run step (Admissible sender priorLife) (Store.initial priorLife) (h₁ ++ [e]) t s)
    (hp : e.request.request = .observe p) (hm : m ∈ e.reply.matched) :
    ∃ revision, e.reply.revision = some revision ∧
      Attached (Past s t (sender p.member)) (h₁ ++ [e]) s p.key revision ∧
      MatchAttached sender (h₁ ++ [e]) s t p.mode m := by
  obtain ⟨t₁, s₁, hr₁, hle, hadm, rfl, hrep, rfl⟩ := hr.snoc_inv
  rw [hrep] at hm ⊢
  have h := reply_attached ((run_inv hr₁).purge hle) hadm.1 (step_effect e.now e.request s₁) hp hm
  rw [← hrep] at h
  rw [← hrep]
  exact h

theorem Fenced.no_match (hf : Fenced h now s key revision (sender key.1) epoch deadline)
    (hlive : ∀ k c, s.message k = some c → c.live now = true) {st : Message δ}
    (hst : content (s.message key) = some st) (hrev : st.revision = revision) :
    st.epoch ≠ s.epoch (sender key.1) := by
  obtain ⟨hlt, hcurrent⟩ := hf.revoked (hlive key) hst hrev
  omega

end Theorem

/-! ## Two messages of one author -/

/-- An observation of a message of author 0; its token is its revision. -/
def sampleObserve (member token atMs : Nat) : Observe Nat where
  mode := .message
  scope := 0
  member := member
  author := 0
  messageId := ""
  senderId := ""
  atMs := atMs
  publishedAt := atMs
  source := 5
  lifecycleSource := 5
  identity := some 7
  pendingSafe := true
  mediaHashes := []
  recompressionOriginal := none
  fingerprints := [9]
  allowed := 0
  windowMs := 60000
  context := 3
  period := none
  token := token

/-- The match of message 2 with the original that message 1 has become. -/
def sampleMatch (atMs epoch : Nat) : Match Nat where
  fingerprint := 9
  original := {
    member := 1, author := 0, messageId := "", senderId := "", publishedAtMs := atMs
    observedAtMs := atMs, expiresAtMs := atMs + 60000, sourceDigest := 5, contentDigest := some 7
    mediaHashes := [], epoch := epoch, revision := 11, originalId := 11 }
  count := 1

def sampleCheck (atMs epoch : Nat) : Check Nat where
  mode := .message
  member := 2
  author := 0
  revision := some 12
  source := 5
  identity := some 7
  original := (sampleMatch atMs epoch).original
  fingerprint := 9
  atMs := atMs
  allowed := 0
  windowMs := 60000
  afterDelete := false

def sampleCall (r : Request Nat) : Call Nat := ⟨2 * retentionMs, r⟩

/-- The steps of the sample: both messages are observed at `now`, then a reset and a check. -/
def sampleEntry (now : Nat) (r : Request Nat) (s : Store Nat) : Entry (Call Nat) (Result Nat) :=
  ⟨now, sampleCall r, (step now (sampleCall r) s).2⟩

def sampleAfter (now : Nat) (r : Request Nat) (s : Store Nat) : Store Nat :=
  (step now (sampleCall r) s).1

theorem sample_promise {h : List (Entry (Call Nat) (Result Nat))} {now atMs : Nat} {s : Store Nat}
    (hh : ∀ e ∈ h, e.request.request.token? = none) :
    Promise (fun _ => 0) h (sampleCall (.observe (sampleObserve 1 11 atMs))) ∧
      Promise (fun _ => 0) (h ++ [sampleEntry now (.observe (sampleObserve 1 11 atMs)) s])
        (sampleCall (.observe (sampleObserve 2 12 atMs))) := by
  have hobserve : ∀ {member token : Nat} (p : Observe Nat),
      Request.observe (sampleObserve member token atMs) = .observe p → p.author = 0 := by
    intro member token p hp
    cases hp
    rfl
  refine ⟨⟨fun token ht hu => ?_, hobserve, fun p hp => ?_⟩,
    ⟨fun token ht hu => ?_, hobserve, fun p hp => ?_⟩⟩
  · obtain ⟨e, he, hused⟩ := hu
    rw [hh e he] at hused
    cases hused
  · rcases hp with hp | hp <;> cases hp
  · obtain ⟨e, he, hused⟩ := hu
    obtain rfl : 12 = token := Option.some.inj ht
    rcases List.mem_append.mp he with he | he
    · rw [hh e he] at hused
      cases hused
    · obtain rfl := List.mem_singleton.mp he
      cases hused
  · rcases hp with hp | hp <;> cases hp

theorem sample_promise_reset (h : List (Entry (Call Nat) (Result Nat))) :
    Promise (fun _ => 0) h (sampleCall (.reset 0)) := by
  refine ⟨nofun, nofun, fun p hp => ?_⟩
  rcases hp with hp | hp <;> cases hp

theorem sample_promise_check (h : List (Entry (Call Nat) (Result Nat))) (atMs epoch : Nat) :
    Promise (fun _ => 0) h (sampleCall (.check (sampleCheck atMs epoch))) := by
  refine ⟨nofun, nofun, fun p hp => ?_⟩
  rcases hp with hp | hp <;> cases hp
  rfl

def sampleFirst (now atMs : Nat) (s : Store Nat) : Store Nat :=
  sampleAfter now (.observe (sampleObserve 1 11 atMs)) s

def sampleSecond (now atMs : Nat) (s : Store Nat) : Store Nat :=
  sampleAfter now (.observe (sampleObserve 2 12 atMs)) (sampleFirst now atMs s)

def sampleReset (now later atMs : Nat) (s : Store Nat) : Store Nat :=
  sampleAfter later (.reset 0) (sampleSecond now atMs s)

/-- The last three steps of the sample. -/
def sampleHistory (now later atMs epoch : Nat) (s : Store Nat) :
    List (Entry (Call Nat) (Result Nat)) :=
  [sampleEntry now (.observe (sampleObserve 2 12 atMs)) (sampleFirst now atMs s),
    sampleEntry later (.reset 0) (sampleSecond now atMs s),
    sampleEntry later (.check (sampleCheck atMs epoch)) (sampleReset now later atMs s)]

theorem sample_run {ok : List (Entry (Call Nat) (Result Nat)) → Nat → Call Nat → Prop}
    {s₀ s : Store Nat} {h : List (Entry (Call Nat) (Result Nat))} {t now later atMs epoch : Nat}
    (hr : Run step ok s₀ h t s) (ht : t ≤ now) (hle : now ≤ later)
    (hfirst : ok h now (sampleCall (.observe (sampleObserve 1 11 atMs))))
    (hsecond : ok (h ++ [sampleEntry now (.observe (sampleObserve 1 11 atMs)) s]) now
      (sampleCall (.observe (sampleObserve 2 12 atMs))))
    (hreset : ok (h ++ [sampleEntry now (.observe (sampleObserve 1 11 atMs)) s] ++
      [sampleEntry now (.observe (sampleObserve 2 12 atMs)) (sampleFirst now atMs s)]) later
      (sampleCall (.reset 0)))
    (hcheck : ∀ h, ok h later (sampleCall (.check (sampleCheck atMs epoch)))) :
    ∃ s', Run step ok s₀ ((h ++ [sampleEntry now (.observe (sampleObserve 1 11 atMs)) s]) ++
      sampleHistory now later atMs epoch s) later s' := by
  have hr₁ := Run.snoc now _ hr ht hfirst
  have hr₂ := Run.snoc now _ hr₁ (Nat.le_refl now) hsecond
  have hr₃ := Run.snoc later _ hr₂ hle hreset
  have hr₄ := Run.snoc later _ hr₃ (Nat.le_refl later) (hcheck _)
  rw [List.append_assoc, List.append_assoc] at hr₄
  exact ⟨_, hr₄⟩

theorem paced_of_ne_reset {now : Nat} {r : Request Nat} {s : Store Nat}
    (h : ∀ author, r ≠ .reset author) : Paced now (sampleCall r) s :=
  fun author hr => absurd hr (h author)

def sampleStore : Store Nat := Store.initial fun _ => none

/-- The store after `n` resets of author 0 at clock 0. -/
def ahead (n : Nat) : Store Nat :=
  { sampleStore with reset := put (fun _ => none) 0 (cell n retentionMs) }

def aheadEntry : Entry (Call Nat) (Result Nat) := ⟨0, sampleCall (.reset 0), { kind := .ok }⟩

theorem ahead_purge (n : Nat) : (ahead n).purge 0 = ahead n := by
  have hreset : (fun k => Library.purge 0 ((ahead n).reset k)) = (ahead n).reset := by
    funext k
    unfold ahead
    dsimp only
    rw [put_apply]
    split <;> rfl
  unfold Store.purge
  rw [hreset]
  rfl

theorem ahead_reset (n : Nat) : reset 0 0 (ahead n) = ahead (n + 1) := by
  have hput : put (put (fun _ => none) 0 (cell n retentionMs)) 0 (cell (n + 1) retentionMs) =
      put (fun _ => none) 0 (cell (n + 1) retentionMs) := Function.update_idem _ _ _
  have hepoch : (ahead n).epoch 0 = n := rfl
  unfold reset
  rw [hepoch, Nat.zero_max, Nat.zero_add]
  unfold ahead
  rw [hput]

theorem step_sample_reset (s : Store Nat) :
    step 0 (sampleCall (.reset 0)) s = (reset 0 0 (s.purge 0), { kind := .ok }) := by
  have hdeadline : ¬(sampleCall (.reset 0)).deadline < 0 := Nat.not_lt_zero _
  unfold step
  dsimp only
  rw [if_neg hdeadline]
  rfl

theorem ahead_run (n : Nat) : Run step (fun h _ c => Promise (fun _ => 0) h c)
    sampleStore (List.replicate (n + 1) aheadEntry) 0 (ahead (n + 1)) := by
  induction n with
  | zero =>
    have hnil : Run step (fun h _ c => Promise (fun _ => 0) h c) sampleStore [] 0 sampleStore := .nil
    have hr := hnil.snoc 0 (sampleCall (.reset 0)) (Nat.le_refl 0) (sample_promise_reset _)
    rw [step_sample_reset] at hr
    exact hr
  | succ n ih =>
    have hr := ih.snoc 0 (sampleCall (.reset 0)) (Nat.le_refl 0) (sample_promise_reset _)
    rw [step_sample_reset, ahead_purge, ahead_reset] at hr
    rw [List.replicate_succ']
    exact hr

end Maxim.Moderation.MessageDuplicate
