import Maxim.Moderation.MessageDuplicate.Replay
import Mathlib.Data.List.Find

/-!
# Flags and records of qualifications

A qualification that counts flags the match, writes the record of the member and
moves the counter. An observation takes a flag over with its match or drops it,
and only a qualification writes a record.
-/

namespace Maxim.Moderation.MessageDuplicate

open Maxim.Library

variable {δ : Type}

/-! ## Flags -/

section Flags

variable {α : Type} {P Q : α → Bool} {g : α → α} {l : List α} {a b : α}

/-- The first element with a property that the change of one element keeps. -/
theorem find?_modify (hg : ∀ x, Q (g x) = Q x) {i : Nat} (h : (l.modify i g).find? Q = some b) :
    ∃ a, l.find? Q = some a ∧ (b = a ∨ b = g a) := by
  induction l generalizing i with
  | nil => cases i <;> cases h
  | cons x l ih =>
    cases i with
    | zero =>
      rw [List.modify_zero_cons, List.find?_cons, hg] at h
      rw [List.find?_cons]
      cases hx : Q x with
      | true =>
        rw [hx] at h
        exact ⟨x, rfl, .inr (Option.some.inj h).symm⟩
      | false =>
        rw [hx] at h
        exact ⟨b, h, .inl rfl⟩
    | succ i =>
      rw [List.modify_succ_cons, List.find?_cons] at h
      rw [List.find?_cons]
      cases hx : Q x with
      | true =>
        rw [hx] at h
        exact ⟨x, rfl, .inl (Option.some.inj h).symm⟩
      | false =>
        rw [hx] at h
        exact ih h

theorem find?_modify_first (hg : ∀ x, P (g x) = P x) (h : l.find? P = some a) :
    (l.modify (l.findIdx P) g).find? P = some (g a) := by
  induction l with
  | nil => cases h
  | cons x l ih =>
    rw [List.find?_cons] at h
    rw [List.findIdx_cons]
    cases hx : P x with
    | true =>
      rw [hx] at h
      obtain rfl := Option.some.inj h
      simp [hg, hx]
    | false =>
      rw [hx] at h
      simpa [hx] using ih h

/-- An element of the changed list was there, or is the changed one. -/
theorem mem_modify_first (hb : b ∈ l.modify (l.findIdx P) g) :
    b ∈ l ∨ ∃ a, l.find? P = some a ∧ b = g a := by
  induction l with
  | nil => cases hb
  | cons x l ih =>
    rw [List.findIdx_cons] at hb
    rw [List.find?_cons]
    cases hx : P x with
    | true =>
      rw [hx, cond_true, List.modify_zero_cons] at hb
      rcases List.mem_cons.mp hb with rfl | hb
      · exact .inr ⟨x, rfl, rfl⟩
      · exact .inl (List.mem_cons_of_mem _ hb)
    | false =>
      rw [hx, cond_false, List.modify_succ_cons] at hb
      rcases List.mem_cons.mp hb with rfl | hb
      · exact .inl List.mem_cons_self
      · exact (ih hb).imp_left (List.mem_cons_of_mem _)

end Flags

def Match.flag (m : Match δ) (qualified : Nat) : Match δ := { m with qualified := some qualified }

def Message.Uniform (st : Message δ) : Prop :=
  ∀ m ∈ st.matched, ∀ m' ∈ st.matched, m.fingerprint = m'.fingerprint → m.original = m'.original

theorem qualify_uniform {st : Message δ} (hu : st.Uniform) (selects : Match δ → Bool) (q : Nat) :
    (st.qualify selects q).Uniform := by
  intro m hm m' hm' hfingerprint
  obtain ⟨m₀, hm₀, hfp, horiginal⟩ := qualify_matched hm
  obtain ⟨m₀', hm₀', hfp', horiginal'⟩ := qualify_matched hm'
  rw [← horiginal, ← horiginal']
  exact hu m₀ hm₀ m₀' hm₀' (hfp.trans (hfingerprint.trans hfp'.symm))

variable [DecidableEq δ] {now t : Nat} {p : Check δ} {q : Observe δ} {s s' : Store δ} {c : Call δ}
  {state st : Message δ} {m : Match δ} {h : List (Event δ)} {e : Event δ} {member author : δ}
  {epoch : Nat}

theorem selects_congr {m' : Match δ} (p : Check δ) (s : Store δ) (hfp : m.fingerprint = m'.fingerprint)
    (horiginal : m.original = m'.original) : p.selects s m = p.selects s m' := by
  rw [Check.selects, Check.selects, hfp, horiginal]

theorem selects_spec (h : p.selects s m = true) : m.fingerprint = p.fingerprint ∧
    m.original.originalId = p.original.originalId ∧ m.original.epoch = p.original.epoch := by
  simp only [Check.selects, Bool.and_eq_true, decide_eq_true_eq] at h
  obtain ⟨⟨⟨⟨⟨⟨⟨⟨hfp, -⟩, -⟩, hid⟩, -⟩, hepoch⟩, -⟩, -⟩, -⟩ := h
  exact ⟨hfp, hid, hepoch⟩

theorem find?_selects (hu : st.Uniform) (h : st.matched.find? (p.selects s) = some m) :
    st.matched.find? (fun x => decide (x.fingerprint = p.fingerprint)) = some m := by
  have hm := List.mem_of_find?_eq_some h
  have hselects := List.find?_some h
  rw [← h]
  refine List.find?_congr fun x hx => ?_
  by_cases hfp : x.fingerprint = p.fingerprint
  · have hfp' := hfp.trans (selects_spec hselects).1.symm
    rw [selects_congr p s hfp' (hu x hx m hm hfp'), hselects, decide_eq_true hfp]
  · rw [decide_eq_false hfp, eq_comm, Bool.eq_false_iff]
    exact fun hx => hfp (selects_spec hx).1

/-! ## What an observation rebuilds -/

/-- The match stands in the stored state of the message, which is of the epoch. -/
def Carried (q : Observe δ) (s : Store δ) (epoch : Nat) (m : Match δ) : Prop :=
  ∃ st, content (s.message q.key) = some st ∧ st.epoch = epoch ∧ st.Holds m

/-- The matches of a state that an observation writes are of one comparison; a flag is taken over
with its match. -/
structure Rebuilt (q : Observe δ) (s : Store δ) (st : Message δ) : Prop where
  uniform : st.Uniform
  carried : ∀ m, st.Holds m → m.qualified = none ∨ Carried q s st.epoch m

theorem continuity_carried {life : Life δ} {c : Continuity δ}
    (hc : q.continuity (q.background s) life = some c) (hm : m ∈ c.matched) :
    Carried q s (s.epoch q.author) m := by
  unfold Observe.continuity at hc
  obtain ⟨previous, hprevious, hc⟩ := Option.bind_eq_some_iff.mp hc
  obtain ⟨hstored, hepoch⟩ := Option.filter_eq_some_iff.mp hprevious
  refine ⟨previous, hstored, of_decide_eq_true hepoch, ?_⟩
  split at hc
  · obtain rfl := Option.some.inj hc
    exact .inl hm
  · split at hc
    · exact .inr ⟨c, (Option.filter_eq_some_iff.mp hc).1, hm⟩
    · cases hc

variable {preserved : Option (Continuity δ)}

theorem stage_flag {fingerprint : δ}
    (h : q.stage preserved state s fingerprint = .evidence m) : m.fingerprint = fingerprint ∧
      (m.qualified = none ∨ ∃ c, preserved = some c ∧ m ∈ c.matched) := by
  unfold Observe.stage at h
  split at h
  · dsimp only at h
    split at h <;> cases h
  · next original _ =>
    split at h
    · dsimp only at h
      split at h
      · cases h
      · split at h
        · cases h
        · have hm := Staged.evidence.inj h
          cases hsnap : preserved.bind fun c => c.snapshot fingerprint original with
          | some m' =>
            rw [hsnap] at hm
            obtain rfl : m' = m := hm
            obtain ⟨c, hc, hmem⟩ := Option.bind_eq_some_iff.mp hsnap
            have hfound := List.mem_filter.mp (List.mem_of_getLast? hmem)
            simp only [Bool.and_eq_true, decide_eq_true_eq] at hfound
            exact ⟨hfound.2.1.1, .inr ⟨c, hc, hfound.1⟩⟩
          | none =>
            rw [hsnap] at hm
            obtain rfl := hm
            exact ⟨rfl, .inl rfl⟩
    · cases h

theorem compare_matched (now : Nat)
    (hm : m ∈ (q.compare now preserved state s).2.matched) :
    ∃ fingerprint, q.stage preserved state s fingerprint = .evidence m := by
  obtain ⟨w, hw, hev⟩ := List.mem_filterMap.mp hm
  obtain ⟨fingerprint, -, rfl⟩ := List.mem_map.mp hw
  refine ⟨fingerprint, ?_⟩
  cases hstage : q.stage preserved state s fingerprint with
  | evidence m' =>
    rw [hstage] at hev
    rw [Option.some.inj hev]
  | skip => rw [hstage] at hev; cases hev
  | anchor => rw [hstage] at hev; cases hev
  | accept => rw [hstage] at hev; cases hev

theorem compare_rebuilt {s₁ : Store δ}
    (hpreserved : ∀ c, preserved = some c → ∀ m ∈ c.matched, Carried q s state.epoch m)
    (hcontinuity : ∀ c, state.continuity = some c → ∀ m ∈ c.matched, Carried q s state.epoch m)
    (hst : content ((q.compare now preserved state s₁).1.message q.key) = some st) :
    Rebuilt q s st := by
  obtain ⟨accepted, rfl⟩ := (compare_leaves now q preserved state s₁).2.2 st hst
  refine ⟨fun m hm m' hm' hfp => ?_, fun m hm => ?_⟩
  · obtain ⟨fingerprint, hstage⟩ := compare_matched now hm
    obtain ⟨fingerprint', hstage'⟩ := compare_matched now hm'
    have hsame : fingerprint = fingerprint' :=
      (stage_flag hstage).1.symm.trans (hfp.trans (stage_flag hstage').1)
    rw [hsame, hstage'] at hstage
    rw [Staged.evidence.inj hstage]
  · rcases hm with hm | ⟨c, hc, hm⟩
    · obtain ⟨fingerprint, hstage⟩ := compare_matched now hm
      refine (stage_flag hstage).2.imp_right ?_
      rintro ⟨c, hc, hmem⟩
      exact hpreserved c hc m hmem
    · exact .inr (hcontinuity c hc m hm)

theorem materialize_rebuilt {life : Life δ} {s₁ : Store δ}
    (hst : content ((q.materialize now (q.background s) life s₁).1.message q.key) = some st) :
    Rebuilt q s st := by
  have hcontinuity : ∀ (settled : Life δ) (c : Continuity δ),
      (q.state (q.background s) settled).continuity = some c →
      ∀ m ∈ c.matched, Carried q s (s.epoch q.author) m := by
    intro settled c hc m hm
    unfold Observe.state at hc
    dsimp only at hc
    split at hc
    · exact continuity_carried hc hm
    · cases hc
  have hplain : ∀ (s₂ : Store δ) (settled : Life δ),
      content (put s₂.message q.key (write now (q.state (q.background s) settled)
        (windowExpiry now q.windowMs (q.state (q.background s) settled).atMs)) q.key) = some st →
      Rebuilt q s st := by
    intro s₂ settled hst
    rw [put_same] at hst
    obtain rfl := content_write hst
    refine ⟨nofun, fun m hm => ?_⟩
    rcases hm with hm | ⟨c, hc, hm⟩
    · cases hm
    · exact .inr (hcontinuity settled c hc m hm)
  unfold Observe.materialize at hst
  dsimp only at hst
  split at hst
  · exact hplain _ _ hst
  · split at hst
    · exact hplain _ _ hst
    · refine compare_rebuilt (fun c hc m hm => ?_) (fun c hc m hm => hcontinuity _ c hc m hm) hst
      have hverified := preserved_verified hc
      exact continuity_carried (Option.filter_eq_some_iff.mp hverified).1 hm

/-- An observation leaves the state of its message, or rebuilds it. -/
theorem observe_rebuilt (hst : content ((observe now q s).1.message q.key) = some st) :
    content (s.message q.key) = some st ∨ Rebuilt q s st := by
  have hlifecycle := (lifecycle_cases now q.token q.key s q.atMs q.lifecycleSource
    (some q.publishedAt)).1.message
  unfold observe at hst
  dsimp only at hst
  split at hst
  · exact .inl hst
  · split at hst
    · next s₁ hs₁ =>
      rw [hs₁] at hlifecycle
      exact .inl (hlifecycle ▸ hst)
    · next s₁ life₀ hs₁ =>
      rw [hs₁] at hlifecycle
      split at hst
      · exact .inl (hlifecycle ▸ hst)
      · split at hst
        · exact .inl (hlifecycle ▸ hst)
        · exact .inr (materialize_rebuilt hst)

/-! ## What a qualification does -/

/-- A qualification that counts: the counter, the record of the member and the flag of the match. -/
structure Counting (now : Nat) (p : Check δ) (s s' : Store δ) (reply : Result δ) (m : Match δ)
    (state : Message δ) (n x y : Nat) : Prop where
  matching : matching p s = some (m, state)
  unflagged : m.qualified = none
  record : content (s.qualification p.member) ≠ some (s.epoch p.author)
  kind : reply.kind = .ok
  reply : reply.count = some n
  value : n = min 20 (p.allowed + (((content (s.count (s.counterKey p.author p.fingerprint
    m.original))).getD ⟨p.allowed, 0⟩).qualify p.allowed).qualified)
  count : s'.count = put s.count (s.counterKey p.author p.fingerprint m.original)
    (rewrite now (s.count (s.counterKey p.author p.fingerprint m.original))
      (((content (s.count (s.counterKey p.author p.fingerprint m.original))).getD
        ⟨p.allowed, 0⟩).qualify p.allowed) y)
  message : s'.message = put s.message (p.member, p.mode)
    (rewrite now (s.message (p.member, p.mode)) (state.qualify (p.selects s) n) x)
  qualification : s'.qualification = put s.qualification p.member
    (rewrite now (s.qualification p.member) (s.epoch p.author) x)

/-- A qualification counts, or it changes nothing and answers with the stored flag. -/
theorem qualify_cases (now : Nat) (p : Check δ) (s : Store δ) :
    ((qualify now p s).1 = s ∧ ((qualify now p s).2.kind = .ok → ∃ m state n,
      matching p s = some (m, state) ∧ m.qualified = some n ∧
        (qualify now p s).2.count = some n)) ∨
    ∃ m state n x y, Counting now p s (qualify now p s).1 (qualify now p s).2 m state n x y := by
  unfold qualify
  split
  · exact .inl ⟨rfl, nofun⟩
  · next m state hm =>
    split
    · next n hn => exact .inl ⟨rfl, fun _ => ⟨m, state, n, hm, hn, rfl⟩⟩
    · next hn =>
      split
      · exact .inl ⟨rfl, nofun⟩
      · next hrecord =>
        exact .inr ⟨m, state, _, _, _, hm, hn, hrecord, rfl, rfl, rfl, rfl, rfl, rfl⟩

theorem step_qualify (now : Nat) (s : Store δ) (hr : c.request = .qualify p) :
    (step now c s = (s.purge now, { kind := .deadlineExceeded }) ∧ c.deadline < now) ∨
      step now c s = qualify now p (s.purge now) := by
  unfold step
  dsimp only
  split
  · next hdeadline => exact .inl ⟨rfl, hdeadline⟩
  · rw [hr]
    exact .inr rfl

theorem matching_find {p : Check δ} (h : matching p s = some (m, state)) :
    state.matched.find? (p.selects s) = some m := by
  unfold matching at h
  split at h
  · cases h
  · split at h
    · cases h
    · split at h
      · split at h
        · obtain ⟨m', hfind, heq⟩ := Option.map_eq_some_iff.mp h
          obtain ⟨rfl, rfl⟩ := Prod.mk.inj heq
          exact hfind
        · cases h
      · cases h

/-- What a step other than a qualification does to counters and states. -/
structure Elsewhere (c : Call δ) (s s' : Store δ) : Prop where
  count : ∀ k d, content (s'.count k) = some d →
    d.qualified = ((content (s.count k)).getD ⟨0, 0⟩).qualified
  message : ∀ k st, content (s'.message k) = some st → content (s.message k) = some st ∨
    ∃ q, c.request = .observe q ∧ q.key = k ∧ Rebuilt q s st

theorem step_elsewhere (now : Nat) (s : Store δ) (h : ∀ p, c.request ≠ .qualify p) :
    Elsewhere c (s.purge now) (step now c s).1 := by
  have hsame : ∀ (k : CounterKey δ) (slots : Slots (CounterKey δ) Count) (d : Count),
      content (slots k) = some d → d.qualified = ((content (slots k)).getD ⟨0, 0⟩).qualified := by
    intro k slots d hd
    rw [hd]
    rfl
  have heffect := step_effect now c s
  cases heffect with
  | quiet honly =>
    refine ⟨fun k d hd => ?_, fun k st hst => ?_⟩
    · rw [honly.count] at hd
      exact hsame k _ d hd
    · rw [honly.message] at hst
      exact .inl hst
  | reset author hr hs =>
    rw [hs]
    exact ⟨fun k d hd => hsame k _ d hd, fun k st hst => .inl hst⟩
  | qualified p m state hr => exact absurd hr (h p)
  | observed q life state hr ho =>
    refine ⟨fun k d hd => ?_, fun k st hst => ?_⟩
    · rcases ho.count k d hd with hold | ⟨-, hqualified⟩
      · exact hsame k _ d hold
      · exact hqualified
    · by_cases hk : q.key = k
      · subst hk
        have hobserve : (step now c s).1 = s.purge now ∨
            (step now c s).1 = (observe now q (s.purge now)).1 := by
          unfold step
          dsimp only
          rw [hr]
          split
          · exact .inl rfl
          · exact .inr rfl
        rcases hobserve with hs | hs
        · rw [hs] at hst
          exact .inl hst
        · rw [hs] at hst
          exact (observe_rebuilt hst).imp_right fun hrebuilt => ⟨q, hr, rfl, hrebuilt⟩
      · rw [ho.messageOther k fun heq => hk heq.symm] at hst
        exact .inl hst

/-! ## The record of a member -/

theorem lifecycle_qualification (now : Nat) (token : δ) (key : δ × Mode) (atMs : Nat) (source : δ)
    (publishedAt : Option Nat) (s : Store δ) :
    (lifecycle now token key atMs source publishedAt s).1.qualification = s.qualification := by
  unfold lifecycle
  split
  · rfl
  · rfl
  · split
    · rfl
    · split
      · split <;> rfl
      · rfl

omit [DecidableEq δ] in
theorem foldl_qualification {ι : Type} {f : Store δ → ι → Store δ}
    (hf : ∀ s i, (f s i).qualification = s.qualification) (l : List ι) (s : Store δ) :
    (l.foldl f s).qualification = s.qualification := by
  induction l generalizing s with
  | nil => rfl
  | cons i l ih => exact (ih (f s i)).trans (hf s i)

theorem observe_qualification (now : Nat) (q : Observe δ) (s : Store δ) :
    (observe now q s).1.qualification = s.qualification := by
  have hcompare : ∀ (preserved : Option (Continuity δ)) (state : Message δ) (s : Store δ),
      (q.compare now preserved state s).1.qualification = s.qualification := by
    intro preserved state s
    unfold Observe.compare
    dsimp only
    split
    · exact foldl_qualification (fun s w => by cases w <;> rfl) _ s
    · rfl
  have hif : ∀ (b : Prop) [Decidable b] (life : Life δ) (s : Store δ),
      (if b then s.rewriteLife now q.key life else s).qualification = s.qualification := by
    intro b _ life s
    split <;> rfl
  have hmaterialize : ∀ (b : Background δ) (life : Life δ) (s : Store δ),
      (q.materialize now b life s).1.qualification = s.qualification := by
    intro b life s
    unfold Observe.materialize
    dsimp only
    split
    · exact (hif _ _ _).trans (hif _ _ _)
    · split
      · exact (hif _ _ _).trans (hif _ _ _)
      · exact (hcompare _ _ _).trans ((hif _ _ _).trans (hif _ _ _))
  have hlifecycle := lifecycle_qualification now q.token q.key q.atMs q.lifecycleSource
    (some q.publishedAt) s
  unfold observe
  dsimp only
  split
  · rfl
  · split
    · next s₁ hs₁ => rwa [hs₁] at hlifecycle
    · next s₁ life hs₁ =>
      rw [hs₁] at hlifecycle
      split
      · exact hlifecycle
      · split
        · exact hlifecycle
        · exact (hmaterialize _ _ _).trans hlifecycle

/-- Only a qualification of the member writes its record. -/
theorem step_record (now : Nat) (s : Store δ)
    (h : ∀ p, c.request = .qualify p → p.member ≠ member) :
    (step now c s).1.qualification member = purge now (s.qualification member) := by
  unfold step
  dsimp only
  split
  · rfl
  · split
    · next q _ => exact congrFun (observe_qualification now q (s.purge now)) member
    · refine congrFun (foldl_qualification (fun s entry => ?_) _ (s.purge now)) member
      exact lifecycle_qualification _ _ _ _ _ _ s
    · refine congrFun (foldl_qualification (fun s entry => ?_) _ (s.purge now)) member
      unfold invalidateMode
      dsimp only
      split <;> rfl
    · next q _ =>
      rw [(imageAnchor_quiet q _).1]
      rfl
    · next q _ =>
      rw [(check_quiet q _).1]
      rfl
    · next p hr =>
      unfold qualify
      split
      · rfl
      · split
        · rfl
        · split
          · rfl
          · exact put_other _ (h p hr).symm _
    · unfold remove
      split <;> rfl
    · rfl

theorem qualify_recorded (h : content (s.qualification p.member) = some (s.epoch p.author)) :
    (qualify now p s).1 = s := by
  rcases qualify_cases now p s with ⟨hs, -⟩ | ⟨m, state, n, x, y, hc⟩
  · exact hs
  · exact absurd h hc.record

/-- The calls after a state in which the member has a record. The record lives, and the member is
qualified in its epoch only. -/
structure Recorded (s₀ : Store δ) (pre post : List (Event δ)) (member : δ) (record : Cell Nat) :
    Prop where
  live : ∀ e ∈ post, record.live e.now = true
  epoch : ∀ mid e rest p, post = mid ++ e :: rest → e.request.request = .qualify p →
    p.member = member → ((replay step s₀ (pre ++ mid)).purge e.now).epoch p.author = record.value

variable {s₀ : Store δ} {pre mid post rest : List (Event δ)} {record : Cell Nat}

theorem Recorded.of_append (hr : Recorded s₀ pre (mid ++ rest) member record) :
    Recorded s₀ pre mid member record :=
  ⟨fun e he => hr.live e (List.mem_append_left _ he),
    fun mid' e rest' p heq => hr.epoch mid' e (rest' ++ rest) p (by simp [heq])⟩

theorem Recorded.purged (hr : Recorded s₀ pre (mid ++ e :: rest) member record)
    (hstored : (replay step s₀ (pre ++ mid)).qualification member = some record) :
    ((replay step s₀ (pre ++ mid)).purge e.now).qualification member = some record := by
  change purge e.now ((replay step s₀ (pre ++ mid)).qualification member) = some record
  rw [hstored]
  exact purge_some_of_live (hr.live e (List.mem_append_right _ List.mem_cons_self))

theorem Recorded.unchanged (hr : Recorded s₀ pre (mid ++ e :: rest) member record)
    (hstored : (replay step s₀ (pre ++ mid)).qualification member = some record)
    (hp : e.request.request = .qualify p) (hmember : p.member = member) :
    (step e.now e.request (replay step s₀ (pre ++ mid))).1 =
      (replay step s₀ (pre ++ mid)).purge e.now := by
  rcases step_qualify e.now (replay step s₀ (pre ++ mid)) hp with ⟨hstep, -⟩ | hstep
  · rw [hstep]
  · rw [hstep]
    refine qualify_recorded ?_
    rw [hmember, hr.purged hstored, hr.epoch mid e rest p rfl hp hmember]
    rfl

theorem Recorded.stays (hr : Recorded s₀ pre post member record)
    (hrecord : (replay step s₀ pre).qualification member = some record) :
    (replay step s₀ (pre ++ post)).qualification member = some record := by
  induction post using List.reverseRecOn with
  | nil => rwa [List.append_nil]
  | append_singleton post e ih =>
    have hstored := ih hr.of_append
    rw [← List.append_assoc, replay_snoc]
    by_cases hp : ∃ p, e.request.request = .qualify p ∧ p.member = member
    · obtain ⟨p, hp, hmember⟩ := hp
      rw [hr.unchanged hstored hp hmember]
      exact hr.purged hstored
    · rw [step_record e.now _ fun p hp' hmember => hp ⟨p, hp', hmember⟩]
      exact hr.purged hstored

theorem counted_record (hp : c.request = .qualify p) (hchanged : (step now c s).1 ≠ s.purge now)
    (hrecord : (step now c s).1.qualification p.member = some record) :
    record.value = (s.purge now).epoch p.author := by
  rcases step_qualify now s hp with ⟨hstep, -⟩ | hstep
  · exact absurd (congrArg Prod.fst hstep) hchanged
  · rw [hstep] at hchanged hrecord
    rcases qualify_cases now p (s.purge now) with ⟨hs, -⟩ | ⟨m, state, n, x, y, hc⟩
    · exact absurd hs hchanged
    · rw [hc.qualification, put_same] at hrecord
      exact (rewrite_eq_some hrecord).1

end Maxim.Moderation.MessageDuplicate
