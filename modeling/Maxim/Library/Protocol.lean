import Maxim.Library.Interleave

/-!
# Programs that keep to a protocol

A protocol says what a call may do next, given what its operations have been
answered so far. A program keeps to it when every operation is allowed in the
state that the answers before it lead to, whatever they are. In a pool the
state of a call can be read off the history, so every operation in a run is
one that the protocol allows there.
-/

namespace Maxim.Library

variable {ω ι ε : Type} {ρ : ε → Type} {ξ α β σ π : Type}

/-- The state a call starts in, what it may do in a state, and what an answer makes of the state. -/
structure Protocol (ι ε : Type) (ρ : ε → Type) (π : Type) where
  init : π
  may : ι → π → ε → Prop
  next : π → (e : ε) → ρ e → π

/-- Every operation is allowed in the state that the answers before it lead to. -/
def Prog.Follows (T : Protocol ι ε ρ π) (i : ι) : Prog ε ρ ξ α → π → Prop
  | .ret _, _ => True
  | .fail _, _ => True
  | .op e k, q => T.may i q e ∧ ∀ r, (k r).Follows T i (T.next q e r)

variable {T : Protocol ι ε ρ π} {i : ι}

theorem Prog.follows_await {q : π} {e : ε} {f : ρ e → Prog ε ρ ξ β} (he : T.may i q e)
    (hf : ∀ r, (f r).Follows T i (T.next q e r)) : ((Prog.perform e).bind f).Follows T i q :=
  ⟨he, hf⟩

/-- The operation is allowed in the state, and every answer leaves the state as it is. -/
def Protocol.Stays (T : Protocol ι ε ρ π) (i : ι) (q : π) (e : ε) : Prop :=
  T.may i q e ∧ ∀ r, T.next q e r = q

theorem Prog.follows_of_stays {q : π} {x : Prog ε ρ ξ α} {f : α → Prog ε ρ ξ β}
    (hx : x.Ops (T.Stays i q)) (hf : ∀ a, (f a).Follows T i q) : (x.bind f).Follows T i q := by
  induction x with
  | ret a => exact hf a
  | fail z => trivial
  | op e k ih => exact ⟨hx.1.1, fun r => (hx.1.2 r).symm ▸ ih r (hx.2 r)⟩

def Protocol.any : Protocol ι ε ρ Unit := ⟨(), fun _ _ _ => True, fun _ _ _ => ()⟩

theorem Prog.follows_any (x : Prog ε ρ ξ α) : x.Follows Protocol.any i () := by
  induction x with
  | ret a => trivial
  | fail z => trivial
  | op e k ih => exact ⟨trivial, fun r => ih r⟩

section Phases

variable [DecidableEq ω]

/-- What a step makes of the state of the call that the worker is inside. -/
def Protocol.advance (T : Protocol ι ε ρ π) (w : ω) (q : Option (ι × π))
    (x : PoolEntry ω ι ε ρ ξ α) : Option (ι × π) :=
  match x.request, x.reply with
  | .call w' _, some shown =>
    if w' = w then if shown.result.isSome then none else some (shown.call, T.init) else q
  | .resume w', some ⟨_, some ⟨e, r⟩, result⟩ =>
    if w' = w then if result.isSome then none else q.map fun p => (p.1, T.next p.2 e r) else q
  | _, _ => q

/-- The call that the worker is inside after a history, and its state. -/
def Protocol.phase (T : Protocol ι ε ρ π) (h : List (PoolEntry ω ι ε ρ ξ α)) (w : ω) :
    Option (ι × π) := h.foldl (T.advance w) none

theorem Protocol.phase_snoc (h : List (PoolEntry ω ι ε ρ ξ α)) (x : PoolEntry ω ι ε ρ ξ α) (w : ω) :
    T.phase (h ++ [x]) w = T.advance w (T.phase h w) x := by
  simp [Protocol.phase, List.foldl_append]

variable {h : List (PoolEntry ω ι ε ρ ξ α)} {x : PoolEntry ω ι ε ρ ξ α}

theorem Protocol.phase_idle
    (hx : x.reply = none) (w : ω) : T.phase (h ++ [x]) w = T.phase h w := by
  rw [Protocol.phase_snoc, Protocol.advance, hx]
  cases x.request <;> rfl

theorem Protocol.phase_starts
    {w w' : ω} {i i' : ι} {q' : π} {result : Option (Except ξ α)} (hrequest : x.request = .call w i)
    (hshown : x.reply = some ⟨i, none, result⟩) (hq' : T.phase (h ++ [x]) w' = some (i', q')) :
    w' = w ∧ i' = i ∧ q' = T.init ∨ w' ≠ w ∧ T.phase h w' = some (i', q') := by
  simp only [Protocol.phase_snoc, Protocol.advance, hrequest, hshown] at hq'
  by_cases hw : w = w'
  · rw [if_pos hw] at hq'
    split at hq'
    · cases hq'
    · obtain ⟨rfl, rfl⟩ := Prod.mk.inj (Option.some.inj hq')
      exact .inl ⟨hw.symm, rfl, rfl⟩
  · rw [if_neg hw] at hq'
    exact .inr ⟨Ne.symm hw, hq'⟩

theorem Protocol.phase_performs
    {w w' : ω} {i i' : ι} {q q' : π} {e : ε} {r : ρ e} {result : Option (Except ξ α)}
    (hrequest : x.request = .resume w) (hshown : x.reply = some ⟨i, some ⟨e, r⟩, result⟩)
    (hq : T.phase h w = some (i, q)) (hq' : T.phase (h ++ [x]) w' = some (i', q')) :
    w' = w ∧ i' = i ∧ q' = T.next q e r ∨ w' ≠ w ∧ T.phase h w' = some (i', q') := by
  simp only [Protocol.phase_snoc, Protocol.advance, hrequest, hshown] at hq'
  by_cases hw : w = w'
  · subst hw
    rw [if_pos rfl, hq] at hq'
    split at hq'
    · cases hq'
    · obtain ⟨rfl, rfl⟩ := Prod.mk.inj (Option.some.inj hq')
      exact .inl ⟨rfl, rfl, rfl⟩
  · rw [if_neg hw] at hq'
    exact .inr ⟨Ne.symm hw, hq'⟩

/-- What one step of a pool does to the store, what it shows, and what the protocol allowed. -/
inductive Pool.Allowed (sem : (e : ε) → σ → σ × ρ e) (T : Protocol ι ε ρ π)
    (h : List (PoolEntry ω ι ε ρ ξ α)) (s s' : σ) (x : PoolEntry ω ι ε ρ ξ α) : Prop
  | idle (shown : x.reply = none) (store : s' = s)
  | starts (w : ω) (i : ι) (result : Option (Except ξ α)) (request : x.request = .call w i)
    (shown : x.reply = some ⟨i, none, result⟩) (store : s' = s)
  | performs (w : ω) (i : ι) (q : π) (e : ε) (r : ρ e) (result : Option (Except ξ α))
    (request : x.request = .resume w) (shown : x.reply = some ⟨i, some ⟨e, r⟩, result⟩)
    (phase : T.phase h w = some (i, q)) (may : T.may i q e) (sem : sem e s = (s', r))

/-- Every worker is inside the call that the history says, with a program that keeps to the protocol
from the state that the history says. -/
def Pool.Follows (T : Protocol ι ε ρ π) (h : List (PoolEntry ω ι ε ρ ξ α))
    (p : Pool ω ι ε ρ ξ α σ) : Prop :=
  ∀ w, match p.active w with
    | none => T.phase h w = none
    | some (i, x) => ∃ q, T.phase h w = some (i, q) ∧ x.Follows T i q

variable {sem : (e : ε) → σ → σ × ρ e} {methods : ι → Prog ε ρ ξ α}

variable {p : Pool ω ι ε ρ ξ α σ}

theorem Pool.step_follows (hmethods : ∀ i, (methods i).Follows T i T.init)
    (hp : p.Follows T h) (now : Nat)
    (m : Move ω ι) :
    Pool.Allowed sem T h p.store (Pool.step sem methods now m p).1.store
        ⟨now, m, (Pool.step sem methods now m p).2⟩ ∧
      (Pool.step sem methods now m p).1.Follows T
        (h ++ [⟨now, m, (Pool.step sem methods now m p).2⟩]) := by
  have hidle : ∀ m : Move ω ι, p.Follows T (h ++ [⟨now, m, none⟩]) := by
    intro m w
    rw [Protocol.phase_snoc]
    cases m <;> exact hp w
  cases m with
  | call w i =>
    have hw := hp w
    cases hactive : p.active w with
    | some c =>
      simp only [Pool.step, hactive]
      exact ⟨.idle rfl rfl, hidle _⟩
    | none =>
      simp only [Pool.step, hactive]
      refine ⟨.starts w i _ rfl rfl rfl, fun w' => ?_⟩
      rw [Protocol.phase_snoc]
      simp only [Pool.proceed, Protocol.advance]
      by_cases hne : w' = w
      · subst hne
        rw [Function.update_self, if_pos rfl]
        by_cases hend : (methods i).result?.isSome = true
        · rw [if_pos hend, if_pos hend]
        · rw [if_neg hend, if_neg hend]
          exact ⟨T.init, rfl, hmethods i⟩
      · rw [Function.update_of_ne hne, if_neg (Ne.symm hne)]
        exact hp w'
  | resume w =>
    have hw := hp w
    cases hactive : p.active w with
    | none =>
      simp only [Pool.step, hactive]
      exact ⟨.idle rfl rfl, hidle _⟩
    | some c =>
      obtain ⟨i, x⟩ := c
      rw [hactive] at hw
      obtain ⟨q, hq, hx⟩ := hw
      cases x with
      | ret a =>
        simp only [Pool.step, hactive]
        exact ⟨.idle rfl rfl, hidle _⟩
      | fail z =>
        simp only [Pool.step, hactive]
        exact ⟨.idle rfl rfl, hidle _⟩
      | op e k =>
        simp only [Pool.step, hactive]
        refine ⟨.performs w i q e _ _ rfl rfl hq hx.1 rfl, fun w' => ?_⟩
        rw [Protocol.phase_snoc]
        simp only [Pool.proceed, Protocol.advance]
        by_cases hne : w' = w
        · subst hne
          rw [Function.update_self, if_pos rfl]
          by_cases hend : (k (sem e p.store).2).result?.isSome = true
          · rw [if_pos hend, if_pos hend]
          · rw [if_neg hend, if_neg hend, hq]
            exact ⟨_, rfl, hx.2 _⟩
        · rw [Function.update_of_ne hne, if_neg (Ne.symm hne)]
          exact hp w'

variable {ok : List (PoolEntry ω ι ε ρ ξ α) → Nat → Move ω ι → Prop} {s₀ : σ}

variable {t : Nat}

theorem Pool.run_follows (hmethods : ∀ i, (methods i).Follows T i T.init)
        (hr : Run (Pool.step sem methods) ok (Pool.start s₀) h t p) : p.Follows T h := by
  refine hr.invariant (fun h _ p => p.Follows T h) (fun w => rfl) (fun _ _ _ _ hp _ => hp) ?_
  intro h t p m hp _
  exact (Pool.step_follows hmethods hp t m).2

theorem Pool.run_allowed (hmethods : ∀ i, (methods i).Follows T i T.init)
        (hr : Run (Pool.step sem methods) ok (Pool.start s₀) (h ++ [x]) t p) :
    ∃ t₁ p₁, Run (Pool.step sem methods) ok (Pool.start s₀) h t₁ p₁ ∧
      ok h x.now x.request ∧ Pool.Allowed sem T h p₁.store p.store x := by
  obtain ⟨t₁, p₁, hr₁, -, hok, -, hreply, rfl⟩ := hr.snoc_inv
  refine ⟨t₁, p₁, hr₁, hok, ?_⟩
  obtain ⟨now, m, reply⟩ := x
  change reply = (Pool.step sem methods now m p₁).2 at hreply
  subst hreply
  exact (Pool.step_follows hmethods (Pool.run_follows hmethods hr₁) now m).1

theorem Pool.run_protocol (I : List (PoolEntry ω ι ε ρ ξ α) → σ → Prop)
    (hmethods : ∀ i, (methods i).Follows T i T.init) (hinit : I [] s₀)
    (hstep : ∀ h x s s', I h s → ok h x.now x.request → Pool.Allowed sem T h s s' x → I (h ++ [x]) s')
        (hr : Run (Pool.step sem methods) ok (Pool.start s₀) h t p) : I h p.store := by
  induction h using List.reverseRecOn generalizing t p with
  | nil => exact hr.nil_inv.2 ▸ hinit
  | append_singleton h x ih =>
    obtain ⟨t₁, p₁, hr₁, hok, hx⟩ := Pool.run_allowed hmethods hr
    exact hstep h x p₁.store p.store (ih hr₁) hok hx

theorem Pool.run_rely (S : σ → Prop) (J : ι → π → σ → Prop)
    (hmethods : ∀ i, (methods i).Follows T i T.init) (hstart : S s₀)
    (hinit : ∀ i s, S s → J i T.init s)
    (hown : ∀ i q e s, S s → J i q s → T.may i q e →
      S (sem e s).1 ∧ J i (T.next q e (sem e s).2) (sem e s).1)
    (hother : ∀ i q e s i' q', S s → J i q s → T.may i q e → J i' q' s → J i' q' (sem e s).1)
        (hr : Run (Pool.step sem methods) ok (Pool.start s₀) h t p) :
    S p.store ∧ ∀ w i q, T.phase h w = some (i, q) → J i q p.store := by
  refine Pool.run_protocol (fun h s => S s ∧ ∀ w i q, T.phase h w = some (i, q) → J i q s)
    hmethods ⟨hstart, fun w i q hq => by cases hq⟩ ?_ hr
  rintro h x s s' ⟨hs, hcalls⟩ - hx
  cases hx with
  | idle hshown hstore =>
    subst hstore
    exact ⟨hs, fun w i q hq => hcalls w i q (Protocol.phase_idle hshown w ▸ hq)⟩
  | starts w i result hrequest hshown hstore =>
    subst hstore
    refine ⟨hs, fun w' i' q' hq' => ?_⟩
    rcases Protocol.phase_starts hrequest hshown hq' with ⟨-, rfl, rfl⟩ | ⟨-, hq'⟩
    · exact hinit i' s' hs
    · exact hcalls w' i' q' hq'
  | performs w i q e r result hrequest hshown hq hmay hsem =>
    obtain ⟨rfl, rfl⟩ := Prod.mk.inj hsem
    obtain ⟨hs', hj⟩ := hown i q e s hs (hcalls w i q hq) hmay
    refine ⟨hs', fun w' i' q' hq' => ?_⟩
    rcases Protocol.phase_performs hrequest hshown hq hq' with ⟨-, rfl, rfl⟩ | ⟨-, hq'⟩
    · exact hj
    · exact hother i q e s i' q' hs (hcalls w i q hq) hmay (hcalls w' i' q' hq')

theorem Pool.since_allowed (I : σ → Prop) (hmethods : ∀ i, (methods i).Follows T i T.init)
    {pre post : List (PoolEntry ω ι ε ρ ξ α)}
    (hpre : ∀ t p, Run (Pool.step sem methods) ok (Pool.start s₀) pre t p → I p.store)
    (hstep : ∀ h₁ x h₂ t p s', post = h₁ ++ x :: h₂ →
      Run (Pool.step sem methods) ok (Pool.start s₀) (pre ++ h₁) t p → I p.store →
      Pool.Allowed sem T (pre ++ h₁) p.store s' x → I s')
        (hr : Run (Pool.step sem methods) ok (Pool.start s₀) (pre ++ post) t p) : I p.store := by
  induction post using List.reverseRecOn generalizing t p with
  | nil => exact hpre t p (List.append_nil pre ▸ hr)
  | append_singleton post x ih =>
    rw [← List.append_assoc] at hr
    obtain ⟨t₁, p₁, hr₁, -, hx⟩ := Pool.run_allowed hmethods hr
    refine hstep post x [] t₁ p₁ p.store rfl hr₁ (ih ?_ hr₁) hx
    rintro h₁ y h₂ t p s' rfl
    exact hstep h₁ y (h₂ ++ [x]) t p s' (by simp)

/-! ## What a history performs -/

omit [DecidableEq ω] in
/-- The worker of a step, its call, and the operation with its answer. -/
def performed? (x : PoolEntry ω ι ε ρ ξ α) : Option (ω × ι × (e : ε) × ρ e) :=
  match x.request, x.reply with
  | .resume w, some ⟨i, some a, _⟩ => some (w, i, a)
  | _, _ => none

def Pool.after (sem : (e : ε) → σ → σ × ρ e) (methods : ι → Prog ε ρ ξ α) (s₀ : σ)
    (h : List (PoolEntry ω ι ε ρ ξ α)) : σ :=
  (replay (Pool.step sem methods) (Pool.start s₀) h).store

theorem Pool.run_after
    (hr : Run (Pool.step sem methods) ok (Pool.start s₀) h t p) :
    Pool.after sem methods s₀ h = p.store := by rw [Pool.after, hr.replay_eq]

theorem Pool.Allowed.performed {s s' : σ}
    (hx : Pool.Allowed sem T h s s' x) :
    performed? x = none ∧ s' = s ∨ ∃ w i q e, performed? x = some (w, i, ⟨e, (sem e s).2⟩) ∧
      T.phase h w = some (i, q) ∧ T.may i q e ∧ s' = (sem e s).1 := by
  cases hx with
  | idle hshown hstore =>
    refine .inl ⟨?_, hstore⟩
    rw [performed?, hshown]
    cases x.request <;> rfl
  | starts w i result hrequest hshown hstore => exact .inl ⟨by rw [performed?, hrequest], hstore⟩
  | performs w i q e r result hrequest hshown hq hmay hsem =>
    obtain ⟨rfl, rfl⟩ := Prod.mk.inj hsem
    exact .inr ⟨w, i, q, e, by rw [performed?, hrequest, hshown], hq, hmay, rfl⟩

theorem Pool.run_at (hmethods : ∀ i, (methods i).Follows T i T.init)
    {h₁ h₂ : List (PoolEntry ω ι ε ρ ξ α)}
    (hr : Run (Pool.step sem methods) ok (Pool.start s₀) (h₁ ++ x :: h₂) t p) :
    ∃ t₁ p₁, Run (Pool.step sem methods) ok (Pool.start s₀) h₁ t₁ p₁ ∧
      p₁.store = Pool.after sem methods s₀ h₁ ∧
      Pool.Allowed sem T h₁ p₁.store (Pool.after sem methods s₀ (h₁ ++ [x])) x := by
  rw [List.append_cons] at hr
  obtain ⟨t₂, p₂, hr₂, -⟩ := hr.of_append
  obtain ⟨t₁, p₁, hr₁, -, hx⟩ := Pool.run_allowed hmethods hr₂
  exact ⟨t₁, p₁, hr₁, (Pool.run_after hr₁).symm, (Pool.run_after hr₂).symm ▸ hx⟩

/-- Rely and guarantee, where what is said of a call may depend on the history and every step
meets a condition: a step establishes what is said of its own call and keeps what is said of the
others. -/
theorem Pool.run_ghost (M : List (PoolEntry ω ι ε ρ ξ α) → PoolEntry ω ι ε ρ ξ α → Prop)
    (G : List (PoolEntry ω ι ε ρ ξ α) → σ → Prop)
    (J : List (PoolEntry ω ι ε ρ ξ α) → ω → ι → π → σ → Prop)
    (hmethods : ∀ i, (methods i).Follows T i T.init) (hstart : G [] s₀)
    (hquiet : ∀ h x s, performed? x = none → G h s →
      G (h ++ [x]) s ∧ ∀ w i q, J h w i q s → J (h ++ [x]) w i q s)
    (hfirst : ∀ h w i s, G h s → J h w i T.init s)
    (hstep : ∀ h x w i q e s, performed? x = some (w, i, ⟨e, (sem e s).2⟩) →
      s = Pool.after sem methods s₀ h → M h x → G h s → J h w i q s → T.phase h w = some (i, q) →
      T.may i q e → G (h ++ [x]) (sem e s).1 ∧
        J (h ++ [x]) w i (T.next q e (sem e s).2) (sem e s).1 ∧
        ∀ w' i' q', w' ≠ w → J h w' i' q' s → J (h ++ [x]) w' i' q' (sem e s).1)
        (hr : Run (Pool.step sem methods) ok (Pool.start s₀) h t p)
    (hmeets : ∀ h₁ x h₂, h = h₁ ++ x :: h₂ → M h₁ x) :
    G h p.store ∧ ∀ w i q, T.phase h w = some (i, q) → J h w i q p.store := by
  induction h using List.reverseRecOn generalizing t p with
  | nil => exact hr.nil_inv.2 ▸ ⟨hstart, fun w i q hq => by cases hq⟩
  | append_singleton h x ih =>
    obtain ⟨t₁, p₁, hr₁, -, hx⟩ := Pool.run_allowed hmethods hr
    obtain ⟨hg, hj⟩ := ih hr₁ fun h₁ y h₂ he => hmeets h₁ y (h₂ ++ [x]) (by rw [he]; simp)
    cases hx with
    | idle hshown hstore =>
      have hnone : performed? x = none := by
        rw [performed?, hshown]
        cases x.request <;> rfl
      obtain ⟨hg', hj'⟩ := hquiet h x _ hnone hg
      rw [hstore]
      exact ⟨hg', fun w i q hq => hj' w i q (hj w i q (Protocol.phase_idle hshown w ▸ hq))⟩
    | starts w i result hrequest hshown hstore =>
      obtain ⟨hg', hj'⟩ := hquiet h x _ (by rw [performed?, hrequest]) hg
      rw [hstore]
      refine ⟨hg', fun w' i' q' hq' => ?_⟩
      rcases Protocol.phase_starts hrequest hshown hq' with ⟨-, -, rfl⟩ | ⟨-, hq'⟩
      · exact hfirst _ _ _ _ hg'
      · exact hj' w' i' q' (hj w' i' q' hq')
    | performs w i q e r result hrequest hshown hq hmay hsem =>
      obtain ⟨hstore, rfl⟩ := Prod.mk.inj hsem
      obtain ⟨hg', hown, hother⟩ := hstep h x w i q e p₁.store (by rw [performed?, hrequest, hshown])
        (Pool.run_after hr₁).symm (hmeets h x [] rfl) hg (hj w i q hq) hq hmay
      rw [← hstore]
      refine ⟨hg', fun w' i' q' hq' => ?_⟩
      rcases Protocol.phase_performs hrequest hshown hq hq' with ⟨rfl, rfl, rfl⟩ | ⟨hne, hq'⟩
      · exact hown
      · exact hother w' i' q' hne (hj w' i' q' hq')

end Phases

end Maxim.Library
