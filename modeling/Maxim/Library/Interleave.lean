import Maxim.Library.Run
import Mathlib.Logic.Function.Basic

/-!
# Programs whose store operations interleave

A program is local code between awaited operations on a shared store. A pool
runs any number of workers over one store; in each step one of them starts a
call or has its next operation answered and runs its local code up to the next
operation. What every operation of a program does, and what its last answer
says about its result, is known from the program alone; the pool carries it to
all runs.
-/

namespace Maxim.Library

/-- Local code that awaits operations and ends with a value or an error. -/
inductive Prog (ε : Type) (ρ : ε → Type) (ξ α : Type)
  | ret (a : α)
  | fail (x : ξ)
  | op (e : ε) (k : ρ e → Prog ε ρ ξ α)

variable {ε : Type} {ρ : ε → Type} {ξ α β : Type}

def Prog.bind : Prog ε ρ ξ α → (α → Prog ε ρ ξ β) → Prog ε ρ ξ β
  | .ret a, f => f a
  | .fail x, _ => .fail x
  | .op e k, f => .op e fun r => (k r).bind f

instance : Monad (Prog ε ρ ξ) where
  pure := .ret
  bind := .bind

theorem Prog.bind_assoc {γ : Type} (x : Prog ε ρ ξ α) (f : α → Prog ε ρ ξ β)
    (g : β → Prog ε ρ ξ γ) : (x.bind f).bind g = x.bind fun a => (f a).bind g := by
  induction x with
  | ret a => rfl
  | fail z => rfl
  | op e k ih => exact congrArg (Prog.op e) (funext fun r => ih r)

def Prog.perform (e : ε) : Prog ε ρ ξ (ρ e) := .op e .ret

/-- The program, with its error as a result. -/
def Prog.attempt : Prog ε ρ ξ α → Prog ε ρ ξ (Except ξ α)
  | .ret a => .ret (.ok a)
  | .fail x => .ret (.error x)
  | .op e k => .op e fun r => (k r).attempt

/-- How the program has ended, if it has. -/
def Prog.result? : Prog ε ρ ξ α → Option (Except ξ α)
  | .ret a => some (.ok a)
  | .fail x => some (.error x)
  | .op _ _ => none

/-- Every operation satisfies `P` and every result `Q`. -/
def Prog.Every (P : ε → Prop) (Q : Except ξ α → Prop) : Prog ε ρ ξ α → Prop
  | .ret a => Q (.ok a)
  | .fail x => Q (.error x)
  | .op e k => P e ∧ ∀ r, (k r).Every P Q

/-- Every operation satisfies `P`, and relates by `R` to its answer and to the result with which
the program ends on it, if it ends. -/
def Prog.Sound (P : ε → Prop) (R : (e : ε) → ρ e → Option (Except ξ α) → Prop) :
    Prog ε ρ ξ α → Prop
  | .ret _ => True
  | .fail _ => True
  | .op e k => P e ∧ ∀ r, R e r (k r).result? ∧ (k r).Sound P R

variable {P : ε → Prop}

variable {x : Prog ε ρ ξ α}

theorem Prog.Every.bind {Q : Except ξ α → Prop} {Q' : Except ξ β → Prop}
    {f : α → Prog ε ρ ξ β} (hx : x.Every P Q) (hf : ∀ a, Q (.ok a) → (f a).Every P Q')
    (hfail : ∀ z, Q (.error z) → Q' (.error z)) : (x.bind f).Every P Q' := by
  induction x with
  | ret a => exact hf a hx
  | fail z => exact hfail z hx
  | op e k ih => exact ⟨hx.1, fun r => ih r (hx.2 r)⟩

theorem Prog.every_await {Q : Except ξ β → Prop} {e : ε} {f : ρ e → Prog ε ρ ξ β} (he : P e)
    (hf : ∀ r, (f r).Every P Q) : ((Prog.perform e).bind f).Every P Q := ⟨he, hf⟩

abbrev Prog.Ops (P : ε → Prop) (x : Prog ε ρ ξ α) : Prop := x.Every P fun _ => True

theorem Prog.ops_perform {e : ε} (he : P e) : (Prog.perform e : Prog ε ρ ξ (ρ e)).Ops P :=
  ⟨he, fun _ => trivial⟩

theorem Prog.Ops.bind {f : α → Prog ε ρ ξ β} (hx : x.Ops P)
    (hf : ∀ a, (f a).Ops P) : (x.bind f).Ops P := Every.bind hx (fun a _ => hf a) fun _ _ => trivial

theorem Prog.Ops.mono {P' : ε → Prop} (hx : x.Ops P) (h : ∀ e, P e → P' e) :
    x.Ops P' := by
  induction x with
  | ret a => trivial
  | fail z => trivial
  | op e k ih => exact ⟨h e hx.1, fun r => ih r (hx.2 r)⟩

theorem Prog.Every.result {Q : Except ξ α → Prop} (hx : x.Every P Q)
    {y : Except ξ α} (hy : x.result? = some y) : Q y := by
  cases x with
  | ret a => exact Option.some.inj hy ▸ hx
  | fail z => exact Option.some.inj hy ▸ hx
  | op e k => simp [Prog.result?] at hy

theorem Prog.Every.sound {P' : ε → Prop} {Q : Except ξ α → Prop}
    {R : (e : ε) → ρ e → Option (Except ξ α) → Prop} (hx : x.Every P' Q)
    (hP : ∀ e, P' e → P e)
    (h : ∀ e r o, P' e → (∀ y, o = some y → Q y) → R e r o) : x.Sound P R := by
  induction x with
  | ret a => trivial
  | fail z => trivial
  | op e k ih =>
    exact ⟨hP e hx.1, fun r => ⟨h e r _ hx.1 fun y => (hx.2 r).result, ih r (hx.2 r)⟩⟩

theorem Prog.Sound.bind {R : (e : ε) → ρ e → Option (Except ξ α) → Prop}
    {R' : (e : ε) → ρ e → Option (Except ξ β) → Prop} {f : α → Prog ε ρ ξ β}
    (hx : x.Sound P R) (hf : ∀ a, (f a).Sound P R')
    (hret : ∀ e r a, R e r (some (.ok a)) → R' e r (f a).result?)
    (hfail : ∀ e r z, R e r (some (.error z)) → R' e r (some (.error z)))
    (hgo : ∀ e r, R e r none → R' e r none) : (x.bind f).Sound P R' := by
  induction x with
  | ret a => exact hf a
  | fail z => trivial
  | op e k ih =>
    refine ⟨hx.1, fun r => ⟨?_, ih r (hx.2 r).2⟩⟩
    have hend := (hx.2 r).1
    change R' e r ((k r).bind f).result?
    cases hk : k r with
    | ret a => exact hret e r a (by rwa [hk] at hend)
    | fail z => exact hfail e r z (by rwa [hk] at hend)
    | op e' k' => exact hgo e r (by rwa [hk] at hend)

/-! ## Pools -/

/-- A shared store and the workers, each idle or inside a call. -/
structure Pool (ω ι ε : Type) (ρ : ε → Type) (ξ α σ : Type) where
  store : σ
  active : ω → Option (ι × Prog ε ρ ξ α)

inductive Move (ω ι : Type)
  | call (w : ω) (i : ι)
  | resume (w : ω)

/-- What a step shows: the call, the operation with its answer, and the result if the call ends. -/
structure Shown (ι ε : Type) (ρ : ε → Type) (ξ α : Type) where
  call : ι
  op : Option ((e : ε) × ρ e)
  result : Option (Except ξ α)

variable {ω ι σ : Type}

def Pool.start (s : σ) : Pool ω ι ε ρ ξ α σ := ⟨s, fun _ => none⟩

variable [DecidableEq ω]

/-- The worker goes on with the program, or is idle again when it has ended. -/
def Pool.proceed (p : Pool ω ι ε ρ ξ α σ) (w : ω) (i : ι) (op : Option ((e : ε) × ρ e))
    (x : Prog ε ρ ξ α) : Pool ω ι ε ρ ξ α σ × Option (Shown ι ε ρ ξ α) :=
  ({ p with active := Function.update p.active w (if x.result?.isSome then none else some (i, x)) },
    some ⟨i, op, x.result?⟩)

/-- One step. A worker that is inside a call cannot start another one. -/
def Pool.step (sem : (e : ε) → σ → σ × ρ e) (methods : ι → Prog ε ρ ξ α) (_now : Nat)
    (m : Move ω ι) (p : Pool ω ι ε ρ ξ α σ) : Pool ω ι ε ρ ξ α σ × Option (Shown ι ε ρ ξ α) :=
  match m with
  | .call w i =>
    match p.active w with
    | none => p.proceed w i none (methods i)
    | some _ => (p, none)
  | .resume w =>
    match p.active w with
    | some (i, .op e k) =>
      let (store, r) := sem e p.store
      { p with store }.proceed w i (some ⟨e, r⟩) (k r)
    | _ => (p, none)

theorem Pool.step_store (sem : (e : ε) → σ → σ × ρ e) (methods : ι → Prog ε ρ ξ α) (now : Nat)
    (m : Move ω ι) (p : Pool ω ι ε ρ ξ α σ) :
    ((Pool.step sem methods now m p).1.store = p.store ∧
      ∀ shown, (Pool.step sem methods now m p).2 = some shown → shown.op = none) ∨
    ∃ i e result, (Pool.step sem methods now m p).1.store = (sem e p.store).1 ∧
      (Pool.step sem methods now m p).2 = some ⟨i, some ⟨e, (sem e p.store).2⟩, result⟩ := by
  cases m with
  | call w i =>
    left
    simp only [Pool.step]
    split
    · refine ⟨rfl, ?_⟩
      rintro shown ⟨⟩
      rfl
    · refine ⟨rfl, ?_⟩
      rintro shown ⟨⟩
  | resume w =>
    simp only [Pool.step]
    split
    · next i e k hw => exact .inr ⟨i, e, _, rfl, rfl⟩
    · refine .inl ⟨rfl, ?_⟩
      rintro shown ⟨⟩

theorem Pool.step_shown {sem : (e : ε) → σ → σ × ρ e} {methods : ι → Prog ε ρ ξ α} {now : Nat}
    {m : Move ω ι} {p : Pool ω ι ε ρ ξ α σ} {i : ι} {e : ε} {r : ρ e} {result : Option (Except ξ α)}
    (h : (Pool.step sem methods now m p).2 = some ⟨i, some ⟨e, r⟩, result⟩) :
    (Pool.step sem methods now m p).1.store = (sem e p.store).1 ∧ (sem e p.store).2 = r := by
  rcases Pool.step_store sem methods now m p with ⟨-, hnone⟩ | ⟨i', e', result', hstore, hshown⟩
  · cases hnone _ h
  · rw [hshown] at h
    cases h
    exact ⟨hstore, rfl⟩

abbrev PoolEntry (ω ι ε : Type) (ρ : ε → Type) (ξ α : Type) :=
  Entry (Move ω ι) (Option (Shown ι ε ρ ξ α))

section Runs

variable {sem : (e : ε) → σ → σ × ρ e} {methods : ι → Prog ε ρ ξ α} {C : ι → Prop}
  {P : ι → ε → Prop} {R : ι → (e : ε) → ρ e → Option (Except ξ α) → Prop}

/-- Every worker is inside an accepted call with a sound program. -/
def Pool.Sound (C : ι → Prop) (P : ι → ε → Prop)
    (R : ι → (e : ε) → ρ e → Option (Except ξ α) → Prop) (p : Pool ω ι ε ρ ξ α σ) : Prop :=
  ∀ w i x, p.active w = some (i, x) → C i ∧ x.Sound (P i) (R i)

omit [DecidableEq ω] in
theorem Pool.sound_start (s : σ) : (Pool.start s : Pool ω ι ε ρ ξ α σ).Sound C P R := by
  intro w i x hw
  simp [Pool.start] at hw

variable {p : Pool ω ι ε ρ ξ α σ}

theorem Pool.Sound.proceed (hp : p.Sound C P R) (w : ω) {i : ι}
    (op : Option ((e : ε) × ρ e)) {x : Prog ε ρ ξ α} (hi : C i) (hx : x.Sound (P i) (R i)) :
    (p.proceed w i op x).1.Sound C P R := by
  intro w' i' x' hw'
  by_cases hw : w' = w
  · subst hw
    simp only [Pool.proceed, Function.update_self] at hw'
    split at hw'
    · simp at hw'
    · simp only [Option.some.injEq, Prod.mk.injEq] at hw'
      obtain ⟨rfl, rfl⟩ := hw'
      exact ⟨hi, hx⟩
  · simp only [Pool.proceed, Function.update_of_ne hw] at hw'
    exact hp w' i' x' hw'

/-- What one step of a sound pool does to the store, and what it shows. -/
inductive Pool.Effect (sem : (e : ε) → σ → σ × ρ e) (methods : ι → Prog ε ρ ξ α) (C : ι → Prop)
    (P : ι → ε → Prop) (R : ι → (e : ε) → ρ e → Option (Except ξ α) → Prop) (s s' : σ) :
    Option (Shown ι ε ρ ξ α) → Prop
  | idle (store : s' = s) : Effect sem methods C P R s s' none
  | starts (i : ι) (store : s' = s) (accepted : C i) :
    Effect sem methods C P R s s' (some ⟨i, none, (methods i).result?⟩)
  | performs (i : ι) (e : ε) (result : Option (Except ξ α)) (store : s' = (sem e s).1)
      (accepted : C i) (op : P i e) (answer : R i e (sem e s).2 result) :
    Effect sem methods C P R s s' (some ⟨i, some ⟨e, (sem e s).2⟩, result⟩)

theorem Pool.step_effect (hmethods : ∀ i, C i → (methods i).Sound (P i) (R i))
    (hp : p.Sound C P R) (now : Nat) {m : Move ω ι}
    (hm : ∀ w i, m = .call w i → C i) :
    Pool.Effect sem methods C P R p.store (Pool.step sem methods now m p).1.store
        (Pool.step sem methods now m p).2 ∧
      (Pool.step sem methods now m p).1.Sound C P R := by
  cases m with
  | call w i =>
    simp only [Pool.step]
    split
    · exact ⟨.starts i rfl (hm w i rfl), hp.proceed w none (hm w i rfl) (hmethods i (hm w i rfl))⟩
    · exact ⟨.idle rfl, hp⟩
  | resume w =>
    simp only [Pool.step]
    split
    · next i e k hw =>
      obtain ⟨hi, hop, hk⟩ := hp w i _ hw
      refine ⟨.performs i e _ rfl hi hop (hk _).1, ?_⟩
      have hstore : Pool.Sound C P R { p with store := (sem e p.store).1 } := hp
      exact hstore.proceed w _ hi (hk _).2
    · exact ⟨.idle rfl, hp⟩

variable {ok : List (PoolEntry ω ι ε ρ ξ α) → Nat → Move ω ι → Prop} {s₀ : σ}

variable {h : List (PoolEntry ω ι ε ρ ξ α)}

theorem Pool.run_sound (hmethods : ∀ i, C i → (methods i).Sound (P i) (R i))
    (hok : ∀ h t w i, ok h t (.call w i) → C i) {t : Nat}
    (hr : Run (Pool.step sem methods) ok (Pool.start s₀) h t p) :
    p.Sound C P R := by
  refine hr.invariant (fun _ _ p => p.Sound C P R) (Pool.sound_start s₀) (fun _ _ _ _ hp _ => hp) ?_
  intro h t p m hp hm
  exact (Pool.step_effect hmethods hp t fun w i he => hok h t w i (he ▸ hm)).2

theorem Pool.run_effect (hmethods : ∀ i, C i → (methods i).Sound (P i) (R i))
    (hok : ∀ h t w i, ok h t (.call w i) → C i) {t : Nat}
    (hr : Run (Pool.step sem methods) ok (Pool.start s₀) h t p)
    (now : Nat) {m : Move ω ι} (hm : ok h now m) :
    Pool.Effect sem methods C P R p.store (Pool.step sem methods now m p).1.store
      (Pool.step sem methods now m p).2 :=
  (Pool.step_effect hmethods (Pool.run_sound hmethods hok hr) now
    fun w i he => hok h now w i (he ▸ hm)).1

theorem Pool.run_since (I : List (PoolEntry ω ι ε ρ ξ α) → σ → Prop)
    (hmethods : ∀ i, C i → (methods i).Sound (P i) (R i))
    (hok : ∀ h t w i, ok h t (.call w i) → C i)
    (hstep : ∀ h x s s', I h s → Pool.Effect sem methods C P R s s' x.reply → I (h ++ [x]) s')
    {h₁ h₂ : List (PoolEntry ω ι ε ρ ξ α)} {t : Nat}
    (hinit : ∀ t₁ p₁, Run (Pool.step sem methods) ok (Pool.start s₀) h₁ t₁ p₁ → I h₁ p₁.store)
    (hr : Run (Pool.step sem methods) ok (Pool.start s₀) (h₁ ++ h₂) t p) :
    I (h₁ ++ h₂) p.store := by
  refine Run.since (fun h _ p => I h p.store) hinit (fun _ _ _ _ hi _ => by exact hi) ?_ hr
  intro h _ t p m hr _ hi hm
  exact hstep h _ p.store _ hi (Pool.run_effect hmethods hok hr t hm)

theorem Pool.run_invariant (I : List (PoolEntry ω ι ε ρ ξ α) → σ → Prop)
    (hmethods : ∀ i, C i → (methods i).Sound (P i) (R i))
    (hok : ∀ h t w i, ok h t (.call w i) → C i) (hinit : I [] s₀)
    (hstep : ∀ h x s s', I h s → Pool.Effect sem methods C P R s s' x.reply → I (h ++ [x]) s')
    {t : Nat}
    (hr : Run (Pool.step sem methods) ok (Pool.start s₀) h t p) : I h p.store := by
  rw [← List.nil_append h] at hr ⊢
  refine Pool.run_since I hmethods hok hstep (fun t₁ p₁ hr₁ => ?_) hr
  rw [hr₁.nil_inv.2]
  exact hinit

end Runs

end Maxim.Library
