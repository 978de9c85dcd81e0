import Mathlib.Data.List.Induction
import Mathlib.Order.Basic

/-!
# Runs of a component that answers dated requests

A component reads the clock once, changes its state and answers, all in one
indivisible step. A run is any finite sequence of such steps under a clock
that never goes back. The history keeps every request with its date and its
answer, oldest first, so that a statement about the order of two requests is a
statement about a list.
-/

namespace Maxim.Library

/-- One request, its date and its answer. -/
structure Entry (ι ο : Type) where
  now : Nat
  request : ι
  reply : ο

variable {σ ι ο : Type}

/-- `Run step ok s₀ h t s`: the requests of `h`, asked in this order from `s₀`,
leave the state `s` at clock `t`. `ok` is what the callers promise about the
next request, given everything asked before it. -/
inductive Run (step : Nat → ι → σ → σ × ο) (ok : List (Entry ι ο) → Nat → ι → Prop) (s₀ : σ) :
    List (Entry ι ο) → Nat → σ → Prop
  | nil : Run step ok s₀ [] 0 s₀
  | snoc {h : List (Entry ι ο)} {t : Nat} {s : σ} (now : Nat) (i : ι) :
      Run step ok s₀ h t s → t ≤ now → ok h now i →
      Run step ok s₀ (h ++ [⟨now, i, (step now i s).2⟩]) now (step now i s).1

variable {step : Nat → ι → σ → σ × ο} {ok : List (Entry ι ο) → Nat → ι → Prop} {s₀ : σ}

variable {t : Nat} {s : σ}

theorem Run.nil_inv (h : Run step ok s₀ [] t s) : t = 0 ∧ s = s₀ := by
  generalize he : ([] : List (Entry ι ο)) = l at h
  cases h with
  | nil => exact ⟨rfl, rfl⟩
  | snoc => simp at he

variable {h : List (Entry ι ο)}

theorem Run.mono {ok' : List (Entry ι ο) → Nat → ι → Prop} (hok : ∀ h t i, ok h t i → ok' h t i)
    (hr : Run step ok s₀ h t s) :
    Run step ok' s₀ h t s := by
  induction hr with
  | nil => exact .nil
  | snoc now i _ hle hi ih => exact .snoc now i ih hle (hok _ _ _ hi)

theorem Run.restrictAt {P : Nat → ι → Prop}
    (hr : Run step ok s₀ h t s) (hP : ∀ e ∈ h, P e.now e.request) :
    Run step (fun h t i => ok h t i ∧ P t i) s₀ h t s := by
  induction hr with
  | nil => exact .nil
  | snoc now i _ hle hi ih =>
    refine .snoc now i (ih fun e he => hP e (List.mem_append_left _ he)) hle ⟨hi, ?_⟩
    exact hP ⟨now, i, _⟩ (List.mem_append_right _ (List.mem_singleton.mpr rfl))

theorem Run.restrict {P : ι → Prop}
    (hr : Run step ok s₀ h t s) (hP : ∀ e ∈ h, P e.request) :
    Run step (fun h t i => ok h t i ∧ P i) s₀ h t s := hr.restrictAt hP

theorem Run.snoc_inv {e : Entry ι ο}
    (hr : Run step ok s₀ (h ++ [e]) t s) :
    ∃ t₁ s₁, Run step ok s₀ h t₁ s₁ ∧ t₁ ≤ e.now ∧ ok h e.now e.request ∧ t = e.now ∧
      e.reply = (step e.now e.request s₁).2 ∧ s = (step e.now e.request s₁).1 := by
  generalize he : h ++ [e] = l at hr
  cases hr with
  | nil => simp at he
  | @snoc h' t₁ s₁ _ i hr hle hok =>
    obtain ⟨rfl, hlast⟩ := List.append_inj' he rfl
    rw [List.cons.injEq] at hlast
    obtain ⟨rfl, -⟩ := hlast
    exact ⟨t₁, s₁, hr, hle, hok, rfl, rfl, rfl⟩

theorem Run.of_append {h₁ h₂ : List (Entry ι ο)}
    (hr : Run step ok s₀ (h₁ ++ h₂) t s) : ∃ t₁ s₁, Run step ok s₀ h₁ t₁ s₁ ∧ t₁ ≤ t := by
  induction h₂ using List.reverseRecOn generalizing t s with
  | nil => exact ⟨t, s, by simpa using hr, Nat.le_refl t⟩
  | append_singleton h₂ e ih =>
    rw [← List.append_assoc] at hr
    obtain ⟨t₂, s₂, hr', hle, -, rfl, -⟩ := hr.snoc_inv
    obtain ⟨t₁, s₁, h₁, hle₁⟩ := ih hr'
    exact ⟨t₁, s₁, h₁, by omega⟩

theorem Run.now_le (hr : Run step ok s₀ h t s) :
    ∀ e ∈ h, e.now ≤ t := by
  induction hr with
  | nil => simp
  | snoc now i _ hle _ ih =>
    intro e he
    rcases List.mem_append.mp he with he | he
    · exact Nat.le_trans (ih e he) hle
    · exact Nat.le_of_eq (congrArg Entry.now (List.mem_singleton.mp he))

theorem Run.pairwise_now (hr : Run step ok s₀ h t s) :
    h.Pairwise (·.now ≤ ·.now) := by
  induction hr with
  | nil => exact .nil
  | snoc now i hr hle _ ih =>
    refine List.pairwise_append.mpr ⟨ih, List.pairwise_singleton _ _, ?_⟩
    intro e he x hx
    rw [List.mem_singleton.mp hx]
    exact Nat.le_trans (hr.now_le e he) hle

theorem Run.unique {t' : Nat} {s' : σ} (hr : Run step ok s₀ h t s)
    (hr' : Run step ok s₀ h t' s') : t' = t ∧ s' = s := by
  induction hr generalizing t' s' with
  | nil => exact hr'.nil_inv
  | snoc now i hr hle hok ih =>
    obtain ⟨t₁, s₁, hr₁, -, -, rfl, -, rfl⟩ := hr'.snoc_inv
    rw [(ih hr₁).2]
    exact ⟨rfl, rfl⟩

theorem Run.invariant (I : List (Entry ι ο) → Nat → σ → Prop) (hinit : I [] 0 s₀)
    (hclock : ∀ h t t' s, I h t s → t ≤ t' → I h t' s)
    (hstep : ∀ h t s i, I h t s → ok h t i → I (h ++ [⟨t, i, (step t i s).2⟩]) t (step t i s).1)
    (hr : Run step ok s₀ h t s) : I h t s := by
  induction hr with
  | nil => exact hinit
  | snoc _ _ _ hle hok ih => exact hstep _ _ _ _ (hclock _ _ _ _ ih hle) hok

theorem Run.since (Q : List (Entry ι ο) → Nat → σ → Prop) {pre post : List (Entry ι ο)}
    (hpre : ∀ t s, Run step ok s₀ pre t s → Q pre t s)
    (hclock : ∀ h t t' s, Q h t s → t ≤ t' → Q h t' s)
    (hstep : ∀ h t₀ t s i, Run step ok s₀ h t₀ s → t₀ ≤ t → Q h t s → ok h t i →
      Q (h ++ [⟨t, i, (step t i s).2⟩]) t (step t i s).1)
    {t : Nat} {s : σ} (hr : Run step ok s₀ (pre ++ post) t s) : Q (pre ++ post) t s := by
  induction post using List.reverseRecOn generalizing t s with
  | nil => rw [List.append_nil] at hr ⊢; exact hpre t s hr
  | append_singleton post e ih =>
    rw [← List.append_assoc] at hr ⊢
    obtain ⟨t₁, s₁, hr', hle, hok, rfl, hrep, rfl⟩ := hr.snoc_inv
    have hq := hstep _ t₁ e.now s₁ e.request hr' hle (hclock _ _ _ _ (ih hr') hle) hok
    rwa [← hrep] at hq

/-! ## The states of a history -/

def replay (step : Nat → ι → σ → σ × ο) (s₀ : σ) (h : List (Entry ι ο)) : σ :=
  h.foldl (fun s e => (step e.now e.request s).1) s₀

theorem replay_snoc (h : List (Entry ι ο)) (e : Entry ι ο) :
    replay step s₀ (h ++ [e]) = (step e.now e.request (replay step s₀ h)).1 := by
  simp [replay, List.foldl_append]

theorem Run.replay_eq (hr : Run step ok s₀ h t s) :
    replay step s₀ h = s := by
  induction hr with
  | nil => rfl
  | snoc now i _ _ _ ih => rw [replay_snoc, ih]

def play (step : Nat → ι → σ → σ × ο) (s₀ : σ) (asks : List (Nat × ι)) : List (Entry ι ο) × σ :=
  asks.foldl (fun q a => (q.1 ++ [⟨a.1, a.2, (step a.1 a.2 q.2).2⟩], (step a.1 a.2 q.2).1)) ([], s₀)

theorem play_snoc (asks : List (Nat × ι)) (a : Nat × ι) :
    play step s₀ (asks ++ [a]) =
      ((play step s₀ asks).1 ++ [⟨a.1, a.2, (step a.1 a.2 (play step s₀ asks).2).2⟩],
        (step a.1 a.2 (play step s₀ asks).2).1) := by
  simp [play, List.foldl_append]

/-- Every request of the second list keeps the promise, given everything before it. -/
def Accepted (step : Nat → ι → σ → σ × ο) (ok : List (Entry ι ο) → Nat → ι → Prop) (s₀ : σ) :
    List (Nat × ι) → List (Nat × ι) → Prop
  | _, [] => True
  | pre, a :: post => ok (play step s₀ pre).1 a.1 a.2 ∧ Accepted step ok s₀ (pre ++ [a]) post

theorem accepted_of_forall (hok : ∀ h t i, ok h t i) (pre post : List (Nat × ι)) :
    Accepted step ok s₀ pre post := by
  induction post generalizing pre with
  | nil => trivial
  | cons a post ih => exact ⟨hok _ _ _, ih _⟩

theorem run_play {asks : List (Nat × ι)} (hclock : (asks.map Prod.fst).Pairwise (· ≤ ·))
    (hok : Accepted step ok s₀ [] asks) :
    ∃ t, Run step ok s₀ (play step s₀ asks).1 t (play step s₀ asks).2 := by
  have hrun : ∀ (post pre : List (Nat × ι)) (t : Nat),
      Run step ok s₀ (play step s₀ pre).1 t (play step s₀ pre).2 → (∀ a ∈ post, t ≤ a.1) →
      (post.map Prod.fst).Pairwise (· ≤ ·) → Accepted step ok s₀ pre post →
      ∃ t, Run step ok s₀ (play step s₀ (pre ++ post)).1 t (play step s₀ (pre ++ post)).2 := by
    intro post
    induction post with
    | nil => exact fun pre t hr _ _ _ => ⟨t, by simpa using hr⟩
    | cons a post ih =>
      intro pre t hr hle hsorted hacc
      rw [List.map_cons, List.pairwise_cons] at hsorted
      have hnext := hr.snoc a.1 a.2 (hle a List.mem_cons_self) hacc.1
      have hdone := ih (pre ++ [a]) a.1 (by rwa [play_snoc])
        (fun b hb => hsorted.1 b.1 (List.mem_map_of_mem hb)) hsorted.2 hacc.2
      rwa [List.append_assoc, List.singleton_append] at hdone
  exact hrun asks [] 0 .nil (fun _ _ => Nat.zero_le _) hclock hok

/-- `P` holds of some entry of `post`, given everything before it. -/
def Sometime {ε : Type} (P : List ε → ε → Prop) (pre post : List ε) : Prop :=
  ∃ l e r, post = l ++ e :: r ∧ P (pre ++ l) e

theorem sometime_snoc {ε : Type} {P : List ε → ε → Prop} {pre post : List ε} {e : ε} :
    Sometime P pre (post ++ [e]) ↔ Sometime P pre post ∨ P (pre ++ post) e := by
  constructor
  · rintro ⟨l, x, r, he, hx⟩
    rcases List.eq_nil_or_concat r with rfl | ⟨r, z, rfl⟩
    · obtain ⟨rfl, hlast⟩ := List.append_inj' he rfl
      exact .inr (List.singleton_inj.mp hlast ▸ hx)
    · rw [List.concat_eq_append, ← List.cons_append, ← List.append_assoc,
        List.append_singleton_inj] at he
      obtain ⟨rfl, rfl⟩ := he
      exact .inl ⟨l, x, r, rfl, hx⟩
  · rintro (⟨l, x, r, rfl, hx⟩ | hx)
    · exact ⟨l, x, r ++ [e], by simp, hx⟩
    · exact ⟨post, e, [], rfl, hx⟩

theorem not_sometime_nil {ε : Type} {P : List ε → ε → Prop} {pre : List ε} : ¬Sometime P pre [] := by
  rintro ⟨l, e, r, he, -⟩
  simp at he

theorem sometime_cons {ε : Type} {P : List ε → ε → Prop} {pre post : List ε} {e : ε} :
    Sometime P pre (e :: post) ↔ P pre e ∨ Sometime P (pre ++ [e]) post := by
  constructor
  · rintro ⟨l, x, r, he, hx⟩
    cases l with
    | nil =>
      obtain ⟨rfl, -⟩ := List.cons.inj he
      exact .inl (by simpa using hx)
    | cons y l =>
      obtain ⟨rfl, rfl⟩ := List.cons.inj he
      exact .inr ⟨l, x, r, rfl, by simpa using hx⟩
  · rintro (hx | ⟨l, x, r, rfl, hx⟩)
    · exact ⟨[], e, post, rfl, by simpa using hx⟩
    · exact ⟨e :: l, x, r, rfl, by simpa using hx⟩

theorem Run.unless (Q : σ → Prop) (P : List (Entry ι ο) → Entry ι ο → Prop)
    {pre post : List (Entry ι ο)} (hpre : ∀ t s, Run step ok s₀ pre t s → Q s)
    (hstep : ∀ h t s i, Run step ok s₀ h t s → Q s → ∀ now, t ≤ now →
      P h ⟨now, i, (step now i s).2⟩ ∨ Q (step now i s).1)
    (hr : Run step ok s₀ (pre ++ post) t s) : Sometime P pre post ∨ Q s := by
  induction post using List.reverseRecOn generalizing t s with
  | nil => exact .inr (hpre t s (by simpa using hr))
  | append_singleton post e ih =>
    rw [← List.append_assoc] at hr
    obtain ⟨t₁, s₁, hr', hle, -, rfl, hrep, rfl⟩ := hr.snoc_inv
    rcases ih hr' with hp | hq
    · exact .inl (sometime_snoc.mpr (.inl hp))
    · refine (hstep _ t₁ s₁ e.request hr' hq e.now hle).imp_left fun hp => ?_
      rw [← hrep] at hp
      exact sometime_snoc.mpr (.inr hp)

theorem splits_take {α : Type} {P : List α → α → Prop} {l : List α}
    (hl : ∀ n (hn : n < l.length), P (l.take n) (l[n])) (h₁ : List α) (x : α) (h₂ : List α)
    (he : l = h₁ ++ x :: h₂) : P h₁ x := by
  subst he
  have hn : h₁.length < (h₁ ++ x :: h₂).length := by simp
  simpa using hl h₁.length hn

theorem eq_take_cons_drop {α : Type} {l : List α} {n : Nat} {x : α} (hx : l[n]? = some x) :
    l = l.take n ++ x :: l.drop (n + 1) := by
  obtain ⟨hn, rfl⟩ := List.getElem?_eq_some_iff.mp hx
  rw [← List.drop_eq_getElem_cons hn, List.take_append_drop]

/-! ## What a history has left open -/

/-- Some entry satisfies `P`, and no entry after it satisfies `Q`. -/
def Pending {ε : Type} (P Q : ε → Prop) (h : List ε) : Prop :=
  ∃ h₁ x h₂, h = h₁ ++ x :: h₂ ∧ P x ∧ ∀ z ∈ h₂, ¬Q z

section Pending

variable {ε : Type} {P Q : ε → Prop}

theorem not_pending_nil : ¬Pending P Q [] := by
  rintro ⟨h₁, x, h₂, he, -⟩
  simp at he

theorem pending_snoc {h : List ε} {x : ε} :
    Pending P Q (h ++ [x]) ↔ P x ∨ Pending P Q h ∧ ¬Q x := by
  constructor
  · rintro ⟨h₁, y, h₂, he, hy, hq⟩
    rcases List.eq_nil_or_concat h₂ with rfl | ⟨h₂, z, rfl⟩
    · obtain ⟨-, hlast⟩ := List.append_inj' he rfl
      exact .inl (List.singleton_inj.mp hlast ▸ hy)
    · rw [List.concat_eq_append, ← List.cons_append, ← List.append_assoc,
        List.append_singleton_inj] at he
      obtain ⟨rfl, rfl⟩ := he
      exact .inr ⟨⟨h₁, y, h₂, rfl, hy, fun w hw => hq w (by simp [hw])⟩, hq x (by simp)⟩
  · rintro (hx | ⟨⟨h₁, y, h₂, rfl, hy, hq⟩, hx⟩)
    · exact ⟨h, x, [], rfl, hx, by simp⟩
    · refine ⟨h₁, y, h₂ ++ [x], by simp, hy, fun w hw => ?_⟩
      rcases List.mem_append.mp hw with hw | hw
      · exact hq w hw
      · rwa [List.mem_singleton.mp hw]

theorem Pending.snoc {h : List ε} {x : ε} (hp : Pending P Q h) (hx : ¬Q x) :
    Pending P Q (h ++ [x]) := pending_snoc.mpr (.inr ⟨hp, hx⟩)

theorem pending_or {Q' : ε → Prop} {h : List ε} (hq : Pending P Q h) (hq' : Pending P Q' h) :
    Pending P (fun x => Q x ∨ Q' x) h := by
  induction h using List.reverseRecOn with
  | nil => exact absurd hq not_pending_nil
  | append_singleton h x ih =>
    rw [pending_snoc] at hq hq' ⊢
    rcases hq with hx | ⟨hq, hx⟩
    · exact .inl hx
    · rcases hq' with hx' | ⟨hq', hx'⟩
      · exact .inl hx'
      · exact .inr ⟨ih hq hq', fun hor => hor.elim hx hx'⟩

end Pending

end Maxim.Library
