import Maxim.Moderation.MessageDuplicate.Flags
import Mathlib.Data.Finset.Card
import Mathlib.Data.Finset.Dedup

/-!
# Every violator is counted once

A counter belongs to an author, a fingerprint, an original and an epoch. Its
flags, its records and the answers of a history agree, so that the counter holds
the number of members that were counted.
-/

namespace Maxim.Moderation.MessageDuplicate

open Maxim.Library

variable {δ : Type} [DecidableEq δ] {now t : Nat} {p : Check δ} {s s' : Store δ} {c : Call δ}
  {state st : Message δ} {m : Match δ} {h : List (Event δ)} {e : Event δ}

/-! ## Violators -/

/-- What a counter is about, with the mode that its fingerprint belongs to. -/
structure Violation (δ : Type) where
  mode : Mode
  author : δ
  fingerprint : δ
  originalId : δ
  originalEpoch : Nat
  epoch : Nat
  allowed : Nat

namespace Violation

def counter (v : Violation δ) : CounterKey δ where
  author := v.author
  fingerprint := v.fingerprint
  originalId := v.originalId
  originalEpoch := v.originalEpoch
  epoch := v.epoch

/-- The binding refers to the original, and the author is in the epoch. -/
def Concerns (v : Violation δ) (s : Store δ) (p : Check δ) : Prop :=
  p.author = v.author ∧ p.fingerprint = v.fingerprint ∧ p.original.originalId = v.originalId ∧
    p.original.epoch = v.originalEpoch ∧ s.epoch v.author = v.epoch

instance (v : Violation δ) (s : Store δ) (p : Check δ) : Decidable (v.Concerns s p) :=
  inferInstanceAs (Decidable (_ ∧ _))

/-- The member and the count of a qualification that is answered. -/
def answered (v : Violation δ) (s : Store δ) (e : Event δ) : Option (δ × Option Nat) :=
  match e.request.request with
  | .qualify p =>
    if v.Concerns (s.purge e.now) p ∧ e.reply.kind = .ok then some (p.member, e.reply.count) else none
  | _ => none

def log (v : Violation δ) : Store δ → List (Event δ) → List (δ × Option Nat)
  | _, [] => []
  | s, e :: h => (v.answered s e).toList ++ v.log (step e.now e.request s).1 h

def violators (v : Violation δ) (s : Store δ) (h : List (Event δ)) : Finset δ :=
  ((v.log s h).map Prod.fst).toFinset

/-- The callers name the sender of a message, and for the fingerprint its mode and the allowance. -/
structure Promised (v : Violation δ) (sender : δ → δ) (r : Request δ) : Prop where
  author : ∀ p, r = .qualify p → p.author = sender p.member
  mode : ∀ p, r = .qualify p → p.fingerprint = v.fingerprint → p.mode = v.mode
  allowed : ∀ p, r = .qualify p → p.fingerprint = v.fingerprint → p.allowed = v.allowed

/-- The member has been answered, and its message has not been observed since. -/
def Stands (v : Violation δ) (s₀ : Store δ) (h : List (Event δ)) (member : δ) : Prop :=
  ∃ pre e post n, h = pre ++ e :: post ∧ v.answered (replay step s₀ pre) e = some (member, n) ∧
    ∀ e' ∈ post, ∀ q, e'.request.request = .observe q → q.member ≠ member

def Relates (v : Violation δ) (m : Match δ) : Prop :=
  m.fingerprint = v.fingerprint ∧ m.original.originalId = v.originalId ∧
    m.original.epoch = v.originalEpoch

/-- The counter, the flags of the matches and the answers of a history agree. -/
structure Counted (v : Violation δ) (sender : δ → δ) (s₀ : Store δ) (h : List (Event δ))
    (s : Store δ) : Prop where
  counter : ∀ d, content (s.count v.counter) = some d →
    d.qualified = min (20 - v.allowed) (v.violators s₀ h).card
  flagged : ∀ k st, content (s.message k) = some st → sender k.1 = v.author → st.epoch = v.epoch →
    ∀ m, st.Holds m → v.Relates m → ∀ n, m.qualified = some n → (k.1, some n) ∈ v.log s₀ h
  same : ∀ x n n', (x, n) ∈ v.log s₀ h → (x, n') ∈ v.log s₀ h → n = n'
  marked : ∀ x, v.Stands s₀ h x → ∀ st, content (s.message (x, v.mode)) = some st →
    ∀ m, st.matched.find? (fun m => decide (m.fingerprint = v.fingerprint)) = some m →
      m.qualified.isSome = true
  uniform : ∀ k st, content (s.message k) = some st → st.Uniform

variable {v : Violation δ} {sender : δ → δ} {s₀ : Store δ} {x member : δ} {n : Nat}

theorem log_snoc (v : Violation δ) (s₀ : Store δ) (h : List (Event δ)) (e : Event δ) :
    v.log s₀ (h ++ [e]) = v.log s₀ h ++ (v.answered (replay step s₀ h) e).toList := by
  induction h generalizing s₀ with
  | nil => simp [log, replay]
  | cons e' h ih =>
    rw [List.cons_append, log, log, ih, List.append_assoc]
    rfl

theorem mem_violators : x ∈ v.violators s₀ h ↔ ∃ n, (x, n) ∈ v.log s₀ h := by
  simp [violators]

omit [DecidableEq δ] in
theorem same_snoc {l : List (δ × Option Nat)} {member : δ} {a : Option Nat}
    (hsame : ∀ x n n', (x, n) ∈ l → (x, n') ∈ l → n = n') (hnew : ∀ n, (member, n) ∉ l) :
    ∀ x n n', (x, n) ∈ l ++ [(member, a)] → (x, n') ∈ l ++ [(member, a)] → n = n' := by
  intro x n₁ n₂ h₁ h₂
  rcases List.mem_append.mp h₁ with hold₁ | hlast₁ <;>
    rcases List.mem_append.mp h₂ with hold₂ | hlast₂
  · exact hsame x n₁ n₂ hold₁ hold₂
  · exact absurd ((Prod.mk.inj (List.mem_singleton.mp hlast₂)).1 ▸ hold₁) (hnew n₁)
  · exact absurd ((Prod.mk.inj (List.mem_singleton.mp hlast₁)).1 ▸ hold₂) (hnew n₂)
  · rw [(Prod.mk.inj (List.mem_singleton.mp hlast₁)).2,
      (Prod.mk.inj (List.mem_singleton.mp hlast₂)).2]

theorem violators_snoc (v : Violation δ) (s₀ : Store δ) (h : List (Event δ)) (e : Event δ) :
    v.violators s₀ (h ++ [e]) =
      match v.answered (replay step s₀ h) e with
      | some (x, _) => insert x (v.violators s₀ h)
      | none => v.violators s₀ h := by
  unfold violators
  rw [log_snoc]
  cases v.answered (replay step s₀ h) e with
  | none => simp
  | some a =>
    ext y
    simp

theorem stands_snoc (hs : v.Stands s₀ (h ++ [e]) x) :
    (∃ n, v.answered (replay step s₀ h) e = some (x, n)) ∨
      (v.Stands s₀ h x ∧ ∀ q, e.request.request = .observe q → q.member ≠ x) := by
  obtain ⟨pre, e₁, post, n, heq, hanswered, hpost⟩ := hs
  rcases List.eq_nil_or_concat post with rfl | ⟨post, e', rfl⟩
  · obtain ⟨rfl, hlast⟩ := List.append_inj' heq rfl
    rw [List.singleton_inj.mp hlast]
    exact .inl ⟨n, hanswered⟩
  · rw [List.concat_eq_append, ← List.cons_append, ← List.append_assoc,
      List.append_singleton_inj] at heq
    obtain ⟨rfl, rfl⟩ := heq
    simp only [List.concat_eq_append, List.mem_append, List.mem_singleton] at hpost
    exact .inr ⟨⟨pre, e₁, post, n, rfl, hanswered, fun e' he' => hpost e' (.inl he')⟩,
      hpost e (.inr rfl)⟩

/-! ## One step -/

theorem Counted.purge (hi : v.Counted sender s₀ h s) (now : Nat) :
    v.Counted sender s₀ h (s.purge now) :=
  ⟨fun d hd => hi.counter d (content_purge hd),
    fun k st hst => hi.flagged k st (content_purge hst), hi.same,
    fun x hx st hst => hi.marked x hx st (content_purge hst),
    fun k st hst => hi.uniform k st (content_purge hst)⟩

theorem Counted.read (hi : v.Counted sender s₀ h s)
    (hlive : v.violators s₀ h ≠ ∅ → (s.count v.counter).isSome = true) (accepted : Nat) :
    ((content (s.count v.counter)).getD ⟨accepted, 0⟩).qualified =
      min (20 - v.allowed) (v.violators s₀ h).card := by
  cases hd : content (s.count v.counter) with
  | some d => exact hi.counter d hd
  | none =>
    have hempty : v.violators s₀ h = ∅ := by
      by_contra hne
      obtain ⟨d, hd'⟩ := Option.isSome_iff_exists.mp (hlive hne)
      rw [hd'] at hd
      cases hd
    rw [hempty, Finset.card_empty, Nat.min_zero]
    rfl

theorem Counted.elsewhere (hi : v.Counted sender s₀ h s) (helse : Elsewhere e.request s s')
    (hlive : v.violators s₀ h ≠ ∅ → (s.count v.counter).isSome = true)
    (hanswered : v.answered (replay step s₀ h) e = none) : v.Counted sender s₀ (h ++ [e]) s' := by
  have hlog : v.log s₀ (h ++ [e]) = v.log s₀ h := by
    rw [log_snoc, hanswered, Option.toList_none, List.append_nil]
  have hviolators : v.violators s₀ (h ++ [e]) = v.violators s₀ h := by
    rw [violators, hlog, violators]
  constructor
  · intro d hd
    rw [helse.count _ d hd, hviolators]
    exact hi.read hlive 0
  · intro k st hst hsender hepoch m hm hrelates n hn
    rw [hlog]
    rcases helse.message k st hst with hold | ⟨q, -, rfl, hrebuilt⟩
    · exact hi.flagged k st hold hsender hepoch m hm hrelates n hn
    · rcases hrebuilt.carried m hm with hnone | ⟨st₀, hst₀, hepoch₀, hm₀⟩
      · rw [hnone] at hn
        cases hn
      · exact hi.flagged _ st₀ hst₀ hsender (hepoch₀.trans hepoch) m hm₀ hrelates n hn
  · rw [hlog]
    exact hi.same
  · intro x hx st hst
    rcases stands_snoc hx with ⟨n, hn⟩ | ⟨hstands, hother⟩
    · rw [hanswered] at hn
      cases hn
    · rcases helse.message _ st hst with hold | ⟨q, hq, hkey, -⟩
      · exact hi.marked x hstands st hold
      · exact absurd (congrArg Prod.fst hkey) (hother q hq)
  · intro k st hst
    rcases helse.message k st hst with hold | ⟨q, -, -, hrebuilt⟩
    · exact hi.uniform k st hold
    · exact hrebuilt.uniform

theorem Counted.again (hi : v.Counted sender s₀ h s)
    (hanswered : v.answered (replay step s₀ h) e = some (x, some n)) (hmem : (x, some n) ∈ v.log s₀ h)
    (hmarked : ∀ st, content (s.message (x, v.mode)) = some st →
      ∀ m, st.matched.find? (fun m => decide (m.fingerprint = v.fingerprint)) = some m →
        m.qualified.isSome = true) : v.Counted sender s₀ (h ++ [e]) s := by
  have hlog : v.log s₀ (h ++ [e]) = v.log s₀ h ++ [(x, some n)] := by
    rw [log_snoc, hanswered, Option.toList_some]
  have hviolators : v.violators s₀ (h ++ [e]) = v.violators s₀ h := by
    rw [violators_snoc, hanswered]
    exact Finset.insert_eq_of_mem (mem_violators.mpr ⟨_, hmem⟩)
  have hold : ∀ a, a ∈ v.log s₀ (h ++ [e]) → a ∈ v.log s₀ h := by
    intro a ha
    rw [hlog] at ha
    rcases List.mem_append.mp ha with ha | ha
    · exact ha
    · rwa [List.mem_singleton.mp ha]
  constructor
  · rw [hviolators]
    exact hi.counter
  · intro k st hst hsender hepoch m hm hrelates n' hn
    rw [hlog]
    exact List.mem_append_left _ (hi.flagged k st hst hsender hepoch m hm hrelates n' hn)
  · exact fun y n₁ n₂ h₁ h₂ => hi.same y n₁ n₂ (hold _ h₁) (hold _ h₂)
  · intro y hy
    rcases stands_snoc hy with ⟨n', hn⟩ | ⟨hstands, -⟩
    · rw [hanswered] at hn
      obtain ⟨rfl, -⟩ := Prod.mk.inj (Option.some.inj hn)
      exact hmarked
    · exact hi.marked y hstands
  · exact hi.uniform

omit [DecidableEq δ] in
theorem qualify_holds {selects : Match δ → Bool} (hm : (state.qualify selects n).Holds m) :
    state.Holds m ∨ ∃ m₀, state.matched.find? selects = some m₀ ∧ m = m₀.flag n := by
  rcases hm with hm | ⟨c, hc, hm⟩
  · exact (mem_modify_first hm).imp_left .inl
  · exact .inl (.inr ⟨c, hc, hm⟩)

theorem counting_message {reply : Result δ} {x y : Nat} {k : δ × Mode}
    (hc : Counting now p s s' reply m state n x y) (hst : content (s'.message k) = some st) :
    content (s.message k) = some st ∨
      (k = (p.member, p.mode) ∧ st = state.qualify (p.selects s) n) := by
  rw [hc.message, put_apply] at hst
  split at hst
  · next hk => exact .inr ⟨hk, content_rewrite hst⟩
  · exact .inl hst

theorem counterKey_eq (hm : p.selects s m = true) :
    s.counterKey p.author p.fingerprint m.original = v.counter ↔ v.Concerns s p := by
  obtain ⟨-, hid, hepoch⟩ := selects_spec hm
  unfold Store.counterKey counter Concerns
  rw [CounterKey.mk.injEq, hid, hepoch]
  constructor
  · rintro ⟨hauthor, hfp, horiginal, horiginalEpoch, hcurrent⟩
    exact ⟨hauthor, hfp, horiginal, horiginalEpoch, hauthor ▸ hcurrent⟩
  · rintro ⟨hauthor, hfp, horiginal, horiginalEpoch, hcurrent⟩
    exact ⟨hauthor, hfp, horiginal, horiginalEpoch, hauthor ▸ hcurrent⟩

theorem answered_qualify (hr : e.request.request = .qualify p) :
    v.answered s e = if v.Concerns (s.purge e.now) p ∧ e.reply.kind = .ok then
      some (p.member, e.reply.count) else none := by
  rw [answered, hr]

theorem counted_value (allowed card : Nat) :
    min (20 - allowed) (min (20 - allowed) card + 1) = min (20 - allowed) (card + 1) := by omega

section Counting

variable {x y : Nat} (hi : v.Counted sender s₀ h s) (hr : e.request.request = .qualify p)
  (hpromised : v.Promised sender (.qualify p))
  (hlive : v.violators s₀ h ≠ ∅ → (s.count v.counter).isSome = true)
  (hnew : v.Concerns s p → p.member ∉ v.violators s₀ h)
  (hc : Counting e.now p s s' e.reply m state n x y)
include hi hc

omit hi in
theorem counting_answered (hr : e.request.request = .qualify p)
    (hs : s = (replay step s₀ h).purge e.now) : v.answered (replay step s₀ h) e =
      if v.Concerns s p then some (p.member, some n) else none := by
  rw [answered_qualify hr, ← hs, hc.reply]
  simp [hc.kind]

include hpromised hlive hnew in
theorem counting_counter {d : Count} (hd : content (s'.count v.counter) = some d) :
    d.qualified = min (20 - v.allowed) (if v.Concerns s p then
      (insert p.member (v.violators s₀ h)).card else (v.violators s₀ h).card) := by
  obtain ⟨-, -, -, -, hm⟩ := matching_eq_some hc.matching
  rw [hc.count, put_apply] at hd
  by_cases hconcerns : v.Concerns s p
  · have hkey := (counterKey_eq hm).mpr hconcerns
    rw [if_pos hkey.symm] at hd
    obtain rfl := content_rewrite hd
    rw [if_pos hconcerns, Finset.card_insert_of_notMem (hnew hconcerns), Count.qualify, hkey,
      hi.read hlive, hpromised.allowed p rfl hconcerns.2.1, counted_value]
  · have hkey : v.counter ≠ s.counterKey p.author p.fingerprint m.original := fun heq =>
      hconcerns ((counterKey_eq hm).mp heq.symm)
    rw [if_neg hkey] at hd
    rw [if_neg hconcerns]
    exact hi.counter d hd

include hpromised in
theorem counting_flagged {k : δ × Mode} (hst : content (s'.message k) = some st)
    (hsender : sender k.1 = v.author) (hepoch : st.epoch = v.epoch) {m' : Match δ} (hm' : st.Holds m')
    (hrelates : v.Relates m') {n' : Nat} (hn : m'.qualified = some n') :
    (k.1, some n') ∈ v.log s₀ h ∨ (v.Concerns s p ∧ k.1 = p.member ∧ n' = n) := by
  obtain ⟨hstored, -, hcurrent, -, hm⟩ := matching_eq_some hc.matching
  rcases counting_message hc hst with hold | ⟨rfl, rfl⟩
  · exact .inl (hi.flagged k st hold hsender hepoch m' hm' hrelates n' hn)
  · rcases qualify_holds hm' with hheld | ⟨m₀, hm₀, rfl⟩
    · exact .inl (hi.flagged _ state hstored hsender hepoch m' hheld hrelates n' hn)
    · obtain rfl : m = m₀ := Option.some.inj ((matching_find hc.matching).symm.trans hm₀)
      obtain ⟨hfp, hid, horiginal⟩ := selects_spec hm
      have hauthor : p.author = v.author := (hpromised.author p rfl).trans hsender
      refine .inr ⟨⟨hauthor, hfp.symm.trans hrelates.1, hid.symm.trans hrelates.2.1,
        horiginal.symm.trans hrelates.2.2, ?_⟩, rfl, (Option.some.inj hn).symm⟩
      rw [← hauthor, ← hcurrent]
      exact hepoch

include hpromised in
theorem counting_marked (hconcerns : v.Concerns s p)
    (hst : content (s'.message (p.member, v.mode)) = some st) {m' : Match δ}
    (hm' : st.matched.find? (fun m => decide (m.fingerprint = v.fingerprint)) = some m') :
    m'.qualified.isSome = true := by
  have huniform : state.Uniform := hi.uniform _ state (matching_eq_some hc.matching).1
  rw [hc.message, ← hpromised.mode p rfl hconcerns.2.1, put_same] at hst
  obtain rfl := content_rewrite hst
  have hflagged : (state.qualify (p.selects s) n).matched.find? (p.selects s) = some (m.flag n) :=
    find?_modify_first (fun m' => selects_congr p s rfl rfl) (matching_find hc.matching)
  have hfirst := find?_selects (qualify_uniform huniform _ n) hflagged
  rw [hconcerns.2.1, hm'] at hfirst
  rw [Option.some.inj hfirst]
  rfl

theorem counting_marked_before (hstands : v.Stands s₀ h member)
    (hst : content (s'.message (member, v.mode)) = some st) {m' : Match δ}
    (hm' : st.matched.find? (fun m => decide (m.fingerprint = v.fingerprint)) = some m') :
    m'.qualified.isSome = true := by
  rcases counting_message hc hst with hold | ⟨hk, rfl⟩
  · exact hi.marked member hstands st hold m' hm'
  · obtain ⟨m₁, hm₁, rfl | rfl⟩ := find?_modify (g := fun m : Match δ => m.flag n) (fun _ => rfl) hm'
    · exact hi.marked member hstands state (hk ▸ (matching_eq_some hc.matching).1) m' hm₁
    · rfl

include hr hpromised hlive hnew in
theorem Counted.counting (hs : s = (replay step s₀ h).purge e.now) :
    v.Counted sender s₀ (h ++ [e]) s' := by
  have hanswered := counting_answered hc hr hs (v := v)
  have hlog : v.log s₀ (h ++ [e]) =
      v.log s₀ h ++ (if v.Concerns s p then some (p.member, some n) else none).toList := by
    rw [log_snoc, hanswered]
  constructor
  · intro d hd
    rw [counting_counter hi hpromised hlive hnew hc hd, violators_snoc, hanswered]
    split <;> rfl
  · intro k st hst hsender hepoch m' hm' hrelates n' hn
    rw [hlog]
    rcases counting_flagged hi hpromised hc hst hsender hepoch hm' hrelates hn with
      hold | ⟨hconcerns, hmember, rfl⟩
    · exact List.mem_append_left _ hold
    · rw [if_pos hconcerns, hmember]
      exact List.mem_append_right _ (List.mem_singleton.mpr rfl)
  · rw [hlog]
    split
    · next hconcerns =>
      exact same_snoc hi.same fun a ha => hnew hconcerns (mem_violators.mpr ⟨a, ha⟩)
    · rw [Option.toList_none, List.append_nil]
      exact hi.same
  · intro x hx st hst m' hm'
    rcases stands_snoc hx with ⟨n', hn⟩ | ⟨hstands, -⟩
    · rw [hanswered] at hn
      split at hn
      · next hconcerns =>
        obtain ⟨rfl, -⟩ := Prod.mk.inj (Option.some.inj hn)
        exact counting_marked hi hpromised hc hconcerns hst hm'
      · cases hn
    · exact counting_marked_before hi hc hstands hst hm'
  · intro k st hst
    rcases counting_message hc hst with hold | ⟨-, rfl⟩
    · exact hi.uniform k st hold
    · exact qualify_uniform (hi.uniform _ state (matching_eq_some hc.matching).1) _ n

end Counting

/-- What the callers promise about the next call, and the keys that must not have expired: the counter
once it counts, and the record of a counted member whose message has been observed again. -/
structure Intact (v : Violation δ) (sender : δ → δ) (s₀ : Store δ) (h : List (Event δ))
    (e : Event δ) : Prop where
  promised : v.Promised sender e.request.request
  counter : v.violators s₀ h ≠ ∅ →
    (((replay step s₀ h).purge e.now).count v.counter).isSome = true
  record : ∀ p, e.request.request = .qualify p → v.Concerns ((replay step s₀ h).purge e.now) p →
    p.member ∈ v.violators s₀ h → v.Stands s₀ h p.member ∨
      content (((replay step s₀ h).purge e.now).qualification p.member) = some v.epoch

/-- The call repeats a qualification: no key changes, the count is the one that was answered before,
and it is answered as long as the binding still stands. -/
structure Repeats (v : Violation δ) (s₀ : Store δ) (h : List (Event δ)) (e : Event δ) (p : Check δ) :
    Prop where
  store : (step e.now e.request (replay step s₀ h)).1 = (replay step s₀ h).purge e.now
  count : e.reply.kind = .ok → ∀ n, (p.member, n) ∈ v.log s₀ h → e.reply.count = n
  ok : v.Stands s₀ h p.member → e.now ≤ e.request.deadline →
    (matching p ((replay step s₀ h).purge e.now)).isSome = true → e.reply.kind = .ok

theorem qualify_flagged (now : Nat) (hm : matching p s = some (m, state)) (hn : m.qualified = some n) :
    qualify now p s = (s, { kind := .ok, count := some n }) := by
  unfold qualify
  rw [hm]
  dsimp only
  rw [hn]

theorem Counted.flag_of_stands (hi : v.Counted sender s₀ h s) (hconcerns : v.Concerns s p)
    (hpromised : v.Promised sender (.qualify p)) (hstands : v.Stands s₀ h p.member)
    (hm : matching p s = some (m, state)) : ∃ n, m.qualified = some n := by
  obtain ⟨hst, -⟩ := matching_eq_some hm
  rw [hpromised.mode p rfl hconcerns.2.1] at hst
  have hfirst := find?_selects (hi.uniform _ _ hst) (matching_find hm)
  rw [hconcerns.2.1] at hfirst
  exact Option.isSome_iff_exists.mp (hi.marked _ hstands state hst m hfirst)

theorem Counted.not_counting {x y : Nat} (hi : v.Counted sender s₀ h s)
    (hconcerns : v.Concerns s p) (hpromised : v.Promised sender (.qualify p))
    (hrecord : v.Stands s₀ h p.member ∨ content (s.qualification p.member) = some v.epoch)
    (hc : Counting now p s s' reply m state n x y) : False := by
  rcases hrecord with hstands | hrecord
  · obtain ⟨n', hn⟩ := hi.flag_of_stands hconcerns hpromised hstands hc.matching
    rw [hc.unflagged] at hn
    cases hn
  · refine hc.record ?_
    rw [hrecord, hconcerns.1, hconcerns.2.2.2.2]

theorem Counted.flag_logged (hi : v.Counted sender s₀ h s) (hconcerns : v.Concerns s p)
    (hpromised : v.Promised sender (.qualify p)) (hm : matching p s = some (m, state))
    (hn : m.qualified = some n) : (p.member, some n) ∈ v.log s₀ h := by
  obtain ⟨hst, -, hepoch, hmem, hselects⟩ := matching_eq_some hm
  obtain ⟨hfp, hid, horiginal⟩ := selects_spec hselects
  refine hi.flagged _ state hst ((hpromised.author p rfl).symm.trans hconcerns.1) ?_ m (.inl hmem)
    ⟨hfp.trans hconcerns.2.1, hid.trans hconcerns.2.2.1, horiginal.trans hconcerns.2.2.2.1⟩ n hn
  rw [hepoch, hconcerns.1, hconcerns.2.2.2.2]

omit [DecidableEq δ] in
theorem elsewhere_refl (s : Store δ) : Elsewhere c s s :=
  ⟨fun k d hd => by rw [hd]; rfl, fun _ _ hst => .inl hst⟩

/-- A call that is answered without a change. -/
theorem Counted.answer (hi : v.Counted sender s₀ h s) (hs : s = (replay step s₀ h).purge e.now)
    (hintact : v.Intact sender s₀ h e) (hr : e.request.request = .qualify p)
    (hstep : (step e.now e.request (replay step s₀ h)).1 = s)
    (hok : e.reply.kind = .ok → ∃ m state n, matching p s = some (m, state) ∧ m.qualified = some n ∧
      e.reply.count = some n)
    (hstands : v.Concerns s p → v.Stands s₀ h p.member → e.now ≤ e.request.deadline →
      (matching p s).isSome = true → e.reply.kind = .ok) :
    v.Counted sender s₀ (h ++ [e]) s ∧ (v.Concerns s p →
      (p.member ∈ v.violators s₀ h → v.Repeats s₀ h e p) ∧
      (p.member ∉ v.violators s₀ h → e.reply.kind = .ok →
        e.reply.count = some (min 20 (v.allowed + (v.violators s₀ h).card + 1)))) := by
  have hpromised := hintact.promised
  rw [hr] at hpromised
  have hlogged : v.Concerns s p → e.reply.kind = .ok → ∃ m state n, matching p s = some (m, state) ∧
      m.qualified = some n ∧ e.reply.count = some n ∧ (p.member, some n) ∈ v.log s₀ h := by
    intro hconcerns hkind
    obtain ⟨m, state, n, hm, hn, hcount⟩ := hok hkind
    exact ⟨m, state, n, hm, hn, hcount, hi.flag_logged hconcerns hpromised hm hn⟩
  constructor
  · have hanswered := answered_qualify (v := v) (s := replay step s₀ h) hr
    rw [← hs] at hanswered
    split at hanswered
    · next hcond =>
      obtain ⟨m, state, n, hm, hn, hcount, hmem⟩ := hlogged hcond.1 hcond.2
      rw [hcount] at hanswered
      refine hi.again hanswered hmem fun st hst m' hm' => ?_
      obtain ⟨hstored, -⟩ := matching_eq_some hm
      rw [hpromised.mode p rfl hcond.1.2.1, hst] at hstored
      obtain rfl := Option.some.inj hstored
      have hfirst := find?_selects (hi.uniform _ _ hst) (matching_find hm)
      rw [hcond.1.2.1, hm'] at hfirst
      rw [Option.some.inj hfirst, hn]
      rfl
    · exact hi.elsewhere (elsewhere_refl s) (hs ▸ hintact.counter) hanswered
  · refine fun hconcerns => ⟨fun _ => ⟨hs ▸ hstep, fun hkind n' hn' => ?_, ?_⟩, fun hnew hkind => ?_⟩
    · obtain ⟨m, state, n, -, -, hcount, hmem⟩ := hlogged hconcerns hkind
      rw [hcount]
      exact hi.same p.member _ _ hmem hn'
    · rw [← hs]
      exact hstands hconcerns
    · obtain ⟨m, state, n, -, -, -, hmem⟩ := hlogged hconcerns hkind
      exact absurd (mem_violators.mpr ⟨_, hmem⟩) hnew

/-- One call keeps the counter exact, and answers a repetition as before and a new member with the
next count. -/
theorem Counted.next (hi : v.Counted sender s₀ h (replay step s₀ h)) (hintact : v.Intact sender s₀ h e)
    (hreply : e.reply = (step e.now e.request (replay step s₀ h)).2) :
    v.Counted sender s₀ (h ++ [e]) (step e.now e.request (replay step s₀ h)).1 ∧
      ∀ p, e.request.request = .qualify p → v.Concerns ((replay step s₀ h).purge e.now) p →
        (p.member ∈ v.violators s₀ h → v.Repeats s₀ h e p) ∧
        (p.member ∉ v.violators s₀ h → e.reply.kind = .ok →
          e.reply.count = some (min 20 (v.allowed + (v.violators s₀ h).card + 1))) := by
  have hpurged := hi.purge e.now
  generalize hs : (replay step s₀ h).purge e.now = s at hpurged ⊢
  by_cases hqualify : ∃ p, e.request.request = .qualify p
  · obtain ⟨p, hr⟩ := hqualify
    have hpromised := hintact.promised
    rw [hr] at hpromised
    have hsame : ∀ p', e.request.request = .qualify p' → p' = p := fun p' hp' =>
      Request.qualify.inj (hp'.symm.trans hr)
    suffices h' : v.Counted sender s₀ (h ++ [e]) (step e.now e.request
        (replay step s₀ h)).1 ∧ (v.Concerns s p →
        (p.member ∈ v.violators s₀ h → v.Repeats s₀ h e p) ∧
        (p.member ∉ v.violators s₀ h → e.reply.kind = .ok →
          e.reply.count = some (min 20 (v.allowed + (v.violators s₀ h).card + 1)))) from
      ⟨h'.1, fun p' hp' => hsame p' hp' ▸ h'.2⟩
    rcases step_qualify e.now (replay step s₀ h) hr with ⟨hstep, hdeadline⟩ | hstep
    · rw [hstep] at hreply ⊢
      rw [hs]
      refine hpurged.answer hs.symm hintact hr (by rw [hstep]; exact hs) (fun hkind => ?_)
        fun _ _ hle => absurd hle (Nat.not_le.mpr hdeadline)
      rw [hreply] at hkind
      cases hkind
    · rw [hs] at hstep
      rcases qualify_cases e.now p s with ⟨hunchanged, hok⟩ | ⟨m, state, n, x, y, hc⟩
      · rw [hstep] at hreply ⊢
        rw [hunchanged]
        refine hpurged.answer hs.symm hintact hr (by rw [hstep, hunchanged]) (hreply ▸ hok) ?_
        intro hconcerns hstands _ hm
        obtain ⟨⟨m, state⟩, hm⟩ := Option.isSome_iff_exists.mp hm
        obtain ⟨n, hn⟩ := hpurged.flag_of_stands hconcerns hpromised hstands hm
        rw [hreply, qualify_flagged e.now hm hn]
      · have hnew : v.Concerns s p → p.member ∉ v.violators s₀ h := by
          intro hconcerns hmem
          exact hpurged.not_counting hconcerns hpromised (hs ▸ hintact.record p hr (hs ▸ hconcerns) hmem) hc
        have hlive := hs ▸ hintact.counter
        rw [hstep] at hreply ⊢
        rw [← hreply] at hc
        refine ⟨hpurged.counting hr hpromised hlive hnew hc hs.symm, fun hconcerns =>
          ⟨fun hmem => absurd hmem (hnew hconcerns), fun _ _ => ?_⟩⟩
        obtain ⟨-, -, -, -, hselects⟩ := matching_eq_some hc.matching
        rw [hc.reply, hc.value, Count.qualify, (counterKey_eq hselects).mpr hconcerns,
          hpurged.read hlive, hpromised.allowed p rfl hconcerns.2.1]
        congr 1
        dsimp only
        omega
  · have hother : ∀ p, e.request.request ≠ .qualify p := fun p hp => hqualify ⟨p, hp⟩
    have helse := step_elsewhere e.now (replay step s₀ h) hother
    rw [hs] at helse
    refine ⟨hpurged.elsewhere helse (hs ▸ hintact.counter) ?_, fun p hp => absurd hp (hother p)⟩
    unfold answered
    split
    · next p hp => exact absurd hp (hother p)
    · rfl

/-! ## Every history -/

variable {prior : Slots (δ × Mode) (Life δ)} {pre post : List (Event δ)}

theorem counted_initial (v : Violation δ) (sender : δ → δ) (prior : Slots (δ × Mode) (Life δ)) :
    v.Counted sender (Store.initial prior) [] (Store.initial prior) := by
  refine ⟨nofun, nofun, nofun, fun x hx => ?_, nofun⟩
  obtain ⟨pre, e, post, n, heq, -⟩ := hx
  exact absurd heq (by simp)

theorem run_counted (hr : Run step (fun _ _ _ => True) (Store.initial prior) h t s)
    (hintact : ∀ pre e post, h = pre ++ e :: post → v.Intact sender (Store.initial prior) pre e) :
    v.Counted sender (Store.initial prior) h s := by
  induction h using List.reverseRecOn generalizing t s with
  | nil =>
    obtain ⟨-, rfl⟩ := hr.nil_inv
    exact counted_initial v sender prior
  | append_singleton h e ih =>
    obtain ⟨t₁, s₁, hr₁, -, -, -, hreply, rfl⟩ := hr.snoc_inv
    have hi := ih hr₁ fun pre e' post heq => hintact pre e' (post ++ [e]) (by simp [heq])
    rw [← hr₁.replay_eq] at hi hreply ⊢
    exact (hi.next (hintact h e [] rfl) hreply).1

end Violation

/-- Members are counted once each: the counter is the number of members that the history has qualified,
up to the cap; a new member is answered the next count, a repetition the same count or a refusal, without
a change; and a record keeps its member from being counted again in its epoch. -/
theorem qualification_counts_once {prior : Slots (δ × Mode) (Life δ)} {v : Violation δ}
    {sender : δ → δ} (hr : Run step (fun _ _ _ => True) (Store.initial prior) h t s)
    (hintact : ∀ pre e post, h = pre ++ e :: post → v.Intact sender (Store.initial prior) pre e) :
    (∀ d, content (s.count v.counter) = some d →
      d.qualified = min (20 - v.allowed) (v.violators (Store.initial prior) h).card) ∧
    (∀ pre e post p, h = pre ++ e :: post → e.request.request = .qualify p →
      v.Concerns ((replay step (Store.initial prior) pre).purge e.now) p →
      (p.member ∈ v.violators (Store.initial prior) pre → v.Repeats (Store.initial prior) pre e p) ∧
      (p.member ∉ v.violators (Store.initial prior) pre → e.reply.kind = .ok → e.reply.count =
        some (min 20 (v.allowed + (v.violators (Store.initial prior) pre).card + 1)))) ∧
    ∀ pre e post p record, h = pre ++ e :: post → e.request.request = .qualify p →
      (step e.now e.request (replay step (Store.initial prior) pre)).1 ≠
        (replay step (Store.initial prior) pre).purge e.now →
      (replay step (Store.initial prior) (pre ++ [e])).qualification p.member = some record →
      record.value = ((replay step (Store.initial prior) pre).purge e.now).epoch p.author ∧
      (Recorded (Store.initial prior) (pre ++ [e]) post p.member record →
        ∀ mid e' rest p', post = mid ++ e' :: rest → e'.request.request = .qualify p' →
          p'.member = p.member →
          (step e'.now e'.request (replay step (Store.initial prior) (pre ++ [e] ++ mid))).1 =
            (replay step (Store.initial prior) (pre ++ [e] ++ mid)).purge e'.now) := by
  refine ⟨(Violation.run_counted hr hintact).counter, fun pre e post p heq hp hconcerns => ?_,
    fun pre e post p record heq hp hchanged hrecord => ⟨?_, fun hrecorded => ?_⟩⟩
  · have hcut : h = pre ++ [e] ++ post := by rw [heq]; simp
    rw [hcut] at hr
    obtain ⟨t₁, s₁, hr₁, -⟩ := hr.of_append
    obtain ⟨t₂, s₂, hr₂, -, -, -, hreply, -⟩ := hr₁.snoc_inv
    have hi := Violation.run_counted hr₂ fun pre' e' post' heq' =>
      hintact pre' e' (post' ++ e :: post) (by rw [heq, heq']; simp)
    rw [← hr₂.replay_eq] at hi hreply
    exact (hi.next (hintact pre e post heq) hreply).2 p hp hconcerns
  · rw [replay_snoc] at hrecord
    exact counted_record hp hchanged hrecord
  · rintro mid e' rest p' rfl hp' hmember
    exact hrecorded.unchanged (hrecorded.of_append.stays hrecord) hp' hmember

/-! ## Two messages -/

/-- The violation of message 2 in the sample run. -/
def sampleViolation : Violation Nat where
  mode := .message
  author := 0
  fingerprint := 9
  originalId := 11
  originalEpoch := 0
  epoch := 0
  allowed := 0

/-- Both messages are observed, then the second one is qualified, twice. -/
def sampleQualified : List (Event Nat) :=
  [sampleEntry 5 (.observe (sampleObserve 1 11 5)) sampleStore,
    sampleEntry 5 (.observe (sampleObserve 2 12 5)) (sampleFirst 5 5 sampleStore),
    sampleEntry 6 (.qualify (sampleCheck 5 0)) (sampleSecond 5 5 sampleStore)]

def sampleAgain : Event Nat :=
  sampleEntry 7 (.qualify (sampleCheck 5 0))
    (sampleAfter 6 (.qualify (sampleCheck 5 0)) (sampleSecond 5 5 sampleStore))

theorem split_cons {α : Type} {P : List α → α → Prop} {a : α} {l : List α} (hfirst : P [] a)
    (hrest : ∀ pre e post, l = pre ++ e :: post → P (a :: pre) e) :
    ∀ pre e post, a :: l = pre ++ e :: post → P pre e := by
  intro pre e post heq
  cases pre with
  | nil => exact (List.cons.inj heq).1 ▸ hfirst
  | cons b pre =>
    obtain ⟨hb, hl⟩ := List.cons.inj heq
    rw [← hb]
    exact hrest pre e post hl

theorem sample_promised : sampleViolation.Promised (fun _ => 0) (.qualify (sampleCheck 5 0)) := by
  refine ⟨fun p hp => ?_, fun p hp _ => ?_, fun p hp _ => ?_⟩ <;> cases hp <;> rfl

theorem qualification_counts_once_two_messages :
    sampleViolation.Repeats sampleStore sampleQualified sampleAgain (sampleCheck 5 0) ∧
      sampleAgain.reply.count = some 1 := by
  obtain ⟨t, hr⟩ : ∃ t, Run step (fun _ _ _ => True) sampleStore (sampleQualified ++ [sampleAgain]) t
      (replay step sampleStore (sampleQualified ++ [sampleAgain])) :=
    run_play (by decide) (accepted_of_forall (fun _ _ _ => trivial) _
      [(5, sampleCall (.observe (sampleObserve 1 11 5))), (5, sampleCall (.observe (sampleObserve 2 12 5))),
        (6, sampleCall (.qualify (sampleCheck 5 0))), (7, sampleCall (.qualify (sampleCheck 5 0)))])
  have hintact : ∀ pre e post, sampleQualified ++ [sampleAgain] = pre ++ e :: post →
      sampleViolation.Intact (fun _ => 0) sampleStore pre e := by
    refine split_cons ⟨⟨nofun, nofun, nofun⟩, by decide +kernel, nofun⟩ (split_cons
      ⟨⟨nofun, nofun, nofun⟩, by decide +kernel, nofun⟩ (split_cons
      ⟨sample_promised, by decide +kernel, fun p hp _ hmem => ?_⟩ (split_cons
      ⟨sample_promised, by decide +kernel, fun p hp _ _ => .inr ?_⟩ fun pre e post heq => ?_)))
    · cases hp
      exact absurd hmem (by decide +kernel)
    · cases hp
      decide +kernel
    · exact absurd heq (by simp)
  have hcounts := (qualification_counts_once hr hintact).2.1
  refine ⟨(hcounts sampleQualified sampleAgain [] (sampleCheck 5 0) rfl rfl (by decide +kernel)).1
    (by decide +kernel), by decide +kernel⟩

/-- A reset, then two observations and a qualification with the longest window. -/
def qualifiedAfterReset : List (Nat × Call Nat) :=
  [(5, sampleCall (.reset 0)),
    (100000000, sampleCall (.observe { sampleObserve 1 11 100000000 with windowMs := 172800000 })),
    (100000000, sampleCall (.observe { sampleObserve 2 12 100000000 with windowMs := 172800000 })),
    (100000001, sampleCall (.qualify { sampleCheck 100000000 5 with windowMs := 172800000 }))]

/-- The counter outlives the epoch of the author, and the repetition is refused. -/
theorem qualify_repeated_after_epoch :
    ((play step sampleStore qualifiedAfterReset).1.map fun e => (e.reply.kind, e.reply.count)) =
      [(.ok, none), (.ok, none), (.ok, none), (.ok, some 1)] ∧
    content (((play step sampleStore qualifiedAfterReset).2.purge 180000000).count ⟨0, 9, 11, 5, 5⟩) =
      some ⟨0, 1⟩ ∧
    (step 180000000 (sampleCall (.qualify { sampleCheck 100000000 5 with windowMs := 172800000 }))
      (play step sampleStore qualifiedAfterReset).2).2.kind = .stale := by
  refine ⟨by decide +kernel, by decide +kernel, by decide +kernel⟩

end Maxim.Moderation.MessageDuplicate
