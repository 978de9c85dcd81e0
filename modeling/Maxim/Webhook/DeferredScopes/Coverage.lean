import Maxim.Webhook.DeferredScopes.Reader

/-!
# What a deferred scope covers

A scope covers a receipt that it retains, that lies in its next interval, or
that its reader has still to visit. Every operation on a scope carries what it
covers over.
-/

namespace Maxim.Webhook.DeferredScopes

open Maxim.Library

variable {υ ι : Type} [LinearOrder ι]

def Within (interval : Interval ι) (c : DeferredScopeCursor ι) : Prop :=
  interval.first.position ≤ c.position ∧ c.position ≤ interval.last.position

theorem compare_neg {a b : DeferredScopeCursor ι} : compare a b < 0 ↔ a.position < b.position := by
  rw [DeferredScopeCursor.position, DeferredScopeCursor.position, Prod.Lex.toLex_lt_toLex, compare]
  by_cases ht : (a.createdAt : Int) - b.createdAt = 0
  · have heq : a.createdAt = b.createdAt := by omega
    by_cases hlt : a.id < b.id
    · simp [heq, hlt]
    · by_cases hgt : b.id < a.id <;> simp [heq, hlt, hgt]
  · have hne : a.createdAt ≠ b.createdAt := by omega
    simp only [ht, hne, ne_eq, not_false_eq_true, if_true, false_and, or_false]
    omega

theorem compare_pos {a b : DeferredScopeCursor ι} : 0 < compare a b ↔ b.position < a.position := by
  rw [← compare_neg, compare, compare]
  by_cases ht : (a.createdAt : Int) - b.createdAt = 0
  · have ht' : (b.createdAt : Int) - a.createdAt = 0 := by omega
    by_cases hlt : a.id < b.id
    · simp [ht, ht', hlt, not_lt_of_gt hlt]
    · by_cases hgt : b.id < a.id <;> simp [ht, ht', hlt, hgt]
  · have ht' : ¬(b.createdAt : Int) - a.createdAt = 0 := by omega
    simp only [ht, ht', ne_eq, not_false_eq_true, if_true]
    omega

theorem within_includeCursor (interval : Option (Interval ι)) (c : DeferredScopeCursor ι) :
    Within (includeCursor interval c) c := by
  cases interval with
  | none => exact ⟨le_refl _, le_refl _⟩
  | some i =>
    refine ⟨?_, ?_⟩
    · show (if compare c i.first < 0 then c else i.first).position ≤ c.position
      split
      · exact le_refl _
      · rename_i h
        exact not_lt.mp (compare_neg.not.mp h)
    · show c.position ≤ (if 0 < compare c i.last then c else i.last).position
      split
      · exact le_refl _
      · rename_i h
        exact not_lt.mp (compare_pos.not.mp h)

theorem Within.includeCursor {i : Interval ι} {c : DeferredScopeCursor ι} (h : Within i c)
    (c' : DeferredScopeCursor ι) : Within (DeferredScopes.includeCursor (some i) c') c := by
  refine ⟨?_, ?_⟩
  · show (if compare c' i.first < 0 then c' else i.first).position ≤ c.position
    split
    · rename_i hlt
      exact le_trans (le_of_lt (compare_neg.mp hlt)) h.1
    · exact h.1
  · show c.position ≤ (if 0 < compare c' i.last then c' else i.last).position
    split
    · rename_i hlt
      exact le_trans h.2 (le_of_lt (compare_pos.mp hlt))
    · exact h.2

/-! ## One state -/

variable [DecidableEq υ] {state : DeferredScopeState υ ι} {u : υ} {c : DeferredScopeCursor ι}
  {page : Option (List (Row υ ι))}

def Retains (state : DeferredScopeState υ ι) (u : υ) (c : DeferredScopeCursor ι) : Prop :=
  ∃ r, state.receipt u = some r ∧ r.id = c.id

/-- The receipt lies in the part of the current interval that is not scanned yet. -/
def Ahead (state : DeferredScopeState υ ι) (c : DeferredScopeCursor ι) : Prop :=
  ∃ i, state.current = some i ∧ Within i c ∧ ∀ a, state.after = some a → a.position < c.position

def Coming (state : DeferredScopeState υ ι) (c : DeferredScopeCursor ι) : Prop :=
  ∃ i, state.next = some i ∧ Within i c

def Covers (state : DeferredScopeState υ ι) (u : υ) (c : DeferredScopeCursor ι) : Prop :=
  Retains state u c ∨ Ahead state c ∨ Coming state c

/-- A page that was read shows the receipt, or is full before it. -/
def Shown (page : Option (List (Row υ ι))) (c : DeferredScopeCursor ι) : Prop :=
  ∀ rows, page = some rows → c ∈ rows.map Row.cursor ∨
    DEFERRED_SCOPE_RAW_PAGE_SIZE < rows.length ∧ ∀ row ∈ rows, row.cursor.position < c.position

def Owes (page : Option (List (Row υ ι))) (state : DeferredScopeState υ ι) (u : υ)
    (c : DeferredScopeCursor ι) : Prop :=
  Retains state u c ∨ Ahead state c ∧ Shown page c ∨ Coming state c

theorem Owes.covers (h : Owes page state u c) : Covers state u c := by
  rcases h with h | h | h
  · exact .inl h
  · exact .inr (.inl h.1)
  · exact .inr (.inr h)

theorem Covers.owes (h : Covers state u c) : Owes none state u c := by
  rcases h with h | h | h
  · exact .inl h
  · exact .inr (.inl ⟨h, fun rows hrows => by simp at hrows⟩)
  · exact .inr (.inr h)

/-- A state without a current interval has no cursor, and retains few receipts with their dates. -/
structure Kept (born : ι → Nat) (state : DeferredScopeState υ ι) : Prop where
  parked : state.current = none → state.after = none
  few : state.retained.length ≤ DEFERRED_SCOPE_IDENTITIES
  dated : ∀ e ∈ state.retained, e.2.createdAt = born e.2.id

/-- What a change of a state carries over: its key, an interval that is being crossed, and all that
it covers. -/
structure Carries (born : ι → Nat) (a b : DeferredScopeState υ ι) : Prop where
  key : b.key = a.key
  crossing : a.current.isSome = true → b.current = a.current ∧ b.after = a.after
  owes : ∀ page u c, (page.isSome = true → a.current.isSome = true) → c.createdAt = born c.id →
    Owes page a u c → Owes page b u c

theorem Carries.refl (born : ι → Nat) (state : DeferredScopeState υ ι) : Carries born state state where
  key := rfl
  crossing _ := ⟨rfl, rfl⟩
  owes _ _ _ _ _ h := h

theorem Carries.trans {born : ι → Nat} {a b d : DeferredScopeState υ ι} (hab : Carries born a b)
    (hbd : Carries born b d) : Carries born a d where
  key := hbd.key.trans hab.key
  crossing h := by
    obtain ⟨hc, ha⟩ := hab.crossing h
    obtain ⟨hc', ha'⟩ := hbd.crossing (by rwa [hc])
    exact ⟨hc'.trans hc, ha'.trans ha⟩
  owes page u c hpage hborn h := by
    refine hbd.owes page u c (fun hp => ?_) hborn (hab.owes page u c hpage hborn h)
    rw [(hab.crossing (hpage hp)).1]
    exact hpage hp

variable {born : ι → Nat}

omit [LinearOrder ι] in
theorem mem_of_receipt {r : DeferredScopeCursor ι} (h : state.receipt u = some r) :
    (u, r) ∈ state.retained := by
  obtain ⟨l₁, l₂, heq, -⟩ := List.lookup_eq_some_iff.mp h
  rw [heq]
  simp

omit [LinearOrder ι] in
theorem Kept.receipt_eq (hk : Kept born state) (hc : c.createdAt = born c.id)
    {r : DeferredScopeCursor ι} (hr : state.receipt u = some r) (hid : r.id = c.id) : r = c := by
  have hdate := hk.dated _ (mem_of_receipt hr)
  cases r
  cases c
  simp_all

omit [DecidableEq υ] in
theorem Coming.include {next : Option (Interval ι)} (hnext : state.next = next)
    (h : Coming state c) (c' : DeferredScopeCursor ι) {b : DeferredScopeState υ ι}
    (hb : b.next = some (includeCursor next c')) : Coming b c := by
  obtain ⟨i, hi, hw⟩ := h
  rw [← hnext, hi] at hb
  exact ⟨_, hb, hw.includeCursor c'⟩

omit [DecidableEq υ] in
theorem coming_include {next : Option (Interval ι)} {b : DeferredScopeState υ ι}
    (hb : b.next = some (includeCursor next c)) : Coming b c :=
  ⟨_, hb, within_includeCursor next c⟩

/-! ### capture -/

omit [LinearOrder ι] in
theorem receipt_any {receiptId : ι} [DecidableEq ι] :
    (state.receipt u).any (fun r => decide (r.id = receiptId)) = true ↔
      ∃ r, state.receipt u = some r ∧ r.id = receiptId := by
  cases state.receipt u <;> simp

theorem carries_capture (born : ι → Nat) (state : DeferredScopeState υ ι) (u : υ)
    (c : DeferredScopeCursor ι) : Carries born state (state.capture u c) := by
  unfold DeferredScopeState.capture
  split
  · exact Carries.refl born state
  · split
    · exact ⟨rfl, fun _ => ⟨rfl, rfl⟩, fun page u' c' _ _ h => by
        rcases h with h | h | h
        · exact .inl h
        · exact .inr (.inl h)
        · exact .inr (.inr (h.include rfl c rfl))⟩
    · rename_i hcur
      refine ⟨rfl, fun h => absurd h hcur, fun page u' c' _ _ h => ?_⟩
      rcases h with h | ⟨⟨i, hi, -⟩, -⟩ | h
      · exact .inl h
      · rw [hi] at hcur
        simp at hcur
      · exact .inr (.inr h)

/-- A captured receipt is covered. -/
theorem owes_capture (hk : Kept born state) (hpage : page.isSome = true → state.current.isSome = true)
    (u : υ) (c : DeferredScopeCursor ι) : Owes page (state.capture u c) u c := by
  unfold DeferredScopeState.capture
  split
  · rename_i h
    exact .inl (receipt_any.mp h)
  · split
    · exact .inr (.inr (coming_include rfl))
    · rename_i hcur
      have hnone : state.current = none := by simpa using hcur
      have hpage' : page = none := by
        cases page with
        | none => rfl
        | some rows => exact absurd (hpage rfl) hcur
      subst hpage'
      refine .inr (.inl ⟨⟨_, rfl, within_includeCursor _ c, fun a ha => ?_⟩, by simp [Shown]⟩)
      rw [show state.after = none from hk.parked hnone] at ha
      simp at ha

theorem Kept.capture (hk : Kept born state) (u : υ) (c : DeferredScopeCursor ι) :
    Kept born (state.capture u c) := by
  unfold DeferredScopeState.capture
  split
  · exact hk
  · split
    · exact ⟨hk.parked, hk.few, hk.dated⟩
    · exact ⟨fun h => by simp at h, hk.few, hk.dated⟩

/-! ### retain -/

omit [LinearOrder ι] in
theorem receipt_replace (u : υ) (c : DeferredScopeCursor ι) (u' : υ) :
    (state.replace u c).receipt u' =
      if u' = u then (state.receipt u').map fun _ => c else state.receipt u' := by
  unfold DeferredScopeState.receipt DeferredScopeState.replace
  dsimp only
  induction state.retained with
  | nil => simp
  | cons e l ih =>
    rw [List.map_cons, List.lookup_cons, List.lookup_cons]
    by_cases he : e.1 = u
    · by_cases hu : u' = u
      · simp [he, hu]
      · have hne : (u' == e.1) = false := by simp [he, hu]
        rw [if_pos he]
        simp only [hne, ih, if_neg hu]
    · rw [if_neg he, ih]
      by_cases hu : u' = e.1
      · subst hu
        simp [he]
      · have hne : (u' == e.1) = false := by simp [hu]
        simp [hne]

theorem carries_retain (hk : Kept born state) {u : υ} {c : DeferredScopeCursor ι} :
    Carries born state (state.retain u c).1 := by
  unfold DeferredScopeState.retain
  cases hr : state.receipt u with
  | none =>
    dsimp only
    split
    · exact Carries.refl born state
    · refine ⟨rfl, fun _ => ⟨rfl, rfl⟩, fun page u' c' _ _ h => ?_⟩
      rcases h with ⟨r, hr', hid⟩ | h | h
      · refine .inl ⟨r, ?_, hid⟩
        show (state.retained ++ [(u, c)]).lookup u' = some r
        rw [List.lookup_append, show state.retained.lookup u' = some r from hr', Option.some_or]
      · exact .inr (.inl h)
      · exact .inr (.inr h)
  | some existing =>
    dsimp only
    split
    · split
      · refine ⟨rfl, fun _ => ⟨rfl, rfl⟩, fun page u' c' _ _ h => ?_⟩
        rcases h with h | h | h
        · exact .inl h
        · exact .inr (.inl h)
        · exact .inr (.inr (h.include rfl c rfl))
      · refine ⟨rfl, fun _ => ⟨rfl, rfl⟩, fun page u' c' _ hborn h => ?_⟩
        rcases h with ⟨r, hr', hid⟩ | h | h
        · by_cases hu : u' = u
          · -- the earlier head goes to the next interval
            subst hu
            rw [hr, Option.some.injEq] at hr'
            subst hr'
            rw [hk.receipt_eq hborn hr hid]
            exact .inr (.inr (coming_include rfl))
          · refine .inl ⟨r, ?_, hid⟩
            show (state.replace u c).receipt u' = some r
            rw [receipt_replace, if_neg hu, hr']
        · exact .inr (.inl h)
        · exact .inr (.inr (h.include rfl existing rfl))
    · exact Carries.refl born state

/-- A receipt for which retain returned true is covered. -/
theorem owes_retain (h : (state.retain u c).2 = true) : Owes page (state.retain u c).1 u c := by
  unfold DeferredScopeState.retain at h ⊢
  cases hr : state.receipt u with
  | none =>
    rw [hr] at h
    dsimp only at h ⊢
    split
    · rename_i hfull
      simp [hfull] at h
    · refine .inl ⟨c, ?_, rfl⟩
      show (state.retained ++ [(u, c)]).lookup u = some c
      rw [List.lookup_append, show state.retained.lookup u = none from hr]
      simp
  | some existing =>
    dsimp only
    split
    · split
      · exact .inr (.inr (coming_include rfl))
      · refine .inl ⟨c, ?_, rfl⟩
        show (state.replace u c).receipt u = some c
        rw [receipt_replace, if_pos rfl, hr]
        rfl
    · rename_i hid
      exact .inl ⟨existing, hr, not_not.mp hid⟩

theorem Kept.retain (hk : Kept born state) (u : υ) (hc : c.createdAt = born c.id) :
    Kept born (state.retain u c).1 := by
  unfold DeferredScopeState.retain
  cases hr : state.receipt u with
  | none =>
    dsimp only
    split
    · exact hk
    · rename_i hfew
      refine ⟨hk.parked, ?_, fun e he => ?_⟩
      · show (state.retained ++ [(u, c)]).length ≤ DEFERRED_SCOPE_IDENTITIES
        rw [List.length_append, List.length_singleton]
        omega
      · rcases List.mem_append.mp he with he | he
        · exact hk.dated e he
        · rw [List.mem_singleton.mp he]
          exact hc
  | some existing =>
    dsimp only
    split
    · split
      · exact ⟨hk.parked, hk.few, hk.dated⟩
      · refine ⟨hk.parked, ?_, fun e he => ?_⟩
        · show (state.retained.map _).length ≤ _
          rw [List.length_map]
          exact hk.few
        · obtain ⟨e', he', rfl⟩ := List.mem_map.mp he
          split
          · exact hc
          · exact hk.dated e' he'
    · exact hk

/-! ### promote, advance and release -/

theorem carries_promote (born : ι → Nat) (state : DeferredScopeState υ ι) :
    Carries born state state.promote := by
  unfold DeferredScopeState.promote
  cases hcur : state.current with
  | some i => exact Carries.refl born state
  | none =>
    cases hnext : state.next with
    | none => exact Carries.refl born state
    | some next =>
      refine ⟨rfl, fun h => by simp [hcur] at h, fun page u c hpage _ h => ?_⟩
      have hnone : page = none := by
        cases page with
        | none => rfl
        | some rows => simpa [hcur] using hpage rfl
      rcases h with h | ⟨⟨i, hi, -⟩, -⟩ | ⟨i, hi, hw⟩
      · exact .inl h
      · rw [hcur] at hi
        simp at hi
      · rw [hnext, Option.some.injEq] at hi
        subst hi
        exact .inr (.inl ⟨⟨next, rfl, hw, by simp⟩, by simp [Shown, hnone]⟩)

omit [DecidableEq υ] [LinearOrder ι] in
theorem Kept.promote (hk : Kept born state) : Kept born state.promote := by
  unfold DeferredScopeState.promote
  split
  · exact ⟨fun _ => rfl, hk.few, hk.dated⟩
  · exact hk

omit [DecidableEq υ] [LinearOrder ι] in
@[simp] theorem promote_retained (state : DeferredScopeState υ ι) :
    state.promote.retained = state.retained := by
  unfold DeferredScopeState.promote
  split <;> rfl

omit [DecidableEq υ] [LinearOrder ι] in
@[simp] theorem promote_key (state : DeferredScopeState υ ι) : state.promote.key = state.key := by
  unfold DeferredScopeState.promote
  split <;> rfl

omit [DecidableEq υ] [LinearOrder ι] in
@[simp] theorem advance_retained (state : DeferredScopeState υ ι)
    (after : Option (DeferredScopeCursor ι)) (complete : Bool) :
    (state.advance after complete).retained = state.retained := by
  unfold DeferredScopeState.advance
  cases complete <;> cases after <;> simp

omit [DecidableEq υ] [LinearOrder ι] in
@[simp] theorem advance_key (state : DeferredScopeState υ ι) (after : Option (DeferredScopeCursor ι))
    (complete : Bool) : (state.advance after complete).key = state.key := by
  unfold DeferredScopeState.advance
  cases complete <;> cases after <;> simp

omit [DecidableEq υ] [LinearOrder ι] in
theorem Kept.advance (hk : Kept born state) (hcur : state.current.isSome = true)
    (after : Option (DeferredScopeCursor ι)) (complete : Bool) :
    Kept born (state.advance after complete) := by
  have hmoved : Kept born (if after.isSome then { state with after := after } else state) := by
    split
    · exact ⟨fun h => absurd hcur (by simp [show state.current = none from h]), hk.few, hk.dated⟩
    · exact hk
  unfold DeferredScopeState.advance
  cases complete with
  | false => exact hmoved
  | true =>
    exact Kept.promote ⟨fun _ => rfl, hmoved.few, hmoved.dated⟩

/-- What was not visited stays covered when the reader moves on. -/
theorem covers_advance {after : Option (DeferredScopeCursor ι)} {complete : Bool}
    (h : Owes page state u c)
    (hahead : Shown page c → Ahead state c →
      complete = false ∧ ∀ a, after = some a → a.position < c.position) :
    Covers (state.advance after complete) u c := by
  cases complete with
  | false =>
    unfold DeferredScopeState.advance
    rcases h with h | ⟨h, hshown⟩ | h
    · cases after <;> exact .inl h
    · obtain ⟨-, hlt⟩ := hahead hshown h
      obtain ⟨i, hi, hw, hold⟩ := h
      cases after with
      | none => exact .inr (.inl ⟨i, hi, hw, hold⟩)
      | some a => exact .inr (.inl ⟨i, hi, hw, hlt⟩)
    · cases after <;> exact .inr (.inr h)
  | true =>
    rcases h with ⟨r, hr, hid⟩ | ⟨h, hshown⟩ | ⟨i, hi, hw⟩
    · refine .inl ⟨r, ?_, hid⟩
      show List.lookup u (state.advance after true).retained = some r
      rw [advance_retained]
      exact hr
    · exact absurd (hahead hshown h).1 (by decide)
    · refine .inr (.inl ⟨i, ?_, hw, ?_⟩)
      all_goals
        unfold DeferredScopeState.advance
        cases after <;> simp [DeferredScopeState.promote, hi]

omit [LinearOrder ι] in
theorem Kept.release [LinearOrder ι] (hk : Kept born state) (u : υ) (receiptId : ι) :
    Kept born (state.release u receiptId) := by
  unfold DeferredScopeState.release
  split
  · exact ⟨hk.parked, Nat.le_trans (List.length_filter_le _ _) hk.few,
      fun e he => hk.dated e (List.mem_of_mem_filter he)⟩
  · exact hk

@[simp] theorem release_key (state : DeferredScopeState υ ι) (u : υ) (receiptId : ι) :
    (state.release u receiptId).key = state.key := by
  unfold DeferredScopeState.release
  split <;> rfl

theorem release_intervals (state : DeferredScopeState υ ι) (u : υ) (receiptId : ι) :
    (state.release u receiptId).current = state.current ∧
      (state.release u receiptId).after = state.after ∧
      (state.release u receiptId).next = state.next := by
  unfold DeferredScopeState.release
  split <;> exact ⟨rfl, rfl, rfl⟩

/-- A release gives back one exact receipt of one work unit. -/
theorem owes_release {u' : υ} {receiptId : ι} (h : Owes page state u' c)
    (hother : ¬(u' = u ∧ c.id = receiptId)) : Owes page (state.release u receiptId) u' c := by
  obtain ⟨hcur, hafter, hnext⟩ := release_intervals state u receiptId
  rcases h with ⟨r, hr, hid⟩ | ⟨⟨i, hi, hw, ha⟩, hshown⟩ | ⟨i, hi, hw⟩
  · refine .inl ⟨r, ?_, hid⟩
    unfold DeferredScopeState.release
    split
    · rename_i hmatch
      obtain ⟨r', hr', hid'⟩ := receipt_any.mp hmatch
      have hne : u' ≠ u := by
        intro heq
        subst heq
        rw [hr, Option.some.injEq] at hr'
        subst hr'
        exact hother ⟨rfl, hid.symm.trans hid'⟩
      show (state.retained.filter fun e => e.1 ≠ u).lookup u' = some r
      obtain ⟨l₁, l₂, heq, hfirst⟩ := List.lookup_eq_some_iff.mp hr
      rw [heq, List.filter_append, List.filter_cons_of_pos (by simpa using hne)]
      refine List.lookup_eq_some_iff.mpr ⟨_, _, rfl, fun e he => hfirst e (List.mem_of_mem_filter he)⟩
    · exact hr
  · exact .inr (.inl ⟨⟨i, by rw [hcur, hi], hw, by rwa [hafter]⟩, hshown⟩)
  · exact .inr (.inr ⟨i, by rw [hnext, hi], hw⟩)

theorem not_covers_of_idle (h : state.idle = true) (u : υ) (c : DeferredScopeCursor ι) :
    ¬Covers state u c := by
  simp only [DeferredScopeState.idle, Bool.and_eq_true, Option.isNone_iff_eq_none,
    List.isEmpty_iff] at h
  rintro (⟨r, hr, -⟩ | ⟨i, hi, -⟩ | ⟨i, hi, -⟩)
  · simp [DeferredScopeState.receipt, h.2] at hr
  · rw [h.1.1] at hi
    simp at hi
  · rw [h.1.2] at hi
    simp at hi

end Maxim.Webhook.DeferredScopes
