import Mathlib.Data.List.Dedup
import Mathlib.Data.List.Perm.Subperm
import Maxim.Webhook.DeferredScopes.Coverage

/-!
# All deferred scopes together

The operations of the class as changes of a list of states with different keys.
A capture may open a state, and only the last lines of `advance` and `release`
delete states, which then cover nothing.
-/

namespace Maxim.Webhook.DeferredScopes

open Maxim.Library

variable {υ ι : Type} [DecidableEq υ] [LinearOrder ι] {born : ι → Nat}
  {scopes a b : DeferredWebhookScopes υ ι} {u : υ} {c : DeferredScopeCursor ι} {key : List Char}
  {page : List Char → Option (List (Row υ ι))}

/-- Different keys, few scopes beside the overflow scope, and every state kept. -/
structure Wf (born : ι → Nat) (scopes : DeferredWebhookScopes υ ι) : Prop where
  keys : (scopes.states.map DeferredScopeState.key).Nodup
  few : (scopes.states.filter fun state => state.key ≠ OVERFLOW_SCOPE).length ≤ DEFERRED_SCOPE_LIMIT
  kept : ∀ state ∈ scopes.states, Kept born state

def Carried (born : ι → Nat) (a b : DeferredWebhookScopes υ ι) : Prop :=
  ∀ state ∈ a.states, ∃ state' ∈ b.states, Carries born state state'

def PagesOpen (page : List Char → Option (List (Row υ ι))) (scopes : DeferredWebhookScopes υ ι) : Prop :=
  ∀ key, (page key).isSome = true →
    ∃ state ∈ scopes.states, state.key = key ∧ state.current.isSome = true

def Covered (page : List Char → Option (List (Row υ ι))) (scopes : DeferredWebhookScopes υ ι) (u : υ)
    (c : DeferredScopeCursor ι) : Prop :=
  ∃ state ∈ scopes.states, Owes (page state.key) state u c

omit [LinearOrder ι] [DecidableEq υ] in
theorem eq_of_key (hkeys : (scopes.states.map DeferredScopeState.key).Nodup)
    {s s' : DeferredScopeState υ ι} (hs : s ∈ scopes.states) (hs' : s' ∈ scopes.states)
    (hkey : s.key = s'.key) : s = s' := List.inj_on_of_nodup_map hkeys hs hs' hkey

variable {state : DeferredScopeState υ ι}

omit [LinearOrder ι] [DecidableEq υ] in
theorem find_eq_some (h : scopes.find key = some state) :
    state ∈ scopes.states ∧ state.key = key :=
  ⟨List.mem_of_find?_eq_some h, by simpa using List.find?_some h⟩

omit [LinearOrder ι] [DecidableEq υ] in
theorem find_of_mem (hkeys : (scopes.states.map DeferredScopeState.key).Nodup)
    (hs : state ∈ scopes.states) (hkey : state.key = key) :
    scopes.find key = some state := by
  cases hf : scopes.find key with
  | none =>
    have hnot := List.find?_eq_none.mp hf state hs
    simp [hkey] at hnot
  | some s =>
    obtain ⟨hmem, hk⟩ := find_eq_some hf
    rw [eq_of_key hkeys hmem hs (hk.trans hkey.symm)]

omit [LinearOrder ι] [DecidableEq υ] in
theorem has_iff : scopes.has key = true ↔ key ∈ scopes.states.map DeferredScopeState.key := by
  rw [DeferredWebhookScopes.has, DeferredWebhookScopes.find, List.find?_isSome, List.mem_map]
  simp

omit [LinearOrder ι] [DecidableEq υ] in
theorem PagesOpen.current (hp : PagesOpen page scopes)
    (hkeys : (scopes.states.map DeferredScopeState.key).Nodup)
    (hs : state ∈ scopes.states) (hpage : (page state.key).isSome = true) :
    state.current.isSome = true := by
  obtain ⟨s, hmem, hkey, hcur⟩ := hp state.key hpage
  rwa [← eq_of_key hkeys hmem hs hkey]

theorem Carried.refl (born : ι → Nat) (scopes : DeferredWebhookScopes υ ι) :
    Carried born scopes scopes := fun state hs => ⟨state, hs, Carries.refl born state⟩

theorem Carried.trans {d : DeferredWebhookScopes υ ι} (hab : Carried born a b)
    (hbd : Carried born b d) : Carried born a d := by
  intro state hs
  obtain ⟨s, hs, hc⟩ := hab state hs
  obtain ⟨s', hs', hc'⟩ := hbd s hs
  exact ⟨s', hs', hc.trans hc'⟩

theorem PagesOpen.carried (hp : PagesOpen page a) (hc : Carried born a b) : PagesOpen page b := by
  intro key hkey
  obtain ⟨s, hs, hk, hcur⟩ := hp key hkey
  obtain ⟨s', hs', hcar⟩ := hc s hs
  exact ⟨s', hs', hcar.key.trans hk, by rw [(hcar.crossing hcur).1]; exact hcur⟩

theorem Covered.carried (h : Covered page a u c) (hc : Carried born a b) (hp : PagesOpen page a)
    (hkeys : (a.states.map DeferredScopeState.key).Nodup) (hborn : c.createdAt = born c.id) :
    Covered page b u c := by
  obtain ⟨s, hs, hcov⟩ := h
  obtain ⟨s', hs', hcar⟩ := hc s hs
  refine ⟨s', hs', ?_⟩
  rw [hcar.key]
  exact hcar.owes _ u c (hp.current hkeys hs) hborn hcov

/-! ## Changes of one state -/

variable {f : DeferredScopeState υ ι → DeferredScopeState υ ι}

omit [LinearOrder ι] [DecidableEq υ] in
theorem mem_modify
    :
    state ∈ (scopes.modify key f).states ↔
      ∃ s ∈ scopes.states, (if s.key = key then f s else s) = state := List.mem_map

omit [LinearOrder ι] [DecidableEq υ] in
theorem modify_keys
    (hf : ∀ s, (f s).key = s.key) :
    (scopes.modify key f).states.map DeferredScopeState.key =
      scopes.states.map DeferredScopeState.key := by
  rw [DeferredWebhookScopes.modify, List.map_map]
  refine List.map_congr_left fun s _ => ?_
  rw [Function.comp_apply]
  split
  · exact hf s
  · rfl

omit [LinearOrder ι] [DecidableEq υ] in
theorem few_of_keys (hkeys : b.states.map DeferredScopeState.key = a.states.map DeferredScopeState.key) :
    (b.states.filter fun state => state.key ≠ OVERFLOW_SCOPE).length =
      (a.states.filter fun state => state.key ≠ OVERFLOW_SCOPE).length := by
  have hmap : ∀ l : List (DeferredScopeState υ ι),
      (l.filter fun state => state.key ≠ OVERFLOW_SCOPE).length =
        ((l.map DeferredScopeState.key).filter fun key => key ≠ OVERFLOW_SCOPE).length := by
    intro l
    rw [List.filter_map, List.length_map]
    rfl
  rw [hmap, hmap, hkeys]

omit [LinearOrder ι] [DecidableEq υ] in
theorem Wf.modify (h : Wf born scopes)
    (hf : ∀ s, (f s).key = s.key)
    (hkept : ∀ s ∈ scopes.states, s.key = key → Kept born (f s)) : Wf born (scopes.modify key f) where
  keys := by
    rw [modify_keys hf]
    exact h.keys
  few := by
    rw [few_of_keys (modify_keys hf)]
    exact h.few
  kept := by
    intro state hs
    obtain ⟨s, hmem, rfl⟩ := mem_modify.mp hs
    split
    · rename_i hk
      exact hkept s hmem hk
    · exact h.kept s hmem

theorem carried_modify
    (hf : ∀ s ∈ scopes.states, s.key = key → Carries born s (f s)) :
    Carried born scopes (scopes.modify key f) := by
  intro s hs
  refine ⟨_, mem_modify.mpr ⟨s, hs, rfl⟩, ?_⟩
  split
  · rename_i hk
    exact hf s hs hk
  · exact Carries.refl born s

/-! ## capture -/

omit [DecidableEq υ] [LinearOrder ι] in
/-- There are never more states than the limit and the overflow scope. -/
theorem Wf.length_le (h : Wf born scopes) : scopes.states.length ≤ DEFERRED_SCOPE_LIMIT + 1 := by
  have hsplit : scopes.states.length =
      (scopes.states.filter fun state => state.key ≠ OVERFLOW_SCOPE).length +
        (scopes.states.filter fun state => !decide (state.key ≠ OVERFLOW_SCOPE)).length := by
    rw [← List.countP_eq_length_filter, ← List.countP_eq_length_filter,
      List.length_eq_countP_add_countP fun state : DeferredScopeState υ ι =>
        decide (state.key ≠ OVERFLOW_SCOPE)]
    congr 2
    funext state
    simp
  have hone : (scopes.states.filter fun state => !decide (state.key ≠ OVERFLOW_SCOPE)).length ≤ 1 := by
    rw [← List.length_map (f := DeferredScopeState.key)]
    have hsub : ((scopes.states.filter fun state => !decide (state.key ≠ OVERFLOW_SCOPE)).map
        DeferredScopeState.key).Nodup := h.keys.sublist (List.Sublist.map _ List.filter_sublist)
    have hover : ((scopes.states.filter fun state => !decide (state.key ≠ OVERFLOW_SCOPE)).map
        DeferredScopeState.key) ⊆ [OVERFLOW_SCOPE] := by
      intro k hk
      obtain ⟨s, hs, rfl⟩ := List.mem_map.mp hk
      simpa using (List.mem_filter.mp hs).2
    exact (List.subperm_of_subset hsub hover).length_le
  have hfew := h.few
  omega

/-- The states after a capture has found or opened its state. -/
def opened (scopes : DeferredWebhookScopes υ ι) (key : List Char)
    (scope : Option WebhookPreparationScope) : DeferredWebhookScopes υ ι :=
  if scopes.has key then scopes
  else { scopes with
    states := scopes.states ++ [⟨key, if key = OVERFLOW_SCOPE then none else scope, none, none, none, []⟩] }

theorem capture_eq (scope : Option WebhookPreparationScope) :
    ∃ key, (scopes.has key = true ∨ scopes.states.length < DEFERRED_SCOPE_LIMIT ∨
        key = OVERFLOW_SCOPE) ∧
      scopes.capture scope u c =
        (opened scopes key scope).modify key fun state => state.capture u c := by
  have hroom : ∀ requestedKey key : List Char,
      (if scopes.has requestedKey ∨ scopes.states.length < DEFERRED_SCOPE_LIMIT then requestedKey
        else OVERFLOW_SCOPE) = key →
      scopes.has key = true ∨ scopes.states.length < DEFERRED_SCOPE_LIMIT ∨ key = OVERFLOW_SCOPE := by
    intro requestedKey key hkey
    split at hkey
    · rename_i h
      rw [← hkey]
      rcases h with h | h
      · exact .inl h
      · exact .inr (.inl h)
    · exact .inr (.inr hkey.symm)
  exact ⟨_, hroom _ _ rfl, rfl⟩

omit [LinearOrder ι] [DecidableEq υ] in
theorem Wf.opened (h : Wf born scopes) (scope : Option WebhookPreparationScope)
    (hroom : scopes.has key = true ∨ scopes.states.length < DEFERRED_SCOPE_LIMIT ∨
      key = OVERFLOW_SCOPE) : Wf born (opened scopes key scope) := by
  unfold DeferredScopes.opened
  split
  · exact h
  · rename_i hnew
    refine ⟨?_, ?_, ?_⟩
    · rw [List.map_append, List.map_singleton, List.nodup_append]
      refine ⟨h.keys, List.nodup_singleton _, ?_⟩
      intro k hk k' hk' heq
      rw [heq, List.mem_singleton.mp hk'] at hk
      exact hnew (has_iff.mpr hk)
    · rw [List.filter_append, List.length_append]
      by_cases hkey : key = OVERFLOW_SCOPE
      · rw [List.filter_cons_of_neg (by simpa using hkey)]
        exact h.few
      · have hlt : scopes.states.length < DEFERRED_SCOPE_LIMIT := by
          rcases hroom with hr | hr | hr
          · exact absurd hr hnew
          · exact hr
          · exact absurd hr hkey
        have hle := List.length_filter_le (fun state : DeferredScopeState υ ι =>
          decide (state.key ≠ OVERFLOW_SCOPE)) scopes.states
        rw [List.filter_cons_of_pos (by simpa using hkey)]
        simp only [List.filter_nil, List.length_singleton]
        omega
    · intro s hs
      rcases List.mem_append.mp hs with hs | hs
      · exact h.kept s hs
      · rw [List.mem_singleton.mp hs]
        exact ⟨fun _ => rfl, Nat.zero_le _, by simp⟩

theorem carried_opened (born : ι → Nat) (scopes : DeferredWebhookScopes υ ι) (key : List Char)
    (scope : Option WebhookPreparationScope) : Carried born scopes (opened scopes key scope) := by
  intro s hs
  refine ⟨s, ?_, Carries.refl born s⟩
  unfold opened
  split
  · exact hs
  · exact List.mem_append_left _ hs

omit [LinearOrder ι] [DecidableEq υ] in
theorem exists_opened (scope : Option WebhookPreparationScope) :
    ∃ s ∈ (opened scopes key scope).states, s.key = key := by
  unfold opened
  split
  · rename_i h
    obtain ⟨s, hs, hk⟩ := List.mem_map.mp (has_iff.mp h)
    exact ⟨s, hs, hk⟩
  · exact ⟨_, List.mem_append_right _ (List.mem_singleton.mpr rfl), rfl⟩

theorem DeferredScopeState.capture_key (state : DeferredScopeState υ ι) (u : υ)
    (c : DeferredScopeCursor ι) : (state.capture u c).key = state.key := by
  unfold DeferredScopeState.capture
  split
  · rfl
  · split <;> rfl

/-- A capture keeps the states, carries them over and covers its receipt. -/
theorem capture_spec (h : Wf born scopes) (scope : Option WebhookPreparationScope) (u : υ)
    (c : DeferredScopeCursor ι) :
    Wf born (scopes.capture scope u c) ∧ Carried born scopes (scopes.capture scope u c) ∧
      ∀ page, PagesOpen page scopes → Covered page (scopes.capture scope u c) u c := by
  obtain ⟨key, hroom, heq⟩ := @capture_eq _ _ _ _ scopes u c scope
  have hopen := h.opened scope hroom
  rw [heq]
  refine ⟨hopen.modify (fun s => s.capture_key u c) fun s hs _ => (hopen.kept s hs).capture u c,
    (carried_opened born scopes key scope).trans
      (carried_modify fun s _ _ => carries_capture born s u c), fun page hp => ?_⟩
  obtain ⟨s, hs, hk⟩ := @exists_opened _ _ scopes key scope
  refine ⟨s.capture u c, mem_modify.mpr ⟨s, hs, if_pos hk⟩, ?_⟩
  rw [s.capture_key]
  have hp' := hp.carried (carried_opened born scopes key scope)
  exact owes_capture (hopen.kept s hs) (hp'.current hopen.keys hs) u c

/-! ## The walk over a page -/

theorem DeferredScopeState.retain_key (state : DeferredScopeState υ ι) (u : υ)
    (c : DeferredScopeCursor ι) : (state.retain u c).1.key = state.key := by
  unfold DeferredScopeState.retain
  cases state.receipt u with
  | none =>
    dsimp only
    split <;> rfl
  | some existing =>
    dsimp only
    split
    · split <;> rfl
    · rfl

/-- One row: a current row is covered when the walk passes it. -/
theorem visitRow_spec (h : Wf born scopes) (hp : PagesOpen page scopes) {row : Row υ ι}
    (hborn : row.cursor.createdAt = born row.cursor.id)
    (hv : visitRow key row scopes = some b) :
    Wf born b ∧ Carried born scopes b ∧
      (row.current = true → (∃ s ∈ scopes.states, s.key = key) →
        Covered page b row.workUnitKey row.cursor) := by
  unfold visitRow at hv
  split at hv
  · cases hf : scopes.find key with
    | none =>
      rw [hf] at hv
      obtain rfl := Option.some.inj hv
      refine ⟨h, Carried.refl born scopes, fun _ ⟨s, hs, hk⟩ => ?_⟩
      rw [find_of_mem h.keys hs hk] at hf
      simp at hf
    | some state =>
      rw [hf] at hv
      dsimp only at hv
      obtain ⟨hmem, hkey⟩ := find_eq_some hf
      split at hv
      · obtain rfl := Option.some.inj hv
        obtain ⟨hwf, hcar, hcov⟩ := capture_spec h (some row.scope) row.workUnitKey row.cursor
        exact ⟨hwf, hcar, fun _ _ => hcov page hp⟩
      · split at hv
        · rename_i hret
          obtain rfl := Option.some.inj hv
          have hkept : ∀ s ∈ scopes.states, s.key = key →
              Kept born (s.retain row.workUnitKey row.cursor).1 := fun s hs _ =>
            (h.kept s hs).retain row.workUnitKey hborn
          refine ⟨h.modify (fun s => s.retain_key _ _) hkept,
            carried_modify fun s hs _ => carries_retain (h.kept s hs), fun _ _ => ?_⟩
          refine ⟨(state.retain row.workUnitKey row.cursor).1,
            mem_modify.mpr ⟨state, hmem, if_pos hkey⟩, ?_⟩
          exact owes_retain hret
        · simp at hv
  · rename_i hcur
    obtain rfl := Option.some.inj hv
    exact ⟨h, Carried.refl born scopes, fun hc => absurd hc hcur⟩

theorem visitRows_initial (rows : List (Row υ ι)) (scopes : DeferredWebhookScopes υ ι) :
    (visitRows key rows scopes).2.1 <+: rows ∧
      ((visitRows key rows scopes).2.2 = false → (visitRows key rows scopes).2.1 = rows) := by
  induction rows generalizing scopes with
  | nil => exact ⟨List.prefix_refl _, fun _ => rfl⟩
  | cons row rest ih =>
    unfold visitRows
    cases hv : visitRow key row scopes with
    | none => exact ⟨List.nil_prefix, fun h => by simp at h⟩
    | some next =>
      obtain ⟨hpre, hall⟩ := ih next
      exact ⟨(List.prefix_cons_inj row).mpr hpre, fun h => congrArg (List.cons row) (hall h)⟩

theorem visitRows_spec (rows : List (Row υ ι)) (h : Wf born scopes) (hp : PagesOpen page scopes)
    (hopen : ∃ s ∈ scopes.states, s.key = key)
    (hborn : ∀ row ∈ rows, row.cursor.createdAt = born row.cursor.id) :
    Wf born (visitRows key rows scopes).1 ∧ Carried born scopes (visitRows key rows scopes).1 ∧
      ∀ row ∈ (visitRows key rows scopes).2.1, row.current = true →
        Covered page (visitRows key rows scopes).1 row.workUnitKey row.cursor := by
  induction rows generalizing scopes with
  | nil => exact ⟨h, Carried.refl born scopes, by simp [visitRows]⟩
  | cons row rest ih =>
    unfold visitRows
    cases hv : visitRow key row scopes with
    | none => exact ⟨h, Carried.refl born scopes, by simp⟩
    | some next =>
      have hrow := hborn row List.mem_cons_self
      obtain ⟨hwf, hcar, hcov⟩ := visitRow_spec h hp hrow hv
      obtain ⟨s, hs, hk⟩ := hopen
      have hopen' : ∃ s ∈ next.states, s.key = key := by
        obtain ⟨s', hs', hc⟩ := hcar s hs
        exact ⟨s', hs', hc.key.trans hk⟩
      obtain ⟨hwf', hcar', hcov'⟩ := ih hwf (hp.carried hcar) hopen' fun row hr =>
        hborn row (List.mem_cons_of_mem _ hr)
      refine ⟨hwf', hcar.trans hcar', fun r hr hcur => ?_⟩
      rcases List.mem_cons.mp hr with rfl | hr
      · exact (hcov hcur ⟨s, hs, hk⟩).carried hcar' (hp.carried hcar) hwf.keys hrow
      · exact hcov' r hr hcur

theorem Covered.weaken (h : Covered page scopes u c) :
    Covered (fun _ => none) scopes u c := by
  obtain ⟨s, hs, hcov⟩ := h
  exact ⟨s, hs, hcov.covers.owes⟩

omit [LinearOrder ι] [DecidableEq υ] in
theorem mem_advance {after : Option (DeferredScopeCursor ι)} {complete : Bool}
    :
    state ∈ (scopes.advance key after complete).states ↔
      state ∈ (scopes.modify key fun s => s.advance after complete).states ∧
        ¬(state.key = key ∧ state.idle = true) := by
  rw [DeferredWebhookScopes.advance, List.mem_filter]
  refine and_congr_right fun _ => ?_
  cases state.idle <;> simp

/-- `advance` keeps what is not visited: what the page has not shown stays ahead of the cursor. -/
theorem covered_advance {after : Option (DeferredScopeCursor ι)} {complete : Bool}
    (h : Covered page scopes u c)
    (hahead : ∀ s ∈ scopes.states, s.key = key → Shown (page key) c → Ahead s c →
      complete = false ∧ ∀ a, after = some a → a.position < c.position) :
    Covered (fun _ => none) (scopes.advance key after complete) u c := by
  obtain ⟨s, hs, hcov⟩ := h
  have hmod : Covers (if s.key = key then s.advance after complete else s) u c := by
    split
    · rename_i hk
      rw [hk] at hcov
      exact covers_advance hcov (hahead s hs hk)
    · exact hcov.covers
  refine ⟨_, mem_advance.mpr ⟨mem_modify.mpr ⟨s, hs, rfl⟩, fun hidle => ?_⟩, hmod.owes⟩
  exact not_covers_of_idle hidle.2 u c hmod

omit [LinearOrder ι] [DecidableEq υ] in
theorem Wf.advance (h : Wf born scopes)
    (hcur : ∀ s ∈ scopes.states, s.key = key → s.current.isSome = true)
    (after : Option (DeferredScopeCursor ι)) (complete : Bool) :
    Wf born (scopes.advance key after complete) := by
  have hmod : Wf born (scopes.modify key fun s => s.advance after complete) :=
    h.modify (fun s => advance_key s after complete) fun s hs hk =>
      (h.kept s hs).advance (hcur s hs hk) after complete
  have hsub : (scopes.advance key after complete).states.Sublist
      (scopes.modify key fun s => s.advance after complete).states := List.filter_sublist
  exact ⟨hmod.keys.sublist (hsub.map _),
    Nat.le_trans (hsub.filter _).length_le hmod.few, fun s hs => hmod.kept s (hsub.subset hs)⟩

structure PageRows (born : ι → Nat) (rows : List (Row υ ι)) : Prop where
  ascending : rows.Pairwise fun a b => a.cursor.position < b.cursor.position
  dated : ∀ row ∈ rows, row.cursor.createdAt = born row.cursor.id

omit [DecidableEq υ] in
theorem lt_of_prefix {rows visited : List (Row υ ι)} (h : PageRows born rows)
    (hpre : visited <+: rows) {row : Row υ ι} (hr : row ∈ rows) (hnot : row ∉ visited)
    {last : Row υ ι} (hlast : last ∈ visited) : last.cursor.position < row.cursor.position := by
  obtain ⟨rest, rfl⟩ := hpre
  rcases List.mem_append.mp hr with hr | hr
  · exact absurd hr hnot
  · exact (List.pairwise_append.mp h.ascending).2.2 last hlast row hr

/-- The walk over a page: whatever it does not visit, and whatever it visits and takes, is covered
afterwards. -/
theorem visitPage_spec {rows : List (Row υ ι)} (h : Wf born scopes) (hp : PagesOpen page scopes)
    (hpage : page key = some rows) (hrows : PageRows born rows) :
    Wf born (visitPage key rows scopes).1 ∧
      (∀ row ∈ (visitPage key rows scopes).2, row.current = true →
        Covered (fun _ => none) (visitPage key rows scopes).1 row.workUnitKey row.cursor) ∧
      ∀ u c, c.createdAt = born c.id → Covered page scopes u c →
        c ∉ (visitPage key rows scopes).2.map Row.cursor →
          Covered (fun _ => none) (visitPage key rows scopes).1 u c := by
  obtain ⟨s₀, hs₀, hk₀, hcur₀⟩ := hp key (by rw [hpage]; rfl)
  have htaken : ∀ row ∈ rows.take DEFERRED_SCOPE_RAW_PAGE_SIZE,
      row.cursor.createdAt = born row.cursor.id := fun row hr => hrows.dated row (List.mem_of_mem_take hr)
  obtain ⟨hwf, hcar, -⟩ := visitRows_spec (rows.take DEFERRED_SCOPE_RAW_PAGE_SIZE) h hp
    ⟨s₀, hs₀, hk₀⟩ htaken
  obtain ⟨hpre, hall⟩ := @visitRows_initial _ _ _ _ key (rows.take DEFERRED_SCOPE_RAW_PAGE_SIZE) scopes
  have hpre' : (visitRows key (rows.take DEFERRED_SCOPE_RAW_PAGE_SIZE) scopes).2.1 <+: rows :=
    hpre.trans (List.take_prefix _ _)
  have hopen := hp.carried hcar
  have hcur : ∀ s ∈ (visitRows key (rows.take DEFERRED_SCOPE_RAW_PAGE_SIZE) scopes).1.states,
      s.key = key → s.current.isSome = true := fun s hs hk =>
    hopen.current hwf.keys hs (by rw [hk, hpage]; rfl)
  refine ⟨hwf.advance hcur _ _, fun row hr hc => ?_, fun u c hborn hcov hnot => ?_⟩
  · -- a visited row is owed by more than the page: an empty page shows nothing
    have hopen' : PagesOpen (fun k => if k = key then some ([] : List (Row υ ι)) else none) scopes := by
      intro k hk
      by_cases hkey : k = key
      · exact ⟨s₀, hs₀, hk₀.trans hkey.symm, hcur₀⟩
      · simp [hkey] at hk
    obtain ⟨-, -, hvisited⟩ := visitRows_spec (rows.take DEFERRED_SCOPE_RAW_PAGE_SIZE) h hopen'
      ⟨s₀, hs₀, hk₀⟩ htaken
    refine covered_advance (hvisited row hr hc) fun s hs hk hshown => ?_
    rw [if_pos rfl] at hshown
    rcases hshown [] rfl with hmem | hmem
    · simp at hmem
    · simp at hmem
  · refine covered_advance (hcov.carried hcar hp h.keys hborn) fun s hs hk hshown hahead => ?_
    rw [hpage] at hshown
    obtain ⟨s', hs', hcs⟩ := hcar s₀ hs₀
    obtain rfl := eq_of_key hwf.keys hs' hs ((hcs.key.trans hk₀).trans hk.symm)
    have hafter := (hcs.crossing hcur₀).2
    have hmember : ∀ v ∈ (visitRows key (rows.take DEFERRED_SCOPE_RAW_PAGE_SIZE) scopes).2.1,
        v.cursor.position < c.position := by
      intro v hv
      rcases hshown rows rfl with hmem | ⟨-, hbefore⟩
      · obtain ⟨row, hrow, rfl⟩ := List.mem_map.mp hmem
        refine lt_of_prefix hrows hpre' hrow (fun hvis => ?_) hv
        exact hnot (List.mem_map_of_mem hvis)
      · exact hbefore v (hpre'.subset hv)
    refine ⟨?_, fun a ha => ?_⟩
    · rcases hshown rows rfl with hmem | ⟨hfull, -⟩
      · rw [Bool.and_eq_false_iff]
        by_contra hdone
        rw [not_or] at hdone
        have hlen : rows.length ≤ DEFERRED_SCOPE_RAW_PAGE_SIZE := by simpa using hdone.2
        have hvisited := hall (by simpa using hdone.1)
        rw [List.take_of_length_le hlen] at hvisited
        refine hnot ?_
        show c ∈ (visitRows key (rows.take DEFERRED_SCOPE_RAW_PAGE_SIZE) scopes).2.1.map Row.cursor
        rw [List.take_of_length_le hlen, hvisited]
        exact hmem
      · simp [Nat.not_le.mpr hfull]
    · cases hlast : (visitRows key (rows.take DEFERRED_SCOPE_RAW_PAGE_SIZE) scopes).2.1.getLast? with
      | some v =>
        rw [hlast, Option.some.injEq] at ha
        rw [← ha]
        exact hmember v (List.mem_of_getLast? hlast)
      | none =>
        rw [hlast] at ha
        dsimp only at ha
        rw [find_of_mem h.keys hs₀ hk₀, Option.bind_some, ← hafter] at ha
        obtain ⟨i, -, -, hlt⟩ := hahead
        exact hlt a ha

/-! ## selectReaders and release -/

omit [LinearOrder ι] [DecidableEq υ] in
theorem ordered_perm (scopes : DeferredWebhookScopes υ ι) (offset : Nat) :
    (scopes.ordered offset).Perm scopes.states := by
  have happ := List.take_append_drop (offset % scopes.states.length) scopes.states
  rw [DeferredWebhookScopes.ordered]
  exact List.perm_append_comm.trans (by rw [happ])

/-- Selection promotes states, and what it selects has an interval to cross. -/
theorem selectReaders_spec (h : Wf born scopes) (take : Nat) :
    Wf born (scopes.selectReaders take).1 ∧ Carried born scopes (scopes.selectReaders take).1 ∧
      (scopes.selectReaders take).2.Nodup ∧
      ∀ key ∈ (scopes.selectReaders take).2, ∃ s ∈ (scopes.selectReaders take).1.states,
        s.key = key ∧ s.current.isSome = true := by
  rw [DeferredWebhookScopes.selectReaders]
  split
  · exact ⟨h, Carried.refl born scopes, List.nodup_nil, by simp⟩
  · have hwalked : ((scopes.ordered scopes.readOffset).take
        (DeferredWebhookScopes.visited take (scopes.ordered scopes.readOffset) 0)).Sublist
          (scopes.ordered scopes.readOffset) := List.take_sublist _ _
    generalize (scopes.ordered scopes.readOffset).take
      (DeferredWebhookScopes.visited take (scopes.ordered scopes.readOffset) 0) = walked at hwalked
    have hkeys : ((scopes.states.map fun s =>
        if walked.any fun w => decide (w.key = s.key) then s.promote else s).map
          DeferredScopeState.key) = scopes.states.map DeferredScopeState.key := by
      rw [List.map_map]
      refine List.map_congr_left fun s _ => ?_
      rw [Function.comp_apply]
      split
      · exact promote_key s
      · rfl
    refine ⟨⟨?_, ?_, ?_⟩, ?_, ?_, ?_⟩
    · rw [hkeys]
      exact h.keys
    · exact (few_of_keys (a := scopes) hkeys).trans_le h.few
    · intro s' hs'
      obtain ⟨s, hs, rfl⟩ := List.mem_map.mp hs'
      split
      · exact (h.kept s hs).promote
      · exact h.kept s hs
    · intro s hs
      refine ⟨_, List.mem_map_of_mem hs, ?_⟩
      split
      · exact carries_promote born s
      · exact Carries.refl born s
    · have hnodup : (walked.map DeferredScopeState.key).Nodup :=
        (((ordered_perm scopes scopes.readOffset).map DeferredScopeState.key).nodup_iff.mpr
          h.keys).sublist (hwalked.map _)
      exact hnodup.sublist (List.filter_sublist.map _)
    · intro key hkey
      obtain ⟨s, hs, rfl⟩ := List.mem_map.mp hkey
      obtain ⟨hmem, hread⟩ := List.mem_filter.mp hs
      have hstate : s ∈ scopes.states :=
        (ordered_perm scopes scopes.readOffset).mem_iff.mp (hwalked.subset hmem)
      have hany : walked.any (fun w => decide (w.key = s.key)) = true :=
        List.any_eq_true.mpr ⟨s, hmem, by simp⟩
      refine ⟨s.promote, List.mem_map.mpr ⟨s, hstate, if_pos hany⟩, promote_key s, ?_⟩
      exact (Bool.and_eq_true_iff.mp hread).1

theorem mem_release {receiptId : ι} :
    state ∈ (scopes.release u receiptId).states ↔
      (∃ s ∈ scopes.states, s.release u receiptId = state) ∧ state.idle = false := by
  rw [DeferredWebhookScopes.release, List.mem_filter, List.mem_map, Bool.not_eq_true']

/-- A release keeps every receipt but the one that it gives back, and every interval. -/
theorem release_spec (h : Wf born scopes) (u : υ) (receiptId : ι) :
    Wf born (scopes.release u receiptId) ∧
      (∀ s ∈ scopes.states, s.current.isSome = true →
        ∃ s' ∈ (scopes.release u receiptId).states, s'.key = s.key ∧ s'.current = s.current) ∧
      ∀ page u' c, Covered page scopes u' c → ¬(u' = u ∧ c.id = receiptId) →
        Covered page (scopes.release u receiptId) u' c := by
  have hkeys : (scopes.states.map fun s => s.release u receiptId).map DeferredScopeState.key =
      scopes.states.map DeferredScopeState.key := by
    rw [List.map_map]
    exact List.map_congr_left fun s _ => release_key s u receiptId
  have hfew := few_of_keys (a := scopes)
    (b := { scopes with states := scopes.states.map fun s => s.release u receiptId }) hkeys
  have hsub : (scopes.release u receiptId).states.Sublist
      (scopes.states.map fun s => s.release u receiptId) := List.filter_sublist
  refine ⟨⟨?_, ?_, ?_⟩, fun s hs hcur => ?_, fun page u' c hcov hother => ?_⟩
  · exact (hkeys ▸ h.keys : ((scopes.states.map fun s => s.release u receiptId).map
      DeferredScopeState.key).Nodup).sublist (hsub.map _)
  · exact Nat.le_trans (hsub.filter _).length_le (hfew.trans_le h.few)
  · intro s' hs'
    obtain ⟨⟨s, hs, rfl⟩, -⟩ := mem_release.mp hs'
    exact (h.kept s hs).release u receiptId
  · obtain ⟨hc, -, -⟩ := release_intervals s u receiptId
    refine ⟨s.release u receiptId, mem_release.mpr ⟨⟨s, hs, rfl⟩, ?_⟩, release_key s u receiptId, hc⟩
    obtain ⟨i, hi⟩ := Option.isSome_iff_exists.mp hcur
    simp [DeferredScopeState.idle, hc, hi]
  · obtain ⟨s, hs, howes⟩ := hcov
    have hkept := owes_release howes hother
    refine ⟨s.release u receiptId, mem_release.mpr ⟨⟨s, hs, rfl⟩, ?_⟩, by rwa [release_key]⟩
    rw [Bool.eq_false_iff]
    exact fun hidle => not_covers_of_idle hidle u' c hkept.covers

end Maxim.Webhook.DeferredScopes
