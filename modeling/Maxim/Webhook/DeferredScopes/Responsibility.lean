import Maxim.Webhook.DeferredScopes.Scopes

/-!
# No receipt is forgotten

In every run a captured receipt is covered by a live state until it is released
with its exact id or visited by a reader. States are dropped only when they
cover nothing, and there are never many of them.
-/

namespace Maxim.Webhook.DeferredScopes

open Maxim.Library

variable {υ ι : Type} [DecidableEq υ] [LinearOrder ι] {born : ι → Nat} {s : System υ ι} {u : υ}
  {c : DeferredScopeCursor ι}

abbrev Event (υ ι : Type) := Entry (Request υ ι) (Reply υ ι)

/-- The event captures the receipt, or visits its row and takes it. -/
def Takes (u : υ) (c : DeferredScopeCursor ι) (e : Event υ ι) : Prop :=
  (∃ scope, e.request = .capture scope u c) ∨
    ∃ rows, e.reply = .visited rows ∧
      ∃ row ∈ rows, row.current = true ∧ row.workUnitKey = u ∧ row.cursor = c

/-- The event releases the receipt with its exact id, or a reader visits it. -/
def Ends (u : υ) (c : DeferredScopeCursor ι) (e : Event υ ι) : Prop :=
  e.request = .release u c.id ∨ ∃ rows, e.reply = .visited rows ∧ c ∈ rows.map Row.cursor

/-- What the outbox and the database promise: a receipt has one date, and a page query sees the
rows in their order, among them every receipt that was taken and neither released nor visited. -/
def Promised (born : ι → Nat) (h : List (Event υ ι)) (_now : Nat) : Request υ ι → Prop
  | .capture _ _ c => c.createdAt = born c.id
  | .page table =>
    (table.Pairwise fun a b => a.cursor.position < b.cursor.position) ∧
      (∀ row ∈ table, row.cursor.createdAt = born row.cursor.id) ∧
      ∀ u c, Pending (Takes u c) (Ends u c) h → c ∈ table.map Row.cursor
  | _ => True

abbrev ScopesRun (born : ι → Nat) (h : List (Event υ ι)) (t : Nat) (s : System υ ι) : Prop :=
  Run step (Promised born) System.start h t s

/-- The page that waits for its walk. -/
def pageOf (reading : List (Reader υ ι)) (key : List Char) : Option (List (Row υ ι)) :=
  match reading with
  | [] => none
  | r :: _ => if r.key = key then r.page else none

structure Good (born : ι → Nat) (s : System υ ι) : Prop where
  wf : Wf born s.scopes
  crossing : ∀ r ∈ s.reading, ∃ state ∈ s.scopes.states,
    state.key = r.key ∧ state.current.isSome = true
  distinct : (s.reading.map Reader.key).Nodup
  waiting : ∀ r ∈ s.reading.tail, r.page = none
  rows : ∀ r ∈ s.reading, ∀ rows, r.page = some rows → PageRows born rows

def Owed (s : System υ ι) (u : υ) (c : DeferredScopeCursor ι) : Prop :=
  Covered (pageOf s.reading) s.scopes u c

omit [DecidableEq υ] [LinearOrder ι] in
theorem pageOf_of_none {reading : List (Reader υ ι)} (h : ∀ r ∈ reading, r.page = none) :
    pageOf reading = fun _ => none := by
  funext key
  cases reading with
  | nil => rfl
  | cons r rest =>
    rw [pageOf, h r List.mem_cons_self, ite_self]

omit [DecidableEq υ] in
theorem Good.pagesOpen (hg : Good born s) : PagesOpen (pageOf s.reading) s.scopes := by
  intro key hkey
  cases hr : s.reading with
  | nil => simp [pageOf, hr] at hkey
  | cons r rest =>
    rw [hr, pageOf] at hkey
    split at hkey
    · rename_i hk
      obtain ⟨state, hs, hsk, hcur⟩ := hg.crossing r (by rw [hr]; exact List.mem_cons_self)
      exact ⟨state, hs, hsk.trans hk, hcur⟩
    · simp at hkey

omit [DecidableEq υ] in
theorem good_start : Good born (System.start : System υ ι) where
  wf := ⟨List.nodup_nil, Nat.zero_le _, by simp [System.start, DeferredWebhookScopes.empty]⟩
  crossing := by simp [System.start]
  distinct := List.nodup_nil
  waiting := by simp [System.start]
  rows := by simp [System.start]

variable {scopes : DeferredWebhookScopes υ ι}

theorem Good.carried (hg : Good born s) (hwf : Wf born scopes)
    (hc : Carried born s.scopes scopes) : Good born ⟨scopes, s.reading⟩ where
  wf := hwf
  crossing r hr := by
    obtain ⟨state, hs, hk, hcur⟩ := hg.crossing r hr
    obtain ⟨state', hs', hcar⟩ := hc state hs
    exact ⟨state', hs', hcar.key.trans hk, by rw [(hcar.crossing hcur).1]; exact hcur⟩
  distinct := hg.distinct
  waiting := hg.waiting
  rows := hg.rows

/-! ## Each request -/

/-- What one request does: the state stays good, and what was taken and is owed, or is taken now, is
owed unless the request ends it. -/
structure Responsible (born : ι → Nat) (taken : υ → DeferredScopeCursor ι → Prop) (s : System υ ι)
    (e : Event υ ι) (s' : System υ ι) : Prop where
  good : Good born s'
  keeps : ∀ u c, taken u c → c.createdAt = born c.id → Owed s u c → ¬Ends u c e → Owed s' u c
  takes : ∀ u c, Takes u c e → Owed s' u c
  dated : ∀ u c, Takes u c e → c.createdAt = born c.id

variable {now : Nat} {taken : υ → DeferredScopeCursor ι → Prop}

theorem responsible_capture (hg : Good born s) (scope : Option WebhookPreparationScope)
    (hc : c.createdAt = born c.id) :
    Responsible born taken s ⟨now, .capture scope u c, .done⟩ (step now (.capture scope u c) s).1 := by
  obtain ⟨hwf, hcar, hcov⟩ := capture_spec hg.wf scope u c
  refine ⟨hg.carried hwf hcar, fun u' c' _ hborn howed _ => ?_, fun u' c' ht => ?_, fun u' c' ht => ?_⟩
  · exact howed.carried hcar hg.pagesOpen hg.wf.keys hborn
  · rcases ht with ⟨scope', heq⟩ | ⟨rows, hrows, -⟩
    · obtain ⟨-, rfl, rfl⟩ := Request.capture.inj heq
      exact hcov _ hg.pagesOpen
    · simp at hrows
  · rcases ht with ⟨scope', heq⟩ | ⟨rows, hrows, -⟩
    · obtain ⟨-, rfl, rfl⟩ := Request.capture.inj heq
      exact hc
    · simp at hrows

omit [DecidableEq υ] [LinearOrder ι] in
theorem not_takes {request : Request υ ι} {reply : Reply υ ι}
    (hreq : ∀ scope u c, request ≠ .capture scope u c) (hrep : ∀ rows, reply ≠ .visited rows) :
    ¬Takes u c ⟨now, request, reply⟩ := by
  rintro (⟨scope, heq⟩ | ⟨rows, heq, -⟩)
  · exact hreq _ _ _ heq
  · exact hrep _ heq

theorem responsible_selectReaders (hg : Good born s) (take : Nat) :
    Responsible born taken s ⟨now, .selectReaders take, .selected (s.scopes.selectReaders take).2⟩
      (step now (.selectReaders take) s).1 := by
  obtain ⟨hwf, hcar, hnodup, hopen⟩ := selectReaders_spec hg.wf take
  have hnone : pageOf ((s.scopes.selectReaders take).2.map fun key =>
      (⟨key, none⟩ : Reader υ ι)) = fun _ => none :=
    pageOf_of_none (by simp)
  refine ⟨⟨hwf, ?_, ?_, ?_, ?_⟩, fun u c _ hborn howed _ => ?_, fun u c ht => ?_, fun u c ht => ?_⟩
  · intro r hr
    obtain ⟨key, hkey, rfl⟩ := List.mem_map.mp hr
    exact hopen key hkey
  · show (((s.scopes.selectReaders take).2.map fun key => (⟨key, none⟩ : Reader υ ι)).map
      Reader.key).Nodup
    rw [List.map_map]
    exact (List.map_id' (s.scopes.selectReaders take).2).symm ▸ hnodup
  · intro r hr
    obtain ⟨key, -, rfl⟩ := List.mem_map.mp (List.mem_of_mem_tail hr)
    rfl
  · intro r hr rows hrows
    obtain ⟨key, -, rfl⟩ := List.mem_map.mp hr
    simp at hrows
  · show Covered (pageOf ((s.scopes.selectReaders take).2.map fun key =>
      (⟨key, none⟩ : Reader υ ι))) (s.scopes.selectReaders take).1 u c
    rw [hnone]
    exact howed.weaken.carried hcar (fun key hk => by simp at hk) hg.wf.keys hborn
  · exact absurd ht (not_takes (by simp) (by simp))
  · exact absurd ht (not_takes (by simp) (by simp))

theorem responsible_same (hg : Good born s) {request : Request υ ι} {reply : Reply υ ι}
    (hreq : ∀ scope u c, request ≠ .capture scope u c) (hrep : ∀ rows, reply ≠ .visited rows) :
    Responsible born taken s ⟨now, request, reply⟩ s where
  good := hg
  keeps _ _ _ _ h _ := h
  takes _ _ ht := absurd ht (not_takes hreq hrep)
  dated _ _ ht := absurd ht (not_takes hreq hrep)

variable {state : DeferredScopeState υ ι}

theorem shown_page {table : List (Row υ ι)}
    (hasc : table.Pairwise fun a b => a.cursor.position < b.cursor.position)
    (hc : c ∈ table.map Row.cursor) (hahead : Ahead state c) :
    Shown (some (deferredScopePage state table)) c := by
  intro rows hrows
  rw [Option.some.injEq] at hrows
  subst hrows
  obtain ⟨row, hrow, rfl⟩ := List.mem_map.mp hc
  obtain ⟨i, hi, hw, hafter⟩ := hahead
  unfold deferredScopePage
  have hmem : row ∈ table.filter fun row =>
      (state.current.any fun i => decide (i.first.position ≤ row.cursor.position) &&
        decide (row.cursor.position ≤ i.last.position)) &&
        state.after.all fun a => decide (a.position < row.cursor.position) := by
    refine List.mem_filter.mpr ⟨hrow, ?_⟩
    cases ha : state.after with
    | none => simp [hi, hw.1, hw.2]
    | some a => simp [hi, hw.1, hw.2, hafter a ha]
  have hsorted := hasc.sublist (List.filter_sublist (l := table) (p := fun row =>
      (state.current.any fun i => decide (i.first.position ≤ row.cursor.position) &&
        decide (row.cursor.position ≤ i.last.position)) &&
        state.after.all fun a => decide (a.position < row.cursor.position)))
  generalize table.filter _ = rows at hmem hsorted
  by_cases hin : row ∈ rows.take (DEFERRED_SCOPE_RAW_PAGE_SIZE + 1)
  · exact .inl (List.mem_map_of_mem hin)
  · rw [← List.take_append_drop (DEFERRED_SCOPE_RAW_PAGE_SIZE + 1) rows] at hmem hsorted
    have hdrop := (List.mem_append.mp hmem).resolve_left hin
    refine .inr ⟨?_, fun r hr => (List.pairwise_append.mp hsorted).2.2 r hr row hdrop⟩
    have hpos := List.length_pos_of_mem hdrop
    rw [List.length_drop] at hpos
    rw [List.length_take]
    omega

omit [DecidableEq υ] in
theorem pageRows_page {table : List (Row υ ι)}
    (hasc : table.Pairwise fun a b => a.cursor.position < b.cursor.position)
    (hdated : ∀ row ∈ table, row.cursor.createdAt = born row.cursor.id) :
    PageRows born (deferredScopePage state table) := by
  have hsub : (deferredScopePage state table).Sublist table :=
    (List.take_sublist _ _).trans List.filter_sublist
  exact ⟨hasc.sublist hsub, fun row hr => hdated row (hsub.subset hr)⟩

theorem responsible_page (hg : Good born s) {table : List (Row υ ι)}
    (hasc : table.Pairwise fun a b => a.cursor.position < b.cursor.position)
    (hdated : ∀ row ∈ table, row.cursor.createdAt = born row.cursor.id)
    (htaken : ∀ u c, taken u c → c ∈ table.map Row.cursor) :
    Responsible born taken s ⟨now, .page table, .done⟩ (step now (.page table) s).1 := by
  rcases hr : s.reading with _ | ⟨⟨key, _ | old⟩, rest⟩
  · have hstep : (step now (.page table) s).1 = s := by simp only [step, hr]
    rw [hstep]
    exact responsible_same hg (by simp) (by simp)
  · obtain ⟨state, hs, hk, hcur⟩ := hg.crossing ⟨key, none⟩ (by rw [hr]; exact List.mem_cons_self)
    have hfind : s.scopes.find key = some state := find_of_mem hg.wf.keys hs hk
    have hstep : (step now (.page table) s).1 =
        { s with reading := ⟨key, some (deferredScopePage state table)⟩ :: rest } := by
      simp only [step, hr, hfind, Option.map_some]
    rw [hstep]
    have hdistinct := hg.distinct
    have hcrossing := hg.crossing
    have hwaiting := hg.waiting
    have hrows := hg.rows
    rw [hr] at hdistinct hcrossing hwaiting hrows
    refine ⟨⟨hg.wf, ?_, hdistinct, hwaiting, ?_⟩, fun u c ht _ howed _ => ?_, fun u c ht => ?_,
      fun u c ht => ?_⟩
    · intro r hmem
      rcases List.mem_cons.mp hmem with rfl | hmem
      · exact ⟨state, hs, hk, hcur⟩
      · exact hcrossing r (List.mem_cons_of_mem _ hmem)
    · intro r hmem rows hpage
      rcases List.mem_cons.mp hmem with rfl | hmem
      · rw [Option.some.injEq] at hpage
        subst hpage
        exact pageRows_page hasc hdated
      · exact hrows r (List.mem_cons_of_mem _ hmem) rows hpage
    · obtain ⟨s', hs', howes⟩ := howed
      refine ⟨s', hs', ?_⟩
      rcases howes with h | ⟨h, -⟩ | h
      · exact .inl h
      · refine .inr (.inl ⟨h, ?_⟩)
        rw [pageOf]
        split
        · rename_i hkey
          obtain rfl := eq_of_key hg.wf.keys hs hs' (hk.trans hkey)
          exact shown_page hasc (htaken u c ht) h
        · exact fun rows hrows => by simp at hrows
      · exact .inr (.inr h)
    · exact absurd ht (not_takes (by simp) (by simp))
    · exact absurd ht (not_takes (by simp) (by simp))
  · have hstep : (step now (.page table) s).1 = s := by simp only [step, hr]
    rw [hstep]
    exact responsible_same hg (by simp) (by simp)

omit [DecidableEq υ] in
theorem Good.next {r : Reader υ ι} {rest : List (Reader υ ι)}
    (hg : Good born s) (hr : s.reading = r :: rest) (hwf : Wf born scopes)
    (hcrossing : ∀ r ∈ rest, ∃ state ∈ scopes.states,
      state.key = r.key ∧ state.current.isSome = true) : Good born ⟨scopes, rest⟩ := by
  have hdistinct := hg.distinct
  have hwaiting := hg.waiting
  have hrows := hg.rows
  rw [hr] at hdistinct hwaiting hrows
  rw [List.map_cons, List.nodup_cons] at hdistinct
  exact ⟨hwf, hcrossing, hdistinct.2, fun r hr => hwaiting r (List.mem_of_mem_tail hr),
    fun r hr => hrows r (List.mem_cons_of_mem _ hr)⟩

theorem responsible_pageFailed (hg : Good born s) :
    Responsible born taken s ⟨now, .pageFailed, .done⟩ (step now .pageFailed s).1 := by
  rcases hr : s.reading with _ | ⟨⟨key, _ | old⟩, rest⟩
  · have hstep : (step now .pageFailed s).1 = s := by simp only [step, hr]
    rw [hstep]
    exact responsible_same hg (by simp) (by simp)
  · have hstep : (step now .pageFailed s).1 = { s with reading := rest } := by simp only [step, hr]
    have hwaiting : ∀ r ∈ rest, r.page = none := by
      have h := hg.waiting
      rwa [hr] at h
    rw [hstep]
    refine ⟨hg.next hr hg.wf fun r hmem => hg.crossing r (by rw [hr]; exact List.mem_cons_of_mem _ hmem),
      fun u c _ _ howed _ => ?_, fun u c ht => ?_, fun u c ht => ?_⟩
    · show Covered (pageOf rest) s.scopes u c
      rw [pageOf_of_none hwaiting]
      exact howed.weaken
    · exact absurd ht (not_takes (by simp) (by simp))
    · exact absurd ht (not_takes (by simp) (by simp))
  · have hstep : (step now .pageFailed s).1 = s := by simp only [step, hr]
    rw [hstep]
    exact responsible_same hg (by simp) (by simp)

theorem crossing_visitPage {key : List Char} {rows : List (Row υ ι)}
    {page : List Char → Option (List (Row υ ι))} (h : Wf born scopes) (hp : PagesOpen page scopes)
    (hopen : ∃ state ∈ scopes.states, state.key = key) (hrows : PageRows born rows)
    (hs : state ∈ scopes.states) (hne : state.key ≠ key)
    (hcur : state.current.isSome = true) :
    ∃ state' ∈ (visitPage key rows scopes).1.states,
      state'.key = state.key ∧ state'.current.isSome = true := by
  obtain ⟨-, hcar, -⟩ := visitRows_spec (rows.take DEFERRED_SCOPE_RAW_PAGE_SIZE) h hp
    hopen fun row hr => hrows.dated row (List.mem_of_mem_take hr)
  obtain ⟨state', hs', hc⟩ := hcar state hs
  refine ⟨state', mem_advance.mpr ⟨mem_modify.mpr ⟨state', hs', ?_⟩, fun hidle => ?_⟩, hc.key, ?_⟩
  · exact if_neg (by rw [hc.key]; exact hne)
  · exact hne (hc.key.symm.trans hidle.1)
  · rw [(hc.crossing hcur).1]
    exact hcur

theorem responsible_visit (hg : Good born s) :
    Responsible born taken s ⟨now, .visit, (step now .visit s).2⟩ (step now .visit s).1 := by
  rcases hr : s.reading with _ | ⟨⟨key, _ | rows⟩, rest⟩
  · have hstep : step now .visit s = (s, .done) := by simp only [step, hr]
    rw [hstep]
    exact responsible_same hg (by simp) (by simp)
  · have hstep : step now .visit s = (s, .done) := by simp only [step, hr]
    rw [hstep]
    exact responsible_same hg (by simp) (by simp)
  · have hstep : step now .visit s =
        (⟨(visitPage key rows s.scopes).1, rest⟩, .visited (visitPage key rows s.scopes).2) := by
      simp only [step, hr]
    have hhead : (⟨key, some rows⟩ : Reader υ ι) ∈ s.reading := by rw [hr]; exact List.mem_cons_self
    have hrows := hg.rows _ hhead rows rfl
    have hpage : pageOf s.reading key = some rows := by rw [hr, pageOf, if_pos rfl]
    have hwaiting : ∀ r ∈ rest, r.page = none := by
      have h := hg.waiting
      rwa [hr] at h
    have hdistinct := hg.distinct
    rw [hr, List.map_cons, List.nodup_cons] at hdistinct
    obtain ⟨hwf, hvisited, hkept⟩ := visitPage_spec hg.wf hg.pagesOpen hpage hrows
    obtain ⟨state, hs, hk, -⟩ := hg.crossing _ hhead
    have hcrossing : ∀ r ∈ rest, ∃ state ∈ (visitPage key rows s.scopes).1.states,
        state.key = r.key ∧ state.current.isSome = true := by
      intro r hmem
      obtain ⟨other, ho, hok, hcur⟩ := hg.crossing r (by rw [hr]; exact List.mem_cons_of_mem _ hmem)
      have hne : other.key ≠ key := by
        intro heq
        exact hdistinct.1 (List.mem_map.mpr ⟨r, hmem, hok.symm.trans heq⟩)
      obtain ⟨other', ho', hkey', hcur'⟩ :=
        crossing_visitPage hg.wf hg.pagesOpen ⟨state, hs, hk⟩ hrows ho hne hcur
      exact ⟨other', ho', hkey'.trans hok, hcur'⟩
    have hsub : (visitPage key rows s.scopes).2 <+: rows :=
      (visitRows_initial _ _).1.trans (List.take_prefix _ _)
    rw [hstep]
    refine ⟨hg.next hr hwf hcrossing, fun u c _ hborn howed hends => ?_, fun u c ht => ?_,
      fun u c ht => ?_⟩
    · show Covered (pageOf rest) _ u c
      rw [pageOf_of_none hwaiting]
      exact hkept u c hborn howed fun hmem => hends (.inr ⟨_, rfl, hmem⟩)
    · rcases ht with ⟨scope, heq⟩ | ⟨rows', heq, row, hrow, hcur, rfl, rfl⟩
      · simp at heq
      · obtain rfl := Reply.visited.inj heq
        show Covered (pageOf rest) _ _ _
        rw [pageOf_of_none hwaiting]
        exact hvisited row hrow hcur
    · rcases ht with ⟨scope, heq⟩ | ⟨rows', heq, row, hrow, hcur, rfl, rfl⟩
      · simp at heq
      · obtain rfl := Reply.visited.inj heq
        exact hrows.dated row (hsub.subset hrow)

theorem responsible_release (hg : Good born s) (u : υ) (receiptId : ι) :
    Responsible born taken s ⟨now, .release u receiptId, .done⟩
      (step now (.release u receiptId) s).1 := by
  obtain ⟨hwf, hcurrent, hkept⟩ := release_spec hg.wf u receiptId
  refine ⟨⟨hwf, fun r hr => ?_, hg.distinct, hg.waiting, hg.rows⟩, fun u' c _ _ howed hends => ?_,
    fun u' c ht => ?_, fun u' c ht => ?_⟩
  · obtain ⟨state, hs, hk, hcur⟩ := hg.crossing r hr
    obtain ⟨state', hs', hk', hcur'⟩ := hcurrent state hs hcur
    exact ⟨state', hs', hk'.trans hk, by rw [hcur']; exact hcur⟩
  · refine hkept _ u' c howed fun hsame => hends (.inl ?_)
    obtain ⟨rfl, rfl⟩ := hsame
    rfl
  · exact absurd ht (not_takes (by simp) (by simp))
  · exact absurd ht (not_takes (by simp) (by simp))

omit [DecidableEq υ] [LinearOrder ι] in
theorem identities_states (scopes : DeferredWebhookScopes υ ι) (take : Nat) :
    (scopes.identities take).1.states = scopes.states := by
  rw [DeferredWebhookScopes.identities]
  split <;> rfl

theorem responsible_identities (hg : Good born s) (take : Nat) :
    Responsible born taken s ⟨now, .identities take, (step now (.identities take) s).2⟩
      (step now (.identities take) s).1 := by
  have hstates := identities_states s.scopes take
  have hwf : Wf born (s.scopes.identities take).1 := by
    refine ⟨?_, ?_, ?_⟩
    all_goals rw [hstates]
    · exact hg.wf.keys
    · exact hg.wf.few
    · exact hg.wf.kept
  have hcar : Carried born s.scopes (s.scopes.identities take).1 := by
    intro state hs
    exact ⟨state, by rwa [hstates], Carries.refl born state⟩
  refine ⟨hg.carried hwf hcar, fun u c _ hborn howed _ => ?_, fun u c ht => ?_, fun u c ht => ?_⟩
  · exact howed.carried hcar hg.pagesOpen hg.wf.keys hborn
  · exact absurd ht (not_takes (by simp) (by simp [step]))
  · exact absurd ht (not_takes (by simp) (by simp [step]))

/-! ## Every run -/

theorem responsible_step {h : List (Event υ ι)} (hg : Good born s) (request : Request υ ι)
    (hpromise : Promised born h now request) :
    Responsible born (fun u c => Pending (Takes u c) (Ends u c) h) s
      ⟨now, request, (step now request s).2⟩ (step now request s).1 := by
  cases request with
  | capture scope u c => exact responsible_capture hg scope hpromise
  | selectReaders take => exact responsible_selectReaders hg take
  | page table =>
    have hdone : (step now (.page table) s).2 = .done := by
      simp only [step]
      split <;> rfl
    rw [hdone]
    exact responsible_page hg hpromise.1 hpromise.2.1 hpromise.2.2
  | pageFailed =>
    have hdone : (step now .pageFailed s).2 = .done := by
      simp only [step]
      split <;> rfl
    rw [hdone]
    exact responsible_pageFailed hg
  | visit => exact responsible_visit hg
  | identities take => exact responsible_identities hg take
  | release u receiptId => exact responsible_release hg u receiptId

structure Sound (born : ι → Nat) (h : List (Event υ ι)) (s : System υ ι) : Prop where
  good : Good born s
  owed : ∀ u c, Pending (Takes u c) (Ends u c) h → Owed s u c
  dated : ∀ e ∈ h, ∀ u c, Takes u c e → c.createdAt = born c.id

theorem sound {h : List (Event υ ι)} {t : Nat} (hr : ScopesRun born h t s) : Sound born h s := by
  refine hr.invariant (fun h _ s => Sound born h s) ⟨good_start, fun u c hp => ?_, by simp⟩
    (fun _ _ _ _ hs _ => hs) fun h t s request hs hpromise => ?_
  · exact absurd hp not_pending_nil
  · have hresp := @responsible_step _ _ _ _ _ _ t _ hs.good request hpromise
    refine ⟨hresp.good, fun u c hp => ?_, fun e he u c ht => ?_⟩
    · rcases pending_snoc.mp hp with ht | ⟨hp, hends⟩
      · exact hresp.takes u c ht
      · have hdated : c.createdAt = born c.id := by
          obtain ⟨h₁, e, h₂, rfl, ht, -⟩ := hp
          exact hs.dated e (List.mem_append_right _ List.mem_cons_self) u c ht
        exact hresp.keeps u c hp hdated (hs.owed u c hp) hends
    · rcases List.mem_append.mp he with he | he
      · exact hs.dated e he u c ht
      · rw [List.mem_singleton.mp he] at ht
        exact hresp.dated u c ht

/-- The states as a request leaves them before it prunes. -/
def touched (request : Request υ ι) (s : System υ ι) : List (DeferredScopeState υ ι) :=
  match request, s.reading with
  | .release u receiptId, _ => s.scopes.states.map fun state => state.release u receiptId
  | .visit, ⟨key, some rows⟩ :: _ =>
    let r := visitRows key (rows.take DEFERRED_SCOPE_RAW_PAGE_SIZE) s.scopes
    let after := match r.2.1.getLast? with
      | some row => some row.cursor
      | none => (s.scopes.find key).bind DeferredScopeState.after
    (r.1.modify key fun state => state.advance after
      (!r.2.2 && decide (rows.length ≤ DEFERRED_SCOPE_RAW_PAGE_SIZE))).states
  | _, _ => s.scopes.states

theorem visitRows_of_good {key : List Char} {rows : List (Row υ ι)} {rest : List (Reader υ ι)}
    (hg : Good born s) (hr : s.reading = ⟨key, some rows⟩ :: rest) :
    Wf born (visitRows key (rows.take DEFERRED_SCOPE_RAW_PAGE_SIZE) s.scopes).1 ∧
      Carried born s.scopes (visitRows key (rows.take DEFERRED_SCOPE_RAW_PAGE_SIZE) s.scopes).1 ∧
      (visitRows key (rows.take DEFERRED_SCOPE_RAW_PAGE_SIZE) s.scopes).2.1 <+:
        rows.take DEFERRED_SCOPE_RAW_PAGE_SIZE := by
  have hhead : (⟨key, some rows⟩ : Reader υ ι) ∈ s.reading := by rw [hr]; exact List.mem_cons_self
  have hrows := hg.rows _ hhead rows rfl
  obtain ⟨state, hs, hk, -⟩ := hg.crossing _ hhead
  obtain ⟨hwf, hcar, -⟩ := visitRows_spec (rows.take DEFERRED_SCOPE_RAW_PAGE_SIZE) hg.wf hg.pagesOpen
    ⟨state, hs, hk⟩ fun row hr => hrows.dated row (List.mem_of_mem_take hr)
  exact ⟨hwf, hcar, (visitRows_initial _ _).1⟩

/-- A key that a request drops belonged to a state that covered nothing any more. -/
theorem dropped_idle {h : List (Event υ ι)} {t : Nat} (hr : ScopesRun born h t s) (now : Nat)
    (request : Request υ ι) {key : List Char} (hkey : key ∈ s.scopes.states.map DeferredScopeState.key)
    (hgone : key ∉ (step now request s).1.scopes.states.map DeferredScopeState.key) :
    ∃ state ∈ touched request s, state.key = key ∧ state.idle = true := by
  have hwf := (sound hr).good.wf
  obtain ⟨state, hs, rfl⟩ := List.mem_map.mp hkey
  -- a request that carries the states over drops no key
  have hcarried : ¬Carried born s.scopes (step now request s).1.scopes := by
    intro hc
    obtain ⟨state', hs', hcar⟩ := hc state hs
    exact hgone (List.mem_map.mpr ⟨state', hs', hcar.key⟩)
  cases request with
  | capture scope u c => exact absurd (capture_spec hwf scope u c).2.1 hcarried
  | selectReaders take => exact absurd (selectReaders_spec hwf take).2.1 hcarried
  | page table =>
    refine absurd ?_ hcarried
    have hsame : (step now (.page table) s).1.scopes = s.scopes := by
      simp only [step]
      split <;> rfl
    rw [hsame]
    exact Carried.refl born _
  | pageFailed =>
    refine absurd ?_ hcarried
    have hsame : (step now .pageFailed s).1.scopes = s.scopes := by
      simp only [step]
      split <;> rfl
    rw [hsame]
    exact Carried.refl born _
  | visit =>
    rcases hread : s.reading with _ | ⟨⟨pageKey, _ | rows⟩, rest⟩
    · refine absurd ?_ hcarried
      simp only [step, hread]
      exact Carried.refl born _
    · refine absurd ?_ hcarried
      simp only [step, hread]
      exact Carried.refl born _
    · obtain ⟨-, hcar, -⟩ := visitRows_of_good (sound hr).good hread
      obtain ⟨state', hs', hcar'⟩ := hcar state hs
      simp only [step, hread] at hgone
      simp only [touched, hread]
      refine ⟨_, mem_modify.mpr ⟨state', hs', rfl⟩, ?_, ?_⟩
      · split
        · rw [advance_key, hcar'.key]
        · exact hcar'.key
      · by_contra hidle
        refine hgone (List.mem_map.mpr ⟨_, mem_advance.mpr ⟨mem_modify.mpr ⟨state', hs', rfl⟩,
          fun h => hidle h.2⟩, ?_⟩)
        split
        · rw [advance_key, hcar'.key]
        · exact hcar'.key
  | identities take =>
    refine absurd (fun state hs => ⟨state, ?_, Carries.refl born state⟩) hcarried
    show state ∈ (s.scopes.identities take).1.states
    rwa [identities_states]
  | release u receiptId =>
    refine ⟨state.release u receiptId, List.mem_map_of_mem hs, release_key state u receiptId, ?_⟩
    by_contra hidle
    refine hgone (List.mem_map.mpr ⟨state.release u receiptId, ?_, release_key state u receiptId⟩)
    exact mem_release.mpr ⟨⟨state, hs, rfl⟩, by simpa using hidle⟩

/-- Every receipt that was taken and has not ended is covered, few states and identities are kept,
and a state is dropped only when it covers nothing. -/
structure NothingForgotten (h : List (Event υ ι)) (s : System υ ι) : Prop where
  covered : ∀ u c, Pending (Takes u c) (Ends u c) h → ∃ state ∈ s.scopes.states, Covers state u c
  states : s.scopes.states.length ≤ DEFERRED_SCOPE_LIMIT + 1
  identities : ∀ state ∈ s.scopes.states, state.retained.length ≤ DEFERRED_SCOPE_IDENTITIES
  dropped : ∀ now request, ∀ key ∈ s.scopes.states.map DeferredScopeState.key,
    key ∉ (step now request s).1.scopes.states.map DeferredScopeState.key →
      ∃ state ∈ touched request s, state.key = key ∧ ∀ u c, ¬Covers state u c

theorem nothing_forgotten {h : List (Event υ ι)} {t : Nat} (hr : ScopesRun born h t s) :
    NothingForgotten h s where
  covered u c hp := by
    obtain ⟨state, hs, howes⟩ := (sound hr).owed u c hp
    exact ⟨state, hs, howes.covers⟩
  states := (sound hr).good.wf.length_le
  identities state hs := ((sound hr).good.wf.kept state hs).few
  dropped now request key hkey hgone := by
    obtain ⟨state, hs, hk, hidle⟩ := dropped_idle hr now request hkey hgone
    exact ⟨state, hs, hk, not_covers_of_idle hidle⟩

/-- One scope, whose second receipt is captured while its interval is being crossed. -/
theorem captured_while_read :
    let scope : WebhookPreparationScope := ⟨"bot", .ordinary⟩
    let s₁ := step 1 (.capture (some scope) 7 ⟨1, 101⟩) (System.start : System Nat Nat)
    let s₂ := step 2 (.selectReaders 1) s₁.1
    let s₃ := step 3 (.capture (some scope) 8 ⟨2, 102⟩) s₂.1
    NothingForgotten [⟨1, .capture (some scope) 7 ⟨1, 101⟩, s₁.2⟩, ⟨2, .selectReaders 1, s₂.2⟩,
        ⟨3, .capture (some scope) 8 ⟨2, 102⟩, s₃.2⟩] s₃.1 ∧
      s₃.1.scopes.states = [⟨webhookPreparationScopeKey scope, some scope,
        some ⟨⟨1, 101⟩, ⟨1, 101⟩⟩, none, some ⟨⟨2, 102⟩, ⟨2, 102⟩⟩, []⟩] := by
  intro scope s₁ s₂ s₃
  have hr₀ : ScopesRun (fun i => 100 + i) [] 0 (System.start : System Nat Nat) := .nil
  have hr₁ := hr₀.snoc 1 (Request.capture (some scope) 7 ⟨1, 101⟩) (by decide) rfl
  have hr₂ := hr₁.snoc 2 (Request.selectReaders 1) (by decide) trivial
  have hr₃ := hr₂.snoc 3 (Request.capture (some scope) 8 ⟨2, 102⟩) (by decide) rfl
  exact ⟨nothing_forgotten hr₃, by decide +kernel⟩

end Maxim.Webhook.DeferredScopes
