import Maxim.Moderation.PhotoDuplicate.History

/-!
# The look-back of an observation

An observation reads the two highest rows of the exact history, and takes the
first that is of another message. A history is led by its two highest rows:
when any row is of another message than the highest one, the second is, and it
carries the cluster of the highest. The script keeps this, so two rows suffice.
-/

namespace Maxim.Moderation.PhotoDuplicate

open Maxim.Library

/-- A row of an exact history: an event time, a cluster and a message. -/
abbrev ExactRow := Nat ×ₗ String ×ₗ String

def rowTime (e : ExactRow) : Nat := (ofLex e).1
def rowCluster (e : ExactRow) : String := (ofLex (ofLex e).2).1
def rowMessage (e : ExactRow) : String := (ofLex (ofLex e).2).2

def exactRow (occurredAtMs : Nat) (clusterId messageId : String) : ExactRow :=
  toLex (occurredAtMs, toLex (clusterId, messageId))

theorem exactRow_le_iff {x x' : Nat} {c c' m m' : String} :
    exactRow x c m ≤ exactRow x' c' m' ↔ x < x' ∨ x = x' ∧ (c < c' ∨ c = c' ∧ m ≤ m') := by
  rw [exactRow, exactRow, Prod.Lex.toLex_le_toLex, Prod.Lex.toLex_le_toLex]

theorem between_exactRow {e r : ExactRow} {x : Nat} {m : String} (hlow : exactRow x (rowCluster r) m ≤ e)
    (hhigh : e ≤ r) (hlast : rowTime r ≤ x) :
    rowCluster e = rowCluster r ∧ (rowMessage e = rowMessage r → e = r) := by
  obtain ⟨a, c, d⟩ := e
  obtain ⟨a', c', d'⟩ := r
  have hlow' : x < a ∨ x = a ∧ (c' < c ∨ c' = c ∧ m ≤ d) := exactRow_le_iff.mp hlow
  have hhigh' : a < a' ∨ a = a' ∧ (c < c' ∨ c = c' ∧ d ≤ d') := exactRow_le_iff.mp hhigh
  have hlast' : a' ≤ x := hlast
  have htime : a = a' := by omega
  have hcluster : c = c' := by
    rcases hlow' with h | ⟨-, h | ⟨h, -⟩⟩
    · omega
    · rcases hhigh' with h' | ⟨-, h' | ⟨h', -⟩⟩
      · omega
      · exact absurd h' h.asymm
      · exact h'
    · exact h.symm
  refine ⟨hcluster, fun hmessage => ?_⟩
  have hmessage' : d = d' := hmessage
  rw [htime, hcluster, hmessage']

/-! ## The two highest rows -/

/-- `r` and `y` are the two highest rows. -/
structure TopTwo (rows : List ExactRow) (r y : ExactRow) : Prop where
  first : r ∈ rows
  highest : ∀ e ∈ rows, e ≤ r
  second : y ∈ rows
  apart : y ≠ r
  next : ∀ e ∈ rows, e ≠ r → e ≤ y

/-- A row of another message than the highest shows in the second row. -/
def Led (rows : List ExactRow) : Prop :=
  ∀ r y x, TopTwo rows r y → x ∈ rows → rowMessage x ≠ rowMessage r →
    rowMessage y ≠ rowMessage r ∧ rowCluster y = rowCluster r

variable {s : Slot (Table (String ×ₗ String) Nat)} {r y : ExactRow} {rest : List ExactRow}

theorem highest_of_reverse (hrows : (ranked s).reverse = r :: rest) : ∀ e ∈ ranked s, e ≤ r := by
  intro e he
  have hsorted := List.pairwise_reverse.mpr (ranked_pairwise s)
  rw [hrows, List.pairwise_cons] at hsorted
  rw [← List.mem_reverse, hrows] at he
  rcases List.mem_cons.mp he with rfl | he
  · exact le_rfl
  · exact hsorted.1 e he

theorem topTwo_of_reverse (hrows : (ranked s).reverse = r :: y :: rest) : TopTwo (ranked s) r y where
  first := List.mem_reverse.mp (hrows ▸ List.mem_cons_self)
  highest := highest_of_reverse hrows
  second := List.mem_reverse.mp (hrows ▸ List.mem_cons_of_mem _ List.mem_cons_self)
  apart := by
    have hnodup := List.nodup_reverse.mpr (ranked_nodup s)
    rw [hrows, List.nodup_cons] at hnodup
    rintro rfl
    exact hnodup.1 List.mem_cons_self
  next e he hne := by
    have hsorted := List.pairwise_reverse.mpr (ranked_pairwise s)
    rw [hrows, List.pairwise_cons, List.pairwise_cons] at hsorted
    rw [← List.mem_reverse, hrows] at he
    rcases List.mem_cons.mp he with rfl | he
    · exact absurd rfl hne
    rcases List.mem_cons.mp he with rfl | he
    · exact le_rfl
    · exact hsorted.2.1 e he

theorem Led.upper {rows rows' : List ExactRow} (hled : Led rows) (hsub : ∀ e ∈ rows', e ∈ rows)
    (hupper : ∀ e ∈ rows', ∀ e' ∈ rows, e ≤ e' → e' ∈ rows') : Led rows' := by
  rintro r y x ⟨hr, htop, hy, hne, hnext⟩ hx hother
  refine hled r y x ⟨hsub r hr, fun e he => ?_, hsub y hy, hne, fun e he hner => ?_⟩ (hsub x hx) hother
  · rcases le_total e r with hle | hle
    · exact hle
    · exact htop e (hupper r hr e he hle)
  · rcases le_total e y with hle | hle
    · exact hle
    · exact hnext e (hupper y hy e he hle) hner

/-! ## What an observation finds -/

variable {messageId : String} {p : String × String}

/-- The row that the look-back takes. -/
inductive Prior (rows : List ExactRow) (messageId : String) (r : ExactRow) : Prop
  | highest (mem : r ∈ rows) (top : ∀ e ∈ rows, e ≤ r) (other : rowMessage r ≠ messageId)
  | second (t : ExactRow) (two : TopTwo rows t r) (own : rowMessage t = messageId)
      (other : rowMessage r ≠ messageId)

theorem Prior.mem {rows : List ExactRow} (h : Prior rows messageId r) : r ∈ rows := by
  cases h with
  | highest mem => exact mem
  | second _ two => exact two.second

theorem Prior.other {rows : List ExactRow} (h : Prior rows messageId r) : rowMessage r ≠ messageId := by
  cases h with
  | highest _ _ other => exact other
  | second _ _ _ other => exact other

theorem priorRows_of_range {occurredAtMs : Nat} {cutoffAt : Int} (hfull : printed occurredAtMs = occurredAtMs)
    (hrange : ∀ e ∈ ranked s, cutoffAt ≤ ((ofLex e).1 : Int) ∧ (ofLex e).1 ≤ occurredAtMs) :
    priorRows occurredAtMs cutoffAt s = ((ranked s).reverse.take 2).map fun e => ofLex (ofLex e).2 := by
  rw [priorRows, List.filter_eq_self.mpr]
  intro e he
  rw [hfull, decide_eq_true_eq]
  exact hrange e (List.mem_reverse.mp he)

theorem prior_of_find
    (hfind : (((ranked s).reverse.take 2).map fun e => ofLex (ofLex e).2).find?
      (fun row => row.2 != messageId) = some p) :
    ∃ r, Prior (ranked s) messageId r ∧ p = (rowCluster r, rowMessage r) := by
  cases hrows : (ranked s).reverse with
  | nil => simp [hrows] at hfind
  | cons r rest =>
    rw [hrows, List.take_succ_cons, List.map_cons, List.find?_cons] at hfind
    split at hfind
    next hother =>
      rw [Option.some.injEq] at hfind
      refine ⟨r, .highest (List.mem_reverse.mp (hrows ▸ List.mem_cons_self)) (highest_of_reverse hrows) ?_,
        hfind.symm⟩
      simpa [rowMessage] using hother
    next hown =>
      cases rest with
      | nil => simp at hfind
      | cons y rest =>
        have htwo := topTwo_of_reverse hrows
        simp only [List.take_succ_cons, List.take_zero, List.map_cons, List.map_nil,
          List.find?_cons, List.find?_nil] at hfind
        split at hfind
        next hother =>
          rw [Option.some.injEq] at hfind
          exact ⟨y, .second r htwo (by simpa [rowMessage] using hown) (by simpa [rowMessage] using hother), hfind.symm⟩
        · cases hfind

theorem Led.all_own (hled : Led (ranked s))
    (hfind : (((ranked s).reverse.take 2).map fun e => ofLex (ofLex e).2).find?
      (fun row => row.2 != messageId) = none) : ∀ e ∈ ranked s, rowMessage e = messageId := by
  intro e he
  have hall := List.find?_eq_none.mp hfind
  cases hrows : (ranked s).reverse with
  | nil =>
    rw [← List.mem_reverse, hrows] at he
    cases he
  | cons r rest =>
    have hr : rowMessage r = messageId := by
      simpa using hall (rowCluster r, rowMessage r) (by simp [hrows, rowCluster, rowMessage])
    cases rest with
    | nil =>
      rw [← List.mem_reverse, hrows, List.mem_singleton] at he
      rwa [he]
    | cons y rest =>
      have hy : rowMessage y = messageId := by
        simpa using hall (rowCluster y, rowMessage y) (by simp [hrows, rowCluster, rowMessage])
      by_contra hne
      have hsecond := hled r y e (topTwo_of_reverse hrows) he (by rwa [hr])
      exact hsecond.1 (hy.trans hr.symm)

/-! ## One observation keeps a history led -/

variable {occurredAtMs : Nat} {clusterId : String}

/-- The row of the prior's cluster. -/
theorem Led.observed_prior (hled : Led (ranked s)) (hlast : ∀ e ∈ ranked s, rowTime e ≤ occurredAtMs)
    (hprior : Prior (ranked s) messageId r) :
    Led (ranked (setField s (toLex (rowCluster r, messageId)) occurredAtMs)) := by
  rintro r' y' x ⟨hr', htop', hy', hne', hnext'⟩ - -
  have hrnew : r ∈ ranked (setField s (toLex (rowCluster r, messageId)) occurredAtMs) := by
    refine mem_ranked_setField.mpr (.inr ⟨hprior.mem, fun hmember => hprior.other ?_⟩)
    exact congrArg (fun m => (ofLex m).2) hmember
  have hnew : exactRow occurredAtMs (rowCluster r) messageId ∈
      ranked (setField s (toLex (rowCluster r, messageId)) occurredAtMs) :=
    mem_ranked_setField.mpr (.inl rfl)
  have hrne : r ≠ exactRow occurredAtMs (rowCluster r) messageId :=
    fun heq => hprior.other (congrArg rowMessage heq)
  have hold : ∀ e ∈ ranked (setField s (toLex (rowCluster r, messageId)) occurredAtMs),
      e ≠ exactRow occurredAtMs (rowCluster r) messageId →
        e ∈ ranked s ∧ (ofLex e).2 ≠ toLex (rowCluster r, messageId) :=
    fun e he hne => (mem_ranked_setField.mp he).resolve_left hne
  cases hprior with
  | highest hr htop hother =>
    by_cases hfirst : r' = exactRow occurredAtMs (rowCluster r) messageId
    · -- the new row is the highest, and the prior is next
      have hy : y' = r := by
        have hyold := (hold y' hy' (hfirst ▸ hne')).1
        exact le_antisymm (htop y' hyold) (hnext' r hrnew (hfirst ▸ hrne))
      rw [hy, hfirst]
      exact ⟨hother, rfl⟩
    · -- the prior stays the highest, and the next row is of the same time and cluster
      have hr' : r' = r := le_antisymm (htop r' (hold r' hr' hfirst).1) (htop' r hrnew)
      subst hr'
      have hlow := hnext' _ hnew (Ne.symm hfirst)
      obtain ⟨hcluster, hmessage⟩ := between_exactRow hlow (htop' y' hy') (hlast r' hr)
      exact ⟨fun heq => hne' (hmessage heq), hcluster⟩
  | second t htwo hown hother =>
    have hcluster : rowCluster r = rowCluster t :=
      (hled t r r htwo htwo.second (by rwa [hown])).2
    have hmember : (ofLex t).2 = toLex (rowCluster r, messageId) := by
      rw [hcluster, ← hown]
      rfl
    have htle : t ≤ exactRow occurredAtMs (rowCluster r) messageId := by
      have ht : t = exactRow (rowTime t) (rowCluster r) messageId := congrArg (fun m => toLex (rowTime t, m)) hmember
      rw [ht, exactRow_le_iff]
      rcases Nat.lt_or_eq_of_le (hlast t htwo.first) with hlt | heq
      · exact .inl hlt
      · exact .inr ⟨heq, .inr ⟨rfl, le_rfl⟩⟩
    have hfirst : r' = exactRow occurredAtMs (rowCluster r) messageId := by
      by_contra hne
      have hle := (htwo.highest r' (hold r' hr' hne).1).trans htle
      exact hne (le_antisymm hle (htop' _ hnew))
    have hy : y' = r := by
      obtain ⟨hyold, hymember⟩ := hold y' hy' (hfirst ▸ hne')
      have hyt : y' ≠ t := fun heq => hymember (heq ▸ hmember)
      exact le_antisymm (htwo.next y' hyold hyt) (hnext' r hrnew (hfirst ▸ hrne))
    rw [hy, hfirst]
    exact ⟨hother, rfl⟩

theorem led_observed_own (hall : ∀ e ∈ ranked s, rowMessage e = messageId) :
    Led (ranked (setField s (toLex (clusterId, messageId)) occurredAtMs)) := by
  have hown : ∀ e ∈ ranked (setField s (toLex (clusterId, messageId)) occurredAtMs),
      rowMessage e = messageId := by
    intro e he
    rcases mem_ranked_setField.mp he with rfl | ⟨hmem, -⟩
    · rfl
    · exact hall e hmem
  intro r y x htwo hx hother
  exact absurd ((hown x hx).trans (hown r htwo.first).symm) hother

end Maxim.Moderation.PhotoDuplicate
