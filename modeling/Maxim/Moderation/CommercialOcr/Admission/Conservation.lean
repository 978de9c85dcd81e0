import Maxim.Moderation.CommercialOcr.Admission.Books

/-!
# Capacity is conserved

Every call keeps the ledger, and so does the passing of time as long as the
global counter does not expire before the rows that it counts.
-/

namespace Maxim.Moderation.CommercialOcr.Admission

open Maxim.Library

variable {κ χ ι : Type} [LinearOrder κ] [DecidableEq χ] {limits : CommercialOcrAdmissionLimits}
  {k : Keys κ χ ι} {now : Nat} {j : κ}

/-! ## Every call -/

theorem ledger_reserve (h : Ledger limits now k) {r : Reservation κ χ} (hlimits : r.limits = limits)
    (hcount : 1 ≤ r.imageCount) : Ledger limits now (reserve now r k).1 := by
  rw [reserve]
  split
  · exact h
  have htidy := h.tidy r
  dsimp only
  cases hrow : field (tidy now r k).globalMetadata r.jobId with
  | some m =>
    dsimp only
    rw [again]
    split
    · exact htidy
    split
    · exact htidy.finish hrow
    · exact htidy
  | none =>
    dsimp only
    rw [admitNew]
    split
    · exact htidy
    rename_i hglobal
    split
    · exact htidy
    split
    · exact htidy
    rename_i hchat
    rw [hlimits] at hglobal hchat
    exact htidy.grant hcount hrow (Int.not_lt.mp hglobal) (Int.not_lt.mp hchat)

omit [DecidableEq χ] in
/-- A row that is buried, after its capacity has been given back. -/
theorem Off.bury (h : Off limits now j k) {m : Metadata χ} (hfree : m.capacityHeld = false)
    (s ttlMs : Nat) : Ledger limits now (((k.setRow j m).setScore j s).extendRows now ttlMs) :=
  h.setRow hfree (sets_extendRows rfl rfl m s ttlMs) ⟨rfl, rfl, rfl, rfl⟩ (total_extendTtl _ _ _)

/-- A job that holds nothing has no weight to lose. -/
theorem Off.leaveChat (h : Off limits now j k) (c : χ) : Off limits now j (k.leaveChat c j) := by
  have hweight : ∀ c', field (k.chatWeights c') j = none := by
    intro c'
    rw [Option.eq_none_iff_forall_ne_some]
    intro w hw
    obtain ⟨m, s, hm, -⟩ := h.books.weights _ _ _ hw
    rw [if_pos rfl] at hm
    cases hm
  have hsame : k.decrementChat c j = k := by
    rw [Keys.decrementChat, hweight c]
    rfl
  have hleave : k.leave c j = k.leaveChat c j := by rw [Keys.leave, hsame]
  have hbooks := h.books.leave (j := j) (c := c) fun m s hm => by
    rw [if_pos rfl] at hm
    cases hm
  rw [hleave] at hbooks
  refine ⟨?_, h.counted, h.bounded, h.paired⟩
  have hheld : (fun j' => if j' = j then none else if j' = j then none else holding k j') =
      fun j' => if j' = j then none else holding k j' := by
    funext j'
    split <;> rfl
  rw [hheld] at hbooks
  exact hbooks

omit [DecidableEq χ] in
/-- The books see of a row its chat, its units and its score. -/
theorem Books.restate {held held' : κ → Option (Metadata χ × Nat)} (h : Books limits now held k)
    (hsame : ∀ j, (held' j).map (fun e => (e.1.chatHash, e.1.imageUnits, e.2)) =
      (held j).map fun e => (e.1.chatHash, e.1.imageUnits, e.2)) : Books limits now held' k where
  weights c j w hw := by
    obtain ⟨m, s, hm, hc, hu, hs⟩ := h.weights c j w hw
    have hj := hsame j
    rw [hm, Option.map_some, Option.map_eq_some_iff] at hj
    obtain ⟨⟨m', s'⟩, hm', heq⟩ := hj
    simp only [Prod.mk.injEq] at heq
    exact ⟨m', s', hm', heq.1.trans hc, heq.2.1.trans hu, by rw [hs, heq.2.2]⟩
  scores := h.scores
  live j m' s' hm' := by
    have hj := (hsame j).symm
    rw [hm', Option.map_some, Option.map_eq_some_iff] at hj
    obtain ⟨⟨m, s⟩, hm, heq⟩ := hj
    simp only [Prod.mk.injEq] at heq
    obtain ⟨hc, hu, rfl⟩ := heq
    rw [← hc, ← hu]
    exact h.live j m s hm
  counted := h.counted
  bounded := h.bounded

theorem ledger_activate (h : Ledger limits now k) (ttlMs : Nat) :
    Ledger limits now (activate now j ttlMs k).1 := by
  rw [activate]
  cases hrow : field k.globalMetadata j with
  | none => exact h
  | some m =>
    dsimp only
    split
    · cases hheld : m.capacityHeld with
      | true => exact (h.release hrow hheld).bury rfl _ _
      | false =>
        refine (Off.leaveChat (h.off fun m' hm' => ?_) m.chatHash).bury rfl _ _
        rw [hrow, Option.some.injEq] at hm'
        rw [← hm', hheld]
    split
    · exact h
    split
    · exact h
    rename_i hheld
    split
    · exact h
    obtain ⟨s, hs⟩ := h.paired.score hrow
    have hheld : m.capacityHeld = true := by simpa using hheld
    have hsets : Sets k (k.setRow j { m with state := .actionable, capacityHeld := true }) j
        { m with state := .actionable, capacityHeld := true } s := sets_setRow rfl rfl hs _
    have hset := total_setField (f := fun _ m => heldBy m) k.globalMetadata j
      { m with state := .actionable, capacityHeld := true }
    have hbefore : weight (fun _ m => heldBy m) j (field k.globalMetadata j) = m.imageUnits := by
      rw [hrow, weight_some, heldBy, if_pos hheld]
    have hafter : heldBy { m with state := .actionable, capacityHeld := true } = m.imageUnits := rfl
    have hcounted := h.counted
    rw [heldUnits] at hcounted
    refine ⟨?_, ?_, h.bounded, h.paired.sets hsets⟩
    · rw [hsets.holding rfl]
      have hsame : SameBooks k (k.setRow j { m with state := .actionable, capacityHeld := true }) :=
        ⟨rfl, rfl, rfl, rfl⟩
      refine (hsame.books h.books).restate fun j' => ?_
      split
      · rename_i heq
        rw [heq, holding_of_held hrow hs hheld]
        rfl
      · rfl
    · have hheld' : heldUnits (k.setRow j { m with state := .actionable, capacityHeld := true }) =
          total (fun _ m => heldBy m) (setField k.globalMetadata j
            { m with state := .actionable, capacityHeld := true }) := rfl
      have hunits : (k.setRow j { m with state := .actionable, capacityHeld := true }).globalUnits =
          k.globalUnits := rfl
      rw [hheld', hunits]
      omega

theorem ledger_suppress (h : Ledger limits now k) (c : χ) (n ttlMs : Nat) :
    Ledger limits now (suppress now j c n ttlMs k).1 := by
  have hclean := h.foldl_dropExpired ((scoredUpTo k.globalExpiry now
    ADMISSION_CLEANUP_BATCH_SIZE).filter fun expiredJobId => decide (expiredJobId ≠ j))
  rw [suppress]
  generalize ((scoredUpTo k.globalExpiry now ADMISSION_CLEANUP_BATCH_SIZE).filter fun expiredJobId =>
    decide (expiredJobId ≠ j)).foldl dropExpired k = mid at hclean
  cases hrow : field mid.globalMetadata j with
  | none =>
    exact (hclean.off fun m hm => by rw [hrow] at hm; cases hm).bury rfl _ _
  | some m =>
    dsimp only
    split
    · exact hclean
    · rename_i hsame
      rw [not_or, not_ne_iff] at hsame
      obtain ⟨rfl, -⟩ := hsame
      exact (hclean.releaseHeld hrow).bury rfl _ _

theorem ledger_release (h : Ledger limits now k) (c : χ) :
    Ledger limits now (release j c k).1 := by
  rw [release]
  cases hrow : field k.globalMetadata j with
  | none => exact h
  | some m =>
    dsimp only
    split
    · exact h
    · rename_i hsame
      rw [not_ne_iff] at hsame
      exact hsame ▸ h.finish hrow

variable [DecidableEq ι]

theorem ledger_recordLogical (h : Ledger limits now k) (c : χ) (phase : Phase) (outcome : String)
    (identity : ι) : Ledger limits now (recordLogical now j c phase outcome identity k).1 := by
  rw [recordLogical]
  cases hrow : field k.globalMetadata j with
  | none => exact h
  | some m =>
    dsimp only
    split
    · exact h
    rename_i hsame
    rw [not_ne_iff] at hsame
    obtain ⟨logical, heq⟩ := claimPhase_eq now phase outcome identity
      (if phase = .terminal then finish j c m k else k)
    have hfinished : Ledger limits now (if phase = .terminal then finish j c m k else k) := by
      split
      · exact hsame ▸ h.finish hrow
      · exact h
    rw [heq]
    exact hfinished.congr (fun _ => ⟨rfl, rfl⟩) rfl rfl
      (hfinished.books.congr (fun _ _ => rfl) (fun _ _ => rfl) (fun _ => rfl) fun _ => rfl)

/-! ## The passing of time -/

/-- The global counter does not expire before the rows that it counts. -/
def CounterLasts (now : Nat) (k : Keys κ χ ι) : Prop :=
  purge now k.globalUnits = k.globalUnits ∨ purge now k.globalMetadata = none

omit [DecidableEq χ] [DecidableEq ι] in
/-- Chats expire as a whole, after the scores of their jobs. -/
theorem purge_chat {d : Nat} (hd : ChatDeadlines d k) (now : Nat) (c : χ) :
    ((k.purge now).chatExpiry c = k.chatExpiry c ∧ (k.purge now).chatWeights c = k.chatWeights c ∧
        (k.purge now).chatUnits c = k.chatUnits c) ∨
      ((k.purge now).chatExpiry c = none ∧ (k.purge now).chatWeights c = none ∧
        (k.purge now).chatUnits c = none ∧ ∀ j s, field (k.chatExpiry c) j = some s → s < now) := by
  obtain ⟨x, -, hx⟩ := hd c
  by_cases hle : now ≤ x
  · exact .inl ⟨hx.expiry.purge_of_le hle, hx.weights.purge_of_le hle, hx.units.purge_of_le hle⟩
  · have hlt := Nat.not_le.mp hle
    exact .inr ⟨hx.expiry.purge_of_lt hlt, hx.weights.purge_of_lt hlt, hx.units.purge_of_lt hlt,
      fun j s hs => Nat.lt_of_le_of_lt (hx.scores j s hs) hlt⟩

omit [DecidableEq χ] [DecidableEq ι] in
theorem Books.purge {held : κ → Option (Metadata χ × Nat)} {d : Nat} (h : Books limits now held k)
    (hd : ChatDeadlines d k) : Books limits now held (k.purge now) where
  weights c j w hw := by
    rcases purge_chat hd now c with ⟨he, hweights, -⟩ | ⟨-, hnone, -⟩
    · rw [hweights] at hw
      rw [he]
      exact h.weights c j w hw
    · rw [hnone] at hw
      cases hw
  scores c j hw := by
    rcases purge_chat hd now c with ⟨he, hweights, -⟩ | ⟨he, -⟩
    · rw [hweights] at hw
      rw [he]
      exact h.scores c j hw
    · rw [he]
      rfl
  live j m s hm := by
    obtain ⟨hpos, hlive⟩ := h.live j m s hm
    refine ⟨hpos, fun hs => ?_⟩
    obtain ⟨m', s', hm', -, -, hs'⟩ := h.weights _ _ _ (hlive hs)
    rw [hm, Option.some.injEq, Prod.mk.injEq] at hm'
    rcases purge_chat hd now m.chatHash with ⟨-, hweights, -⟩ | ⟨-, -, -, hlt⟩
    · rw [hweights]
      exact hlive hs
    · have hpassed := hlt j s' hs'
      omega
  counted c := by
    rw [storedWeights]
    rcases purge_chat hd now c with ⟨-, hweights, hunits⟩ | ⟨-, hweights, hunits, -⟩
    · rw [hweights, hunits]
      exact h.counted c
    · rw [hweights, hunits]
      rfl
  bounded c := by
    rcases purge_chat hd now c with ⟨-, -, hunits⟩ | ⟨-, -, hunits, -⟩
    · rw [hunits]
      exact h.bounded c
    · rw [hunits]
      exact Int.natCast_nonneg _

omit [DecidableEq χ] [DecidableEq ι] in
theorem Ledger.later {t : Nat} (h : Ledger limits t k) (hle : t ≤ now) : Ledger limits now k :=
  ⟨h.books.later hle, h.counted, h.bounded, h.paired⟩

omit [DecidableEq χ] [DecidableEq ι] in
theorem Ledger.purge {d : Nat} (h : Ledger limits now k) (hd : Deadlines d k)
    (hlasts : CounterLasts now k) : Ledger limits now (k.purge now) := by
  by_cases hle : now ≤ d
  · have hm : (k.purge now).globalMetadata = k.globalMetadata := hd.metadata.purge_of_le hle
    have hs : (k.purge now).globalExpiry = k.globalExpiry := hd.expiry.purge_of_le hle
    have hunits : counter (k.purge now).globalUnits = counter k.globalUnits := by
      rcases hlasts with hu | hnone
      · exact congrArg counter hu
      · -- no row is left, so that there was nothing to count
        have hzero : heldUnits k = 0 := by
          rw [heldUnits, ← hm]
          show total _ (Library.purge now k.globalMetadata) = 0
          rw [hnone, total_none]
        have hcount := h.counted
        rw [hzero] at hcount
        show counter (Library.purge now k.globalUnits) = _
        cases hu : Library.purge now k.globalUnits with
        | none =>
          rw [hcount]
          rfl
        | some c => rw [(purge_eq_some.mp hu).1]
    exact h.congr (fun j => ⟨by rw [hm], by rw [hs]⟩) hunits (by rw [heldUnits, hm, heldUnits])
      (h.books.purge hd.chats)
  · have hlt := Nat.not_le.mp hle
    have hm : (k.purge now).globalMetadata = none := hd.metadata.purge_of_lt hlt
    have hs : (k.purge now).globalExpiry = none := hd.expiry.purge_of_lt hlt
    have hu : (k.purge now).globalUnits = none := by
      obtain ⟨x, hx, hunits⟩ := hd.units
      exact hunits.purge_of_lt (by omega)
    have hchats : ∀ c, (k.purge now).chatExpiry c = none ∧ (k.purge now).chatWeights c = none ∧
        (k.purge now).chatUnits c = none := by
      intro c
      obtain ⟨x, hx, hc⟩ := hd.chats c
      exact ⟨hc.expiry.purge_of_lt (by omega), hc.weights.purge_of_lt (by omega),
        hc.units.purge_of_lt (by omega)⟩
    refine ⟨⟨fun c j w hw => ?_, fun c j _ => ?_, fun j m s hj => ?_, fun c => ?_, fun c => ?_⟩, ?_, ?_,
      fun j => by rw [hm, hs, field_none, field_none]; rfl⟩
    · rw [(hchats c).2.1] at hw
      cases hw
    · rw [(hchats c).1, field_none]
    · obtain ⟨hj, -⟩ := holding_eq_some hj
      rw [hm] at hj
      cases hj
    · rw [storedWeights, (hchats c).2.2, (hchats c).2.1]
      rfl
    · rw [(hchats c).2.2]
      exact Int.natCast_nonneg _
    · rw [heldUnits, hu, hm]
      rfl
    · rw [hu]
      exact Int.natCast_nonneg _

/-! ## Every run -/

variable {jobs : Jobs κ χ} {request : Request κ χ ι}

theorem ledger_act (h : Ledger limits now k) (ha : Asks jobs limits request) :
    Ledger limits now (act now request k).1 := by
  cases request with
  | reserve r =>
    obtain ⟨-, hcount, -, hlimits⟩ := ha
    exact ledger_reserve h hlimits (hcount ▸ (jobs.counted r.jobId).1)
  | activate j ttlMs => exact ledger_activate h ttlMs
  | suppress j c n ttlMs => exact ledger_suppress h c n ttlMs
  | resolveState j => exact h
  | release j c => exact ledger_release h c
  | recordLogical j c phase outcome identity => exact ledger_recordLogical h c phase outcome identity

theorem dated_run {h : List (Event κ χ ι)} {t : Nat} (hv : Valid limits)
    (hr : AdmissionRun jobs limits h t k) : Dated (limits.reservationTtlMs * 2) t k := by
  refine hr.invariant (fun _ t k => Dated (limits.reservationTtlMs * 2) t k) ?_ ?_ ?_
  · have hempty : Watched jobs limits 0 (Keys.empty : Keys κ χ ι) := watched_empty
    exact hempty.dated
  · rintro - t t' k ⟨d, hle, hd⟩ hle'
    exact ⟨d, by omega, hd⟩
  · exact fun _ _ _ _ hd ha => dated_step hv hd ha

omit [DecidableEq χ] [DecidableEq ι] in
theorem ledger_empty : Ledger limits 0 (Keys.empty : Keys κ χ ι) where
  books := ⟨by simp [Keys.empty], fun _ _ _ => rfl, by simp [holding, Keys.empty], fun _ => rfl,
    fun _ => Int.natCast_nonneg _⟩
  counted := rfl
  bounded := Int.natCast_nonneg _
  paired _ := rfl

/-- No call comes after the global counter has expired and before its rows have. -/
def CountersLast (jobs : Jobs κ χ) (limits : CommercialOcrAdmissionLimits)
    (h : List (Event κ χ ι)) : Prop :=
  ∀ h₁ e h₂ t₁ k₁, h = h₁ ++ e :: h₂ → AdmissionRun jobs limits h₁ t₁ k₁ → CounterLasts e.now k₁

omit [DecidableEq ι] in
theorem CountersLast.of_append [DecidableEq ι] {h₁ h₂ : List (Event κ χ ι)}
    (h : CountersLast jobs limits (h₁ ++ h₂)) : CountersLast jobs limits h₁ :=
  fun h₁' e h₂' t₁ k₁ heq hr => h h₁' e (h₂' ++ h₂) t₁ k₁ (by rw [heq]; simp) hr

theorem ledger_run {h : List (Event κ χ ι)} {t : Nat} (hv : Valid limits)
    (hr : AdmissionRun jobs limits h t k) (hlast : CountersLast jobs limits h) :
    Ledger limits t k := by
  induction hr with
  | nil => exact ledger_empty
  | @snoc h t k now request hr hle ha ih =>
    obtain ⟨d, -, hd⟩ := dated_run hv hr
    have hledger := (ih hlast.of_append).later hle
    exact ledger_act (hledger.purge hd (hlast h _ [] t k rfl hr)) ha

/-! ## What the ledger says -/

def liveUnits (now : Nat) (k : Keys κ χ ι) : Nat :=
  total (fun j m => if m.capacityHeld = true ∧ now < (field k.globalExpiry j).getD 0 then m.imageUnits
    else 0) k.globalMetadata

def liveChatUnits (now : Nat) (chat : χ) (k : Keys κ χ ι) : Nat :=
  total (fun j m => if m.chatHash = chat ∧ m.capacityHeld = true ∧
    now < (field k.globalExpiry j).getD 0 then m.imageUnits else 0) k.globalMetadata

structure Conserved (limits : CommercialOcrAdmissionLimits) (now : Nat) (k : Keys κ χ ι) : Prop where
  global : counter k.globalUnits = heldUnits k
  chats : ∀ c, counter (k.chatUnits c) = storedWeights k c
  liveGlobal : liveUnits now k ≤ limits.maxGlobalImageUnits
  liveChat : ∀ c, liveChatUnits now c k ≤ limits.maxChatImageUnits

omit [DecidableEq ι] in
theorem Ledger.conserved (h : Ledger limits now k) : Conserved limits now k where
  global := h.counted
  chats := h.books.counted
  liveGlobal := by
    have hle : liveUnits now k ≤ heldUnits k := by
      refine total_le_total fun j m hm => ?_
      rw [hm, weight_some, heldBy]
      split
      · rename_i hlive
        rw [if_pos hlive.1]
      · exact Nat.zero_le _
    have hcounted := h.counted
    have hbounded := h.bounded
    omega
  liveChat c := by
    have hle : liveChatUnits now c k ≤ storedWeights k c := by
      refine total_le_total fun j m hm => ?_
      obtain ⟨s, hs⟩ := h.paired.score hm
      rw [hs, Option.getD_some]
      split
      · rename_i hlive
        obtain ⟨rfl, hheld, hlt⟩ := hlive
        rw [(h.books.live j m s (holding_of_held hm hs hheld)).2 hlt, weight_some]
      · exact Nat.zero_le _
    have hcounted := h.books.counted c
    have hbounded := h.books.bounded c
    omega

/-- What one call may do: an observation leaves the reserve of actionable work free, and a row comes to
hold capacity by an admission alone, with the units of the job. -/
structure Metered (limits : CommercialOcrAdmissionLimits) (before : Keys κ χ ι) (e : Event κ χ ι)
    (after : Keys κ χ ι) : Prop where
  reserve : e.reply = .reserve (.admitted .observation) →
    counter after.globalUnits + limits.reservedActionableImageUnits ≤ limits.maxGlobalImageUnits
  once : ∀ j m, field after.globalMetadata j = some m → m.capacityHeld = true →
    (∃ m₀, field before.globalMetadata j = some m₀ ∧ m₀.capacityHeld = true ∧
      m₀.chatHash = m.chatHash ∧ m₀.imageUnits = m.imageUnits) ∨ Admits j e

omit [DecidableEq ι] in
theorem reserve_leaves {r : Reservation κ χ} (hlimits : r.limits = limits)
    (h : (reserve now r k).2 = .admitted .observation) :
    counter (reserve now r k).1.globalUnits + limits.reservedActionableImageUnits ≤
      limits.maxGlobalImageUnits := by
  rw [reserve] at h ⊢
  split at h
  · cases h
  rename_i hage
  rw [if_neg hage]
  dsimp only at h ⊢
  cases hrow : field (tidy now r k).globalMetadata r.jobId with
  | some m =>
    rw [hrow] at h
    dsimp only at h
    rw [again] at h
    split at h
    · cases h
    split at h <;> cases h
  | none =>
    rw [hrow] at h
    dsimp only at h ⊢
    rw [admitNew] at h ⊢
    split at h
    · cases h
    rename_i hglobal
    rw [if_neg hglobal]
    split at h
    · cases h
    rename_i hreserved
    rw [if_neg hreserved]
    split at h
    · cases h
    rename_i hchat
    rw [if_neg hchat]
    have hdesired : r.desiredState = .observation := CommercialOcrAdmissionResult.admitted.inj h
    have hroom : ¬_ := fun hlt => hreserved ⟨hdesired, hlt⟩
    have hcounter : counter (grant now r (tidy now r k)).globalUnits =
        counter (tidy now r k).globalUnits + r.imageCount := rfl
    rw [hcounter, ← hlimits]
    omega

theorem once_step {d : Nat} (hd : Deadlines d k) (hp : Paired k) {m : Metadata χ}
    (hm : field (step now request k).1.globalMetadata j = some m) (hheld : m.capacityHeld = true) :
    (∃ m₀, field k.globalMetadata j = some m₀ ∧ m₀.capacityHeld = true ∧
      m₀.chatHash = m.chatHash ∧ m₀.imageUnits = m.imageUnits) ∨
      Admits j (⟨now, request, (step now request k).2⟩ : Event κ χ ι) := by
  obtain ⟨mid, hclean, hwrote⟩ := @wrote_step κ χ ι _ _ _ now _ _ hd hp request
  have hmid : ∀ {m}, field mid.globalMetadata j = some m → field k.globalMetadata j = some m := by
    intro m hrow
    rcases hclean j with ⟨hsame, -⟩ | ⟨hnone, -⟩
    · rw [← hsame, hrow]
    · rw [hnone] at hrow
      cases hrow
  have hkept : field mid.globalMetadata j = some m → ∃ m₀, field k.globalMetadata j = some m₀ ∧
      m₀.capacityHeld = true ∧ m₀.chatHash = m.chatHash ∧ m₀.imageUnits = m.imageUnits :=
    fun hrow => ⟨m, hmid hrow, hheld, rfl, rfl⟩
  generalize (step now request k).1 = after at hm hwrote
  generalize (step now request k).2 = reply at hwrote
  have hsets : ∀ {j' m' s'}, Sets mid after j' m' s' → m'.capacityHeld = false →
      ∃ m₀, field k.globalMetadata j = some m₀ ∧ m₀.capacityHeld = true ∧
        m₀.chatHash = m.chatHash ∧ m₀.imageUnits = m.imageUnits := by
    intro j' m' s' hsets hfree
    by_cases hj : j = j'
    · subst hj
      rw [hsets.1, Option.some.injEq] at hm
      rw [← hm, hfree] at hheld
      cases hheld
    · exact hkept (by rw [← (hsets.2.2 j hj).1, hm])
  cases hwrote with
  | nothing same => exact .inl (hkept (by rw [← (same j).1, hm]))
  | observed j' m' s₁ s₂ _ _ _ sets => exact .inl (hsets sets rfl)
  | buried j' c n ttlMs _ sets => exact .inl (hsets sets rfl)
  | admitted r _ _ _ sets =>
    by_cases hj : j = r.jobId
    · exact .inr ⟨r, r.desiredState, rfl, hj.symm, rfl⟩
    · exact .inl (hkept (by rw [← (sets.2.2 j hj).1, hm]))
  | activated j' ttlMs m' s row _ _ held sets =>
    by_cases hj : j = j'
    · subst hj
      rw [sets.1, Option.some.injEq] at hm
      exact .inl ⟨m', hmid row, held, by rw [← hm], by rw [← hm]⟩
    · exact .inl (hkept (by rw [← (sets.2.2 j hj).1, hm]))

/-- Capacity is conserved in every state that a history reaches, also as the next call finds it, and
every call is metered. -/
structure CapacityKept (jobs : Jobs κ χ) (limits : CommercialOcrAdmissionLimits)
    (h : List (Event κ χ ι)) : Prop where
  reached : ∀ h₁ h₂ t₁ k₁, h = h₁ ++ h₂ → AdmissionRun jobs limits h₁ t₁ k₁ → Conserved limits t₁ k₁
  found : ∀ h₁ e h₂ t₁ k₁, h = h₁ ++ e :: h₂ → AdmissionRun jobs limits h₁ t₁ k₁ →
    Conserved limits e.now (k₁.purge e.now)
  metered : ∀ h₁ e h₂ t₁ k₁ t₂ k₂, h = h₁ ++ e :: h₂ → AdmissionRun jobs limits h₁ t₁ k₁ →
    AdmissionRun jobs limits (h₁ ++ [e]) t₂ k₂ → Metered limits k₁ e k₂

end Maxim.Moderation.CommercialOcr.Admission
