import Maxim.Publisher.AutoReply.BacklogQuota.Occupancy
import Mathlib.Data.String.Basic

/-!
# The steps of the backlog quota

Every script keeps the leases and the attempt sets right against the history.
A new lease is given below the limit only, and a renewed one was counted
before; so no claim takes the number of operations over the limit.
-/

namespace Maxim.Publisher.AutoReply.BacklogQuota

open Maxim.Library

variable {δ τ ι : Type} [LinearOrder δ] {quota : Quota} {h : List (Event δ τ ι)} {t now : Nat}
  {operationId : δ} {token : τ} {s s' : Scope δ τ ι} {x : Event δ τ ι}

/-- The leases and the attempts, against the history. -/
structure Books (quota : Quota) (h : List (Event δ τ ι)) (t : Nat) (s : Scope δ τ ι) : Prop where
  dated : ∀ y ∈ h, y.now ≤ t
  lasting : Lasting s.inflight
  account : ∀ op, Account quota h t op (field s.inflight op) (s.attempts op)

theorem Books.later (hb : Books quota h t s) (hle : t ≤ now) : Books quota h now s where
  dated y hy := Nat.le_trans (hb.dated y hy) hle
  lasting := hb.lasting
  account op := (hb.account op).later hle

theorem Books.trim (hb : Books quota h now s) : Books quota h now (s.trim now) where
  dated := hb.dated
  lasting := hb.lasting.trimmed now
  account op := by
    rw [Scope.trim, hb.lasting.field_trimmed]
    exact (hb.account op).trim

theorem Books.dated_snoc (hb : Books quota h now s) (hnow : x.now = now) :
    ∀ y ∈ h ++ [x], y.now ≤ now := by
  intro y hy
  rcases List.mem_append.mp hy with hy | hy
  · exact hb.dated y hy
  · rw [List.mem_singleton.mp hy, hnow]

theorem Books.quiet (hb : Books quota h now s) (hnow : x.now = now)
    (hgrants : ∀ op b, ¬Grants op b x) (hreleases : ∀ op b, ¬Releases op b x)
    (hinflight : s'.inflight = s.inflight) (hattempts : s'.attempts = s.attempts) :
    Books quota (h ++ [x]) now s' where
  dated := hb.dated_snoc hnow
  lasting := hinflight ▸ hb.lasting
  account op := by
    rw [hinflight, hattempts]
    exact (hb.account op).quiet (hgrants op) (hreleases op)

theorem Books.leased_iff (hb : Books quota h t s) (op : δ) :
    op ∈ s.leased t ↔ ∃ b, Holds quota h t op b :=
  Scope.mem_leased.trans (hb.account op).leased_iff

theorem field_lease (s : Scope δ τ ι) (tokens : Finset τ) (op : δ) :
    field (s.lease quota now operationId tokens).inflight op =
      if op = operationId then some (now + quota.inflightLeaseTtlMs) else field s.inflight op := by
  rw [Scope.lease, field_expireAt, field_setField]

theorem Books.lasting_lease (hb : Books quota h now s) (tokens : Finset τ) :
    Lasting (s.lease quota now operationId tokens).inflight := by
  intro op e he y hy
  have hexpiry : expiry (s.lease quota now operationId tokens).inflight =
      some (now + quota.inflightLeaseTtlMs * 2) := by
    cases hs : s.inflight <;> simp [Scope.lease, setField, hs, expiry]
  rw [hexpiry, Option.some.injEq] at hy
  rw [field_lease] at he
  split at he
  · rw [Option.some.injEq] at he
    omega
  · obtain ⟨z, hz, -, hlast⟩ := (hb.account op).renewal e he
    have hdate := hb.dated z hz
    omega

/-- A lease that is given, for an operation whose account is right. -/
theorem Books.leases (hb : Books quota h now s) {status : Int} (hnow : x.now = now)
    (hx : x.reply = some (.claimed operationId token status)) {tokens : Finset τ}
    (hown : Account quota (h ++ [x]) now operationId (some (now + quota.inflightLeaseTtlMs))
      (cell tokens (now + quota.inflightLeaseTtlMs))) :
    Books quota (h ++ [x]) now (s.lease quota now operationId tokens) where
  dated := hb.dated_snoc hnow
  lasting := hb.lasting_lease tokens
  account op := by
    rw [field_lease]
    by_cases hop : op = operationId
    · rw [if_pos hop, hop]
      change Account _ _ _ _ _ (put s.attempts operationId _ operationId)
      rwa [put_same]
    · rw [if_neg hop]
      change Account _ _ _ _ _ (put s.attempts operationId _ op)
      rw [put_other _ hop]
      exact (hb.account op).quiet (not_grants_of_ne hx hop) (not_releases_of_claimed hx op)

theorem Books.purged (hb : Books quota h now s) :
    Books quota h now { s with inflight := purge now s.inflight } where
  dated := hb.dated
  lasting := hb.lasting.purged now
  account op := by
    change Account quota h now op (field (purge now s.inflight) op) (s.attempts op)
    rcases purge_eq_self_or_none now s.inflight with hp | hp
    · rw [hp]
      exact hb.account op
    · have htrim := hb.lasting.field_trimmed now op
      rw [hp] at htrim ⊢
      refine (hb.account op).lapsed (fun e he => ?_) _
      rw [he, Option.filter_some] at htrim
      by_contra hlt
      rw [if_pos (by simpa using hlt)] at htrim
      cases htrim

/-! ## The scripts -/

variable [DecidableEq τ]

inductive Claimed (quota : Quota) (now : Nat) (operationId : δ) (token : τ) (s : Scope δ τ ι) :
    Scope δ τ ι → Int → Prop
  | refused (status : Int) (hstatus : status ≠ 1 ∧ status ≠ 2) :
    Claimed quota now operationId token s s status
  | full (missing : field (s.trim now).inflight operationId = none) :
    Claimed quota now operationId token s
      { s.trim now with attempts := put s.attempts operationId none } 0
  | opened (ttl : 0 < quota.inflightLeaseTtlMs)
    (missing : field (s.trim now).inflight operationId = none)
    (room : s.queue.liveBacklog + zcard (s.trim now).inflight < quota.limit) :
    Claimed quota now operationId token s ((s.trim now).lease quota now operationId {token}) 1
  | renewed (ttl : 0 < quota.inflightLeaseTtlMs) (e : Nat)
    (found : field (s.trim now).inflight operationId = some e) :
    Claimed quota now operationId token s
      ((s.trim now).lease quota now operationId (insert token (s.tokens now operationId))) 2

theorem claimInflight_claimed (deadlineMs : Nat) (s : Scope δ τ ι) :
    Claimed quota now operationId token s
      (claimInflight quota now deadlineMs operationId token s).1
      (claimInflight quota now deadlineMs operationId token s).2.1 := by
  rw [claimInflight]
  split
  · exact .refused (-2) (by decide)
  · split
    · exact .refused (-1) (by decide)
    · next hvalid =>
      have httl : 0 < quota.inflightLeaseTtlMs := by omega
      dsimp only
      split
      · next e he => exact .renewed httl e he
      · next hnone =>
        split
        · exact .full hnone
        · next hroom => exact .opened httl hnone (Nat.not_le.mp hroom)

theorem Books.claimed (hb : Books quota h now s) {status : Int} (hnow : x.now = now)
    (hx : x.reply = some (.claimed operationId token status))
    (hs : Claimed quota now operationId token s s' status) : Books quota (h ++ [x]) now s' := by
  cases hs with
  | refused _ hstatus =>
    refine hb.quiet hnow (fun op b => ?_) (not_releases_of_claimed hx) rfl rfl
    rw [Grants, hx]
    simp [hstatus]
  | full hmissing =>
    have hgrants : ∀ op b, ¬Grants op b x := by
      intro op b
      rw [Grants, hx]
      simp
    refine ⟨hb.dated_snoc hnow, hb.trim.lasting, fun op => ?_⟩
    refine Account.quiet ?_ (hgrants op) (not_releases_of_claimed hx op)
    change Account _ _ _ _ (field (s.trim now).inflight op) (put s.attempts operationId none op)
    have hop := hb.trim.account op
    rw [put_apply]
    split
    · next heq =>
      rw [heq, hmissing] at hop
      rw [heq, hmissing]
      exact hop.lapsed (fun e he => by cases he) none
    · exact hop
  | opened httl hmissing _ =>
    exact hb.trim.leases hnow hx (Account.opened hb.dated hnow httl hx)
  | renewed httl e hfound =>
    have hop := hb.trim.account operationId
    rw [hfound] at hop
    have hlt : now < e := by
      rw [Scope.trim, hb.lasting.field_trimmed, Option.filter_eq_some_iff] at hfound
      simpa using hfound.2
    exact hb.trim.leases hnow hx (hop.renewed hb.dated hnow httl hlt hx)

inductive Released (now : Nat) (operationId : δ) (token : τ) (s : Scope δ τ ι) :
    Scope δ τ ι → Prop
  | absent (hnot : token ∉ s.tokens now operationId) : Released now operationId token s s
  | last (hleft : (s.tokens now operationId).erase token = ∅) :
    Released now operationId token s
      { s with
        attempts := put s.attempts operationId none
        inflight := delField (purge now s.inflight) operationId }
  | left (hleft : (s.tokens now operationId).erase token ≠ ∅) :
    Released now operationId token s
      { s with
        attempts := put s.attempts operationId ((s.attempts operationId).map fun c =>
          { c with value := (s.tokens now operationId).erase token }) }

theorem releaseAttempt_released (s : Scope δ τ ι) :
    Released now operationId token s (releaseAttempt now operationId token s).1 := by
  rw [releaseAttempt]
  split
  · dsimp only
    split
    · next hleft => exact .last hleft
    · next hleft => exact .left hleft
  · next hnot => exact .absent hnot

theorem Books.released (hb : Books quota h now s) (hnow : x.now = now)
    (hx : Releases operationId token x) (hs : Released now operationId token s s') :
    Books quota (h ++ [x]) now s' := by
  have hgrants : ∀ op b, ¬Grants op b x := by
    intro op b
    rw [Releases] at hx
    rw [Grants, hx]
    simp
  have hother : ∀ op, op ≠ operationId → ∀ b, ¬Releases op b x := by
    intro op hop b
    rw [Releases] at hx ⊢
    rw [hx]
    simp [hop.symm]
  cases hs with
  | absent hnot =>
    refine ⟨hb.dated_snoc hnow, hb.lasting, fun op => ?_⟩
    by_cases hop : op = operationId
    · rw [hop]
      refine (hb.account operationId).released hx (.inl rfl) fun e he hlt tokens hcell => ?_
      rw [tokens_of_cell hcell hlt] at hnot
      rw [Finset.erase_eq_of_notMem hnot]
      obtain ⟨tokens', hcell', hne, -⟩ := (hb.account operationId).attempts e he hlt
      obtain rfl : tokens = tokens' := by simpa [cell] using hcell.symm.trans hcell'
      exact ⟨fun hempty => absurd hempty hne.ne_empty, fun _ => ⟨rfl, hcell⟩⟩
    · exact (hb.account op).quiet (hgrants op) (hother op hop)
  | last hleft =>
    refine ⟨hb.dated_snoc hnow, (hb.lasting.purged now).deleted operationId, fun op => ?_⟩
    change Account _ _ _ _ (field (delField _ _) op) (put s.attempts operationId none op)
    rw [field_delField]
    by_cases hop : op = operationId
    · rw [if_pos hop, hop, put_same]
      refine (hb.account operationId).released hx (.inr rfl) fun e he hlt tokens hcell => ?_
      rw [tokens_of_cell hcell hlt] at hleft
      exact ⟨fun _ => rfl, fun hne => absurd hleft hne⟩
    · rw [if_neg hop, put_other _ hop]
      exact (hb.purged.account op).quiet (hgrants op) (hother op hop)
  | left hleft =>
    refine ⟨hb.dated_snoc hnow, hb.lasting, fun op => ?_⟩
    change Account _ _ _ _ (field s.inflight op) (put s.attempts operationId _ op)
    by_cases hop : op = operationId
    · rw [hop, put_same]
      refine (hb.account operationId).released hx (.inl rfl) fun e he hlt tokens hcell => ?_
      rw [tokens_of_cell hcell hlt] at hleft ⊢
      exact ⟨fun hempty => absurd hempty hleft, fun _ => ⟨rfl, by rw [hcell]; rfl⟩⟩
    · rw [put_other _ hop]
      exact (hb.account op).quiet (hgrants op) (hother op hop)

/-! ## The number of operations -/

variable [DecidableEq ι] {digest : ι → δ}

theorem Books.occupied_claimed (hb : Books quota h now s) {status : Int}
    (hs : Claimed quota now operationId token s s' status)
    (hle : (s.occupied digest now).card ≤ quota.limit) :
    (s'.occupied digest now).card ≤ quota.limit := by
  have htrim : ∀ op e, field (s.trim now).inflight op = some e → op ∈ s.leased now := by
    intro op e he
    rw [Scope.trim, hb.lasting.field_trimmed, Option.filter_eq_some_iff] at he
    exact Scope.mem_leased.mpr ⟨e, he.1, by simpa using he.2⟩
  cases hs with
  | refused => exact hle
  | full =>
    refine Nat.le_trans (Finset.card_le_card ?_) hle
    exact Scope.occupied_subset (Finset.Subset.refl _) fun op e he _ => htrim op e he
  | opened httl hmissing hroom =>
    have hsub : ((s.trim now).lease quota now operationId {token}).occupied digest now ⊆
        insert operationId ((s.trim now).occupied digest now) := by
      intro op hop
      rw [Scope.occupied, Finset.mem_union] at hop
      rw [Finset.mem_insert, Scope.occupied, Finset.mem_union]
      refine hop.elim (fun hjob => .inr (.inl hjob)) fun hleased => ?_
      obtain ⟨e, he, hlt⟩ := Scope.mem_leased.mp hleased
      rw [field_lease] at he
      split at he
      · next heq => exact .inl heq
      · exact .inr (.inr (Scope.mem_leased.mpr ⟨e, he, hlt⟩))
    have hcount : ((s.trim now).occupied digest now).card ≤
        s.queue.liveBacklog + zcard (s.trim now).inflight :=
      (s.trim now).card_occupied_le digest now
    have hcard := Finset.card_le_card hsub
    have hinsert := Finset.card_insert_le operationId ((s.trim now).occupied digest now)
    omega
  | renewed httl e hfound =>
    refine Nat.le_trans (Finset.card_le_card ?_) hle
    refine Scope.occupied_subset (Finset.Subset.refl _) fun op e' he' _ => ?_
    rw [field_lease] at he'
    split at he'
    · next heq => exact heq ▸ htrim operationId e hfound
    · exact htrim op e' he'

theorem occupied_released (hs : Released now operationId token s s') :
    s'.occupied digest now ⊆ s.occupied digest now := by
  cases hs with
  | absent => exact Finset.Subset.refl _
  | last =>
    refine Scope.occupied_subset (Finset.Subset.refl _) fun op e he hlt => ?_
    change field (delField _ _) op = some e at he
    rw [field_delField] at he
    split at he
    · cases he
    · exact Scope.mem_leased.mpr ⟨e, field_purge_eq_some he, hlt⟩
  | left => exact Scope.occupied_subset (Finset.Subset.refl _) fun op e he hlt =>
      Scope.mem_leased.mpr ⟨e, he, hlt⟩

/-! ## The steps -/

inductive Effect (digest : ι → δ) (quota : Quota) (now : Nat) (w : World δ τ ι) :
    Call τ ι → World δ τ ι → Option (Shown δ τ) → Prop
  | quiet (call : Call τ ι) (w' : World δ τ ι) (inflight : w'.scope.inflight = w.scope.inflight)
    (attempts : w'.scope.attempts = w.scope.attempts)
    (jobs : w'.scope.queue.jobs ⊆ w.scope.queue.jobs)
    (adding : ∀ b job, w'.callers b = some ⟨job, .adding⟩ → w.callers b = some ⟨job, .adding⟩) :
    Effect digest quota now w call w' none
  | trimmed (call : Call τ ι) : Effect digest quota now w call { w with scope := w.scope.trim now } none
  | claimed (call : Call τ ι) (token : τ) (job : ι) (status : Int) (w' : World δ τ ι)
    (script : Claimed quota now (digest job) token w.scope w'.scope status)
    (adding : ∀ b job', w'.callers b = some ⟨job', .adding⟩ →
      b = token ∧ job' = job ∧ (status = 1 ∨ status = 2) ∨ w.callers b = some ⟨job', .adding⟩) :
    Effect digest quota now w call w' (some (.claimed (digest job) token status))
  | added (token : τ) (job : ι) (isDelayed : Bool) (w' : World δ τ ι)
    (before : w.callers token = some ⟨job, .adding⟩)
    (scope : w'.scope = { w.scope with queue := w.scope.queue.add job isDelayed })
    (adding : ∀ b job, w'.callers b = some ⟨job, .adding⟩ → w.callers b = some ⟨job, .adding⟩) :
    Effect digest quota now w (.add token isDelayed) w' (some (.added (digest job) token))
  | released (call : Call τ ι) (token : τ) (job : ι) (scope : Scope δ τ ι)
    (before : ∀ job, w.callers token ≠ some ⟨job, .adding⟩)
    (script : Released now (digest job) token w.scope scope) :
    Effect digest quota now w call { w with scope } (some (.released (digest job) token))

omit [LinearOrder δ] [DecidableEq ι] in
theorem World.adding_advance {w : World δ τ ι} {job job' : ι} {stage : Stage} {b : τ}
    (hb : (w.advance token job stage).callers b = some ⟨job', .adding⟩) :
    b = token ∧ job' = job ∧ stage = .adding ∨ w.callers b = some ⟨job', .adding⟩ := by
  rw [World.advance] at hb
  by_cases hne : b = token
  · subst hne
    simp only [Function.update_self, Option.some.injEq, Caller.mk.injEq] at hb
    exact .inl ⟨rfl, hb.1.symm, hb.2⟩
  · exact .inr (by simpa [Function.update_of_ne hne] using hb)

theorem step_effect (digest : ι → δ) (quota : Quota) (now : Nat) (call : Call τ ι)
    (w : World δ τ ι) : Effect digest quota now w call (step digest quota now call w).1
      (step digest quota now call w).2 := by
  have hidle : Effect digest quota now w call w none :=
    .quiet call w rfl rfl (Finset.Subset.refl _) fun _ _ hb => hb
  have hadvance : ∀ token job stage, stage ≠ Stage.adding →
      Effect digest quota now w call (w.advance token job stage) none := by
    intro token job stage hstage
    refine .quiet _ _ rfl rfl (Finset.Subset.refl _) fun b job' hb => ?_
    exact (World.adding_advance hb).elim (fun hown => absurd hown.2.2 hstage) id
  cases call with
  | preflight deadlineMs =>
    simp only [step, preflight]
    split
    · exact hidle
    · split
      · exact hidle
      · split <;> exact .trimmed _
  | ensureDeliveryJob token job =>
    simp only [step]
    split
    · exact hadvance _ _ _ (by decide)
    · exact hidle
  | claim token deadlineMs answered =>
    simp only [step]
    split
    · next job stage _ =>
      have hclaim : Claimed quota now (digest job) token w.scope
          (claimInflight quota now deadlineMs (digest job) token w.scope).1 _ :=
        claimInflight_claimed deadlineMs w.scope
      split
      · refine .claimed _ token job _ _ hclaim fun b job' hb => ?_
        refine (World.adding_advance hb).imp_left fun hown => ⟨hown.1, hown.2.1, ?_⟩
        have hstage := hown.2.2
        rw [answeredStage] at hstage
        by_contra hstatus
        rw [if_neg hstatus] at hstage
        cases hstage
      · exact .claimed _ token job _ _ hclaim fun b job' hb => .inr hb
      · exact .claimed _ token job _ _ hclaim fun b job' hb => .inr hb
      · exact hidle
    · exact hidle
  | timeout token =>
    simp only [step]
    split
    · exact hadvance _ _ _ (by decide)
    · exact hidle
  | add token isDelayed =>
    simp only [step]
    split
    · next job hbefore =>
      refine .added token job isDelayed _ hbefore rfl fun b job' hb => ?_
      exact (World.adding_advance hb).elim (fun hown => by cases hown.2.2) id
    · exact hidle
  | addFailed token =>
    simp only [step]
    split
    · exact hadvance _ _ _ (by decide)
    · exact hidle
  | release token =>
    simp only [step]
    split
    · next job hbefore =>
      exact .released _ token job _ (by simp [hbefore]) (releaseAttempt_released w.scope)
    · next job hbefore =>
      exact .released _ token job _ (by simp [hbefore]) (releaseAttempt_released w.scope)
    · exact hidle
  | transition queue =>
    simp only [step]
    split
    · next hjobs => exact .quiet _ _ rfl rfl hjobs fun _ _ hb => hb
    · exact hidle

end Maxim.Publisher.AutoReply.BacklogQuota

/-!
## The backlog stays within its limit

A caller that adds its job still holds the lease of the operation, so a live
job was counted before it was added, and no step of a run takes the number of
operations over the limit. A release frees the slot exactly when no other
attempt holds it.
-/

namespace Maxim.Publisher.AutoReply.BacklogQuota

open Maxim.Library

variable {δ τ ι : Type} [LinearOrder δ] [DecidableEq ι] {digest : ι → δ} {quota : Quota}
  {h : List (Event δ τ ι)} {t now : Nat} {token : τ} {w w' : World δ τ ι} {x : Event δ τ ι}

/-- A job is added while a lease that its caller obtained for the operation has not lapsed. -/
def AddsWhileLeased (quota : Quota) (h : List (Event δ τ ι)) (now : Nat) (call : Call τ ι) : Prop :=
  ∀ token isDelayed, call = .add token isDelayed →
    ∀ op : δ, (∃ x ∈ h, Grants op token x) → Obtained quota h now op token

/-- The leases are right, a caller that adds its job has not released its attempt, and the
operations are within the limit. -/
structure Inv (digest : ι → δ) (quota : Quota) (h : List (Event δ τ ι)) (t : Nat)
    (w : World δ τ ι) : Prop where
  books : Books quota h t w.scope
  adding : ∀ b job, w.callers b = some ⟨job, .adding⟩ →
    Pending (Grants (digest job) b) (Releases (digest job) b) h
  bounded : (w.scope.occupied digest t).card ≤ quota.limit

theorem inv_empty (digest : ι → δ) (quota : Quota) :
    Inv digest quota ([] : List (Event δ τ ι)) 0 World.empty where
  books := ⟨by simp, (fun op e he => by cases he), fun op => account_empty⟩
  adding b job hb := by cases hb
  bounded := by simp [Scope.occupied, World.empty, Scope.empty, Queue.empty, Queue.jobs,
    Queue.entries, Scope.leased, ranked]

theorem Inv.later (hi : Inv digest quota h t w) (hle : t ≤ now) : Inv digest quota h now w where
  books := hi.books.later hle
  adding := hi.adding
  bounded := Nat.le_trans (Finset.card_le_card (w.scope.occupied_later digest hle)) hi.bounded

/-- The caller that adds a job holds the lease of its operation. -/
theorem Inv.leased (hi : Inv digest quota h now w) {job : ι}
    (hadding : w.callers token = some ⟨job, .adding⟩)
    (hobtained : (∃ x ∈ h, Grants (digest job) token x) → Obtained quota h now (digest job) token) :
    digest job ∈ w.scope.leased now := by
  have hunreleased := hi.adding token job hadding
  obtain ⟨h₁, x, h₂, hsplit, hx, -⟩ := hunreleased
  obtain ⟨hcurrent, hunexpired⟩ := hobtained ⟨x, by simp [hsplit], hx⟩
  exact (hi.books.leased_iff _).mpr
    ⟨token, pending_or (hi.adding token job hadding) hcurrent, hunexpired⟩

variable [DecidableEq τ]

/-- Any number of callers, whose steps and the moves of the jobs come in any order. -/
abbrev BacklogRun (digest : ι → δ) (quota : Quota) :
    List (Event δ τ ι) → Nat → World δ τ ι → Prop :=
  Run (step digest quota) (AddsWhileLeased quota) World.empty

theorem Inv.step (hi : Inv digest quota h now w) {call : Call τ ι}
    (he : Effect digest quota now w call w' x.reply) (hnow : x.now = now)
    (hadds : AddsWhileLeased quota h now call) : Inv digest quota (h ++ [x]) now w' := by
  generalize hreply : x.reply = reply at he
  cases he with
  | quiet _ _ hinflight hattempts hjobs hadding =>
    have hnone := not_grants_releases (.inl hreply)
    constructor
    · exact hi.books.quiet hnow (fun op b => (hnone op b).1) (fun op b => (hnone op b).2)
        hinflight hattempts
    · intro b job hb
      exact (hi.adding b job (hadding b job hb)).snoc (hnone _ b).2
    · refine Nat.le_trans (Finset.card_le_card ?_) hi.bounded
      refine Scope.occupied_subset hjobs fun op e he hlt => ?_
      rw [hinflight] at he
      exact Scope.mem_leased.mpr ⟨e, he, hlt⟩
  | trimmed =>
    have hnone := not_grants_releases (.inl hreply)
    constructor
    · exact hi.books.trim.quiet hnow (fun op b => (hnone op b).1) (fun op b => (hnone op b).2)
        rfl rfl
    · intro b job hb
      exact (hi.adding b job hb).snoc (hnone _ b).2
    · refine Nat.le_trans (Finset.card_le_card ?_) hi.bounded
      refine Scope.occupied_subset (Finset.Subset.refl _) fun op e he hlt => ?_
      rw [Scope.trim, hi.books.lasting.field_trimmed, Option.filter_eq_some_iff] at he
      exact Scope.mem_leased.mpr ⟨e, he.1, hlt⟩
  | claimed _ token job status _ hscript hadding =>
    refine ⟨hi.books.claimed hnow hreply hscript, fun b job' hb => ?_,
      hi.books.occupied_claimed hscript hi.bounded⟩
    rcases hadding b job' hb with ⟨rfl, rfl, rfl | rfl⟩ | hbefore
    · exact pending_snoc.mpr (.inl (.inl hreply))
    · exact pending_snoc.mpr (.inl (.inr hreply))
    · exact (hi.adding b job' hbefore).snoc (not_releases_of_claimed hreply _ b)
  | added token job isDelayed _ hbefore hscope hadding =>
    have hnone := not_grants_releases (.inr ⟨_, _, hreply⟩)
    have hleased := hi.leased hbefore (hadds token isDelayed rfl (digest job))
    constructor
    · exact hi.books.quiet hnow (fun op b => (hnone op b).1) (fun op b => (hnone op b).2)
        (by rw [hscope]) (by rw [hscope])
    · intro b job' hb
      exact (hi.adding b job' (hadding b job' hb)).snoc (hnone _ b).2
    · rw [hscope]
      exact Nat.le_trans (Finset.card_le_card (Scope.occupied_added isDelayed hleased)) hi.bounded
  | released _ token job _ hbefore hscript =>
    refine ⟨hi.books.released hnow hreply hscript, fun b job' hb => ?_,
      Nat.le_trans (Finset.card_le_card (occupied_released hscript)) hi.bounded⟩
    refine (hi.adding b job' hb).snoc fun hreleases => ?_
    rw [Releases, hreply, Option.some.injEq, Shown.released.injEq] at hreleases
    exact hbefore job' (hreleases.2 ▸ hb)

theorem run_inv (hr : BacklogRun digest quota h t w) : Inv digest quota h t w := by
  refine hr.invariant (Inv digest quota) (inv_empty digest quota) (fun _ _ _ _ hi hle => hi.later hle)
    fun h t w call hi hadds => ?_
  exact hi.step (step_effect digest quota t call w) rfl hadds

def scopeAfter (digest : ι → δ) (quota : Quota) (h : List (Event δ τ ι)) : Scope δ τ ι :=
  (replay (BacklogQuota.step digest quota) World.empty h).scope

/-- At all times the operations are within the limit, and so are the live jobs when no two of them
are one operation. A release leaves the operation its lease exactly when another attempt holds it. -/
structure BacklogContract (digest : ι → δ) (quota : Quota) (h : List (Event δ τ ι)) (t : Nat)
    (w : World δ τ ι) : Prop where
  bounded : ∀ now, t ≤ now → (w.scope.occupied digest now).card ≤ quota.limit
  jobs : Set.InjOn digest w.scope.queue.jobs → w.scope.queue.jobs.card ≤ quota.limit
  released : ∀ h₁ x h₂ op token, h = h₁ ++ x :: h₂ → Releases op token x →
    (op ∈ (scopeAfter digest quota (h₁ ++ [x])).leased x.now ↔
      ∃ b, b ≠ token ∧ Holds quota h₁ x.now op b)

theorem backlog_within_limit (hr : BacklogRun digest quota h t w) :
    BacklogContract digest quota h t w := by
  have hi := run_inv hr
  constructor
  · exact fun now hle => (hi.later hle).bounded
  · intro hinj
    rw [← Finset.card_image_of_injOn hinj]
    exact Nat.le_trans (Finset.card_le_card Finset.subset_union_left) hi.bounded
  · rintro h₁ x h₂ op token rfl hx
    rw [List.append_cons] at hr
    obtain ⟨t₁, w₁, hr₁, -⟩ := hr.of_append
    have hi₁ := run_inv hr₁
    obtain ⟨_, _, -, -, -, rfl, -, -⟩ := hr₁.snoc_inv
    rw [scopeAfter, hr₁.replay_eq, hi₁.books.leased_iff]
    exact exists_congr fun b => (holds_released hx b).trans and_comm

def onePlace : Quota := ⟨1, 600000⟩

/-- Two callers add the same job, which takes the place; the first releases its attempt. A third
caller is refused, and the second releases the lease. -/
def twoCallerAsks : List (Nat × Call Nat String) :=
  [(0, .ensureDeliveryJob 0 "a"), (0, .claim 0 250 true), (10, .ensureDeliveryJob 1 "a"),
    (10, .claim 1 260 true), (20, .add 0 false), (30, .release 0), (40, .ensureDeliveryJob 2 "b"),
    (40, .claim 2 290 true), (50, .addFailed 1), (60, .release 1)]

def twoCallers : List (Event String Nat String) × World String Nat String :=
  play (step id onePlace) World.empty twoCallerAsks

def claimed : List (Event String Nat String) :=
  [⟨0, .ensureDeliveryJob 0 "a", none⟩, ⟨0, .claim 0 250 true, some (.claimed "a" 0 1)⟩,
    ⟨10, .ensureDeliveryJob 1 "a", none⟩, ⟨10, .claim 1 260 true, some (.claimed "a" 1 2)⟩]

theorem backlog_within_limit_two_callers :
    (twoCallers.1.map Entry.reply = [none, some (.claimed "a" 0 1), none, some (.claimed "a" 1 2),
      some (.added "a" 0), some (.released "a" 0), none, some (.claimed "b" 2 0), none,
      some (.released "a" 1)]) ∧
    ∃ t, BacklogContract id onePlace twoCallers.1 t twoCallers.2 := by
  refine ⟨by decide +kernel, ?_⟩
  obtain ⟨t, hr⟩ : ∃ t, BacklogRun id onePlace twoCallers.1 t twoCallers.2 := by
    refine run_play (by decide) ⟨?_, ?_, ?_, ?_, ?_, ?_, ?_, ?_, ?_, ?_, trivial⟩
    case refine_5 =>
      intro token isDelayed hadd op hgrants
      obtain ⟨rfl, rfl⟩ := Call.add.inj hadd
      change ∃ x ∈ claimed, Grants op 0 x at hgrants
      have hop : "a" = op := by simpa [claimed, Grants] using hgrants
      subst hop
      change Obtained onePlace claimed 20 "a" 0
      exact ⟨⟨claimed.take 1, claimed[1], claimed.drop 2, rfl, .inl rfl, by simp [claimed, Opens]⟩,
        claimed[1], by simp [claimed], ⟨0, .inl rfl⟩, by decide⟩
    all_goals exact fun _ _ hadd => by cases hadd
  exact ⟨t, backlog_within_limit hr⟩

end Maxim.Publisher.AutoReply.BacklogQuota
