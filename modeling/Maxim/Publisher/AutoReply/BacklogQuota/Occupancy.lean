import Maxim.Publisher.AutoReply.BacklogQuota
import Mathlib.Data.Finset.Image

/-!
# What the leases say about the attempts

While the lease of an operation has not lapsed, its attempt set holds exactly
the attempts of the current generation that were not released, and both expire
together. So the scripts, which only see the lease and the set, agree with the
history about who holds the slot.
-/

namespace Maxim.Publisher.AutoReply.BacklogQuota

open Maxim.Library

variable {δ τ ι : Type}

abbrev Event (δ τ ι : Type) := Entry (Call τ ι) (Option (Shown δ τ))

/-- The attempt was given the lease of the operation, as a new one or together with others. -/
def Grants (operationId : δ) (attemptToken : τ) (x : Event δ τ ι) : Prop :=
  x.reply = some (.claimed operationId attemptToken 1) ∨
    x.reply = some (.claimed operationId attemptToken 2)

def Renews (operationId : δ) (x : Event δ τ ι) : Prop := ∃ token, Grants operationId token x

def Opens (operationId : δ) (x : Event δ τ ι) : Prop :=
  ∃ token, x.reply = some (.claimed operationId token 1)

def Releases (operationId : δ) (attemptToken : τ) (x : Event δ τ ι) : Prop :=
  x.reply = some (.released operationId attemptToken)

def Unexpired (quota : Quota) (h : List (Event δ τ ι)) (now : Nat) (operationId : δ) : Prop :=
  ∃ y ∈ h, Renews operationId y ∧ now < y.now + quota.inflightLeaseTtlMs

/-- The attempt obtained the current generation of the lease, which has not lapsed. -/
def Obtained (quota : Quota) (h : List (Event δ τ ι)) (now : Nat) (operationId : δ)
    (attemptToken : τ) : Prop :=
  Pending (Grants operationId attemptToken) (Opens operationId) h ∧
    Unexpired quota h now operationId

def Ends (operationId : δ) (attemptToken : τ) (x : Event δ τ ι) : Prop :=
  Releases operationId attemptToken x ∨ Opens operationId x

/-- The attempt holds the slot: it obtained the lease and did not release it. -/
def Holds (quota : Quota) (h : List (Event δ τ ι)) (now : Nat) (operationId : δ)
    (attemptToken : τ) : Prop :=
  Pending (Grants operationId attemptToken) (Ends operationId attemptToken) h ∧
    Unexpired quota h now operationId

theorem Unexpired.mono {quota : Quota} {h : List (Event δ τ ι)} {t now : Nat} {operationId : δ}
    (hu : Unexpired quota h now operationId) (hle : t ≤ now) :
    Unexpired quota h t operationId := by
  obtain ⟨y, hy, hrenews, hlt⟩ := hu
  exact ⟨y, hy, hrenews, by omega⟩

section Claims

variable {x : Event δ τ ι} {operationId : δ} {token : τ} {status : Int}
  (hx : x.reply = some (.claimed operationId token status))
include hx

theorem not_grants_of_ne {op : δ} (hop : op ≠ operationId) (b : τ) : ¬Grants op b x := by
  rw [Grants, hx]
  simp [hop.symm]

theorem not_releases_of_claimed (op : δ) (b : τ) : ¬Releases op b x := by
  rw [Releases, hx]
  simp

end Claims

theorem not_grants_releases {x : Event δ τ ι}
    (hx : x.reply = none ∨ ∃ op b, x.reply = some (.added op b)) (op : δ) (b : τ) :
    ¬Grants op b x ∧ ¬Releases op b x := by
  rw [Grants, Releases]
  rcases hx with hx | ⟨_, _, hx⟩ <;> simp [hx]

theorem tokens_of_cell {s : Scope δ τ ι} {now e : Nat} {operationId : δ} {tokens : Finset τ}
    (hcell : s.attempts operationId = cell tokens e) (hlt : now < e) :
    s.tokens now operationId = tokens := by
  rw [Scope.tokens, hcell, purge_cell, if_pos (Nat.le_of_lt hlt)]
  rfl

/-! ## One operation -/

/-- The lease and the attempt set of an operation, against the history. -/
structure Account (quota : Quota) (h : List (Event δ τ ι)) (t : Nat) (operationId : δ)
    (lease : Option Nat) (attempts : Slot (Finset τ)) : Prop where
  renewal : ∀ e, lease = some e →
    ∃ y ∈ h, Renews operationId y ∧ y.now + quota.inflightLeaseTtlMs = e
  latest : ∀ e, lease = some e → t < e → ∀ y ∈ h, Renews operationId y →
    y.now + quota.inflightLeaseTtlMs ≤ e
  attempts : ∀ e, lease = some e → t < e → ∃ tokens, attempts = cell tokens e ∧ tokens.Nonempty ∧
    ∀ b, b ∈ tokens ↔ Pending (Grants operationId b) (Ends operationId b) h
  held : ∀ b, Holds quota h t operationId b → ∃ e, lease = some e ∧ t < e

section Accounts

variable {quota : Quota} {h : List (Event δ τ ι)} {t now : Nat} {operationId : δ}
  {lease : Option Nat} {attempts : Slot (Finset τ)} {x : Event δ τ ι}

theorem account_empty : Account quota ([] : List (Event δ τ ι)) t operationId none attempts where
  renewal e he := by cases he
  latest e he := by cases he
  attempts e he := by cases he
  held b hb := absurd hb.1 not_pending_nil

theorem Account.later (ha : Account quota h t operationId lease attempts) (hle : t ≤ now) :
    Account quota h now operationId lease attempts where
  renewal := ha.renewal
  latest e he hlt := ha.latest e he (by omega)
  attempts e he hlt := ha.attempts e he (by omega)
  held b hb := by
    obtain ⟨e, he, hlt⟩ := ha.held b ⟨hb.1, hb.2.mono hle⟩
    obtain ⟨y, hy, hrenews, hnow⟩ := hb.2
    have hlast := ha.latest e he hlt y hy hrenews
    exact ⟨e, he, by omega⟩

theorem Account.trim (ha : Account quota h t operationId lease attempts) :
    Account quota h t operationId (lease.filter fun e => decide (t < e)) attempts where
  renewal e he := ha.renewal e (Option.filter_eq_some_iff.mp he).1
  latest e he hlt := ha.latest e (Option.filter_eq_some_iff.mp he).1 hlt
  attempts e he hlt := ha.attempts e (Option.filter_eq_some_iff.mp he).1 hlt
  held b hb := by
    obtain ⟨e, he, hlt⟩ := ha.held b hb
    exact ⟨e, Option.filter_eq_some_iff.mpr ⟨he, by simpa using hlt⟩, hlt⟩

theorem unexpired_snoc_quiet (hx : ¬Renews operationId x) :
    Unexpired quota (h ++ [x]) t operationId ↔ Unexpired quota h t operationId := by
  constructor
  · rintro ⟨y, hy, hrenews, hlt⟩
    rcases List.mem_append.mp hy with hy | hy
    · exact ⟨y, hy, hrenews, hlt⟩
    · exact absurd (List.mem_singleton.mp hy ▸ hrenews) hx
  · rintro ⟨y, hy, hrest⟩
    exact ⟨y, List.mem_append_left _ hy, hrest⟩

theorem Account.quiet (ha : Account quota h t operationId lease attempts)
    (hgrants : ∀ b, ¬Grants operationId b x) (hreleases : ∀ b, ¬Releases operationId b x) :
    Account quota (h ++ [x]) t operationId lease attempts := by
  have hrenews : ¬Renews operationId x := fun ⟨b, hb⟩ => hgrants b hb
  have hopens : ¬Opens operationId x := fun ⟨b, hb⟩ => hgrants b (.inl hb)
  have hpending : ∀ b, Pending (Grants operationId b) (Ends operationId b) (h ++ [x]) ↔
      Pending (Grants operationId b) (Ends operationId b) h := by
    intro b
    rw [pending_snoc]
    exact ⟨fun hp => hp.elim (fun hx => absurd hx (hgrants b)) And.left,
      fun hp => .inr ⟨hp, fun hends => hends.elim (hreleases b) hopens⟩⟩
  constructor
  · intro e he
    obtain ⟨y, hy, hrest⟩ := ha.renewal e he
    exact ⟨y, List.mem_append_left _ hy, hrest⟩
  · intro e he hlt y hy hr
    rcases List.mem_append.mp hy with hy | hy
    · exact ha.latest e he hlt y hy hr
    · exact absurd (List.mem_singleton.mp hy ▸ hr) hrenews
  · intro e he hlt
    obtain ⟨tokens, hcell, hne, htokens⟩ := ha.attempts e he hlt
    exact ⟨tokens, hcell, hne, fun b => (htokens b).trans (hpending b).symm⟩
  · rintro b ⟨hp, hu⟩
    exact ha.held b ⟨(hpending b).mp hp, (unexpired_snoc_quiet hrenews).mp hu⟩

theorem Account.lapsed (ha : Account quota h t operationId lease attempts)
    (hlease : ∀ e, lease = some e → e ≤ t) (attempts' : Slot (Finset τ)) :
    Account quota h t operationId none attempts' where
  renewal e he := by cases he
  latest e he := by cases he
  attempts e he := by cases he
  held b hb := by
    obtain ⟨e, he, hlt⟩ := ha.held b hb
    exact absurd hlt (Nat.not_lt.mpr (hlease e he))

section Leased

variable {token : τ} (hdated : ∀ y ∈ h, y.now ≤ t) (hnow : x.now = t)
  (httl : 0 < quota.inflightLeaseTtlMs)
include hdated hnow httl

theorem account_granted {tokens : Finset τ} (hx : Grants operationId token x)
    (hne : tokens.Nonempty) (htokens : ∀ b, b ∈ tokens ↔
      Pending (Grants operationId b) (Ends operationId b) (h ++ [x])) :
    Account quota (h ++ [x]) t operationId (some (t + quota.inflightLeaseTtlMs))
      (cell tokens (t + quota.inflightLeaseTtlMs)) := by
  constructor
  · intro e he
    exact ⟨x, by simp, ⟨token, hx⟩, by rw [hnow]; exact Option.some.inj he⟩
  · intro e he _ y hy _
    rw [← Option.some.inj he]
    rcases List.mem_append.mp hy with hy | hy
    · have hle := hdated y hy
      omega
    · rw [List.mem_singleton.mp hy]
      omega
  · intro e he _
    obtain rfl := Option.some.inj he
    exact ⟨tokens, rfl, hne, htokens⟩
  · intro b _
    exact ⟨_, rfl, by omega⟩

theorem Account.opened (hx : x.reply = some (.claimed operationId token 1)) :
    Account quota (h ++ [x]) t operationId (some (t + quota.inflightLeaseTtlMs))
      (cell {token} (t + quota.inflightLeaseTtlMs)) := by
  refine account_granted hdated hnow httl (.inl hx) (Finset.singleton_nonempty token) fun b => ?_
  rw [Finset.mem_singleton, pending_snoc]
  constructor
  · rintro rfl
    exact .inl (.inl hx)
  · rintro ((hb | hb) | ⟨-, hends⟩)
    · rw [hx] at hb
      simp only [Option.some.injEq, Shown.claimed.injEq, true_and] at hb
      exact hb.1.symm
    · rw [hx] at hb
      simp at hb
    · exact absurd (.inr ⟨token, hx⟩) hends

variable [DecidableEq τ]

theorem Account.renewed {e : Nat} (ha : Account quota h t operationId (some e) attempts)
    (hlt : t < e) (hx : x.reply = some (.claimed operationId token 2)) :
    Account quota (h ++ [x]) t operationId (some (t + quota.inflightLeaseTtlMs))
      (cell (insert token ((content (purge t attempts)).getD ∅))
        (t + quota.inflightLeaseTtlMs)) := by
  obtain ⟨tokens, rfl, -, htokens⟩ := ha.attempts e rfl hlt
  rw [purge_cell, if_pos (Nat.le_of_lt hlt), content_cell, Option.getD_some]
  refine account_granted hdated hnow httl (.inr hx) (Finset.insert_nonempty token tokens)
    fun b => ?_
  rw [Finset.mem_insert, pending_snoc, htokens]
  have hends : ∀ b, ¬Ends operationId b x := by
    rintro b (hr | ⟨_, ho⟩)
    · rw [Releases, hx] at hr
      simp at hr
    · rw [hx] at ho
      simp at ho
  have hgrants : Grants operationId b x ↔ b = token := by
    rw [Grants, hx]
    simp [eq_comm]
  rw [hgrants]
  exact ⟨fun hb => hb.imp_right fun hp => ⟨hp, hends b⟩, fun hb => hb.imp_right And.left⟩

end Leased

variable {token : τ}

theorem pending_released (hx : Releases operationId token x) (b : τ) :
    Pending (Grants operationId b) (Ends operationId b) (h ++ [x]) ↔
      Pending (Grants operationId b) (Ends operationId b) h ∧ b ≠ token := by
  rw [Releases] at hx
  have hgrants : ¬Grants operationId b x := by
    rw [Grants, hx]
    simp
  have hends : Ends operationId b x ↔ b = token := by
    rw [Ends, Releases, Opens, hx]
    simp [eq_comm]
  rw [pending_snoc, hends]
  exact ⟨fun hp => hp.elim (fun hg => absurd hg hgrants) id, fun hp => .inr hp⟩

theorem holds_released (hx : Releases operationId token x) (b : τ) :
    Holds quota (h ++ [x]) t operationId b ↔ Holds quota h t operationId b ∧ b ≠ token := by
  have hrenews : ¬Renews operationId x := by
    rintro ⟨c, hc⟩
    rw [Releases] at hx
    rw [Grants, hx] at hc
    simp at hc
  rw [Holds, Holds, pending_released hx, unexpired_snoc_quiet hrenews]
  exact and_right_comm

theorem Account.leased_iff (ha : Account quota h t operationId lease attempts) :
    (∃ e, lease = some e ∧ t < e) ↔ ∃ b, Holds quota h t operationId b := by
  constructor
  · rintro ⟨e, he, hlt⟩
    obtain ⟨tokens, -, ⟨b, hb⟩, htokens⟩ := ha.attempts e he hlt
    obtain ⟨y, hy, hrenews, rfl⟩ := ha.renewal e he
    exact ⟨b, (htokens b).mp hb, y, hy, hrenews, hlt⟩
  · rintro ⟨b, hb⟩
    exact ha.held b hb

variable [DecidableEq τ]

theorem Account.released (ha : Account quota h t operationId lease attempts)
    (hx : Releases operationId token x) {lease' : Option Nat} {attempts' : Slot (Finset τ)}
    (hlease : lease' = lease ∨ lease' = none)
    (hkept : ∀ e, lease = some e → t < e → ∀ tokens, attempts = cell tokens e →
      (tokens.erase token = ∅ → lease' = none) ∧
        (tokens.erase token ≠ ∅ → lease' = lease ∧ attempts' = cell (tokens.erase token) e)) :
    Account quota (h ++ [x]) t operationId lease' attempts' := by
  have hrenews : ¬Renews operationId x := by
    rintro ⟨b, hb⟩
    rw [Releases] at hx
    rw [Grants, hx] at hb
    simp at hb
  have hback : ∀ e, lease' = some e → lease = some e := by
    rintro e rfl
    exact hlease.elim Eq.symm fun hn => by cases hn
  constructor
  · intro e he
    obtain ⟨y, hy, hrest⟩ := ha.renewal e (hback e he)
    exact ⟨y, List.mem_append_left _ hy, hrest⟩
  · intro e he hlt y hy hr
    rcases List.mem_append.mp hy with hy | hy
    · exact ha.latest e (hback e he) hlt y hy hr
    · exact absurd (List.mem_singleton.mp hy ▸ hr) hrenews
  · intro e he hlt
    obtain ⟨tokens, hcell, -, htokens⟩ := ha.attempts e (hback e he) hlt
    obtain ⟨hempty, hleft⟩ := hkept e (hback e he) hlt tokens hcell
    by_cases hne : tokens.erase token = ∅
    · rw [hempty hne] at he
      cases he
    · refine ⟨tokens.erase token, (hleft hne).2, Finset.nonempty_iff_ne_empty.mpr hne, fun b => ?_⟩
      rw [Finset.mem_erase, pending_released hx, htokens, and_comm]
  · rintro b ⟨hp, hu⟩
    obtain ⟨hpb, hb⟩ := (pending_released hx b).mp hp
    obtain ⟨e, he, hlt⟩ := ha.held b ⟨hpb, (unexpired_snoc_quiet hrenews).mp hu⟩
    obtain ⟨tokens, hcell, -, htokens⟩ := ha.attempts e he hlt
    have hmem : b ∈ tokens.erase token := Finset.mem_erase.mpr ⟨hb, (htokens b).mpr hpb⟩
    have hne : tokens.erase token ≠ ∅ := Finset.ne_empty_of_mem hmem
    exact ⟨e, ((hkept e he hlt tokens hcell).2 hne).1.trans he, hlt⟩

end Accounts

end Maxim.Publisher.AutoReply.BacklogQuota

/-!
## The operations that occupy the backlog

The operations that are live in the queue or hold a lease are counted once
each, while the scripts count the lists and the leases separately. What the
scripts count is never less.
-/

namespace Maxim.Publisher.AutoReply.BacklogQuota

open Maxim.Library

variable {δ τ ι : Type} [LinearOrder δ]

/-! ## The leases -/

def Lasting (s : Slot (Table δ Nat)) : Prop :=
  ∀ op e, field s op = some e → ∀ y, expiry s = some y → e ≤ y

variable {s : Slot (Table δ Nat)}

theorem Lasting.field_trimmed (hs : Lasting s) (now : Nat) (op : δ) :
    field (removeScored (purge now s) now) op = (field s op).filter fun e => decide (now < e) := by
  rw [field_removeScored]
  rcases purge_eq_self_or_none now s with hp | hp
  · rw [hp]
    congr 1
    funext e
    simp
  · rw [hp]
    cases hf : field s op with
    | none => rfl
    | some e =>
      obtain ⟨c, hc, -⟩ := Option.bind_eq_some_iff.mp hf
      have hdead := purge_eq_none.mp hp c hc
      rw [Cell.live] at hdead
      cases hx : c.expiresAt with
      | none => simp [hx] at hdead
      | some y =>
        have hle := hs op e hf y (by simp [expiry, hc, hx])
        simp only [hx, decide_eq_false_iff_not] at hdead
        rw [Option.filter_some, if_neg (by simp; omega)]
        rfl

theorem Lasting.trimmed (hs : Lasting s) (now : Nat) :
    Lasting (removeScored (purge now s) now) := by
  intro op e he y hy
  rw [hs.field_trimmed, Option.filter_eq_some_iff] at he
  obtain ⟨c, hc, hy⟩ := Option.bind_eq_some_iff.mp (expiry_removeScored hy)
  refine hs op e he.1 y ?_
  rw [(purge_eq_some.mp hc).1]
  exact hy

theorem Lasting.purged (hs : Lasting s) (now : Nat) :
    Lasting (purge now s) := by
  intro op e he y hy
  rcases purge_eq_self_or_none now s with hp | hp
  · rw [hp] at he hy
    exact hs op e he y hy
  · rw [hp] at he
    cases he

theorem Lasting.deleted (hs : Lasting s) (op : δ) :
    Lasting (delField s op) := by
  intro op' e he y hy
  rw [field_delField] at he
  split at he
  · cases he
  · exact hs op' e he y (expiry_delField hy)

def Scope.leased (s : Scope δ τ ι) (now : Nat) : Finset δ :=
  (((ranked s.inflight).filter fun e => decide (now < (ofLex e).1)).map
    fun e => (ofLex e).2).toFinset

theorem Scope.mem_leased {s : Scope δ τ ι} {now : Nat} {op : δ} :
    op ∈ s.leased now ↔ ∃ e, field s.inflight op = some e ∧ now < e := by
  rw [Scope.leased, List.mem_toFinset, List.mem_map]
  constructor
  · rintro ⟨e, he, rfl⟩
    obtain ⟨hmem, hlt⟩ := List.mem_filter.mp he
    exact ⟨(ofLex e).1, mem_ranked.mp hmem, by simpa using hlt⟩
  · rintro ⟨e, he, hlt⟩
    exact ⟨toLex (e, op), List.mem_filter.mpr ⟨mem_ranked.mpr he, decide_eq_true hlt⟩, rfl⟩

theorem Scope.card_leased_le (s : Scope δ τ ι) (now : Nat) :
    (s.leased now).card ≤ zcard s.inflight := by
  refine Nat.le_trans (List.toFinset_card_le _) ?_
  rw [List.length_map]
  exact List.length_filter_le _ _

variable [DecidableEq ι]

def Scope.occupied (digest : ι → δ) (s : Scope δ τ ι) (now : Nat) : Finset δ :=
  s.queue.jobs.image digest ∪ s.leased now

theorem Scope.occupied_subset {digest : ι → δ} {s s' : Scope δ τ ι} {now : Nat}
    (hjobs : s'.queue.jobs ⊆ s.queue.jobs)
    (hleased : ∀ op e, field s'.inflight op = some e → now < e → op ∈ s.leased now) :
    s'.occupied digest now ⊆ s.occupied digest now := by
  refine Finset.union_subset_union (Finset.image_subset_image hjobs) fun op hop => ?_
  obtain ⟨e, he, hlt⟩ := Scope.mem_leased.mp hop
  exact hleased op e he hlt

theorem Scope.occupied_added {digest : ι → δ} {s : Scope δ τ ι} {now : Nat} {job : ι} (isDelayed : Bool)
    (hleased : digest job ∈ s.leased now) :
    { s with queue := s.queue.add job isDelayed }.occupied digest now ⊆ s.occupied digest now := by
  intro op hop
  rw [Scope.occupied, Finset.mem_union, Finset.mem_image] at hop ⊢
  rcases hop with ⟨job', hjob', rfl⟩ | hop
  · rcases Finset.mem_insert.mp (s.queue.jobs_add job isDelayed hjob') with rfl | hmem
    · exact .inr hleased
    · exact .inl ⟨job', hmem, rfl⟩
  · exact .inr hop

theorem Scope.occupied_later (digest : ι → δ) (s : Scope δ τ ι) {t now : Nat} (hle : t ≤ now) :
    s.occupied digest now ⊆ s.occupied digest t := by
  refine Finset.union_subset_union (Finset.Subset.refl _) fun op hop => ?_
  obtain ⟨e, he, hlt⟩ := Scope.mem_leased.mp hop
  exact Scope.mem_leased.mpr ⟨e, he, by omega⟩

theorem Scope.card_occupied_le (digest : ι → δ) (s : Scope δ τ ι) (now : Nat) :
    (s.occupied digest now).card ≤ s.queue.liveBacklog + zcard s.inflight :=
  Nat.le_trans (Finset.card_union_le _ _) (Nat.add_le_add
    (Nat.le_trans Finset.card_image_le s.queue.card_jobs_le) (s.card_leased_le now))

end Maxim.Publisher.AutoReply.BacklogQuota
