import Maxim.Library.Run
import Maxim.Library.Expiry
import Maxim.Library.Decimal
import Mathlib.Algebra.Order.Ring.Int

/-!
# Fencing tokens of the dynamic webhook leases

A queue of default webhooks has two keys: the lease, which expires, and the
fence, which counts the claims. A claim reads both, because the fence may lag
behind a lease that was written without it. Numbers pass through fourteen
significant digits whenever a script prints them.
-/

namespace Maxim.Moderation.WebhookLease

open Maxim.Library

/-- A lease value that is a table; other fields are kept by nobody. -/
structure Lease where
  queueName : Option String := none
  ownerId : Option String := none
  fencingToken : Option Int := none
  claimedAtMs : Option Int := none
  updatedAtMs : Option Int := none
  leaseUntilMs : Option Int := none
  deriving DecidableEq

inductive LeaseValue
  /-- No JSON, or JSON that is no table. -/
  | undecodable
  | table (lease : Lease)
  deriving DecidableEq

inductive Fence
  | integer (n : Int)
  /-- A text that `INCR` refuses, with the number that `tonumber` reads. -/
  | text (number : Option Int)
  deriving DecidableEq

structure Keys where
  lease : Slot LeaseValue
  fence : Option Fence

/-- What a number is after `tostring` or `cjson.encode`. -/
def printed (n : Int) : Int := n.sign * (significant 14 n.natAbs : Nat)

/-- `tonumber(redis.call('GET', KEYS[2]) or '0') or 0`. -/
def recorded (keys : Keys) : Int :=
  match keys.fence with
  | none => 0
  | some (.integer n) => n
  | some (.text number) => number.getD 0

/-- `INCR`, when it does not fail. -/
def incr : Option Fence → Option Int
  | none => some 1
  | some (.integer n) => if n < 9223372036854775807 then some (n + 1) else none
  | some (.text _) => none

/-- The table that a script decodes from the lease key. -/
def readLease (now : Nat) (keys : Keys) : Option Lease :=
  match content (purge now keys.lease) with
  | some (.table lease) => some lease
  | _ => none

/-- `PTTL` is positive, or the key has no expiry. -/
def unexpired (now : Nat) (keys : Keys) : Bool := keys.lease.any fun c => c.expiresAt.all (now < ·)

def currentToken (now : Nat) (keys : Keys) : Int :=
  ((readLease now keys).bind (·.fencingToken)).getD 0

def heldByAnother (now : Nat) (ownerId : String) (keys : Keys) : Bool :=
  (readLease now keys).any fun lease => unexpired now keys && lease.ownerId ≠ some ownerId

def observedFence (now : Nat) (keys : Keys) : Option Fence :=
  if recorded keys < currentToken now keys then some (.integer (printed (currentToken now keys)))
  else keys.fence

inductive Reply
  | granted (fencingToken : Int)
  | refused
  /-- The answer of a renewal or a release. -/
  | kept (done : Bool)
  /-- A command of the script has failed; what it wrote before stays. -/
  | error
  deriving DecidableEq

def claim (now : Nat) (ownerId queueName : String) (nowMs : Int) (ttlMs : Nat) (keys : Keys) :
    Keys × Reply :=
  let fence := observedFence now keys
  if heldByAnother now ownerId keys then ({ keys with fence }, .refused)
  else match incr fence with
    | none => ({ keys with fence }, .error)
    | some fencingToken =>
      -- `SET … PX 0` fails after the increment
      if ttlMs = 0 then ({ keys with fence := some (.integer fencingToken) }, .error)
      else
        ({ lease := cell (.table
            { queueName := some queueName
              ownerId := some ownerId
              fencingToken := some (printed fencingToken)
              claimedAtMs := some nowMs
              updatedAtMs := some nowMs
              leaseUntilMs := some (nowMs + ttlMs) }) (now + ttlMs)
           fence := some (.integer fencingToken) }, .granted fencingToken)

/-- The pair that a renewal or a release names is the one of the lease. -/
def Lease.ownedBy (lease : Lease) (ownerId : String) (fencingToken : Int) : Bool :=
  lease.ownerId = some ownerId && lease.fencingToken = some fencingToken

def renew (now : Nat) (ownerId : String) (fencingToken nowMs : Int) (ttlMs : Nat) (keys : Keys) :
    Keys × Reply :=
  match (readLease now keys).filter (·.ownedBy ownerId fencingToken) with
  | none => (keys, .kept false)
  | some lease =>
    if ttlMs = 0 then (keys, .error)
    else
      ({ keys with
          lease := cell (.table { lease with
            fencingToken := lease.fencingToken.map printed
            updatedAtMs := some nowMs
            leaseUntilMs := some (nowMs + ttlMs) }) (now + ttlMs) }, .kept true)

def release (now : Nat) (ownerId : String) (fencingToken : Int) (keys : Keys) : Keys × Reply :=
  match (readLease now keys).filter (·.ownedBy ownerId fencingToken) with
  | none => (keys, .kept false)
  | some _ => ({ keys with lease := none }, .kept true)

inductive Request
  | claim (ownerId queueName : String) (nowMs : Int) (ttlMs : Nat)
  | renew (ownerId : String) (fencingToken nowMs : Int) (ttlMs : Nat)
  | release (ownerId : String) (fencingToken : Int)
  deriving DecidableEq

def step (now : Nat) (request : Request) (keys : Keys) : Keys × Reply :=
  match request with
  | .claim ownerId queueName nowMs ttlMs => claim now ownerId queueName nowMs ttlMs keys
  | .renew ownerId fencingToken nowMs ttlMs => renew now ownerId fencingToken nowMs ttlMs keys
  | .release ownerId fencingToken => release now ownerId fencingToken keys

abbrev Event := Entry Request Reply

abbrev LeaseRun (keys₀ : Keys) : List Event → Nat → Keys → Prop := Run step (fun _ _ _ => True) keys₀

/-! ## Numbers that are printed exactly -/

def Small (n : Int) : Prop := n.natAbs < 10 ^ 14

theorem printed_of_small {n : Int} (h : Small n) : printed n = n := by
  rw [printed, significant_of_lt (by decide) h, Int.sign_mul_natAbs]

/-! ## One script -/

variable {now : Nat} {keys keys' : Keys} {reply : Reply}

/-- The token of the lease key, whether or not the key has expired. -/
def storedToken (keys : Keys) : Option Int :=
  match content keys.lease with
  | some (.table lease) => lease.fencingToken
  | _ => none

variable {lease : Lease}

theorem readLease_eq_some (h : readLease now keys = some lease) :
    content keys.lease = some (.table lease) := by
  unfold readLease at h
  split at h
  · next l hl =>
    obtain ⟨c, hc, hv⟩ := Option.map_eq_some_iff.mp hl
    rw [(purge_eq_some.mp hc).1, content_some, hv, Option.some.inj h]
  · cases h

theorem storedToken_of_content (h : content keys.lease = some (.table lease)) :
    storedToken keys = lease.fencingToken := by
  rw [storedToken, h]

theorem storedToken_of_readLease (h : readLease now keys = some lease) :
    storedToken keys = lease.fencingToken := storedToken_of_content (readLease_eq_some h)

theorem currentToken_cases (now : Nat) (keys : Keys) :
    currentToken now keys = 0 ∨ storedToken keys = some (currentToken now keys) := by
  unfold currentToken
  cases hl : readLease now keys with
  | none => exact .inl rfl
  | some lease =>
    rw [storedToken_of_readLease hl]
    cases hk : lease.fencingToken with
    | none => exact .inl (by simp [hk])
    | some k => exact .inr (by simp [hk])

theorem recorded_observed (hsmall : ∀ k, storedToken keys = some k → Small k) :
    recorded { keys with fence := observedFence now keys } =
      max (recorded keys) (currentToken now keys) := by
  unfold observedFence
  split
  · next hlt =>
    have hprinted : printed (currentToken now keys) = currentToken now keys := by
      rcases currentToken_cases now keys with h | h
      · rw [h]; rfl
      · exact printed_of_small (hsmall _ h)
    rw [max_eq_right (by omega)]
    exact hprinted
  · next hle => rw [max_eq_left (by omega)]

theorem incr_eq_some {fence : Option Fence} {lease : Slot LeaseValue} {n : Int}
    (h : incr fence = some n) : n = recorded ⟨lease, fence⟩ + 1 := by
  cases fence with
  | none => exact (Option.some.inj h).symm
  | some f =>
    cases f with
    | integer m =>
      simp only [incr] at h
      split at h
      · exact (Option.some.inj h).symm
      · cases h
    | text number => cases h

def seenToken (now : Nat) (keys : Keys) : Int := max (recorded keys) (currentToken now keys)

theorem claim_cases (hsmall : ∀ k, storedToken keys = some k → Small k) {ownerId queueName : String}
    {nowMs : Int} {ttlMs : Nat} (h : claim now ownerId queueName nowMs ttlMs keys = (keys', reply)) :
    ((∀ n, reply ≠ .granted n) ∧ keys'.lease = keys.lease ∧ seenToken now keys ≤ recorded keys') ∨
    (reply = .granted (seenToken now keys + 1) ∧ recorded keys' = seenToken now keys + 1 ∧
      heldByAnother now ownerId keys = false ∧
      ∃ lease, content keys'.lease = some (.table lease) ∧ lease.ownerId = some ownerId ∧
        lease.fencingToken = some (printed (seenToken now keys + 1))) := by
  have hseen : recorded { keys with fence := observedFence now keys } = seenToken now keys :=
    recorded_observed hsmall
  unfold claim at h
  dsimp only at h
  split at h
  · obtain ⟨rfl, rfl⟩ := Prod.mk.inj h
    exact .inl ⟨by simp, rfl, by rw [hseen]⟩
  · next hheld =>
    split at h
    · obtain ⟨rfl, rfl⟩ := Prod.mk.inj h
      exact .inl ⟨by simp, rfl, by rw [hseen]⟩
    · next n hn =>
      have hn' : n = seenToken now keys + 1 := by rw [incr_eq_some hn, ← hseen]
      subst hn'
      split at h
      · obtain ⟨rfl, rfl⟩ := Prod.mk.inj h
        refine .inl ⟨by simp, rfl, ?_⟩
        change seenToken now keys ≤ seenToken now keys + 1
        omega
      · obtain ⟨rfl, rfl⟩ := Prod.mk.inj h
        exact .inr ⟨rfl, rfl, by simpa using hheld, _, rfl, rfl, rfl⟩

/-- The pair that a renewal or a release names. -/
def Request.pair? : Request → Option (String × Int)
  | .claim .. => none
  | .renew ownerId fencingToken _ _ => some (ownerId, fencingToken)
  | .release ownerId fencingToken => some (ownerId, fencingToken)

theorem keep_cases {request : Request} {ownerId : String} {token : Int}
    (hreq : request.pair? = some (ownerId, token)) (h : step now request keys = (keys', reply)) :
    (∀ n, reply ≠ .granted n) ∧ keys'.fence = keys.fence ∧
      (keys' = keys ∨ ∃ lease, readLease now keys = some lease ∧
        lease.ownedBy ownerId token = true ∧
        (keys'.lease = none ∨ ∃ lease', content keys'.lease = some (.table lease') ∧
          lease'.ownerId = lease.ownerId ∧
          lease'.fencingToken = lease.fencingToken.map printed)) := by
  cases request with
  | claim ownerId queueName nowMs ttlMs => cases hreq
  | renew o k nowMs ttlMs =>
    obtain ⟨rfl, rfl⟩ := Prod.mk.inj (Option.some.inj hreq)
    simp only [step, renew] at h
    split at h
    · obtain ⟨rfl, rfl⟩ := Prod.mk.inj h
      exact ⟨by simp, rfl, .inl rfl⟩
    · next lease hl =>
      obtain ⟨hread, howned⟩ := Option.filter_eq_some_iff.mp hl
      split at h
      · obtain ⟨rfl, rfl⟩ := Prod.mk.inj h
        exact ⟨by simp, rfl, .inl rfl⟩
      · obtain ⟨rfl, rfl⟩ := Prod.mk.inj h
        exact ⟨by simp, rfl, .inr ⟨lease, hread, howned, .inr ⟨_, rfl, rfl, rfl⟩⟩⟩
  | release o k =>
    obtain ⟨rfl, rfl⟩ := Prod.mk.inj (Option.some.inj hreq)
    simp only [step, release] at h
    split at h
    · obtain ⟨rfl, rfl⟩ := Prod.mk.inj h
      exact ⟨by simp, rfl, .inl rfl⟩
    · next lease hl =>
      obtain ⟨hread, howned⟩ := Option.filter_eq_some_iff.mp hl
      obtain ⟨rfl, rfl⟩ := Prod.mk.inj h
      exact ⟨by simp, rfl, .inr ⟨lease, hread, howned, .inl rfl⟩⟩

/-! ## Whole runs -/

/-- A claim of the history ran while the lease could be read and carried the token `k`. -/
def Observed (keys₀ : Keys) (h : List Event) (k : Int) : Prop :=
  ∃ h₁ e h₂ t₁ keys₁ lease, h = h₁ ++ e :: h₂ ∧ e.request.pair? = none ∧
    LeaseRun keys₀ h₁ t₁ keys₁ ∧ readLease e.now keys₁ = some lease ∧ lease.fencingToken = some k

/-- The tokens of the start and of every grant have at most fourteen digits. -/
structure Bounded (keys₀ : Keys) (h : List Event) : Prop where
  start : ∀ k, storedToken keys₀ = some k → Small k
  granted : ∀ e ∈ h, ∀ n, e.reply = .granted n → Small n

/-- The fence is not behind what was granted or observed. -/
structure Fenced (keys₀ : Keys) (h : List Event) (keys : Keys) : Prop where
  small : ∀ k, storedToken keys = some k → Small k
  granted : ∀ e ∈ h, ∀ n, e.reply = .granted n → n ≤ recorded keys
  observed : ∀ k, Observed keys₀ h k → k ≤ recorded keys

variable {keys₀ : Keys} {h : List Event} {t : Nat}

theorem observed_snoc {e : Event} {k : Int} (hr : LeaseRun keys₀ h t keys)
    (ho : Observed keys₀ (h ++ [e]) k) :
    Observed keys₀ h k ∨ (e.request.pair? = none ∧ ∃ lease, readLease e.now keys = some lease ∧
      lease.fencingToken = some k) := by
  obtain ⟨h₁, x, h₂, t₁, keys₁, lease, hsplit, hclaim, hr₁, hread, hk⟩ := ho
  rcases List.eq_nil_or_concat h₂ with rfl | ⟨h₂, z, rfl⟩
  · obtain ⟨rfl, hlast⟩ := List.append_inj' hsplit rfl
    obtain rfl := List.singleton_inj.mp hlast
    rw [(hr.unique hr₁).2] at hread
    exact .inr ⟨hclaim, lease, hread, hk⟩
  · rw [List.concat_eq_append, ← List.cons_append, ← List.append_assoc] at hsplit
    obtain ⟨rfl, -⟩ := List.append_singleton_inj.mp hsplit
    exact .inl ⟨h₁, x, h₂, t₁, keys₁, lease, rfl, hclaim, hr₁, hread, hk⟩

theorem le_seenToken {k : Int} (hread : readLease now keys = some lease)
    (hk : lease.fencingToken = some k) : k ≤ seenToken now keys := by
  have hcurrent : currentToken now keys = k := by simp [currentToken, hread, hk]
  rw [seenToken, hcurrent]
  exact le_max_right _ _

/-- The step lemma: one script keeps the fence ahead. -/
theorem Fenced.step (hr : LeaseRun keys₀ h t keys) (hf : Fenced keys₀ h keys) (request : Request)
    (hsmall : ∀ n, (WebhookLease.step now request keys).2 = .granted n → Small n) :
    Fenced keys₀ (h ++ [⟨now, request, (WebhookLease.step now request keys).2⟩])
      (WebhookLease.step now request keys).1 := by
  rcases hstep : WebhookLease.step now request keys with ⟨keys', reply⟩
  rw [hstep] at hsmall
  have hgrow : (∀ k, storedToken keys' = some k → Small k) ∧ recorded keys ≤ recorded keys' ∧
      (∀ n, reply = .granted n → n ≤ recorded keys') ∧
      (request.pair? = none → seenToken now keys ≤ recorded keys') := by
    cases hpair : request.pair? with
    | none =>
      cases request with
      | renew => cases hpair
      | release => cases hpair
      | claim ownerId queueName nowMs ttlMs =>
        have hle : recorded keys ≤ seenToken now keys := le_max_left _ _
        rcases claim_cases hf.small hstep with ⟨hno, hlease, hseen⟩ |
            ⟨rfl, hrec, -, lease, hcontent, -, htoken⟩
        · refine ⟨?_, by omega, fun n hn => absurd hn (hno n), fun _ => hseen⟩
          intro k hk
          exact hf.small k (by rwa [storedToken, hlease] at hk)
        · refine ⟨?_, by omega, ?_, fun _ => by omega⟩
          · intro k hk
            have hn := hsmall _ rfl
            rw [storedToken_of_content hcontent, htoken, printed_of_small hn] at hk
            rwa [← Option.some.inj hk]
          · intro n hn
            have := Reply.granted.inj hn
            omega
    | some pair =>
      obtain ⟨hno, hfence, hlease⟩ := keep_cases hpair hstep
      have hrec : recorded keys' = recorded keys := by rw [recorded, hfence, recorded]
      refine ⟨?_, by omega, fun n hn => absurd hn (hno n), fun hnone => by cases hnone⟩
      intro k hk
      rcases hlease with rfl | ⟨lease, hread, -, hnone | ⟨lease', hcontent, -, htoken⟩⟩
      · exact hf.small k hk
      · simp [storedToken, hnone] at hk
      · rw [storedToken_of_content hcontent, htoken] at hk
        obtain ⟨m, hm, rfl⟩ := Option.map_eq_some_iff.mp hk
        have hsm : Small m := hf.small m (by rw [storedToken_of_readLease hread, hm])
        rwa [printed_of_small hsm]
  obtain ⟨hstored, hmono, hgranted, hclaim⟩ := hgrow
  refine ⟨hstored, ?_, ?_⟩
  · intro e he n hn
    rcases List.mem_append.mp he with he | he
    · exact le_trans (hf.granted e he n hn) hmono
    · obtain rfl := List.mem_singleton.mp he
      exact hgranted n hn
  · intro k hk
    rcases observed_snoc hr hk with hk | ⟨hreq, lease, hread, htoken⟩
    · exact le_trans (hf.observed k hk) hmono
    · exact le_trans (le_seenToken hread htoken) (hclaim hreq)

theorem fenced (hr : LeaseRun keys₀ h t keys) (hb : Bounded keys₀ h) : Fenced keys₀ h keys := by
  induction hr with
  | nil =>
    refine ⟨hb.start, by simp, ?_⟩
    rintro k ⟨h₁, e, h₂, -, -, -, hsplit, -⟩
    simp at hsplit
  | snoc now request hr _ _ ih =>
    have hprev := ih ⟨hb.start, fun e he => hb.granted e (List.mem_append_left _ he)⟩
    refine hprev.step hr request fun n hn => ?_
    exact hb.granted _ (List.mem_append_right _ (List.mem_singleton.mpr rfl)) n hn

/-! ## The owner of the lease -/

def OwnedBy (ownerId : String) (token : Int) (keys : Keys) : Prop :=
  content keys.lease = none ∨
    ∃ lease, content keys.lease = some (.table lease) ∧ lease.ownedBy ownerId token = true

def Grants (ownerId : String) (token : Int) (e : Event) : Prop :=
  e.reply = .granted token ∧ ∃ queueName nowMs ttlMs, e.request = .claim ownerId queueName nowMs ttlMs

def LastGrant (ownerId : String) (token : Int) : List Event → Prop :=
  Pending (Grants ownerId token) fun e => ∃ n, e.reply = .granted n

theorem readLease_owned {ownerId : String} {token : Int}
    (ho : OwnedBy ownerId token keys) (hread : readLease now keys = some lease) :
    lease.ownedBy ownerId token = true := by
  have hcontent := readLease_eq_some hread
  rcases ho with hnone | ⟨lease', hl, howned⟩
  · rw [hnone] at hcontent
    cases hcontent
  · rw [hl, Option.some.injEq, LeaseValue.table.injEq] at hcontent
    rwa [← hcontent]

theorem ownedBy_pair {o o' : String} {k k' : Int} (h : lease.ownedBy o k = true)
    (h' : lease.ownedBy o' k' = true) : (o, k) = (o', k') := by
  simp only [Lease.ownedBy, Bool.and_eq_true, decide_eq_true_eq] at h h'
  obtain ⟨ho, hk⟩ := h
  rw [ho, hk] at h'
  exact Prod.ext (Option.some.inj h'.1) (Option.some.inj h'.2)

/-- After a granted claim the lease is its own until the next one. -/
theorem ownedBy_of_lastGrant {ownerId : String} {token : Int} (hr : LeaseRun keys₀ h t keys)
    (hb : Bounded keys₀ h) (hlast : LastGrant ownerId token h) : OwnedBy ownerId token keys := by
  induction hr with
  | nil => exact absurd hlast not_pending_nil
  | @snoc h t keys now request hr _ _ ih =>
    have hb' : Bounded keys₀ h := ⟨hb.start, fun e he => hb.granted e (List.mem_append_left _ he)⟩
    have hsmall := (fenced hr hb').small
    have hnew := hb.granted _ (List.mem_append_right h (List.mem_singleton.mpr rfl))
    rcases hstep : step now request keys with ⟨keys', reply⟩
    rw [hstep] at hlast hnew
    rcases pending_snoc.mp hlast with ⟨hreply, queueName, nowMs, ttlMs, hreq⟩ | ⟨hprev, hno⟩
    · change reply = .granted token at hreply
      change request = .claim ownerId queueName nowMs ttlMs at hreq
      subst hreply hreq
      rcases claim_cases hsmall hstep with ⟨hnot, -⟩ | ⟨hn, -, -, lease, hcontent, howner, htoken⟩
      · exact absurd rfl (hnot token)
      · obtain rfl := Reply.granted.inj hn
        refine .inr ⟨lease, hcontent, ?_⟩
        rw [printed_of_small (hnew _ rfl)] at htoken
        simp [Lease.ownedBy, howner, htoken]
    · have howned := ih hb' hprev
      cases hpair : request.pair? with
      | none =>
        cases request with
        | renew => cases hpair
        | release => cases hpair
        | claim o queueName nowMs ttlMs =>
          rcases claim_cases hsmall hstep with ⟨-, hlease, -⟩ | ⟨hn, -⟩
          · rwa [OwnedBy, hlease]
          · exact absurd ⟨_, hn⟩ hno
      | some pair =>
        obtain ⟨-, -, rfl | ⟨lease, hread, -, hnone | ⟨lease', hcontent, howner, htoken⟩⟩⟩ :=
          keep_cases hpair hstep
        · exact howned
        · exact .inl (by rw [hnone, content_none])
        · have hold := readLease_owned howned hread
          simp only [Lease.ownedBy, Bool.and_eq_true, decide_eq_true_eq] at hold
          have hexact : printed token = token :=
            printed_of_small (hsmall token (by rw [storedToken_of_readLease hread, hold.2]))
          refine .inr ⟨lease', hcontent, ?_⟩
          simp [Lease.ownedBy, howner, htoken, hold.1, hold.2, hexact]

theorem step_of_other {ownerId : String} {token : Int} (ho : OwnedBy ownerId token keys)
    {request : Request} {pair : String × Int} (hpair : request.pair? = some pair)
    (hne : pair ≠ (ownerId, token)) : (step now request keys).1 = keys := by
  rcases hstep : step now request keys with ⟨keys', reply⟩
  obtain ⟨-, -, rfl | ⟨lease, hread, howned, -⟩⟩ := keep_cases hpair hstep
  · rfl
  · exact absurd (ownedBy_pair howned (readLease_owned ho hread)) hne

/-- What holds of a request of a run, answered from `keys`: a granted token exceeds every granted
and every observed one, no lease of another owner is overridden, and a renewal or a release of
another pair than the one granted last leaves both keys. -/
structure FencedAnswer (keys₀ : Keys) (h : List Event) (e : Event) (keys : Keys) : Prop where
  increasing : ∀ n, e.reply = .granted n → ∀ e' ∈ h, ∀ k, e'.reply = .granted k → k < n
  exceeds : ∀ n, e.reply = .granted n → ∀ k, Observed keys₀ (h ++ [e]) k → k < n
  exclusive : ∀ n ownerId queueName nowMs ttlMs, e.reply = .granted n →
    e.request = .claim ownerId queueName nowMs ttlMs →
    ∀ lease, readLease e.now keys = some lease → unexpired e.now keys = true →
      lease.ownerId = some ownerId
  fenced : ∀ ownerId token, LastGrant ownerId token h →
    ∀ pair, e.request.pair? = some pair → pair ≠ (ownerId, token) →
      (step e.now e.request keys).1 = keys

/-- The claim scripts fence every run, whatever the two keys hold at its start. -/
theorem claims_fenced (hr : LeaseRun keys₀ h t keys) (hb : Bounded keys₀ h) {h₁ h₂ : List Event}
    {e : Event} (hsplit : h = h₁ ++ e :: h₂) :
    ∃ t₁ keys₁, LeaseRun keys₀ h₁ t₁ keys₁ ∧
      LeaseRun keys₀ (h₁ ++ [e]) e.now (step e.now e.request keys₁).1 ∧
      FencedAnswer keys₀ h₁ e keys₁ := by
  subst hsplit
  rw [show h₁ ++ e :: h₂ = (h₁ ++ [e]) ++ h₂ by simp] at hr hb
  obtain ⟨t₂, keys₂, hr₂, -⟩ := hr.of_append
  obtain ⟨t₁, keys₁, hr₁, -, -, rfl, hreply, rfl⟩ := hr₂.snoc_inv
  have hf : Fenced keys₀ h₁ keys₁ :=
    fenced hr₁ ⟨hb.start, fun x hx => hb.granted x (by simp [hx])⟩
  have hgrant : ∀ n, e.reply = .granted n → n = seenToken e.now keys₁ + 1 ∧
      ∀ ownerId queueName nowMs ttlMs, e.request = .claim ownerId queueName nowMs ttlMs →
        heldByAnother e.now ownerId keys₁ = false := by
    intro n hn
    cases hreq : e.request with
    | claim ownerId queueName nowMs ttlMs =>
      rw [hreply, hreq] at hn
      rcases claim_cases hf.small rfl with ⟨hno, -⟩ | ⟨hn', -, hheld, -⟩
      · exact absurd hn (hno n)
      · refine ⟨Reply.granted.inj (hn.symm.trans hn'), ?_⟩
        intro o q m l heq
        obtain ⟨rfl, -, -, -⟩ := Request.claim.inj heq
        exact hheld
    | renew ownerId token nowMs ttlMs =>
      have hpair : e.request.pair? = some (ownerId, token) := by rw [hreq]; rfl
      exact absurd (hreply.symm.trans hn) ((keep_cases hpair rfl).1 n)
    | release ownerId token =>
      have hpair : e.request.pair? = some (ownerId, token) := by rw [hreq]; rfl
      exact absurd (hreply.symm.trans hn) ((keep_cases hpair rfl).1 n)
  have hseen : recorded keys₁ ≤ seenToken e.now keys₁ := le_max_left _ _
  refine ⟨t₁, keys₁, hr₁, hr₂, ⟨?_, ?_, ?_, ?_⟩⟩
  · intro n hn x hx k hk
    have hle := hf.granted x hx k hk
    have hnext := (hgrant n hn).1
    omega
  · intro n hn k hk
    have hnext := (hgrant n hn).1
    rcases observed_snoc hr₁ hk with hk | ⟨-, lease, hread, htoken⟩
    · have hle := hf.observed k hk
      omega
    · have hle := le_seenToken hread htoken
      omega
  · intro n ownerId queueName nowMs ttlMs hn hreq lease hread hlive
    have hheld := (hgrant n hn).2 ownerId queueName nowMs ttlMs hreq
    simpa [heldByAnother, hread, hlive] using hheld
  · intro ownerId token hlast pair hpair hne
    have hb₁ : Bounded keys₀ h₁ := ⟨hb.start, fun x hx => hb.granted x (by simp [hx])⟩
    exact step_of_other (ownedBy_of_lastGrant hr₁ hb₁ hlast) hpair hne

def legacyKeys : Keys :=
  ⟨cell (.table { ownerId := some "alpha", fencingToken := some 7 }) 1000, none⟩

theorem legacyKeys_small : ∀ k, storedToken legacyKeys = some k → Small k := by
  intro k hk
  obtain rfl := Option.some.inj hk
  simp [Small]

/-- A claim of the other group while the lease lives, and one after it has expired. -/
theorem contested_claims_fenced :
    let early := step 500 (.claim "beta" "q" 500 12000) legacyKeys
    let late := step 1500 (.claim "beta" "q" 1500 12000) early.1
    early.2 = .refused ∧ late.2 = .granted 8 ∧
      ∃ keys, FencedAnswer legacyKeys [⟨500, .claim "beta" "q" 500 12000, early.2⟩]
        ⟨1500, .claim "beta" "q" 1500 12000, late.2⟩ keys := by
  intro early late
  have hearly : early.2 = .refused := by decide +kernel
  have hlate : late.2 = .granted 8 := by decide +kernel
  have hr : LeaseRun legacyKeys
      ([⟨500, .claim "beta" "q" 500 12000, early.2⟩] ++
        [⟨1500, .claim "beta" "q" 1500 12000, late.2⟩]) 1500 late.1 :=
    .snoc 1500 _ (.snoc 500 _ .nil (by decide) trivial) (by decide) trivial
  have hb : Bounded legacyKeys
      ([⟨500, .claim "beta" "q" 500 12000, early.2⟩] ++
        [⟨1500, .claim "beta" "q" 1500 12000, late.2⟩]) := by
    refine ⟨legacyKeys_small, fun x hx n hn => ?_⟩
    rcases List.mem_append.mp hx with hx | hx
    · rw [List.mem_singleton.mp hx, hearly] at hn
      cases hn
    · rw [List.mem_singleton.mp hx, hlate] at hn
      obtain rfl := Reply.granted.inj hn
      simp [Small]
  obtain ⟨t₁, keys, -, -, hanswer⟩ := claims_fenced hr hb rfl
  exact ⟨hearly, hlate, keys, hanswer⟩

/-- A lease that expires before any claim has looked at it leaves no trace: tokens up to its own
are given again. -/
theorem unobserved_token_reissued :
    ∃ (keys₀ : Keys) (h : List Event) (t : Nat) (keys : Keys) (e : Event) (k n : Int),
      LeaseRun keys₀ h t keys ∧ Bounded keys₀ h ∧ storedToken keys₀ = some k ∧
      e ∈ h ∧ e.reply = .granted n ∧ n ≤ k := by
  let late := step 1500 (.claim "beta" "q" 1500 12000) legacyKeys
  have hlate : late.2 = .granted 1 := by decide +kernel
  refine ⟨legacyKeys, [⟨1500, .claim "beta" "q" 1500 12000, late.2⟩], 1500, late.1, _, 7, 1,
    .snoc 1500 _ .nil (by decide) trivial, ⟨legacyKeys_small, fun x hx n hn => ?_⟩, rfl,
    List.mem_cons_self, hlate, by decide⟩
  rw [List.mem_singleton.mp hx, hlate] at hn
  obtain rfl := Reply.granted.inj hn
  simp [Small]

end Maxim.Moderation.WebhookLease
