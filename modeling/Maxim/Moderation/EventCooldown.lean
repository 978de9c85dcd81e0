import Maxim.Library.Run
import Maxim.Library.Expiry

/-!
# The event-time cooldown

`claimEventCooldown` decides one event of one member against the last allowed
event of a cooldown key. The anchor and the replay record of the member expire
on their own, events arrive in any order and up to a minute early, and only
the freshness test on the store's clock keeps the two expiries from being seen.
-/

namespace Maxim.Moderation.EventCooldown

open Maxim.Library

def DUPLICATE_EVENT_MAX_FUTURE_SKEW_MS : Nat := 60000

/-- Retention in seconds: two windows, the skew rounded up to seconds, and one second. -/
def resolveDuplicateHistoryRetentionSeconds (windowSeconds : Nat) : Nat :=
  windowSeconds * 2 + (DUPLICATE_EVENT_MAX_FUTURE_SKEW_MS + 999) / 1000 + 1

/-- `result` of the script and of a replay record: 1 is allowed, 2 is blocked. -/
inductive Decision
  | allowed
  | blocked
  deriving DecidableEq, Repr

structure Replay where
  timestamp : Nat
  result : Decision
  deriving DecidableEq, Repr

/-- The keys of one cooldown: the anchor, and one replay record for each member key. -/
structure Store (μ : Type) where
  anchor : Slot Nat
  replay : Slots μ Replay

/-- Arguments of `claimEventCooldown` for one cooldown key. -/
structure Params (μ : Type) where
  memberKey : μ
  eventTimestampMs : Nat
  windowSeconds : Nat
  deadlineAtMs : Nat
  memberTimestampToleranceMs : Nat := 0
  deriving DecidableEq, Repr

inductive Outcome
  | decided (d : Decision)
  | stale
  | deadlineExceeded
  | invalid
  deriving DecidableEq, Repr

variable {μ : Type}

def Store.empty : Store μ := ⟨none, fun _ => none⟩

def Store.purge (now : Nat) (s : Store μ) : Store μ :=
  ⟨Library.purge now s.anchor, fun m => Library.purge now (s.replay m)⟩

/-- `CLAIM_EVENT_COOLDOWN_SCRIPT` on keys that have not expired at `now`. -/
def claimScript [DecidableEq μ] (now : Nat) (occurredAt windowMs ttlSeconds deadline skew tolerance : Nat) (m : μ)
    (s : Store μ) : Store μ × Outcome :=
  if deadline ≤ now then (s, .deadlineExceeded)
  else if occurredAt + windowMs ≤ now ∨ now + skew < occurredAt then (s, .stale)
  else
    match content (s.replay m) with
    | some saved =>
      if occurredAt + tolerance < saved.timestamp ∨ saved.timestamp + tolerance < occurredAt then
        (s, .stale)
      else (s, .decided saved.result)
    | none =>
      let expiresAt := now + ttlSeconds * 1000
      let record (d : Decision) := put s.replay m (cell ⟨occurredAt, d⟩ expiresAt)
      match content s.anchor with
      | some previous =>
        if occurredAt < previous then (s, .stale)
        else if occurredAt < previous + windowMs then
          ({ s with replay := record .blocked }, .decided .blocked)
        else (⟨cell occurredAt expiresAt, record .allowed⟩, .decided .allowed)
      | none => (⟨cell occurredAt expiresAt, record .allowed⟩, .decided .allowed)

/-- `claimEventCooldown`: the input check, then the script. -/
def claimEventCooldown [DecidableEq μ] (now : Nat) (p : Params μ) (s : Store μ) : Store μ × Outcome :=
  let s := s.purge now
  if p.eventTimestampMs = 0 ∨ p.windowSeconds = 0 ∨ p.deadlineAtMs = 0 ∨
      86400 < p.windowSeconds ∨ 2000 < p.memberTimestampToleranceMs then (s, .invalid)
  else
    claimScript now p.eventTimestampMs (p.windowSeconds * 1000)
      (resolveDuplicateHistoryRetentionSeconds p.windowSeconds) p.deadlineAtMs
      DUPLICATE_EVENT_MAX_FUTURE_SKEW_MS p.memberTimestampToleranceMs p.memberKey s

/-! ## One call -/

def Params.Valid (p : Params μ) : Prop :=
  0 < p.eventTimestampMs ∧ 0 < p.windowSeconds ∧ 0 < p.deadlineAtMs ∧
    p.windowSeconds ≤ 86400 ∧ p.memberTimestampToleranceMs ≤ 2000

instance (p : Params μ) : Decidable p.Valid :=
  inferInstanceAs (Decidable (_ ∧ _ ∧ _ ∧ _ ∧ _))

def ttlMs (windowSeconds : Nat) : Nat := resolveDuplicateHistoryRetentionSeconds windowSeconds * 1000

theorem ttlMs_eq (w : Nat) : ttlMs w = 2 * (w * 1000) + 61000 := by
  simp only [ttlMs, resolveDuplicateHistoryRetentionSeconds, DUPLICATE_EVENT_MAX_FUTURE_SKEW_MS]
  omega

/-- The event is at most one window old and at most the skew early. -/
def Fresh (now : Nat) (p : Params μ) : Prop :=
  now < p.eventTimestampMs + p.windowSeconds * 1000 ∧
    p.eventTimestampMs ≤ now + DUPLICATE_EVENT_MAX_FUTURE_SKEW_MS

/-- A call that writes: the member had no record, and gets one with the decision. -/
structure Decides [DecidableEq μ] (now : Nat) (p : Params μ) (s s' : Store μ) (d : Decision) : Prop where
  fresh : Fresh now p
  absent : s.replay p.memberKey = none
  replay : s'.replay =
    put s.replay p.memberKey (cell ⟨p.eventTimestampMs, d⟩ (now + ttlMs p.windowSeconds))
  allowed : d = .allowed →
    s'.anchor = cell p.eventTimestampMs (now + ttlMs p.windowSeconds) ∧
      ∀ c, s.anchor = some c → c.value + p.windowSeconds * 1000 ≤ p.eventTimestampMs
  blocked : d = .blocked → s'.anchor = s.anchor

/-- Everything a valid call can do to the purged keys. -/
theorem claim_cases [DecidableEq μ] (now : Nat) (p : Params μ) (hp : p.Valid) (s : Store μ) :
    let q := s.purge now
    let r := claimEventCooldown now p s
    (r.1 = q ∧ (r.2 = .stale ∨ r.2 = .deadlineExceeded)) ∨
    (r.1 = q ∧ Fresh now p ∧ ∃ c, q.replay p.memberKey = some c ∧ r.2 = .decided c.value.result) ∨
    (∃ d, r.2 = .decided d ∧ Decides now p q r.1 d) := by
  obtain ⟨h1, h2, h3, h4, h5⟩ := hp
  intro q r
  have hr : r = claimScript now p.eventTimestampMs (p.windowSeconds * 1000)
      (resolveDuplicateHistoryRetentionSeconds p.windowSeconds) p.deadlineAtMs
      DUPLICATE_EVENT_MAX_FUTURE_SKEW_MS p.memberTimestampToleranceMs p.memberKey q := by
    simp only [r, claimEventCooldown]
    rw [if_neg (by omega)]
  simp only [claimScript] at hr
  split at hr
  · exact .inl ⟨by rw [hr], .inr (by rw [hr])⟩
  split at hr
  · exact .inl ⟨by rw [hr], .inl (by rw [hr])⟩
  rename_i hfresh
  have hf : Fresh now p := by unfold Fresh; omega
  cases hm : q.replay p.memberKey with
  | some c =>
    simp only [hm, content_some] at hr
    split at hr
    · exact .inl ⟨by rw [hr], .inl (by rw [hr])⟩
    · exact .inr (.inl ⟨by rw [hr], hf, c, rfl, by rw [hr]⟩)
  | none =>
    simp only [hm, content_none] at hr
    cases ha : q.anchor with
    | none =>
      simp only [ha, content_none] at hr
      refine .inr (.inr ⟨.allowed, by rw [hr], hf, hm, by rw [hr]; rfl, ?_, by simp⟩)
      exact fun _ => ⟨by rw [hr]; rfl, by simp [ha]⟩
    | some c =>
      simp only [ha, content_some] at hr
      split at hr
      · exact .inl ⟨by rw [hr], .inl (by rw [hr])⟩
      split at hr
      · exact .inr (.inr ⟨.blocked, by rw [hr], hf, hm, by rw [hr]; rfl, by simp,
          fun _ => by rw [hr]; exact ha.symm⟩)
      · rename_i hge
        refine .inr (.inr ⟨.allowed, by rw [hr], hf, hm, by rw [hr]; rfl, ?_, by simp⟩)
        refine fun _ => ⟨by rw [hr]; rfl, fun c' hc => ?_⟩
        rw [ha] at hc
        obtain rfl := Option.some.inj hc
        omega

/-! ## Runs of one cooldown key -/

abbrev Record (μ : Type) := Entry (Params μ) Outcome

/-- What the callers of one cooldown key promise: valid calls, one window, and timestamps of a
member key that stay within one window and one second of each other. -/
def Accepted (window : Nat) (h : List (Record μ)) (_now : Nat) (p : Params μ) : Prop :=
  p.Valid ∧ p.windowSeconds = window ∧
    ∀ e ∈ h, e.request.memberKey = p.memberKey →
      p.eventTimestampMs ≤ e.request.eventTimestampMs + window * 1000 + 1000 ∧
        e.request.eventTimestampMs ≤ p.eventTimestampMs + window * 1000 + 1000

/-- `e` is the first decision of its member in `h`. -/
def Opens (h : List (Record μ)) (e : Record μ) (d : Decision) : Prop :=
  ∃ pre post, h = pre ++ e :: post ∧ e.reply = .decided d ∧
    ∀ x ∈ pre, x.request.memberKey = e.request.memberKey → ∀ d', x.reply ≠ .decided d'

def Undecided (h : List (Record μ)) (m : μ) : Prop :=
  ∀ e ∈ h, e.request.memberKey = m → ∀ d, e.reply ≠ .decided d

variable {h : List (Record μ)}

theorem opens_append {e' e : Record μ} {d : Decision} :
    Opens (h ++ [e']) e d ↔
      Opens h e d ∨ (e = e' ∧ e.reply = .decided d ∧ Undecided h e.request.memberKey) := by
  constructor
  · rintro ⟨pre, post, hh, hd, hpre⟩
    rcases List.eq_nil_or_concat post with rfl | ⟨post, x, rfl⟩
    · obtain ⟨rfl, he⟩ := List.append_inj' hh rfl
      rw [List.cons.injEq] at he
      exact .inr ⟨he.1.symm, hd, hpre⟩
    · rw [List.concat_eq_append, ← List.cons_append, ← List.append_assoc] at hh
      obtain ⟨rfl, -⟩ := List.append_inj' hh rfl
      exact .inl ⟨pre, post, rfl, hd, hpre⟩
  · rintro (⟨pre, post, rfl, hd, hpre⟩ | ⟨rfl, hd, hund⟩)
    · exact ⟨pre, post ++ [e'], by simp, hd, hpre⟩
    · exact ⟨h, [], rfl, hd, hund⟩

theorem Opens.mem {e : Record μ} {d : Decision} (ho : Opens h e d) :
    e ∈ h := by
  obtain ⟨pre, post, rfl, -, -⟩ := ho
  simp

/-- A record written at `now` with value `v` is still there, or its expiry has passed. -/
def Kept {α : Type} (window now t : Nat) (v : α) (s : Slot α) : Prop :=
  s = cell v (now + ttlMs window) ∨ (s = none ∧ now + ttlMs window < t)

variable {now t : Nat}

theorem Kept.purge {α : Type} {window : Nat} {v : α} {s : Slot α}
    (hk : Kept window now t v s) : Kept window now t v (purge t s) := by
  rcases hk with rfl | ⟨rfl, hlt⟩
  · rw [purge_cell]
    split
    · exact .inl rfl
    · exact .inr ⟨rfl, by omega⟩
  · exact .inr ⟨rfl, hlt⟩

theorem Kept.later {α : Type} {window t' : Nat} {v : α} {s : Slot α}
    (hk : Kept window now t v s) (hle : t ≤ t') : Kept window now t' v s :=
  hk.imp id fun h => ⟨h.1, by omega⟩

/-- A decided member: its first decision `f`, what is kept of it, and its agreement with every
other decision of the member. -/
structure Settled (window : Nat) (h : List (Record μ)) (t : Nat) (s : Store μ) (m : μ)
    (f : Record μ) (d : Decision) : Prop where
  opens : Opens h f d
  member : f.request.memberKey = m
  early : f.request.eventTimestampMs ≤ f.now + DUPLICATE_EVENT_MAX_FUTURE_SKEW_MS
  kept : Kept window f.now t ⟨f.request.eventTimestampMs, d⟩ (s.replay m)
  agree : ∀ e ∈ h, e.request.memberKey = m → ∀ d', e.reply = .decided d' → d' = d

def MemberInv (window : Nat) (h : List (Record μ)) (t : Nat) (s : Store μ) : Prop :=
  ∀ m, (s.replay m = none ∧ Undecided h m) ∨ ∃ f d, Settled window h t s m f d

/-- The anchor is the last allowed event `a`, the latest of all first allowed events, and those of
different members are a window apart. -/
structure AnchorInv (window : Nat) (h : List (Record μ)) (t : Nat) (s : Store μ) : Prop where
  last : (s.anchor = none ∧ ∀ e, ¬ Opens h e .allowed) ∨
    ∃ a : Record μ, a.request.eventTimestampMs ≤ a.now + DUPLICATE_EVENT_MAX_FUTURE_SKEW_MS ∧
      Kept window a.now t a.request.eventTimestampMs s.anchor ∧
      ∀ e, Opens h e .allowed → e.request.eventTimestampMs ≤ a.request.eventTimestampMs
  apart : ∀ e e', Opens h e .allowed → Opens h e' .allowed →
    e.request.memberKey ≠ e'.request.memberKey →
    e.request.eventTimestampMs + window * 1000 ≤ e'.request.eventTimestampMs ∨
      e'.request.eventTimestampMs + window * 1000 ≤ e.request.eventTimestampMs

variable {p : Params μ}

theorem not_expired_of_fresh {window : Nat} {occ : Nat}
    (hw : p.windowSeconds = window) (hf : Fresh t p)
    (hearly : occ ≤ now + DUPLICATE_EVENT_MAX_FUTURE_SKEW_MS)
    (hnear : p.eventTimestampMs ≤ occ + window * 1000 + 1000) : ¬ now + ttlMs window < t := by
  obtain ⟨h1, h2⟩ := hf
  rw [hw] at h1
  rw [ttlMs_eq]
  unfold DUPLICATE_EVENT_MAX_FUTURE_SKEW_MS at hearly
  omega

variable {window : Nat}

variable {s s' : Store μ}

theorem memberInv_keep {o : Outcome}
    (hi : MemberInv window h t s)
    (ho : ∀ d, o = .decided d → Fresh t p ∧
      ∃ c, (s.purge t).replay p.memberKey = some c ∧ c.value.result = d) :
    MemberInv window (h ++ [⟨t, p, o⟩]) t (s.purge t) := by
  intro m
  rcases hi m with ⟨hnone, hund⟩ | ⟨f, d, hs⟩
  · left
    have hnone' : (s.purge t).replay m = none := by simp [Store.purge, hnone]
    refine ⟨hnone', fun e he hm d hd => ?_⟩
    rcases List.mem_append.mp he with he | he
    · exact hund e he hm d hd
    · obtain rfl := List.mem_singleton.mp he
      obtain ⟨-, c, hc, -⟩ := ho d hd
      subst hm
      simp [hnone'] at hc
  · right
    refine ⟨f, d, opens_append.mpr (.inl hs.opens), hs.member, hs.early, hs.kept.purge, ?_⟩
    intro e he hm d' hd'
    rcases List.mem_append.mp he with he | he
    · exact hs.agree e he hm d' hd'
    · obtain rfl := List.mem_singleton.mp he
      obtain ⟨-, c, hc, rfl⟩ := ho d' hd'
      subst hm
      rcases hs.kept.purge with hk | ⟨hk, -⟩
      · have hk' : (s.purge t).replay p.memberKey = _ := hk
        rw [hk', cell, Option.some.injEq] at hc
        rw [← hc]
      · have hk' : (s.purge t).replay p.memberKey = none := hk
        simp [hk'] at hc

theorem undecided_of_decides [DecidableEq μ]
    {d : Decision} (hok : Accepted window h t p) (hi : MemberInv window h t s)
    (hd : Decides t p (s.purge t) s' d) : Undecided h p.memberKey := by
  obtain ⟨-, hw, hnear⟩ := hok
  rcases hi p.memberKey with ⟨-, hund⟩ | ⟨f, d', hs⟩
  · exact hund
  · have hgone := not_expired_of_fresh hw hd.fresh hs.early (hnear f hs.opens.mem hs.member).1
    have habs : purge t (s.replay p.memberKey) = none := hd.absent
    rcases hs.kept.purge with hk | ⟨-, hlt⟩
    · rw [habs] at hk
      simp [cell] at hk
    · exact absurd hlt hgone

theorem memberInv_decides [DecidableEq μ]
    {d : Decision} (hok : Accepted window h t p) (hi : MemberInv window h t s)
    (hd : Decides t p (s.purge t) s' d) :
    MemberInv window (h ++ [⟨t, p, .decided d⟩]) t s' := by
  have hund := undecided_of_decides hok hi hd
  intro m
  by_cases hm : m = p.memberKey
  · right
    subst hm
    refine ⟨⟨t, p, .decided d⟩, d, opens_append.mpr (.inr ⟨rfl, rfl, hund⟩), rfl, hd.fresh.2, ?_, ?_⟩
    · left
      rw [hd.replay, put_same, hok.2.1]
    · intro e he hm d' hd'
      rcases List.mem_append.mp he with he | he
      · exact absurd hd' (hund e he hm d')
      · obtain rfl := List.mem_singleton.mp he
        simpa using hd'.symm
  · have hslot : s'.replay m = (s.purge t).replay m := by rw [hd.replay, put_other _ hm]
    have hlast : ∀ e ∈ h ++ [(⟨t, p, .decided d⟩ : Record μ)], e.request.memberKey = m → e ∈ h := by
      intro e he hem
      rcases List.mem_append.mp he with he | he
      · exact he
      · obtain rfl := List.mem_singleton.mp he
        exact absurd hem.symm hm
    rcases hi m with ⟨hnone, hundm⟩ | ⟨f, d', hs⟩
    · exact .inl ⟨by simp [hslot, Store.purge, hnone], fun e he hem => hundm e (hlast e he hem) hem⟩
    · refine .inr ⟨f, d', opens_append.mpr (.inl hs.opens), hs.member, hs.early, ?_, ?_⟩
      · rw [hslot]; exact hs.kept.purge
      · exact fun e he hem => hs.agree e (hlast e he hem) hem

theorem anchorInv_keep {x : Record μ}
    (hi : AnchorInv window h t s)
    (hx : x.reply = .decided .allowed → ¬ Undecided h x.request.memberKey)
    (ha : s'.anchor = purge t s.anchor) : AnchorInv window (h ++ [x]) t s' := by
  have hopen : ∀ e, Opens (h ++ [x]) e .allowed → Opens h e .allowed := by
    intro e he
    rcases opens_append.mp he with ho | ⟨rfl, hd, hund⟩
    · exact ho
    · exact absurd hund (hx hd)
  refine ⟨?_, fun e e' he he' => hi.apart e e' (hopen e he) (hopen e' he')⟩
  rcases hi.last with ⟨hnone, hno⟩ | ⟨l, hl, hk, hle⟩
  · exact .inl ⟨by simp [ha, hnone], fun e he => hno e (hopen e he)⟩
  · exact .inr ⟨l, hl, by rw [ha]; exact hk.purge, fun e he => hle e (hopen e he)⟩

theorem window_after_opens [DecidableEq μ]
    (hok : Accepted window h t p) (hi : AnchorInv window h t s)
    (hd : Decides t p (s.purge t) s' .allowed) {e : Record μ} (he : Opens h e .allowed) :
    e.request.eventTimestampMs + window * 1000 ≤ p.eventTimestampMs := by
  obtain ⟨-, hw, -⟩ := hok
  rcases hi.last with ⟨-, hno⟩ | ⟨l, hl, hk, hle⟩
  · exact absurd he (hno e)
  · have hel := hle e he
    rcases hk.purge with hkeep | ⟨-, hlt⟩
    · have hprev := (hd.allowed rfl).2 _ hkeep
      rw [hw] at hprev
      change l.request.eventTimestampMs + _ ≤ _ at hprev
      omega
    · have hfresh := hd.fresh.1
      rw [hw] at hfresh
      rw [ttlMs_eq] at hlt
      unfold DUPLICATE_EVENT_MAX_FUTURE_SKEW_MS at hl
      omega

theorem anchorInv_decides [DecidableEq μ]
    {d : Decision} (hok : Accepted window h t p) (hi : AnchorInv window h t s)
    (hd : Decides t p (s.purge t) s' d) : AnchorInv window (h ++ [⟨t, p, .decided d⟩]) t s' := by
  cases d with
  | blocked => exact anchorInv_keep hi (by simp) (hd.blocked rfl)
  | allowed =>
    have hlater : ∀ e, Opens h e .allowed → _ := fun e => window_after_opens hok hi hd (e := e)
    refine ⟨.inr ⟨⟨t, p, .decided .allowed⟩, hd.fresh.2, ?_, ?_⟩, ?_⟩
    · left
      rw [(hd.allowed rfl).1, hok.2.1]
    · intro e he
      rcases opens_append.mp he with ho | ⟨rfl, -, -⟩
      · have := hlater e ho
        change _ ≤ p.eventTimestampMs
        omega
      · exact Nat.le_refl _
    · intro e e' he he' hne
      rcases opens_append.mp he with ho | ⟨rfl, -, -⟩ <;>
        rcases opens_append.mp he' with ho' | ⟨rfl, -, -⟩
      · exact hi.apart e e' ho ho' hne
      · exact .inl (hlater e ho)
      · exact .inr (hlater e' ho')
      · exact absurd rfl hne

theorem cooldown_invariant [DecidableEq μ]
    (hr : Run claimEventCooldown (Accepted window) Store.empty h t s) :
    MemberInv window h t s ∧ AnchorInv window h t s := by
  refine hr.invariant (fun h t s => MemberInv window h t s ∧ AnchorInv window h t s) ?_ ?_ ?_
  · refine ⟨fun m => .inl ⟨rfl, by simp [Undecided]⟩, .inl ⟨rfl, ?_⟩, ?_⟩
    · rintro e ⟨pre, post, hh, -⟩
      simp at hh
    · rintro e e' ⟨pre, post, hh, -⟩
      simp at hh
  · rintro h t t' s ⟨hm, ha⟩ hle
    refine ⟨fun m => ?_, ?_, ha.apart⟩
    · rcases hm m with hn | ⟨f, d, hs⟩
      · exact .inl hn
      · exact .inr ⟨f, d, hs.opens, hs.member, hs.early, hs.kept.later hle, hs.agree⟩
    · rcases ha.last with hn | ⟨l, hl, hk, hmax⟩
      · exact .inl hn
      · exact .inr ⟨l, hl, hk.later hle, hmax⟩
  · rintro h t s p ⟨hm, ha⟩ hok
    rcases claim_cases t p hok.1 s with ⟨hs, hrep⟩ | ⟨hs, hf, c, hc, hrep⟩ | ⟨d, hrep, hd⟩
    · have hno : ∀ d, (claimEventCooldown t p s).2 ≠ .decided d := by
        rcases hrep with hrep | hrep <;> simp [hrep]
      rw [hs]
      exact ⟨memberInv_keep hm fun d hd => absurd hd (hno d),
        anchorInv_keep ha (fun hd => absurd hd (hno _)) rfl⟩
    · rw [hs, hrep]
      refine ⟨memberInv_keep hm fun d hd => ⟨hf, c, hc, Outcome.decided.inj hd⟩,
        anchorInv_keep ha (fun _ hund => ?_) rfl⟩
      rcases hm p.memberKey with ⟨hnone, -⟩ | ⟨f, d, hset⟩
      · simp [Store.purge, hnone] at hc
      · obtain ⟨pre, post, rfl, hfd, -⟩ := hset.opens
        exact hund f (by simp) hset.member d hfd
    · rw [hrep]
      exact ⟨memberInv_decides hok hm hd, anchorInv_decides hok ha hd⟩

/-- First allowed events of different members are at least a window apart, and a decided member
only ever hears the same decision again, or that the event is stale or the call too late. -/
theorem cooldown_decisions [DecidableEq μ] {h : List (Record μ)} {t : Nat} {s : Store μ}
    (hr : Run claimEventCooldown (Accepted window) Store.empty h t s) :
    (∀ e e', Opens h e .allowed → Opens h e' .allowed →
      e.request.memberKey ≠ e'.request.memberKey →
      e.request.eventTimestampMs + window * 1000 ≤ e'.request.eventTimestampMs ∨
        e'.request.eventTimestampMs + window * 1000 ≤ e.request.eventTimestampMs) ∧
    (∀ pre e mid e' post d, h = pre ++ e :: mid ++ e' :: post →
      e'.request.memberKey = e.request.memberKey → e.reply = .decided d →
      e'.reply = .decided d ∨ e'.reply = .stale ∨ e'.reply = .deadlineExceeded) := by
  refine ⟨(cooldown_invariant hr).2.apart, ?_⟩
  intro pre e mid e' post d hh hm hd
  obtain ⟨t', s', hr'⟩ : ∃ t' s',
      Run claimEventCooldown (Accepted window) Store.empty ((pre ++ e :: mid) ++ [e']) t' s' := by
    rw [hh, List.append_cons] at hr
    obtain ⟨t', s', hr', -⟩ := hr.of_append
    exact ⟨t', s', hr'⟩
  have hagree := (cooldown_invariant hr').1 e.request.memberKey
  obtain ⟨t₁, s₁, -, -, hok, -, hrep, -⟩ := hr'.snoc_inv
  rcases claim_cases e'.now e'.request hok.1 s₁ with ⟨-, ho⟩ | ⟨-, -, c, -, ho⟩ | ⟨d', ho, -⟩
  · exact .inr (by rwa [hrep])
  all_goals
    left
    rcases hagree with ⟨-, hund⟩ | ⟨f, d₀, hset⟩
    · exact absurd hd (hund e (by simp) rfl d)
    · rw [hrep, ho, hset.agree e (by simp) rfl d hd,
        hset.agree e' (by simp) hm _ (hrep.trans ho)]

/-- Two members a window apart, the first one asked again in between. -/
theorem cooldown_decisions_two_members :
    ∃ h t s, Run (claimEventCooldown (μ := Nat)) (Accepted 10) Store.empty h t s ∧
      h.map (·.reply) = [.decided .allowed, .decided .allowed, .decided .allowed] ∧
      (∀ e e', Opens h e .allowed → Opens h e' .allowed →
        e.request.memberKey ≠ e'.request.memberKey →
        e.request.eventTimestampMs + 10 * 1000 ≤ e'.request.eventTimestampMs ∨
          e'.request.eventTimestampMs + 10 * 1000 ≤ e.request.eventTimestampMs) := by
  have hr : Run (claimEventCooldown (μ := Nat)) (Accepted 10) Store.empty _ _ _ :=
    .snoc 110000 ⟨1, 110000, 10, 110250, 0⟩
      (.snoc 101000 ⟨0, 100000, 10, 101250, 0⟩
        (.snoc 100000 ⟨0, 100000, 10, 100250, 0⟩ .nil (by decide)
          ⟨by decide, rfl, by simp⟩)
        (by decide) ⟨by decide, rfl, by simp⟩)
      (by decide) ⟨by decide, rfl, by simp⟩
  exact ⟨_, _, _, hr, by decide, (cooldown_decisions hr).1⟩

/-- Calls for one member key within the callers' tolerance of one timestamp `τ`. -/
def AcceptedNear (window : Nat) (τ : μ → Nat) (_h : List (Record μ)) (_now : Nat) (p : Params μ) :
    Prop :=
  p.Valid ∧ p.windowSeconds = window ∧
    p.eventTimestampMs ≤ τ p.memberKey + p.memberTimestampToleranceMs ∧
      τ p.memberKey ≤ p.eventTimestampMs + p.memberTimestampToleranceMs

/-- With a one-second window and the largest tolerance, a replay is allowed half a second from
another member's allowed event, and a blocked member is allowed after both records expired. -/
theorem cooldown_tolerance_too_wide :
    ∃ (τ : Nat → Nat) (h : List (Record Nat)) (t : Nat) (s : Store Nat),
      Run claimEventCooldown (AcceptedNear 1 τ) Store.empty h t s ∧
      (∃ e ∈ h, ∃ e' ∈ h, e.request.memberKey ≠ e'.request.memberKey ∧
        e.reply = .decided .allowed ∧ e'.reply = .decided .allowed ∧
        e'.request.eventTimestampMs < e.request.eventTimestampMs + 1 * 1000 ∧
        e.request.eventTimestampMs < e'.request.eventTimestampMs + 1 * 1000) ∧
      (∃ pre e e', h = pre ++ [e, e'] ∧ e'.request.memberKey = e.request.memberKey ∧
        e.reply = .decided .blocked ∧ e'.reply = .decided .allowed) := by
  refine ⟨fun m => if m = 2 then 101500 else 99000, _, _, _,
    .snoc 103001 ⟨2, 103000, 1, 103251, 2000⟩
      (.snoc 40000 ⟨2, 99900, 1, 40250, 2000⟩
        (.snoc 40000 ⟨1, 99000, 1, 40250, 2000⟩
          (.snoc 40000 ⟨0, 99500, 1, 40250, 2000⟩
            (.snoc 40000 ⟨0, 98000, 1, 40250, 2000⟩ .nil (by decide)
              ⟨by decide, rfl, by decide⟩)
            (by decide) ⟨by decide, rfl, by decide⟩)
          (by decide) ⟨by decide, rfl, by decide⟩)
        (by decide) ⟨by decide, rfl, by decide⟩)
      (by decide) ⟨by decide, rfl, by decide⟩, ?_, ?_⟩
  · exact ⟨_, List.mem_append_left _ (List.mem_append_left _ (List.mem_append_left _
      (List.mem_append_right _ List.mem_cons_self))), _, List.mem_append_left _
      (List.mem_append_left _ (List.mem_append_right _ List.mem_cons_self)),
      by decide, by decide, by decide, by decide, by decide⟩
  · exact ⟨_, _, _, List.append_assoc _ _ _, by decide, by decide, by decide⟩

end Maxim.Moderation.EventCooldown
