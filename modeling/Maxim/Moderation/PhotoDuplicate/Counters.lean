import Maxim.Moderation.PhotoDuplicate.History

/-!
# Sanctions are counted once

A commit counts only from a record that no commit has used, and only when the
counter still is one below the count its observation expects. What a commit
answers is therefore above every count answered before, for as long as the
counter is not removed: by a new album, by the trim, or with its key.
-/

namespace Maxim.Moderation.PhotoDuplicate

open Maxim.Library

variable {sha256 : String → String} {maxItems now : Nat} {s : Store}

def Store.count (s : Store) (counterKey cluster : String) : Option Nat :=
  field (s.counters counterKey) cluster

/-! ## What the scripts write -/

/-- What an observation that is not answered from a record writes. -/
structure Recorded (sha256 : String → String) (now : Nat) (input : ObservePhotoAlbumInput) (s s' : Store)
    (reply : ObservationReply) : Prop where
  unseen : content (s.replay (input.keys sha256).replayKey) = none
  status : reply.status = 1
  record : ∃ r : ReplayRecord, r.violation = none ∧ (∃ n, r.repeatCount = printed n) ∧
    s'.replay = put s.replay (input.keys sha256).replayKey (cell r (now + input.ttlSeconds * 1000))
  counters : s'.counters = put s.counters (input.keys sha256).authorCounterKey
    (if reply.classification = .new then
      delField (s.counters (input.keys sha256).authorCounterKey) reply.sanctionClusterId
    else s.counters (input.keys sha256).authorCounterKey)

theorem observeAlbum_cases (input : ObservePhotoAlbumInput) (perceptualMatch : Option PerceptualMatch) :
    (observeAlbum sha256 maxItems now input perceptualMatch s).1 = s ∨
      Recorded sha256 now input s (observeAlbum sha256 maxItems now input perceptualMatch s).1
        (observeAlbum sha256 maxItems now input perceptualMatch s).2 := by
  rw [observeAlbum]
  dsimp only
  cases hrow : content (s.replay (input.keys sha256).replayKey) with
  | some r => exact .inl rfl
  | none =>
    dsimp only
    split
    · exact .inl rfl
    · exact .inr ⟨hrow, rfl, ⟨_, rfl, ⟨_, rfl⟩, rfl⟩, rfl⟩

/-- What a commit that counts reads and writes. -/
structure Counted (sha256 : String → String) (maxItems now : Nat) (input : CommitPhotoViolationInput)
    (order : List String) (s s' : Store) (r : ReplayRecord) : Prop where
  stored : content (s.replay (input.keys sha256).replayKey) = some r
  names : r.names sha256 input = true
  unused : r.violation = none
  authorized : r.authorizes input = true
  next : (s.count (input.keys sha256).authorCounterKey r.sanctionClusterId).getD 0 + 1 =
    input.expectedRepeatCount
  record : s'.replay = put s.replay (input.keys sha256).replayKey
    (cell { r with
      repeatCount := printed input.expectedRepeatCount
      violation := some input.actionBinding } (now + input.ttlSeconds * 1000))
  counters : ∃ counted, counted = expireAt (now + input.ttlSeconds * 1000)
      (setField (s.counters (input.keys sha256).authorCounterKey) r.sanctionClusterId
        input.expectedRepeatCount) ∧
    s'.counters = put s.counters (input.keys sha256).authorCounterKey
      (removeClusters r.sanctionClusterId (hkeys order counted) (hlen counted - maxItems) counted)

/-- A commit answers from an unused record, from a used one, or not at all. -/
inductive Answered (sha256 : String → String) (maxItems now : Nat) (input : CommitPhotoViolationInput)
    (order : List String) (s : Store) : Store → CommitReply → Prop
  | refused (h : ∀ r, content (s.replay (input.keys sha256).replayKey) = some r →
      r.names sha256 input = true → r.violation = none) :
      Answered sha256 maxItems now input order s s .refused
  | replayed (r : ReplayRecord) (binding : PhotoHistoryViolationActionBinding)
      (stored : content (s.replay (input.keys sha256).replayKey) = some r)
      (names : r.names sha256 input = true) (used : r.violation = some binding) :
      Answered sha256 maxItems now input order s s (.replayed (printed r.repeatCount)
        r.sanctionClusterId binding (r.authorizes input && binding == input.actionBinding))
  | committed (r : ReplayRecord) (s' : Store) (h : Counted sha256 maxItems now input order s s' r) :
      Answered sha256 maxItems now input order s s'
        (.committed (printed input.expectedRepeatCount) r.sanctionClusterId input.actionBinding)

theorem commitViolation_cases (input : CommitPhotoViolationInput) (order : List String) :
    Answered sha256 maxItems now input order s (commitViolation sha256 maxItems now input order s).1
      (commitViolation sha256 maxItems now input order s).2 := by
  rw [commitViolation]
  dsimp only
  cases hrow : content (s.replay (input.keys sha256).replayKey) with
  | none => exact .refused fun r h => by simp [hrow] at h
  | some r =>
    dsimp only
    split
    · rename_i hnot
      refine .refused fun r' h hnames => ?_
      rw [hrow, Option.some.injEq] at h
      rw [← h] at hnames
      exact absurd hnames hnot
    rename_i hnames
    rw [not_not] at hnames
    cases hused : r.violation with
    | some binding => exact .replayed r binding hrow hnames hused
    | none =>
      have hfree : ∀ r', content (s.replay (input.keys sha256).replayKey) = some r' →
          r'.names sha256 input = true → r'.violation = none := by
        intro r' h _
        rw [hrow, Option.some.injEq] at h
        rw [← h, hused]
      dsimp only
      split
      · exact .refused hfree
      rename_i hauth
      rw [not_not] at hauth
      split
      · exact .refused hfree
      rename_i hnext
      rw [not_not] at hnext
      rw [hnext]
      exact .committed r _ ⟨hrow, hnames, hused, hauth, hnext, rfl, _, rfl, rfl⟩

variable {input : CommitPhotoViolationInput} {n t : Nat}

theorem Answered.counted {order : List String} {s' : Store}
    {cluster : String} {binding : PhotoHistoryViolationActionBinding}
    (h : Answered sha256 maxItems now input order s s' (.committed n cluster binding)) :
    ∃ r, Counted sha256 maxItems now input order s s' r ∧ n = printed input.expectedRepeatCount ∧
      r.sanctionClusterId = cluster := by
  cases h with
  | committed r s' h => exact ⟨r, h, rfl, rfl⟩

/-! ## One call and the counters -/

/-- How one script changes the counters of one key, as seen at one cluster. -/
inductive Changes (sha256 : String → String) (maxItems : Nat) (counterKey cluster : String)
    (before after : Slot (Table String Nat)) : Request → Reply → Prop
  | same {request : Request} {reply : Reply} (h : field after cluster = field before cluster) :
      Changes sha256 maxItems counterKey cluster before after request reply
  | cleared {input : ObservePhotoAlbumInput} {perceptualMatch : Option PerceptualMatch}
      {reply : ObservationReply} (key : (input.keys sha256).authorCounterKey = counterKey)
      (status : reply.status = 1) (new : reply.classification = .new)
      (own : reply.sanctionClusterId = cluster) (gone : field after cluster = none) :
      Changes sha256 maxItems counterKey cluster before after (.observe input perceptualMatch)
        (.observation reply)
  | trimmed {input : CommitPhotoViolationInput} {order : List String} {n : Nat} {other : String}
      {binding : PhotoHistoryViolationActionBinding}
      (key : (input.keys sha256).authorCounterKey = counterKey) (differs : other ≠ cluster)
      (full : maxItems < hlen (setField before other n)) (gone : field after cluster = none) :
      Changes sha256 maxItems counterKey cluster before after (.commit input order)
        (.commit (.committed n other binding))
  | counted {input : CommitPhotoViolationInput} {order : List String} {n : Nat}
      {binding : PhotoHistoryViolationActionBinding}
      (key : (input.keys sha256).authorCounterKey = counterKey)
      (expected : n = input.expectedRepeatCount) (next : (field before cluster).getD 0 + 1 = n)
      (one : field after cluster = some n) :
      Changes sha256 maxItems counterKey cluster before after (.commit input order)
        (.commit (.committed n cluster binding))

def Printed (s : Store) : Prop :=
  ∀ k r, content (s.replay k) = some r → printed r.repeatCount = r.repeatCount

theorem printed_printed (n : Nat) : printed (printed n) = printed n :=
  significant_significant (by decide) n

theorem Printed.purge (h : Printed s) (now : Nat) : Printed (s.purge now) :=
  fun k r hr => h k r (content_purge_eq_some hr)

theorem Printed.put (h : Printed s) {s' : Store} {k : String} {r : ReplayRecord} {x : Nat}
    (hr : printed r.repeatCount = r.repeatCount) (hput : s'.replay = put s.replay k (cell r x)) :
    Printed s' := by
  intro k' r' hr'
  rw [hput, put_apply] at hr'
  split at hr'
  · rw [content_cell, Option.some.injEq] at hr'
    rw [← hr', hr]
  · exact h k' r' hr'

theorem Printed.observe (h : Printed s) (input : ObservePhotoAlbumInput)
    (perceptualMatch : Option PerceptualMatch) :
    Printed (observeAlbum sha256 maxItems now input perceptualMatch s).1 := by
  rcases @observeAlbum_cases sha256 maxItems now s input perceptualMatch with heq | hw
  · rw [heq]
    exact h
  · obtain ⟨r, -, ⟨n, hn⟩, hput⟩ := hw.record
    refine h.put ?_ hput
    rw [hn, printed_printed]

theorem Printed.commit (h : Printed s) (input : CommitPhotoViolationInput) (order : List String) :
    Printed (commitViolation sha256 maxItems now input order s).1 := by
  have hw := @commitViolation_cases sha256 maxItems now s input order
  revert hw
  generalize commitViolation sha256 maxItems now input order s = result
  obtain ⟨s', reply⟩ := result
  rintro (_ | _ | ⟨r, s', hw⟩)
  · exact h
  · exact h
  · refine h.put ?_ hw.record
    exact printed_printed _

theorem Printed.step (h : Printed s) (request : Request) :
    Printed (step sha256 maxItems now request s).1 := by
  cases request with
  | observe input perceptualMatch => exact (h.purge now).observe input perceptualMatch
  | commit input order => exact (h.purge now).commit input order

variable {h pre mid : List Event}

theorem printed_run (hr : HistoryRun sha256 maxItems h t s) : Printed s :=
  hr.invariant (fun _ _ s => Printed s) (fun _ _ h => by simp [Store.empty] at h)
    (fun _ _ _ _ h _ => h) fun _ _ _ i h _ => h.step i

theorem Counted.printed {order : List String} {s' : Store}
    {r : ReplayRecord} (h : Counted sha256 maxItems now input order s s' r) (hs : Printed s) :
    PhotoDuplicate.printed input.expectedRepeatCount = input.expectedRepeatCount := by
  have hprinted := hs _ _ h.stored
  have hcount : r.repeatCount = input.expectedRepeatCount := by
    have hauth := h.authorized
    simp only [ReplayRecord.authorizes, Bool.and_eq_true, beq_iff_eq] at hauth
    exact hauth.1.1.1
  rwa [hcount] at hprinted

theorem removeClusters_own (own : String) (l : List String) (n : Nat) (c : Slot (Table String Nat)) :
    field (removeClusters own l n c) own = field c own := by
  induction l generalizing n c with
  | nil => rfl
  | cons candidate rest ih =>
    cases n with
    | zero => rfl
    | succ n =>
      rw [removeClusters]
      split
      · rename_i hne
        rw [ih, field_delField, if_neg fun heq => hne heq.symm]
      · exact ih _ _

theorem removeClusters_zero (own : String) (l : List String) (c : Slot (Table String Nat)) :
    removeClusters own l 0 c = c := by
  cases l <;> rfl

theorem removeClusters_same_or_none (own cluster : String) (l : List String) (n : Nat)
    (c : Slot (Table String Nat)) : field (removeClusters own l n c) cluster = field c cluster ∨
      field (removeClusters own l n c) cluster = none := by
  induction l generalizing n c with
  | nil => exact .inl rfl
  | cons candidate rest ih =>
    cases n with
    | zero => exact .inl rfl
    | succ n =>
      rw [removeClusters]
      split
      · rcases ih n (delField c candidate) with heq | hnone
        · rw [heq, field_delField]
          split
          · exact .inr rfl
          · exact .inl rfl
        · exact .inr hnone
      · exact ih _ _

theorem hlen_expireAt (x : Nat) (c : Slot (Table String Nat)) : hlen (expireAt x c) = hlen c := by
  cases c <;> rfl

theorem changes_observe (input : ObservePhotoAlbumInput) (perceptualMatch : Option PerceptualMatch)
    (counterKey cluster : String) :
    Changes sha256 maxItems counterKey cluster (s.counters counterKey)
      ((observeAlbum sha256 maxItems now input perceptualMatch s).1.counters counterKey)
      (.observe input perceptualMatch)
      (.observation (observeAlbum sha256 maxItems now input perceptualMatch s).2) := by
  rcases @observeAlbum_cases sha256 maxItems now s input perceptualMatch with heq | hw
  · rw [heq]
    exact .same rfl
  rw [hw.counters]
  by_cases hkey : counterKey = (input.keys sha256).authorCounterKey
  · subst hkey
    rw [put_same]
    split
    · rename_i hnew
      by_cases hown : cluster = (observeAlbum sha256 maxItems now input perceptualMatch s).2.sanctionClusterId
      · subst hown
        exact .cleared rfl hw.status hnew rfl (by rw [field_delField, if_pos rfl])
      · exact .same (by rw [field_delField, if_neg hown])
    · exact .same rfl
  · rw [put_other _ hkey]
    exact .same rfl

theorem changes_commit (hs : Printed s) (input : CommitPhotoViolationInput) (order : List String)
    (counterKey cluster : String) :
    Changes sha256 maxItems counterKey cluster (s.counters counterKey)
      ((commitViolation sha256 maxItems now input order s).1.counters counterKey)
      (.commit input order) (.commit (commitViolation sha256 maxItems now input order s).2) := by
  have hw := @commitViolation_cases sha256 maxItems now s input order
  revert hw
  generalize commitViolation sha256 maxItems now input order s = result
  obtain ⟨s', reply⟩ := result
  rintro (_ | _ | ⟨r, s', hw⟩)
  · exact .same rfl
  · exact .same rfl
  obtain ⟨counted, hcounted, hcounters⟩ := hw.counters
  have hprinted := hw.printed hs
  dsimp only
  rw [hcounters, hprinted]
  by_cases hkey : counterKey = (input.keys sha256).authorCounterKey
  · subst hkey
    rw [put_same]
    by_cases hown : cluster = r.sanctionClusterId
    · subst hown
      refine .counted rfl rfl hw.next ?_
      rw [removeClusters_own, hcounted, field_expireAt, field_setField, if_pos rfl]
    have hbefore : field counted cluster =
        field (s.counters (input.keys sha256).authorCounterKey) cluster := by
      rw [hcounted, field_expireAt, field_setField, if_neg hown]
    by_cases hfull : maxItems < hlen counted
    · rcases removeClusters_same_or_none r.sanctionClusterId cluster (hkeys order counted)
        (hlen counted - maxItems) counted with heq | hnone
      · exact .same (heq.trans hbefore)
      · refine .trimmed rfl (fun heq => hown heq.symm) ?_ hnone
        rwa [hcounted, hlen_expireAt] at hfull
    · rw [show hlen counted - maxItems = 0 by omega, removeClusters_zero]
      exact .same hbefore
  · rw [put_other _ hkey]
    exact .same rfl

theorem changes_step (hs : Printed s) (request : Request) (counterKey cluster : String) :
    Changes sha256 maxItems counterKey cluster ((s.purge now).counters counterKey)
      ((step sha256 maxItems now request s).1.counters counterKey) request
      (step sha256 maxItems now request s).2 := by
  cases request with
  | observe input perceptualMatch => exact changes_observe input perceptualMatch counterKey cluster
  | commit input order => exact changes_commit (hs.purge now) input order counterKey cluster

/-! ## Whole histories -/

section Histories

variable (sha256 maxItems)

def stateAfter (h : List Event) : Store := replay (step sha256 maxItems) Store.empty h

def Expires (replayKey : String) (h : List Event) (e : Event) : Prop :=
  (stateAfter sha256 maxItems h).replay replayKey ≠ none ∧
    ((stateAfter sha256 maxItems h).purge e.now).replay replayKey = none

def Lapses (counterKey cluster : String) (h : List Event) (e : Event) : Prop :=
  (stateAfter sha256 maxItems h).count counterKey cluster ≠ none ∧
    ((stateAfter sha256 maxItems h).purge e.now).counters counterKey = none

def Deletes (counterKey cluster : String) (h : List Event) (e : Event) : Prop :=
  ((stateAfter sha256 maxItems h).purge e.now).count counterKey cluster ≠ none ∧
    (stateAfter sha256 maxItems (h ++ [e])).count counterKey cluster = none

instance (counterKey cluster : String) (h : List Event) (e : Event) :
    Decidable (Deletes sha256 maxItems counterKey cluster h e) := inferInstanceAs (Decidable (_ ∧ _))

def Removes (counterKey cluster : String) (h : List Event) (e : Event) : Prop :=
  Lapses sha256 maxItems counterKey cluster h e ∨ Deletes sha256 maxItems counterKey cluster h e

/-- The commit counted, and answered `n`. -/
def Sanctions (input : CommitPhotoViolationInput) (n : Nat) (cluster : String) (e : Event) : Prop :=
  (∃ order, e.request = .commit input order) ∧
    e.reply = .commit (.committed n cluster input.actionBinding)

/-- Two requests name one observation of a message. -/
structure SameObservation (i j : CommitPhotoViolationInput) : Prop where
  matchKind : j.matchKind = i.matchKind
  cluster : j.observationClusterId = i.observationClusterId
  sanctionCluster : buildViolationSanctionClusterId sha256 j = buildViolationSanctionClusterId sha256 i
  albumCluster : buildClusterId sha256 j.fingerprintVersion j.albumHash =
    buildClusterId sha256 i.fingerprintVersion i.albumHash

end Histories

theorem stateAfter_run (hr : HistoryRun sha256 maxItems h t s) :
    stateAfter sha256 maxItems h = s := hr.replay_eq

theorem stateAfter_snoc (h : List Event) (e : Event) : stateAfter sha256 maxItems (h ++ [e]) =
    (step sha256 maxItems e.now e.request (stateAfter sha256 maxItems h)).1 := replay_snoc h e

theorem names_iff {r : ReplayRecord} {i j : CommitPhotoViolationInput}
    (hi : r.names sha256 i = true) : r.names sha256 j = true ↔ SameObservation sha256 i j := by
  simp only [ReplayRecord.names, Bool.and_eq_true, beq_iff_eq] at hi ⊢
  obtain ⟨⟨⟨⟨hdup, hkind⟩, hcluster⟩, hsanction⟩, halbum⟩ := hi
  rw [hkind, hcluster, hsanction, halbum, Option.some.injEq]
  constructor
  · rintro ⟨⟨⟨⟨-, h₁⟩, h₂⟩, h₃⟩, h₄⟩
    exact ⟨h₁.symm, h₂.symm, h₃.symm, h₄.symm⟩
  · rintro ⟨h₁, h₂, h₃, h₄⟩
    exact ⟨⟨⟨⟨hdup, h₁.symm⟩, h₂.symm⟩, h₃.symm⟩, h₄.symm⟩

theorem Sanctions.counted {e : Event}
    {cluster : String} (hc : Sanctions input n cluster e)
    (hr : HistoryRun sha256 maxItems (h ++ [e]) t s) :
    n = input.expectedRepeatCount ∧
      (((stateAfter sha256 maxItems h).purge e.now).count (input.keys sha256).authorCounterKey
        cluster).getD 0 + 1 = n ∧
      s.count (input.keys sha256).authorCounterKey cluster = some n ∧
      ∃ r, content (s.replay (input.keys sha256).replayKey) = some r ∧ r.names sha256 input = true ∧
        r.sanctionClusterId = cluster ∧ r.repeatCount = n ∧ r.violation = some input.actionBinding := by
  obtain ⟨t₁, s₁, hr₁, -, -, rfl, hreply, rfl⟩ := hr.snoc_inv
  have hs₁ := printed_run hr₁
  obtain ⟨⟨order, hrequest⟩, hcommitted⟩ := hc
  rw [stateAfter_run hr₁]
  rw [hcommitted, hrequest, step] at hreply
  rw [hrequest, step]
  rw [Reply.commit.injEq] at hreply
  have hanswer := @commitViolation_cases sha256 maxItems e.now (s₁.purge e.now) input order
  rw [← hreply] at hanswer
  obtain ⟨r, hw, hn, rfl⟩ := hanswer.counted
  have hprinted := hw.printed (hs₁.purge e.now)
  rw [hprinted] at hn
  obtain ⟨counted, hcounted, hcounters⟩ := hw.counters
  refine ⟨hn, hw.next.trans hn.symm, ?_, { r with
    repeatCount := printed input.expectedRepeatCount
    violation := some input.actionBinding }, ?_, hw.names, rfl, ?_, rfl⟩
  · rw [Store.count, hcounters, put_same, removeClusters_own, hcounted, field_expireAt,
      field_setField, if_pos rfl, hn]
  · rw [hw.record, put_same, content_cell]
  · exact hprinted.trans hn.symm

/-! ## A record is used once -/

/-- A used record stays as it is while it lives. -/
theorem used_step {replayKey : String} {r : ReplayRecord}
    {binding : PhotoHistoryViolationActionBinding} (hused : r.violation = some binding)
    (h : content (s.replay replayKey) = some r) (request : Request) :
    (s.purge now).replay replayKey = none ∨
      content ((step sha256 maxItems now request s).1.replay replayKey) = some r := by
  rcases purge_eq_self_or_none now (s.replay replayKey) with hsame | hnone
  swap
  · exact .inl hnone
  have hpurge : content ((s.purge now).replay replayKey) = some r := by
    rw [← h]
    exact congrArg content hsame
  refine .inr ?_
  generalize hs₀ : s.purge now = s₀ at hpurge
  cases request with
  | observe input perceptualMatch =>
    rw [step, hs₀]
    rcases @observeAlbum_cases sha256 maxItems now s₀ input perceptualMatch with heq | hw
    · rw [heq]
      exact hpurge
    · obtain ⟨_, -, -, hput⟩ := hw.record
      have hne : replayKey ≠ (input.keys sha256).replayKey := by
        rintro rfl
        rw [hw.unseen] at hpurge
        cases hpurge
      rw [hput, put_other _ hne]
      exact hpurge
  | commit input order =>
    rw [step, hs₀]
    have hw := @commitViolation_cases sha256 maxItems now s₀ input order
    revert hw
    generalize commitViolation sha256 maxItems now input order s₀ = result
    obtain ⟨s', reply⟩ := result
    rintro (_ | _ | ⟨r', s', hw⟩)
    · exact hpurge
    · exact hpurge
    · have hne : replayKey ≠ (input.keys sha256).replayKey := by
        rintro rfl
        have hr := hw.stored
        rw [hpurge, Option.some.injEq] at hr
        rw [hr, hw.unused] at hused
        cases hused
      dsimp only
      rw [hw.record, put_other _ hne]
      exact hpurge

theorem commit_used {input : CommitPhotoViolationInput} {order : List String} {r : ReplayRecord}
    {binding : PhotoHistoryViolationActionBinding} (hused : r.violation = some binding)
    (h : content (s.replay (input.keys sha256).replayKey) = some r) :
    commitViolation sha256 maxItems now input order s =
      (s, if r.names sha256 input then .replayed (printed r.repeatCount) r.sanctionClusterId binding
        (r.authorizes input && binding == input.actionBinding) else .refused) := by
  rw [commitViolation, h]
  dsimp only
  by_cases hnames : r.names sha256 input = true
  · rw [if_neg (not_not.mpr hnames), if_pos hnames, hused]
  · rw [if_pos hnames, if_neg hnames]

/-- Later commits of a used record, while it lives, repeat its first answer or refuse. -/
theorem repeated {e₁ e₂ : Event} {first : CommitPhotoViolationInput}
    {order : List String} {cluster : String}
    (hr : HistoryRun sha256 maxItems ((pre ++ [e₁]) ++ (mid ++ [e₂])) t s)
    (hfirst : Sanctions first n cluster e₁) (hrequest : e₂.request = .commit input order)
    (hkey : (input.keys sha256).replayKey = (first.keys sha256).replayKey) :
    Sometime (Expires sha256 maxItems (first.keys sha256).replayKey) (pre ++ [e₁]) (mid ++ [e₂]) ∨
      s = (stateAfter sha256 maxItems (pre ++ [e₁] ++ mid)).purge e₂.now ∧
      (SameObservation sha256 first input → ∃ requestMatches,
        e₂.reply = .commit (.replayed n cluster first.actionBinding requestMatches)) ∧
      (¬SameObservation sha256 first input → e₂.reply = .commit .refused) := by
  obtain ⟨_, _, hr₁, -⟩ := hr.of_append
  obtain ⟨-, -, -, r, hstored, hnames, hcluster, hcount, hused⟩ := hfirst.counted hr₁
  have hprinted := printed_run hr₁ _ _ hstored
  rw [hcount] at hprinted
  rw [← List.append_assoc] at hr
  obtain ⟨t₂, s₂, hr₂, hle, -, rfl, hreply, rfl⟩ := hr.snoc_inv
  have hkept := hr₂.unless (fun s => content (s.replay (first.keys sha256).replayKey) = some r)
    (Expires sha256 maxItems (first.keys sha256).replayKey)
    (fun t s hr => by rw [(hr₁.unique hr).2]; exact hstored)
    fun h t s i hr hq now hle => by
      refine (used_step hused hq i).imp_left fun hnone => ⟨?_, ?_⟩
      · rw [stateAfter_run hr]
        rintro hempty
        rw [hempty] at hq
        cases hq
      · rw [stateAfter_run hr]
        exact hnone
  rcases hkept with hsome | hq
  · exact .inl (sometime_snoc.mpr (.inl hsome))
  rw [stateAfter_run hr₂]
  rcases purge_eq_self_or_none e₂.now (s₂.replay (first.keys sha256).replayKey) with hsame | hnone
  · have hpurge : content ((s₂.purge e₂.now).replay (input.keys sha256).replayKey) = some r := by
      rw [hkey, ← hq]
      exact congrArg content hsame
    have hcommit := @commit_used sha256 maxItems e₂.now _ input order _ _ hused hpurge
    rw [hrequest, step, hcommit] at hreply
    rw [hrequest, step, hcommit]
    refine .inr ⟨rfl, fun hobs => ?_, fun hobs => ?_⟩
    · rw [if_pos ((names_iff hnames).mpr hobs), hcount, hprinted, hcluster] at hreply
      exact ⟨_, hreply⟩
    · rwa [if_neg fun hyes => hobs ((names_iff hnames).mp hyes)] at hreply
  · refine .inl (sometime_snoc.mpr (.inr ⟨?_, ?_⟩))
    · rw [stateAfter_run hr₂]
      rintro hempty
      rw [hempty] at hq
      cases hq
    · rw [stateAfter_run hr₂]
      exact hnone

/-! ## A count is answered once -/

theorem count_purge (counterKey cluster : String) :
    (s.purge now).count counterKey cluster = s.count counterKey cluster ∨
      (s.purge now).counters counterKey = none := by
  rcases purge_eq_self_or_none now (s.counters counterKey) with hsame | hnone
  · exact .inl (congrArg (fun c => field c cluster) hsame)
  · exact .inr hnone

theorem Changes.le {counterKey cluster : String} {before after : Slot (Table String Nat)}
    {request : Request} {reply : Reply}
    (h : Changes sha256 maxItems counterKey cluster before after request reply)
    (hn : ∃ m, field before cluster = some m ∧ n ≤ m) :
    field after cluster = none ∨ ∃ m, field after cluster = some m ∧ n ≤ m := by
  obtain ⟨m, hm, hle⟩ := hn
  cases h with
  | same h => exact .inr ⟨m, h.trans hm, hle⟩
  | cleared _ _ _ _ gone => exact .inl gone
  | trimmed _ _ _ gone => exact .inl gone
  | counted _ _ next one =>
    rw [hm, Option.getD_some] at next
    exact .inr ⟨_, one, by omega⟩

/-- Two commits that count one cluster answer different counts, unless the counter is removed. -/
theorem counts_lt {e₁ e₂ : Event}
    {input₁ input₂ : CommitPhotoViolationInput} {n₁ n₂ : Nat} {cluster : String}
    (hr : HistoryRun sha256 maxItems ((pre ++ [e₁]) ++ (mid ++ [e₂])) t s)
    (h₁ : Sanctions input₁ n₁ cluster e₁) (h₂ : Sanctions input₂ n₂ cluster e₂)
    (hkey : (input₂.keys sha256).authorCounterKey = (input₁.keys sha256).authorCounterKey) :
    Sometime (Removes sha256 maxItems (input₁.keys sha256).authorCounterKey cluster) (pre ++ [e₁])
      (mid ++ [e₂]) ∨ n₁ < n₂ := by
  obtain ⟨_, _, hr₁, -⟩ := hr.of_append
  obtain ⟨-, -, hcount, -⟩ := h₁.counted hr₁
  rw [← List.append_assoc] at hr
  obtain ⟨-, hnext, -⟩ := h₂.counted hr
  rw [hkey] at hnext
  obtain ⟨t₂, s₂, hr₂, -, -, -, -, -⟩ := hr.snoc_inv
  have hkept := hr₂.unless
    (fun s => ∃ m, s.count (input₁.keys sha256).authorCounterKey cluster = some m ∧ n₁ ≤ m)
    (Removes sha256 maxItems (input₁.keys sha256).authorCounterKey cluster)
    (fun t s hr => ⟨n₁, by rw [(hr₁.unique hr).2]; exact hcount, le_refl _⟩)
    fun h t s i hr hq now hle => by
      obtain ⟨m, hm, hnm⟩ := hq
      rcases @count_purge now s (input₁.keys sha256).authorCounterKey cluster with hsame | hnone
      · have hchange := @changes_step sha256 maxItems now s (printed_run hr) i
          (input₁.keys sha256).authorCounterKey cluster
        rcases hchange.le ⟨m, hsame.trans hm, hnm⟩ with hgone | hup
        · refine .inl (.inr ⟨?_, ?_⟩)
          · rw [stateAfter_run hr, hsame, hm]
            exact Option.some_ne_none m
          · rw [stateAfter_snoc, stateAfter_run hr]
            exact hgone
        · exact .inr hup
      · refine .inl (.inl ⟨?_, ?_⟩)
        · rw [stateAfter_run hr, hm]
          exact Option.some_ne_none m
        · rw [stateAfter_run hr]
          exact hnone
  rcases hkept with hsome | ⟨m, hm, hnm⟩
  · exact .inl (sometime_snoc.mpr (.inl hsome))
  rw [stateAfter_run hr₂] at hnext
  rcases @count_purge e₂.now s₂ (input₁.keys sha256).authorCounterKey cluster with hsame | hnone
  · rw [hsame, hm, Option.getD_some] at hnext
    exact .inr (by omega)
  · refine .inl (sometime_snoc.mpr (.inr (.inl ⟨?_, ?_⟩)))
    · rw [stateAfter_run hr₂, hm]
      exact Option.some_ne_none m
    · rw [stateAfter_run hr₂]
      exact hnone

/-! ## The contract -/

/-- What holds of the counters and the records after the history `h`; `removes` says when a counter
counts as removed. -/
structure CountsOnce (sha256 : String → String) (maxItems : Nat)
    (removes : String → String → List Event → Event → Prop) (h : List Event) (t : Nat) (s : Store) :
    Prop where
  /-- Up to the next call a counter stays, or its key expires; the call then deletes it or adds one. -/
  changes : ∀ now, t ≤ now → ∀ request counterKey cluster,
    ((s.purge now).count counterKey cluster = s.count counterKey cluster ∨
      (s.purge now).counters counterKey = none) ∧
    Changes sha256 maxItems counterKey cluster ((s.purge now).counters counterKey)
      ((step sha256 maxItems now request s).1.counters counterKey) request
      (step sha256 maxItems now request s).2
  refused : ∀ now, t ≤ now → ∀ input order,
    (step sha256 maxItems now (.commit input order) s).2 = .commit .refused →
      (step sha256 maxItems now (.commit input order) s).1 = s.purge now
  /-- A record that counted once does not count again while it lives. -/
  once : ∀ pre e₁ mid e₂ post i₁ i₂ n₁ n₂ c₁ c₂, h = pre ++ e₁ :: (mid ++ e₂ :: post) →
    Sanctions i₁ n₁ c₁ e₁ → Sanctions i₂ n₂ c₂ e₂ →
    (i₂.keys sha256).replayKey = (i₁.keys sha256).replayKey →
      Sometime (Expires sha256 maxItems (i₁.keys sha256).replayKey) (pre ++ [e₁]) (mid ++ [e₂])
  /-- Later commits repeat its first answer, or are refused when they name something else. -/
  repeated : ∀ pre e₁ mid e₂ post i₁ i₂ order n c, h = pre ++ e₁ :: (mid ++ e₂ :: post) →
    Sanctions i₁ n c e₁ → e₂.request = .commit i₂ order →
    (i₂.keys sha256).replayKey = (i₁.keys sha256).replayKey →
      Sometime (Expires sha256 maxItems (i₁.keys sha256).replayKey) (pre ++ [e₁]) (mid ++ [e₂]) ∨
      stateAfter sha256 maxItems (pre ++ e₁ :: (mid ++ [e₂])) =
        (stateAfter sha256 maxItems (pre ++ e₁ :: mid)).purge e₂.now ∧
      (SameObservation sha256 i₁ i₂ → ∃ requestMatches,
        e₂.reply = .commit (.replayed n c i₁.actionBinding requestMatches)) ∧
      (¬SameObservation sha256 i₁ i₂ → e₂.reply = .commit .refused)
  /-- A commit answers the count its observation expects. -/
  expected : ∀ e ∈ h, ∀ i n c, Sanctions i n c e → n = i.expectedRepeatCount
  /-- Without a removal in between, the counts of a cluster go up. -/
  distinct : ∀ pre e₁ mid e₂ post i₁ i₂ n₁ n₂ c, h = pre ++ e₁ :: (mid ++ e₂ :: post) →
    Sanctions i₁ n₁ c e₁ → Sanctions i₂ n₂ c e₂ →
    (i₂.keys sha256).authorCounterKey = (i₁.keys sha256).authorCounterKey →
      Sometime (removes (i₁.keys sha256).authorCounterKey c) (pre ++ [e₁]) (mid ++ [e₂]) ∨ n₁ < n₂

theorem refused_step {order : List String}
    (h : (step sha256 maxItems now (.commit input order) s).2 = .commit .refused) :
    (step sha256 maxItems now (.commit input order) s).1 = s.purge now := by
  rw [step] at h ⊢
  rw [Reply.commit.injEq] at h
  have hw := @commitViolation_cases sha256 maxItems now (s.purge now) input order
  revert hw h
  generalize s.purge now = s₀
  generalize commitViolation sha256 maxItems now input order s₀ = result
  obtain ⟨s', reply⟩ := result
  rintro h (_ | _ | _)
  · rfl
  · rfl
  · cases h

theorem cut {post : List Event} {e₁ e₂ : Event}
    (hr : HistoryRun sha256 maxItems h t s) (heq : h = pre ++ e₁ :: (mid ++ e₂ :: post)) :
    ∃ t' s', HistoryRun sha256 maxItems (pre ++ [e₁] ++ (mid ++ [e₂])) t' s' := by
  have hsplit : h = (pre ++ [e₁] ++ (mid ++ [e₂])) ++ post := by simp [heq]
  rw [hsplit] at hr
  obtain ⟨t', s', hr', -⟩ := hr.of_append
  exact ⟨t', s', hr'⟩

theorem counts_once {h : List Event} {t : Nat} (hr : HistoryRun sha256 maxItems h t s) :
    CountsOnce sha256 maxItems (Removes sha256 maxItems) h t s where
  changes now _ request counterKey cluster :=
    ⟨count_purge counterKey cluster, changes_step (printed_run hr) request counterKey cluster⟩
  refused now _ input order := refused_step
  once pre e₁ mid e₂ post i₁ i₂ n₁ n₂ c₁ c₂ heq h₁ h₂ hkey := by
    obtain ⟨t', s', hr'⟩ := cut hr heq
    obtain ⟨order, hrequest⟩ := h₂.1
    rcases repeated hr' h₁ hrequest hkey with hexpires | ⟨-, hsame, hother⟩
    · exact hexpires
    by_cases hobs : SameObservation sha256 i₁ i₂
    · obtain ⟨requestMatches, hreply⟩ := hsame hobs
      rw [h₂.2] at hreply
      cases hreply
    · have hreply := hother hobs
      rw [h₂.2] at hreply
      cases hreply
  repeated pre e₁ mid e₂ post i₁ i₂ order n c heq h₁ hrequest hkey := by
    obtain ⟨t', s', hr'⟩ := cut hr heq
    rcases repeated hr' h₁ hrequest hkey with hexpires | ⟨hstate, hanswer⟩
    · exact .inl hexpires
    · refine .inr ⟨?_, hanswer⟩
      rw [← stateAfter_run hr'] at hstate
      simpa using hstate
  expected e he i n c hc := by
    obtain ⟨pre, post, rfl⟩ := List.append_of_mem he
    rw [List.append_cons] at hr
    obtain ⟨t', s', hr', -⟩ := hr.of_append
    exact (hc.counted hr').1
  distinct pre e₁ mid e₂ post i₁ i₂ n₁ n₂ c heq h₁ h₂ hkey := by
    obtain ⟨t', s', hr'⟩ := cut hr heq
    exact counts_lt hr' h₁ h₂ hkey

/-! ## One album sent four times -/

/-- The exact observation of one album, kept for a minute. -/
def albumObservation (messageId : String) (occurredAtMs : Nat)
    (occurred : 0 < occurredAtMs ∧ occurredAtMs ≤ MAX_SAFE_INTEGER) : Request :=
  .observe
    { chatId := "c", senderId := "u", messageId, occurredAtMs, ttlSeconds := 60, scope := .sameAuthor
      fingerprintVersion := "v", albumHash := "a", exactMatchKind := .canonicalSha256
      perceptualAlbum := none, perceptualPreset := none
      authorization := ⟨true, "d", [.canonicalSha256]⟩
      exact := canonicalSha256_ne_pdq, occurred, lives := minute_lives } none

def albumCommit (messageId : String) : CommitPhotoViolationInput where
  chatId := "c"
  senderId := "u"
  messageId
  ttlSeconds := 60
  scope := .sameAuthor
  fingerprintVersion := "v"
  albumHash := "a"
  perceptualPreset := none
  observationClusterId := buildClusterId id "v" "a"
  matchKind := .canonicalSha256
  expectedRepeatCount := 1
  allowedMatchKinds := [.canonicalSha256]
  authorizationConfigDigest := "d"
  actionBinding := ⟨.warn, "b"⟩
  counted := by decide
  lives := minute_lives

def extend (h : List Event) (now : Nat) (request : Request) : List Event :=
  h ++ [⟨now, request, (step id 250 now request (stateAfter id 250 h)).2⟩]

theorem extend_run {now : Nat} {s : Store} (hr : HistoryRun id 250 h t s)
    (request : Request) (hle : t ≤ now) :
    HistoryRun id 250 (extend h now request) now (step id 250 now request s).1 := by
  rw [extend, stateAfter_run hr]
  exact hr.snoc now request hle trivial

def sanctionedOnce : List Event :=
  extend (extend (extend [] 100000 (albumObservation "1" 100000 (by decide))) 100001
    (albumObservation "2" 100001 (by decide))) 100002 (.commit (albumCommit "2") [])

theorem sanctionedOnce_run : ∃ s, HistoryRun id 250 sanctionedOnce 100002 s := by
  have hr₁ := extend_run .nil (albumObservation "1" 100000 (by decide)) (Nat.zero_le 100000)
  have hr₂ := extend_run hr₁ (albumObservation "2" 100001 (by decide)) (show 100000 ≤ 100001 by omega)
  exact ⟨_, extend_run hr₂ (.commit (albumCommit "2") []) (by omega)⟩

theorem sanctions_once : ∃ s, HistoryRun id 250 sanctionedOnce 100002 s ∧
    CountsOnce id 250 (Removes id 250) sanctionedOnce 100002 s := by
  obtain ⟨s, hr⟩ := sanctionedOnce_run
  exact ⟨s, hr, counts_once hr⟩

/-- Two more duplicates: the first keeps the history, the second comes when the counter has expired. -/
def sanctionedAgain : List Event :=
  extend (extend (extend sanctionedOnce 150000 (albumObservation "3" 150000 (by decide))) 160003
    (albumObservation "4" 160003 (by decide))) 160004 (.commit (albumCommit "4") [])

/-- Nothing deletes the counter, and both commits answer 1. -/
theorem counted_again_after_expiry :
    ∃ (sha256 : String → String) (maxItems : Nat) (h : List Event) (t : Nat) (s : Store),
      HistoryRun sha256 maxItems h t s ∧
        ¬CountsOnce sha256 maxItems (Deletes sha256 maxItems) h t s := by
  obtain ⟨s₃, hr₃⟩ := sanctionedOnce_run
  have hr₄ := extend_run hr₃ (albumObservation "3" 150000 (by decide)) (show 100002 ≤ 150000 by omega)
  have hr₅ := extend_run hr₄ (albumObservation "4" 160003 (by decide)) (show 150000 ≤ 160003 by omega)
  have hr₆ := extend_run hr₅ (.commit (albumCommit "4") []) (show 160003 ≤ 160004 by omega)
  refine ⟨id, 250, sanctionedAgain, _, _, hr₆, fun honce => ?_⟩
  have hdistinct := honce.distinct (sanctionedAgain.take 2) _ ((sanctionedAgain.drop 3).take 2) _ []
    (albumCommit "2") (albumCommit "4") 1 1 (buildCanonicalSanctionClusterId id "v" "a") rfl
    ⟨⟨[], rfl⟩, by decide +kernel⟩ ⟨⟨[], rfl⟩, by decide +kernel⟩ (by decide +kernel)
  rcases hdistinct with hdeletes | hlt
  · change Sometime _ _ [_, _, _] at hdeletes
    simp only [sometime_cons, not_sometime_nil, or_false] at hdeletes
    rcases hdeletes with hdelete | hdelete | hdelete
    · exact absurd hdelete (by decide +kernel)
    · exact absurd hdelete (by decide +kernel)
    · exact absurd hdelete (by decide +kernel)
  · omega

end Maxim.Moderation.PhotoDuplicate
