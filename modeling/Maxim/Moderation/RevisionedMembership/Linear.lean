import Maxim.Moderation.RevisionedMembership.Replace
import Mathlib.Data.List.Perm.Subperm

/-!
# Linearizability of the replacement

Any number of callers share one state key and one member. A replacement is
written only over the state its caller has read, so the sets of that state are
the only ones that can hold the member. Nothing is assumed about the clocks of
the callers, about deadlines and lifetimes, or about the other members.
-/

namespace Maxim.Moderation.RevisionedMembership

open Maxim.Library

variable {ω κ μ : Type}

/-! ## Printed numbers -/

theorem printed_mono {a b : Nat} (h : a ≤ b) : printed a ≤ printed b :=
  significant_mono (by decide) h

theorem printed_printed (n : Nat) : printed (printed n) = printed n :=
  significant_significant (by decide) n

theorem printed_of_lt {n : Nat} (h : n < 10 ^ 14) : printed n = n :=
  significant_of_lt (by decide) h

/-! ## The local code -/

section Local

/-- What a caller knows about the state it has read. -/
def Pc.Sound (member : μ) : Pc κ μ → Prop
  | .idle => True
  | .get p _ => p.member = member
  | .verify p _ raw => p.member = member ∧ raw.revision = p.revision ∧
      ∀ k, k ∈ p.membershipKeys ↔ k ∈ raw.keys
  | .replace p _ raw => p.member = member ∧ ∀ c, raw = some c → c.revision < p.revision

/-- The local code goes on soundly, or returns without having written. -/
def Next.Quiet (member : μ) : Next κ μ → Prop
  | .goto pc => pc.Sound member
  | .finish _ r => r = .stale ∨ r = .deadlineExceeded ∨ r = .failed

theorem retry_quiet {member : μ} {p : Params κ μ} (hp : p.member = member) (attempt : Nat) :
    (retry p attempt).Quiet member := by
  unfold retry
  split
  · exact hp
  · exact .inr (.inr rfl)

variable [DecidableEq κ]

theorem mem_of_stringSetsEqual {left right : List κ} (hn : left.Nodup)
    (h : stringSetsEqual left right = true) : ∀ k, k ∈ right ↔ k ∈ left := by
  rw [stringSetsEqual, Bool.and_eq_true, beq_iff_eq, List.all_eq_true] at h
  have hsub : left ⊆ right := fun k hk => by simpa using h.2 k hk
  have hperm := (hn.subperm hsub).perm_of_length_le (Nat.le_of_eq h.1.symm)
  exact fun k => hperm.mem_iff.symm

theorem parse_eq_some {raw c : Stored κ}
    (h : parseRevisionedSetMembershipState raw = some c) : c = raw ∧ raw.keys.Nodup := by
  unfold parseRevisionedSetMembershipState at h
  split at h
  · simp at h
  · next hok =>
    rw [not_or, not_or, not_or, not_not] at hok
    exact ⟨(Option.some.inj h).symm, hok.2.2.2⟩

theorem afterGet_quiet {member : μ} {p : Params κ μ} (hp : p.member = member) (attempt : Nat)
    (raw : Option (Stored κ)) : (afterGet p attempt raw).Quiet member := by
  unfold afterGet
  split
  · exact ⟨hp, by simp⟩
  · next raw =>
    split
    · exact .inr (.inr rfl)
    · next c hparse =>
      obtain ⟨rfl, hnodup⟩ := parse_eq_some hparse
      split
      · exact .inl rfl
      split
      · next heq =>
        split
        · exact .inl rfl
        split
        · exact .inl rfl
        · next hset =>
          exact ⟨hp, heq.symm, mem_of_stringSetsEqual hnodup (by simpa using hset)⟩
      · exact ⟨hp, fun c' hc' => by rw [← Option.some.inj hc']; omega⟩

end Local

theorem Next.Quiet.goto_sound {member : μ} {n : Next κ μ} (hn : n.Quiet member) :
    ∀ pc, n = .goto pc → pc.Sound member := by
  rintro pc rfl
  exact hn

/-! ## The script -/

section Script

variable [LinearOrder κ]

theorem mem_allMembershipKeys {p : Params κ μ} {raw : Option (Stored κ)} {k : κ} :
    k ∈ allMembershipKeys p raw ↔ (∃ c, raw = some c ∧ k ∈ c.keys) ∨ k ∈ p.membershipKeys := by
  rw [allMembershipKeys, (List.perm_insertionSort _ _).mem_iff, List.mem_dedup, List.mem_append]
  cases raw <;> simp

variable [LinearOrder μ]

theorem field_foldl_replaceMembership (now : Nat) (p : Params κ μ) (keys : List κ)
    (sets : Slots κ (Table μ Nat)) {k : κ} {x : Nat}
    (h : field ((keys.foldl (replaceMembership now p) sets) k) p.member = some x) :
    k ∈ keys ∧ k ∈ p.membershipKeys ∨
      k ∉ keys ∧ field (sets k) p.member = some x := by
  induction keys generalizing sets with
  | nil => exact .inr ⟨by simp, h⟩
  | cons key keys ih =>
    rcases ih _ h with ⟨hk, hp⟩ | ⟨hk, hx⟩
    · exact .inl ⟨List.mem_cons_of_mem _ hk, hp⟩
    · by_cases heq : k = key
      · subst heq
        rw [replaceMembership, put_same] at hx
        split at hx
        · next hp => exact .inl ⟨List.mem_cons_self, hp⟩
        · rw [field_delField, if_pos rfl] at hx
          simp at hx
      · rw [replaceMembership, put_other _ heq] at hx
        exact .inr ⟨by simp [heq, hk], hx⟩

def replacement (now : Nat) (p : Params κ μ) (raw : Option (Stored κ))
    (sets : Slots κ (Table μ Nat)) : Stored κ :=
  let keys := allMembershipKeys p raw
  ⟨printed p.revision, some (printed p.score), (desiredKeys p keys).map fun key =>
    (key, membershipCount p (keys.foldl (replaceMembership now p) sets) key)⟩

theorem mem_replacement_keys {now : Nat} {p : Params κ μ} {raw : Option (Stored κ)}
    {sets : Slots κ (Table μ Nat)} {k : κ} :
    k ∈ (replacement now p raw sets).keys ↔ k ∈ p.membershipKeys := by
  simp only [replacement, Stored.keys, List.map_map, Function.comp_def, List.map_id', desiredKeys,
    List.mem_filter, mem_allMembershipKeys, decide_eq_true_eq]
  exact ⟨And.right, fun h => ⟨.inr h, h⟩⟩

theorem afterReplace_counts (now : Nat) (p : Params κ μ) (attempt : Nat) (raw : Option (Stored κ))
    (sets : Slots κ (Table μ Nat)) :
    afterReplace p attempt raw (.counts ((replacement now p raw sets).memberships.map Prod.snd)) =
      .finish p (.applied (p.membershipKeys.map (replacement now p raw sets).count)) := by
  have hzip : ∀ (keys : List κ) (f : κ → Nat),
      keys.zip ((keys.map fun k => (k, f k)).map Prod.snd) = keys.map fun k => (k, f k) := by
    intro keys f
    induction keys with
    | nil => rfl
    | cons key keys ih =>
      rw [List.map_cons, List.map_cons, List.zip_cons_cons, ih]
  simp only [afterReplace]
  rw [if_neg (by simp [replacement])]
  simp only [replacement, hzip]
  rfl

variable [DecidableEq ω]

inductive Effect (now : Nat) (member : μ) (s s' : System ω κ μ) (r : Request ω κ μ)
    (o : Reply κ μ) : Prop
  | quiet (state : s'.state = s.state) (sets : s'.sets = s.sets)
      (applied : ∀ p counts, o ≠ some (p, .applied counts))
      (replayed : ∀ p counts, o = some (p, .replayed counts) → ∃ c, content s.state = some c ∧
        c.revision = p.revision ∧ counts = p.membershipKeys.map c.count ∧
        ∀ k, k ∈ p.membershipKeys ↔ k ∈ c.keys)
  | other (k : κ) (m : μ) (score : Option Nat) (request : r = .other k m score)
      (state : s'.state = s.state) (sets : ∀ k, m ≠ member →
        field (s'.sets k) member = field (s.sets k) member) (reply : o = none)
  | writes (p : Params κ μ) (raw : Option (Stored κ)) (caller : p.member = member)
      (read : content s.state = raw) (newer : ∀ c, raw = some c → c.revision < p.revision)
      (state : content s'.state = some (replacement now p raw s.sets))
      (sets : s'.sets = (allMembershipKeys p raw).foldl (replaceMembership now p) s.sets)
      (reply : o = some (p, .applied (p.membershipKeys.map (replacement now p raw s.sets).count)))

omit [LinearOrder κ] [LinearOrder μ] in
theorem proceed_frame (s : System ω κ μ) (w : ω) (n : Next κ μ) :
    (s.proceed w n).1.state = s.state ∧ (s.proceed w n).1.sets = s.sets := by
  cases n <;> exact ⟨rfl, rfl⟩

variable {member : μ} {s : System ω κ μ}

omit [LinearOrder κ] [LinearOrder μ] in
theorem proceed_sound [DecidableEq κ]
    (hs : ∀ w, (s.pc w).Sound member) (w : ω) {n : Next κ μ}
    (hn : ∀ pc, n = .goto pc → pc.Sound member) :
    ∀ w', ((s.proceed w n).1.pc w').Sound member := by
  intro w'
  cases n with
  | goto pc =>
    by_cases hw : w' = w
    · subst hw
      simpa [System.proceed] using hn pc rfl
    · simpa [System.proceed, hw] using hs w'
  | finish p r =>
    by_cases hw : w' = w
    · subst hw
      simp [System.proceed, Pc.Sound]
    · simpa [System.proceed, hw] using hs w'

theorem Effect.of_quiet {now : Nat} {r : Request ω κ μ} (w : ω)
    {n : Next κ μ} (hn : n.Quiet member) :
    Effect now member s (s.proceed w n).1 r (s.proceed w n).2 := by
  obtain ⟨hstate, hsets⟩ := proceed_frame s w n
  refine .quiet hstate hsets ?_ ?_
  all_goals
    intro p counts ho
    cases n with
    | goto pc => simp [System.proceed] at ho
    | finish p' r' =>
      simp only [System.proceed, Option.some.injEq, Prod.mk.injEq] at ho
      rcases hn with hr | hr | hr <;> simp [hr] at ho

omit [DecidableEq ω] in
theorem replaceScript_cases (now : Nat) (p : Params κ μ) (raw : Option (Stored κ))
    (s : System ω κ μ) :
    (replaceScript now p raw s = (s, .mismatch) ∨ replaceScript now p raw s = (s, .late)) ∨
    content s.state = raw ∧
      (replaceScript now p raw s).1.pc = s.pc ∧
      content (replaceScript now p raw s).1.state = some (replacement now p raw s.sets) ∧
      (replaceScript now p raw s).1.sets =
        (allMembershipKeys p raw).foldl (replaceMembership now p) s.sets ∧
      (replaceScript now p raw s).2 =
        .counts ((replacement now p raw s.sets).memberships.map Prod.snd) := by
  unfold replaceScript
  split
  · exact .inl (.inl rfl)
  split
  · exact .inl (.inr rfl)
  · next hread _ => exact .inr ⟨by simpa using hread, rfl, rfl, rfl, rfl⟩

/-- One step of a sound system, and the soundness of its callers after it. -/
theorem step_effect (now : Nat) (r : Request ω κ μ)
    (hcall : ∀ w p, r = .call w p → p.member = member) (hs : ∀ w, (s.pc w).Sound member) :
    Effect now member (s.purge now) (step now r s).1 r (step now r s).2 ∧
      ∀ w, ((step now r s).1.pc w).Sound member := by
  have hq : ∀ w, ((s.purge now).pc w).Sound member := hs
  generalize hsq : s.purge now = q at hq
  have hidle : Effect now member q q r none ∧ ∀ w, (q.pc w).Sound member :=
    ⟨.quiet rfl rfl (by simp) (by simp), hq⟩
  cases r with
  | call w p =>
    simp only [step, hsq]
    split
    · split
      · exact ⟨.of_quiet (n := .goto (.get p 0)) w (hcall w p rfl),
          proceed_sound hq w fun pc h => by cases h; exact hcall w p rfl⟩
      · exact ⟨.of_quiet (n := .finish p .failed) w (.inr (.inr rfl)),
          proceed_sound hq w fun pc h => by cases h⟩
    · exact hidle
  | other k m score =>
    simp only [step, hsq]
    refine ⟨.other k m score rfl rfl (fun k' hm => ?_) rfl, hq⟩
    by_cases hk : k' = k
    · subst hk
      cases score <;> simp [field_setField, field_delField, Ne.symm hm]
    · simp only [put_other _ hk]
  | resume w localNow localAfter =>
    simp only [step, hsq, System.resume]
    have hw := hq w
    split
    · exact hidle
    · next p attempt hpc =>
      rw [hpc] at hw
      split
      · exact ⟨.of_quiet w (.inr (.inl rfl)), proceed_sound hq w fun pc h => by cases h⟩
      · have hquiet := afterGet_quiet hw attempt (content q.state)
        exact ⟨.of_quiet w hquiet, proceed_sound hq w hquiet.goto_sound⟩
    · next p attempt raw hpc =>
      rw [hpc] at hw
      obtain ⟨hp, hrev, hkeys⟩ := hw
      unfold verify
      split
      · next hread =>
        refine ⟨.quiet rfl rfl (by simp [System.proceed]) ?_, proceed_sound hq w fun pc h => by cases h⟩
        intro p' counts ho
        simp only [System.proceed, Option.some.injEq, Prod.mk.injEq, Result.replayed.injEq] at ho
        obtain ⟨rfl, rfl⟩ := ho
        exact ⟨raw, hread, hrev, rfl, hkeys⟩
      · have hquiet : (retry p attempt).Quiet member := retry_quiet hp attempt
        exact ⟨.of_quiet w hquiet, proceed_sound hq w hquiet.goto_sound⟩
    · next p attempt raw hpc =>
      rw [hpc] at hw
      obtain ⟨hp, hnewer⟩ := hw
      rcases replaceScript_cases now p raw q with (hrep | hrep) | ⟨hread, hpcs, hstate, hsets, hrep⟩
      · have hquiet : (retry p attempt).Quiet member := retry_quiet hp attempt
        rw [hrep]
        exact ⟨.of_quiet w hquiet, proceed_sound hq w hquiet.goto_sound⟩
      · rw [hrep]
        exact ⟨.of_quiet w (.inr (.inl rfl)), proceed_sound hq w fun pc h => by cases h⟩
      · rw [hrep, afterReplace_counts]
        obtain ⟨hst, hse⟩ := proceed_frame (replaceScript now p raw q).1 w
          (.finish p (.applied (p.membershipKeys.map (replacement now p raw q.sets).count)))
        refine ⟨.writes p raw hp hread hnewer (by rw [hst, hstate]) (by rw [hse, hsets]) rfl, ?_⟩
        refine proceed_sound (fun w' => ?_) w fun pc h => by cases h
        rw [hpcs]
        exact hq w'

/-! ## Runs -/

/-- A step of a run: its date, its request, and what a returning call was asked and answered. -/
abbrev Record (ω κ μ : Type) := Entry (Request ω κ μ) (Reply κ μ)

/-- All calls are for one member, and nobody else writes it. -/
def Promised (member : μ) : Request ω κ μ → Prop
  | .call _ p => p.member = member
  | .resume _ _ _ => True
  | .other _ m _ => m ≠ member

def Accepted (member : μ) (h : List (Record ω κ μ)) (now : Nat) (r : Request ω κ μ) : Prop :=
  Promised member r ∧ ∀ t s, Run step (fun _ _ => Promised member) System.empty h t s →
    ∀ c, s.state = some c → c.live now = true

/-- The call with the arguments `p` has written the state `c` and returned the counts. -/
def Wrote (member : μ) (h : List (Record ω κ μ)) (p : Params κ μ) (counts : List Nat)
    (c : Stored κ) : Prop :=
  ∃ pre e post t s, h = pre ++ [e] ++ post ∧
    Run step (Accepted member) System.empty pre t s ∧ e.reply = some (p, .applied counts) ∧
    content (step e.now e.request s).1.state = some c

/-- The stored state lists every set that holds the member, comes from a write, and every caller is
sound. -/
structure Inv (member : μ) (h : List (Record ω κ μ)) (s : System ω κ μ) : Prop where
  listed : ∀ k x, field (s.sets k) member = some x → ∃ c, content s.state = some c ∧ k ∈ c.keys
  written : ∀ c, content s.state = some c → ∃ p, Wrote member h p (p.membershipKeys.map c.count) c ∧
    c.revision = printed p.revision ∧ ∀ k, k ∈ c.keys ↔ k ∈ p.membershipKeys
  callers : ∀ w, (s.pc w).Sound member

variable {h : List (Record ω κ μ)}

theorem Wrote.append {p : Params κ μ} {counts : List Nat}
    {c : Stored κ} (hw : Wrote member h p counts c) (e : Record ω κ μ) :
    Wrote member (h ++ [e]) p counts c := by
  obtain ⟨pre, e₀, post, t, s, rfl, hrest⟩ := hw
  exact ⟨pre, e₀, post ++ [e], t, s, by simp, hrest⟩

theorem Accepted.purge_state {now t : Nat}
    {r : Request ω κ μ} (hok : Accepted member h now r)
    (hr : Run step (Accepted member) System.empty h t s) : (s.purge now).state = s.state := by
  have hlive := hok.2 t s (hr.mono fun _ _ _ hok => hok.1)
  change purge now s.state = s.state
  cases hs : s.state with
  | none => rfl
  | some c => exact purge_some_of_live (hlive c hs)

theorem membership_invariant {t : Nat}
    (hr : Run step (Accepted member) System.empty h t s) : Inv member h s := by
  induction hr with
  | nil => exact ⟨by simp [System.empty], by simp [System.empty], fun _ => trivial⟩
  | @snoc h t s now r hr hle hok ih =>
    have hcall : ∀ w p, r = .call w p → p.member = member := by
      rintro w p rfl
      exact hok.1
    obtain ⟨he, hsound⟩ := step_effect now r hcall ih.callers
    have hstate := hok.purge_state hr
    have hpurged : ∀ k x, field ((s.purge now).sets k) member = some x →
        ∃ c, content s.state = some c ∧ k ∈ c.keys :=
      fun k x hx => ih.listed k x (field_purge_eq_some hx)
    refine ⟨?_, ?_, hsound⟩
    · intro k x hx
      cases he with
      | quiet state sets =>
        rw [state, hstate]
        rw [sets] at hx
        exact hpurged k x hx
      | other k' m score request state sets =>
        subst request
        rw [state, hstate]
        rw [sets k hok.1] at hx
        exact hpurged k x hx
      | writes p raw caller read newer state sets =>
        rw [sets, ← caller] at hx
        refine ⟨_, state, mem_replacement_keys.mpr ?_⟩
        rcases field_foldl_replaceMembership now p _ _ hx with ⟨-, hp⟩ | ⟨hk, hx⟩
        · exact hp
        · rw [caller] at hx
          obtain ⟨c, hc, hmem⟩ := hpurged k x hx
          rw [← hstate, read] at hc
          exact absurd (mem_allMembershipKeys.mpr (.inl ⟨c, hc, hmem⟩)) hk
    · intro c hc
      cases he with
      | quiet state sets =>
        rw [state, hstate] at hc
        obtain ⟨p, hw, hrest⟩ := ih.written c hc
        exact ⟨p, hw.append _, hrest⟩
      | other k' m score request state sets =>
        rw [state, hstate] at hc
        obtain ⟨p, hw, hrest⟩ := ih.written c hc
        exact ⟨p, hw.append _, hrest⟩
      | writes p raw caller read newer state sets reply =>
        have hcr := hc
        rw [state, Option.some.injEq] at hcr
        subst hcr
        exact ⟨p, ⟨h, ⟨now, r, (step now r s).2⟩, [], t, s, by simp, hr, reply, hc⟩, rfl,
          fun k => mem_replacement_keys⟩

theorem run_snoc {t : Nat}
    (hr : Run step (Accepted member) System.empty h t s) (now : Nat) (r : Request ω κ μ)
    (hle : t ≤ now) (hprom : Promised member r) (hlive : s.state.all (Cell.live now) = true) :
    Run step (Accepted member) System.empty (h ++ [⟨now, r, (step now r s).2⟩]) now
      (step now r s).1 := by
  refine .snoc now r hr hle ⟨hprom, fun t' s' hr' c hc => ?_⟩
  have hs := (Run.unique (hr.mono fun _ _ _ hok => hok.1) hr').2
  rw [← hs, hc] at hlive
  simpa using hlive

/-- What one step of a run, from `s` to `s'`, may do to the state key and to the sets. -/
structure Linearized (member : μ) (pre : List (Record ω κ μ)) (e : Record ω κ μ)
    (s s' : System ω κ μ) : Prop where
  monotone : ∀ c, content s.state = some c →
    ∃ c', content s'.state = some c' ∧ c.revision ≤ c'.revision
  applied : ∀ p counts, e.reply = some (p, .applied counts) →
    ∀ c, content s.state = some c → c.revision < p.revision
  listed : ∀ k x, field (s'.sets k) member = some x →
    ∃ c, content s'.state = some c ∧ k ∈ c.keys
  replayed : ∀ p counts, e.reply = some (p, .replayed counts) → ∃ c p',
    content s.state = some c ∧ Wrote member pre p' (p'.membershipKeys.map c.count) c ∧
      c.revision = p.revision ∧ printed p'.revision = p.revision ∧
      (p'.revision < 10 ^ 14 → p'.revision = p.revision) ∧
      counts = p.membershipKeys.map c.count ∧ ∀ k, k ∈ p.membershipKeys ↔ k ∈ p'.membershipKeys
  unchanged : (∀ p counts, e.reply ≠ some (p, .applied counts)) →
    (∀ k m score, e.request ≠ .other k m score) →
    s'.state = s.state ∧ ∀ k, s'.sets k = purge e.now (s.sets k)

/-- Every step of every run is linearized: the stored revision never decreases, a call applies only
a greater revision, the member is only in listed sets, a replay repeats the counts of the write
that stored its revision, and a step that applies nothing changes nothing. -/
theorem replacement_linearizable {member : μ} {h : List (Record ω κ μ)} {t : Nat}
    {s : System ω κ μ} (hr : Run step (Accepted member) System.empty h t s) :
    ∀ pre e post, h = pre ++ [e] ++ post → ∃ t₁ s₁,
      Run step (Accepted member) System.empty pre t₁ s₁ ∧
      Linearized member pre e s₁ (step e.now e.request s₁).1 := by
  rintro pre e post rfl
  obtain ⟨t', s', hr', -⟩ := hr.of_append
  have hafter := membership_invariant hr'
  obtain ⟨t₁, s₁, hr₁, hle, hok, -, hrep, rfl⟩ := hr'.snoc_inv
  have hinv := membership_invariant hr₁
  have hcall : ∀ w p, e.request = .call w p → p.member = member := by
    intro w p hreq
    have hprom := hok.1
    rwa [hreq] at hprom
  obtain ⟨he, -⟩ := step_effect e.now e.request hcall hinv.callers
  rw [← hrep] at he
  have hstate := hok.purge_state hr₁
  refine ⟨t₁, s₁, hr₁, ?_, ?_, hafter.listed, ?_, ?_⟩
  · intro c hc
    cases he with
    | quiet state => exact ⟨c, by rw [state, hstate, hc], Nat.le_refl _⟩
    | other _ _ _ _ state => exact ⟨c, by rw [state, hstate, hc], Nat.le_refl _⟩
    | writes p raw caller read newer state =>
      refine ⟨_, state, ?_⟩
      rw [hstate, hc] at read
      obtain ⟨p', -, hrev, -⟩ := hinv.written c hc
      have hlt := newer c read.symm
      calc c.revision = printed c.revision := by rw [hrev, printed_printed]
        _ ≤ printed p.revision := printed_mono (Nat.le_of_lt hlt)
  · intro p counts ho c hc
    cases he with
    | quiet _ _ applied => exact absurd ho (applied p counts)
    | other _ _ _ _ _ _ reply => simp [reply] at ho
    | writes p' raw caller read newer state sets reply =>
      rw [reply, Option.some.injEq, Prod.mk.injEq] at ho
      rw [hstate, hc] at read
      rw [← ho.1]
      exact newer c read.symm
  · intro p counts ho
    cases he with
    | quiet _ _ _ replayed =>
      obtain ⟨c, hc, hrev, hcounts, hkeys⟩ := replayed p counts ho
      rw [hstate] at hc
      obtain ⟨p', hw, hrev', hkeys'⟩ := hinv.written c hc
      refine ⟨c, p', hc, hw, hrev, hrev'.symm.trans hrev, fun hlt => ?_, hcounts,
        fun k => (hkeys k).trans (hkeys' k)⟩
      rw [← hrev, hrev', printed_of_lt hlt]
    | other _ _ _ _ _ _ reply => simp [reply] at ho
    | writes p' raw caller read newer state sets reply => simp [reply] at ho
  · intro hno hother
    cases he with
    | quiet state sets => exact ⟨state.trans hstate, fun k => congrFun sets k⟩
    | other k m score request => exact absurd request (hother k m score)
    | writes p raw _ _ _ _ _ reply => exact absurd reply (hno _ _)

end Script

/-- Two callers read the missing state; the slower one finds it changed, reads again, and replaces
what the other one wrote. -/
theorem replacement_linearizable_two_callers :
    ∃ (h : List (Record Nat Nat Nat)) (t : Nat) (s : System Nat Nat Nat),
      Run step (Accepted 7) System.empty h t s ∧
      h.filterMap (·.reply.map Prod.snd) = [.applied [1, 1], .applied [1]] ∧
      ∀ pre e post, h = pre ++ [e] ++ post → ∃ t₁ s₁,
        Run step (Accepted 7) System.empty pre t₁ s₁ ∧
        Linearized 7 pre e s₁ (step e.now e.request s₁).1 := by
  let p : Params Nat Nat := ⟨7, 1000, none, [1, 2], 60, 120, none, 9000, none⟩
  let p' : Params Nat Nat := ⟨7, 2000, none, [2], 60, 120, none, 9000, none⟩
  have hr₀ : Run step (Accepted 7) (System.empty : System Nat Nat Nat) [] 0 System.empty := .nil
  have hr₁ := run_snoc hr₀ 3000 (.call 0 p) (by decide) rfl (by decide +kernel)
  have hr₂ := run_snoc hr₁ 3000 (.call 1 p') (by decide) rfl (by decide +kernel)
  have hr₃ := run_snoc hr₂ 3001 (.resume 0 3001 3002) (by decide) trivial (by decide +kernel)
  have hr₄ := run_snoc hr₃ 3002 (.resume 1 3001 3002) (by decide) trivial (by decide +kernel)
  have hr₅ := run_snoc hr₄ 3003 (.resume 0 3003 3003) (by decide) trivial (by decide +kernel)
  have hr₆ := run_snoc hr₅ 3004 (.resume 1 3003 3003) (by decide) trivial (by decide +kernel)
  have hr₇ := run_snoc hr₆ 3005 (.resume 1 3004 3005) (by decide) trivial (by decide +kernel)
  have hr₈ := run_snoc hr₇ 3006 (.resume 1 3006 3006) (by decide) trivial (by decide +kernel)
  exact ⟨_, _, _, hr₈, by decide +kernel, replacement_linearizable hr₈⟩

end Maxim.Moderation.RevisionedMembership
