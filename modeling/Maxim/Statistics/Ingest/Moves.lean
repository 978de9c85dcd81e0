import Maxim.Library.Fallible
import Maxim.Statistics.Ingest.Store
import Mathlib.Logic.Relation

/-!
# What a transaction changes

A request changes the rows by a few kinds of moves, each with the guard under
which the code makes it. Whatever the moves keep, every request keeps.
-/

namespace Maxim.Statistics.Ingest

open Maxim.Library Relation

variable {δ : Type}

/-- A replacement with its content, or a deletion. -/
def dayOperation (key : DayKey) (sourceRevision : Nat) (authority : Authority) :
    Option (Value × Coverage) → Operation
  | some content => .replaceDay key sourceRevision authority content.1 content.2
  | none => .deleteDay key sourceRevision authority

/-- One change of the rows on behalf of a request. -/
inductive Moved (hash : Subject → δ) (request : IngestRequest) (s : Rows δ) : Rows δ → Prop
  | touched (cause : Cause) : Moved hash request s (s.touch cause)
  | reported (key : String) (entry : HealthEntry δ)
      (hnew : ∀ old, s.health key = some old → old.revision < entry.revision) :
      Moved hash request s (s.reportHealth key entry)
  | superseded (event : MembershipEvent) (old : FactRow δ)
      (hnew : s.events event.eventId = none)
      (hold : s.measurements (membershipDay event.eventAt.day) = some old)
      (hfence : event.capturedRevision ≤ old.deleteFence) :
      Moved hash request s
        (s.recordEvent event.eventId (eventRecord hash request event .superseded))
  | counted (authority : Authority) (event : MembershipEvent)
      (hpos : 0 < event.capturedRevision) (hnew : s.events event.eventId = none)
      (hfence : ∀ old, s.measurements (membershipDay event.eventAt.day) = some old →
        old.deleteFence < event.capturedRevision) :
      Moved hash request s
        ((s.write (membershipDay event.eventAt.day) (eventRow hash request authority event
          (s.measurements (membershipDay event.eventAt.day)))).recordEvent event.eventId
            (eventRecord hash request event .applied))
  | skipped (key : DayKey) (sourceRevision : Nat) (content : Value × Coverage) (old : FactRow δ)
      (hold : s.measurements key = some old) (hnew : old.seenRevision < sourceRevision)
      (hless : losesComplete old (some content) = true) :
      Moved hash request s
        (s.write key (old.seen sourceRevision (hash (.fact key sourceRevision (some content)))))
  | stored (key : DayKey) (sourceRevision : Nat) (authority : Authority)
      (content : Option (Value × Coverage))
      (hop : dayOperation key sourceRevision authority content ∈ request.operations)
      (hscope : content.isSome = true → key.scope ≠ membershipScope)
      (hnew : ∀ old, s.measurements key = some old →
        old.seenRevision < sourceRevision ∧ losesComplete old content = false) :
      Moved hash request s (s.write key
        (dayRow hash request key sourceRevision authority content (s.measurements key)))

abbrev Moves (hash : Subject → δ) (request : IngestRequest) : Rows δ → Rows δ → Prop :=
  ReflTransGen (Moved hash request)

/-- What every move keeps, the moves of a request keep. -/
theorem Moves.keeps {hash : Subject → δ} {request : IngestRequest} {I : Rows δ → Prop}
    (hmove : ∀ s s', Moved hash request s s' → I s → I s') {s s' : Rows δ}
    (h : Moves hash request s s') (hs : I s) : I s' := by
  induction h with
  | refl => exact hs
  | tail _ hlast ih => exact hmove _ _ hlast ih

section Handlers

variable [DecidableEq δ] {hash : Subject → δ} {clock : Clock} {request : IngestRequest}

/-- An operation that its scope has already seen at this revision or a later one. -/
def Old (status : Status) : Prop := status = .duplicate ∨ status = .superseded

variable {index sourceRevision : Nat} {p p' : Tx δ}

theorem reportHealth_cases {scope : MetricKey} {health : Health}
    (h : reportHealth hash clock request index scope sourceRevision health p = .ok p') :
    (∃ old result, p.rows.health (keyOf scope) = some old ∧ sourceRevision ≤ old.revision ∧
        (sourceRevision = old.revision →
          old.hash = hash (.health (keyOf scope) health sourceRevision)) ∧
        Old result.status ∧ p' = p.answer result) ∨
      (∀ old, p.rows.health (keyOf scope) = some old → old.revision < sourceRevision) ∧
        p' = p.apply (p.rows.reportHealth (keyOf scope)
          ⟨sourceRevision, hash (.health (keyOf scope) health sourceRevision), health⟩) .data
          ⟨index, .applied, some sourceRevision, none, none⟩ := by
  unfold reportHealth at h
  dsimp only at h
  split at h
  · cases h
  cases hold : p.rows.health (keyOf scope) with
  | none =>
    rw [hold] at h
    exact .inr ⟨by simp, (Except.ok.inj h).symm⟩
  | some old =>
    rw [hold] at h
    dsimp only at h
    split at h
    · next hlt =>
      exact .inl ⟨old, _, rfl, Nat.le_of_lt hlt, fun heq => absurd heq (Nat.ne_of_lt hlt), .inr rfl,
        (Except.ok.inj h).symm⟩
    · next hge =>
      split at h
      · next heq =>
        split at h
        · cases h
        · next hdigest =>
          exact .inl ⟨old, _, rfl, Nat.le_of_eq heq, fun _ => not_not.mp hdigest, .inl rfl,
            (Except.ok.inj h).symm⟩
      · next hne =>
        refine .inr ⟨fun old' hold' => ?_, (Except.ok.inj h).symm⟩
        rw [← Option.some.inj hold']
        omega

variable {authority : Authority}

theorem addEvent_cases {out : Bool} {event : MembershipEvent}
    {b b' : Batch δ} (h : addEvent hash request out authority event b = .ok b') :
    (∃ prior, b.rows.events event.eventId = some prior ∧
        prior.bodyHash = hash (.event request.entity event) ∧
        b' = { b with duplicate := b.duplicate + 1 }) ∨
      (∃ old, b.rows.events event.eventId = none ∧
        b.rows.measurements (membershipDay event.eventAt.day) = some old ∧
        event.capturedRevision ≤ old.deleteFence ∧
        b' = { b with
          rows := b.rows.recordEvent event.eventId (eventRecord hash request event .superseded)
          high := max b.high event.capturedRevision }) ∨
      b.rows.events event.eventId = none ∧
        (∀ old, b.rows.measurements (membershipDay event.eventAt.day) = some old →
          old.deleteFence < event.capturedRevision) ∧
        b' = { b with
          rows := (b.rows.write (membershipDay event.eventAt.day) (eventRow hash request authority
            event (b.rows.measurements (membershipDay event.eventAt.day)))).recordEvent
              event.eventId (eventRecord hash request event .applied)
          accepted := b.accepted + 1
          high := max b.high event.capturedRevision } := by
  unfold addEvent at h
  dsimp only at h
  split at h
  · cases h
  cases hprior : b.rows.events event.eventId with
  | some prior =>
    rw [hprior] at h
    dsimp only at h
    split at h
    · cases h
    · next hdigest => exact .inl ⟨prior, rfl, not_not.mp hdigest, (Except.ok.inj h).symm⟩
  | none =>
    rw [hprior] at h
    dsimp only at h
    split at h
    · next hold =>
      obtain ⟨old, hold, hle⟩ := (Option.any_eq_true _ _).mp hold
      exact .inr (.inl ⟨old, rfl, hold, by simpa using hle, (Except.ok.inj h).symm⟩)
    · next hfence =>
      split at h
      · cases h
      · refine .inr (.inr ⟨rfl, fun old hold => ?_, (Except.ok.inj h).symm⟩)
        rw [hold] at hfence
        simpa using hfence

theorem storeDay_cases {key : DayKey}
    {content : Option (Value × Coverage)}
    (h : storeDay hash request index key sourceRevision authority content p = .ok p') :
    (∃ old result, p.rows.measurements key = some old ∧ sourceRevision ≤ old.seenRevision ∧
        (sourceRevision = old.seenRevision →
          old.seenHash = hash (.fact key sourceRevision content)) ∧
        Old result.status ∧ p' = p.answer result) ∨
      (∃ old result, p.rows.measurements key = some old ∧ old.seenRevision < sourceRevision ∧
        losesComplete old content = true ∧ result.status = .skippedIncomplete ∧
        p' = Tx.answer { p with
          rows := p.rows.write key
            (old.seen sourceRevision (hash (.fact key sourceRevision content))) } result) ∨
      (∀ old, p.rows.measurements key = some old →
          old.seenRevision < sourceRevision ∧ losesComplete old content = false) ∧
        ∃ cause, p' = p.apply (p.rows.write key (dayRow hash request key sourceRevision authority
          content (p.rows.measurements key))) cause
            ⟨index, .applied, some sourceRevision, some sourceRevision, none⟩ := by
  unfold storeDay at h
  dsimp only at h
  cases hold : p.rows.measurements key with
  | none =>
    rw [hold] at h
    exact .inr (.inr ⟨by simp, _, (Except.ok.inj h).symm⟩)
  | some old =>
    rw [hold] at h
    dsimp only at h
    split at h
    · cases h
    split at h
    · next hlt =>
      exact .inl ⟨old, _, rfl, Nat.le_of_lt hlt, fun heq => absurd heq (Nat.ne_of_lt hlt), .inr rfl,
        (Except.ok.inj h).symm⟩
    split at h
    · next heq =>
      split at h
      · cases h
      · next hdigest =>
        exact .inl ⟨old, _, rfl, Nat.le_of_eq heq, fun _ => not_not.mp hdigest, .inl rfl,
          (Except.ok.inj h).symm⟩
    split at h
    · next hless =>
      exact .inr (.inl ⟨old, _, rfl, by omega, hless, rfl, (Except.ok.inj h).symm⟩)
    · next hkeep =>
      refine .inr (.inr ⟨fun old' hold' => ?_, _, (Except.ok.inj h).symm⟩)
      rw [← Option.some.inj hold']
      exact ⟨by omega, by simpa using hkeep⟩

theorem addEventsFrom_moves {position : Nat}
    {events : List MembershipEvent} {b b' : Batch δ}
    (hpos : ∀ event ∈ events, 0 < event.capturedRevision)
    (h : addEventsFrom hash clock request index authority position events b = .ok b') :
    Moves hash request b.rows b'.rows := by
  induction events generalizing position b with
  | nil =>
    rw [← Except.ok.inj h]
  | cons event events ih =>
    obtain ⟨c, hevent, hrest⟩ := bind_eq_ok.mp h
    have hrest := ih (fun e he => hpos e (List.mem_cons_of_mem _ he)) hrest
    refine ReflTransGen.trans ?_ hrest
    rcases addEvent_cases hevent with ⟨prior, _, _, rfl⟩ | ⟨old, hnew, hold, hfence, rfl⟩ |
      ⟨hnew, hfence, rfl⟩
    · exact .refl
    · exact .single (.superseded event old hnew hold hfence)
    · exact .single (.counted authority event (hpos event List.mem_cons_self) hnew hfence)

theorem addEvents_moves {events : List MembershipEvent}
    (hpos : ∀ event ∈ events, 0 < event.capturedRevision)
    (h : addEvents hash clock request index authority events p = .ok p') :
    Moves hash request p.rows p'.rows := by
  obtain ⟨b, hb, h⟩ := bind_eq_ok.mp h
  have hmoves := addEventsFrom_moves hpos hb
  dsimp only at h
  split at h
  · rw [← Except.ok.inj h]
    exact hmoves.tail (.touched .data)
  · rw [← Except.ok.inj h]
    exact hmoves

theorem storeDay_moves {key : DayKey}
    {content : Option (Value × Coverage)}
    (hop : dayOperation key sourceRevision authority content ∈ request.operations)
    (hscope : content.isSome = true → key.scope ≠ membershipScope)
    (h : storeDay hash request index key sourceRevision authority content p = .ok p') :
    Moves hash request p.rows p'.rows := by
  rcases storeDay_cases h with ⟨old, result, -, -, -, -, rfl⟩ |
    ⟨old, result, hold, hnew, hless, -, rfl⟩ | ⟨hnew, cause, rfl⟩
  · exact .refl
  · cases content with
    | none => cases hless
    | some content => exact .single (.skipped key sourceRevision content old hold hnew hless)
  · exact ReflTransGen.tail (.single (.stored key sourceRevision authority content hop hscope
      hnew)) (.touched cause)

/-- The membership counters are never replaced. -/
theorem scope_ne_membership {scope : MetricKey} {value : Value}
    (h : valueSchema scope value = true) : scope ≠ membershipScope := by
  intro hscope
  rw [hscope] at h
  cases value <;> simp [valueSchema, membershipScope, audienceScope, externalScope, currentScope,
    timedScope, recentScope, publicationScope] at h

theorem operate_moves {op : Operation}
    (hmem : op ∈ request.operations) (hop : operationSchema op = true)
    (h : operate hash clock request index op p = .ok p') :
    Moves hash request p.rows p'.rows := by
  cases op with
  | reportHealth scope sourceRevision authority health =>
    rcases reportHealth_cases h with ⟨old, result, -, -, -, -, rfl⟩ | ⟨hnew, rfl⟩
    · exact .refl
    · exact ReflTransGen.tail (.single (.reported _ _ hnew)) (.touched .data)
  | addEvents authority events =>
    simp only [operationSchema, eventSchema, positive, Bool.and_eq_true, List.all_eq_true,
      decide_eq_true_eq] at hop
    exact addEvents_moves (fun event hevent => (hop.2 event hevent).1.1) h
  | replaceDay key sourceRevision authority value coverage =>
    simp only [operationSchema, Bool.and_eq_true] at hop
    unfold operate at h
    dsimp only at h
    split at h
    · cases h
    split at h
    · cases h
    have hday : dayOperation key sourceRevision authority (some (value, coverage)) ∈
        request.operations := hmem
    exact storeDay_moves hday (fun _ => scope_ne_membership hop.1.1.1) h
  | deleteDay key sourceRevision authority =>
    unfold operate at h
    dsimp only at h
    split at h
    · cases h
    have hday : dayOperation key sourceRevision authority none ∈ request.operations := hmem
    exact storeDay_moves hday (by simp) h

theorem operateFrom_moves {ops : List Operation}
    (hops : ∀ op ∈ ops, op ∈ request.operations ∧ operationSchema op = true)
    (h : operateFrom hash clock request index ops p = .ok p') :
    Moves hash request p.rows p'.rows := by
  induction ops generalizing index p with
  | nil => rw [← Except.ok.inj h]
  | cons op ops ih =>
    obtain ⟨q, hq, hrest⟩ := bind_eq_ok.mp h
    obtain ⟨hmem, hschema⟩ := hops op List.mem_cons_self
    exact (operate_moves hmem hschema hq).trans
      (ih (fun op' hop' => hops op' (List.mem_cons_of_mem _ hop')) hrest)

/-- A request that succeeds was answered before, or moves the rows and is recorded. -/
theorem transact_cases {s s' : Rows δ} {result : IngestResult}
    (h : transact hash clock request s = .ok (s', result)) :
    (∃ receipt, s.requests request.requestId = some receipt ∧
        receipt.bodyHash = hash (.request request) ∧ s' = s ∧ result = receipt.result) ∨
      s.requests request.requestId = none ∧
        ∃ p, operateFrom hash clock request 0 request.operations ⟨s, s.dataRevision, []⟩ = .ok p ∧
          result = ⟨request.requestId, p.revision, p.results⟩ ∧
          s' = p.rows.recordRequest request.requestId ⟨hash (.request request), result⟩ := by
  unfold transact at h
  cases hreceipt : s.requests request.requestId with
  | some receipt =>
    rw [hreceipt] at h
    dsimp only at h
    split at h
    · cases h
    · next hbody =>
      obtain ⟨rfl, rfl⟩ := Prod.mk.inj (Except.ok.inj h)
      exact .inl ⟨receipt, rfl, not_not.mp hbody, rfl, rfl⟩
  | none =>
    rw [hreceipt] at h
    obtain ⟨p, hp, h⟩ := bind_eq_ok.mp h
    obtain ⟨rfl, rfl⟩ := Prod.mk.inj (Except.ok.inj h)
    exact .inr ⟨rfl, p, hp, rfl, rfl⟩

theorem ingest_eq_ok {s s' : Rows δ} {result : IngestResult} :
    ingest hash clock request s = (s', .ok result) ↔
      transact hash clock request s = .ok (s', result) := by
  unfold ingest
  cases transact hash clock request s with
  | error failure => simp
  | ok done => simp [Prod.ext_iff]

theorem ingest_eq_error {s s' : Rows δ} {failure : StatsFailure} :
    ingest hash clock request s = (s', .error failure) ↔
      transact hash clock request s = .error failure ∧ s' = s := by
  unfold ingest
  cases transact hash clock request s with
  | error failure => simp [eq_comm, and_comm]
  | ok done => simp

end Handlers

end Maxim.Statistics.Ingest
