import Maxim.Statistics.Ingest.Idempotent

/-!
# Membership days that converge

The events of a day and its deletions arrive in any order. A deletion takes
effect when nothing delivered before it has a greater revision; the day counts
the events that were captured after the last such deletion. So the day is the
same in every order only if no event lies between that deletion and the last of
all.
-/

namespace Maxim.Statistics.Ingest

open Maxim.Library Relation

/-- What is delivered to a membership day. -/
inductive Delivery
  | event (e : MembershipEvent)
  | delete (sourceRevision : Nat)
  deriving DecidableEq

def Delivery.revision : Delivery → Nat
  | .event e => e.capturedRevision
  | .delete sourceRevision => sourceRevision

/-- The deliveries of an operation to a day. -/
def deliveriesOf (day : StatsDay) : Operation → List Delivery
  | .addEvents _ events => (events.filter (·.eventAt.day = day)).map .event
  | .deleteDay key sourceRevision _ =>
    if key = membershipDay day then [.delete sourceRevision] else []
  | _ => []

/-- A call that succeeded and whose request was not answered before. -/
def isFresh (h : List (Entry Call Reply)) (e : Entry Call Reply) : Bool :=
  e.reply.toBool && h.all fun x =>
    !(x.reply.toBool && x.request.request.requestId = e.request.request.requestId)

/-- The deliveries of the second part of a history, in their order. -/
def deliveriesFrom (day : StatsDay) :
    List (Entry Call Reply) → List (Entry Call Reply) → List Delivery
  | _, [] => []
  | pre, e :: post =>
    (if isFresh pre e then e.request.request.operations.flatMap (deliveriesOf day) else []) ++
      deliveriesFrom day (pre ++ [e]) post

def deliveries (day : StatsDay) (h : List (Entry Call Reply)) : List Delivery :=
  deliveriesFrom day [] h

/-- Two deliveries with distinct event ids or revisions. Two events may share a revision. -/
def Apart : Delivery → Delivery → Prop
  | .event e, .event e' => e.eventId ≠ e'.eventId
  | x, y => x.revision ≠ y.revision

def Effective (d : Nat) (l : List Delivery) : Prop :=
  ∃ pre post, l = pre ++ .delete d :: post ∧ ∀ x ∈ pre, x.revision < d

/-- The greatest revision of a deletion, zero if there is none. -/
def lastDelete : List Delivery → Nat
  | [] => 0
  | .delete d :: l => max d (lastDelete l)
  | .event _ :: l => lastDelete l

/-- An event of this kind that was captured after `fence`. -/
def countsAfter (fence : Nat) (type : EventType) : Delivery → Bool
  | .event e => e.eventType = type && fence < e.capturedRevision
  | .delete _ => false

theorem deliveriesFrom_snoc (day : StatsDay) (pre post : List (Entry Call Reply))
    (e : Entry Call Reply) : deliveriesFrom day pre (post ++ [e]) =
      deliveriesFrom day pre post ++ (if isFresh (pre ++ post) e then
        e.request.request.operations.flatMap (deliveriesOf day) else []) := by
  induction post generalizing pre with
  | nil => simp [deliveriesFrom]
  | cons x post ih =>
    rw [List.cons_append, deliveriesFrom, ih, deliveriesFrom, List.append_assoc, List.append_assoc]
    rfl

theorem deliveries_snoc (day : StatsDay) (h : List (Entry Call Reply)) (e : Entry Call Reply) :
    deliveries day (h ++ [e]) = deliveries day h ++ (if isFresh h e then
      e.request.request.operations.flatMap (deliveriesOf day) else []) :=
  deliveriesFrom_snoc day [] h e

/-! ## Effective deletions -/

theorem effective_snoc {d : Nat} {l : List Delivery} {x : Delivery} :
    Effective d (l ++ [x]) ↔ Effective d l ∨ x = .delete d ∧ ∀ y ∈ l, y.revision < d := by
  constructor
  · rintro ⟨pre, post, heq, hlt⟩
    rcases List.eq_nil_or_concat post with rfl | ⟨post, z, rfl⟩
    · obtain ⟨rfl, hlast⟩ := List.append_inj' heq rfl
      exact .inr ⟨List.singleton_inj.mp hlast, hlt⟩
    · rw [List.concat_eq_append, ← List.cons_append, ← List.append_assoc,
        List.append_singleton_inj] at heq
      exact .inl ⟨pre, post, heq.1, hlt⟩
  · rintro (⟨pre, post, rfl, hlt⟩ | ⟨rfl, hlt⟩)
    · exact ⟨pre, post ++ [x], by simp, hlt⟩
    · exact ⟨l, [], rfl, hlt⟩

theorem Effective.mem {d : Nat} {l : List Delivery} (h : Effective d l) : .delete d ∈ l := by
  obtain ⟨pre, post, rfl, -⟩ := h
  exact List.mem_append_right _ List.mem_cons_self

theorem le_lastDelete {d : Nat} {l : List Delivery} (h : .delete d ∈ l) : d ≤ lastDelete l := by
  induction l with
  | nil => cases h
  | cons x l ih =>
    cases x with
    | event e =>
      rcases List.mem_cons.mp h with heq | h
      · cases heq
      · exact ih h
    | delete d' =>
      rcases List.mem_cons.mp h with heq | h
      · rw [Delivery.delete.inj heq]
        exact Nat.le_max_left _ _
      · exact Nat.le_trans (ih h) (Nat.le_max_right _ _)

theorem lastDelete_mem {l : List Delivery} (h : lastDelete l ≠ 0) : .delete (lastDelete l) ∈ l := by
  induction l with
  | nil => exact absurd rfl h
  | cons x l ih =>
    cases x with
    | event e => exact List.mem_cons_of_mem _ (ih h)
    | delete d =>
      rcases Nat.le_total (lastDelete l) d with hle | hle
      · rw [lastDelete, Nat.max_eq_left hle]
        exact List.mem_cons_self
      · rw [lastDelete, Nat.max_eq_right hle] at h ⊢
        exact List.mem_cons_of_mem _ (ih h)

variable {δ : Type} {hash : Subject → δ} {request : IngestRequest} {s s' : Rows δ}
  {day : StatsDay} {l : List Delivery}

/-! ## The day follows its deliveries -/

/-- The row of a day after the deliveries `l`. -/
structure RowTracks (l : List Delivery) (row : FactRow δ) : Prop where
  seen_ge : ∀ x ∈ l, x.revision ≤ row.seenRevision
  seen_mem : ∃ x ∈ l, x.revision = row.seenRevision
  fence : row.deleteFence = 0 ∨ Effective row.deleteFence l
  fence_ge : ∀ d, Effective d l → d ≤ row.deleteFence
  deleted : row.deleted = true ↔ ∀ e, .event e ∈ l → e.capturedRevision ≤ row.deleteFence

/-- The day after the deliveries `l`. -/
structure Tracks (hash : Subject → δ) (entity : Entity) (day : StatsDay) (l : List Delivery)
    (s : Rows δ) : Prop where
  row : ∀ row, s.measurements (membershipDay day) = some row → RowTracks l row
  noRow : s.measurements (membershipDay day) = none → l = []
  pos : ∀ x ∈ l, 0 < x.revision
  onDay : ∀ e, .event e ∈ l → e.eventAt.day = day
  recorded : ∀ e, .event e ∈ l → ∃ record, s.events e.eventId = some record ∧
    record.bodyHash = hash (.event entity e)
  delivered : ∀ id record entity' e, s.events id = some record →
    record.bodyHash = hash (.event entity' e) → e.eventAt.day = day → .event e ∈ l

theorem tracks_initial (entity : Entity) : Tracks hash entity day [] (Rows.initial : Rows δ) := by
  constructor <;> simp [Rows.initial]

theorem Tracks.congr {entity : Entity} (h : Tracks hash entity day l s)
    (hm : s'.measurements (membershipDay day) = s.measurements (membershipDay day))
    (he : s'.events = s.events) : Tracks hash entity day l s' where
  row row hrow := h.row row (hm.symm.trans hrow)
  noRow hrow := h.noRow (hm.symm.trans hrow)
  pos := h.pos
  onDay := h.onDay
  recorded e hmem := by
    rw [he]
    exact h.recorded e hmem
  delivered id record entity' e hrecord := by
    rw [he] at hrecord
    exact h.delivered id record entity' e hrecord

theorem RowTracks.snoc_delete {row : FactRow δ} {d : Nat}
    (hlt : ∀ x ∈ l, x.revision < d) (hseen : row.seenRevision = d) (hfence : row.deleteFence = d)
    (hdeleted : row.deleted = true) : RowTracks (l ++ [.delete d]) row where
  seen_ge x hx := by
    rcases List.mem_append.mp hx with hx | hx
    · have := hlt x hx
      omega
    · rw [List.mem_singleton.mp hx, hseen]
      exact Nat.le_refl d
  seen_mem := ⟨.delete d, List.mem_append_right _ List.mem_cons_self, hseen.symm⟩
  fence := .inr (effective_snoc.mpr (.inr ⟨by rw [hfence], by rwa [hfence]⟩))
  fence_ge d' hd' := by
    rcases effective_snoc.mp hd' with hd' | ⟨heq, -⟩
    · have := hlt _ hd'.mem
      rw [Delivery.revision] at this
      omega
    · rw [hfence, Delivery.delete.inj heq]
  deleted := by
    refine ⟨fun _ e he => ?_, fun _ => hdeleted⟩
    rcases List.mem_append.mp he with he | he
    · have := hlt _ he
      rw [Delivery.revision] at this
      omega
    · cases List.mem_singleton.mp he

theorem RowTracks.snoc_superseded {row : FactRow δ} (h : RowTracks l row) {x : Delivery}
    (hle : x.revision ≤ row.seenRevision)
    (hfenced : ∀ e, x = .event e → e.capturedRevision ≤ row.deleteFence) :
    RowTracks (l ++ [x]) row where
  seen_ge y hy := by
    rcases List.mem_append.mp hy with hy | hy
    · exact h.seen_ge y hy
    · rw [List.mem_singleton.mp hy]
      exact hle
  seen_mem := by
    obtain ⟨y, hy, heq⟩ := h.seen_mem
    exact ⟨y, List.mem_append_left _ hy, heq⟩
  fence := h.fence.imp_right fun hf => effective_snoc.mpr (.inl hf)
  fence_ge d hd := by
    rcases effective_snoc.mp hd with hd | ⟨rfl, hlt⟩
    · exact h.fence_ge d hd
    · obtain ⟨y, hy, heq⟩ := h.seen_mem
      have := hlt y hy
      rw [Delivery.revision] at hle
      omega
  deleted := by
    rw [h.deleted]
    constructor
    · intro hall e he
      rcases List.mem_append.mp he with he | he
      · exact hall e he
      · exact hfenced e (List.mem_singleton.mp he).symm
    · exact fun hall e he => hall e (List.mem_append_left _ he)

theorem effective_snoc_event {d : Nat} {e : MembershipEvent} :
    Effective d (l ++ [.event e]) ↔ Effective d l := by
  rw [effective_snoc]
  simp

theorem snoc_counted (authority : Authority) {event : MembershipEvent} {old : Option (FactRow δ)}
    (hold : ∀ row, old = some row → RowTracks l row) (hnone : old = none → l = [])
    (hfence : ∀ row, old = some row → row.deleteFence < event.capturedRevision)
    (hpos : 0 < event.capturedRevision) :
    RowTracks (l ++ [.event event]) (eventRow hash request authority event old) := by
  have hlt : (eventRow hash request authority event old).deleteFence < event.capturedRevision := by
    cases old with
    | none => exact hpos
    | some row => exact hfence row rfl
  constructor
  · intro x hx
    rcases List.mem_append.mp hx with hx | hx
    · cases old with
      | none => simp [hnone rfl] at hx
      | some row => exact Nat.le_trans ((hold row rfl).seen_ge x hx) (Nat.le_max_left _ _)
    · rw [List.mem_singleton.mp hx]
      exact Nat.le_max_right _ _
  · cases old with
    | none =>
      exact ⟨.event event, List.mem_append_right _ List.mem_cons_self, (Nat.zero_max _).symm⟩
    | some row =>
      obtain ⟨x, hx, heq⟩ := (hold row rfl).seen_mem
      rcases Nat.le_total row.seenRevision event.capturedRevision with hle | hle
      · exact ⟨.event event, List.mem_append_right _ List.mem_cons_self,
          (Nat.max_eq_right hle).symm⟩
      · exact ⟨x, List.mem_append_left _ hx, heq.trans (Nat.max_eq_left hle).symm⟩
  · cases old with
    | none => exact .inl rfl
    | some row => exact (hold row rfl).fence.imp_right effective_snoc_event.mpr
  · intro d hd
    rw [effective_snoc_event] at hd
    cases old with
    | none =>
      have hmem := hd.mem
      simp [hnone rfl] at hmem
    | some row => exact (hold row rfl).fence_ge d hd
  · refine ⟨nofun, fun hall => ?_⟩
    have := hall event (List.mem_append_right _ List.mem_cons_self)
    omega

/-! ## Operations -/

theorem RowTracks.fence_le {row : FactRow δ} (h : RowTracks l row) :
    row.deleteFence ≤ row.seenRevision := by
  rcases h.fence with hzero | heffective
  · omega
  · exact h.seen_ge _ heffective.mem

def deliveredBy (day : StatsDay) (event : MembershipEvent) : List Delivery :=
  if event.eventAt.day = day then [.event event] else []

/-- A new record of an event, of this day or of another one. -/
theorem Tracks.record (hinj : Function.Injective hash) {entity : Entity} {s₁ : Rows δ}
    (h : Tracks hash entity day l s) (hentity : request.entity = entity)
    (he : s₁.events = s.events) {event : MembershipEvent} (hpos : 0 < event.capturedRevision)
    (hnew : s.events event.eventId = none) (status : Status)
    (hrow : ∀ row, s₁.measurements (membershipDay day) = some row →
      RowTracks (l ++ deliveredBy day event) row)
    (hnone : s₁.measurements (membershipDay day) = none → l ++ deliveredBy day event = []) :
    Tracks hash entity day (l ++ deliveredBy day event)
      (s₁.recordEvent event.eventId (eventRecord hash request event status)) where
  row := hrow
  noRow := hnone
  pos x hx := by
    rcases List.mem_append.mp hx with hx | hx
    · exact h.pos x hx
    · unfold deliveredBy at hx
      split at hx
      · rw [List.mem_singleton.mp hx]
        exact hpos
      · cases hx
  onDay e hx := by
    rcases List.mem_append.mp hx with hx | hx
    · exact h.onDay e hx
    · unfold deliveredBy at hx
      split at hx
      · next hday => rwa [Delivery.event.inj (List.mem_singleton.mp hx)]
      · cases hx
  recorded e hx := by
    rw [events_recordEvent, he]
    rcases List.mem_append.mp hx with hx | hx
    · obtain ⟨record, hrecord, hbody⟩ := h.recorded e hx
      refine ⟨record, ?_, hbody⟩
      rw [if_neg fun hid => by rw [hid, hnew] at hrecord; cases hrecord]
      exact hrecord
    · unfold deliveredBy at hx
      split at hx
      · rw [Delivery.event.inj (List.mem_singleton.mp hx), if_pos rfl, ← hentity]
        exact ⟨_, rfl, rfl⟩
      · cases hx
  delivered id record entity' e hrecord hbody hday := by
    rw [events_recordEvent, he] at hrecord
    by_cases hid : id = event.eventId
    · rw [if_pos hid, Option.some.injEq] at hrecord
      rw [← hrecord] at hbody
      obtain ⟨-, rfl⟩ := Subject.event.inj (hinj hbody)
      refine List.mem_append_right _ ?_
      rw [deliveredBy, if_pos hday]
      exact List.mem_cons_self
    · rw [if_neg hid] at hrecord
      exact List.mem_append_left _ (h.delivered id record entity' e hrecord hbody hday)

section Handlers

variable [DecidableEq δ] {clock : Clock} {entity : Entity}

variable {authority : Authority}

theorem addEvent_tracks (hinj : Function.Injective hash) {out : Bool}
    {event : MembershipEvent} {b b' : Batch δ} (hentity : request.entity = entity)
    (hpos : 0 < event.capturedRevision) (h : Tracks hash entity day l b.rows)
    (hapart : ∀ x ∈ l, ∀ y ∈ deliveredBy day event, Apart x y)
    (hstep : addEvent hash request out authority event b = .ok b') :
    Tracks hash entity day (l ++ deliveredBy day event) b'.rows := by
  by_cases hday : event.eventAt.day = day
  · have hby : deliveredBy day event = [.event event] := if_pos hday
    rcases addEvent_cases hstep with ⟨prior, hprior, hbody, rfl⟩ |
      ⟨old, hnew, hold, hfence, rfl⟩ | ⟨hnew, hfence, rfl⟩
    · -- The event would have been delivered before.
      have hmem := h.delivered _ prior _ event hprior hbody hday
      rw [hby] at hapart
      exact absurd rfl (hapart _ hmem _ List.mem_cons_self)
    · rw [hday] at hold
      have hrow := h.row old hold
      refine h.record hinj hentity rfl hpos hnew .superseded (fun row hrow' => ?_) fun hnone => ?_
      · obtain rfl := Option.some.inj (hold.symm.trans hrow')
        rw [hby]
        refine hrow.snoc_superseded (Nat.le_trans hfence hrow.fence_le) fun e he => ?_
        rwa [← Delivery.event.inj he]
      · rw [hold] at hnone
        cases hnone
    · subst hday
      refine h.record hinj hentity ?_ hpos hnew .applied (fun row hrow => ?_) fun hnone => ?_
      · rfl
      · rw [measurements_write, if_pos rfl, Option.some.injEq] at hrow
        rw [← hrow, hby]
        exact snoc_counted authority h.row h.noRow hfence hpos
      · rw [measurements_write, if_pos rfl] at hnone
        cases hnone
  · have hby : deliveredBy day event = [] := if_neg hday
    rcases addEvent_cases hstep with ⟨prior, hprior, hbody, rfl⟩ |
      ⟨old, hnew, hold, hfence, rfl⟩ | ⟨hnew, hfence, rfl⟩
    · rw [hby, List.append_nil]
      exact h
    · refine h.record hinj hentity rfl hpos hnew .superseded ?_ ?_
      · rw [hby, List.append_nil]
        exact h.row
      · rw [hby, List.append_nil]
        exact h.noRow
    · have hkey : membershipDay day ≠ membershipDay event.eventAt.day :=
        fun heq => hday (membershipDay_injective heq).symm
      refine h.record hinj hentity ?_ hpos hnew .applied ?_ ?_
      · rfl
      · rw [measurements_write, if_neg hkey, hby, List.append_nil]
        exact h.row
      · rw [measurements_write, if_neg hkey, hby, List.append_nil]
        exact h.noRow

theorem deliveriesOf_cons (authority : Authority) (event : MembershipEvent)
    (events : List MembershipEvent) : deliveriesOf day (.addEvents authority (event :: events)) =
      deliveredBy day event ++ deliveriesOf day (.addEvents authority events) := by
  by_cases hday : event.eventAt.day = day
  · simp [deliveriesOf, deliveredBy, hday]
  · simp [deliveriesOf, deliveredBy, hday]

theorem addEventsFrom_tracks (hinj : Function.Injective hash) {index position : Nat}
    {events : List MembershipEvent} {b b' : Batch δ}
    (hentity : request.entity = entity) (hpos : ∀ event ∈ events, 0 < event.capturedRevision)
    (h : Tracks hash entity day l b.rows)
    (hapart : (l ++ deliveriesOf day (.addEvents authority events)).Pairwise Apart)
    (hstep : addEventsFrom hash clock request index authority position events b = .ok b') :
    Tracks hash entity day (l ++ deliveriesOf day (.addEvents authority events)) b'.rows := by
  induction events generalizing position b l with
  | nil =>
    rw [← Except.ok.inj hstep]
    simpa [deliveriesOf] using h
  | cons event events ih =>
    obtain ⟨c, hevent, hrest⟩ := bind_eq_ok.mp hstep
    rw [deliveriesOf_cons, ← List.append_assoc] at hapart ⊢
    have hpair := (List.pairwise_append.mp (List.pairwise_append.mp hapart).1).2.2
    have hnext := addEvent_tracks hinj hentity (hpos event List.mem_cons_self) h hpair hevent
    exact ih (fun e he => hpos e (List.mem_cons_of_mem _ he)) hnext hapart hrest

theorem storeDay_tracks {index sourceRevision : Nat} {p p' : Tx δ}
    (hpos : 0 < sourceRevision) (h : Tracks hash entity day l p.rows)
    (hstep : storeDay hash request index (membershipDay day) sourceRevision authority none p =
      .ok p') : Tracks hash entity day (l ++ [.delete sourceRevision]) p'.rows := by
  have hrest : ∀ s' : Rows δ, s'.events = p.rows.events →
      (∀ row, s'.measurements (membershipDay day) = some row →
        RowTracks (l ++ [.delete sourceRevision]) row) →
      s'.measurements (membershipDay day) ≠ none →
      Tracks hash entity day (l ++ [.delete sourceRevision]) s' := by
    intro s' he hrow hsome
    have hold : ∀ e, .event e ∈ l ++ [Delivery.delete sourceRevision] → .event e ∈ l := by
      intro e hmem
      rcases List.mem_append.mp hmem with hmem | hmem
      · exact hmem
      · cases List.mem_singleton.mp hmem
    refine ⟨hrow, fun hnone => absurd hnone hsome, fun x hx => ?_, fun e hmem => ?_,
      fun e hmem => ?_, fun id record entity' e hrecord hbody hday => ?_⟩
    · rcases List.mem_append.mp hx with hx | hx
      · exact h.pos x hx
      · rw [List.mem_singleton.mp hx]
        exact hpos
    · exact h.onDay e (hold e hmem)
    · rw [he]
      exact h.recorded e (hold e hmem)
    · rw [he] at hrecord
      exact List.mem_append_left _ (h.delivered id record entity' e hrecord hbody hday)
  rcases storeDay_cases hstep with ⟨old, result, hold, hle, -, -, rfl⟩ |
    ⟨old, result, -, -, hless, -, -⟩ | ⟨hnew, cause, rfl⟩
  · refine hrest _ rfl (fun row hrow => ?_) (by simp [Tx.answer, hold])
    obtain rfl := Option.some.inj (hold.symm.trans hrow)
    exact (h.row old hold).snoc_superseded hle fun e he => by cases he
  · cases hless
  · refine hrest _ rfl (fun row hrow => ?_) ?_
    · change (p.rows.write _ _).measurements _ = _ at hrow
      rw [measurements_write, if_pos rfl, Option.some.injEq] at hrow
      rw [← hrow]
      refine RowTracks.snoc_delete (fun x hx => ?_) rfl rfl rfl
      cases hold : p.rows.measurements (membershipDay day) with
      | none => simp [h.noRow hold] at hx
      | some old => exact Nat.lt_of_le_of_lt ((h.row old hold).seen_ge x hx) (hnew old hold).1
    · change (p.rows.write _ _).measurements _ ≠ none
      rw [measurements_write, if_pos rfl]
      exact Option.some_ne_none _

theorem storeDay_elsewhere {index sourceRevision : Nat} {key : DayKey}
    {content : Option (Value × Coverage)} {p p' : Tx δ} (hkey : membershipDay day ≠ key)
    (h : Tracks hash entity day l p.rows)
    (hstep : storeDay hash request index key sourceRevision authority content p = .ok p') :
    Tracks hash entity day l p'.rows := by
  rcases storeDay_cases hstep with ⟨old, result, -, -, -, -, rfl⟩ |
    ⟨old, result, -, -, -, -, rfl⟩ | ⟨-, cause, rfl⟩
  · exact h
  · exact h.congr (measurements_write.trans (if_neg hkey)) rfl
  · exact h.congr (measurements_write.trans (if_neg hkey)) rfl

theorem operate_tracks (hinj : Function.Injective hash) {index : Nat} {op : Operation} {p p' : Tx δ}
    (hentity : request.entity = entity) (hop : operationSchema op = true)
    (h : Tracks hash entity day l p.rows) (hapart : (l ++ deliveriesOf day op).Pairwise Apart)
    (hstep : operate hash clock request index op p = .ok p') :
    Tracks hash entity day (l ++ deliveriesOf day op) p'.rows := by
  cases op with
  | reportHealth scope sourceRevision authority health =>
    simp only [deliveriesOf, List.append_nil]
    rcases reportHealth_cases hstep with ⟨old, result, -, -, -, -, rfl⟩ | ⟨-, rfl⟩
    · exact h
    · exact h.congr rfl rfl
  | addEvents authority events =>
    simp only [operationSchema, eventSchema, positive, Bool.and_eq_true, List.all_eq_true,
      decide_eq_true_eq] at hop
    obtain ⟨b, hb, hstep⟩ := bind_eq_ok.mp hstep
    have htracks := addEventsFrom_tracks hinj hentity (fun e he => (hop.2 e he).1.1) h hapart hb
    dsimp only at hstep
    split at hstep
    · rw [← Except.ok.inj hstep]
      exact htracks.congr rfl rfl
    · rw [← Except.ok.inj hstep]
      exact htracks
  | replaceDay key sourceRevision authority value coverage =>
    simp only [operationSchema, Bool.and_eq_true] at hop
    simp only [deliveriesOf, List.append_nil]
    unfold operate at hstep
    dsimp only at hstep
    split at hstep
    · cases hstep
    split at hstep
    · cases hstep
    refine storeDay_elsewhere (fun hkey => scope_ne_membership hop.1.1.1 ?_) h hstep
    rw [← hkey]
    rfl
  | deleteDay key sourceRevision authority =>
    simp only [operationSchema, positive, Bool.and_eq_true, decide_eq_true_eq] at hop
    unfold operate at hstep
    dsimp only at hstep
    split at hstep
    · cases hstep
    by_cases hkey : key = membershipDay day
    · subst hkey
      simp only [deliveriesOf, if_true]
      exact storeDay_tracks hop.1.2.1 h hstep
    · simp only [deliveriesOf, if_neg hkey, List.append_nil]
      exact storeDay_elsewhere (fun heq => hkey heq.symm) h hstep

theorem operateFrom_tracks (hinj : Function.Injective hash) {index : Nat} {ops : List Operation}
    {p p' : Tx δ} (hentity : request.entity = entity)
    (hops : ∀ op ∈ ops, operationSchema op = true) (h : Tracks hash entity day l p.rows)
    (hapart : (l ++ ops.flatMap (deliveriesOf day)).Pairwise Apart)
    (hstep : operateFrom hash clock request index ops p = .ok p') :
    Tracks hash entity day (l ++ ops.flatMap (deliveriesOf day)) p'.rows := by
  induction ops generalizing index p l with
  | nil =>
    rw [← Except.ok.inj hstep]
    simpa using h
  | cons op ops ih =>
    obtain ⟨q, hq, hrest⟩ := bind_eq_ok.mp hstep
    rw [List.flatMap_cons, ← List.append_assoc] at hapart ⊢
    have hnext := operate_tracks hinj hentity (hops op List.mem_cons_self) h
      (List.pairwise_append.mp hapart).1 hq
    exact ih (fun op' hop' => hops op' (List.mem_cons_of_mem _ hop')) hnext hapart hrest

/-- After any history, a day is where its deliveries have led it. -/
theorem ingests_tracks (hinj : Function.Injective hash) {epoch : String}
    {h : List (Entry Call Reply)} {t : Nat} (hr : Ingests hash entity epoch h t s)
    (hapart : (deliveries day h).Pairwise Apart) :
    Tracks hash entity day (deliveries day h) s := by
  induction h using List.reverseRecOn generalizing t s with
  | nil =>
    rw [hr.nil_inv.2]
    exact tracks_initial entity
  | append_singleton h e ih =>
    obtain ⟨t', s', hr', -, hcall, -, hreply, rfl⟩ := hr.snoc_inv
    rw [deliveries_snoc] at hapart ⊢
    have htracks := ih hr' (List.pairwise_append.mp hapart).1
    have hanswered := ingests_answered hr'
    rcases step_cases hash e.now e.request s' with ⟨failure, heq⟩ |
      ⟨receipt, hreceipt, hbody, heq⟩ | ⟨hnew, p, hp, heq⟩
    · have hstale : isFresh h e = false := by simp [isFresh, hreply, heq, Except.toBool]
      rw [hstale, heq]
      simpa using htracks
    · obtain ⟨e', he', hreply', hid, -⟩ := hanswered.settled _ _ hreceipt
      have hstale : isFresh h e = false := by
        simp only [isFresh, Bool.and_eq_false_iff, List.all_eq_false]
        exact .inr ⟨e', he', by simp [hreply', hid, Except.toBool]⟩
      rw [hstale, heq]
      simpa using htracks
    · have hfresh : isFresh h e = true := by
        simp only [isFresh, Bool.and_eq_true, List.all_eq_true]
        refine ⟨by simp [hreply, heq, Except.toBool], fun x hx => ?_⟩
        cases hx' : x.reply with
        | error => simp [Except.toBool]
        | ok result =>
          have hrecorded := hanswered.recorded x hx result hx'
          have hid : x.request.request.requestId ≠ e.request.request.requestId := by
            intro hid
            rw [hid, hnew] at hrecorded
            cases hrecorded
          simp [Except.toBool, hid]
      rw [hfresh, if_pos rfl] at hapart ⊢
      rw [heq]
      have hvalid := operations_valid hcall
      exact (operateFrom_tracks hinj hcall.2.1 (fun op hop => (hvalid op hop).2) htracks hapart
        hp).congr rfl rfl

end Handlers

end Maxim.Statistics.Ingest
