import Maxim.Admin.ManagedGiveaway.Actors

/-!
# What links the actors with the row

While a publication lock is intact, only its holder writes the row. A giveaway
that an actor has seen completed is completed, and a manual draw remembers the
status that its claim took the giveaway from. Every step keeps this when it
meets two conditions, and then moves the status one way.
-/

namespace Maxim.Admin.ManagedGiveaway

open Maxim.Library

variable {ω : Type} {s s' : Giveaway}

abbrev Event (ω : Type) := PoolEntry ω Call Op Op.Reply String Result

/-- The update of a step, when its row is counted, and its actor. -/
def counted? (x : Event ω) : Option (ω × Update) :=
  match x.request, x.reply with
  | .resume w, some ⟨_, some ⟨.update _ u, true⟩, _⟩ => some (w, u)
  | _, _ => none

inductive Edge : Status → Status → Prop
  | schedule : Edge .draft .scheduled
  | publish : Edge .draft .active
  | activate : Edge .scheduled .active
  | drawScheduled : Edge .scheduled .drawing
  | drawActive : Edge .active .drawing
  | complete : Edge .drawing .completed
  | cancelDraft : Edge .draft .canceled
  | cancelScheduled : Edge .scheduled .canceled
  | cancelActive : Edge .active .canceled

def Update.takesLock : Update → Bool
  | .unlockPublication _ _ | .recoverPublication _ _ _ _ => true
  | .release phase _ _ _ => phase == .publication
  | _ => false

def Update.acquires : Update → Bool
  | .acquirePublication _ _ _ => true
  | _ => false

def Update.claims : Update → Bool
  | .claimDraw _ _ _ | .resumeDraw _ _ _ => true
  | _ => false

/-- The updates of the results, which do not ask for the status. -/
def Update.ofResults : Update → Bool
  | .release phase _ _ _ => phase == .results
  | .lockResults _ _ | .writeResults _ | .unlockResults _ _ _ | .recoverResults _ _ _ => true
  | _ => false

theorem status_move {i : Call} {q : Stage} {u : Update} (hu : u.guard s = true) (hmay : u.may i q) :
    (u.data s).status = s.status ∨ Edge s.status (u.data s).status ∨
      (∃ next messageId, u = .publish next messageId) ∨
      ∃ lockedAt drawSeed status, u = .restoreDraw lockedAt drawSeed status := by
  cases u with
  | publish next messageId => exact .inr (.inr (.inl ⟨next, messageId, rfl⟩))
  | restoreDraw lockedAt drawSeed status => exact .inr (.inr (.inr ⟨lockedAt, drawSeed, status, rfl⟩))
  | recoverPublication lockedAt key next messageId =>
    simp only [Update.guard, Bool.and_eq_true, beq_iff_eq] at hu
    rw [hu.1.1.1]
    rcases hmay with rfl | rfl
    · exact .inr (.inl .schedule)
    · exact .inr (.inl .publish)
  | cancel status =>
    simp only [Update.guard, Bool.and_eq_true, beq_iff_eq] at hu
    rw [hu.1]
    rcases hmay with rfl | rfl | rfl
    · exact .inr (.inl .cancelDraft)
    · exact .inr (.inl .cancelScheduled)
    · exact .inr (.inl .cancelActive)
  | activate now =>
    simp only [Update.guard, Bool.and_eq_true, beq_iff_eq] at hu
    rw [hu.1.1]
    exact .inr (.inl .activate)
  | activateDue staleLockBefore =>
    simp only [Update.guard, Bool.and_eq_true, beq_iff_eq] at hu
    rw [hu.1]
    exact .inr (.inl .activate)
  | claimDraw initial drawSeed now =>
    simp only [Update.guard, Bool.and_eq_true, Bool.or_eq_true, beq_iff_eq] at hu
    rcases hu.1 with h | h
    · rw [h]
      exact .inr (.inl .drawActive)
    · rw [h]
      exact .inr (.inl .drawScheduled)
  | completeDraw lockedAt drawSeed =>
    simp only [Update.guard, Bool.and_eq_true, beq_iff_eq] at hu
    rw [hu.1.1]
    exact .inr (.inl .complete)
  | _ => exact .inl rfl

structure Locked (lockAt : Nat) (key : Option String) (s : Giveaway) : Prop where
  status : s.status = .draft
  lockedAt : s.lockedAt = some lockAt
  sendLockKey : s.sendLockKey = key

theorem Locked.writes {lockAt : Nat} {key : Option String} (hs : Locked lockAt key s) {u : Update}
    (hu : u.guard s = true) : u.takesLock = true ∨ u.ofResults = true ∨
      ∃ next messageId, u = .publish next messageId := by
  obtain ⟨hstatus, hlocked, -⟩ := hs
  cases u with
  | release phase lockedAt key kept => cases phase <;> simp [Update.takesLock, Update.ofResults]
  | unlockPublication lockAt key => exact .inl rfl
  | recoverPublication lockedAt key next messageId => exact .inl rfl
  | publish next messageId => exact .inr (.inr ⟨next, messageId, rfl⟩)
  | lockResults lockAt key => exact .inr (.inl rfl)
  | writeResults messageId => exact .inr (.inl rfl)
  | unlockResults lockAt key kept => exact .inr (.inl rfl)
  | recoverResults lockedAt key messageId => exact .inr (.inl rfl)
  | cancel status => simp [Update.guard, hlocked] at hu
  | edit description startsAt endsAt => simp [Update.guard, hlocked] at hu
  | acquirePublication updatedAt lockAt key => simp [Update.guard, hlocked] at hu
  | _ => simp [Update.guard, hstatus] at hu

/-! ## What a history says -/

section History

variable [DecidableEq ω]

def rowAfter (s₀ : Giveaway) (h : List (Event ω)) : Giveaway :=
  (replay (Pool.step Op.run Call.program) (Pool.start s₀) h).store

def intactStep (w : ω) (intact : Bool) (x : Event ω) : Bool :=
  match counted? x with
  | some (w', u) => if u.takesLock then false else u.acquires && w' = w || intact
  | none => intact

/-- The actor has acquired a publication lock, and no call has released, recovered or given up a
publication lock since. -/
def Intact (w : ω) (h : List (Event ω)) : Bool := h.foldl (intactStep w) false

/-- The lock that the actor acquired last. -/
def Acquired (w : ω) (h : List (Event ω)) (lockAt : Nat) (key : Option String) : Prop :=
  ∃ g c g' updatedAt, h = g ++ c :: g' ∧
    counted? c = some (w, .acquirePublication updatedAt lockAt key) ∧
    ∀ y ∈ g', ∀ u, counted? y = some (w, u) → u.acquires = false

/-- The status that the last claim of the actor took the giveaway from. -/
def ClaimedFrom (s₀ : Giveaway) (w : ω) (h : List (Event ω)) (status : Status) : Prop :=
  ∃ g c g' u, h = g ++ c :: g' ∧ counted? c = some (w, u) ∧ u.claims = true ∧
    (rowAfter s₀ g).status = status ∧ ∀ y ∈ g', ∀ u, counted? y = some (w, u) → u.claims = false

variable {h : List (Event ω)} {x : Event ω} {w : ω} {s₀ : Giveaway}

theorem intact_snoc : Intact w (h ++ [x]) = intactStep w (Intact w h) x := by
  simp [Intact, List.foldl_append]

omit [DecidableEq ω] in
theorem Acquired.snoc {lockAt : Nat} {key : Option String} (ha : Acquired w h lockAt key)
    (hx : ∀ u, counted? x = some (w, u) → u.acquires = false) :
    Acquired w (h ++ [x]) lockAt key := by
  obtain ⟨g, c, g', updatedAt, rfl, hc, hsince⟩ := ha
  refine ⟨g, c, g' ++ [x], updatedAt, by simp, hc, fun y hy => ?_⟩
  rcases List.mem_append.mp hy with hy | hy
  · exact hsince y hy
  · exact List.mem_singleton.mp hy ▸ hx

theorem ClaimedFrom.snoc {status : Status} (hc : ClaimedFrom s₀ w h status)
    (hx : ∀ u, counted? x = some (w, u) → u.claims = false) :
    ClaimedFrom s₀ w (h ++ [x]) status := by
  obtain ⟨g, c, g', u, rfl, hc, hclaims, hstatus, hsince⟩ := hc
  refine ⟨g, c, g' ++ [x], u, by simp, hc, hclaims, hstatus, fun y hy => ?_⟩
  rcases List.mem_append.mp hy with hy | hy
  · exact hsince y hy
  · exact List.mem_singleton.mp hy ▸ hx

def Stage.initial? : Stage → Option Status
  | .read row | .refused row => some row.status
  | _ => none

/-- A publisher has kept its lock until it writes the published status, and a manual draw claims the
giveaway in the status that it has read. -/
structure Meets (s₀ : Giveaway) (h : List (Event ω)) (x : Event ω) : Prop where
  publishes : ∀ w next messageId, counted? x = some (w, .publish next messageId) → Intact w h = true
  claims : ∀ w u i q, counted? x = some (w, u) → u.claims = true →
    actor.phase h w = some (i, q) → i.runner = false →
    q.initial? = some (rowAfter s₀ h).status

/-- What links the stages of the actors with the row. -/
structure Inv (s₀ : Giveaway) (h : List (Event ω)) (s : Giveaway) : Prop where
  locked : ∀ w i lockAt key, actor.phase h w = some (i, .locked lockAt key) → Intact w h = true →
    Locked lockAt key s
  unique : ∀ w w' i i' lockAt lockAt' key key', actor.phase h w = some (i, .locked lockAt key) →
    Intact w h = true → actor.phase h w' = some (i', .locked lockAt' key') → Intact w' h = true →
    w = w'
  acquired : ∀ w i lockAt key, actor.phase h w = some (i, .locked lockAt key) →
    Acquired w h lockAt key
  completed : ∀ w i q, actor.phase h w = some (i, q) → q.completed → s.status = .completed
  claimed : ∀ w i initial, actor.phase h w = some (i, .drawing initial) → i.runner = false →
    ClaimedFrom s₀ w h initial

theorem inv_start : Inv s₀ ([] : List (Event ω)) s₀ := by
  have hnone {w : ω} {p : Call × Stage} (hp : actor.phase ([] : List (Event ω)) w = some p) :
      False := by cases hp
  exact ⟨fun _ _ _ _ h => (hnone h).elim, fun _ _ _ _ _ _ _ _ h => (hnone h).elim,
    fun _ _ _ _ h => (hnone h).elim, fun _ _ _ h => (hnone h).elim, fun _ _ _ h => (hnone h).elim⟩

theorem Inv.quiet (hi : Inv s₀ h s) (hx : counted? x = none)
    (hphase : ∀ w i q, actor.phase (h ++ [x]) w = some (i, q) → actor.phase h w = some (i, q) ∨
      q = .idle ∨ (∃ row, q = .refused row) ∨ q = .read s) : Inv s₀ (h ++ [x]) s := by
  have hintact : ∀ w, Intact w (h ++ [x]) = Intact w h := fun w => by
    rw [intact_snoc, intactStep, hx]
  have hnever {P : Update → Prop} (w : ω) (u : Update) (hu : counted? x = some (w, u)) : P u := by
    rw [hx] at hu
    cases hu
  have hlocked {w : ω} {i : Call} {lockAt : Nat} {key : Option String}
      (hw : actor.phase (h ++ [x]) w = some (i, .locked lockAt key)) :
      actor.phase h w = some (i, .locked lockAt key) := by
    rcases hphase w i _ hw with hw | hw | ⟨row, hw⟩ | hw
    · exact hw
    all_goals cases hw
  constructor
  · intro w i lockAt key hw hwi
    exact hi.locked w i lockAt key (hlocked hw) (hintact w ▸ hwi)
  · intro w w' i i' lockAt lockAt' key key' hw hwi hw' hwi'
    exact hi.unique w w' i i' lockAt lockAt' key key' (hlocked hw) (hintact w ▸ hwi) (hlocked hw')
      (hintact w' ▸ hwi')
  · intro w i lockAt key hw
    exact (hi.acquired w i lockAt key (hlocked hw)).snoc (hnever w)
  · intro w i q hw hq
    rcases hphase w i q hw with hw | rfl | ⟨row, rfl⟩ | rfl
    · exact hi.completed w i q hw hq
    · cases hq
    · cases hq
    · exact hq
  · intro w i initial hw hrunner
    rcases hphase w i _ hw with hw | hw | ⟨row, hw⟩ | hw
    · exact (hi.claimed w i initial hw hrunner).snoc (hnever w)
    all_goals cases hw

/-- The stage that a counted update leads to. -/
inductive Leads (q : Stage) (u : Update) : Prop
  | same (next : u.next q true = q) (acquires : u.acquires = false) (claims : u.claims = false)
    (publish : ∀ next messageId, u ≠ .publish next messageId)
  | idle (next : u.next q true = .idle)
  | locked (updatedAt lockAt : Nat) (key : Option String)
    (acquires : u = .acquirePublication updatedAt lockAt key)
  | drawing (initial : Status) (next : u.next q true = .drawing initial) (claims : u.claims = true)
    (read : q.initial? = some initial)
  | results (lockedAt : Option Nat) (drawSeed : String)
    (completes : u = .completeDraw lockedAt drawSeed)

omit [DecidableEq ω] in
theorem leads_of_may {i : Call} {q : Stage} {u : Update} (hmay : u.may i q) : Leads q u := by
  cases u with
  | publish next messageId => exact .idle rfl
  | unlockPublication lockAt key => exact .idle rfl
  | restoreDraw lockedAt drawSeed status => exact .idle rfl
  | acquirePublication updatedAt lockAt key => exact .locked updatedAt lockAt key rfl
  | claimDraw initial drawSeed now => exact .drawing initial.status rfl rfl (hmay ▸ rfl)
  | resumeDraw drawSeed drawnAt now =>
    obtain ⟨initial, rfl⟩ := hmay
    exact .drawing initial.status rfl rfl rfl
  | completeDraw lockedAt drawSeed => exact .results lockedAt drawSeed rfl
  | _ => exact .same rfl rfl rfl fun _ _ h => by cases h

omit [DecidableEq ω] in
theorem completed_of_results {i : Call} {q : Stage} {u : Update} (hmay : u.may i q)
    (hu : u.ofResults = true) : q.completed := by
  cases u with
  | release phase lockedAt key kept =>
    cases phase with
    | publication => cases hu
    | results => exact hmay
  | lockResults lockAt key => exact hmay
  | writeResults messageId => exact hmay
  | unlockResults lockAt key kept => exact hmay
  | recoverResults lockedAt key messageId => exact hmay
  | _ => cases hu

section Counted

variable {i : Call} {q : Stage} {u : Update} (hi : Inv s₀ h s) (hm : Meets s₀ h x)
  (hx : counted? x = some (w, u)) (hu : u.guard s = true) (hq : actor.phase h w = some (i, q))
  (hmay : u.may i q)

include hi hm hx hu hq hmay

theorem Inv.held {w' : ω} {i' : Call} {lockAt : Nat} {key : Option String}
    (hw' : actor.phase h w' = some (i', .locked lockAt key)) (hintact : Intact w' h = true)
    (htakes : u.takesLock = false) : ∃ next messageId, u = .publish next messageId ∧ w = w' := by
  have hlocked := hi.locked w' i' lockAt key hw' hintact
  rcases hlocked.writes hu with h | h | ⟨next, messageId, rfl⟩
  · rw [htakes] at h
    cases h
  · have hcompleted := hi.completed w i q hq (completed_of_results hmay h)
    rw [hlocked.status] at hcompleted
    cases hcompleted
  · obtain ⟨-, lockAt', key', rfl⟩ := hmay
    exact ⟨next, messageId, rfl, hi.unique w w' i i' lockAt' lockAt key' key hq
      (hm.publishes w next messageId hx) hw' hintact⟩

theorem Inv.stays_completed (hs : s.status = .completed) : (u.data s).status = .completed := by
  rcases status_move hu hmay with hsame | hedge | ⟨next, messageId, rfl⟩ | ⟨lockedAt, seed, status, rfl⟩
  · exact hsame.trans hs
  · rw [hs] at hedge
    cases hedge
  · obtain ⟨-, lockAt, key, rfl⟩ := hmay
    have hlocked := hi.locked w i lockAt key hq (hm.publishes w next messageId hx)
    exact absurd (hlocked.status.symm.trans hs) (by decide)
  · simp [Update.guard, hs] at hu

theorem Inv.counted {now : Nat}
    (hphase : ∀ w' i' q', actor.phase (h ++ [x]) w' = some (i', q') →
      w' = w ∧ i' = i ∧ q' = u.next q true ∨ w' ≠ w ∧ actor.phase h w' = some (i', q')) :
    Inv s₀ (h ++ [x]) { u.data s with updatedAt := now } := by
  have hother {w' : ω} {P : Update → Prop} (hne : w' ≠ w) (u' : Update)
      (hu' : counted? x = some (w', u')) : P u' := by
    rw [hx] at hu'
    exact absurd (Prod.mk.inj (Option.some.inj hu')).1.symm hne
  have hself {P : Update → Prop} (hP : P u) (u' : Update) (hu' : counted? x = some (w, u')) :
      P u' := by
    rw [hx] at hu'
    exact (Prod.mk.inj (Option.some.inj hu')).2 ▸ hP
  have hintact {w' : ω} (hw' : Intact w' (h ++ [x]) = true) : u.takesLock = false ∧
      (u.acquires = true ∧ w = w' ∨ Intact w' h = true) := by
    simp only [intact_snoc, intactStep, hx] at hw'
    split at hw'
    · cases hw'
    · next htakes => simpa [htakes] using hw'
  -- A lock after the step was there before it, unless the step acquires it.
  have hback {w' : ω} {i' : Call} {lockAt : Nat} {key : Option String}
      (hw' : actor.phase (h ++ [x]) w' = some (i', .locked lockAt key)) :
      w' = w ∧ (∃ updatedAt, u = .acquirePublication updatedAt lockAt key) ∨
        actor.phase h w' = some (i', .locked lockAt key) ∧
          (w' = w → u.acquires = false ∧ ∀ next messageId, u ≠ .publish next messageId) := by
    rcases hphase w' i' _ hw' with ⟨rfl, rfl, hnext⟩ | ⟨hne, hw'⟩
    · cases leads_of_may hmay with
      | same hsame hacquires hclaims hpublish =>
        exact .inr ⟨hq.trans (by rw [hnext, hsame]), fun _ => ⟨hacquires, hpublish⟩⟩
      | idle hidle => rw [hidle] at hnext; cases hnext
      | locked updatedAt lockAt' key' hacquires =>
        subst hacquires
        obtain ⟨rfl, rfl⟩ := Stage.locked.inj hnext
        exact .inl ⟨rfl, updatedAt, rfl⟩
      | drawing initial hdrawing => rw [hdrawing] at hnext; cases hnext
      | results lockedAt drawSeed hcompletes => rw [hcompletes] at hnext; cases hnext
    · exact .inr ⟨hw', fun he => absurd he hne⟩
  have hkept {w' : ω} (hwi' : Intact w' (h ++ [x]) = true)
      (hown : w' = w → u.acquires = false) : Intact w' h = true := by
    rcases (hintact hwi').2 with ⟨hacquires, he⟩ | hkept
    · rw [hown he.symm] at hacquires
      cases hacquires
    · exact hkept
  have hfree {w' : ω} {i' : Call} {lockAt lockAt' updatedAt : Nat} {key key' : Option String}
      (hacquires : u = .acquirePublication updatedAt lockAt key) (hwi' : Intact w' (h ++ [x]) = true)
      (hw' : actor.phase h w' = some (i', .locked lockAt' key')) (hne : w' ≠ w) : False := by
    obtain ⟨next, messageId, hpublish, -⟩ := hi.held hm hx hu hq hmay hw'
      (hkept hwi' fun he => absurd he hne) (hintact hwi').1
    rw [hacquires] at hpublish
    cases hpublish
  constructor
  · intro w' i' lockAt key hw' hwi'
    rcases hback hw' with ⟨rfl, updatedAt, rfl⟩ | ⟨hbefore, hown⟩
    · simp only [Update.guard, Bool.and_eq_true, beq_iff_eq] at hu
      exact ⟨hu.1.1.1, rfl, rfl⟩
    · obtain ⟨next, messageId, hpublish, rfl⟩ := hi.held hm hx hu hq hmay hbefore
        (hkept hwi' fun he => (hown he).1) (hintact hwi').1
      exact absurd hpublish ((hown rfl).2 next messageId)
  · intro w₁ w₂ i₁ i₂ lockAt₁ lockAt₂ key₁ key₂ hw₁ hwi₁ hw₂ hwi₂
    rcases hback hw₁ with ⟨rfl, updatedAt, hacquires⟩ | ⟨hbefore₁, hown₁⟩
    · by_contra hne
      rcases hback hw₂ with ⟨rfl, -⟩ | ⟨hbefore₂, -⟩
      · exact hne rfl
      · exact hfree hacquires hwi₂ hbefore₂ (Ne.symm hne)
    · rcases hback hw₂ with ⟨rfl, updatedAt, hacquires⟩ | ⟨hbefore₂, hown₂⟩
      · by_contra hne
        exact hfree hacquires hwi₁ hbefore₁ hne
      · exact hi.unique w₁ w₂ i₁ i₂ lockAt₁ lockAt₂ key₁ key₂ hbefore₁
          (hkept hwi₁ fun he => (hown₁ he).1) hbefore₂ (hkept hwi₂ fun he => (hown₂ he).1)
  · intro w' i' lockAt key hw'
    rcases hback hw' with ⟨rfl, updatedAt, rfl⟩ | ⟨hbefore, hown⟩
    · exact ⟨h, x, [], updatedAt, rfl, hx, fun y hy => by cases hy⟩
    · refine (hi.acquired w' i' lockAt key hbefore).snoc ?_
      by_cases hne : w' = w
      · subst hne
        exact hself (hown rfl).1
      · exact hother hne
  · intro w' i' q' hw' hq'
    have hcompleted (hs : s.status = .completed) := hi.stays_completed hm hx hu hq hmay hs
    rcases hphase w' i' q' hw' with ⟨rfl, rfl, rfl⟩ | ⟨hne, hw'⟩
    · cases leads_of_may hmay with
      | same hsame => exact hcompleted (hi.completed w' i' q hq (hsame ▸ hq'))
      | idle hidle => rw [hidle] at hq'; cases hq'
      | locked updatedAt lockAt' key' hacquires => rw [hacquires] at hq'; cases hq'
      | drawing initial hdrawing => rw [hdrawing] at hq'; cases hq'
      | results lockedAt drawSeed hcompletes => rw [hcompletes]; rfl
    · exact hcompleted (hi.completed w' i' q' hw' hq')
  · intro w' i' initial hw' hrunner
    rcases hphase w' i' _ hw' with ⟨rfl, rfl, hnext⟩ | ⟨hne, hw'⟩
    · cases leads_of_may hmay with
      | same hsame hacquires hclaims =>
        rw [hsame] at hnext
        subst hnext
        exact (hi.claimed w' i' initial hq hrunner).snoc (hself hclaims)
      | idle hidle => rw [hidle] at hnext; cases hnext
      | locked updatedAt lockAt' key' hacquires => rw [hacquires] at hnext; cases hnext
      | drawing initial' hdrawing hclaims hread =>
        obtain rfl := Stage.drawing.inj (hnext.trans hdrawing)
        have hstatus := hm.claims w' u i' q hx hclaims hq hrunner
        rw [hread, Option.some.injEq] at hstatus
        exact ⟨h, x, [], u, rfl, hx, hclaims, hstatus.symm, fun y hy => by cases hy⟩
      | results lockedAt drawSeed hcompletes => rw [hcompletes] at hnext; cases hnext
    · exact (hi.claimed w' i' initial hw' hrunner).snoc (hother hne)

end Counted

/-- What a step does to the row: nothing that is counted, or one update. -/
inductive Effect (h : List (Event ω)) (s s' : Giveaway) (x : Event ω) : Prop
  | quiet (store : s' = s) (shown : counted? x = none)
    (phase : ∀ w i q, actor.phase (h ++ [x]) w = some (i, q) → actor.phase h w = some (i, q) ∨
      q = .idle ∨ (∃ row, q = .refused row) ∨ q = .read s)
  | counted (w : ω) (i : Call) (q : Stage) (now : Nat) (u : Update)
    (shown : counted? x = some (w, u)) (guard : u.guard s = true)
    (before : actor.phase h w = some (i, q)) (may : u.may i q)
    (store : s' = { u.data s with updatedAt := now })
    (phase : ∀ w' i' q', actor.phase (h ++ [x]) w' = some (i', q') →
      w' = w ∧ i' = i ∧ q' = u.next q true ∨ w' ≠ w ∧ actor.phase h w' = some (i', q'))

omit [DecidableEq ω] in
theorem next_false (q : Stage) (u : Update) :
    u.next q false = q ∨ u.next q false = .idle ∨ ∃ row, u.next q false = .refused row := by
  cases u with
  | claimDraw initial drawSeed now => exact .inr (.inr ⟨initial, rfl⟩)
  | publish next messageId => exact .inr (.inl rfl)
  | unlockPublication lockAt key => exact .inr (.inl rfl)
  | restoreDraw lockedAt drawSeed status => exact .inr (.inl rfl)
  | _ => exact .inl rfl

theorem effect_of_allowed (hx : Pool.Allowed Op.run actor h s s' x) : Effect h s s' x := by
  cases hx with
  | idle hshown hstore =>
    refine .quiet hstore ?_ fun w i q hq => .inl (Protocol.phase_idle hshown w ▸ hq)
    rw [counted?, hshown]
    cases x.request <;> rfl
  | starts w i result hrequest hshown hstore =>
    refine .quiet hstore (by rw [counted?, hrequest]) fun w' i' q hq => ?_
    rcases Protocol.phase_starts hrequest hshown hq with ⟨-, -, rfl⟩ | ⟨-, hq⟩
    · exact .inr (.inl rfl)
    · exact .inl hq
  | performs w i q e r result hrequest hshown hq hmay hsem =>
    cases e with
    | find =>
      obtain ⟨rfl, rfl⟩ := Prod.mk.inj hsem
      refine .quiet rfl (by rw [counted?, hrequest, hshown]) fun w' i' q' hq' => ?_
      rcases Protocol.phase_performs hrequest hshown hq hq' with ⟨rfl, rfl, rfl⟩ | ⟨-, hq'⟩
      · cases q with
        | idle => exact .inr (.inr (.inr rfl))
        | read row => exact .inr (.inr (.inr rfl))
        | _ => exact .inl hq
      · exact .inl hq'
    | update now u =>
      change s.update now u = (s', r) at hsem
      rw [Giveaway.update] at hsem
      split at hsem
      · next hguard =>
        obtain ⟨rfl, rfl⟩ := Prod.mk.inj hsem
        exact .counted w i q now u (by rw [counted?, hrequest, hshown]) hguard hq hmay rfl
          fun w' i' q' hq' => Protocol.phase_performs hrequest hshown hq hq'
      · obtain ⟨rfl, rfl⟩ := Prod.mk.inj hsem
        refine .quiet rfl (by rw [counted?, hrequest, hshown]) fun w' i' q' hq' => ?_
        rcases Protocol.phase_performs hrequest hshown hq hq' with ⟨rfl, rfl, rfl⟩ | ⟨-, hq'⟩
        · rcases next_false q u with hsame | hidle | hrefused
          · exact .inl (hq.trans (congrArg (fun q => some (i', q)) hsame.symm))
          · exact .inr (.inl hidle)
          · exact .inr (.inr (.inl hrefused))
        · exact .inl hq'

theorem Inv.step (hi : Inv s₀ h s) (hm : Meets s₀ h x) (hx : Effect h s s' x) :
    Inv s₀ (h ++ [x]) s' := by
  cases hx with
  | quiet hstore hshown hphase => exact hstore ▸ hi.quiet hshown hphase
  | counted w i q now u hshown hguard hq hmay hstore hphase =>
    exact hstore ▸ hi.counted hm hshown hguard hq hmay hphase

/-- A failed draw gives the giveaway back to the status that its claim took it from. -/
def GivesBack (s₀ : Giveaway) (h : List (Event ω)) (x : Event ω) (status : Status) : Prop :=
  ∃ w lockedAt drawSeed, counted? x = some (w, .restoreDraw lockedAt drawSeed status) ∧
    ClaimedFrom s₀ w h status

theorem Inv.moves (hi : Inv s₀ h s) (hm : Meets s₀ h x) (hx : Effect h s s' x) :
    s'.status = s.status ∨ Edge s.status s'.status ∨
      s.status = .drawing ∧ GivesBack s₀ h x s'.status := by
  cases hx with
  | quiet hstore => exact .inl (by rw [hstore])
  | counted w i q now u hshown hguard hq hmay hstore hphase =>
    subst hstore
    rcases status_move hguard hmay with hsame | hedge | ⟨next, messageId, rfl⟩ |
      ⟨lockedAt, drawSeed, status, rfl⟩
    · exact .inl hsame
    · exact .inr (.inl hedge)
    · obtain ⟨hnext, lockAt, key, rfl⟩ := hmay
      have hlocked := hi.locked w i lockAt key hq (hm.publishes w next messageId hshown)
      rw [hlocked.status]
      rcases hnext with rfl | rfl
      · exact .inr (.inl .schedule)
      · exact .inr (.inl .publish)
    · obtain ⟨initial, rfl, rfl⟩ := hmay
      simp only [Update.guard, Bool.and_eq_true, beq_iff_eq] at hguard
      by_cases hback : i.runner = true ∨ initial = .drawing
      · refine .inl ?_
        rw [hguard.1.1]
        exact if_pos hback
      · have hstatus : restoredStatus i.runner initial = initial := if_neg hback
        have hrunner : i.runner = false := by simpa using (not_or.mp hback).1
        refine .inr (.inr ⟨hguard.1.1, w, lockedAt, drawSeed, hshown, ?_⟩)
        change ClaimedFrom s₀ w h (restoredStatus i.runner initial)
        rw [hstatus]
        exact hi.claimed w i initial hq hrunner

end History

end Maxim.Admin.ManagedGiveaway
