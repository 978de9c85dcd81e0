import Mathlib.Data.String.Basic
import Maxim.Admin.ManagedGiveaway.Lifecycle

/-!
# The lifecycle of a managed giveaway is one-way

The status moves one way while every publisher still has the lock that it
acquired when it writes the published status, and every manual draw claims the
giveaway in the status that it has read. A publisher that lost its lock writes
over whatever came in between.
-/

namespace Maxim.Admin.ManagedGiveaway

open Maxim.Library

variable {ω : Type}

/-! ## Runs -/

section Runs

variable [DecidableEq ω]

/-- A run in which every statement is one step. An actor that is never resumed has crashed. -/
abbrev LifecycleRun (ok : List (Event ω) → Nat → Move ω Call → Prop) (s₀ : Giveaway) :=
  Run (Pool.step Op.run Call.program) ok
    (Pool.start s₀ : Pool ω Call Op Op.Reply String Result Giveaway)

/-- The status moves one way, COMPLETED and CANCELED are final, and the published status is written
under the lock that the publisher acquired. -/
structure Lifecycle (s₀ : Giveaway) (h : List (Event ω)) : Prop where
  moves : ∀ h₁ x h₂, h = h₁ ++ x :: h₂ →
    (rowAfter s₀ (h₁ ++ [x])).status = (rowAfter s₀ h₁).status ∨
      Edge (rowAfter s₀ h₁).status (rowAfter s₀ (h₁ ++ [x])).status ∨
      (rowAfter s₀ h₁).status = .drawing ∧ GivesBack s₀ h₁ x (rowAfter s₀ (h₁ ++ [x])).status
  final : ∀ h₁ h₂ status, h = h₁ ++ h₂ → status = .completed ∨ status = .canceled →
    (rowAfter s₀ h₁).status = status → (rowAfter s₀ h).status = status
  holds : ∀ h₁ x h₂ w next messageId, h = h₁ ++ x :: h₂ →
    counted? x = some (w, .publish next messageId) →
    ∃ lockAt key, Acquired w h₁ lockAt key ∧ Locked lockAt key (rowAfter s₀ h₁)

variable {ok : List (Event ω) → Nat → Move ω Call → Prop} {s₀ : Giveaway} {h : List (Event ω)}
  {t : Nat} {p : Pool ω Call Op Op.Reply String Result Giveaway}

theorem run_effect {x : Event ω} (hr : LifecycleRun ok s₀ (h ++ [x]) t p) :
    ∃ t₁ p₁, LifecycleRun ok s₀ h t₁ p₁ ∧
      Effect h (rowAfter s₀ h) (rowAfter s₀ (h ++ [x])) x := by
  obtain ⟨t₁, p₁, hr₁, -, hx⟩ := Pool.run_allowed program_follows hr
  refine ⟨t₁, p₁, hr₁, ?_⟩
  rw [rowAfter, rowAfter, hr₁.replay_eq, hr.replay_eq]
  exact effect_of_allowed hx

theorem run_inv (hr : LifecycleRun ok s₀ h t p)
    (hmeets : ∀ h₁ x h₂, h = h₁ ++ x :: h₂ → Meets s₀ h₁ x) : Inv s₀ h (rowAfter s₀ h) := by
  induction h using List.reverseRecOn generalizing t p with
  | nil => exact inv_start
  | append_singleton h x ih =>
    obtain ⟨t₁, p₁, hr₁, hx⟩ := run_effect hr
    refine (ih hr₁ ?_).step (hmeets h x [] rfl) hx
    rintro h₁ y h₂ rfl
    exact hmeets h₁ y (h₂ ++ [x]) (by simp)

theorem run_split {h₁ h₂ : List (Event ω)} {x : Event ω}
    (hr : LifecycleRun ok s₀ (h₁ ++ x :: h₂) t p)
    (hmeets : ∀ g y g', h₁ ++ x :: h₂ = g ++ y :: g' → Meets s₀ g y) :
    Inv s₀ h₁ (rowAfter s₀ h₁) ∧ Meets s₀ h₁ x ∧
      Effect h₁ (rowAfter s₀ h₁) (rowAfter s₀ (h₁ ++ [x])) x := by
  rw [List.append_cons] at hr
  obtain ⟨t₁, p₁, hr₁, -⟩ := hr.of_append
  obtain ⟨t₂, p₂, hr₂, hx⟩ := run_effect hr₁
  refine ⟨run_inv hr₂ ?_, hmeets h₁ x h₂ rfl, hx⟩
  rintro g y g' rfl
  exact hmeets g y (g' ++ x :: h₂) (by simp)

theorem giveaway_one_way (hr : LifecycleRun ok s₀ h t p)
    (hmeets : ∀ h₁ x h₂, h = h₁ ++ x :: h₂ → Meets s₀ h₁ x) : Lifecycle s₀ h := by
  have hmoves : ∀ h₁ x h₂, h = h₁ ++ x :: h₂ →
      (rowAfter s₀ (h₁ ++ [x])).status = (rowAfter s₀ h₁).status ∨
        Edge (rowAfter s₀ h₁).status (rowAfter s₀ (h₁ ++ [x])).status ∨
        (rowAfter s₀ h₁).status = .drawing ∧
          GivesBack s₀ h₁ x (rowAfter s₀ (h₁ ++ [x])).status := by
    rintro h₁ x h₂ rfl
    obtain ⟨hi, hm, hx⟩ := run_split hr hmeets
    exact hi.moves hm hx
  refine ⟨hmoves, ?_, ?_⟩
  · rintro h₁ h₂ status rfl hfinal hstatus
    suffices hall : ∀ post rest, h₁ ++ h₂ = h₁ ++ post ++ rest →
        (rowAfter s₀ (h₁ ++ post)).status = status from hall h₂ [] (by simp)
    intro post
    induction post using List.reverseRecOn with
    | nil => exact fun rest _ => (List.append_nil h₁).symm ▸ hstatus
    | append_singleton post x ih =>
      intro rest hrest
      have hbefore := ih (x :: rest) (by rw [hrest]; simp)
      have hstep := hmoves (h₁ ++ post) x rest (by rw [hrest]; simp)
      rw [hbefore, List.append_assoc] at hstep
      rcases hstep with hsame | hedge | ⟨hdrawing, -⟩
      · exact hsame
      · rcases hfinal with rfl | rfl <;> cases hedge
      · rcases hfinal with rfl | rfl <;> cases hdrawing
  · rintro h₁ x h₂ w next messageId rfl hx
    obtain ⟨hi, hm, heffect⟩ := run_split hr hmeets
    cases heffect with
    | quiet hstore hshown => rw [hshown] at hx; cases hx
    | counted w' i q now u hshown hguard hq hmay hstore hphase =>
      obtain ⟨rfl, rfl⟩ := Prod.mk.inj (Option.some.inj (hshown.symm.trans hx))
      obtain ⟨-, lockAt, key, rfl⟩ := hmay
      exact ⟨lockAt, key, hi.acquired w' i lockAt key hq,
        hi.locked w' i lockAt key hq (hm.publishes w' next messageId hx)⟩

end Runs

/-! ## Examples -/

def meets [DecidableEq ω] (s₀ : Giveaway) (h : List (Event ω)) (x : Event ω) : Bool :=
  match counted? x with
  | some (w, .publish _ _) => Intact w h
  | some (w, u) =>
    !u.claims || (actor.phase h w).all fun p =>
      p.1.runner || p.2.initial? == some (rowAfter s₀ h).status
  | none => true

theorem meets_of_check [DecidableEq ω] (s₀ : Giveaway) (h : List (Event ω)) (x : Event ω) :
    meets s₀ h x = true → Meets s₀ h x := by
  intro hm
  constructor
  · intro w next messageId hx
    simpa [meets, hx] using hm
  · intro w u i q hx hu hq hrunner
    cases u with
    | claimDraw initial drawSeed now =>
      simpa [meets, hx, hq, hrunner, Update.claims] using hm
    | resumeDraw drawSeed drawnAt now =>
      simpa [meets, hx, hq, hrunner, Update.claims] using hm
    | _ => cases hu

def draftGiveaway : Giveaway where
  description := "A prize"
  startsAt := none
  endsAt := 1000000

def routedServices : Services := ⟨⟨"g", id⟩, true, true⟩

/-- A publication that is locked at 1000 and whose send is accepted. -/
def publishSlowly : Call :=
  .publish routedServices ⟨1000, .free, 0, 0, false, 1000, .accepted (some "post"), 200000⟩

/-- A draw that fails or comes to an end, without a publication of results. -/
def drawAt (now : Nat) (failure : Option String) : Call :=
  .close routedServices ⟨false, now, "seed", failure, now, now,
    ⟨now, .free, now, now, .failed "refused" true, true, now⟩, ⟨true, []⟩⟩

/-- The giveaway is published, a draw of it fails, and another one completes it. -/
def drawnRun : List (Event Nat) × Pool Nat Call Op Op.Reply String Result Giveaway :=
  play (Pool.step Op.run Call.program) (Pool.start draftGiveaway)
    ([(1000, .call 0 publishSlowly), (1000, .resume 0), (1000, .resume 0), (200000, .resume 0)] ++
      (300000, .call 1 (drawAt 300000 (some "unavailable"))) ::
        List.replicate 5 (300000, .resume 1) ++
      (400000, .call 1 (drawAt 400000 none)) :: List.replicate 7 (400000, .resume 1))

theorem giveaway_one_way_drawn :
    (List.range 20).map (fun n => (rowAfter draftGiveaway (drawnRun.1.take n)).status) =
        List.replicate 4 .draft ++ List.replicate 4 .active ++ List.replicate 2 .drawing ++
          List.replicate 4 .active ++ List.replicate 2 .drawing ++ List.replicate 4 .completed ∧
      Lifecycle draftGiveaway drawnRun.1 := by
  have hmeets : ∀ n : Fin drawnRun.1.length,
      meets draftGiveaway (drawnRun.1.take n) (drawnRun.1.get n) = true := by decide +kernel
  refine ⟨by decide +kernel, ?_⟩
  obtain ⟨t, hr⟩ : ∃ t, LifecycleRun (fun _ _ _ => True) draftGiveaway drawnRun.1 t drawnRun.2 :=
    run_play (by decide) (accepted_of_forall (fun _ _ _ => trivial) _ _)
  exact giveaway_one_way hr (splits_take fun n hn => meets_of_check _ _ _ (hmeets ⟨n, hn⟩))

def publishAgain : Call :=
  .publish routedServices ⟨100000, .free, 0, 0, false, 100000, .accepted (some "post"), 100000⟩

def lostLockRun : List (Event Nat) × Pool Nat Call Op Op.Reply String Result Giveaway :=
  play (Pool.step Op.run Call.program) (Pool.start draftGiveaway)
    [(1000, .call 0 publishSlowly), (1000, .resume 0), (1000, .resume 0),
      (100000, .call 1 publishAgain), (100000, .resume 1), (100000, .resume 1),
      (110000, .call 2 (.cancel 110000)), (110000, .resume 2), (110000, .resume 2),
      (200000, .resume 0)]

/-- A slow publisher makes a canceled giveaway active. -/
theorem publisher_revives_canceled : ¬∀ (h : List (Event Nat)) (t : Nat)
    (p : Pool Nat Call Op Op.Reply String Result Giveaway),
    LifecycleRun (fun _ _ _ => True) draftGiveaway h t p → Lifecycle draftGiveaway h := by
  intro hall
  obtain ⟨t, hr⟩ : ∃ t, LifecycleRun (fun _ _ _ => True) draftGiveaway lostLockRun.1 t lostLockRun.2 :=
    run_play (by decide) (accepted_of_forall (fun _ _ _ => trivial) _ _)
  have hfinal := (hall _ t _ hr).final (lostLockRun.1.take 9) (lostLockRun.1.drop 9) .canceled
    (by rw [List.take_append_drop]) (.inr rfl) (by decide +kernel)
  exact absurd hfinal (by decide +kernel)

end Maxim.Admin.ManagedGiveaway
