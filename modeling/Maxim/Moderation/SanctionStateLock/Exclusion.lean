import Maxim.Moderation.SanctionStateLock.Effects

/-!
# The sections of one member never overlap

Until a lease expires by its own estimate, Redis holds the lock for its call,
unless it has performed the release of this call. The estimate of a lease comes
from the start of a request that Redis has granted, so it does not matter in
which order the replies arrive.
-/

namespace Maxim.Moderation.SanctionStateLock

open Maxim.Library

variable {ι : Type}

/-- Redis has performed the release of call `i`. -/
def Released (h : List (Entry (Event ι) (Outcome ι))) (i : ι) : Prop :=
  ∃ e ∈ h, ∃ status, e.reply = .performed i .release status

/-- Redis has answered the release of call `i`. -/
def Outcome.releases [DecidableEq ι] (i : ι) : Outcome ι → Bool
  | .performed owner .release _ => owner = i
  | _ => false

theorem Outcome.releases_iff [DecidableEq ι] {i : ι} {outcome : Outcome ι} :
    outcome.releases i = true ↔ ∃ status, outcome = .performed i .release status := by
  constructor
  · intro hr
    unfold Outcome.releases at hr
    split at hr
    · exact ⟨_, by rw [of_decide_eq_true hr]⟩
    · cases hr
  · rintro ⟨status, rfl⟩
    exact decide_eq_true rfl

instance [DecidableEq ι] (h : List (Entry (Event ι) (Outcome ι))) (i : ι) :
    Decidable (Released h i) :=
  decidable_of_iff (∃ e ∈ h, e.reply.releases i = true)
    (exists_congr fun _ => and_congr_right fun _ => Outcome.releases_iff)

def World.Settled (world : World ι) (i : ι) : Prop :=
  ∃ lease stage, world.call i = .leased lease stage ∧ stage ≠ .operating

/-- Call `i` has found its lease lost. -/
def World.Lost (world : World ι) (i : ι) : Prop :=
  ∃ lease stage, world.call i = .leased lease stage ∧ lease.lost = true

theorem released_snoc {h : List (Entry (Event ι) (Outcome ι))} {e : Entry (Event ι) (Outcome ι)}
    {i : ι} : Released (h ++ [e]) i ↔
      Released h i ∨ ∃ status, e.reply = .performed i .release status := by
  simp [Released, or_and_right, exists_or]

/-- What the estimates of the calls rest on. -/
structure Sound (offset : ι → Int) (h : List (Entry (Event ι) (Outcome ι))) (now : Nat)
    (world : World ι) : Prop where
  expires : ExpiresBy (now + ttlMs) world.lock
  started : ∀ request ∈ world.wire, request.startedAtMs ≤ now + offset request.owner
  granted : ∀ request ∈ world.wire, request.Granted → ¬Released h request.owner →
    Holds now world.lock request.owner (request.startedAtMs + ttlMs - offset request.owner)
  leased : ∀ i lease stage, world.call i = .leased lease stage → ¬Released h i →
    Holds now world.lock i (lease.conservativeExpiresAtMs - offset i)
  releasing : ∀ request ∈ world.wire, request.command = .release → world.Settled request.owner
  released : ∀ i, Released h i → world.Settled i

namespace Sound

variable {offset : ι → Int} {h : List (Entry (Event ι) (Outcome ι))} {now : Nat}
  {event : Event ι} {world next : World ι} {outcome : Outcome ι}

theorem init : Sound offset [] 0 (World.init : World ι) := by
  refine ⟨expiresBy_none, ?_, ?_, ?_, ?_, ?_⟩ <;> simp [World.init, Released]

theorem clock {now' : Nat} (hs : Sound offset h now world) (hle : now ≤ now') :
    Sound offset h now' world where
  expires := hs.expires.mono (by omega)
  started request hr := by
    have := hs.started request hr
    omega
  granted request hr hg hn := (hs.granted request hr hg hn).mono hle
  leased i lease stage hc hn := (hs.leased i lease stage hc hn).mono hle
  releasing := hs.releasing
  released := hs.released

theorem earned (hs : Sound offset h now world) {i : ι} {b : Int} (he : Earned world i b)
    (hn : ¬Released h i) : Holds now world.lock i (b - offset i) := by
  obtain ⟨request, hr, rfl, hg, rfl⟩ := he
  exact hs.granted request hr hg hn

theorem idle {e : Entry (Event ι) (Outcome ι)} (hs : Sound offset h now world)
    {wire : List (Request ι)} (hwire : ∀ request ∈ wire, Carried world request)
    (he : ∀ i status, e.reply ≠ .performed i .release status) :
    Sound offset (h ++ [e]) now { world with wire } where
  expires := hs.expires
  started request hr := by
    obtain ⟨sent, hsent, awaited, rfl, -⟩ := hwire request hr
    exact hs.started sent hsent
  granted request hr hg hn := by
    obtain ⟨sent, hsent, awaited, rfl, -⟩ := hwire request hr
    exact hs.granted sent hsent hg fun hrel => hn (released_snoc.mpr (.inl hrel))
  leased i lease stage hc hn :=
    hs.leased i lease stage hc fun hrel => hn (released_snoc.mpr (.inl hrel))
  releasing request hr hcmd := by
    obtain ⟨sent, hsent, awaited, rfl, -⟩ := hwire request hr
    exact hs.releasing sent hsent hcmd
  released i hrel := by
    rcases released_snoc.mp hrel with hrel | ⟨status, hst⟩
    · exact hs.released i hrel
    · exact absurd hst (he i status)

theorem performs [DecidableEq ι] {e : Entry (Event ι) (Outcome ι)} (hs : Sound offset h now world) {n : Nat}
    {request : Request ι} (hn : world.wire[n]? = some request)
    (he : e.reply = .performed request.owner request.command
      (request.command.perform now request.owner world.lock).2) :
    Sound offset (h ++ [e]) now { world with
      lock := (request.command.perform now request.owner world.lock).1
      wire := world.wire.set n { request with
        reply := some (request.command.perform now request.owner world.lock).2 } } := by
  have hmem := List.mem_of_getElem? hn
  -- a call that is not released now has not been before, and this is not its release
  have hkept : ∀ {i : ι}, ¬Released (h ++ [e]) i →
      ¬Released h i ∧ ¬(request.command = .release ∧ request.owner = i) := by
    intro i hrel
    refine ⟨fun hrel' => hrel (released_snoc.mpr (.inl hrel')), ?_⟩
    rintro ⟨hcmd, rfl⟩
    exact hrel (released_snoc.mpr (.inr ⟨_, by rw [he, hcmd]⟩))
  refine ⟨perform_expires hs.expires, ?_, ?_, ?_, ?_, ?_⟩
  · intro r hr
    rcases List.mem_or_eq_of_mem_set hr with hr | rfl
    · exact hs.started r hr
    · exact hs.started request hmem
  · intro r hr hg hrel
    rcases List.mem_or_eq_of_mem_set hr with hr | rfl
    · exact perform_holds (hs.granted r hr hg (hkept hrel).1) hs.expires (hkept hrel).2
    · obtain ⟨status, hst, hgrants⟩ := hg
      cases hst
      rcases perform_cases now request.owner world.lock request.command with
        ⟨-, hlock, -⟩ | ⟨hno, -⟩ | ⟨hcmd, -, -⟩
      · dsimp only
        rw [hlock]
        have := hs.started request hmem
        exact holds_cell (by push_cast; omega)
      · exact absurd hgrants hno
      · exact absurd ⟨hcmd, rfl⟩ (hkept hrel).2
  · intro i lease stage hc hrel
    exact perform_holds (hs.leased i lease stage hc (hkept hrel).1) hs.expires (hkept hrel).2
  · intro r hr hcmd
    rcases List.mem_or_eq_of_mem_set hr with hr | rfl
    · exact hs.releasing r hr hcmd
    · exact hs.releasing request hmem hcmd
  · intro i hrel
    rcases released_snoc.mp hrel with hrel | ⟨status, hst⟩
    · exact hs.released i hrel
    · rw [he, Outcome.performed.injEq] at hst
      obtain ⟨rfl, hcmd, -⟩ := hst
      exact hs.releasing request hmem hcmd

theorem moves [DecidableEq ι] {e : Entry (Event ι) (Outcome ι)} (hs : Sound offset h now world)
    {i : ι} {call : Call} {wire : List (Request ι)}
    (hg : Goes world (now + offset i) event i (world.call i) call e.reply)
    (hwire : ∀ request ∈ wire, Sends (now + offset i) event i call request ∨ Carried world request) :
    Sound offset (h ++ [e]) now { world with call := Function.update world.call i call, wire } := by
  have hkept : ∀ {j : ι}, ¬Released (h ++ [e]) j → ¬Released h j :=
    fun hn hrel => hn (released_snoc.mpr (.inl hrel))
  have hsettled : ∀ {j : ι}, world.Settled j →
      World.Settled { world with call := Function.update world.call i call, wire } j := by
    rintro j ⟨lease, stage, hc, hst⟩
    by_cases hj : j = i
    · subst hj
      obtain ⟨lease', stage', hnext, hst'⟩ := hg.settled hc hst
      exact ⟨lease', stage', by simp [hnext], hst'⟩
    · exact ⟨lease, stage, by simp [hj, hc], hst⟩
  refine ⟨hs.expires, ?_, ?_, ?_, ?_, ?_⟩
  · intro request hr
    rcases hwire request hr with hsend | ⟨sent, hsent, awaited, rfl, -⟩
    · rw [hsend.started, hsend.owner]
    · exact hs.started sent hsent
  · intro request hr hgrant hn
    rcases hwire request hr with hsend | ⟨sent, hsent, awaited, rfl, -⟩
    · obtain ⟨status, hst, -⟩ := hgrant
      rw [hsend.unheard] at hst
      cases hst
    · exact hs.granted sent hsent hgrant (hkept hn)
  · intro j lease stage hc hn
    dsimp only at hc ⊢
    by_cases hj : j = i
    · subst hj
      rw [Function.update_self] at hc
      rcases hg.expiry hc with ⟨lease₀, stage₀, hc₀, he⟩ | hearned
      · rw [he]
        exact hs.leased j lease₀ stage₀ hc₀ (hkept hn)
      · exact hs.earned hearned (hkept hn)
    · rw [Function.update_of_ne hj] at hc
      exact hs.leased j lease stage hc (hkept hn)
  · intro request hr hcmd
    rcases hwire request hr with hsend | ⟨sent, hsent, awaited, rfl, -⟩
    · obtain ⟨lease, failed, lost, rfl⟩ := hsend.release hcmd
      rw [hsend.owner]
      exact ⟨lease, .releasing failed lost, by simp, by simp⟩
    · exact hsettled (hs.releasing sent hsent hcmd)
  · intro j hrel
    rcases released_snoc.mp hrel with hrel | ⟨status, hst⟩
    · exact hsettled (hs.released j hrel)
    · exact absurd hst (hg.ne_performed _ _ _)

theorem step [DecidableEq ι] (hs : Sound offset h now world) (event : Event ι) :
    Sound offset (h ++ [⟨now, event, (SanctionStateLock.step offset now event world).2⟩]) now
      (SanctionStateLock.step offset now event world).1 := by
  generalize hentry : (⟨now, event, (SanctionStateLock.step offset now event world).2⟩ :
    Entry (Event ι) (Outcome ι)) = e
  have hreply : e.reply = (SanctionStateLock.step offset now event world).2 := by rw [← hentry]
  have heff := step_effect offset now event world
  rw [← hreply] at heff
  generalize (SanctionStateLock.step offset now event world).1 = next at heff ⊢
  generalize hout : e.reply = outcome at heff
  cases heff with
  | idle ho hwire =>
    refine hs.idle hwire fun i status he => ?_
    rcases ho with rfl | ⟨j, error, rfl⟩ <;> rw [hout] at he <;> cases he
  | performs hn => exact hs.performs hn hout
  | moves hg hwire => exact hs.moves (hout ▸ hg) hwire

end Sound

section Runs

variable [DecidableEq ι] {offset : ι → Int}

abbrev AnyRun (offset : ι → Int) (h : List (Entry (Event ι) (Outcome ι))) (t : Nat)
    (world : World ι) : Prop :=
  Run (step offset) (fun _ _ _ => True) World.init h t world

theorem sound_of_run {h : List (Entry (Event ι) (Outcome ι))} {t : Nat} {world : World ι}
    (hr : AnyRun offset h t world) : Sound offset h t world :=
  hr.invariant (Sound offset) .init (fun _ _ _ _ hs hle => hs.clock hle)
    fun _ _ _ event hs _ => hs.step event

end Runs

end Maxim.Moderation.SanctionStateLock
