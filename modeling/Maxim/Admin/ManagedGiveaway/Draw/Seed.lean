import Maxim.Admin.ManagedGiveaway.Draw.Leases

/-!
# The seed of a draw

A seed that is stored stays, as long as every claim of a giveaway that has one
is made by a draw whose first read saw it. A draw that read the giveaway before
its first claim brings a seed of its own.
-/

namespace Maxim.Admin.ManagedGiveaway.Draw

open Maxim.Library

variable {ω υ ρ : Type}

def Update.drawSeed? : Update → Option String
  | .claimDraw _ drawSeed _ | .resumeDraw drawSeed _ _ => some drawSeed
  | _ => none

def stores? (x : Event ω υ ρ) : Option String := (counted? x).bind fun a => Update.drawSeed? a.2

/-! ## The seed of the row -/

/-- The giveaway has the seed, trimmed. -/
structure Keeps (drawSeed : String) (s : Records υ ρ) : Prop where
  stored : s.giveaway.drawSeed = some drawSeed
  trimmed : nullableString (some drawSeed) = some drawSeed

variable {s : Records υ ρ}

theorem Keeps.unique {a b : String} (ha : Keeps a s) (hb : Keeps b s) : a = b :=
  Option.some.inj (ha.stored.symm.trans hb.stored)

theorem Keeps.seedOr {drawSeed other : String} (hs : Keeps drawSeed s) :
    Records.seedOr s other = drawSeed := by
  rw [Records.seedOr, hs.stored, hs.trimmed]
  rfl

theorem seedOr_trimmed {drawSeed : String}
    (h : nullableString (some drawSeed) = some drawSeed) :
    nullableString (some (Records.seedOr s drawSeed)) = some (Records.seedOr s drawSeed) := by
  rw [Records.seedOr]
  cases hs : nullableString s.giveaway.drawSeed with
  | none => exact h
  | some seed => exact nullableString_idem hs

theorem isSpace_digitChar (n : Fin 16) : isSpace (Nat.digitChar n) = false := by
  revert n
  decide

theorem RandomBytes.hex_trimmed (b : RandomBytes) : nullableString (some b.hex) = some b.hex := by
  have hdigit (k : Nat) (hk : k < 16) : isSpace (Nat.digitChar k) = false :=
    isSpace_digitChar ⟨k, hk⟩
  obtain ⟨m, t, hfirst⟩ := List.exists_cons_of_length_eq_add_one b.length_eq
  obtain ⟨t', n, hlast⟩ := (List.eq_nil_or_concat b.bytes).resolve_left (by rw [hfirst]; simp)
  have hbegin : b.hex.toList = Nat.digitChar (m.val / 16) ::
      (Nat.digitChar (m.val % 16) :: t.flatMap hexByte) := by
    rw [hex, String.toList_ofList, hfirst]
    rfl
  have hend : b.hex.toList = (t'.flatMap hexByte ++ [Nat.digitChar (n.val / 16)]) ++
      [Nat.digitChar (n.val % 16)] := by
    rw [hex, String.toList_ofList, hlast, List.concat_eq_append, List.flatMap_append]
    simp [hexByte]
  refine nullableString_of_trimmed (trim_eq_self hbegin hend (hdigit _ ?_) (hdigit _ ?_)) ?_
  · omega
  · omega
  · intro hempty
    rw [hempty] at hbegin
    cases hbegin

theorem drawSeed_update {u : Update} (hu : Update.drawSeed? u = none) (row : Giveaway) (now : Nat) :
    (row.update now u).1.drawSeed = row.drawSeed := by
  rw [Giveaway.update]
  split
  · cases u with
    | claimDraw | resumeDraw => cases hu
    | _ => rfl
  · rfl

theorem drawing_of_publish {u : Update} (hu : u.republishes = true) {row : Giveaway} {now : Nat}
    (h : (row.update now u).1.status = .drawing) : row.status = .drawing := by
  rw [Giveaway.update] at h
  split at h
  · cases u with
    | release | lockResults | writeResults | unlockResults | recoverResults | replaceResults => exact h
    | _ => cases hu
  · exact h

variable {x : Event ω υ ρ} {w : ω} {i : Call υ} {now : Nat} {u : Update}

structure SeedStep (x : Event ω υ ρ) (s s' : Records υ ρ) : Prop where
  keeps : ∀ drawSeed, Keeps drawSeed s → Keeps drawSeed s'
  stores : ∀ drawSeed, stores? x = some drawSeed → Keeps drawSeed s'
  drawing : s'.giveaway.status = .drawing →
    s.giveaway.status = .drawing ∨ ∃ drawSeed, stores? x = some drawSeed

theorem SeedStep.same {s' : Records υ ρ} (hseed : s'.giveaway.drawSeed = s.giveaway.drawSeed)
    (hstatus : s'.giveaway.status = .drawing → s.giveaway.status = .drawing)
    (hx : stores? x = none) : SeedStep x s s' where
  keeps drawSeed hs := ⟨hseed.trans hs.stored, hs.trimmed⟩
  stores drawSeed hstores := by rw [hx] at hstores; cases hstores
  drawing h := .inl (hstatus h)

/-- The seed that a draw learns. -/
def Stage.Knows (s : Records υ ρ) : Stage υ ρ → Prop
  | .current _ row => row.giveaway.status = .drawing →
    ∃ drawSeed, Keeps drawSeed row ∧ Keeps drawSeed s
  | .leased _ drawSeed | .holding _ drawSeed _ => Keeps drawSeed s
  | _ => True

theorem Stage.Knows.mono {s' : Records υ ρ} (hs : ∀ drawSeed, Keeps drawSeed s → Keeps drawSeed s')
    {q : Stage υ ρ} (hq : q.Knows s) : q.Knows s' := by
  cases q with
  | current initial row =>
    intro hdrawing
    obtain ⟨drawSeed, hrow, hstored⟩ := hq hdrawing
    exact ⟨drawSeed, hrow, hs drawSeed hstored⟩
  | leased initial drawSeed => exact hs drawSeed hq
  | holding initial drawSeed giveaway => exact hs drawSeed hq
  | _ => trivial

/-- A claim of a giveaway that has a seed is made by a draw whose first read saw it. -/
def FirstReadSaw (s : Records υ ρ) (x : Event ω υ ρ) : Prop :=
  ∀ w initial drawSeed now stored, counted? x = some (w, .claimDraw initial drawSeed now) →
    nullableString s.giveaway.drawSeed = some stored →
    nullableString initial.drawSeed = some stored

theorem SeedStep.of_seed {drawSeed : String} (hu : Update.drawSeed? u = some drawSeed)
    (hx : counted? x = if (s.giveaway.update now u).2 then some (w, u) else none)
    (hdata : (u.data s.giveaway).drawSeed = some drawSeed)
    (htrimmed : nullableString (some drawSeed) = some drawSeed)
    (hkeeps : counted? x = some (w, u) → ∀ stored, Keeps stored s → stored = drawSeed) :
    SeedStep x s { s with giveaway := (s.giveaway.update now u).1 } := by
  rw [Giveaway.update] at hx ⊢
  split at hx
  · next hguard =>
    rw [if_pos hguard]
    rw [if_pos rfl] at hx
    have hnew : Keeps drawSeed { s with giveaway := { u.data s.giveaway with updatedAt := now } } :=
      ⟨hdata, htrimmed⟩
    have hstores : stores? x = some drawSeed := by rw [stores?, hx]; exact hu
    refine ⟨fun stored hs => ?_, fun seed hseed => ?_, fun _ => .inr ⟨drawSeed, hstores⟩⟩
    · exact hkeeps hx stored hs ▸ hnew
    · exact Option.some.inj (hstores.symm.trans hseed) ▸ hnew
  · next hguard =>
    rw [if_neg hguard]
    exact .same rfl id (by rw [stores?, hx]; rfl)

theorem SeedStep.of_update (hu : Update.drawSeed? u = none)
    (hx : performed? x = some (w, i, ⟨.row (.update now u), (s.giveaway.update now u).2⟩))
    (hstatus : (s.giveaway.update now u).1.status = .drawing → s.giveaway.status = .drawing) :
    SeedStep x s { s with giveaway := (s.giveaway.update now u).1 } := by
  refine .same (drawSeed_update hu s.giveaway now) hstatus ?_
  rw [stores?, counted_of_performed hx]
  split
  · exact hu
  · rfl

section Steps

variable [LinearOrder υ] [LinearOrder ρ] {ranks : DrawRanks υ ρ}

theorem seedStep_of_may {q : Stage υ ρ} {e : Op υ ρ} {s : Records υ ρ}
    (hx : performed? x = some (w, i, ⟨e, (e.run s).2⟩)) (hm : FirstReadSaw s x) (hq : q.Knows s)
    (hmay : May ranks i q e) : SeedStep x s (e.run s).1 := by
  have hnone (he : ∀ now u, e ≠ .row (.update now u)) : stores? x = none := by
    rw [stores?, counted?, hx]
    cases e with
    | row e =>
      cases e with
      | find => rfl
      | update now u => exact absurd rfl (he now u)
    | _ => rfl
  cases hmay with
  | find => exact .same rfl id (hnone fun _ _ h => by cases h)
  | activate p =>
    refine .of_update rfl hx fun h => ?_
    rw [Giveaway.update] at h
    split at h
    · cases h
    · exact h
  | admission p q state =>
    have hsame : ((Op.admission p.userId state p.checkedAt).run s).1.giveaway.drawSeed =
          s.giveaway.drawSeed ∧
        ((Op.admission p.userId state p.checkedAt).run s).1.giveaway.status = s.giveaway.status := by
      change (saveEntry s _ _ _).1.giveaway.drawSeed = _ ∧ (saveEntry s _ _ _).1.giveaway.status = _
      rw [saveEntry]
      split <;> exact ⟨rfl, rfl⟩
    exact .same hsame.1 (fun h => hsame.2 ▸ h) (hnone fun _ _ h => by cases h)
  | claim p initial =>
    refine .of_seed rfl (counted_of_performed hx) rfl (seedOr_trimmed p.random.hex_trimmed) ?_
    intro hcounted stored hs
    have hsaw := hm _ _ _ _ stored hcounted (hs.stored ▸ hs.trimmed)
    rw [Records.seedOr, hsaw]
    rfl
  | resume p initial current drawnAt hdrawing =>
    obtain ⟨drawSeed, hcurrent, hstored⟩ := hq hdrawing
    refine .of_seed rfl (counted_of_performed hx) rfl
      (seedOr_trimmed (seedOr_trimmed p.random.hex_trimmed)) fun _ stored hs => ?_
    rw [hcurrent.seedOr]
    exact hs.unique hstored
  | complete p initial drawSeed giveaway c =>
    change SeedStep x s (transact s c p.fate).1
    have hstores := hnone fun _ _ h => by cases h
    rw [transact_eq]
    cases hs : completed s c with
    | error error => exact .same rfl id hstores
    | ok s' =>
      obtain ⟨-, -, rfl⟩ := completed_ok hs
      dsimp only
      split
      · exact .same rfl (fun h => by cases h) hstores
      · exact .same rfl id hstores
  | restore p initial drawSeed giveaway =>
    refine .of_update rfl hx fun h => ?_
    rw [Giveaway.update] at h
    split at h
    · next hguard =>
      simp only [Update.guard, Bool.and_eq_true, beq_iff_eq] at hguard
      exact hguard.1.1
    · exact h
  | publish p now u hu =>
    have hnone : Update.drawSeed? u = none := by
      cases u with
      | claimDraw | resumeDraw => cases hu
      | _ => rfl
    exact .of_update hnone hx (drawing_of_publish hu)

end Steps

/-! ## Runs -/

section Runs

variable [DecidableEq ω] [LinearOrder υ] [LinearOrder ρ] {ranks : DrawRanks υ ρ}
  {ok : List (Event ω υ ρ) → Nat → Move ω (Call υ) → Prop} {s₀ : Records υ ρ}
  {h : List (Event ω υ ρ)} {t : Nat} {p : Pool ω (Call υ) (Op υ ρ) Op.Reply String Unit (Records υ ρ)}

/-- A giveaway that is drawn has a seed, and every seed that was stored is the seed of the row. -/
structure SeedInv (h : List (Event ω υ ρ)) (s : Records υ ρ) : Prop where
  drawing : s.giveaway.status = .drawing → ∃ drawSeed, Keeps drawSeed s
  stored : ∀ x ∈ h, ∀ drawSeed, stores? x = some drawSeed → Keeps drawSeed s

omit [DecidableEq ω] [LinearOrder υ] [LinearOrder ρ] in
theorem SeedInv.step {x : Event ω υ ρ} {s s' : Records υ ρ} (hi : SeedInv h s)
    (hx : SeedStep x s s') : SeedInv (h ++ [x]) s' := by
  constructor
  · intro hdrawing
    rcases hx.drawing hdrawing with hbefore | ⟨drawSeed, hstores⟩
    · obtain ⟨drawSeed, hs⟩ := hi.drawing hbefore
      exact ⟨drawSeed, hx.keeps drawSeed hs⟩
    · exact ⟨drawSeed, hx.stores drawSeed hstores⟩
  · intro y hy drawSeed hstores
    rcases List.mem_append.mp hy with hy | hy
    · exact hx.keeps drawSeed (hi.stored y hy drawSeed hstores)
    · exact hx.stores drawSeed (List.mem_singleton.mp hy ▸ hstores)

omit [DecidableEq ω] in
/-- What a draw knows of the seed after its own step. -/
theorem knows_next {x : Event ω υ ρ} {w : ω} {i : Call υ} {q : Stage υ ρ} {e : Op υ ρ}
    {s : Records υ ρ} (hx : performed? x = some (w, i, ⟨e, (e.run s).2⟩)) (hi : SeedInv h s)
    (hstep : SeedStep x s (e.run s).1) (hq : q.Knows s) (hmay : May ranks i q e) :
    ((drawing ranks).next q e (e.run s).2).Knows (e.run s).1 := by
  have hkept : q.Knows (e.run s).1 := hq.mono hstep.keeps
  have hleased (u : Update) (now : Nat) (initial : Records υ ρ) (drawSeed : String)
      (he : e = .row (.update now u)) (hu : Update.drawSeed? u = some drawSeed)
      (hcounted : (s.giveaway.update now u).2 = true) :
      (Stage.leased initial drawSeed).Knows (e.run s).1 := by
    subst he
    refine hstep.stores drawSeed ?_
    have hc := counted_of_performed hx
    change counted? x = if (s.giveaway.update now u).2 then _ else _ at hc
    rw [hcounted, if_pos rfl] at hc
    rw [stores?, hc]
    exact hu
  cases hmay with
  | find =>
    cases q with
    | refused initial =>
      intro hdrawing
      obtain ⟨drawSeed, hs⟩ := hi.drawing hdrawing
      exact ⟨drawSeed, hs, hs⟩
    | start => trivial
    | _ => exact hkept
  | claim p initial =>
    rw [next_update]
    cases hr : (s.giveaway.update p.now (.claimDraw initial.giveaway
      (Records.seedOr initial p.random.hex) p.now)).2 with
    | false => trivial
    | true => exact hleased _ _ initial _ rfl rfl hr
  | resume p initial current drawnAt =>
    rw [next_update]
    cases hr : (s.giveaway.update p.now (.resumeDraw (Records.seedOr current
      (Records.seedOr initial p.random.hex)) drawnAt p.now)).2 with
    | false => trivial
    | true => exact hleased _ _ initial _ rfl rfl hr
  | complete p initial drawSeed giveaway c =>
    rcases next_complete (.holding initial drawSeed giveaway) c p.fate s with hq' | ⟨hq', -⟩
    · rw [hq']
      exact hkept
    · rw [hq']
      trivial
  | restore => trivial
  | publish p now u hu =>
    cases u with
    | claimDraw | resumeDraw | restoreDraw => cases hu
    | _ => trivial
  | activate => exact hkept
  | admission => exact hkept

theorem run_seed (hstart : s₀.giveaway.status = .drawing → ∃ drawSeed, Keeps drawSeed s₀)
    (hr : DrawRun ranks ok s₀ h t p)
    (hmeets : ∀ h₁ x h₂, h = h₁ ++ x :: h₂ → FirstReadSaw (after ranks s₀ h₁) x) :
    SeedInv h p.store ∧ ∀ w i q, (drawing ranks).phase h w = some (i, q) → q.Knows p.store := by
  refine Pool.run_ghost (fun h x => FirstReadSaw (after ranks s₀ h) x) SeedInv
    (fun _ _ _ q s => q.Knows s) program_follows ⟨hstart, fun x hx => by cases hx⟩ ?_ ?_ ?_ hr hmeets
  · intro h x s hx hi
    refine ⟨hi.step (.same rfl id ?_), fun _ _ _ hq => hq⟩
    rw [stores?, counted?, hx]
    rfl
  · exact fun _ _ _ _ _ => trivial
  · intro h x w i q e s hx hs hm hi hq _ hmay
    have hstep := seedStep_of_may hx (hs ▸ hm) hq hmay
    exact ⟨hi.step hstep, knows_next hx hi hstep hq hmay, fun _ _ _ _ hq' => hq'.mono hstep.keeps⟩

/-- A stored seed is the seed of the giveaway, and of every later claim, resume and commit. -/
structure WriteOnce (ranks : DrawRanks υ ρ) (s₀ : Records υ ρ) (h h₁ h₂ : List (Event ω υ ρ))
    (drawSeed : String) : Prop where
  stored : (after ranks s₀ h).giveaway.drawSeed = some drawSeed
  claims : ∀ y ∈ h₂, ∀ later, stores? y = some later → later = drawSeed
  commits : ∀ g y g' w c, h₂ = g ++ y :: g' → commits? (after ranks s₀ (h₁ ++ g)) y = some (w, c) →
    c.drawSeed = drawSeed ∧ c.rankedEntries = ranks.rankEntries drawSeed c.refreshedEntries

theorem drawSeed_write_once
    (hstart : s₀.giveaway.status = .drawing → ∃ drawSeed, Keeps drawSeed s₀)
    (hr : DrawRun ranks ok s₀ h t p)
    (hmeets : ∀ h₁ x h₂, h = h₁ ++ x :: h₂ → FirstReadSaw (after ranks s₀ h₁) x)
    (h₁ : List (Event ω υ ρ)) (x : Event ω υ ρ) (h₂ : List (Event ω υ ρ)) (drawSeed : String)
    (he : h = h₁ ++ x :: h₂) (hx : stores? x = some drawSeed) :
    WriteOnce ranks s₀ h (h₁ ++ [x]) h₂ drawSeed := by
  subst he
  have hmem : x ∈ h₁ ++ x :: h₂ := List.mem_append_right h₁ List.mem_cons_self
  obtain ⟨hinv, -⟩ := run_seed hstart hr hmeets
  have hkeeps := hinv.stored x hmem drawSeed hx
  refine ⟨?_, fun y hy later hlater => ?_, ?_⟩
  · rw [after, Pool.run_after hr]
    exact hkeeps.stored
  · have hlast := hinv.stored y (List.mem_append_right h₁ (List.mem_cons_of_mem x hy)) later hlater
    exact hlast.unique hkeeps
  · rintro g y g' w c rfl hc
    have hsplit : h₁ ++ x :: (g ++ y :: g') = (h₁ ++ [x] ++ g) ++ y :: g' := by simp
    have hbefore : x ∈ h₁ ++ [x] ++ g := by simp
    rw [hsplit] at hr hmeets
    obtain ⟨t₁, p₁, hr₁, hstore, hy⟩ := Pool.run_at program_follows hr
    obtain ⟨hi, hknows⟩ :=
      run_seed hstart hr₁ fun g₁ z g₂ he => hmeets g₁ z (g₂ ++ y :: g') (by rw [he]; simp)
    obtain ⟨i, fate, r, hperformed⟩ := performed_of_commits hc
    obtain ⟨w', i', q, e, hshown, hq, hmay, -⟩ := hy.performed.resolve_left (by simp [hperformed])
    rw [hperformed] at hshown
    obtain ⟨rfl, rfl, hop⟩ : w = w' ∧ i = i' ∧ (⟨.complete c fate, r⟩ : (e : Op υ ρ) × e.Reply) =
        ⟨e, (e.run p₁.store).2⟩ := by
      simpa using hshown
    obtain ⟨rfl, -⟩ := Sigma.mk.inj hop
    cases hmay with
    | complete j initial seed giveaway _ hprepared =>
      obtain ⟨eligibility, refreshedEntries, -, -, rfl⟩ := completion_ok hprepared
      have hknown : Keeps seed p₁.store := hknows w _ _ hq
      obtain rfl := hknown.unique (hi.stored x hbefore drawSeed hx)
      exact ⟨rfl, rfl⟩

end Runs

/-! ## Examples -/

def firstReadSaw (s : Records υ ρ) (x : Event ω υ ρ) : Bool :=
  match counted? x with
  | some (_, .claimDraw initial _ _) =>
    (nullableString s.giveaway.drawSeed).all fun stored =>
      nullableString initial.drawSeed == some stored
  | _ => true

theorem firstReadSaw_of_check {x : Event ω υ ρ} (h : firstReadSaw s x = true) :
    FirstReadSaw s x := by
  intro w initial drawSeed now stored hx hstored
  simpa [firstReadSaw, hx, hstored] using h

def sampleRanks : DrawRanks Nat Nat := ⟨fun s => (s.toList.map Char.toNat).sum % 10, toString⟩

def sampleGiveaway : Records Nat Nat where
  giveaway := { status := .active, description := "A prize", startsAt := none, endsAt := 1000000 }
  claimHours := 24
  prizes := [⟨7, 2⟩, ⟨8, 1⟩]
  entries := [{ userId := 1 }, { userId := 2 }, { userId := 3 }]
  winners := []
  notifications := []

def sampleServices : Services := ⟨⟨"g", id⟩, true, true⟩

instance byteNeZero : NeZero 256 := ⟨by decide⟩

/-- A draw of an administrator at the date, with its random number. -/
def drawAt (now : Nat) (byte : Fin 256)
    (eligibility : Except String (Nat → Option EligibilityState)) : Call Nat :=
  .draw {
    runner := false, now, random := ⟨List.replicate 32 byte, rfl⟩, eligibility
    winnerId := (· + 100), completedAt := now, fate := .committed, restoredAt := now
    services := sampleServices
    results := ⟨now, .free, now, now, .failed "refused" true, true, now⟩, edits := ⟨true, []⟩ }

def sampleEligibility (userId : Nat) : Option EligibilityState :=
  some (if userId = 2 then .rejected else .verified)

/-- A draw fails after its claim, and another one completes the giveaway. -/
def retriedRun : List (Event Nat Nat Nat) ×
    Pool Nat (Call Nat) (Op Nat Nat) Op.Reply String Unit (Records Nat Nat) :=
  play (Pool.step Op.run (Call.program sampleRanks)) (Pool.start sampleGiveaway)
    ((1000000, .call 0 (drawAt 1000000 0 (.error "unavailable"))) ::
        List.replicate 4 (1000000, .resume 0) ++
      (2000000, .call 1 (drawAt 2000000 1 (.ok sampleEligibility))) ::
        List.replicate 6 (2000000, .resume 1))

theorem drawSeed_write_once_retried :
    ∃ x, stores? x = some (RandomBytes.hex ⟨List.replicate 32 0, rfl⟩) ∧
      WriteOnce sampleRanks sampleGiveaway retriedRun.1 (retriedRun.1.take 2 ++ [x])
        (retriedRun.1.drop 3) (RandomBytes.hex ⟨List.replicate 32 0, rfl⟩) := by
  have hmeets : ∀ n : Fin retriedRun.1.length, firstReadSaw
      (after sampleRanks sampleGiveaway (retriedRun.1.take n)) (retriedRun.1.get n) = true := by
    decide +kernel
  have hfirst : retriedRun.1[2]?.bind stores? = some (RandomBytes.hex ⟨List.replicate 32 0, rfl⟩) := by
    decide +kernel
  obtain ⟨x, hx, hstores⟩ := Option.bind_eq_some_iff.mp hfirst
  obtain ⟨t, hr⟩ :
      ∃ t, DrawRun sampleRanks (fun _ _ _ => True) sampleGiveaway retriedRun.1 t retriedRun.2 :=
    run_play (by decide) (accepted_of_forall (fun _ _ _ => trivial) _ _)
  exact ⟨_, hstores, drawSeed_write_once (fun h => by cases h) hr
    (splits_take fun n hn => firstReadSaw_of_check (hmeets ⟨n, hn⟩)) _ _ _ _
    (eq_take_cons_drop hx) hstores⟩

/-- A draw reads the giveaway, another one claims it and fails, and the first one claims it. -/
def overtakenRun : List (Event Nat Nat Nat) ×
    Pool Nat (Call Nat) (Op Nat Nat) Op.Reply String Unit (Records Nat Nat) :=
  play (Pool.step Op.run (Call.program sampleRanks)) (Pool.start sampleGiveaway)
    ([(1000000, .call 0 (drawAt 1000000 0 (.ok sampleEligibility))), (1000000, .resume 0),
        (1000500, .call 1 (drawAt 1000500 1 (.error "unavailable")))] ++
      List.replicate 4 (1000500, .resume 1) ++ [(1001000, .resume 0)])

/-- A draw that read the giveaway before the first claim stores a seed of its own. -/
theorem retry_rerolls : ¬∀ (h : List (Event Nat Nat Nat)) (t : Nat)
    (p : Pool Nat (Call Nat) (Op Nat Nat) Op.Reply String Unit (Records Nat Nat)),
    DrawRun sampleRanks (fun _ _ _ => True) sampleGiveaway h t p →
    ∀ h₁ x h₂ drawSeed, h = h₁ ++ x :: h₂ → stores? x = some drawSeed →
      WriteOnce sampleRanks sampleGiveaway h (h₁ ++ [x]) h₂ drawSeed := by
  intro hall
  have hfirst : overtakenRun.1[4]?.bind stores? =
      some (RandomBytes.hex ⟨List.replicate 32 1, rfl⟩) := by decide +kernel
  have hsecond : (overtakenRun.1.drop 5)[2]?.bind stores? =
      some (RandomBytes.hex ⟨List.replicate 32 0, rfl⟩) := by decide +kernel
  have hne : RandomBytes.hex ⟨List.replicate 32 0, rfl⟩ ≠
      RandomBytes.hex ⟨List.replicate 32 1, rfl⟩ := by decide +kernel
  obtain ⟨t, hr⟩ :
      ∃ t, DrawRun sampleRanks (fun _ _ _ => True) sampleGiveaway overtakenRun.1 t overtakenRun.2 :=
    run_play (by decide) (accepted_of_forall (fun _ _ _ => trivial) _ _)
  obtain ⟨x, hx, hstores⟩ := Option.bind_eq_some_iff.mp hfirst
  obtain ⟨y, hy, hlater⟩ := Option.bind_eq_some_iff.mp hsecond
  exact hne ((hall _ t _ hr _ _ _ _ (eq_take_cons_drop hx) hstores).claims y
    (List.mem_of_getElem? hy) _ hlater)

end Maxim.Admin.ManagedGiveaway.Draw
