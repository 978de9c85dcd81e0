import Maxim.Library.Fallible
import Maxim.Moderation.CommercialOcr.Admission.Rows

/-!
# Observation is absorbing and admission happens once

A row is written so that it outlives the admission age of its job. While it is
there, a reserve finds it and answers its state; when it is gone, the job is
too old to be admitted.
-/

namespace Maxim.Moderation.CommercialOcr.Admission

open Maxim.Library

variable {κ χ ι : Type} [LinearOrder κ] [DecidableEq χ] [DecidableEq ι]

structure Jobs (κ χ : Type) where
  chatHash : κ → χ
  imageCount : κ → Nat
  sourceCreatedAtMs : κ → Nat
  counted : ∀ j, 1 ≤ imageCount j ∧ imageCount j ≤ 10

/-- Every call names the job as it is, and uses the same limits. -/
def Asks (jobs : Jobs κ χ) (limits : CommercialOcrAdmissionLimits) : Request κ χ ι → Prop
  | .reserve r => r.chatHash = jobs.chatHash r.jobId ∧ r.imageCount = jobs.imageCount r.jobId ∧
      r.sourceCreatedAtMs = jobs.sourceCreatedAtMs r.jobId ∧ r.limits = limits
  | .activate _ tombstoneTtlMs => tombstoneTtlMs = limits.reservationTtlMs
  | .suppress j chatHash imageCount tombstoneTtlMs => chatHash = jobs.chatHash j ∧
      imageCount = jobs.imageCount j ∧ tombstoneTtlMs = limits.reservationTtlMs
  | .resolveState _ => True
  | .release j chatHash => chatHash = jobs.chatHash j
  | .recordLogical j chatHash _ _ _ => chatHash = jobs.chatHash j

abbrev Event (κ χ ι : Type) := Entry (Request κ χ ι) Reply

abbrev AdmissionRun (jobs : Jobs κ χ) (limits : CommercialOcrAdmissionLimits)
    (h : List (Event κ χ ι)) (t : Nat) (k : Keys κ χ ι) : Prop :=
  Run step (fun _ _ => Asks jobs limits) Keys.empty h t k

theorem validateBoundedInteger_ok {value lo hi n : Nat} {name : String}
    (h : validateBoundedInteger value lo hi name = .ok n) : n = value ∧ lo ≤ n ∧ n ≤ hi := by
  rw [validateBoundedInteger] at h
  split at h
  · cases h
  · rename_i hin
    rw [not_or] at hin
    obtain rfl := Except.ok.inj h
    exact ⟨rfl, Nat.not_lt.mp hin.1, Nat.not_lt.mp hin.2⟩

/-- Limits that the store accepts. -/
structure Valid (limits : CommercialOcrAdmissionLimits) : Prop where
  reserved : limits.reservedActionableImageUnits ≤ limits.maxGlobalImageUnits
  chat : limits.maxChatImageUnits ≤ limits.maxGlobalImageUnits
  ttl : MIN_RESERVATION_TTL_MS ≤ limits.reservationTtlMs
  age : limits.maxJobAgeMs + MAX_FUTURE_SKEW_MS ≤ limits.reservationTtlMs

theorem valid_of_validateLimits {limits l : CommercialOcrAdmissionLimits}
    (h : validateLimits limits = .ok l) : Valid limits := by
  obtain ⟨g, hg, h⟩ := bind_eq_ok.mp h
  obtain ⟨c, hc, h⟩ := bind_eq_ok.mp h
  obtain ⟨res, hres, h⟩ := bind_eq_ok.mp h
  obtain ⟨a, ha, h⟩ := bind_eq_ok.mp h
  obtain ⟨ttl, ht, h⟩ := bind_eq_ok.mp h
  obtain ⟨rfl, -, -⟩ := validateBoundedInteger_ok hg
  obtain ⟨rfl, -, hchat⟩ := validateBoundedInteger_ok hc
  obtain ⟨rfl, -, hreserved⟩ := validateBoundedInteger_ok hres
  obtain ⟨rfl, -, -⟩ := validateBoundedInteger_ok ha
  obtain ⟨rfl, hmin, -⟩ := validateBoundedInteger_ok ht
  split at h
  · cases h
  rename_i hage
  exact ⟨hreserved, hchat.trans (min_le_left _ _), hmin, Nat.not_lt.mp hage⟩

def Past (jobs : Jobs κ χ) (limits : CommercialOcrAdmissionLimits) (now : Nat) (j : κ) : Prop :=
  jobs.sourceCreatedAtMs j + limits.maxJobAgeMs < now

/-- A row that the call may write outlives the admission age of its job. Of a reserve only the
last millisecond of both allowances is excluded. -/
def Timely (jobs : Jobs κ χ) (limits : CommercialOcrAdmissionLimits) (now : Nat) :
    Request κ χ ι → Prop
  | .reserve r => ¬(limits.reservationTtlMs = limits.maxJobAgeMs + MAX_FUTURE_SKEW_MS ∧
      jobs.sourceCreatedAtMs r.jobId = now + MAX_FUTURE_SKEW_MS)
  | .suppress j _ _ _ => Past jobs limits (now + limits.reservationTtlMs) j
  | _ => True

/-! ## What every run keeps -/

/-- Rows and scores come and go together, and a score is past the admission age of its job. -/
structure Watched (jobs : Jobs κ χ) (limits : CommercialOcrAdmissionLimits) (now : Nat)
    (k : Keys κ χ ι) : Prop where
  dated : Dated (limits.reservationTtlMs * 2) now k
  paired : Paired k
  outlives : ∀ j s, field k.globalExpiry j = some s → Past jobs limits s j

variable {jobs : Jobs κ χ} {limits : CommercialOcrAdmissionLimits} {k k' mid : Keys κ χ ι}
  {now : Nat} {request : Request κ χ ι} {reply : Reply}

omit [LinearOrder κ] [DecidableEq χ] [DecidableEq ι] in
theorem Past.mono {t : Nat} {j : κ} (h : Past jobs limits t j) (hle : t ≤ now) :
    Past jobs limits now j := Nat.lt_of_lt_of_le h hle

theorem dated_step (hv : Valid limits) (hd : Dated (limits.reservationTtlMs * 2) now k)
    (ha : Asks jobs limits request) :
    Dated (limits.reservationTtlMs * 2) now (step now request k).1 := by
  have hpos : 0 < limits.reservationTtlMs := Nat.lt_of_lt_of_le (by decide) hv.ttl
  have hd' : Dated (limits.reservationTtlMs * 2) now (k.purge now) := by
    obtain ⟨d, hle, hd⟩ := hd
    exact ⟨d, hle, hd.purge now⟩
  cases request with
  | reserve r =>
    obtain ⟨-, -, -, rfl⟩ := ha
    exact dated_reserve hd' hpos
  | activate j ttlMs =>
    obtain rfl := ha
    exact dated_activate hd' hpos
  | suppress j c n ttlMs =>
    obtain ⟨-, -, rfl⟩ := ha
    exact dated_suppress hd' hpos
  | resolveState j => exact hd'
  | release j c => exact dated_release hd'
  | recordLogical j c phase outcome identity => exact dated_recordLogical hd'

omit [DecidableEq χ] [DecidableEq ι] in
theorem outlives_wrote (hv : Valid limits) (hw : Wrote now request reply k k')
    (ha : Asks jobs limits request) (ht : Timely jobs limits now request)
    (ho : ∀ j s, field k.globalExpiry j = some s → Past jobs limits s j) (j : κ) (s : Nat)
    (hs : field k'.globalExpiry j = some s) : Past jobs limits s j := by
  have hsets : ∀ {j' m s'}, Sets k k' j' m s' → Past jobs limits s' j' → Past jobs limits s j := by
    intro j' m s' hsets hpast
    by_cases hj : j = j'
    · subst hj
      rw [hsets.2.1, Option.some.injEq] at hs
      exact hs ▸ hpast
    · exact ho j s (by rw [← (hsets.2.2 j hj).2, hs])
  cases hw with
  | nothing same => exact ho j s (by rw [← (same j).2, hs])
  | observed j' m s₁ s₂ _ score later sets => exact hsets sets ((ho j' s₁ score).mono later)
  | buried j' c n ttlMs _ sets =>
    obtain ⟨-, -, rfl⟩ := ha
    exact hsets sets ht
  | admitted r _ young old sets =>
    obtain ⟨-, -, hsource, rfl⟩ := ha
    refine hsets sets ?_
    have hage := hv.age
    rw [Timely, ← hsource] at ht
    rw [Past, ← hsource]
    omega
  | activated j' ttlMs m s₁ _ score _ _ sets => exact hsets sets (ho j' s₁ score)

omit [DecidableEq χ] [DecidableEq ι] in
theorem outlives_cleaned (hc : Cleaned now k mid)
    (ho : ∀ j s, field k.globalExpiry j = some s → Past jobs limits s j) (j : κ) (s : Nat)
    (hs : field mid.globalExpiry j = some s) : Past jobs limits s j := by
  rcases hc j with ⟨-, hsame⟩ | ⟨-, hnone, -⟩
  · exact ho j s (by rw [← hsame, hs])
  · rw [hnone] at hs
    cases hs

theorem Watched.step (hv : Valid limits) (h : Watched jobs limits now k)
    (ha : Asks jobs limits request) (ht : Timely jobs limits now request) :
    Watched jobs limits now (step now request k).1 := by
  obtain ⟨d, -, hd⟩ := h.dated
  obtain ⟨mid, hclean, hwrote⟩ := @wrote_step κ χ ι _ _ _ now _ _ hd h.paired request
  exact ⟨dated_step hv h.dated ha, hwrote.paired (h.paired.cleaned hclean),
    outlives_wrote hv hwrote ha ht (outlives_cleaned hclean h.outlives)⟩

omit [DecidableEq χ] [DecidableEq ι] in
theorem Watched.later {t : Nat} (h : Watched jobs limits t k) (hle : t ≤ now) :
    Watched jobs limits now k := by
  obtain ⟨d, hd, hk⟩ := h.dated
  exact ⟨⟨d, by omega, hk⟩, h.paired, h.outlives⟩

omit [DecidableEq χ] [DecidableEq ι] in
theorem watched_empty : Watched jobs limits 0 (Keys.empty : Keys κ χ ι) where
  dated := ⟨0, Nat.zero_le _, expiresAt_none _, expiresAt_none _, by simp [Keys.empty],
    ⟨0, le_refl _, expiresAt_none _⟩, fun _ => ⟨0, le_refl _, expiresAt_none _, expiresAt_none _,
      expiresAt_none _, by simp [Keys.empty]⟩⟩
  paired _ := rfl
  outlives := by simp [Keys.empty]

abbrev TimelyRun (jobs : Jobs κ χ) (limits : CommercialOcrAdmissionLimits)
    (h : List (Event κ χ ι)) (t : Nat) (k : Keys κ χ ι) : Prop :=
  Run Admission.step (fun _ now request => Asks jobs limits request ∧ Timely jobs limits now request)
    Keys.empty h t k

theorem watched {h : List (Event κ χ ι)} {t : Nat} (hv : Valid limits)
    (hr : TimelyRun jobs limits h t k) : Watched jobs limits t k :=
  hr.invariant (fun _ t k => Watched jobs limits t k) watched_empty
    (fun _ _ _ _ h hle => h.later hle) fun _ _ _ _ h hok => h.step hv hok.1 hok.2

/-! ## Jobs that have been seen -/

/-- The job has a row with the property, or is too old to get one. -/
def Fenced (jobs : Jobs κ χ) (limits : CommercialOcrAdmissionLimits) (P : Metadata χ → Prop) (j : κ)
    (now : Nat) (k : Keys κ χ ι) : Prop :=
  (∀ m, field k.globalMetadata j = some m → P m) ∧
    (field k.globalMetadata j = none → Past jobs limits now j)

variable {P : Metadata χ → Prop}

omit [DecidableEq χ] [DecidableEq ι] in
theorem Fenced.cleaned {j : κ} (h : Fenced jobs limits P j now k)
    (hw : Watched jobs limits now k) (hc : Cleaned now k mid) : Fenced jobs limits P j now mid := by
  rcases hc j with ⟨hm, -⟩ | ⟨hm, -, hle⟩
  · rwa [Fenced, hm]
  · refine ⟨fun m hsome => by simp [hm] at hsome, fun _ => ?_⟩
    cases hrow : field k.globalMetadata j with
    | none => exact h.2 hrow
    | some m =>
      obtain ⟨s, hs⟩ := hw.paired.score hrow
      exact (hw.outlives j s hs).mono (hle s hs)

omit [DecidableEq χ] [DecidableEq ι] in
theorem Fenced.wrote {j : κ} (h : Fenced jobs limits P j now k)
    (hobserved : ∀ m : Metadata χ, m.state = .observation → P m)
    (hactivated : ∀ m, P m → m.state = .pending →
      P { m with state := .actionable, capacityHeld := true })
    (ha : Asks jobs limits request) (hw : Wrote now request reply k k') :
    Fenced jobs limits P j now k' := by
  have hsets : ∀ {j' m s'}, Sets k k' j' m s' → (j = j' → P m) → Fenced jobs limits P j now k' := by
    intro j' m s' hsets hp
    by_cases hj : j = j'
    · subst hj
      rw [Fenced, hsets.1]
      exact ⟨fun m' hm' => Option.some.inj hm' ▸ hp rfl, by simp⟩
    · rwa [Fenced, (hsets.2.2 j hj).1]
  cases hw with
  | nothing same => rwa [Fenced, (same j).1]
  | observed j' m s₁ s₂ _ _ _ sets => exact hsets sets fun _ => hobserved _ rfl
  | buried j' c n ttlMs _ sets => exact hsets sets fun _ => hobserved _ rfl
  | admitted r row young old sets =>
    refine hsets sets fun hj => ?_
    obtain ⟨-, -, hsource, rfl⟩ := ha
    have hpast := h.2 (by rw [hj]; exact row)
    rw [Past, hj, ← hsource] at hpast
    exact absurd young (Nat.not_le.mpr hpast)
  | activated j' ttlMs m s row _ pending _ sets =>
    exact hsets sets fun hj => hactivated m (h.1 m (by rw [hj]; exact row)) pending

theorem fenced_since {j : κ} {pre post : List (Event κ χ ι)} {t : Nat}
    (hv : Valid limits) (hobserved : ∀ m : Metadata χ, m.state = .observation → P m)
    (hactivated : ∀ m, P m → m.state = .pending →
      P { m with state := .actionable, capacityHeld := true })
    (hpre : ∀ t k, TimelyRun jobs limits pre t k → Fenced jobs limits P j t k)
    (hr : TimelyRun jobs limits (pre ++ post) t k) : Fenced jobs limits P j t k := by
  refine hr.since (fun _ t k => Fenced jobs limits P j t k) hpre
    (fun _ _ _ _ h hle => ⟨h.1, fun hnone => (h.2 hnone).mono hle⟩) fun h t₀ t k i hr hle hf hok => ?_
  have hw := (watched hv hr).later hle
  obtain ⟨d, -, hd⟩ := hw.dated
  obtain ⟨mid, hclean, hwrote⟩ := @wrote_step κ χ ι _ _ _ t _ _ hd hw.paired i
  exact (hf.cleaned hw hclean).wrote hobserved hactivated hok.1 hwrote

def Admits (j : κ) (e : Event κ χ ι) : Prop :=
  ∃ r state, e.request = .reserve r ∧ r.jobId = j ∧ e.reply = .reserve (.admitted state)

omit [DecidableEq ι] in
theorem admitted_reserve {r : Reservation κ χ} {state : CommercialOcrAdmissionState}
    (h : (reserve now r k).2 = .admitted state) :
    field (tidy now r k).globalMetadata r.jobId = none ∧
      now ≤ r.sourceCreatedAtMs + r.limits.maxJobAgeMs := by
  rw [reserve] at h
  split at h
  · cases h
  rename_i hage
  rw [not_or] at hage
  cases hrow : field (tidy now r k).globalMetadata r.jobId with
  | none => exact ⟨rfl, Nat.not_lt.mp hage.1⟩
  | some m =>
    dsimp only at h
    rw [hrow] at h
    dsimp only at h
    rw [again] at h
    split at h
    · cases h
    split at h <;> cases h

theorem Fenced.not_admits {j : κ} (h : Fenced jobs limits P j now k)
    (hw : Watched jobs limits now k) (ha : Asks jobs limits request) :
    ¬Admits j (⟨now, request, (Admission.step now request k).2⟩ : Event κ χ ι) := by
  rintro ⟨r, state, rfl, rfl, hreply⟩
  obtain ⟨d, -, hd⟩ := hw.dated
  have hclean := (cleaned_purge hd now).trans (cleaned_tidy now r (k.purge now))
  obtain ⟨hnone, hyoung⟩ := admitted_reserve (Reply.reserve.inj hreply)
  have hpast := (h.cleaned hw hclean).2 hnone
  obtain ⟨-, -, hsource, rfl⟩ := ha
  rw [Past, ← hsource] at hpast
  omega

theorem fenced_of_admits {j : κ}
    (h : Admits j (⟨now, request, (step now request k).2⟩ : Event κ χ ι)) (t : Nat) :
    Fenced jobs limits (fun _ => True) j t (step now request k).1 := by
  obtain ⟨r, state, rfl, rfl, hreply⟩ := h
  have hanswered : answered (.reserve r : Request κ χ ι) (step now (.reserve r) k).2 =
      some (r.jobId, state) := by
    rw [show (step now (.reserve r) k).2 = .reserve (.admitted state) from hreply]
    rfl
  have hstored := answered_step hanswered
  refine ⟨fun _ _ => trivial, fun hnone => ?_⟩
  rw [stored, hnone] at hstored
  cases hstored

/-- The state is stored for the job after the call, or answered by it. -/
def Shows (e : Event κ χ ι) (k : Keys κ χ ι) (j : κ) (state : CommercialOcrAdmissionState) : Prop :=
  stored k j = some state ∨ answered e.request e.reply = some (j, state)

/-- No observation becomes anything else, no job becomes actionable but by an activation of a pending
row, and no job is admitted twice. -/
structure NeverBack (run : List (Event κ χ ι) → Nat → Keys κ χ ι → Prop) (h : List (Event κ χ ι)) :
    Prop where
  absorbing : ∀ h₁ e₁ h₂ e₂ h₃ t₁ k₁ t₂ k₂ j state, h = h₁ ++ e₁ :: (h₂ ++ e₂ :: h₃) →
    run (h₁ ++ [e₁]) t₁ k₁ → run (h₁ ++ e₁ :: (h₂ ++ [e₂])) t₂ k₂ →
      Shows e₁ k₁ j .observation → Shows e₂ k₂ j state → state = .observation
  activation : ∀ h₁ e h₂ t₁ k₁ t₂ k₂ j, h = h₁ ++ e :: h₂ → run h₁ t₁ k₁ → run (h₁ ++ [e]) t₂ k₂ →
    stored k₂ j = some .actionable → stored k₁ j = some .actionable ∨
      stored k₁ j = some .pending ∧ ∃ ttlMs, e.request = .activate j ttlMs
  once : ∀ h₁ e₁ h₂ e₂ h₃ j, h = h₁ ++ e₁ :: (h₂ ++ e₂ :: h₃) → Admits j e₁ → ¬Admits j e₂

theorem Shows.stored {h : List (Event κ χ ι)} {e : Event κ χ ι} {t : Nat} {j : κ}
    {state : CommercialOcrAdmissionState} (hr : TimelyRun jobs limits (h ++ [e]) t k)
    (hs : Shows e k j state) : Admission.stored k j = some state := by
  obtain ⟨t₁, k₁, -, -, -, rfl, hreply, rfl⟩ := hr.snoc_inv
  rcases hs with hs | hs
  · exact hs
  · rw [hreply] at hs
    exact answered_step hs

theorem activation_step {d : Nat} {j : κ} (hd : Deadlines d k) (hp : Paired k)
    (hafter : stored (step now request k).1 j = some .actionable) :
    stored k j = some .actionable ∨
      stored k j = some .pending ∧ ∃ ttlMs, request = .activate j ttlMs := by
  obtain ⟨mid, hclean, hwrote⟩ := @wrote_step κ χ ι _ _ _ now _ _ hd hp request
  have hmid : ∀ {state}, stored mid j = some state → stored k j = some state := by
    intro state hstate
    rcases hclean j with ⟨hm, -⟩ | ⟨hm, -⟩
    · rwa [stored, hm] at hstate
    · rw [stored, hm] at hstate
      cases hstate
  generalize (step now request k).1 = after at hafter hwrote
  generalize (step now request k).2 = reply at hwrote
  have hsets : ∀ {j' m s'}, Sets mid after j' m s' → m.state ≠ .actionable →
      stored k j = some .actionable := by
    intro j' m s' hsets hne
    by_cases hj : j = j'
    · subst hj
      rw [stored, hsets.1, Option.map_some, Option.some.injEq] at hafter
      exact absurd hafter hne
    · rw [stored, (hsets.2.2 j hj).1] at hafter
      exact hmid hafter
  cases hwrote with
  | nothing same =>
    rw [stored, (same j).1] at hafter
    exact .inl (hmid hafter)
  | observed j' m s₁ s₂ _ _ _ sets => exact .inl (hsets sets (by simp [Metadata.observed]))
  | buried j' c n ttlMs _ sets => exact .inl (hsets sets (by simp))
  | admitted r _ _ _ sets =>
    refine .inl (hsets sets ?_)
    dsimp only
    rw [Reservation.desiredState]
    split <;> simp
  | activated j' ttlMs m s row _ pending _ sets =>
    by_cases hj : j = j'
    · subst hj
      exact .inr ⟨hmid (by rw [stored, row, Option.map_some, pending]), ttlMs, rfl⟩
    · rw [stored, (sets.2.2 j hj).1] at hafter
      exact .inl (hmid hafter)

omit [LinearOrder κ] [DecidableEq χ] [DecidableEq ι] in
theorem append_cons_append (h₁ h₂ : List (Event κ χ ι)) (e : Event κ χ ι) (l : List (Event κ χ ι)) :
    h₁ ++ e :: (h₂ ++ l) = h₁ ++ [e] ++ h₂ ++ l := by simp

/-- In every run whose calls are timely no observation comes back and no job is admitted twice. -/
theorem never_back {h : List (Event κ χ ι)} {t : Nat}
    (hlimits : validateLimits limits = .ok limits) (hr : AdmissionRun jobs limits h t k)
    (htimely : ∀ e ∈ h, Timely jobs limits e.now e.request) :
    NeverBack (AdmissionRun jobs limits) h := by
  have hv := valid_of_validateLimits hlimits
  have hrun : ∀ {h₁ t₁ k₁} h₂, h = h₁ ++ h₂ → AdmissionRun jobs limits h₁ t₁ k₁ →
      TimelyRun jobs limits h₁ t₁ k₁ := fun _ heq hr₁ =>
    hr₁.restrictAt fun e he => htimely e (heq ▸ List.mem_append_left _ he)
  refine ⟨?_, ?_, ?_⟩
  · intro h₁ e₁ h₂ e₂ h₃ t₁ k₁ t₂ k₂ j state heq hr₁ hr₂ hshows hshows'
    rw [append_cons_append] at heq hr₂
    have hr₁ := hrun (h₂ ++ e₂ :: h₃) (by simpa using heq) hr₁
    have hr₂ := hrun h₃ (by simpa using heq) hr₂
    have hstored := hshows.stored hr₁
    have hpre : ∀ t k, TimelyRun jobs limits (h₁ ++ [e₁]) t k →
        Fenced jobs limits (fun m => m.state = .observation) j t k := by
      intro t k hr
      obtain ⟨rfl, rfl⟩ := hr₁.unique hr
      refine ⟨fun m hm => ?_, fun hnone => ?_⟩
      · rwa [stored, hm, Option.map_some, Option.some.injEq] at hstored
      · rw [stored, hnone] at hstored
        cases hstored
    rw [List.append_assoc] at hr₂
    have hfenced := fenced_since hv (fun _ h => h) (fun m hm hp => by simp [hm] at hp) hpre hr₂
    rw [← List.append_assoc] at hr₂
    have hlast := hshows'.stored hr₂
    rw [stored, Option.map_eq_some_iff] at hlast
    obtain ⟨m, hm, rfl⟩ := hlast
    exact hfenced.1 m hm
  · intro h₁ e h₂ t₁ k₁ t₂ k₂ j heq hr₁ hr₂ hafter
    have hr₁ := hrun (e :: h₂) heq hr₁
    have hr₂ := hrun h₂ (by simpa using heq) hr₂
    obtain ⟨t₀, k₀, hr₀, hle, -, -, -, rfl⟩ := hr₂.snoc_inv
    obtain ⟨rfl, rfl⟩ := hr₁.unique hr₀
    have hw := (watched hv hr₁).later hle
    obtain ⟨d, -, hd⟩ := hw.dated
    exact activation_step hd hw.paired hafter
  · intro h₁ e₁ h₂ e₂ h₃ j heq hadmits
    rw [append_cons_append] at heq
    have hr := hr.restrictAt htimely
    rw [heq, List.append_cons (h₁ ++ [e₁] ++ h₂)] at hr
    obtain ⟨t₂, k₂, hr₂, -⟩ := hr.of_append
    obtain ⟨t₁, k₁, hr₁, hle, hok, -, hreply, -⟩ := hr₂.snoc_inv
    have hpre : ∀ t k, TimelyRun jobs limits (h₁ ++ [e₁]) t k →
        Fenced jobs limits (fun _ => True) j t k := by
      intro t k hr
      obtain ⟨t₀, k₀, -, -, -, rfl, hrep, rfl⟩ := hr.snoc_inv
      refine fenced_of_admits ?_ _
      rwa [← hrep]
    have hfenced := fenced_since hv (fun _ _ => trivial) (fun _ _ _ => trivial) hpre hr₁
    have hw := (watched hv hr₁).later hle
    have hlater : Fenced jobs limits (fun _ => True) j e₂.now k₁ :=
      ⟨hfenced.1, fun hnone => (hfenced.2 hnone).mono hle⟩
    have hnot := hlater.not_admits hw hok.1
    rwa [← hreply] at hnot

def singleImages (sourceCreatedAtMs : Nat) : Jobs Nat Nat where
  chatHash _ := 0
  imageCount _ := 1
  sourceCreatedAtMs _ := sourceCreatedAtMs
  counted _ := ⟨le_refl 1, by decide⟩

def shortLimits : CommercialOcrAdmissionLimits := ⟨10, 10, 0, 1000, 61000⟩

def imageReservation (sourceCreatedAtMs : Nat) : Reservation Nat Nat :=
  ⟨7, 0, 1, sourceCreatedAtMs, true, shortLimits⟩

theorem validateLimits_shortLimits : validateLimits shortLimits = .ok shortLimits := by decide +kernel

theorem released_job_stays_observed :
    let k₁ := step 5 (.reserve (imageReservation 5)) (Keys.empty : Keys Nat Nat Nat)
    let k₂ := step 6 (.release 7 0) k₁.1
    let k₃ := step 1000 (.reserve (imageReservation 5)) k₂.1
    k₁.2 = .reserve (.admitted .pending) ∧ k₃.2 = .reserve (.duplicate .observation) ∧
      NeverBack (AdmissionRun (ι := Nat) (singleImages 5) shortLimits)
        [⟨5, .reserve (imageReservation 5), k₁.2⟩, ⟨6, .release 7 0, k₂.2⟩,
          ⟨1000, .reserve (imageReservation 5), k₃.2⟩] := by
  intro k₁ k₂ k₃
  have hr₀ : AdmissionRun (singleImages 5) shortLimits [] 0 (Keys.empty : Keys Nat Nat Nat) := .nil
  have hr₁ := hr₀.snoc 5 (Request.reserve (imageReservation 5)) (by decide) ⟨rfl, rfl, rfl, rfl⟩
  have hr₂ := hr₁.snoc 6 (Request.release 7 0) (by decide) rfl
  have hr₃ := hr₂.snoc 1000 (Request.reserve (imageReservation 5)) (by decide) ⟨rfl, rfl, rfl, rfl⟩
  refine ⟨by decide +kernel, by decide +kernel, never_back validateLimits_shortLimits hr₃ fun e he => ?_⟩
  simp only [List.mem_cons, List.not_mem_nil, or_false] at he
  rcases he with rfl | rfl | rfl
  · exact fun h => absurd h.2 (by decide)
  · trivial
  · exact fun h => absurd h.2 (by decide)

/-- A source timestamp at the end of the future allowance, and a reserve in the last millisecond of
the reservation: the row is cleaned up and the job is admitted again. -/
theorem readmitted_in_last_millisecond :
    ∃ (jobs : Jobs Nat Nat) (limits : CommercialOcrAdmissionLimits) (h : List (Event Nat Nat Nat))
      (t : Nat) (k : Keys Nat Nat Nat), validateLimits limits = .ok limits ∧
        AdmissionRun jobs limits h t k ∧ ¬NeverBack (AdmissionRun jobs limits) h := by
  have hr₀ : AdmissionRun (singleImages 60005) shortLimits [] 0 (Keys.empty : Keys Nat Nat Nat) := .nil
  have hr₁ := hr₀.snoc 5 (Request.reserve (imageReservation 60005)) (by decide) ⟨rfl, rfl, rfl, rfl⟩
  have hr₂ := hr₁.snoc 6 (Request.release 7 0) (by decide) rfl
  have hr₃ := hr₂.snoc 61005 (Request.reserve (imageReservation 60005)) (by omega)
    ⟨rfl, rfl, rfl, rfl⟩
  refine ⟨singleImages 60005, shortLimits, _, _, _, validateLimits_shortLimits, hr₃, fun hback => ?_⟩
  refine hback.once [] _ [_] _ [] 7 rfl ?_ ?_
  · exact ⟨_, .pending, rfl, rfl, by decide +kernel⟩
  · exact ⟨_, .pending, rfl, rfl, by decide +kernel⟩

end Maxim.Moderation.CommercialOcr.Admission
