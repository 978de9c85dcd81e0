import Maxim.Statistics.Contract
import Maxim.Library.Keyed
import Mathlib.Data.List.Sort
import Mathlib.Data.Prod.Lex

/-!
# The selection of the statistics

The rows that the two producers hold of one scope and day compete, and so do
the two methods of the audience. The comparator of a group switches its
criterion with the pair; on rows that the ingest admits it orders them by one
key, whose last part tells the producers apart.
-/

namespace Maxim.Statistics.Selector

open Maxim.Library (groupsBy mem_groupsBy nodup_groupsBy)

inductive Producer
  | maxim
  | exchange
  deriving DecidableEq

/-- `StatsCandidate`. `carried` is what the selection does not read: health and dependencies. -/
structure Candidate (δ : Type) where
  producer : Producer
  key : DayKey
  value : Value
  coverage : Coverage
  unavailable : Bool
  carried : δ

variable {δ : Type} {l l' : List (Candidate δ)}

def Candidate.method (r : Candidate δ) : MethodId := r.key.scope.method

def Candidate.isAudience (r : Candidate δ) : Bool := r.key.scope.metric = .audience

def actualAt (r : Candidate δ) : Option StatsTime := r.value.observed.2

def extent (r : Candidate δ) : Int :=
  r.coverage.intervals.foldl (fun n i => n + i.stop.parse - i.start.parse) 0

def rank (r : Candidate δ) : Int :=
  match r.coverage.state with
  | .complete => 2
  | .partially => 1
  | .unknown => 0

/-- `localeCompare` of two time keys; the empty text of no time is below every other. -/
def compareTimes : Option StatsTime → Option StatsTime → Int
  | none, none => 0
  | none, some _ => -1
  | some _, none => 1
  | some a, some b => (timeKey a - timeKey b).sign

def number (b : Bool) : Int := if b then 1 else 0

/-- `x || y`. -/
def orElse (x y : Int) : Int := if x ≠ 0 then x else y

/-- A native snapshot with a value and an observation time. -/
def validNative (r : Candidate δ) : Bool :=
  r.method = .audienceSnapshot &&
    match r.value with
    | .audience value observedAt => value.isSome && observedAt.isSome
    | _ => false

/-- The criteria that every method shares. -/
def compareCoverage (a b : Candidate δ) : Int :=
  orElse (rank b - rank a) <|
    orElse (number b.coverage.populationComplete - number a.coverage.populationComplete) <|
      orElse (extent b - extent a) (number (b.producer = .maxim) - number (a.producer = .maxim))

def compareRows (a b : Candidate δ) : Int :=
  orElse (number a.unavailable - number b.unavailable) <|
    if a.isAudience && b.isAudience && a.method ≠ b.method then
      orElse (number (validNative b) - number (validNative a))
        (number (b.method = .maxframeExternalCalendar) - number (a.method = .maxframeExternalCalendar))
    else
      orElse (if a.method = .audienceSnapshot || a.method = .recentPostSample20 then
          compareTimes (actualAt b) (actualAt a) else 0) (compareCoverage a b)

/-- The key of the group. A day has a fixed width, so its text and the rest are told apart. -/
def groupKey (r : Candidate δ) : StatsDay × String :=
  (r.key.day, if r.isAudience then "AUDIENCE" else keyOf r.key.scope)

/-- Two keys of scopes differ first at two letters or two digits, where every locale agrees. -/
def localeCompare (a b : String) : Int := if a < b then -1 else if b < a then 1 else 0

def compareSelected (a b : Candidate δ) : Int :=
  orElse (a.key.day.number - b.key.day.number).sign (localeCompare (keyOf a.key.scope) (keyOf b.key.scope))

def selectStats (candidates : List (Candidate δ)) : List (Candidate δ) :=
  ((groupsBy groupKey candidates).filterMap fun g =>
      (g.2.mergeSort fun a b => compareRows a b ≤ 0).head?).mergeSort
    fun a b => compareSelected a b ≤ 0

/-- The schemas of the row's scope, value and coverage. -/
def Candidate.schemaValid (r : Candidate δ) : Bool :=
  scopes.contains r.key.scope && coverageSchema r.coverage &&
    match r.value with
    | .membership _ => r.key.scope = membershipScope
    | value => valueSchema r.key.scope value

/-- What the ingest enforces of a snapshot. -/
def Candidate.snapshotObserved (r : Candidate δ) : Bool :=
  match r.value with
  | .audience value observedAt => value.isNone == observedAt.isNone
  | _ => true

/-- Rows as the store returns them: valid, and at most one per producer, scope and day. -/
structure Admitted (l : List (Candidate δ)) : Prop where
  valid : ∀ r ∈ l, r.schemaValid ∧ r.snapshotObserved
  unique : (l.map fun r => (r.producer, r.key)).Nodup

variable {a b r c : Candidate δ}

theorem key_ext (hday : a.key.day = b.key.day) (hscope : a.key.scope = b.key.scope) :
    a.key = b.key := by
  cases ha : a.key
  cases hb : b.key
  simp_all

theorem groupKey_congr (h : a.key = b.key) : groupKey a = groupKey b := by
  rw [groupKey, groupKey, Candidate.isAudience, Candidate.isAudience, h]

/-! ## The order of a group -/

theorem orElse_nonpos {x y : Int} : orElse x y ≤ 0 ↔ x < 0 ∨ x = 0 ∧ y ≤ 0 := by
  rw [orElse]
  split <;> omega

def timeRank (t : Option StatsTime) : Int ×ₗ Int := t.elim (toLex (0, 0)) fun t => toLex (1, timeKey t)

theorem timeRank_none_lt (t : StatsTime) : timeRank none < timeRank (some t) :=
  Prod.Lex.toLex_lt_toLex.mpr (.inl Int.one_pos)

theorem compareTimes_neg : ∀ {a b : Option StatsTime}, compareTimes a b < 0 ↔ timeRank a < timeRank b
  | none, none => by simp [compareTimes]
  | none, some t => by simp [compareTimes, timeRank_none_lt]
  | some t, none => by simp [compareTimes, (timeRank_none_lt t).not_gt]
  | some a, some b => by
    have hrank : timeRank (some a) < timeRank (some b) ↔ timeKey a < timeKey b := by
      simp [timeRank, Prod.Lex.toLex_lt_toLex]
    rw [hrank, compareTimes, Int.sign_neg_iff]
    omega

theorem compareTimes_eq_zero : ∀ {a b : Option StatsTime}, compareTimes a b = 0 ↔ timeRank b = timeRank a
  | none, none => by simp [compareTimes]
  | none, some t => by simp [compareTimes, (timeRank_none_lt t).ne']
  | some t, none => by simp [compareTimes, (timeRank_none_lt t).ne]
  | some a, some b => by
    have hrank : timeRank (some b) = timeRank (some a) ↔ timeKey b = timeKey a := by simp [timeRank]
    rw [hrank, compareTimes, Int.sign_eq_zero_iff_zero]
    omega

/-- A valid snapshot comes before an external row, and that before a snapshot without a value. -/
def grade (r : Candidate δ) : Int :=
  if validNative r then 0 else if r.method = .maxframeExternalCalendar then 1 else 2

/-- The observation time, for the methods that are ordered by it. -/
def observation (r : Candidate δ) : Int ×ₗ Int :=
  if r.method = .audienceSnapshot || r.method = .recentPostSample20 then timeRank (actualAt r) else timeRank none

def coverageOrder (r : Candidate δ) : Int ×ₗ Int ×ₗ Int ×ₗ Int :=
  toLex (-rank r, toLex (-number r.coverage.populationComplete, toLex (-extent r, -number (r.producer = .maxim))))

def order (r : Candidate δ) : Int ×ₗ Int ×ₗ (Int ×ₗ Int)ᵒᵈ ×ₗ Int ×ₗ Int ×ₗ Int ×ₗ Int :=
  toLex (number r.unavailable, toLex (grade r, toLex (OrderDual.toDual (observation r), coverageOrder r)))

theorem scope_mem (h : r.schemaValid) : r.key.scope ∈ scopes := by
  simp only [Candidate.schemaValid, Bool.and_eq_true, List.contains_eq_mem, decide_eq_true_eq] at h
  exact h.1.1

theorem valid_cases (h : r.schemaValid ∧ r.snapshotObserved) :
    (r.isAudience ∧ r.key.scope = audienceScope ∧ (validNative r ∨ actualAt r = none)) ∨
      (r.isAudience ∧ r.key.scope = externalScope) ∨
        (¬ r.isAudience ∧ r.key.scope ∈ scopes ∧ r.method ≠ .audienceSnapshot ∧
          r.method ≠ .maxframeExternalCalendar) := by
  obtain ⟨hs, ho⟩ := h
  have hmem := scope_mem hs
  by_cases ha : r.key.scope = audienceScope
  · refine .inl ⟨by rw [Candidate.isAudience, ha]; rfl, ha, ?_⟩
    have hm : r.method = .audienceSnapshot := by rw [Candidate.method, ha]; rfl
    rw [validNative, hm, actualAt]
    cases hv : r.value with
    | audience value observedAt =>
      rw [Candidate.snapshotObserved, hv] at ho
      cases value <;> cases observedAt <;> simp_all [Value.observed]
    | _ => simp [Candidate.schemaValid, hv, ha, valueSchema, audienceScope, externalScope, currentScope,
        timedScope, recentScope, publicationScope, membershipScope] at hs
  · by_cases he : r.key.scope = externalScope
    · exact .inr (.inl ⟨by rw [Candidate.isAudience, he]; rfl, he⟩)
    · refine .inr (.inr ?_)
      have hall : ∀ s ∈ scopes, s ≠ audienceScope → s ≠ externalScope →
          s.metric ≠ .audience ∧ s.method ≠ .audienceSnapshot ∧ s.method ≠ .maxframeExternalCalendar := by
        decide
      obtain ⟨h1, h2, h3⟩ := hall _ hmem ha he
      exact ⟨by simpa [Candidate.isAudience] using h1, hmem, h2, h3⟩

theorem lex_step {α β : Type} [PartialOrder α] [LE β] {x y : Int} {p q : α} {r s : β} (hlt : x < 0 ↔ p < q)
    (heq : x = 0 ↔ p = q) (hrest : y ≤ 0 ↔ r ≤ s) : orElse x y ≤ 0 ↔ toLex (p, r) ≤ toLex (q, s) := by
  rw [orElse_nonpos, Prod.Lex.toLex_le_toLex, hlt, heq, hrest]

theorem scope_of_groupKey (ha : a.schemaValid ∧ a.snapshotObserved)
    (hb : b.schemaValid ∧ b.snapshotObserved) (h : groupKey a = groupKey b) :
    (a.isAudience ∧ b.isAudience) ∨ (¬ a.isAudience ∧ ¬ b.isAudience ∧ a.key = b.key) := by
  have hall : ∀ s ∈ scopes, ∀ s' ∈ scopes, (if s.metric = .audience then "AUDIENCE" else keyOf s) =
      (if s'.metric = .audience then "AUDIENCE" else keyOf s') →
      (s.metric = .audience ∧ s'.metric = .audience) ∨
        (s.metric ≠ .audience ∧ s'.metric ≠ .audience ∧ s = s') := by
    decide +kernel
  have hday : a.key.day = b.key.day := congrArg Prod.fst h
  have hkey := congrArg Prod.snd h
  simp only [groupKey, Candidate.isAudience, decide_eq_true_eq] at hkey ⊢
  rcases hall _ (scope_mem ha.1) _ (scope_mem hb.1) hkey with haud | ⟨haud, hbud, hscope⟩
  · exact .inl haud
  · exact .inr ⟨haud, hbud, key_ext hday hscope⟩

theorem compareCoverage_nonpos (a b : Candidate δ) :
    compareCoverage a b ≤ 0 ↔ coverageOrder a ≤ coverageOrder b := by
  have hneg (x y : Int) : y - x < 0 ↔ -x < -y := by omega
  have hzero (x y : Int) : y - x = 0 ↔ -x = -y := by omega
  refine lex_step (hneg _ _) (hzero _ _) <| lex_step (hneg _ _) (hzero _ _) <| lex_step (hneg _ _) (hzero _ _) ?_
  omega

theorem validNative_iff (h : r.schemaValid ∧ r.snapshotObserved) :
    validNative r ↔ r.method = .audienceSnapshot ∧ actualAt r ≠ none := by
  have hvalid (hv : validNative r) : r.method = .audienceSnapshot ∧ actualAt r ≠ none := by
    rw [validNative, Bool.and_eq_true, decide_eq_true_eq] at hv
    refine ⟨hv.1, ?_⟩
    have ho := hv.2
    rw [actualAt]
    split at ho
    · next value observedAt he =>
      rw [he]
      rintro (rfl : observedAt = none)
      simp at ho
    · cases ho
  refine ⟨hvalid, fun ⟨hm, ht⟩ => ?_⟩
  rcases valid_cases h with ⟨-, -, hv | hn⟩ | ⟨-, he⟩ | ⟨-, -, hne, -⟩
  · exact hv
  · exact absurd hn ht
  · rw [Candidate.method, he] at hm
    cases hm
  · exact absurd hm hne

theorem grade_of_observation (ha : a.schemaValid ∧ a.snapshotObserved)
    (hb : b.schemaValid ∧ b.snapshotObserved) (hm : a.method = b.method) :
    (grade a < grade b → observation b < observation a) ∧ (observation b < observation a → grade a ≤ grade b) ∧
      (observation a = observation b → grade a = grade b) := by
  have hva := validNative_iff ha
  have hvb := validNative_iff hb
  by_cases hs : b.method = .audienceSnapshot
  · cases hta : actualAt a <;> cases htb : actualAt b <;>
      simp_all [grade, observation, timeRank_none_lt, (timeRank_none_lt _).ne,
        (timeRank_none_lt _).ne', (timeRank_none_lt _).not_gt]
  · simp_all [grade]

theorem audience_method (hr : r.schemaValid ∧ r.snapshotObserved) (haud : r.isAudience) :
    (r.key.scope = audienceScope ∧ r.method = .audienceSnapshot) ∨
      (r.key.scope = externalScope ∧ r.method = .maxframeExternalCalendar) := by
  rcases valid_cases hr with ⟨-, he, -⟩ | ⟨-, he⟩ | ⟨hn, -⟩
  · exact .inl ⟨he, congrArg MetricKey.method he⟩
  · exact .inr ⟨he, congrArg MetricKey.method he⟩
  · exact absurd haud hn

theorem compare_methods (ha : a.method = .audienceSnapshot)
    (hb : b.method = .maxframeExternalCalendar) :
    (orElse (number (validNative b) - number (validNative a))
        (number (b.method = .maxframeExternalCalendar) - number (a.method = .maxframeExternalCalendar)) ≤ 0 ↔
      grade a < grade b) ∧
    (orElse (number (validNative a) - number (validNative b))
        (number (a.method = .maxframeExternalCalendar) - number (b.method = .maxframeExternalCalendar)) ≤ 0 ↔
      grade b < grade a) ∧ grade a ≠ grade b := by
  have hvb : validNative b = false := by simp [validNative, hb]
  cases hva : validNative a <;> simp [grade, orElse, number, hva, hvb, ha, hb]

theorem compareRows_nonpos (ha : a.schemaValid ∧ a.snapshotObserved)
    (hb : b.schemaValid ∧ b.snapshotObserved) (h : groupKey a = groupKey b) :
    compareRows a b ≤ 0 ↔ order a ≤ order b := by
  refine lex_step (by omega) (by omega) ?_
  rw [Prod.Lex.toLex_le_toLex]
  by_cases hm : a.method = b.method
  · obtain ⟨h1, h2, h3⟩ := grade_of_observation ha hb hm
    have hstep : _ ↔ toLex (OrderDual.toDual (observation a), coverageOrder a) ≤
        toLex (OrderDual.toDual (observation b), coverageOrder b) :=
      lex_step (x := if a.method = .audienceSnapshot || a.method = .recentPostSample20 then
          compareTimes (actualAt b) (actualAt a) else 0)
        (by simp only [observation, ← hm]; split <;> simp [compareTimes_neg])
        (by simp only [observation, ← hm]; split <;> simp [compareTimes_eq_zero])
        (compareCoverage_nonpos a b)
    rw [if_neg (by simp [hm]), hstep]
    constructor
    · intro hle
      rcases Prod.Lex.toLex_le_toLex.mp hle with hlt | ⟨heq, -⟩
      · exact (h2 hlt).lt_or_eq.imp_right fun hg => ⟨hg, hle⟩
      · exact .inr ⟨h3 heq, hle⟩
    · rintro (hlt | ⟨-, hle⟩)
      · exact Prod.Lex.toLex_le_toLex.mpr (.inl (h1 hlt))
      · exact hle
  · rcases scope_of_groupKey ha hb h with ⟨haud, hbud⟩ | ⟨-, -, heq⟩
    · rw [if_pos (by simp [haud, hbud, hm])]
      rcases audience_method ha haud with ⟨-, hma⟩ | ⟨-, hma⟩ <;>
        rcases audience_method hb hbud with ⟨-, hmb⟩ | ⟨-, hmb⟩
      · exact absurd (hma.trans hmb.symm) hm
      · obtain ⟨hle, -, hne⟩ := compare_methods hma hmb
        exact hle.trans (or_iff_left fun h => hne h.1).symm
      · obtain ⟨-, hle, hne⟩ := compare_methods hmb hma
        exact hle.trans (or_iff_left fun h => hne h.1.symm).symm
      · exact absurd (hma.trans hmb.symm) hm
    · exact absurd (congrArg (fun k => k.scope.method) heq) hm

theorem order_inj (hl : Admitted l) (ha : a ∈ l) (hb : b ∈ l)
    (h : groupKey a = groupKey b) (ho : order a = order b) : a = b := by
  have hprod : a.producer = b.producer := by
    have hp := congrArg (fun o => (ofLex (ofLex (ofLex (ofLex (ofLex (ofLex o).2).2).2).2).2).2) ho
    change -number (a.producer = .maxim) = -number (b.producer = .maxim) at hp
    cases hpa : a.producer <;> cases hpb : b.producer <;> simp_all [number]
  have hgrade : grade a = grade b := congrArg (fun o => (ofLex (ofLex o).2).1) ho
  have hkey : a.key = b.key := by
    rcases scope_of_groupKey (hl.valid a ha) (hl.valid b hb) h with ⟨haud, hbud⟩ | ⟨-, -, heq⟩
    · have hscope : a.key.scope = b.key.scope := by
        rcases audience_method (hl.valid a ha) haud with ⟨hsa, hma⟩ | ⟨hsa, hma⟩ <;>
          rcases audience_method (hl.valid b hb) hbud with ⟨hsb, hmb⟩ | ⟨hsb, hmb⟩
        · rw [hsa, hsb]
        · exact absurd hgrade (compare_methods hma hmb).2.2
        · exact absurd hgrade.symm (compare_methods hmb hma).2.2
        · rw [hsa, hsb]
      exact key_ext (congrArg Prod.fst h) hscope
    · exact heq
  exact List.inj_on_of_nodup_map hl.unique ha hb (Prod.ext hprod hkey)

def best (g : List (Candidate δ)) : Option (Candidate δ) :=
  (g.mergeSort fun a b => compareRows a b ≤ 0).head?

theorem best_least {g : List (Candidate δ)}
    (hg : ∀ a ∈ g, ∀ b ∈ g, (compareRows a b ≤ 0 ↔ order a ≤ order b)) (h : best g = some c) :
    c ∈ g ∧ ∀ d ∈ g, order c ≤ order d := by
  have hsort : g.mergeSort (fun a b => compareRows a b ≤ 0) = g.mergeSort fun a b => order a ≤ order b := by
    simpa using List.map_mergeSort (f := id) (l := g) (s := fun a b => decide (order a ≤ order b))
      fun a ha b hb => decide_eq_decide.mpr (hg a ha b hb)
  have hpair : (g.mergeSort fun a b => order a ≤ order b).Pairwise fun a b => decide (order a ≤ order b) :=
    List.pairwise_mergeSort
      (fun a b d hab hbd => decide_eq_true ((of_decide_eq_true hab).trans (of_decide_eq_true hbd)))
      (fun a b => by simpa using le_total (order a) (order b)) g
  have hmem {d : Candidate δ} := (List.mergeSort_perm g fun a b => decide (order a ≤ order b)).mem_iff (a := d)
  rw [best, hsort] at h
  cases hs : g.mergeSort fun a b => decide (order a ≤ order b) with
  | nil => simp [hs] at h
  | cons e rest =>
    rw [hs] at h hpair
    obtain rfl : e = c := Option.some_inj.mp h
    simp only [hs] at hmem
    refine ⟨hmem.mp List.mem_cons_self, fun d hd => ?_⟩
    rcases List.mem_cons.mp (hmem.mpr hd) with rfl | hd
    · exact le_rfl
    · exact of_decide_eq_true ((List.pairwise_cons.mp hpair).1 d hd)

def winners (l : List (Candidate δ)) : List (Candidate δ) :=
  (groupsBy groupKey l).filterMap fun g => best g.2

theorem best_group (hl : Admitted l) {k : StatsDay × String}
    (h : best (l.filter fun a => groupKey a = k) = some c) :
    (c ∈ l ∧ groupKey c = k) ∧ ∀ d ∈ l, groupKey d = k → order c ≤ order d := by
  obtain ⟨hc, hmin⟩ := best_least (fun a ha b hb => by
    simp only [List.mem_filter, decide_eq_true_eq] at ha hb
    exact compareRows_nonpos (hl.valid a ha.1) (hl.valid b hb.1) (ha.2.trans hb.2.symm)) h
  simp only [List.mem_filter, decide_eq_true_eq] at hc hmin
  exact ⟨hc, fun d hd hk => hmin d ⟨hd, hk⟩⟩

theorem exists_winner (hr : r ∈ l) :
    ∃ s ∈ winners l, best (l.filter fun a => groupKey a = groupKey r) = some s := by
  cases hbest : best (l.filter fun a => groupKey a = groupKey r) with
  | none =>
    have hmem := (List.mergeSort_perm (l.filter fun a => groupKey a = groupKey r)
      fun a b => compareRows a b ≤ 0).mem_iff (a := r)
    rw [List.head?_eq_none_iff.mp hbest] at hmem
    exact absurd (hmem.mpr (by simp [hr])) List.not_mem_nil
  | some s =>
    exact ⟨s, List.mem_filterMap.mpr ⟨(groupKey r, _), mem_groupsBy.mpr ⟨List.mem_map_of_mem hr, rfl⟩, hbest⟩, rfl⟩

theorem mem_winners (hl : Admitted l) :
    c ∈ winners l ↔ c ∈ l ∧ ∀ d ∈ l, groupKey d = groupKey c → order c ≤ order d := by
  constructor
  · intro hc
    obtain ⟨⟨k, g⟩, hmem, hbest⟩ := List.mem_filterMap.mp hc
    obtain ⟨⟨hc, hk⟩, hmin⟩ := best_group hl ((mem_groupsBy.mp hmem).2 ▸ hbest)
    exact ⟨hc, hk ▸ hmin⟩
  · rintro ⟨hc, hmin⟩
    obtain ⟨d, hd, hbest⟩ := exists_winner hc
    obtain ⟨⟨hdl, hk⟩, hmin'⟩ := best_group hl hbest
    exact order_inj hl hdl hc hk (le_antisymm (hmin' c hc rfl) (hmin d hdl hk)) ▸ hd

theorem winners_pairwise (l : List (Candidate δ)) : (winners l).Pairwise fun a b => groupKey a ≠ groupKey b := by
  have hkey {g : (StatsDay × String) × List (Candidate δ)} (hg : g ∈ groupsBy groupKey l) {c : Candidate δ}
      (hc : best g.2 = some c) : groupKey c = g.1 := by
    have hmem : c ∈ g.2 :=
      (List.mergeSort_perm _ _).mem_iff.mp (List.mem_of_mem_head? (Option.mem_def.mpr hc))
    rw [(mem_groupsBy.mp hg).2] at hmem
    exact of_decide_eq_true (List.mem_filter.mp hmem).2
  refine List.pairwise_filterMap.mpr ?_
  refine (List.pairwise_map.mp (nodup_groupsBy l)).imp_of_mem fun hg hg' hne c hc d hd => ?_
  rw [hkey hg hc, hkey hg' hd]
  exact hne

/-! ## The answer -/

def answerOrder (r : Candidate δ) : Int ×ₗ String := toLex (r.key.day.number, keyOf r.key.scope)

theorem compareSelected_nonpos (a b : Candidate δ) :
    compareSelected a b ≤ 0 ↔ answerOrder a ≤ answerOrder b := by
  refine lex_step (by rw [Int.sign_neg_iff]; omega) (by rw [Int.sign_eq_zero_iff_zero]; omega) ?_
  rw [localeCompare]
  split_ifs with h h'
  · simpa using h.le
  · simpa using h'
  · simpa using le_of_not_gt h'

theorem selectStats_eq (l : List (Candidate δ)) :
    selectStats l = (winners l).mergeSort fun a b => answerOrder a ≤ answerOrder b := by
  simp only [selectStats, compareSelected_nonpos, winners, best]

theorem mem_selectStats (hl : Admitted l) :
    c ∈ selectStats l ↔ c ∈ l ∧ ∀ d ∈ l, groupKey d = groupKey c → order c ≤ order d := by
  rw [selectStats_eq, (List.mergeSort_perm _ _).mem_iff, mem_winners hl]

theorem Admitted.perm (hl : Admitted l) (h : l.Perm l') : Admitted l' :=
  ⟨fun r hr => hl.valid r (h.mem_iff.mpr hr), (h.map _).nodup_iff.mp hl.unique⟩

theorem answerOrder_inj (hl : Admitted l) (ha : a ∈ selectStats l) (hb : b ∈ selectStats l)
    (h : answerOrder a = answerOrder b) : a = b := by
  rw [mem_selectStats hl] at ha hb
  have hinj : ∀ s ∈ scopes, ∀ s' ∈ scopes, keyOf s = keyOf s' → s = s' := by decide +kernel
  have hscope : a.key.scope = b.key.scope :=
    hinj _ (scope_mem (hl.valid a ha.1).1) _ (scope_mem (hl.valid b hb.1).1) (congrArg (fun o => (ofLex o).2) h)
  have hday : a.key.day = b.key.day := by
    have : a.key.day.number = b.key.day.number := congrArg (fun o => (ofLex o).1) h
    cases hda : a.key.day
    cases hdb : b.key.day
    simp_all
  have hk := groupKey_congr (key_ext hday hscope)
  exact order_inj hl ha.1 hb.1 hk (le_antisymm (ha.2 b hb.1 hk.symm) (hb.2 a ha.1 hk))

/-- Two rows of one scope and day, or of the audience of one day. -/
def Competes (a b : Candidate δ) : Prop :=
  a.key.day = b.key.day ∧ (a.key.scope = b.key.scope ∨ a.isAudience ∧ b.isAudience)

theorem competes_iff (hl : Admitted l) (ha : a ∈ l) (hb : b ∈ l) :
    Competes a b ↔ groupKey a = groupKey b := by
  constructor
  · rintro ⟨hday, hscope | ⟨haud, hbud⟩⟩
    · exact groupKey_congr (key_ext hday hscope)
    · rw [groupKey, groupKey, if_pos haud, if_pos hbud, hday]
  · intro h
    refine ⟨congrArg Prod.fst h, ?_⟩
    rcases scope_of_groupKey (hl.valid a ha) (hl.valid b hb) h with haud | ⟨-, -, heq⟩
    · exact .inr haud
    · exact .inl (congrArg DayKey.scope heq)

/-- The selection is the same for every order of the rows. It answers rows of the list, exactly one
for each scope and day and one for the audience of a day; an available snapshot with a value and an
observation time gives way to such a snapshot only. -/
theorem selection_order_independent (hl : Admitted l) :
    (∀ l' : List (Candidate δ), l.Perm l' → selectStats l' = selectStats l) ∧
      (∀ s ∈ selectStats l, s ∈ l) ∧ (selectStats l).Pairwise (fun s t => ¬ Competes s t) ∧
      (∀ r ∈ l, ∃ s ∈ selectStats l, Competes s r) ∧
      ∀ r ∈ l, validNative r → r.unavailable = false → ∀ s ∈ selectStats l, Competes s r →
        validNative s ∧ s.unavailable = false := by
  have hmem {s : Candidate δ} (hs : s ∈ selectStats l) : s ∈ l := ((mem_selectStats hl).mp hs).1
  have hsorted (m : List (Candidate δ)) : (selectStats m).Pairwise fun a b => answerOrder a ≤ answerOrder b := by
    rw [selectStats_eq]
    exact (List.pairwise_mergeSort
      (fun a b d hab hbd => decide_eq_true ((of_decide_eq_true hab).trans (of_decide_eq_true hbd)))
      (fun a b => by simpa using le_total (answerOrder a) (answerOrder b)) _).imp of_decide_eq_true
  have hapart (m : List (Candidate δ)) : (selectStats m).Pairwise fun a b => groupKey a ≠ groupKey b := by
    rw [selectStats_eq]
    exact ((List.mergeSort_perm _ _).pairwise_iff fun h => Ne.symm h).mpr (winners_pairwise m)
  refine ⟨fun l' hp => ?_, fun s => hmem, ?_, fun r hr => ?_, fun r hr hv hu s hs hc => ?_⟩
  · have hl' := hl.perm hp
    have hset (s : Candidate δ) : s ∈ selectStats l' ↔ s ∈ selectStats l := by
      simp only [mem_selectStats hl, mem_selectStats hl', hp.mem_iff]
    have hnodup (m : List (Candidate δ)) : (selectStats m).Nodup :=
      (hapart m).imp fun hne he => hne (congrArg groupKey he)
    refine List.Perm.eq_of_pairwise (fun a b ha hb hab hba => ?_) (hsorted l') (hsorted l)
      ((List.perm_ext_iff_of_nodup (hnodup l') (hnodup l)).mpr hset)
    exact answerOrder_inj hl ((hset a).mp ha) hb (le_antisymm hab hba)
  · exact (hapart l).imp_of_mem fun ha hb hne hc => hne ((competes_iff hl (hmem ha) (hmem hb)).mp hc)
  · obtain ⟨s, hs, hbest⟩ := exists_winner hr
    obtain ⟨⟨hsl, hk⟩, -⟩ := best_group hl hbest
    exact ⟨s, (mem_selectStats hl).mpr ((mem_winners hl).mp hs), (competes_iff hl hsl hr).mpr hk⟩
  · have hle := ((mem_selectStats hl).mp hs).2 r hr ((competes_iff hl (hmem hs) hr).mp hc).symm
    have hvalid : grade r = 0 := by rw [grade, if_pos hv]
    rw [order, order, Prod.Lex.toLex_le_toLex, Prod.Lex.toLex_le_toLex, hvalid, hu] at hle
    have hnum (b : Bool) : 0 ≤ number b := by cases b <;> decide
    have hgrade : 0 ≤ grade s := by
      rw [grade]
      split_ifs <;> decide
    have hus := hnum s.unavailable
    rw [show number false = 0 from rfl] at hle
    have hgoal : number s.unavailable = 0 ∧ grade s = 0 := by
      rcases hle with hlt | ⟨he, hlt | ⟨hg, -⟩⟩ <;> dsimp only at * <;> omega
    constructor
    · by_contra hn
      have := hgoal.2
      rw [grade, if_neg hn] at this
      split at this <;> omega
    · cases h : s.unavailable with
      | false => rfl
      | true => rw [h] at hgoal; exact absurd hgoal.1 (by decide)

/-- The external row of a day and the snapshot of the same day, which wins in both orders. -/
theorem selection_order_independent_pair :
    let day : StatsDay := ⟨20000, by decide⟩
    let time : StatsTime := ⟨day, 3600, [], by decide⟩
    let external : Candidate Unit := ⟨.exchange, ⟨externalScope, day⟩, .externalAudience (some 5) time,
      ⟨.complete, [], true⟩, false, ()⟩
    let snapshot : Candidate Unit := ⟨.maxim, ⟨audienceScope, day⟩, .audience (some 4) (some time),
      ⟨.partially, [], false⟩, false, ()⟩
    selectStats [snapshot, external] = selectStats [external, snapshot] :=
  (selection_order_independent ⟨by decide, by decide⟩).1 _ (List.Perm.swap _ _ _)

end Maxim.Statistics.Selector
