import Maxim.Webhook.OutboxScan.Page

/-!
# A cycle of the rotating scan

The cursor of a lane moves forward with every poll until a poll reports that
its page was the last. By then the earliest row of every work unit up to the
horizon has been a candidate, whatever the sizes of the pages were.
-/

namespace Maxim.Webhook.OutboxScan

open Maxim.Library

variable {ℓ ι α κ : Type} {table : List (Row ι α)} {r : Row ι α}

section Commit

variable [DecidableEq ℓ]

/-- What the progress of its own page does to a lane. -/
def moved (now : Nat) (progress : OutboxScanProgress ℓ ι) (scan : Option (OutboxScanState ι)) :
    Option (OutboxScanState ι) :=
  if progress.complete then none
  else
    match progress.afterMs, progress.afterId with
    | some afterMs, some afterId =>
      some ⟨(scan.map OutboxScanState.horizon).getD now, some (toLex (afterMs, afterId))⟩
    | _, _ => scan

omit [DecidableEq ℓ] in
theorem moved_moved (now : Nat) (progress : OutboxScanProgress ℓ ι)
    (scan : Option (OutboxScanState ι)) :
    moved now progress (moved now progress scan) = moved now progress scan := by
  unfold moved
  split
  · rfl
  · cases progress.afterMs <;> cases progress.afterId <;> rfl

theorem commitProgress_apply (now : Nat) (scans : Scans ℓ ι) (c : Candidate ℓ ι α) (name : ℓ) :
    commitProgress now scans c name =
      match c.scanProgress with
      | none => scans name
      | some progress => if progress.lane = name then moved now progress (scans name) else scans name := by
  unfold commitProgress moved
  cases c.scanProgress with
  | none => rfl
  | some progress =>
    by_cases hlane : progress.lane = name
    · subst hlane
      simp only [if_pos]
      split
      · rw [Function.update_self]
      · cases progress.afterMs <;> cases progress.afterId <;> simp
    · simp only [if_neg hlane]
      split
      · rw [Function.update_of_ne (Ne.symm hlane)]
      · cases progress.afterMs <;> cases progress.afterId <;>
          simp [Function.update_of_ne (Ne.symm hlane)]

/-- The candidates report one progress of the lane, and something of it. -/
structure Reports (name : ℓ) (progress : OutboxScanProgress ℓ ι) (candidates : List (Candidate ℓ ι α)) :
    Prop where
  only : ∀ c ∈ candidates, ∀ p, c.scanProgress = some p → p.lane = name → p = progress
  some : ∃ c ∈ candidates, c.scanProgress = some progress
  lane : progress.lane = name

theorem commit_candidates {name : ℓ} {progress : OutboxScanProgress ℓ ι}
    {candidates : List (Candidate ℓ ι α)} (h : Reports name progress candidates) (now : Nat)
    (scans : Scans ℓ ι) :
    candidates.foldl (commitProgress now) scans name = moved now progress (scans name) := by
  classical
  have hone : ∀ (l : List (Candidate ℓ ι α)) (scans : Scans ℓ ι),
      (∀ c ∈ l, ∀ p, c.scanProgress = Option.some p → p.lane = name → p = progress) →
      l.foldl (commitProgress now) scans name =
        if ∃ c ∈ l, c.scanProgress = Option.some progress then moved now progress (scans name)
        else scans name := by
    intro l
    induction l with
    | nil => simp
    | cons c l ih =>
      intro scans honly
      rw [List.foldl_cons, ih _ fun c hc => honly c (List.mem_cons_of_mem _ hc),
        commitProgress_apply]
      have hhead := honly c List.mem_cons_self
      cases hp : c.scanProgress with
      | none => simp [hp]
      | some p =>
        by_cases hlane : p.lane = name
        · obtain rfl := hhead p hp hlane
          simp [hp, hlane, moved_moved]
        · have hne : p ≠ progress := fun heq => hlane (heq ▸ h.lane)
          simp [hp, hlane, hne]
  rw [hone candidates scans h.only, if_pos h.some]

end Commit

/-! ## One poll of a lane -/

variable [DecidableEq ℓ] [LinearOrder ι] [DecidableEq κ]

def Lane.selects (lane : Lane ℓ ι α κ) (r : Row ι α) : Bool :=
  (lane.sourceEligibility.all fun source => source r) && lane.eligibility r

def Poll.pageSize (poll : Poll ℓ) (lane : Lane ℓ ι α κ) : Nat := poll.overscanTake lane.name / 2

def Poll.pageTake (poll : Poll ℓ) (lane : Lane ℓ ι α κ) : Nat :=
  min (poll.candidateTake lane.name) (poll.scanTake lane.name)

def Poll.state (poll : Poll ℓ) (scans : Scans ℓ ι) (lane : Lane ℓ ι α κ) : OutboxScanState ι :=
  (scans lane.name).getD ⟨poll.now, none⟩

def Poll.progress (poll : Poll ℓ) (table : List (Row ι α)) (scans : Scans ℓ ι)
    (lane : Lane ℓ ι α κ) : OutboxScanProgress ℓ ι :=
  OutboxScan.progress (lane.query poll scans) lane.name (poll.state scans lane)
    (poll.pageSize lane) (poll.pageTake lane) table

def Returned (name : ℓ) (candidates : List (Candidate ℓ ι α)) (r : Row ι α) : Prop :=
  ∃ c ∈ candidates, c.row = some r ∧ ∃ p, c.scanProgress = some p ∧ p.lane = name

def Completes (name : ℓ) (candidates : List (Candidate ℓ ι α)) : Prop :=
  ∃ c ∈ candidates, ∃ p, c.scanProgress = some p ∧ p.lane = name ∧ p.complete = true

variable {lanes : List (Lane ℓ ι α κ)} {lane : Lane ℓ ι α κ} {poll : Poll ℓ} {scans : Scans ℓ ι}

omit [DecidableEq ℓ] in
theorem boundedEnqueueWorkUnits_query :
    boundedEnqueueWorkUnits (lane.query poll scans) table =
      if 0 < poll.candidateTake lane.name ∧ some (poll.scanTake lane.name) ≠ some 0 then
        rotatingScan (lane.query poll scans)
          ⟨lane.name, poll.state scans lane, some (poll.scanTake lane.name)⟩ table
      else boundedScan (lane.query poll scans) table := rfl

omit [DecidableEq ℓ] in
theorem progress_of_mem (c : Candidate ℓ ι α)
    (hc : c ∈ boundedEnqueueWorkUnits (lane.query poll scans) table) :
    c.scanProgress = none ∨ c.scanProgress = some (poll.progress table scans lane) := by
  have hhead : ∀ q : ScanQuery ℓ ι α κ, c ∈ boundedScan q table → c.scanProgress = none := by
    intro q hq
    obtain ⟨r, -, rfl⟩ := List.mem_map.mp hq
    rfl
  rw [boundedEnqueueWorkUnits_query] at hc
  split at hc
  · rw [rotatingScan, List.mem_append] at hc
    rcases hc with hc | hc
    · exact .inl (hhead _ hc)
    · refine .inr ?_
      split at hc
      · rw [List.mem_singleton.mp hc]
        rfl
      · obtain ⟨r, -, rfl⟩ := List.mem_map.mp hc
        rfl
  · exact .inl (hhead _ hc)

omit [DecidableEq ℓ] in
theorem rotating_of_take (htake : 0 < poll.pageTake lane) :
    boundedEnqueueWorkUnits (lane.query poll scans) table =
      rotatingScan (lane.query poll scans)
        ⟨lane.name, poll.state scans lane, some (poll.scanTake lane.name)⟩ table := by
  have hboth : 0 < poll.candidateTake lane.name ∧ 0 < poll.scanTake lane.name :=
    Nat.lt_min.mp htake
  have hcond : 0 < poll.candidateTake lane.name ∧ some (poll.scanTake lane.name) ≠ some 0 := by
    refine ⟨hboth.1, fun h => ?_⟩
    rw [Option.some.injEq] at h
    omega
  rw [boundedEnqueueWorkUnits_query, if_pos hcond]

theorem reports (hnames : (lanes.map Lane.name).Nodup) (hlane : lane ∈ lanes)
    (htake : 0 < poll.pageTake lane) :
    Reports lane.name (poll.progress table scans lane)
      (selectEnqueueCandidates lanes poll table scans).2 where
  only c hc p hp hname := by
    obtain ⟨other, hother, hc⟩ := List.mem_flatMap.mp hc
    rcases progress_of_mem c hc with hnone | hsome
    · rw [hnone] at hp
      simp at hp
    · rw [hsome, Option.some.injEq] at hp
      subst hp
      rw [List.inj_on_of_nodup_map hnames hother hlane hname]
  some := by
    have hne : ∃ c ∈ boundedEnqueueWorkUnits (lane.query poll scans) table,
        c.scanProgress = some (poll.progress table scans lane) := by
      rw [rotating_of_take htake, rotatingScan]
      simp only [List.mem_append]
      split
      · exact ⟨_, .inr (List.mem_singleton.mpr rfl), rfl⟩
      · rename_i hempty
        rw [List.isEmpty_iff] at hempty
        obtain ⟨r, hr⟩ := List.exists_mem_of_ne_nil _ hempty
        exact ⟨_, .inr (List.mem_map_of_mem hr), rfl⟩
    obtain ⟨c, hc, hp⟩ := hne
    exact ⟨c, List.mem_flatMap.mpr ⟨lane, hlane, hc⟩, hp⟩
  lane := rfl

theorem returned_of_candidate (hlane : lane ∈ lanes) (htake : 0 < poll.pageTake lane)
    (hr : r ∈ pageCandidates (lane.query poll scans) (poll.state scans lane) (poll.pageSize lane)
      (poll.pageTake lane) table) :
    Returned lane.name (selectEnqueueCandidates lanes poll table scans).2 r := by
  refine ⟨⟨some r, true, some (poll.progress table scans lane)⟩, ?_, rfl, _, rfl, rfl⟩
  refine List.mem_flatMap.mpr ⟨lane, hlane, ?_⟩
  rw [rotating_of_take htake, rotatingScan, List.mem_append]
  refine .inr ?_
  rw [if_neg (by rw [List.isEmpty_iff]; exact List.ne_nil_of_mem hr)]
  exact List.mem_map_of_mem hr

theorem completes_iff (hnames : (lanes.map Lane.name).Nodup) (hlane : lane ∈ lanes)
    (htake : 0 < poll.pageTake lane) :
    Completes lane.name (selectEnqueueCandidates lanes poll table scans).2 ↔
      (poll.progress table scans lane).complete = true := by
  have hreports : Reports lane.name (poll.progress table scans lane)
      (selectEnqueueCandidates lanes poll table scans).2 := reports hnames hlane htake
  constructor
  · rintro ⟨c, hc, p, hp, hname, hcomplete⟩
    rwa [← hreports.only c hc p hp hname]
  · intro hcomplete
    obtain ⟨c, hc, hp⟩ := hreports.some
    exact ⟨c, hc, _, hp, rfl, hcomplete⟩

theorem scan_of_not_complete (h : PrimaryKey table) (hnames : (lanes.map Lane.name).Nodup)
    (hlane : lane ∈ lanes) (hsize : 0 < poll.pageSize lane) (htake : 0 < poll.pageTake lane)
    (hc : ¬Completes lane.name (selectEnqueueCandidates lanes poll table scans).2) :
    ∃ t, scanTail (lane.query poll scans) (poll.state scans lane) (poll.pageSize lane)
          (poll.pageTake lane) table = some t ∧
      t ∈ table ∧ inPage (poll.state scans lane) t = true ∧
      (selectEnqueueCandidates lanes poll table scans).1 lane.name =
        some ⟨(poll.state scans lane).horizon, some t.position⟩ := by
  rw [completes_iff hnames hlane htake, Bool.not_eq_true] at hc
  obtain ⟨t, ht⟩ := scanTail_of_not_complete h hsize htake hc
  have hmem := mem_rawPage (crossed_of_scanTail ht).1
  refine ⟨t, ht, hmem.1, hmem.2, ?_⟩
  have hreports : Reports lane.name (poll.progress table scans lane)
      (selectEnqueueCandidates lanes poll table scans).2 := reports hnames hlane htake
  have hfold := commit_candidates hreports poll.now scans
  have hscans : (selectEnqueueCandidates lanes poll table scans).1 =
      (selectEnqueueCandidates lanes poll table scans).2.foldl (commitProgress poll.now) scans := rfl
  have hafter : (poll.progress table scans lane).afterMs = some t.createdAt ∧
      (poll.progress table scans lane).afterId = some t.id := by
    simp only [Poll.progress, OutboxScan.progress, ht, Option.map_some, and_self]
  have hhorizon : ((scans lane.name).map OutboxScanState.horizon).getD poll.now =
      (poll.state scans lane).horizon := by
    rw [Poll.state]
    cases scans lane.name <;> rfl
  rw [hscans, hfold, moved, hc, hafter.1, hafter.2, hhorizon]
  rfl

/-! ## Polls one after another -/

/-- The cursors after `n` polls of a table that does not change. -/
def scansAfter (lanes : List (Lane ℓ ι α κ)) (table : List (Row ι α)) (polls : Nat → Poll ℓ)
    (scans : Scans ℓ ι) : Nat → Scans ℓ ι
  | 0 => scans
  | n + 1 => (selectEnqueueCandidates lanes (polls n) table (scansAfter lanes table polls scans n)).1

/-- The candidates of the poll that follows `n` others. -/
def candidatesAt (lanes : List (Lane ℓ ι α κ)) (table : List (Row ι α)) (polls : Nat → Poll ℓ)
    (scans : Scans ℓ ι) (n : Nat) : List (Candidate ℓ ι α) :=
  (selectEnqueueCandidates lanes (polls n) table (scansAfter lanes table polls scans n)).2

def InScope (lane : Lane ℓ ι α κ) (horizon : Nat) (table : List (Row ι α)) (r : Row ι α) : Prop :=
  r ∈ table ∧ lane.selects r = true ∧ r.createdAt ≤ horizon

def Earliest (lane : Lane ℓ ι α κ) (horizon : Nat) (table : List (Row ι α)) (r : Row ι α) : Prop :=
  InScope lane horizon table r ∧ ∀ x, InScope lane horizon table x →
    lane.workUnitKey x = lane.workUnitKey r → r.position ≤ x.position

omit [DecidableEq ℓ] [DecidableEq κ] in
theorem exists_earliest {horizon : Nat} (hr : InScope lane horizon table r) :
    ∃ x, Earliest lane horizon table x ∧ lane.workUnitKey x = lane.workUnitKey r ∧
      x.position ≤ r.position := by
  classical
  have hmem : ∀ x, x ∈ table.filter (fun x => decide (InScope lane horizon table x ∧
      lane.workUnitKey x = lane.workUnitKey r)) ↔
      InScope lane horizon table x ∧ lane.workUnitKey x = lane.workUnitKey r := by
    intro x
    rw [List.mem_filter, decide_eq_true_iff]
    exact ⟨fun h => h.2, fun h => ⟨h.1.1, h⟩⟩
  obtain ⟨x, hx⟩ := exists_head_firstRows Row.position ((hmem r).mpr ⟨hr, rfl⟩)
  obtain ⟨hscope, hmin⟩ := head_firstRows hx
  rw [hmem] at hscope
  refine ⟨x, ⟨hscope.1, fun y hy hkey => ?_⟩, hscope.2, hmin r ((hmem r).mpr ⟨hr, rfl⟩)⟩
  exact hmin y ((hmem y).mpr ⟨hy, hkey.trans hscope.2⟩)

variable {polls : Nat → Poll ℓ} {scans₀ : Scans ℓ ι} {horizon : Nat}

/-- The cycle of a lane after `n` polls, none of which was the last. -/
structure UnderWay (lanes : List (Lane ℓ ι α κ)) (lane : Lane ℓ ι α κ) (table : List (Row ι α))
    (polls : Nat → Poll ℓ) (scans₀ : Scans ℓ ι) (horizon n : Nat) : Prop where
  fixed : ((polls n).state (scansAfter lanes table polls scans₀ n) lane).horizon = horizon
  covered : ∀ r, Earliest lane horizon table r →
    inPage ((polls n).state (scansAfter lanes table polls scans₀ n) lane) r = false →
      ∃ i < n, Returned lane.name (candidatesAt lanes table polls scans₀ i) r
  ahead : (table.filter (inPage ((polls n).state (scansAfter lanes table polls scans₀ n) lane))).length
    + n ≤ table.length

theorem underWay_zero (hstart : ∀ s, scans₀ lane.name = some s → s.after = none) :
    UnderWay lanes lane table polls scans₀
      (((scans₀ lane.name).map OutboxScanState.horizon).getD (polls 0).now) 0 := by
  have hstate : (polls 0).state (scansAfter lanes table polls scans₀ 0) lane =
      ⟨((scans₀ lane.name).map OutboxScanState.horizon).getD (polls 0).now, none⟩ := by
    rw [Poll.state, scansAfter]
    cases hs : scans₀ lane.name with
    | none => rfl
    | some s =>
      have hafter := hstart s hs
      cases s
      cases hafter
      rfl
  refine ⟨by rw [hstate], fun r hr hout => ?_, List.length_filter_le _ _⟩
  rw [hstate] at hout
  simp [inPage, hr.1.2.2] at hout

/-- A poll that is not the last leaves the cycle under way, with the cursor further on. -/
theorem UnderWay.step (h : PrimaryKey table) (hnames : (lanes.map Lane.name).Nodup)
    (hlane : lane ∈ lanes) {n : Nat} (hsize : 0 < (polls n).pageSize lane)
    (htake : 0 < (polls n).pageTake lane)
    (hw : UnderWay lanes lane table polls scans₀ horizon n)
    (hc : ¬Completes lane.name (candidatesAt lanes table polls scans₀ n)) :
    UnderWay lanes lane table polls scans₀ horizon (n + 1) ∧
      ∃ c, scansAfter lanes table polls scans₀ (n + 1) lane.name = some ⟨horizon, some c⟩ ∧
        ((polls n).state (scansAfter lanes table polls scans₀ n) lane).after.all (fun c₀ =>
          decide (c₀ < c)) = true := by
  obtain ⟨t, ht, htable, hin, hnext⟩ := scan_of_not_complete h hnames hlane hsize htake hc
  rw [hw.fixed] at hnext
  have hnext' : scansAfter lanes table polls scans₀ (n + 1) lane.name =
      some ⟨horizon, some t.position⟩ := hnext
  have hstate : (polls (n + 1)).state (scansAfter lanes table polls scans₀ (n + 1)) lane =
      ⟨horizon, some t.position⟩ := by
    rw [Poll.state, hnext', Option.getD_some]
  have hback : ∀ r : Row ι α,
      inPage ((polls (n + 1)).state (scansAfter lanes table polls scans₀ (n + 1)) lane) r = true →
        inPage ((polls n).state (scansAfter lanes table polls scans₀ n) lane) r = true := by
    intro r hr
    rw [hstate] at hr
    simp only [inPage, hw.fixed, Bool.and_eq_true, decide_eq_true_eq, Option.all_some,
      Option.all_eq_true] at hr hin ⊢
    exact ⟨hr.1, fun c hc => lt_trans (hin.2 c hc) hr.2⟩
  refine ⟨⟨by rw [hstate], fun r hr hout => ?_, ?_⟩, t.position, hnext', ?_⟩
  · cases hold : inPage ((polls n).state (scansAfter lanes table polls scans₀ n) lane) r with
    | false =>
      obtain ⟨i, hi, hret⟩ := hw.covered r hr hold
      exact ⟨i, by omega, hret⟩
    | true =>
      have hle : r.position ≤ t.position := by
        rw [hstate] at hout
        simpa [inPage, hr.1.2.2] using hout
      refine ⟨n, Nat.lt_succ_self n, returned_of_candidate hlane htake ?_⟩
      refine earliest_returned h lane.name hr.1.1 hr.1.2.1 hold ?_ (.inr ⟨t, ht, hle⟩)
      intro x hx hsel hxin hkey
      have hxle : x.createdAt ≤ horizon := by
        rw [← hw.fixed]
        simpa using (Bool.and_eq_true_iff.mp hxin).1
      exact hr.2 x ⟨hx, hsel, hxle⟩ hkey
  · have hlt : (table.filter (inPage
        ((polls (n + 1)).state (scansAfter lanes table polls scans₀ (n + 1)) lane))).length <
        (table.filter (inPage
          ((polls n).state (scansAfter lanes table polls scans₀ n) lane))).length := by
      have hnested : table.filter (inPage
          ((polls (n + 1)).state (scansAfter lanes table polls scans₀ (n + 1)) lane)) =
          (table.filter (inPage ((polls n).state (scansAfter lanes table polls scans₀ n) lane))).filter
            (inPage ((polls (n + 1)).state (scansAfter lanes table polls scans₀ (n + 1)) lane)) := by
        rw [List.filter_filter]
        refine List.filter_congr fun r _ => ?_
        cases hr : inPage ((polls (n + 1)).state
            (scansAfter lanes table polls scans₀ (n + 1)) lane) r with
        | false => rfl
        | true => rw [hback r hr, Bool.and_self]
      rw [hnested, List.length_filter_lt_length_iff_exists]
      refine ⟨t, List.mem_filter.mpr ⟨htable, hin⟩, ?_⟩
      rw [hstate]
      simp [inPage]
    have hle := hw.ahead
    omega
  · simp only [inPage, Bool.and_eq_true] at hin
    exact hin.2

/-- The cycle of a lane whose poll after `n` others is the first that reports its end. -/
structure ScanCycle (lanes : List (Lane ℓ ι α κ)) (lane : Lane ℓ ι α κ) (table : List (Row ι α))
    (polls : Nat → Poll ℓ) (scans₀ : Scans ℓ ι) (horizon n : Nat) : Prop where
  complete : Completes lane.name (candidatesAt lanes table polls scans₀ n)
  advances : ∀ i < n, ¬Completes lane.name (candidatesAt lanes table polls scans₀ i) ∧
    ∃ c, scansAfter lanes table polls scans₀ (i + 1) lane.name = some ⟨horizon, some c⟩ ∧
      ∀ s c₀, scansAfter lanes table polls scans₀ i lane.name = some s → s.after = some c₀ → c₀ < c
  earliest : ∀ r, Earliest lane horizon table r →
    ∃ i ≤ n, Returned lane.name (candidatesAt lanes table polls scans₀ i) r
  passed : ∀ i < n, ∀ r c, InScope lane horizon table r →
    scansAfter lanes table polls scans₀ (i + 1) lane.name = some ⟨horizon, some c⟩ →
      r.position ≤ c → ∃ j ≤ i, ∃ x, lane.workUnitKey x = lane.workUnitKey r ∧
        Returned lane.name (candidatesAt lanes table polls scans₀ j) x

theorem underWay_of_not_complete (h : PrimaryKey table) (hnames : (lanes.map Lane.name).Nodup)
    (hlane : lane ∈ lanes)
    (hsizes : ∀ n, 0 < (polls n).pageSize lane ∧ 0 < (polls n).pageTake lane)
    (hstart : UnderWay lanes lane table polls scans₀ horizon 0) (n : Nat)
    (hc : ∀ i < n, ¬Completes lane.name (candidatesAt lanes table polls scans₀ i)) :
    UnderWay lanes lane table polls scans₀ horizon n := by
  induction n with
  | zero => exact hstart
  | succ n ih =>
    have hn := ih fun i hi => hc i (by omega)
    exact (hn.step h hnames hlane (hsizes n).1 (hsizes n).2 (hc n (by omega))).1

/-- Under any page sizes a cycle ends within as many polls as the table has rows and one more, moves
its cursor with every poll before, never across a unit that had no candidate, and returns the
earliest row of every unit. -/
theorem scan_cycle (h : PrimaryKey table) (hnames : (lanes.map Lane.name).Nodup)
    (hlane : lane ∈ lanes)
    (hsizes : ∀ n, 0 < (polls n).pageSize lane ∧ 0 < (polls n).pageTake lane)
    (hstart : ∀ s, scans₀ lane.name = some s → s.after = none) :
    ∃ n ≤ table.length, ScanCycle lanes lane table polls scans₀
      (((scans₀ lane.name).map OutboxScanState.horizon).getD (polls 0).now) n := by
  classical
  have hrun := underWay_of_not_complete h hnames hlane hsizes
    (underWay_zero hstart)
  have hends : ∃ n, Completes lane.name (candidatesAt lanes table polls scans₀ n) := by
    by_contra hnever
    push Not at hnever
    have hahead := (hrun (table.length + 1) fun i _ => hnever i).ahead
    omega
  have hfirst : ∀ i < Nat.find hends,
      ¬Completes lane.name (candidatesAt lanes table polls scans₀ i) := fun i hi =>
    Nat.find_min hends hi
  have hbefore : ∀ i ≤ Nat.find hends, UnderWay lanes lane table polls scans₀ _ i := fun i hi =>
    hrun i fun j hj => hfirst j (by omega)
  have hbound : Nat.find hends ≤ table.length := by
    have hahead := (hbefore _ (Nat.le_refl _)).ahead
    omega
  refine ⟨Nat.find hends, hbound, Nat.find_spec hends, fun i hi => ⟨hfirst i hi, ?_⟩, fun r hr => ?_,
    fun i hi r c hr hcursor hle => ?_⟩
  · obtain ⟨-, c, hnext, hlt⟩ := (hbefore i (by omega)).step h hnames hlane (hsizes i).1
      (hsizes i).2 (hfirst i hi)
    refine ⟨c, hnext, fun s c₀ hs hafter => ?_⟩
    rw [Poll.state, hs, Option.getD_some, hafter, Option.all_some, decide_eq_true_iff] at hlt
    exact hlt
  · have hw := hbefore _ (Nat.le_refl (Nat.find hends))
    have hcomplete := Nat.find_spec hends
    cases hin : inPage ((polls (Nat.find hends)).state
        (scansAfter lanes table polls scans₀ (Nat.find hends)) lane) r with
    | false =>
      obtain ⟨i, hi, hret⟩ := hw.covered r hr hin
      exact ⟨i, by omega, hret⟩
    | true =>
      refine ⟨Nat.find hends, Nat.le_refl _,
        returned_of_candidate hlane (hsizes _).2 (earliest_returned h lane.name hr.1.1
          hr.1.2.1 hin (fun x hx hsel hxin hkey => hr.2 x ⟨hx, hsel, ?_⟩ hkey) (.inl ?_))⟩
      · rw [← hw.fixed]
        simpa using (Bool.and_eq_true_iff.mp hxin).1
      · exact (completes_iff hnames hlane (hsizes _).2).mp hcomplete
  · obtain ⟨x, hx, hkey, hxle⟩ := exists_earliest hr
    have hw := hbefore (i + 1) hi
    have hout : inPage ((polls (i + 1)).state
        (scansAfter lanes table polls scans₀ (i + 1)) lane) x = false := by
      rw [Poll.state, hcursor, Option.getD_some]
      have hback : ¬c < x.position := not_lt.mpr (le_trans hxle hle)
      simp [inPage, hback]
    obtain ⟨j, hj, hret⟩ := hw.covered x hx hout
    exact ⟨j, by omega, x, hkey, hret⟩

def sampleTable : List (Row Nat Bool) := [⟨5, 2, true⟩, ⟨5, 1, true⟩, ⟨9, 3, false⟩]

/-- A lane with a source, whose units are the parities of the ids. -/
def sampleLane : Lane Nat Nat Bool Nat := ⟨0, fun r => r.columns, some fun _ => true, fun r => r.id % 2⟩

def samplePolls (n : Nat) : Poll Nat := ⟨10 + n, fun _ => 4, fun _ => 4, fun _ => 1⟩

def noScans : Scans Nat Nat := fun _ => none

theorem sample_cycle :
    ∃ n ≤ sampleTable.length, ScanCycle [sampleLane] sampleLane sampleTable samplePolls noScans
      (((noScans sampleLane.name).map OutboxScanState.horizon).getD (samplePolls 0).now) n :=
  scan_cycle (by unfold PrimaryKey; decide) (by decide) (by simp)
    (fun n => by simp [samplePolls, Poll.pageSize, Poll.pageTake]) (by simp [noScans])

end Maxim.Webhook.OutboxScan
