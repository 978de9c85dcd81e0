import Maxim.Library.Paging

/-!
# The rotating scan of the outbox

A lane of the outbox is scanned by a statement that returns the head of the
lane and, behind a cursor that the service keeps, one page of it. The page is
collapsed to one row for each work unit and cut off, and the statement reports
how far it has come. The service moves its cursor there, or forgets it when the
page was the last.
-/

namespace Maxim.Webhook.OutboxScan

open Maxim.Library

/-- The columns of `webhook_events` that a scan orders by, and the rest of the row. -/
structure Row (ι α : Type) where
  createdAt : Nat
  id : ι
  columns : α
  deriving DecidableEq, Repr

structure OutboxScanState (ι : Type) where
  horizon : Nat
  after : Option (Nat ×ₗ ι)

structure OutboxScanProgress (ℓ ι : Type) where
  lane : ℓ
  afterMs : Option Nat
  afterId : Option ι
  complete : Bool
  deriving DecidableEq, Repr

inductive Direction
  | asc
  | desc
  deriving DecidableEq, Repr

structure Rotation (ℓ ι : Type) where
  lane : ℓ
  state : OutboxScanState ι
  candidateTake : Option Nat

structure ScanQuery (ℓ ι α κ : Type) where
  eligibility : Row ι α → Bool
  sourceEligibility : Option (Row ι α → Bool)
  workUnitKey : Row ι α → κ
  scanDirection : Direction
  resultDirection : Direction
  overscanTake : Nat
  candidateTake : Nat
  rotation : Option (Rotation ℓ ι)

/-- One row of the answer. The join that reports the progress of a page without candidates has no
row of the table. -/
structure Candidate (ℓ ι α : Type) where
  row : Option (Row ι α)
  isBacklogScan : Bool
  scanProgress : Option (OutboxScanProgress ℓ ι)
  deriving DecidableEq, Repr

variable {ℓ ι α κ : Type}

section Statement

variable [DecidableEq ℓ] [LinearOrder ι] [DecidableEq κ]

def Row.position (r : Row ι α) : Nat ×ₗ ι := toLex (r.createdAt, r.id)

/-- `ORDER BY "created_at", "id" LIMIT n`, in one direction. -/
def ordered (d : Direction) (n : Nat) (rows : List (Row ι α)) : List (Row ι α) :=
  match d with
  | .asc => firstRows (ByPosition Row.position) n rows
  | .desc => firstRows (ByPosition fun r => OrderDual.toDual r.position) n rows

/-- `DISTINCT ON ("work_unit_key") … ORDER BY "work_unit_key", "created_at", "id"`. -/
def units (key : Row ι α → κ) (pool : List (Row ι α)) : List (Row ι α) :=
  distinctOn key (pool.insertionSort (ByPosition Row.position))

/-- `buildBoundedEnqueueWorkUnitsSql` without a rotation. -/
def boundedScan (q : ScanQuery ℓ ι α κ) (table : List (Row ι α)) : List (Candidate ℓ ι α) :=
  let source := match q.sourceEligibility with
    | none => table
    | some source => ordered q.scanDirection q.overscanTake (table.filter source)
  let pool := ordered q.scanDirection q.overscanTake (source.filter q.eligibility)
  (ordered q.resultDirection q.candidateTake (units q.workUnitKey pool)).map fun r =>
    ⟨some r, false, none⟩

/-! ## One page -/

def inPage (state : OutboxScanState ι) (r : Row ι α) : Bool :=
  decide (r.createdAt ≤ state.horizon) && state.after.all fun c => decide (c < r.position)

/-- `page_source`, or all rows when the query names no source. -/
def pageSource (q : ScanQuery ℓ ι α κ) (state : OutboxScanState ι) (pageSize : Nat)
    (table : List (Row ι α)) : List (Row ι α) :=
  match q.sourceEligibility with
  | none => table
  | some source => ordered .asc pageSize (table.filter fun r => source r && inPage state r)

def pagePool (q : ScanQuery ℓ ι α κ) (state : OutboxScanState ι) (pageSize : Nat)
    (table : List (Row ι α)) : List (Row ι α) :=
  ordered .asc pageSize
    ((pageSource q state pageSize table).filter fun r => q.eligibility r && inPage state r)

/-- The rows that the page counts: the source when there is one, else the pool. -/
def rawPage (q : ScanQuery ℓ ι α κ) (state : OutboxScanState ι) (pageSize : Nat)
    (table : List (Row ι α)) : List (Row ι α) :=
  match q.sourceEligibility with
  | none => pagePool q state pageSize table
  | some _ => pageSource q state pageSize table

def pageUnits (q : ScanQuery ℓ ι α κ) (state : OutboxScanState ι) (pageSize : Nat)
    (table : List (Row ι α)) : List (Row ι α) :=
  units q.workUnitKey (pagePool q state pageSize table)

def pageCandidates (q : ScanQuery ℓ ι α κ) (state : OutboxScanState ι) (pageSize pageTake : Nat)
    (table : List (Row ι α)) : List (Row ι α) :=
  ordered .asc pageTake (pageUnits q state pageSize table)

def capped (q : ScanQuery ℓ ι α κ) (state : OutboxScanState ι) (pageSize pageTake : Nat)
    (table : List (Row ι α)) : Bool :=
  decide (pageTake < (pageUnits q state pageSize table).length)

def firstUnreturned (q : ScanQuery ℓ ι α κ) (state : OutboxScanState ι) (pageSize pageTake : Nat)
    (table : List (Row ι α)) : Option (Row ι α) :=
  (ordered .asc 1 ((pageUnits q state pageSize table).filter fun u =>
    !((pageCandidates q state pageSize pageTake table).any fun c => decide (c.id = u.id)))).head?

def scanTail (q : ScanQuery ℓ ι α κ) (state : OutboxScanState ι) (pageSize pageTake : Nat)
    (table : List (Row ι α)) : Option (Row ι α) :=
  (ordered .desc 1 ((rawPage q state pageSize table).filter fun r =>
    !capped q state pageSize pageTake table ||
      (firstUnreturned q state pageSize pageTake table).any fun u =>
        decide (r.position < u.position))).head?

def progress (q : ScanQuery ℓ ι α κ) (lane : ℓ) (state : OutboxScanState ι) (pageSize pageTake : Nat)
    (table : List (Row ι α)) : OutboxScanProgress ℓ ι :=
  let tail := scanTail q state pageSize pageTake table
  ⟨lane, tail.map Row.createdAt, tail.map Row.id,
    decide ((rawPage q state pageSize table).length < pageSize) &&
      !capped q state pageSize pageTake table⟩

def rotatingScan (q : ScanQuery ℓ ι α κ) (rotation : Rotation ℓ ι) (table : List (Row ι α)) :
    List (Candidate ℓ ι α) :=
  let pageSize := q.overscanTake / 2
  let pageTake := min q.candidateTake (rotation.candidateTake.getD (max 1 (q.candidateTake / 2)))
  let head := boundedScan
    { q with
      rotation := none
      overscanTake := q.overscanTake - pageSize
      candidateTake := q.candidateTake - pageTake } table
  let candidates := pageCandidates q rotation.state pageSize pageTake table
  let progress := progress q rotation.lane rotation.state pageSize pageTake table
  -- the left join keeps the progress of a page without candidates
  head ++ if candidates.isEmpty then [⟨none, true, some progress⟩]
    else candidates.map fun r => ⟨some r, true, some progress⟩

def boundedEnqueueWorkUnits (q : ScanQuery ℓ ι α κ) (table : List (Row ι α)) :
    List (Candidate ℓ ι α) :=
  match q.rotation with
  | some rotation =>
    if 0 < q.candidateTake ∧ rotation.candidateTake ≠ some 0 then rotatingScan q rotation table
    else boundedScan q table
  | none => boundedScan q table

/-! ## The cursors of the service -/

/-- The lanes of `enqueueScans` that are under way. -/
abbrev Scans (ℓ ι : Type) := ℓ → Option (OutboxScanState ι)

/-- What one candidate does to the cursors. -/
def commitProgress (now : Nat) (scans : Scans ℓ ι) (candidate : Candidate ℓ ι α) : Scans ℓ ι :=
  match candidate.scanProgress with
  | none => scans
  | some progress =>
    if progress.complete then Function.update scans progress.lane none
    else
      match progress.afterMs, progress.afterId with
      | some afterMs, some afterId =>
        Function.update scans progress.lane
          (some ⟨((scans progress.lane).map OutboxScanState.horizon).getD now,
            some (toLex (afterMs, afterId))⟩)
      | _, _ => scans

/-- What stays the same of a lane from poll to poll. -/
structure Lane (ℓ ι α κ : Type) where
  name : ℓ
  eligibility : Row ι α → Bool
  sourceEligibility : Option (Row ι α → Bool)
  workUnitKey : Row ι α → κ

/-- The date of a poll, and how many rows it takes of each lane. -/
structure Poll (ℓ : Type) where
  now : Nat
  overscanTake : ℓ → Nat
  candidateTake : ℓ → Nat
  scanTake : ℓ → Nat

def Lane.query (lane : Lane ℓ ι α κ) (poll : Poll ℓ) (scans : Scans ℓ ι) : ScanQuery ℓ ι α κ where
  eligibility := lane.eligibility
  sourceEligibility := lane.sourceEligibility
  workUnitKey := lane.workUnitKey
  scanDirection := .asc
  resultDirection := .asc
  overscanTake := poll.overscanTake lane.name
  candidateTake := poll.candidateTake lane.name
  rotation := some ⟨lane.name, (scans lane.name).getD ⟨poll.now, none⟩, some (poll.scanTake lane.name)⟩

/-- The rotating lanes of `selectEnqueueCandidates`: one statement, then the cursors. -/
def selectEnqueueCandidates (lanes : List (Lane ℓ ι α κ)) (poll : Poll ℓ) (table : List (Row ι α))
    (scans : Scans ℓ ι) : Scans ℓ ι × List (Candidate ℓ ι α) :=
  let candidates := lanes.flatMap fun lane => boundedEnqueueWorkUnits (lane.query poll scans) table
  (candidates.foldl (commitProgress poll.now) scans, candidates)

end Statement

/-! ## What one page returns -/

variable {q : ScanQuery ℓ ι α κ} {state : OutboxScanState ι} {pageSize pageTake : Nat}
  {table : List (Row ι α)} {r : Row ι α}

def ScanQuery.selects (q : ScanQuery ℓ ι α κ) (r : Row ι α) : Bool :=
  (q.sourceEligibility.all fun source => source r) && q.eligibility r

def PrimaryKey (table : List (Row ι α)) : Prop := (table.map Row.id).Nodup

theorem PrimaryKey.positions [LinearOrder ι] (h : PrimaryKey table) : (table.map Row.position).Nodup := by
  apply List.Nodup.of_map (f := fun c : Nat ×ₗ ι => (ofLex c).2)
  rw [List.map_map]
  exact h

theorem PrimaryKey.filter (h : PrimaryKey table) (p : Row ι α → Bool) :
    PrimaryKey (table.filter p) := h.sublist (List.Sublist.map _ List.filter_sublist)

theorem PrimaryKey.eq_of_id (h : PrimaryKey table) {a b : Row ι α} (ha : a ∈ table) (hb : b ∈ table)
    (hid : a.id = b.id) : a = b := List.inj_on_of_nodup_map h ha hb hid

variable [LinearOrder ι]

theorem nodup_of_ascending {l : List (Row ι α)} (h : Ascending Row.position l) :
    (l.map Row.position).Nodup := List.pairwise_map.mpr (h.imp fun hab => ne_of_lt hab)

theorem pagePool_ascending (h : PrimaryKey table) :
    Ascending Row.position (pagePool q state pageSize table) := by
  unfold pagePool pageSource
  cases q.sourceEligibility with
  | none => exact ascending_firstRows (h.filter _).positions _
  | some source =>
    have hsource : Ascending Row.position (ordered .asc pageSize
        (table.filter fun r => source r && inPage state r)) :=
      ascending_firstRows (h.filter _).positions _
    exact ascending_firstRows (nodup_of_ascending (hsource.sublist List.filter_sublist)) _

theorem mem_rawPage (hr : r ∈ rawPage q state pageSize table) :
    r ∈ table ∧ inPage state r = true := by
  unfold rawPage pagePool pageSource at hr
  cases hs : q.sourceEligibility with
  | none =>
    rw [hs] at hr
    have hmem := List.mem_filter.mp (mem_of_mem_firstRows hr)
    exact ⟨hmem.1, (Bool.and_eq_true_iff.mp hmem.2).2⟩
  | some source =>
    rw [hs] at hr
    have hmem := List.mem_filter.mp (mem_of_mem_firstRows hr)
    exact ⟨hmem.1, (Bool.and_eq_true_iff.mp hmem.2).2⟩

theorem mem_pagePool : r ∈ pagePool q state pageSize table ↔
    r ∈ rawPage q state pageSize table ∧ q.selects r = true := by
  unfold rawPage ScanQuery.selects
  cases hs : q.sourceEligibility with
  | none =>
    simp only [Option.all_none, Bool.true_and]
    refine ⟨fun hr => ⟨hr, ?_⟩, fun hr => hr.1⟩
    rw [pagePool, pageSource, hs] at hr
    exact (Bool.and_eq_true_iff.mp (List.mem_filter.mp (mem_of_mem_firstRows hr)).2).1
  | some source =>
    simp only [Option.all_some]
    rw [pagePool, pageSource, hs]
    constructor
    · intro hr
      have hmem := List.mem_filter.mp (mem_of_mem_firstRows hr)
      have hsource := (List.mem_filter.mp (mem_of_mem_firstRows hmem.1)).2
      simp only [Bool.and_eq_true] at hmem hsource ⊢
      exact ⟨hmem.1, hsource.1, hmem.2.1⟩
    · rintro ⟨hr, hsel⟩
      have hsource := (List.mem_filter.mp (mem_of_mem_firstRows hr)).2
      simp only [Bool.and_eq_true] at hsource hsel
      have hmem : r ∈ (ordered .asc pageSize
          (table.filter fun r => source r && inPage state r)).filter fun r =>
            q.eligibility r && inPage state r :=
        List.mem_filter.mpr ⟨hr, by simp [hsel.2, hsource.2]⟩
      -- the source is already cut off at the page size
      have hle : ((ordered .asc pageSize
          (table.filter fun r => source r && inPage state r)).filter fun r =>
            q.eligibility r && inPage state r).length ≤ pageSize :=
        Nat.le_trans (List.length_filter_le _ _) (length_firstRows_le _ _ _)
      rw [ordered, firstRows, List.take_of_length_le (by rwa [List.length_insertionSort])]
      exact (List.perm_insertionSort _ _).mem_iff.mpr hmem

theorem mem_rawPage_of_short (hshort : (rawPage q state pageSize table).length < pageSize)
    (hr : r ∈ table) (hin : inPage state r = true) (hsel : q.selects r = true) :
    r ∈ rawPage q state pageSize table := by
  unfold rawPage pagePool pageSource ScanQuery.selects at *
  cases hs : q.sourceEligibility with
  | none =>
    rw [hs] at hshort hsel
    simp only [Option.all_none, Bool.true_and] at hsel
    exact mem_firstRows_of_short hshort (List.mem_filter.mpr ⟨hr, by simp [hsel, hin]⟩)
  | some source =>
    rw [hs] at hshort hsel
    simp only [Option.all_some, Bool.and_eq_true] at hsel
    exact mem_firstRows_of_short hshort (List.mem_filter.mpr ⟨hr, by simp [hsel.1, hin]⟩)

theorem lt_of_not_mem_rawPage (h : PrimaryKey table) {x : Row ι α}
    (hx : x ∈ rawPage q state pageSize table) (hr : r ∈ table) (hin : inPage state r = true)
    (hsel : q.selects r = true) (hnot : r ∉ rawPage q state pageSize table) :
    x.position < r.position := by
  unfold rawPage pagePool pageSource ScanQuery.selects at *
  cases hs : q.sourceEligibility with
  | none =>
    rw [hs] at hx hsel hnot
    simp only [Option.all_none, Bool.true_and] at hsel
    exact lt_of_not_mem_firstRows (h.filter _).positions hx
      (List.mem_filter.mpr ⟨hr, by simp [hsel, hin]⟩) hnot
  | some source =>
    rw [hs] at hx hsel hnot
    simp only [Option.all_some, Bool.and_eq_true] at hsel
    exact lt_of_not_mem_firstRows (h.filter _).positions hx
      (List.mem_filter.mpr ⟨hr, by simp [hsel.1, hin]⟩) hnot

variable [DecidableEq κ]

theorem pageUnits_eq (h : PrimaryKey table) :
    pageUnits q state pageSize table =
      distinctOn q.workUnitKey (pagePool q state pageSize table) := by
  have hle : (pagePool q state pageSize table).Pairwise (ByPosition Row.position) :=
    List.Pairwise.imp (fun hab => le_of_lt hab) (pagePool_ascending h)
  rw [pageUnits, units, List.Pairwise.insertionSort_eq hle]

theorem pageUnits_ascending (h : PrimaryKey table) :
    Ascending Row.position (pageUnits q state pageSize table) := by
  rw [pageUnits_eq h]
  exact (pagePool_ascending h).sublist (distinctOn_sublist _ _)

theorem mem_pool_of_mem_units (h : PrimaryKey table) (hr : r ∈ pageUnits q state pageSize table) :
    r ∈ pagePool q state pageSize table := by
  rw [pageUnits_eq h] at hr
  exact (distinctOn_sublist _ _).subset hr

theorem mem_units_of_mem_candidates (hr : r ∈ pageCandidates q state pageSize pageTake table) :
    r ∈ pageUnits q state pageSize table := mem_of_mem_firstRows hr

theorem candidates_of_not_capped (hcap : capped q state pageSize pageTake table = false)
    (hr : r ∈ pageUnits q state pageSize table) :
    r ∈ pageCandidates q state pageSize pageTake table := by
  have hle : (pageUnits q state pageSize table).length ≤ pageTake := by
    simpa [capped] using hcap
  rw [pageCandidates, ordered, firstRows,
    List.take_of_length_le (by rwa [List.length_insertionSort])]
  exact (List.perm_insertionSort _ _).mem_iff.mpr hr

/-- The unit that the cap cuts off first: all units before it are returned. -/
theorem firstUnreturned_spec (h : PrimaryKey table)
    (hcap : capped q state pageSize pageTake table = true) :
    ∃ u, firstUnreturned q state pageSize pageTake table = some u ∧
      (∀ c ∈ pageCandidates q state pageSize pageTake table, c.position < u.position) ∧
      ∀ c ∈ pageUnits q state pageSize table, c.position < u.position →
        c ∈ pageCandidates q state pageSize pageTake table := by
  have hunits : Ascending Row.position (pageUnits q state pageSize table) := pageUnits_ascending h
  have hlen : pageTake < (pageUnits q state pageSize table).length := by simpa [capped] using hcap
  have hmemUnit : ∀ u ∈ pageUnits q state pageSize table, u ∈ table := fun u hu =>
    (mem_rawPage (mem_pagePool.mp (mem_pool_of_mem_units h hu)).1).1
  have hunreturned : ∀ u, u ∈ (pageUnits q state pageSize table).filter (fun u =>
      !((pageCandidates q state pageSize pageTake table).any fun c => decide (c.id = u.id))) ↔
      u ∈ pageUnits q state pageSize table ∧
        u ∉ pageCandidates q state pageSize pageTake table := by
    intro u
    rw [List.mem_filter]
    refine and_congr_right fun hu => ?_
    simp only [Bool.not_eq_true', List.any_eq_false, decide_eq_true_eq]
    constructor
    · exact fun hno hc => hno u hc rfl
    · intro hno c hc hid
      exact hno (h.eq_of_id (hmemUnit c (mem_units_of_mem_candidates hc)) (hmemUnit u hu) hid ▸ hc)
  have hexists : ∃ u ∈ pageUnits q state pageSize table,
      u ∉ pageCandidates q state pageSize pageTake table := by
    by_contra hall
    push Not at hall
    have hsub := (List.subperm_of_subset hunits.nodup hall).length_le
    have hle := length_firstRows_le (ByPosition Row.position) pageTake
      (pageUnits q state pageSize table)
    have hdef : pageCandidates q state pageSize pageTake table =
      firstRows (ByPosition Row.position) pageTake (pageUnits q state pageSize table) := rfl
    rw [hdef] at hsub
    omega
  obtain ⟨u₀, hu₀, hnot₀⟩ := hexists
  obtain ⟨u, hu⟩ := exists_head_firstRows Row.position ((hunreturned u₀).mpr ⟨hu₀, hnot₀⟩)
  obtain ⟨hmem, hmin⟩ := head_firstRows hu
  rw [hunreturned] at hmem
  refine ⟨u, hu, fun c hc => ?_, fun c hc hlt => ?_⟩
  · exact lt_of_not_mem_firstRows (nodup_of_ascending hunits) hc hmem.1 hmem.2
  · by_contra hnot
    exact absurd hlt (not_lt.mpr (hmin c ((hunreturned c).mpr ⟨hc, hnot⟩)))

def Crossed (q : ScanQuery ℓ ι α κ) (state : OutboxScanState ι) (pageSize pageTake : Nat)
    (table : List (Row ι α)) (r : Row ι α) : Prop :=
  r ∈ rawPage q state pageSize table ∧
    (capped q state pageSize pageTake table = false ∨
      ∃ u, firstUnreturned q state pageSize pageTake table = some u ∧ r.position < u.position)

theorem mem_crossed : r ∈ (rawPage q state pageSize table).filter (fun r =>
    !capped q state pageSize pageTake table ||
      (firstUnreturned q state pageSize pageTake table).any fun u =>
        decide (r.position < u.position)) ↔ Crossed q state pageSize pageTake table r := by
  simp [Crossed, List.mem_filter, Option.any_eq_true_iff_get]
  refine fun _ => or_congr_right ?_
  cases firstUnreturned q state pageSize pageTake table <;> simp

theorem crossed_of_scanTail {t : Row ι α} (ht : scanTail q state pageSize pageTake table = some t) :
    Crossed q state pageSize pageTake table t := by
  obtain ⟨hmem, -⟩ := head_firstRows ht
  exact mem_crossed.mp hmem

theorem exists_scanTail (hr : Crossed q state pageSize pageTake table r) :
    ∃ t, scanTail q state pageSize pageTake table = some t :=
  exists_head_firstRows (fun r : Row ι α => OrderDual.toDual r.position) (mem_crossed.mpr hr)

theorem scanTail_of_not_complete (h : PrimaryKey table) (hsize : 0 < pageSize) (htake : 0 < pageTake)
    {lane : ℓ} (hc : (progress q lane state pageSize pageTake table).complete = false) :
    ∃ t, scanTail q state pageSize pageTake table = some t := by
  simp only [progress, Bool.and_eq_false_iff, decide_eq_false_iff_not, Nat.not_lt,
    Bool.not_eq_false'] at hc
  cases hcap : capped q state pageSize pageTake table with
  | false =>
    have hlen : pageSize ≤ (rawPage q state pageSize table).length := by simpa [hcap] using hc
    obtain ⟨r, hr⟩ := List.exists_mem_of_length_pos (Nat.lt_of_lt_of_le hsize hlen)
    exact exists_scanTail ⟨hr, .inl hcap⟩
  | true =>
    obtain ⟨u, hu, hbefore, -⟩ := firstUnreturned_spec h hcap
    have hunits : pageUnits q state pageSize table ≠ [] := by
      intro hnil
      simp [capped, hnil] at hcap
    obtain ⟨v, hv⟩ := List.exists_mem_of_ne_nil _ hunits
    have hne : pageCandidates q state pageSize pageTake table ≠ [] := firstRows_ne_nil htake hv
    obtain ⟨c, hcand⟩ := List.exists_mem_of_ne_nil _ hne
    have hpool := mem_pool_of_mem_units h (mem_units_of_mem_candidates hcand)
    exact exists_scanTail ⟨(mem_pagePool.mp hpool).1, .inr ⟨u, hu, hbefore c hcand⟩⟩

theorem earliest_returned (h : PrimaryKey table) (lane : ℓ) (hr : r ∈ table)
    (hsel : q.selects r = true) (hin : inPage state r = true)
    (hfirst : ∀ x ∈ table, q.selects x = true → inPage state x = true →
      q.workUnitKey x = q.workUnitKey r → r.position ≤ x.position)
    (hdone : (progress q lane state pageSize pageTake table).complete = true ∨
      ∃ t, scanTail q state pageSize pageTake table = some t ∧ r.position ≤ t.position) :
    r ∈ pageCandidates q state pageSize pageTake table := by
  have hraw : r ∈ rawPage q state pageSize table := by
    rcases hdone with hc | ⟨t, ht, hle⟩
    · have hshort : (rawPage q state pageSize table).length < pageSize := by
        simpa using (Bool.and_eq_true_iff.mp hc).1
      exact mem_rawPage_of_short hshort hr hin hsel
    · by_contra hnot
      have hlt := lt_of_not_mem_rawPage h (crossed_of_scanTail ht).1 hr hin hsel hnot
      exact absurd hlt (not_lt.mpr hle)
  have hpool : r ∈ pagePool q state pageSize table := mem_pagePool.mpr ⟨hraw, hsel⟩
  have hunit : r ∈ pageUnits q state pageSize table := by
    rw [pageUnits_eq h]
    refine mem_distinctOn (pagePool_ascending h) hpool fun x hx hkey => ?_
    have hxraw := mem_pagePool.mp hx
    have hxmem := mem_rawPage hxraw.1
    exact hfirst x hxmem.1 hxraw.2 hxmem.2 hkey
  cases hcap : capped q state pageSize pageTake table with
  | false => exact candidates_of_not_capped hcap hunit
  | true =>
    obtain ⟨u, hu, -, hbefore⟩ := firstUnreturned_spec h hcap
    rcases hdone with hc | ⟨t, ht, hle⟩
    · simp [progress, hcap] at hc
    · rcases (crossed_of_scanTail ht).2 with hfalse | ⟨u', hu', hlt⟩
      · rw [hcap] at hfalse
        simp at hfalse
      · rw [hu, Option.some.injEq] at hu'
        subst hu'
        exact hbefore r hunit (lt_of_le_of_lt hle hlt)

end Maxim.Webhook.OutboxScan
