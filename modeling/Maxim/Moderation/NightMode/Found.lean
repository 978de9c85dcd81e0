import Maxim.Moderation.NightMode.Independence

/-!
# The calendar is found

In a zone whose clocks change at most now and then, the days that the search goes
through have nights that nothing merges with, before the instant and after it.
-/

namespace Maxim.Moderation.NightMode

open Maxim.Library

/-- The minutes of a day follow each other, and the next day follows them. -/
structure WallClock.Calm (z : WallClock) (day : Int) : Prop where
  within : ∀ m m' : DayMinutes, m < m' → z.resolveBoundary day m < z.resolveBoundary day m'
  next : ∀ m m' : DayMinutes, z.resolveBoundary day m < z.resolveBoundary (day + 1) m'

/-- Of ten days three in a row are calm, and the local date goes with the offset of the zone. -/
structure ZoneClock.Settles (z : ZoneClock) : Prop where
  calm : ∀ day, ∃ d, day ≤ d ∧ d ≤ day + 7 ∧ z.Calm d ∧ z.Calm (d + 1) ∧ z.Calm (d + 2)
  localDay_le : ∀ t, z.localDay t * DAY_MS - 14 * HOUR_MS ≤ t
  lt_localDay : ∀ t, t < (z.localDay t + 1) * DAY_MS + 12 * HOUR_MS

variable {z : ZoneClock} {geometry : NightModeCalendarGeometry} {atMs : Int}

/-- The night of a day between calm days is a block. -/
theorem isBlock_of_calm (hgeometry : geometry.startMinutes ≠ geometry.endMinutes) {d : Int}
    (hbefore : z.Calm (d - 1)) (hday : z.Calm d) (hafter : z.Calm (d + 1)) :
    (nights z geometry).IsBlock (d, d) := by
  have hclose (e : Int) : (nights z geometry).closes e = z.resolveBoundary e geometry.startMinutes :=
    rfl
  have hopen (e : Int) : (nights z geometry).opens e =
      z.resolveBoundary (openDay geometry e) geometry.endMinutes := rfl
  have hprev : (nights z geometry).opens (d - 1) < (nights z geometry).closes d := by
    rw [hopen, hclose, openDay]
    split
    · have hlt := hbefore.next geometry.endMinutes geometry.startMinutes
      rwa [Int.sub_add_cancel] at hlt
    next hle =>
      rw [Int.sub_add_cancel]
      exact hday.within _ _ (lt_of_le_of_ne (not_lt.mp hle) (Ne.symm hgeometry))
  have hself : (nights z geometry).Valid d := by
    change (nights z geometry).closes d < (nights z geometry).opens d
    rw [hopen, hclose, openDay]
    split
    · next hlt => exact hday.within _ _ hlt
    · exact hday.next _ _
  have hnext : (nights z geometry).opens d < (nights z geometry).closes (d + 1) := by
    rw [hopen, hclose, openDay]
    split
    · exact hday.next _ _
    next hle => exact hafter.within _ _ (lt_of_le_of_ne (not_lt.mp hle) (Ne.symm hgeometry))
  refine ⟨Intervals.isRun_single hself, fun e hlt _ => ?_, fun e hlt _ => ?_⟩
  · exact lt_of_le_of_lt ((nights z geometry).opens_mono (Int.le_sub_one_of_lt hlt)) hprev
  · exact lt_of_lt_of_le hnext ((nights z geometry).closes_mono (Int.add_one_le_of_lt hlt))

theorem run_eq_of_isBlock {I : Intervals Int} {r : Int × Int} {d : Int} (hr : I.IsRun r)
    (hblock : I.IsBlock (d, d)) (hfirst : r.1 ≤ d) (hlast : d ≤ r.2) : r = (d, d) := by
  refine Prod.ext ?_ ?_
  · by_contra hne
    have hlt : r.1 < d := by omega
    obtain ⟨e, f, he, hf, -, hvalid, -, hlink⟩ := hr.linked (d - 1) (by omega) (by omega)
    have hbefore : I.opens e < I.closes d := hblock.before e (by change e < d; omega) hvalid
    have hmono := I.closes_mono (show d ≤ f by omega)
    omega
  · by_contra hne
    have hlt : d < r.2 := by omega
    obtain ⟨e, f, he, hf, -, -, hvalid, hlink⟩ := hr.linked d hfirst hlt
    have hafter : I.opens d < I.closes f := hblock.after f hf hvalid
    have hmono := I.opens_mono he
    omega

/-! ## Every night of the days is in a window -/

theorem mergeFrom_members (previous : NightModeCalendarWindow) (items : List NightModeCalendarWindow) :
    (mergeFrom previous items).flatMap (·.memberDateKeys) =
      previous.memberDateKeys ++ items.flatMap (·.memberDateKeys) := by
  induction items generalizing previous with
  | nil => simp [mergeFrom]
  | cons item rest ih =>
    rw [mergeFrom]
    split
    · rw [ih]
      simp
    · rw [List.flatMap_cons, ih]
      simp

theorem mergeWindows_members (items : List NightModeCalendarWindow) :
    (mergeWindows items).flatMap (·.memberDateKeys) = items.flatMap (·.memberDateKeys) := by
  cases items with
  | nil => rfl
  | cons item rest => exact mergeFrom_members item rest

theorem mem_runs {today : Int} {radius : Nat} {runs : List (Int × Int)}
    (hmerged : mergeWindows (rawWindows z.toWallClock geometry today radius) =
      runs.map (window z geometry))
    (hruns : ∀ r ∈ runs, (nights z geometry).IsRun r) {d : Int} (hfirst : today - radius ≤ d)
    (hlast : d ≤ today + radius) (hblock : (nights z geometry).IsBlock (d, d)) : (d, d) ∈ runs := by
  have hmem : d ∈ (mergeWindows (rawWindows z.toWallClock geometry today radius)).flatMap
      (·.memberDateKeys) := by
    rw [mergeWindows_members, rawWindows_eq z.boundary_mono, List.mem_flatMap]
    refine ⟨windowOf (nights z geometry) (d, d), List.mem_map_of_mem ?_, ?_⟩
    · exact List.mem_filter.mpr ⟨mem_days.mpr ⟨hfirst, hlast⟩, decide_eq_true hblock.first⟩
    · exact List.mem_filter.mpr ⟨mem_days.mpr ⟨le_rfl, le_rfl⟩, decide_eq_true hblock.first⟩
  rw [hmerged] at hmem
  obtain ⟨w, hw, hd⟩ := List.mem_flatMap.mp hmem
  obtain ⟨r, hr, rfl⟩ := List.mem_map.mp hw
  have hin := mem_days.mp (List.mem_filter.mp hd).1
  exact run_eq_of_isBlock (hruns r hr) hblock hin.1 hin.2 ▸ hr

/-! ## The seal -/

theorem index_lt {l : List Int} (hl : l.Pairwise (· < ·)) {i j : Nat} {hi : i < l.length}
    {hj : j < l.length} (hlt : l[i] < l[j]) : i < j := by
  by_contra hle
  rcases Nat.lt_or_eq_of_le (Nat.not_lt.mp hle) with hji | rfl
  · have hback := List.pairwise_iff_getElem.mp hl j i hj hi hji
    omega
  · omega

theorem getElem_le {l : List Int} (hl : l.Pairwise (· < ·)) {i j : Nat} {hi : i < l.length}
    {hj : j < l.length} (hle : i ≤ j) : l[i] ≤ l[j] := by
  rcases Nat.lt_or_eq_of_le hle with hlt | rfl
  · exact le_of_lt (List.pairwise_iff_getElem.mp hl i j hi hj hlt)
  · exact le_rfl

theorem sorted_third {l : List Int} (hl : l.Pairwise (· < ·)) {a b c : Int} (ha : a ∈ l) (hb : b ∈ l)
    (hc : c ∈ l) (hab : a < b) (hbc : b < c) : ∃ x, l[2]? = some x ∧ x ≤ c := by
  obtain ⟨i, hi, rfl⟩ := List.mem_iff_getElem.mp ha
  obtain ⟨j, hj, rfl⟩ := List.mem_iff_getElem.mp hb
  obtain ⟨k, hk, rfl⟩ := List.mem_iff_getElem.mp hc
  have hij := index_lt hl hab
  have hjk := index_lt hl hbc
  exact ⟨l[2], List.getElem?_eq_getElem (by omega), getElem_le hl (by omega)⟩

theorem sorted_lastButOne {l : List Int} (hl : l.Pairwise (· < ·)) {a b : Int} (ha : a ∈ l)
    (hb : b ∈ l) (hab : a < b) : ∃ x, l.dropLast.getLast? = some x ∧ a ≤ x := by
  obtain ⟨i, hi, rfl⟩ := List.mem_iff_getElem.mp ha
  obtain ⟨j, hj, rfl⟩ := List.mem_iff_getElem.mp hb
  have hij := index_lt hl hab
  refine ⟨l[l.length - 2], ?_, getElem_le hl (by omega)⟩
  rw [List.getLast?_eq_getElem?, List.length_dropLast, List.getElem?_dropLast, if_pos (by omega)]
  exact List.getElem?_eq_getElem (by omega)

theorem closes_sorted {I : Intervals Int} {runs : List (Int × Int)} (hruns : ∀ r ∈ runs, I.IsRun r)
    (hchain : runs.IsChain I.Follows) : (runs.map fun r => I.closes r.1).Pairwise (· < ·) := by
  refine List.isChain_iff_pairwise.mp ((List.isChain_map _).mpr (hchain.imp_of_mem_imp ?_))
  exact fun r s hr _ h => lt_trans (hruns r hr).closes_lt_opens h.gap

/-- Blocks before the instant and after it seal the calendar. -/
theorem sealCalendar_found {I : Intervals Int} {runs : List (Int × Int)}
    (hruns : ∀ r ∈ runs, I.IsRun r) (hchain : runs.IsChain I.Follows) {a b c d e : Int × Int}
    (hmem : a ∈ runs ∧ b ∈ runs ∧ c ∈ runs ∧ d ∈ runs ∧ e ∈ runs)
    (hbefore : I.closes a.1 < I.closes b.1 ∧ I.closes b.1 < I.closes c.1 ∧ I.closes c.1 ≤ atMs)
    (hafter : atMs < I.closes d.1 ∧ I.closes d.1 < I.closes e.1) :
    ∃ calendar, sealCalendar (runs.map (windowOf I)) atMs = some calendar := by
  have hsorted := closes_sorted hruns hchain
  obtain ⟨ha, hb, hc, hd, he⟩ := hmem
  have hcloses {r : Int × Int} (hr : r ∈ runs) : I.closes r.1 ∈ runs.map fun r => I.closes r.1 :=
    List.mem_map_of_mem hr
  obtain ⟨x, hx, hxle⟩ := sorted_third hsorted (hcloses ha) (hcloses hb) (hcloses hc) hbefore.1
    hbefore.2.1
  obtain ⟨y, hy, hyle⟩ := sorted_lastButOne hsorted (hcloses hd) (hcloses he) hafter.2
  have hthird : ∃ w, (runs.map (windowOf I))[2]? = some w ∧ w.closeAtMs = x := by
    rw [List.getElem?_map] at hx ⊢
    obtain ⟨r, hr, rfl⟩ := Option.map_eq_some_iff.mp hx
    exact ⟨windowOf I r, by rw [hr]; rfl, rfl⟩
  have hlast : ∃ w, (runs.map (windowOf I)).dropLast.getLast? = some w ∧ w.closeAtMs = y := by
    rw [← List.map_dropLast, List.getLast?_map] at hy ⊢
    obtain ⟨r, hr, rfl⟩ := Option.map_eq_some_iff.mp hy
    exact ⟨windowOf I r, by rw [hr]; rfl, rfl⟩
  obtain ⟨w, hw, rfl⟩ := hthird
  obtain ⟨w', hw', rfl⟩ := hlast
  rw [sealCalendar, hw, hw']
  dsimp only
  rw [if_neg (by omega)]
  exact ⟨_, rfl⟩

theorem ZoneClock.Settles.exists_block (hz : z.Settles)
    (hgeometry : geometry.startMinutes ≠ geometry.endMinutes) (day : Int) :
    ∃ d, day < d ∧ d ≤ day + 8 ∧ (nights z geometry).IsBlock (d, d) := by
  obtain ⟨d, hfirst, hlast, hbefore, hday, hafter⟩ := hz.calm day
  refine ⟨d + 1, by omega, by omega, isBlock_of_calm hgeometry ?_ hday ?_⟩
  · rwa [Int.add_sub_cancel]
  · rwa [Int.add_assoc]

/-- In a zone that settles every instant has a calendar. -/
theorem searchCalendar_found (hz : z.Settles) (hgeometry : geometry.startMinutes ≠ geometry.endMinutes)
    (atMs : Int) : ∃ calendar, searchCalendar z.toWallClock geometry atMs = some calendar := by
  have hwide : ∃ calendar, sealCalendar (mergeWindows
      (rawWindows z.toWallClock geometry (z.localDay atMs) 32)) atMs = some calendar := by
    obtain ⟨runs, hmerged, hruns, hchain⟩ :=
      @mergeWindows_spec _ geometry z.boundary_mono (z.localDay atMs) 32
    generalize htoday : z.localDay atMs = today at hmerged
    have hlower := hz.localDay_le atMs
    have hupper := hz.lt_localDay atMs
    rw [htoday] at hlower hupper
    have hblock (day : Int) := hz.exists_block hgeometry day
    obtain ⟨a, ha, ha', hblockA⟩ := hblock (today - 33)
    obtain ⟨b, hb, hb', hblockB⟩ := hblock (today - 25)
    obtain ⟨c, hc, hc', hblockC⟩ := hblock (today - 17)
    obtain ⟨d, hd, hd', hblockD⟩ := hblock (today + 2)
    obtain ⟨e, he, he', hblockE⟩ := hblock (today + 10)
    have hmem {d : Int} (hfirst : today - 32 ≤ d) (hlast : d ≤ today + 32)
        (hblock : (nights z geometry).IsBlock (d, d)) : (d, d) ∈ runs :=
      mem_runs hmerged hruns (by exact_mod_cast hfirst) (by exact_mod_cast hlast) hblock
    have horder {d d' : Int} (hlt : d < d') (hblock : (nights z geometry).IsBlock (d, d))
        (hblock' : (nights z geometry).IsBlock (d', d')) :
        (nights z geometry).closes d < (nights z geometry).closes d' :=
      lt_trans hblock.closes_lt_opens (hblock'.before d hlt hblock.first)
    have hstarted : (nights z geometry).closes c ≤ atMs := by
      have hle : (nights z geometry).closes c ≤ c * DAY_MS + geometry.startMinutes.val * MINUTE_MS +
        12 * HOUR_MS := z.boundary_le c geometry.startMinutes
      have hminutes := geometry.startMinutes.isLt
      unfold DAY_MS MINUTE_MS HOUR_MS at *
      omega
    have hearly : atMs < (nights z geometry).closes d := by
      have hge : d * DAY_MS + geometry.startMinutes.val * MINUTE_MS - 14 * HOUR_MS ≤
        (nights z geometry).closes d := z.boundary_ge d geometry.startMinutes
      unfold DAY_MS MINUTE_MS HOUR_MS at *
      omega
    rw [hmerged]
    exact sealCalendar_found hruns hchain
      ⟨hmem (by omega) (by omega) hblockA, hmem (by omega) (by omega) hblockB,
        hmem (by omega) (by omega) hblockC, hmem (by omega) (by omega) hblockD,
        hmem (by omega) (by omega) hblockE⟩
      ⟨horder (by omega) hblockA hblockB, horder (by omega) hblockB hblockC, hstarted⟩
      ⟨hearly, horder (by omega) hblockD hblockE⟩
  obtain ⟨calendar, hcalendar⟩ := hwide
  rw [searchCalendar, List.findSome?_cons]
  split
  · exact ⟨_, rfl⟩
  · exact ⟨calendar, by rw [List.findSome?_cons, hcalendar]⟩

end Maxim.Moderation.NightMode
