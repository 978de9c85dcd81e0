import Maxim.Moderation.NightMode.Calendar
import Maxim.Library.Text

/-!
# What the cached calendars are good for

A calendar in the map was made for another instant, with another radius. Both
ends of its range have a neighbour that is known to be whole, so at any instant
of the range it shows the same nights around the instant as a new one.
-/

namespace Maxim.Moderation.NightMode

open Maxim.Library

variable {zones : Zones} {z : ZoneClock} {geometry : NightModeCalendarGeometry} {at' : Option Int}
  {atMs : Int} {calendars : Calendars} {calendar : Calendar} {ws : List NightModeCalendarWindow}
  {p c n : Int × Int}

/-- A calendar shows whole blocks, from the one before its range to the one that ends it. -/
def SealedIn (I : Intervals Int) (calendar : Calendar) : Prop :=
  ∃ x y rest, I.Shown (x :: y :: rest) ∧ calendar.windows = (x :: y :: rest).map (windowOf I) ∧
    calendar.fromMs = I.closes y.1 ∧
    calendar.untilMs = I.closes ((y :: rest).getLast (List.cons_ne_nil _ _)).1

/-- A calendar shows whole nights, from the one before its range to the one that ends it. -/
def Sealed (z : ZoneClock) (geometry : NightModeCalendarGeometry) (calendar : Calendar) : Prop :=
  SealedIn (nights z geometry) calendar

structure Shows (z : ZoneClock) (geometry : NightModeCalendarGeometry) (atMs : Int)
    (ws : List NightModeCalendarWindow) (p c n : Int × Int) : Prop where
  around : (nights z geometry).Around atMs p c n
  split : ∃ before after, (nights z geometry).Shown (before ++ p :: c :: n :: after) ∧
    ws = (before ++ p :: c :: n :: after).map (window z geometry)

theorem Sealed.shows (h : Sealed z geometry calendar) (hfrom : calendar.fromMs ≤ atMs)
    (huntil : atMs < calendar.untilMs) : ∃ p c n, Shows z geometry atMs calendar.windows p c n := by
  obtain ⟨x, y, rest, hshown, hwindows, hfirst, hlast⟩ := h
  rw [hfirst] at hfrom
  rw [hlast] at huntil
  obtain ⟨before, p, c, n, after, heq, haround⟩ := hshown.exists_around hfrom huntil
  rw [heq] at hshown hwindows
  exact ⟨p, c, n, haround, before, after, hshown, hwindows⟩

section Search

variable {z : WallClock} {I : Intervals Int}

/-- The seal of merged runs leaves the two outer ones out. -/
theorem sealCalendar_spec {runs : List (Int × Int)} (hruns : ∀ s ∈ runs, I.IsRun s)
    (hchain : runs.IsChain I.Follows)
    (h : sealCalendar (runs.map (windowOf I)) atMs = some calendar) :
    SealedIn I calendar ∧ calendar.fromMs ≤ atMs ∧ atMs < calendar.untilMs := by
  unfold sealCalendar at h
  split at h
  · next third lastButOne hthird hlast =>
    split at h
    · cases h
    · next hrange =>
      rw [not_or, not_lt, not_le] at hrange
      obtain rfl := Option.some.inj h
      refine ⟨?_, hrange⟩
      have hshown := Intervals.shown_interior hruns hchain
      cases runs with
      | nil => cases hthird
      | cons w runs =>
        cases runs with
        | nil => cases hthird
        | cons x runs =>
          cases runs with
          | nil => cases hthird
          | cons y runs =>
            obtain rfl := Option.some.inj hthird
            cases runs with
            | nil =>
              -- three windows have no instant between the third and the last but one
              have hlast : windowOf I x = lastButOne := Option.some.inj hlast
              have hxy := (List.isChain_cons_cons.mp hchain.tail).1
              have hx : I.closes x.1 < I.opens x.2 :=
                (hruns x (by simp)).closes_lt_opens
              have hlt : atMs < I.closes x.1 := by
                rw [← hlast] at hrange
                exact hrange.2
              exact absurd (lt_trans hlt (lt_trans hx hxy.gap)) (not_lt.mpr hrange.1)
            | cons v runs =>
              refine ⟨x, y, (v :: runs).dropLast, hshown, ?_, rfl, ?_⟩
              · exact List.map_dropLast.symm
              · have hmap : ((x :: y :: v :: runs).map (windowOf I)).dropLast.getLast? =
                    some lastButOne := hlast
                rw [← List.map_dropLast, List.getLast?_map] at hmap
                obtain ⟨s, hs, heq⟩ := Option.map_eq_some_iff.mp hmap
                rw [← heq]
                have hcons : (x :: y :: v :: runs).dropLast = x :: y :: (v :: runs).dropLast := rfl
                rw [hcons, List.getLast?_eq_some_getLast (List.cons_ne_nil _ _),
                  List.getLast_cons (List.cons_ne_nil _ _)] at hs
                rw [Option.some.inj hs]
                rfl
  · cases h

theorem searchCalendar_spec (hz : z.InOrder) (h : searchCalendar z geometry atMs = some calendar) :
    SealedIn (clockNights z hz geometry) calendar ∧ calendar.fromMs ≤ atMs ∧
      atMs < calendar.untilMs := by
  obtain ⟨-, radius, -, -, hseal, -⟩ := List.findSome?_eq_some_iff.mp h
  obtain ⟨runs, hmerged, hruns, hchain⟩ := mergeWindows_spec hz (z.localDay atMs) radius
  rw [hmerged] at hseal
  exact sealCalendar_spec hruns hchain hseal

end Search

/-! ## Keys -/

theorem colon_not_mem_repr (k : Nat) : ':' ∉ k.repr.toList := by
  intro hmem
  rw [Nat.toList_repr] at hmem
  exact absurd (Nat.isDigit_of_mem_toDigits (by decide) (by decide) hmem) (by decide)

theorem repr_injective {k k' : Nat} (h : k.repr.toList = k'.repr.toList) : k = k' := by
  rw [Nat.toList_repr, Nat.toList_repr] at h
  rw [← Nat.ofDigitChars_ten_toDigits (n := k), h, Nat.ofDigitChars_ten_toDigits]

theorem calendarKey_injective {g g' : NightModeCalendarGeometry} (h : calendarKey g = calendarKey g') :
    g = g' := by
  have hkey : ∀ g : NightModeCalendarGeometry, (calendarKey g).toList =
      (g.timezone.toList ++ ':' :: g.startMinutes.val.repr.toList) ++
        ':' :: g.endMinutes.val.repr.toList := fun g => by
    simp [calendarKey, String.toList_append]
  have hlist := congrArg String.toList h
  rw [hkey, hkey] at hlist
  obtain ⟨hhead, hend⟩ := append_cons_inj (colon_not_mem_repr _) (colon_not_mem_repr _) hlist
  obtain ⟨htimezone, hstart⟩ := append_cons_inj (colon_not_mem_repr _) (colon_not_mem_repr _) hhead
  rw [NightModeCalendarGeometry.mk.injEq]
  exact ⟨String.toList_inj.mp htimezone, Fin.ext (repr_injective hstart),
    Fin.ext (repr_injective hend)⟩

/-! ## The map -/

theorem deleteKey_subset (calendars : Calendars) (key : String) :
    deleteKey calendars key ⊆ calendars := List.filter_subset_self _

theorem evict_subset (calendars : Calendars) : evict calendars ⊆ calendars := by
  unfold evict
  split
  · exact List.tail_subset calendars
  · exact List.Subset.refl calendars

section Clocks

variable {zone : String → Option WallClock} {calendars' : Calendars}

def EntryIn (zone : String → Option WallClock) (entry : String × Calendar) : Prop :=
  ∃ geometry z hz, entry.1 = calendarKey geometry ∧ zone geometry.timezone = some z ∧
    SealedIn (clockNights z hz geometry) entry.2

def CacheIn (zone : String → Option WallClock) (calendars : Calendars) : Prop :=
  ∀ entry ∈ calendars, EntryIn zone entry

theorem CacheIn.subset (h : CacheIn zone calendars) (hsub : calendars' ⊆ calendars) :
    CacheIn zone calendars' := fun entry hentry => h entry (hsub hentry)

theorem CacheIn.append {entry : String × Calendar} (h : CacheIn zone calendars)
    (hentry : EntryIn zone entry) : CacheIn zone (calendars ++ [entry]) := by
  intro e he
  rcases List.mem_append.mp he with he | he
  · exact h e he
  · rw [List.mem_singleton.mp he]
    exact hentry

theorem cachedCalendar_spec (hok : CacheIn zone calendars)
    (h : cachedCalendar calendars geometry atMs = some calendar) :
    ∃ z hz, zone geometry.timezone = some z ∧ SealedIn (clockNights z hz geometry) calendar ∧
      calendar.fromMs ≤ atMs ∧ atMs < calendar.untilMs := by
  obtain ⟨hlookup, hrange⟩ := Option.filter_eq_some_iff.mp h
  rw [Bool.and_eq_true, decide_eq_true_iff, decide_eq_true_iff] at hrange
  obtain ⟨before, after, heq, -⟩ := List.lookup_eq_some_iff.mp hlookup
  obtain ⟨g, z, hz, hkey, hzone, hsealed⟩ := hok (calendarKey geometry, calendar) (by rw [heq]; simp)
  obtain rfl := calendarKey_injective hkey
  exact ⟨z, hz, hzone, hsealed, hrange⟩

theorem resolveCalendar_spec (hzones : ∀ name z, zone name = some z → z.InOrder)
    (hok : CacheIn zone calendars)
    (h : resolveCalendar zone geometry at' calendars = (.ok ws, calendars')) :
    ∃ atMs z hz calendar, at' = some atMs ∧ zone geometry.timezone = some z ∧
      SealedIn (clockNights z hz geometry) calendar ∧ calendar.fromMs ≤ atMs ∧
      atMs < calendar.untilMs ∧ calendar.windows = ws ∧
      calendars'.getLast? = some (calendarKey geometry, calendar) := by
  unfold resolveCalendar at h
  cases at' with
  | none => cases h
  | some atMs =>
    dsimp only at h
    split at h
    · next cached hcached =>
      obtain ⟨hws, rfl⟩ := Prod.mk.inj h
      obtain ⟨z, hz, hzone, hsealed, hfrom, huntil⟩ := cachedCalendar_spec hok hcached
      exact ⟨atMs, z, hz, cached, rfl, hzone, hsealed, hfrom, huntil, Except.ok.inj hws,
        List.getLast?_concat⟩
    · split at h
      · cases h
      · next z hzone =>
        split at h
        · cases h
        · next calendar hsearch =>
          obtain ⟨hws, rfl⟩ := Prod.mk.inj h
          obtain ⟨hsealed, hfrom, huntil⟩ := searchCalendar_spec (hzones _ z hzone) hsearch
          exact ⟨atMs, z, hzones _ z hzone, calendar, rfl, hzone, hsealed, hfrom, huntil,
            Except.ok.inj hws, List.getLast?_concat⟩

theorem resolveCalendar_ok (hzones : ∀ name z, zone name = some z → z.InOrder)
    (hok : CacheIn zone calendars) (geometry at') :
    CacheIn zone (resolveCalendar zone geometry at' calendars).2 := by
  unfold resolveCalendar
  cases at' with
  | none => exact hok
  | some atMs =>
    dsimp only
    split
    · next cached hcached =>
      obtain ⟨z, hz, hzone, hsealed, -⟩ := cachedCalendar_spec hok hcached
      exact (hok.subset (deleteKey_subset _ _)).append ⟨geometry, z, hz, rfl, hzone, hsealed⟩
    · split
      · exact hok
      · next z hzone =>
        split
        · exact hok
        · next calendar hsearch =>
          have hsubset := List.Subset.trans (evict_subset _) (deleteKey_subset calendars
            (calendarKey geometry))
          exact (hok.subset hsubset).append ⟨geometry, z, hzones _ z hzone, rfl, hzone,
            (searchCalendar_spec (hzones _ z hzone) hsearch).1⟩

def callsIn (zone : String → Option WallClock)
    (history : List (NightModeCalendarGeometry × Option Int)) : Calendars :=
  history.foldl (fun calendars call => (resolveCalendar zone call.1 call.2 calendars).2) []

theorem callsIn_ok (hzones : ∀ name z, zone name = some z → z.InOrder)
    (history : List (NightModeCalendarGeometry × Option Int)) : CacheIn zone (callsIn zone history) := by
  refine List.foldlRecOn history _ ?_ fun calendars hok call _ => resolveCalendar_ok hzones hok _ _
  exact fun entry hentry => absurd hentry List.not_mem_nil

end Clocks

def CacheOk (zones : Zones) (calendars : Calendars) : Prop :=
  ∀ entry ∈ calendars, ∃ geometry z, entry.1 = calendarKey geometry ∧
    zones.zone geometry.timezone = some z ∧ Sealed z geometry entry.2

theorem CacheOk.nil (zones : Zones) : CacheOk zones [] := fun _ h => absurd h List.not_mem_nil

theorem clock_eq_some {name : String} {z : WallClock} (h : zones.clock name = some z) :
    ∃ z' : ZoneClock, zones.zone name = some z' ∧ z'.toWallClock = z :=
  Option.map_eq_some_iff.mp h

theorem clock_inOrder (name : String) (z : WallClock) (h : zones.clock name = some z) : z.InOrder := by
  obtain ⟨z', -, rfl⟩ := clock_eq_some h
  exact z'.boundary_mono

theorem cacheOk_iff : CacheOk zones calendars ↔ CacheIn zones.clock calendars := by
  refine forall₂_congr fun entry _ => ⟨?_, ?_⟩
  · rintro ⟨geometry, z, hkey, hzone, hsealed⟩
    exact ⟨geometry, z.toWallClock, z.boundary_mono, hkey,
      by rw [Zones.clock, hzone, Option.map_some], hsealed⟩
  · rintro ⟨geometry, z, hz, hkey, hzone, hsealed⟩
    obtain ⟨z', hzone', rfl⟩ := clock_eq_some hzone
    exact ⟨geometry, z', hkey, hzone', hsealed⟩

theorem resolveNightModeCalendar_spec (hok : CacheOk zones calendars)
    (h : (resolveNightModeCalendar zones geometry at' calendars).1 = .ok ws) :
    ∃ atMs z p c n, at' = some atMs ∧ zones.zone geometry.timezone = some z ∧
      Shows z geometry atMs ws p c n := by
  obtain ⟨atMs, z, hz, calendar, rfl, hzone, hsealed, hfrom, huntil, rfl, -⟩ :=
    resolveCalendar_spec clock_inOrder (cacheOk_iff.mp hok) (Prod.ext h rfl)
  obtain ⟨z', hzone', rfl⟩ := clock_eq_some hzone
  obtain ⟨p, c, n, hshows⟩ := Sealed.shows (z := z') hsealed hfrom huntil
  exact ⟨atMs, z', p, c, n, rfl, hzone', hshows⟩

theorem resolveNightModeCalendar_ok (hok : CacheOk zones calendars) (geometry at') :
    CacheOk zones (resolveNightModeCalendar zones geometry at' calendars).2 :=
  cacheOk_iff.mpr (resolveCalendar_ok clock_inOrder (cacheOk_iff.mp hok) geometry at')

theorem resolveNightModeCalendar_found (calendars : Calendars)
    (h : (resolveNightModeCalendar zones geometry at' []).1 = .ok ws) :
    ∃ ws', (resolveNightModeCalendar zones geometry at' calendars).1 = .ok ws' := by
  unfold resolveNightModeCalendar resolveCalendar at h ⊢
  cases at' with
  | none => cases h
  | some atMs =>
    dsimp only at h ⊢
    have hempty : cachedCalendar [] geometry atMs = none := rfl
    rw [hempty] at h
    dsimp only at h
    split
    · exact ⟨_, rfl⟩
    · split at h
      · cases h
      · split at h
        · cases h
        · exact ⟨_, rfl⟩

/-- The map after some calls, in the zones that the libraries agree on. -/
def afterCalls (zones : Zones) (history : List (NightModeCalendarGeometry × Option Int)) : Calendars :=
  history.foldl (fun calendars call => (resolveNightModeCalendar zones call.1 call.2 calendars).2) []

theorem afterCalls_ok (zones : Zones) (history : List (NightModeCalendarGeometry × Option Int)) :
    CacheOk zones (afterCalls zones history) := cacheOk_iff.mpr (callsIn_ok clock_inOrder history)

end Maxim.Moderation.NightMode
