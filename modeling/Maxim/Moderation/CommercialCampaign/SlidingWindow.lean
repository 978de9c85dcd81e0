import Mathlib.Data.List.Dedup
import Maxim.Library.Decimal
import Maxim.Library.RankedSet
import Maxim.Library.Relation
import Maxim.Library.Text

/-!
# The sliding campaign window

The chats in which a sender was seen, each with its last sighting, are kept in
a Redis sorted set with a lifetime or, offline, in maps that are pruned by
hand. The key carries the window it is used with, so the one set of a key and
the map of its window answer every observation alike.
-/

namespace Maxim.Moderation.CommercialCampaign.SlidingWindow

open Maxim.Library

def COMMERCIAL_SLIDING_CAMPAIGN_MAX_MEMBERS : Nat := 256
def COMMERCIAL_SLIDING_CAMPAIGN_MAX_KEYS_PER_WINDOW : Nat := 20000
def COMMERCIAL_SLIDING_CAMPAIGN_MAX_FUTURE_SKEW_MS : Nat := 30000

structure Observation (κ γ : Type) where
  key : κ
  chatId : γ
  eventTimestampMs : Nat
  windowSeconds : Nat

structure Answer where
  size : Nat
  saturated : Bool
  deriving DecidableEq, Repr

variable {κ γ μ : Type} [DecidableEq κ] [LinearOrder μ]

/-! ## The script -/

/-- What is read back of the fourteen digits that `tostring` prints. -/
def tostring (n : Int) : Int := n.sign * (significant 14 n.natAbs : Nat)

/-- `COMMERCIAL_CAMPAIGN_SLIDING_WINDOW_SCRIPT` on a key that has not expired at `now`. -/
def slidingWindowScript (now : Nat) (member : μ) (eventMs windowSeconds memberLimit skew : Nat)
    (s : Slot (Table μ Nat)) : Slot (Table μ Nat) × Answer :=
  let windowMs := windowSeconds * 1000
  if (eventMs : Int) ≤ now - windowMs ∨ now + skew < eventMs then (s, ⟨0, false⟩)
  else
    let eventMs := min eventMs now
    let s := removeScored s (now - windowMs)
    let s := if (field s member).all (· < eventMs) then setField s member eventMs else s
    let storedSize := zcard s
    let saturated := decide (memberLimit < storedSize)
    let s := if memberLimit < storedSize then removeLowest s (storedSize - memberLimit) else s
    let s := pexpire now windowMs s
    (s, ⟨(scoredWithin s (tostring (eventMs - windowMs)) eventMs).length, saturated⟩)

/-- `trackCommercialCampaignSlidingWindow` on the keys of the store. -/
def track (fingerprint : γ → μ) (maxMembers : Nat) (now : Nat) (o : Observation κ γ)
    (store : Slots κ (Table μ Nat)) : Slots κ (Table μ Nat) × Answer :=
  let r := slidingWindowScript now (fingerprint o.chatId) o.eventTimestampMs o.windowSeconds
    maxMembers COMMERCIAL_SLIDING_CAMPAIGN_MAX_FUTURE_SKEW_MS (purge now (store o.key))
  (put store o.key r.1, r.2)

/-! ## The maps -/

structure SlidingSet (μ : Type) where
  expiresAtMs : Nat
  members : Table μ Nat

/-- `InMemoryCommercialCampaignSlidingWindow`: for each window the sets of its keys in the order of
their last write. -/
structure InMemory (κ μ : Type) where
  windows : Nat → List (κ × SlidingSet μ)
  highWatermarkMs : Nat

def InMemory.empty : InMemory κ μ := ⟨fun _ => [], 0⟩

def InMemory.pruneExpiredKeys (nowMs : Nat) (w : InMemory κ μ) : InMemory κ μ :=
  { w with windows := fun seconds =>
      (w.windows seconds).dropWhile fun e => decide (e.2.expiresAtMs ≤ nowMs) }

def oldest (members : Table μ Nat) : List (Nat ×ₗ μ) :=
  (members.entries.map fun e => toLex (e.2, e.1)).insertionSort (· ≤ ·)

/-- The members after a sighting, and whether the oldest had to give way. -/
def remember (nowMs windowMs maxMembers eventMs : Nat) (member : μ) (members : Table μ Nat) :
    Table μ Nat × Bool :=
  let members := deleteRows (fun _ (lastSeen : Nat) =>
    decide ((lastSeen : Int) ≤ nowMs - windowMs)) members
  let members := members.insert member (max ((members.lookup member).getD 0) eventMs)
  let size := members.entries.length
  if maxMembers < size then
    ((((oldest members).take (size - maxMembers)).map fun e => (ofLex e).2).foldl
      (fun t m => t.erase m) members, true)
  else (members, false)

/-- The keys of a window after one is written last; the first gives way when they are too many. -/
def setLatest (maxKeysPerWindow : Nat) (key : κ) (state : SlidingSet μ)
    (keys : List (κ × SlidingSet μ)) : List (κ × SlidingSet μ) :=
  let keys := keys.filter (fun e => e.1 ≠ key) ++ [(key, state)]
  if maxKeysPerWindow < keys.length then keys.tail else keys

def observe (fingerprint : γ → μ) (maxMembers maxKeysPerWindow : Nat) (nowMs : Nat)
    (o : Observation κ γ) (w : InMemory κ μ) : InMemory κ μ × Answer :=
  let nowMs := max w.highWatermarkMs nowMs
  let w := InMemory.pruneExpiredKeys nowMs ⟨w.windows, nowMs⟩
  let windowMs := o.windowSeconds * 1000
  if (o.eventTimestampMs : Int) ≤ nowMs - windowMs ∨
      nowMs + COMMERCIAL_SLIDING_CAMPAIGN_MAX_FUTURE_SKEW_MS < o.eventTimestampMs then
    (w, ⟨0, false⟩)
  else
    let eventMs := min o.eventTimestampMs nowMs
    let keys := w.windows o.windowSeconds
    let state := (keys.lookup o.key).getD ⟨nowMs + windowMs, ∅⟩
    let r := remember nowMs windowMs maxMembers eventMs (fingerprint o.chatId) state.members
    let keys := setLatest maxKeysPerWindow o.key ⟨nowMs + windowMs, r.1⟩ keys
    ({ w with windows := Function.update w.windows o.windowSeconds keys },
      ⟨r.1.entries.countP fun e =>
        decide ((eventMs : Int) - windowMs < (e.2 : Int) ∧ e.2 ≤ eventMs), r.2⟩)

/-! ## Sets with the same scores -/

/-- The sorted set and the map give every member the same last sighting. -/
def Shows (s : Slot (Table μ Nat)) (members : Table μ Nat) : Prop :=
  ∀ m, field s m = members.lookup m

variable {s : Slot (Table μ Nat)} {members : Table μ Nat}

theorem Shows.ranked_eq (h : Shows s members) : ranked s = oldest members := by
  have hsame : ∀ m, field s m = field (some ⟨members, none⟩) m := h
  exact ranked_congr hsame

theorem Shows.zcard_eq (h : Shows s members) : zcard s = members.entries.length := by
  rw [zcard, h.ranked_eq, oldest, List.length_insertionSort, List.length_map]

theorem lookup_foldl_erase (l : List μ) (members : Table μ Nat) (m : μ) :
    (l.foldl (fun t m => t.erase m) members).lookup m =
      if m ∈ l then none else members.lookup m := by
  induction l generalizing members with
  | nil => simp
  | cons a l ih =>
    rw [List.foldl_cons, ih]
    by_cases ha : m = a
    · subst ha
      simp
    · by_cases hl : m ∈ l
      · simp [hl]
      · simp [hl, ha, AList.lookup_erase_ne ha]

theorem Shows.removeLowest (h : Shows s members) (count : Nat) :
    Shows (Library.removeLowest s count)
      ((((oldest members).take count).map fun e => (ofLex e).2).foldl (fun t m => t.erase m)
        members) := by
  intro m
  rw [Library.removeLowest, field_foldl_delField, lookup_foldl_erase, h.ranked_eq, h m]

theorem Shows.count_eq (h : Shows s members) (lo : Int) (hi : Nat) :
    (scoredWithin s lo hi).length =
      members.entries.countP fun e => decide (lo < (e.2 : Int) ∧ e.2 ≤ hi) := by
  rw [scoredWithin, h.ranked_eq, ← List.countP_eq_length_filter, oldest,
    (List.perm_insertionSort _ _).countP_eq, List.countP_map]
  apply List.countP_congr
  intro e _
  rw [Function.comp_apply, decide_eq_true_iff, decide_eq_true_iff]
  exact and_congr_right fun _ => Int.ofNat_le

theorem Shows.sighting (h : Shows s members) (member : μ) (eventMs : Nat) :
    Shows (if (field s member).all (· < eventMs) then setField s member eventMs else s)
      (members.insert member (max ((members.lookup member).getD 0) eventMs)) := by
  intro m
  by_cases hm : m = member
  · subst hm
    rw [AList.lookup_insert, ← h m]
    cases hp : field s m with
    | none => simp [field_setField]
    | some p =>
      by_cases hlt : p < eventMs
      · simp [hlt, field_setField, Nat.max_eq_right (Nat.le_of_lt hlt)]
      · simp [hlt, hp, Nat.max_eq_left (Nat.not_lt.mp hlt)]
  · rw [AList.lookup_insert_ne hm, ← h m]
    split
    · rw [field_setField, if_neg hm]
    · rfl

theorem tostring_of_lt {n : Int} (h : n < 10 ^ 14) (hi : n < 0 → -(10 ^ 14) < n) : tostring n = n := by
  rw [tostring, significant_of_lt (by decide) (by omega), Int.sign_mul_natAbs]

theorem tostring_neg {n : Int} (h : n < 0) : tostring n < 0 := by
  have hpos : 0 < significant 14 n.natAbs := by
    have hle := le_significant (d := 14) (by decide) (n := n.natAbs) (by omega)
    exact Nat.lt_of_lt_of_le (Nat.pow_pos (by decide)) hle
  rw [tostring, Int.sign_eq_neg_one_of_neg h]
  omega

theorem tostring_lt_iff {n : Int} (h : n < 10 ^ 14) (x : Nat) : tostring n < (x : Int) ↔ n < (x : Int) := by
  by_cases hn : n < 0
  · have hprint := tostring_neg hn
    constructor <;> intro _ <;> omega
  · rw [tostring_of_lt h (by omega)]

/-! ## One sighting -/

/-- The members as the script leaves them, before the lifetime is set. -/
def sight (now windowMs memberLimit eventMs : Nat) (member : μ) (s : Slot (Table μ Nat)) :
    Slot (Table μ Nat) × Bool :=
  let s := removeScored s (now - windowMs)
  let s := if (field s member).all (· < eventMs) then setField s member eventMs else s
  let storedSize := zcard s
  (if memberLimit < storedSize then removeLowest s (storedSize - memberLimit) else s,
    decide (memberLimit < storedSize))

theorem slidingWindowScript_eq (now : Nat) (member : μ) (eventMs windowSeconds memberLimit skew : Nat)
    (s : Slot (Table μ Nat)) :
    slidingWindowScript now member eventMs windowSeconds memberLimit skew s =
      if (eventMs : Int) ≤ now - (windowSeconds * 1000 : Nat) ∨ now + skew < eventMs then (s, ⟨0, false⟩)
      else
        let r := sight now (windowSeconds * 1000) memberLimit (min eventMs now) member s
        let s := pexpire now (windowSeconds * 1000) r.1
        (s, ⟨(scoredWithin s (tostring ((min eventMs now : Nat) - (windowSeconds * 1000 : Nat)))
          (min eventMs now : Nat)).length, r.2⟩) := rfl

def Recent (now windowMs : Nat) (s : Slot (Table μ Nat)) (members : Table μ Nat) : Prop :=
  ∀ m v, now < v + windowMs → (field s m = some v ↔ members.lookup m = some v)

variable {windowMs eventMs : Nat}

theorem Recent.shows {now : Nat} (h : Recent now windowMs s members) :
    Shows (removeScored s (now - windowMs))
      (deleteRows (fun _ (lastSeen : Nat) => decide ((lastSeen : Int) ≤ now - windowMs)) members) := by
  intro m
  apply Option.ext
  intro v
  rw [field_removeScored, lookup_deleteRows, Option.filter_eq_some_iff, Option.filter_eq_some_iff]
  by_cases hv : now < v + windowMs
  · have hlt : (now : Int) - windowMs < v := by omega
    simp [h m v hv, hlt, Int.not_le.mpr hlt]
  · have hle : ¬(now : Int) - windowMs < v := by omega
    have hle' : (v : Int) ≤ now - windowMs := by omega
    simp [hle, hle']

theorem Recent.sight {now : Nat} (h : Recent now windowMs s members)
    (maxMembers eventMs : Nat) (member : μ) :
    Shows (SlidingWindow.sight now windowMs maxMembers eventMs member s).1
        (remember now windowMs maxMembers eventMs member members).1 ∧
      (SlidingWindow.sight now windowMs maxMembers eventMs member s).2 =
        (remember now windowMs maxMembers eventMs member members).2 := by
  have hshow := h.shows.sighting member eventMs
  simp only [SlidingWindow.sight, remember, hshow.zcard_eq]
  split
  · rename_i hlt
    exact ⟨hshow.removeLowest _, decide_eq_true hlt⟩
  · rename_i hlt
    exact ⟨hshow, decide_eq_false hlt⟩

theorem remember_le {now maxMembers t : Nat} {member : μ}
    (hpast : ∀ m v, members.lookup m = some v → v ≤ t) (hevent : eventMs ≤ t) {m : μ} {v : Nat}
    (h : (remember now windowMs maxMembers eventMs member members).1.lookup m = some v) : v ≤ t := by
  have hkept : ∀ m v, (deleteRows (fun _ (lastSeen : Nat) =>
      decide ((lastSeen : Int) ≤ now - windowMs)) members).lookup m = some v → v ≤ t := by
    intro m v hv
    rw [lookup_deleteRows, Option.filter_eq_some_iff] at hv
    exact hpast m v hv.1
  have hset : ∀ kept : Table μ Nat, (∀ m v, kept.lookup m = some v → v ≤ t) →
      ∀ v, (kept.insert member (max ((kept.lookup member).getD 0) eventMs)).lookup m = some v →
        v ≤ t := by
    intro kept hkept v hv
    by_cases hm : m = member
    · subst hm
      rw [AList.lookup_insert, Option.some.injEq] at hv
      cases hold : kept.lookup m with
      | none =>
        rw [hold, Option.getD_none] at hv
        omega
      | some old =>
        have hle := hkept m old hold
        rw [hold, Option.getD_some] at hv
        omega
    · rw [AList.lookup_insert_ne hm] at hv
      exact hkept m v hv
  simp only [remember] at h
  split at h
  · rw [lookup_foldl_erase] at h
    split at h
    · simp at h
    · exact hset _ hkept v h
  · exact hset _ hkept v h

/-! ## One key -/

def seen (state : Option (SlidingSet μ)) : Table μ Nat := (state.map SlidingSet.members).getD ∅

omit [LinearOrder μ] in
theorem members_getD (state : Option (SlidingSet μ)) (x : Nat) :
    (state.getD ⟨x, ∅⟩).members = seen state := by
  cases state <;> rfl

/-- The set of a key and its entry in the map agree on all that is recent, and both outlive it. -/
structure Tracks (t windowMs : Nat) (s : Slot (Table μ Nat)) (state : Option (SlidingSet μ)) : Prop where
  recent : Recent t windowMs s (seen state)
  past : ∀ m v, (seen state).lookup m = some v → v ≤ t
  lifetime : ∀ c, s = some c → ∀ m v, c.value.lookup m = some v →
    ∃ x, c.expiresAt = some x ∧ v + windowMs ≤ x
  expiry : ∀ st, state = some st → ∀ m v, st.members.lookup m = some v →
    v + windowMs ≤ st.expiresAtMs

theorem tracks_none (t windowMs : Nat) :
    Tracks t windowMs (none : Slot (Table μ Nat)) none where
  recent := by
    intro m v _
    simp [seen]
  past := by simp [seen]
  lifetime := by simp
  expiry := by simp

variable {state : Option (SlidingSet μ)}

theorem Tracks.mono {t t' : Nat}
    (h : Tracks t windowMs s state) (hle : t ≤ t') : Tracks t' windowMs s state where
  recent m v hv := h.recent m v (by omega)
  past m v hv := Nat.le_trans (h.past m v hv) hle
  lifetime := h.lifetime
  expiry := h.expiry

def Pruned (now : Nat) (state state' : Option (SlidingSet μ)) : Prop :=
  state' = state ∨ state' = none ∧ ∀ st, state = some st → st.expiresAtMs ≤ now

theorem Tracks.purge {now : Nat}
    (h : Tracks now windowMs s state) : Tracks now windowMs (Library.purge now s) state where
  recent := by
    intro m v hv
    rw [← h.recent m v hv]
    refine ⟨field_purge_eq_some, fun hf => ?_⟩
    cases s with
    | none => simp at hf
    | some c =>
      obtain ⟨x, hx, hle⟩ := h.lifetime c rfl m v hf
      rwa [purge_some_of_live (by simp only [Cell.live, hx, decide_eq_true_eq]; omega)]
  past := h.past
  lifetime c hc := h.lifetime c (purge_eq_some.mp hc).1
  expiry := h.expiry

theorem Tracks.prune {now : Nat} {state' : Option (SlidingSet μ)}
    (h : Tracks now windowMs s state) (hp : Pruned now state state') :
    Tracks now windowMs s state' := by
  rcases hp with rfl | ⟨rfl, hexp⟩
  · exact h
  · refine ⟨fun m v hv => ?_, by simp [seen], h.lifetime, by simp⟩
    rw [h.recent m v hv]
    cases state with
    | none => rfl
    | some st =>
      have hnot : ¬(seen (some st)).lookup m = some v := by
        intro hl
        have hle := h.expiry st rfl m v hl
        have hdead := hexp st rfl
        omega
      exact iff_of_false hnot (by simp [seen])

theorem Tracks.sight {now : Nat}
    (h : Tracks now windowMs s state) (maxMembers : Nat) (hevent : eventMs ≤ now)
    (member : μ) :
    Tracks now windowMs
      (pexpire now windowMs (SlidingWindow.sight now windowMs maxMembers eventMs member s).1)
      (some ⟨now + windowMs,
        (remember now windowMs maxMembers eventMs member (seen state)).1⟩) := by
  have hshow := (h.recent.sight maxMembers eventMs member).1
  have hpast : ∀ m v, (remember now windowMs maxMembers eventMs member (seen state)).1.lookup m =
      some v → v ≤ now := fun m v hv => remember_le h.past hevent hv
  refine ⟨?_, hpast, ?_, ?_⟩
  · intro m v hv
    by_cases hzero : windowMs = 0
    · have hnot : ¬(seen (some (⟨now + windowMs,
          (remember now windowMs maxMembers eventMs member (seen state)).1⟩ : SlidingSet μ))).lookup m =
          some v := by
        intro hl
        have hle := hpast m v hl
        omega
      simp only [hnot, pexpire, if_pos hzero, field_none]
      simp
    · rw [pexpire, if_neg hzero, field_expireAt, hshow m]
      rfl
  · intro c hc m v hv
    rw [pexpire] at hc
    split at hc
    · simp at hc
    · have hfield : field (SlidingWindow.sight now windowMs maxMembers eventMs member s).1 m = some v := by
        rw [← field_expireAt (now + windowMs), hc]
        exact hv
      rw [hshow m] at hfield
      have hle := hpast m v hfield
      exact ⟨now + windowMs, expiresAt_expireAt _ _ c hc, by omega⟩
  · intro st hst m v hv
    rw [Option.some.injEq] at hst
    subst hst
    have hle := hpast m v hv
    show v + windowMs ≤ now + windowMs
    omega

theorem Tracks.answer {now : Nat}
    (h : Tracks now windowMs s state) (maxMembers : Nat) (hevent : eventMs ≤ now)
    (member : μ) (hnow : now < 10 ^ 14) :
    (scoredWithin (pexpire now windowMs (SlidingWindow.sight now windowMs maxMembers eventMs member s).1)
        (tostring ((eventMs : Int) - windowMs)) eventMs).length =
      (remember now windowMs maxMembers eventMs member (seen state)).1.entries.countP fun e =>
        decide ((eventMs : Int) - windowMs < (e.2 : Int) ∧ e.2 ≤ eventMs) := by
  have hshow := (h.recent.sight maxMembers eventMs member).1
  by_cases hzero : windowMs = 0
  · have hnone : ∀ e ∈ (remember now windowMs maxMembers eventMs member (seen state)).1.entries,
        ¬decide ((eventMs : Int) - windowMs < (e.2 : Int) ∧ e.2 ≤ eventMs) = true := by
      intro e _ he
      rw [decide_eq_true_iff] at he
      omega
    rw [List.countP_eq_zero.mpr hnone, pexpire, if_pos hzero]
    rfl
  · have hexpire : Shows (expireAt (now + windowMs)
        (SlidingWindow.sight now windowMs maxMembers eventMs member s).1)
        (remember now windowMs maxMembers eventMs member (seen state)).1 := by
      intro m
      rw [field_expireAt, hshow m]
    rw [pexpire, if_neg hzero, hexpire.count_eq]
    apply List.countP_congr
    intro e _
    rw [decide_eq_true_iff, decide_eq_true_iff, tostring_lt_iff (by omega)]

/-! ## The maps of a window -/

section Entries

variable {β : Type} {keys : List (κ × β)}

theorem lookup_cons_eq_ite (e : κ × β) (keys : List (κ × β)) (k : κ) :
    (e :: keys).lookup k = if k = e.1 then some e.2 else keys.lookup k := by
  rw [List.lookup_cons]
  by_cases h : k = e.1
  · simp [h]
  · have hne : (k == e.1) = false := by simp [h]
    rw [hne, if_neg h]

theorem lookup_append_filter (keys : List (κ × β)) (k k' : κ) (b : β) :
    (keys.filter (fun e => e.1 ≠ k) ++ [(k, b)]).lookup k' =
      if k' = k then some b else keys.lookup k' := by
  induction keys with
  | nil => rw [List.filter_nil, List.nil_append, lookup_cons_eq_ite]
  | cons e keys ih =>
    by_cases he : e.1 = k
    · rw [List.filter_cons_of_neg (by simp [he]), ih, lookup_cons_eq_ite, he]
      split <;> rfl
    · rw [List.filter_cons_of_pos (by simp [he]), List.cons_append, lookup_cons_eq_ite, ih,
        lookup_cons_eq_ite]
      by_cases h : k' = k
      · rw [if_neg (by rw [h]; exact Ne.symm he), if_pos h, if_pos h]
      · rw [if_neg h, if_neg h]

theorem lookup_eq_none_of_not_mem {k : κ} (h : k ∉ keys.map Prod.fst) : keys.lookup k = none := by
  induction keys with
  | nil => rfl
  | cons e keys ih =>
    rw [List.map_cons, List.mem_cons, not_or] at h
    rw [lookup_cons_eq_ite, if_neg h.1, ih h.2]

end Entries

variable {keys : List (κ × SlidingSet μ)}

omit [LinearOrder μ] in
theorem pruned_dropWhile (hnodup : (keys.map Prod.fst).Nodup) (now : Nat) (k : κ) :
    Pruned now (keys.lookup k)
      ((keys.dropWhile fun e => decide (e.2.expiresAtMs ≤ now)).lookup k) := by
  induction keys with
  | nil => exact .inl rfl
  | cons e keys ih =>
    rw [List.map_cons, List.nodup_cons] at hnodup
    by_cases hdead : e.2.expiresAtMs ≤ now
    · rw [List.dropWhile_cons_of_pos (by simpa using hdead)]
      by_cases hk : k = e.1
      · subst hk
        have habsent : e.1 ∉ (keys.dropWhile fun e => decide (e.2.expiresAtMs ≤ now)).map Prod.fst :=
          fun hmem => hnodup.1 ((List.Sublist.map Prod.fst (List.dropWhile_sublist _)).subset hmem)
        refine .inr ⟨lookup_eq_none_of_not_mem habsent, fun st hst => ?_⟩
        rw [lookup_cons_eq_ite, if_pos rfl] at hst
        rwa [← Option.some.inj hst]
      · rw [lookup_cons_eq_ite, if_neg hk]
        exact ih hnodup.2
    · rw [List.dropWhile_cons_of_neg (by simpa using hdead)]
      exact .inl rfl

/-! ## Every observation -/

/-- The answers to dated observations, asked in this order. -/
def answers {σ : Type} (step : Nat → Observation κ γ → σ → σ × Answer) :
    σ → List (Nat × Observation κ γ) → List Answer
  | _, [] => []
  | s, (now, o) :: rest => (step now o s).2 :: answers step (step now o s).1 rest

/-- The store and the maps after the same observations, all of whose keys are among `observed`. -/
structure Refines (window : κ → Nat) (observed : List κ) (t : Nat) (store : Slots κ (Table μ Nat))
    (w : InMemory κ μ) : Prop where
  clock : w.highWatermarkMs ≤ t
  nodup : ∀ seconds, ((w.windows seconds).map Prod.fst).Nodup
  keys : ∀ seconds k, k ∈ (w.windows seconds).map Prod.fst → k ∈ observed ∧ window k = seconds
  tracks : ∀ k, Tracks t (window k * 1000) (store k) ((w.windows (window k)).lookup k)

theorem refines_empty (window : κ → Nat) (observed : List κ) :
    Refines window observed 0 (fun _ => none) (InMemory.empty : InMemory κ μ) where
  clock := Nat.le_refl 0
  nodup _ := List.nodup_nil
  keys := by simp [InMemory.empty]
  tracks k := tracks_none 0 _

variable {window : κ → Nat} {observed : List κ} {t now : Nat} {store : Slots κ (Table μ Nat)}
  {w : InMemory κ μ}

theorem Refines.prune (h : Refines window observed t store w) (hle : t ≤ now) :
    Refines window observed now store (InMemory.pruneExpiredKeys now ⟨w.windows, now⟩) where
  clock := Nat.le_refl now
  nodup seconds := (h.nodup seconds).sublist (List.Sublist.map _ (List.dropWhile_sublist _))
  keys seconds k hk :=
    h.keys seconds k ((List.Sublist.map Prod.fst (List.dropWhile_sublist _)).subset hk)
  tracks k := ((h.tracks k).mono hle).prune (pruned_dropWhile (h.nodup _) now k)

/-- The keys of a window after one of them is written: no key has to give way. -/
theorem Refines.write (h : Refines window observed now store w) {k : κ} (hk : k ∈ observed)
    {s : Slot (Table μ Nat)} {st : SlidingSet μ} (htrack : Tracks now (window k * 1000) s (some st))
    {maxKeysPerWindow : Nat}
    (hkeys : (observed.filter fun k' => window k' = window k).dedup.length ≤ maxKeysPerWindow) :
    Refines window observed now (put store k s)
      { w with
        windows := Function.update w.windows (window k)
          (setLatest maxKeysPerWindow k st (w.windows (window k))) } := by
  have hfresh : k ∉ ((w.windows (window k)).filter fun e => e.1 ≠ k).map Prod.fst := by
    simp
  have hnodup : (((w.windows (window k)).filter (fun e => e.1 ≠ k) ++ [(k, st)]).map Prod.fst).Nodup := by
    rw [List.map_append, List.map_singleton, List.nodup_append]
    refine ⟨(h.nodup _).sublist (List.Sublist.map _ List.filter_sublist), List.nodup_singleton _, ?_⟩
    intro a ha b hb hab
    rw [hab, List.mem_singleton.mp hb] at ha
    exact hfresh ha
  have hmem : ∀ k', k' ∈ ((w.windows (window k)).filter (fun e => e.1 ≠ k) ++ [(k, st)]).map Prod.fst →
      k' ∈ observed ∧ window k' = window k := by
    intro k' hk'
    rw [List.map_append, List.map_singleton, List.mem_append, List.mem_singleton] at hk'
    rcases hk' with hk' | rfl
    · exact h.keys _ k' ((List.Sublist.map Prod.fst List.filter_sublist).subset hk')
    · exact ⟨hk, rfl⟩
  have hsize : ((w.windows (window k)).filter (fun e => e.1 ≠ k) ++ [(k, st)]).length ≤
      maxKeysPerWindow := by
    rw [← List.length_map (f := Prod.fst)]
    refine Nat.le_trans (List.subperm_of_subset hnodup fun k' hk' => ?_).length_le hkeys
    rw [List.mem_dedup, List.mem_filter]
    exact ⟨(hmem k' hk').1, by simpa using (hmem k' hk').2⟩
  simp only [setLatest, if_neg (Nat.not_lt.mpr hsize)]
  refine ⟨h.clock, fun seconds => ?_, fun seconds k' hk' => ?_, fun k' => ?_⟩
  · by_cases hs : seconds = window k
    · subst hs
      simpa using hnodup
    · simpa [Function.update_of_ne hs] using h.nodup seconds
  · by_cases hs : seconds = window k
    · subst hs
      exact hmem k' (by simpa using hk')
    · exact h.keys seconds k' (by simpa [Function.update_of_ne hs] using hk')
  · by_cases hk' : k' = k
    · subst hk'
      simp only [put_same, Function.update_self, lookup_append_filter, if_pos]
      exact htrack
    · have htracks := h.tracks k'
      rw [put_other _ hk']
      by_cases hs : window k' = window k
      · rw [hs] at htracks ⊢
        simp only [Function.update_self, lookup_append_filter, if_neg hk']
        exact htracks
      · simp only [Function.update_of_ne hs]
        exact htracks

variable (fingerprint : γ → μ) (maxMembers : Nat) {maxKeysPerWindow : Nat} {o : Observation κ γ}

theorem Refines.step (h : Refines window observed t store w) (hle : t ≤ now) (hnow : now < 10 ^ 14)
    (hwindow : o.windowSeconds = window o.key) (hmem : o.key ∈ observed)
    (hkeys : (observed.filter fun k => window k = window o.key).dedup.length ≤ maxKeysPerWindow) :
    (track fingerprint maxMembers now o store).2 =
        (observe fingerprint maxMembers maxKeysPerWindow now o w).2 ∧
      Refines window observed now (track fingerprint maxMembers now o store).1
        (observe fingerprint maxMembers maxKeysPerWindow now o w).1 := by
  have hprune := h.prune hle
  have hclock : max w.highWatermarkMs now = now := Nat.max_eq_right (Nat.le_trans h.clock hle)
  have htracks := (hprune.tracks o.key).purge
  simp only [track, observe, slidingWindowScript_eq, hclock, hwindow]
  split
  · refine ⟨rfl, hprune.clock, hprune.nodup, hprune.keys, fun k => ?_⟩
    by_cases hk : k = o.key
    · subst hk
      rw [put_same]
      exact htracks
    · rw [put_other _ hk]
      exact hprune.tracks k
  · have hevent : min o.eventTimestampMs now ≤ now := Nat.min_le_right _ _
    rw [members_getD]
    have hanswer := htracks.answer maxMembers hevent (fingerprint o.chatId) hnow
    have hflag := (htracks.recent.sight maxMembers (min o.eventTimestampMs now)
      (fingerprint o.chatId)).2
    refine ⟨?_, ?_⟩
    · rw [hanswer, hflag]
    · exact hprune.write hmem (htracks.sight maxMembers hevent (fingerprint o.chatId)) hkeys

theorem Refines.answers {obs : List (Nat × Observation κ γ)} (h : Refines window observed t store w)
    (hclock : (obs.map Prod.fst).Pairwise (· ≤ ·)) (hle : ∀ e ∈ obs, t ≤ e.1)
    (hnow : ∀ e ∈ obs, e.1 < 10 ^ 14) (hwindow : ∀ e ∈ obs, e.2.windowSeconds = window e.2.key)
    (hmem : ∀ e ∈ obs, e.2.key ∈ observed)
    (hkeys : ∀ seconds, (observed.filter fun k => window k = seconds).dedup.length ≤
      maxKeysPerWindow) :
    answers (track fingerprint maxMembers) store obs =
      answers (observe fingerprint maxMembers maxKeysPerWindow) w obs := by
  induction obs generalizing t store w with
  | nil => rfl
  | cons e rest ih =>
    obtain ⟨now, o⟩ := e
    rw [List.map_cons, List.pairwise_cons] at hclock
    have hstep := h.step fingerprint maxMembers (hle _ (List.mem_cons_self)) (hnow _ (List.mem_cons_self))
      (hwindow _ (List.mem_cons_self)) (hmem _ (List.mem_cons_self)) (hkeys _)
    have hrest := ih hstep.2 hclock.2
      (fun e he => hclock.1 _ (List.mem_map_of_mem he))
      (fun e he => hnow e (List.mem_cons_of_mem _ he))
      (fun e he => hwindow e (List.mem_cons_of_mem _ he))
      (fun e he => hmem e (List.mem_cons_of_mem _ he))
    rw [SlidingWindow.answers, SlidingWindow.answers, hstep.1, hrest]

/-- From empty stores the script and the maps answer every sequence of observations alike, as long
as no key is used with two windows. -/
theorem track_answers_eq_observe {obs : List (Nat × Observation κ γ)}
    (hclock : (obs.map Prod.fst).Pairwise (· ≤ ·)) (hnow : ∀ e ∈ obs, e.1 < 10 ^ 14)
    (hone : ∀ e ∈ obs, ∀ e' ∈ obs, e.2.key = e'.2.key → e.2.windowSeconds = e'.2.windowSeconds)
    (hkeys : ∀ seconds, ((obs.filter fun e => e.2.windowSeconds = seconds).map
      fun e => e.2.key).dedup.length ≤ maxKeysPerWindow) :
    answers (track fingerprint maxMembers) (fun _ => none) obs =
      answers (observe fingerprint maxMembers maxKeysPerWindow) InMemory.empty obs := by
  let window (k : κ) : Nat :=
    ((obs.find? fun e => e.2.key = k).map fun e => e.2.windowSeconds).getD 0
  have hwindow : ∀ e ∈ obs, e.2.windowSeconds = window e.2.key := by
    intro e he
    show _ = ((obs.find? fun e' => e'.2.key = e.2.key).map fun e => e.2.windowSeconds).getD 0
    cases hfind : obs.find? fun e' => e'.2.key = e.2.key with
    | none =>
      have hnot := List.find?_eq_none.mp hfind e he
      simp at hnot
    | some e' =>
      have hkey : e'.2.key = e.2.key := by simpa using List.find?_some hfind
      exact hone e he e' (List.mem_of_find?_eq_some hfind) hkey.symm
  refine (refines_empty window (obs.map fun e => e.2.key)).answers fingerprint maxMembers hclock
    (fun e _ => Nat.zero_le _) hnow hwindow (fun e he => List.mem_map_of_mem he) fun seconds => ?_
  have hfilter : ((obs.map fun e => e.2.key).filter fun k => window k = seconds) =
      (obs.filter fun e => e.2.windowSeconds = seconds).map fun e => e.2.key := by
    rw [List.filter_map]
    congr 1
    apply List.filter_congr
    intro e he
    rw [hwindow e he]
    rfl
  rw [hfilter]
  exact hkeys seconds

/-- Two members, the second seen again after the first has left the window. -/
def sightings : List (Nat × Observation Nat Nat) :=
  [(400000, ⟨0, 7, 390000, 300⟩), (500000, ⟨0, 8, 520000, 300⟩), (690000, ⟨0, 8, 480000, 300⟩)]

theorem sightings_answered_alike :
    answers (track id 256) (fun _ => none) sightings =
      answers (observe id 256 20000) InMemory.empty sightings :=
  track_answers_eq_observe id 256 (by decide) (by decide) (by decide) fun seconds => by
    by_cases h : 300 = seconds
    · subst h
      decide
    · simp [sightings, h]

def sharedKey : List (Nat × Observation Nat Nat) :=
  [(1000000, ⟨0, 7, 1000000, 300⟩), (1000000, ⟨0, 8, 1000000, 1800⟩)]

/-- A sighting just inside the window, at a clock of fifteen digits. -/
def lateClock : List (Nat × Observation Nat Nat) :=
  [(10 ^ 14 + 8, ⟨0, 7, 10 ^ 14 + 8, 300⟩), (10 ^ 14 + 300006, ⟨0, 8, 10 ^ 14 + 300006, 300⟩)]

/-- A key with two windows has one set but two maps, and a printed bound of fifteen digits is
rounded: in both cases the answers differ. -/
theorem shared_key_and_late_clock_differ :
    ((sharedKey.map Prod.fst).Pairwise (· ≤ ·) ∧ (sharedKey.map fun e => e.2.key).dedup.length ≤ 20000 ∧
      answers (track id 256) (fun _ => none) sharedKey = [⟨1, false⟩, ⟨2, false⟩] ∧
      answers (observe id 256 20000) InMemory.empty sharedKey = [⟨1, false⟩, ⟨1, false⟩]) ∧
    (lateClock.map Prod.fst).Pairwise (· ≤ ·) ∧ (lateClock.map fun e => e.2.key).dedup.length ≤ 20000 ∧
      answers (track id 256) (fun _ => none) lateClock = [⟨1, false⟩, ⟨1, false⟩] ∧
      answers (observe id 256 20000) InMemory.empty lateClock = [⟨1, false⟩, ⟨2, false⟩] := by
  decide +kernel

/-! ## The keys of the service -/

def velocitySuffix (windowSeconds : Nat) : String := s!":velocity:{windowSeconds}:chats"

def acceptedWindows : List Nat := [300, 1800, 7200]

/-- The pattern of a key: the digest of a sender, and one of the windows. -/
def matchesKey (key : String) : Bool :=
  let start := "commercial-campaign:sliding:v1:sender:".toList
  let rest := key.toList.drop start.length
  start.isPrefixOf key.toList && decide (64 ≤ rest.length) &&
    ((rest.take 64).all fun c => c.isDigit || (decide ('a' ≤ c) && decide (c ≤ 'f'))) &&
    acceptedWindows.any fun w => rest.drop 64 == (velocitySuffix w).toList

/-- The input check of `trackCommercialCampaignSlidingWindow`. -/
def accepts (o : Observation String String) : Bool :=
  matchesKey o.key && decide (trim o.chatId ≠ "") &&
    decide (0 < o.eventTimestampMs ∧ o.eventTimestampMs < 2 ^ 53) &&
    acceptedWindows.contains o.windowSeconds &&
    (velocitySuffix o.windowSeconds).toList.isSuffixOf o.key.toList

theorem window_of_accepts {o o' : Observation String String} (h : accepts o = true)
    (h' : accepts o' = true) (hkey : o.key = o'.key) : o.windowSeconds = o'.windowSeconds := by
  simp only [accepts, Bool.and_eq_true, List.isSuffixOf_iff_suffix, List.contains_iff_mem] at h h'
  have hsuffix : ∀ w ∈ acceptedWindows, ∀ w' ∈ acceptedWindows,
      (velocitySuffix w).toList <:+ (velocitySuffix w').toList → w = w' := by
    decide
  have hends' := h'.2
  rw [← hkey] at hends'
  rcases List.suffix_or_suffix_of_suffix h.2 hends' with hs | hs
  · exact hsuffix _ h.1.2 _ h'.1.2 hs
  · exact (hsuffix _ h'.1.2 _ h.1.2 hs).symm

end Maxim.Moderation.CommercialCampaign.SlidingWindow
