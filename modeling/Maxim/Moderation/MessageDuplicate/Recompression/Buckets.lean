import Maxim.Moderation.MessageDuplicate.Recompression.Index

/-!
# The buckets of the recompression index stay well-formed

The keys of a call are an argument of their own, and the script does not compare
them with the hash of the candidate. A bucket stays well-formed as long as the two
agree and no row is made to expire before its publication.
-/

namespace Maxim.Moderation.MessageDuplicate.Recompression

open Maxim.Library

/-- What stands in `ARGV[1]`: a text that is not JSON, a value of another shape, or a request. -/
inductive Input
  | undecodable
  | other
  | read (atMs : Nat)
  | remember (atMs : Nat) (candidate : Candidate)

structure KeyedCall where
  deadlineAtMs : Nat
  keys : Hash
  input : Input

def Input.candidate : Input → Option Candidate
  | .remember _ candidate => some candidate
  | _ => none

def Input.valid : Input → Bool
  | .undecodable => false
  | .other => false
  | .read atMs => integer atMs
  | .remember atMs candidate => integer atMs && candidate.valid

def Input.matched (keys : Hash) (r : Candidate) : Input → Bool
  | .read atMs => decide (r.publishedAtMs ≤ atMs) && decide (r.eventTimestampMs ≤ atMs) &&
      decide (atMs < r.expiresAtMs) && withinHamming r.recompressionHash keys
  | .remember atMs _ => decide (r.publishedAtMs ≤ atMs) && decide (r.eventTimestampMs ≤ atMs) &&
      decide (atMs < r.expiresAtMs) && true
  | _ => false

def liveOf (now : Nat) (keys : Hash) (s : Store) : List Candidate :=
  (List.finRange 8).flatMap (inspected now keys s)

def keptOf (now : Nat) (call : KeyedCall) (s : Store) (band : Fin 8) : List Candidate :=
  keptRows (inspected now call.keys s band)
    (call.input.candidate.bind fun c => incoming now c (liveOf now call.keys s))

/-- `DUPLICATE_RECOMPRESSION_INDEX_SCRIPT` for any keys and any input. -/
def serve (now : Nat) (call : KeyedCall) (s : Store) : Store × Except String (List Candidate) :=
  match call.input with
  | .undecodable => (s, .error "Expected value but found invalid token")
  | _ =>
    if call.deadlineAtMs ≤ now then (s, .error "Recompression index deadline exceeded")
    else if call.input.valid = false then (s, .error "Invalid recompression index input")
    else
      match (List.finRange 8).forM fun band =>
          checkBucket band (call.keys band) (stored now (s (band, call.keys band))) with
      | .error e => (s, .error e)
      | .ok () =>
        let kept := keptOf now call s
        if ∃ band, kept band ≠ [] ∧ 8192 < encodedSize (kept band) then
          (s, .error "Recompression index bucket exceeded")
        else
          let all := ((List.finRange 8).flatMap fun band =>
            (kept band).filter fun r => call.input.matched call.keys r).foldl gather []
          (fun k => if k.2 = call.keys k.1 then written now (kept k.1) else s k,
            .ok ((sort all).take 8))

variable {rows : List Candidate} {r c : Candidate} {now : Nat} {call : KeyedCall} {s : Store}
  {keys : Hash}

/-! ## The rows of one bucket -/

def Allowed (k : Fin 8 × BitVec 8) (r : Candidate) : Prop :=
  r.valid = true ∧ r.expiresAtMs ≤ r.publishedAtMs + MAX_RETENTION_MS ∧ r.recompressionHash k.1 = k.2

structure WellFormed (k : Fin 8 × BitVec 8) (rows : List Candidate) : Prop where
  length : rows.length ≤ 8
  distinct : Distinct rows
  sorted : rows.Pairwise fun a b => earlier a b = true
  allowed : ∀ r ∈ rows, Allowed k r
  size : encodedSize rows ≤ 8192

theorem wellFormed_nil (k : Fin 8 × BitVec 8) : WellFormed k [] :=
  ⟨by decide, distinct_nil, .nil, by simp, by decide⟩

theorem WellFormed.check {k : Fin 8 × BitVec 8} (h : WellFormed k rows) :
    checkBucket k.1 k.2 rows = .ok () := by
  have hpass : ¬(8192 < encodedSize rows ∨ 8 < rows.length) := by
    have hsize := h.size
    have hlength := h.length
    omega
  unfold checkBucket
  rw [if_neg hpass, if_pos]
  refine List.all_eq_true.mpr fun r hr => ?_
  obtain ⟨hvalid, hretained, hbyte⟩ := h.allowed r hr
  simp [hvalid, hretained, hbyte]

theorem foldl_keep_sublist (rows : List Candidate) :
    (rows.foldl keep []).Sublist rows ∧ (rows.foldl keep []).length ≤ 8 := by
  induction rows using List.reverseRecOn with
  | nil => exact ⟨.slnil, by decide⟩
  | append_singleton rows c ih =>
    obtain ⟨hsublist, hlength⟩ := ih
    rw [List.foldl_append]
    change (keep (rows.foldl keep []) c).Sublist _ ∧ (keep (rows.foldl keep []) c).length ≤ 8
    unfold keep
    split
    · next hroom =>
      have hlt : (rows.foldl keep []).length < 8 :=
        of_decide_eq_true (Bool.and_eq_true_iff.mp hroom).2
      refine ⟨hsublist.append_right [c], ?_⟩
      rw [List.length_append, List.length_singleton]
      exact hlt
    · exact ⟨hsublist.trans (List.sublist_append_left rows [c]), hlength⟩

theorem distinct_replace {prior row : Candidate} (h : Distinct rows)
    (hcanonical : row.canonicalHash = prior.canonicalHash) :
    Distinct (rows.map fun x => if x = prior then row else x) := by
  have hsame : (rows.map fun x => if x = prior then row else x).map Candidate.canonicalHash =
      rows.map Candidate.canonicalHash := by
    rw [List.map_map]
    refine List.map_congr_left fun x _ => ?_
    by_cases hx : x = prior
    · simp [hx, hcanonical]
    · simp [hx]
  unfold Distinct
  rw [hsame]
  exact h

theorem forall_replace {P : Candidate → Prop} {prior row : Candidate} (h : ∀ x ∈ rows, P x)
    (hrow : P row) : ∀ x ∈ rows.map fun x => if x = prior then row else x, P x := by
  intro y hy
  obtain ⟨x, hx, rfl⟩ := List.mem_map.mp hy
  split
  · exact hrow
  · exact h x hx

theorem prefer_keeps {P : Candidate → Prop} (hdistinct : Distinct rows) (h : ∀ x ∈ rows, P x)
    (hc : P c) (hrefresh : ∀ x ∈ rows, x.canonicalHash = c.canonicalHash → sameSource x c = true →
      P { x with expiresAtMs := min x.expiresAtMs c.expiresAtMs }) :
    Distinct (prefer rows c) ∧ ∀ x ∈ prefer rows c, P x := by
  unfold prefer
  split
  · next hnone =>
    rw [List.find?_eq_none] at hnone
    refine ⟨distinct_snoc.mpr ⟨hdistinct, fun x hx => by simpa using hnone x hx⟩, fun x hx => ?_⟩
    rcases List.mem_append.mp hx with hx | hx
    · exact h x hx
    · exact List.mem_singleton.mp hx ▸ hc
  · next prior hprior =>
    have hmem := List.mem_of_find?_eq_some hprior
    have hcanonical : prior.canonicalHash = c.canonicalHash := by
      simpa using List.find?_some hprior
    dsimp only
    split
    · next hsource =>
      exact ⟨distinct_replace hdistinct rfl, forall_replace h (hrefresh prior hmem hcanonical hsource)⟩
    · split
      · exact ⟨distinct_replace hdistinct hcanonical.symm, forall_replace h hc⟩
      · exact ⟨hdistinct, h⟩

theorem keptRows_keeps {P : Candidate → Prop} (candidate : Option Candidate) (hdistinct : Distinct rows)
    (h : ∀ x ∈ rows, P x) (hc : ∀ c, candidate = some c → P c)
    (hrefresh : ∀ c, candidate = some c → ∀ x ∈ rows, x.canonicalHash = c.canonicalHash →
      sameSource x c = true → P { x with expiresAtMs := min x.expiresAtMs c.expiresAtMs }) :
    (keptRows rows candidate).length ≤ 8 ∧ Distinct (keptRows rows candidate) ∧
      (keptRows rows candidate).Pairwise (fun a b => earlier a b = true) ∧
      ∀ x ∈ keptRows rows candidate, P x := by
  have hpreferred : Distinct ((rows ++ candidate.toList).foldl prefer []) ∧
      ∀ x ∈ (rows ++ candidate.toList).foldl prefer [], P x := by
    rw [List.foldl_append, foldl_prefer hdistinct]
    cases candidate with
    | none => exact ⟨hdistinct, h⟩
    | some c => exact prefer_keeps hdistinct h (hc c rfl) (hrefresh c rfl)
  obtain ⟨hpreferred, hall⟩ := hpreferred
  obtain ⟨hsublist, hlength⟩ :=
    foldl_keep_sublist (sort ((rows ++ candidate.toList).foldl prefer []))
  have hsortDistinct := hpreferred.perm (sort_perm _).symm
  have hkept : Distinct (keptRows rows candidate) := hsortDistinct.sublist (hsublist.map _)
  have hsorted : (keptRows rows candidate).Pairwise NotLater :=
    (List.pairwise_insertionSort NotLater _).sublist hsublist
  refine ⟨hlength, hkept, ?_, fun x hx => hall x (mem_sort.mp (hsublist.subset hx))⟩
  refine (hsorted.and (List.pairwise_map.mp hkept)).imp fun {a b} hab => ?_
  obtain ⟨hle, hne⟩ := hab
  rw [earlier_iff]
  exact lt_of_le_of_ne ((notLater_iff a b).mp hle) fun hkey => hne (canonicalHash_eq_of_key hkey)

/-! ## The expiry of a candidate -/

/-- The dates that limit how long a candidate is stored: the last ones are those of its message. -/
def limits (now : Nat) (c : Candidate) (rows : List Candidate) : List Nat :=
  [c.expiresAtMs, c.publishedAtMs + MAX_RETENTION_MS, now + MAX_RETENTION_MS] ++
    (rows.filter (sameSource c)).map (·.expiresAtMs)

theorem expires_mem_limits (now : Nat) (c : Candidate) (rows : List Candidate) :
    expires now c rows ∈ limits now c rows := by
  unfold expires limits
  rcases foldl_min_attained (rows.filter (sameSource c))
    (min (min c.expiresAtMs (c.publishedAtMs + MAX_RETENTION_MS)) (now + MAX_RETENTION_MS))
    with heq | ⟨r, hr, heq⟩
  · rw [heq]
    refine List.mem_append_left _ ?_
    simp only [List.mem_cons, List.not_mem_nil, or_false]
    omega
  · rw [heq]
    exact List.mem_append_right _ (List.mem_map_of_mem hr)

theorem expires_le_limit {e : Nat} (he : e ∈ limits now c rows) : expires now c rows ≤ e := by
  obtain ⟨hown, hpublished, hclock, hrows⟩ := expires_le now c rows
  rcases List.mem_append.mp he with he | he
  · simp only [List.mem_cons, List.not_mem_nil, or_false] at he
    omega
  · obtain ⟨r, hr, rfl⟩ := List.mem_map.mp he
    obtain ⟨hr, hsource⟩ := List.mem_filter.mp hr
    exact hrows r hr hsource

/-! ## Calls -/

/-- The candidate comes too late, or its keys are those of its hash and no row of its source and its
raster was published at one of the limits or after it. -/
def Fits (now : Nat) (keys : Hash) (c : Candidate) (s : Store) : Prop :=
  (∃ e ∈ limits now c (liveOf now keys s), e ≤ now ∨ e ≤ c.publishedAtMs) ∨
    keys = c.recompressionHash ∧
      ∀ r ∈ liveOf now keys s, sameSource r c = true → r.canonicalHash = c.canonicalHash →
        ∀ e ∈ limits now c (liveOf now keys s), r.publishedAtMs < e

instance : Decidable (Fits now keys c s) := inferInstanceAs (Decidable (_ ∨ _))

/-- A call whose dates the store's JSON writes in full and whose candidate fits what is stored. -/
def Regular (h : List (Entry KeyedCall (Except String (List Candidate)))) (now : Nat)
    (call : KeyedCall) : Prop :=
  ∀ atMs c, call.input = .remember atMs c →
    (now + MAX_RETENTION_MS < 10 ^ 14 ∧ c.eventTimestampMs < 10 ^ 14) ∧
      Fits now call.keys c (replay serve (fun _ => none) h)

theorem serve_cases (now : Nat) (call : KeyedCall) (s : Store) :
    (serve now call s).1 = s ∨
    call.input.valid = true ∧
      (∀ band, keptOf now call s band ≠ [] → encodedSize (keptOf now call s band) ≤ 8192) ∧
      (∃ answer, (serve now call s).2 = .ok answer) ∧
      (serve now call s).1 =
        fun k => if k.2 = call.keys k.1 then written now (keptOf now call s k.1) else s k := by
  unfold serve
  split
  · exact .inl rfl
  · split
    · exact .inl rfl
    · split
      · exact .inl rfl
      next hvalid =>
        split
        · exact .inl rfl
        · dsimp only
          split
          · exact .inl rfl
          next hsize =>
            refine .inr ⟨Bool.eq_true_of_not_eq_false hvalid, fun band hne => ?_, ⟨_, rfl⟩, rfl⟩
            exact Nat.le_of_not_lt fun hlt => hsize ⟨band, hne, hlt⟩

theorem serve_error {e : String} (h : (serve now call s).2 = .error e) : (serve now call s).1 = s := by
  rcases serve_cases now call s with hsame | ⟨-, -, ⟨answer, hok⟩, -⟩
  · exact hsame
  · rw [hok] at h
    cases h

theorem content_written {kept : List Candidate} (h : content (written now kept) = some rows) :
    rows = kept := by
  unfold written at h
  split at h
  · cases h
  · exact (Option.some.inj h).symm

theorem mem_inspected_stored {keys : Hash} {band : Fin 8} (hr : r ∈ inspected now keys s band) :
    now < r.expiresAtMs ∧ content (s (band, keys band)) = some (stored now (s (band, keys band))) := by
  obtain ⟨hr, hlive⟩ := mem_liveRows.mp hr
  refine ⟨hlive, ?_⟩
  rcases stored_eq now (s (band, keys band)) with hnil | hcontent
  · rw [hnil] at hr
    cases hr
  · exact hcontent

/-- The rows that a fitting call keeps are well-formed but for their size. -/
theorem keptOf_wellFormed (hs : ∀ k rows, content (s k) = some rows → WellFormed k rows)
    (hvalid : call.input.valid = true)
    (hfits : ∀ atMs c, call.input = .remember atMs c → Fits now call.keys c s) (band : Fin 8) :
    (keptOf now call s band).length ≤ 8 ∧ Distinct (keptOf now call s band) ∧
      (keptOf now call s band).Pairwise (fun a b => earlier a b = true) ∧
      ∀ r ∈ keptOf now call s band, Allowed (band, call.keys band) r := by
  have hallowed : ∀ r ∈ inspected now call.keys s band, Allowed (band, call.keys band) r := by
    intro r hr
    exact (hs _ _ (mem_inspected_stored hr).2).allowed r (mem_liveRows.mp hr).1
  have hdistinct : Distinct (inspected now call.keys s band) := by
    refine Distinct.filter ?_ _
    rcases stored_eq now (s (band, call.keys band)) with hnil | hcontent
    · rw [hnil]
      exact distinct_nil
    · exact (hs _ _ hcontent).distinct
  -- a candidate that is taken in carries its keys, and no row of it is cut before its publication
  have hincoming : ∀ x, (call.input.candidate.bind fun c =>
      incoming now c (liveOf now call.keys s)) = some x → Allowed (band, call.keys band) x ∧
      ∀ r ∈ inspected now call.keys s band, r.canonicalHash = x.canonicalHash →
        sameSource r x = true → r.publishedAtMs < x.expiresAtMs := by
    intro x hx
    obtain ⟨c, hc, hx⟩ := Option.bind_eq_some_iff.mp hx
    cases hinput : call.input with
    | undecodable => rw [hinput] at hc; cases hc
    | other => rw [hinput] at hc; cases hc
    | read atMs => rw [hinput] at hc; cases hc
    | remember atMs c' =>
      rw [hinput] at hc hvalid
      obtain rfl := Option.some.inj hc
      obtain ⟨heq, hlive, hpublished⟩ := incoming_eq_some hx
      obtain ⟨hown, hretained, hclock, -⟩ := expires_le now c' (liveOf now call.keys s)
      have hmem := expires_mem_limits now c' (liveOf now call.keys s)
      rcases hfits atMs c' hinput with ⟨e, he, hlate⟩ | ⟨hkeys, hrows⟩
      · have hle := expires_le_limit he
        omega
      · generalize expires now c' (liveOf now call.keys s) = e at *
        have hvalid := (Bool.and_eq_true_iff.mp hvalid).2
        simp only [Candidate.valid, integer, Bool.and_eq_true, decide_eq_true_eq] at hvalid
        obtain ⟨⟨⟨⟨⟨hid, hmessage⟩, hevent⟩, hpublication⟩, hexpiry⟩, -⟩ := hvalid
        rw [heq]
        refine ⟨⟨?_, hretained, ?_⟩, fun r hr hcanonical hsource => ?_⟩
        · simp only [Candidate.valid, integer, Bool.and_eq_true, decide_eq_true_eq]
          exact ⟨⟨⟨⟨⟨hid, hmessage⟩, hevent⟩, hpublication⟩, by omega, by omega⟩, hpublished⟩
        · rw [hkeys]
        · exact hrows r (List.mem_flatMap.mpr ⟨band, List.mem_finRange band, hr⟩) hsource hcanonical e
            hmem
  refine keptRows_keeps _ hdistinct hallowed (fun x hx => (hincoming x hx).1) ?_
  intro x hx r hr hcanonical hsource
  obtain ⟨hvalid, hretained, hbyte⟩ := hallowed r hr
  obtain ⟨⟨hvalid', -, -⟩, hbefore⟩ := hincoming x hx
  have hlt := hbefore r hr hcanonical hsource
  simp only [Candidate.valid, integer, Bool.and_eq_true, decide_eq_true_eq] at hvalid hvalid'
  obtain ⟨⟨⟨⟨⟨hid, hmessage⟩, hevent⟩, hpublication⟩, hexpiry⟩, hpublished⟩ := hvalid
  refine ⟨?_, by dsimp only; omega, hbyte⟩
  simp only [Candidate.valid, integer, Bool.and_eq_true, decide_eq_true_eq]
  exact ⟨⟨⟨⟨⟨hid, hmessage⟩, hevent⟩, hpublication⟩, by omega, by omega⟩, by omega⟩

theorem serve_wellFormed (hs : ∀ k rows, content (s k) = some rows → WellFormed k rows)
    (hfits : ∀ atMs c, call.input = .remember atMs c → Fits now call.keys c s) :
    ∀ k rows, content ((serve now call s).1 k) = some rows → WellFormed k rows := by
  rcases serve_cases now call s with hsame | ⟨hvalid, hsize, -, hwritten⟩
  · rw [hsame]
    exact hs
  · rw [hwritten]
    rintro ⟨band, byte⟩ rows hrows
    dsimp only at hrows
    split at hrows
    · next hbyte =>
      subst hbyte
      obtain rfl := content_written hrows
      obtain ⟨hlength, hdistinct, hsorted, hallowed⟩ := keptOf_wellFormed hs hvalid hfits band
      refine ⟨hlength, hdistinct, hsorted, hallowed, ?_⟩
      by_cases hnil : keptOf now call s band = []
      · rw [hnil]
        decide
      · exact hsize band hnil
    · exact hs _ _ hrows

/-- In every run of regular calls every bucket is well-formed and passes the next check, and an error
changes nothing. -/
theorem buckets_well_formed {h : List (Entry KeyedCall (Except String (List Candidate)))} {t : Nat}
    {s : Store} (hr : Run serve Regular (fun _ => none) h t s) :
    (∀ k rows, content (s k) = some rows → WellFormed k rows) ∧
    (∀ k now, checkBucket k.1 k.2 (stored now (s k)) = .ok ()) ∧
    ∀ now call e, (serve now call s).2 = .error e → (serve now call s).1 = s := by
  have hinvariant := hr.invariant
    (fun h _ s => replay serve (fun _ => none) h = s ∧
      ∀ k rows, content (s k) = some rows → WellFormed k rows)
    ⟨rfl, nofun⟩ (fun _ _ _ _ hs _ => hs) fun h now s call hs hcall => ?_
  · refine ⟨hinvariant.2, fun k now => ?_, fun _ _ _ herror => serve_error herror⟩
    rcases stored_eq now (s k) with hnil | hcontent
    · rw [hnil]
      exact (wellFormed_nil k).check
    · exact (hinvariant.2 k _ hcontent).check
  · obtain ⟨rfl, hs⟩ := hs
    rw [replay_snoc]
    exact ⟨rfl, serve_wellFormed hs fun atMs c hinput => (hcall atMs c hinput).2⟩

/-! ## Two calls for one photo -/

def sooner : Candidate := { photo with expiresAtMs := 120 }

/-- The photo with a date of publication that the clock has not reached. -/
def announced : Candidate := { photo with publishedAtMs := 100, expiresAtMs := 200 }

def remembering (c : Candidate) (keys : Hash) : KeyedCall where
  deadlineAtMs := 1000
  keys := keys
  input := .remember c.eventTimestampMs c

def twoCalls (c c' : Candidate) : List (Nat × KeyedCall) :=
  [(60, remembering c photo.recompressionHash), (70, remembering c' photo.recompressionHash)]

theorem buckets_well_formed_sooner : ∃ h t s, Run serve Regular (fun _ => none) h t s ∧
    content (s (0, 0)) = some [sooner] ∧ WellFormed (0, 0) [sooner] := by
  have hregular : Library.Accepted serve Regular (fun _ => none) [] (twoCalls photo sooner) := by
    refine ⟨?_, ?_, trivial⟩
    · rintro _ _ ⟨⟩
      exact ⟨by decide, by decide +kernel⟩
    · rintro _ _ ⟨⟩
      exact ⟨by decide, by decide +kernel⟩
  obtain ⟨t, hr⟩ := run_play (by decide) hregular
  have hrows : content ((play serve (fun _ => none) (twoCalls photo sooner)).2 (0, 0)) =
      some [sooner] := by decide +kernel
  exact ⟨_, t, _, hr, hrows, (buckets_well_formed hr).1 (0, 0) _ hrows⟩

/-- The row of a photo of the future is cut before its publication, and the bucket is refused from
then on; so is one with a candidate of another hash. -/
theorem future_photo_poisons :
    (∃ h t, Run serve (fun _ _ _ => True) (fun _ => none) h t
        (play serve (fun _ => none) (twoCalls announced { sooner with expiresAtMs := 90 })).2 ∧
      (serve 80 (remembering photo photo.recompressionHash)
        (play serve (fun _ => none) (twoCalls announced { sooner with expiresAtMs := 90 })).2).2 =
          .error "Invalid recompression index candidate") ∧
    ∃ h t, Run serve (fun _ _ _ => True) (fun _ => none) h t
        (play serve (fun _ => none) [(60, remembering photo similar)]).2 ∧
      (serve 80 (remembering photo similar)
        (play serve (fun _ => none) [(60, remembering photo similar)]).2).2 =
          .error "Invalid recompression index candidate" := by
  have hrun (asks : List (Nat × KeyedCall)) (hclock : (asks.map Prod.fst).Pairwise (· ≤ ·)) :
      ∃ t, Run serve (fun _ _ _ => True) (fun _ => none) (play serve (fun _ => none) asks).1 t
        (play serve (fun _ => none) asks).2 :=
    run_play hclock (accepted_of_forall (fun _ _ _ => trivial) [] asks)
  obtain ⟨t, hr⟩ := hrun (twoCalls announced { sooner with expiresAtMs := 90 }) (by decide)
  obtain ⟨t', hr'⟩ := hrun [(60, remembering photo similar)] (by decide)
  exact ⟨⟨_, t, hr, by decide +kernel⟩, _, t', hr', by decide +kernel⟩

end Maxim.Moderation.MessageDuplicate.Recompression
