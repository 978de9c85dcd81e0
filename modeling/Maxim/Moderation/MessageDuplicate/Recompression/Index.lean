import Maxim.Moderation.MessageDuplicate.Recompression.Rows

/-!
# The recompression index is complete

The buckets of a scope represent one list of remembered candidates: each live one
is in the eight buckets of its own bytes and in no other. A query therefore finds
every live candidate within six bits, since it shares a byte with each.
-/

namespace Maxim.Moderation.MessageDuplicate.Recompression

open Maxim.Library

abbrev Event := Entry Call (Except String (List Candidate))

/-! ## What has been remembered -/

def sharesBand (a b : Hash) : Bool := (List.finRange 8).any fun band => a band == b band

/-- A candidate replaces the one with its canonical hash. It does not outlive what is stored of its
message under a common byte. -/
def remember (now : Nat) (c : Candidate) (index : List Candidate) : List Candidate :=
  match incoming now c
      ((liveRows now index).filter fun r => sharesBand r.recompressionHash c.recompressionHash) with
  | none => index
  | some r => index.filter (fun x => x.canonicalHash ≠ c.canonicalHash) ++ [r]

def record (now : Nat) (call : Call) (index : List Candidate) : List Candidate :=
  if call.deadlineAtMs ≤ now ∨ call.request.valid = false then index
  else
    match call.request with
    | .read _ _ => index
    | .remember c => remember now c index

/-- The remembered candidates of a history, each with the expiry that it was given. -/
def remembered (h : List Event) : List Candidate :=
  h.foldl (fun index e => record e.now e.request index) []

def bucketOf (now : Nat) (index : List Candidate) (k : Fin 8 × BitVec 8) : List Candidate :=
  (liveRows now index).filter fun r => r.recompressionHash k.1 == k.2

def SameButExpiry (a b : Candidate) : Prop := { a with expiresAtMs := b.expiresAtMs } = b

/-- The candidate has been handed to `remember`. -/
def Handed (h : List Event) (c : Candidate) : Prop :=
  ∃ e ∈ h, e.request.request = .remember c

/-- What the callers of a scope promise: a canonical hash has one source, no bucket has more than
eight live candidates, and dates have at most 14 digits, which the store's JSON writes in full. -/
structure Careful (h : List Event) (now : Nat) (call : Call) : Prop where
  single : ∀ c c', call.request = .remember c → Handed h c' → c'.canonicalHash = c.canonicalHash →
    SameButExpiry c' c
  room : ∀ k, (bucketOf now (record now call (remembered h)) k).length ≤ 8
  clock : now + MAX_RETENTION_MS < 10 ^ 14
  dates : ∀ c, call.request = .remember c → c.eventTimestampMs < 10 ^ 14

theorem remembered_snoc (h : List Event) (e : Event) :
    remembered (h ++ [e]) = record e.now e.request (remembered h) := by
  rw [remembered, List.foldl_append]
  rfl

variable {now t : Nat}

theorem mem_liveRows {rows : List Candidate} {r : Candidate} :
    r ∈ liveRows now rows ↔ r ∈ rows ∧ now < r.expiresAtMs := by
  rw [liveRows, List.mem_filter, decide_eq_true_eq]

variable {k : Fin 8 × BitVec 8}

theorem mem_bucketOf {index : List Candidate} {r : Candidate} :
    r ∈ bucketOf now index k ↔
      r ∈ index ∧ now < r.expiresAtMs ∧ r.recompressionHash k.1 = k.2 := by
  rw [bucketOf, List.mem_filter, mem_liveRows, beq_iff_eq, and_assoc]

theorem sharesBand_iff {a b : Hash} : sharesBand a b = true ↔ ∃ band, a band = b band := by
  simp [sharesBand]

/-! ## The representation -/

/-- What a remembered candidate satisfies at clock `t`. -/
structure Sound (h : List Event) (t : Nat) (r : Candidate) : Prop where
  valid : r.valid = true
  retained : r.expiresAtMs ≤ r.publishedAtMs + MAX_RETENTION_MS
  bounded : r.expiresAtMs ≤ t + MAX_RETENTION_MS
  exact : Exact r
  origin : ∃ c, Handed h c ∧ SameButExpiry c r

/-- The stored bucket: rows that pass the check, with an expiry that none of them outlives. -/
structure Bucket (k : Fin 8 × BitVec 8) (slot : Slot (List Candidate)) : Prop where
  distinct : ∀ rows, content slot = some rows → Distinct rows
  length : ∀ rows, content slot = some rows → rows.length ≤ 8
  rows : ∀ rows, content slot = some rows → ∀ r ∈ rows, r.valid = true ∧ Exact r ∧
    r.expiresAtMs ≤ r.publishedAtMs + MAX_RETENTION_MS ∧ r.recompressionHash k.1 = k.2
  expiry : ∀ c, slot = some c → ∃ x, c.expiresAt = some x ∧ ∀ r ∈ c.value, r.expiresAtMs ≤ x

/-- The buckets of a scope represent the remembered candidates. -/
structure Represents (h : List Event) (t : Nat) (s : Store) : Prop where
  distinct : Distinct (remembered h)
  sound : ∀ r ∈ remembered h, Sound h t r
  bucket : ∀ k, Bucket k (s k)
  live : ∀ k r, t < r.expiresAtMs →
    (r ∈ (content (s k)).getD [] ↔ r ∈ remembered h ∧ r.recompressionHash k.1 = k.2)

theorem Sound.mono {h : List Event} {t' : Nat} {r : Candidate} (hr : Sound h t r) (hle : t ≤ t') :
    Sound h t' r := ⟨hr.valid, hr.retained, Nat.le_trans hr.bounded (Nat.add_le_add_right hle _),
      hr.exact, hr.origin⟩

theorem Handed.snoc {h : List Event} {c : Candidate} (hc : Handed h c) (e : Event) :
    Handed (h ++ [e]) c := by
  obtain ⟨e', he, hreq⟩ := hc
  exact ⟨e', List.mem_append_left _ he, hreq⟩

theorem Sound.snoc {h : List Event} {t : Nat} {r : Candidate} (hr : Sound h t r) (e : Event) :
    Sound (h ++ [e]) t r := by
  obtain ⟨c, hc, hsame⟩ := hr.origin
  exact ⟨hr.valid, hr.retained, hr.bounded, hr.exact, c, hc.snoc e, hsame⟩

theorem Represents.mono {h : List Event} {t' : Nat} {s : Store} (hs : Represents h t s)
    (hle : t ≤ t') : Represents h t' s :=
  ⟨hs.distinct, fun r hr => (hs.sound r hr).mono hle, hs.bucket, fun k r hlt =>
    hs.live k r (Nat.lt_of_le_of_lt hle hlt)⟩

theorem represents_empty : Represents [] 0 (fun _ => none) := by
  refine ⟨distinct_nil, by simp [remembered], fun k => ⟨nofun, nofun, nofun, nofun⟩, ?_⟩
  intro k r _
  simp [remembered]

theorem Bucket.mem_stored {slot : Slot (List Candidate)} (hb : Bucket k slot)
    {r : Candidate} (hlive : now < r.expiresAtMs) :
    r ∈ stored now slot ↔ r ∈ (content slot).getD [] := by
  unfold stored
  cases hslot : slot with
  | none => rfl
  | some c =>
    obtain ⟨x, hx, hle⟩ := hb.expiry c hslot
    by_cases hnow : c.live now = true
    · rw [purge_some_of_live hnow]
    · have hpurge : purge now (some c) = none := purge_eq_none.mpr fun c' hc' => by
        obtain rfl := Option.some.inj hc'
        exact Bool.eq_false_iff.mpr hnow
      rw [hpurge]
      refine ⟨nofun, fun hr => absurd (hle r hr) ?_⟩
      have hlt : ¬now ≤ x := by simpa [Cell.live, hx] using hnow
      omega

theorem stored_eq (now : Nat) (slot : Slot (List Candidate)) :
    stored now slot = [] ∨ content slot = some (stored now slot) := by
  unfold stored
  cases hp : purge now slot with
  | none => exact .inl rfl
  | some c =>
    obtain ⟨rfl, -⟩ := purge_eq_some.mp hp
    exact .inr rfl

theorem Bucket.check {slot : Slot (List Candidate)} (hb : Bucket k slot)
    (now : Nat) : checkBucket k.1 k.2 (stored now slot) = .ok () := by
  unfold checkBucket
  rcases stored_eq now slot with hnil | hrows
  · rw [hnil]
    rfl
  · have hlen := hb.length _ hrows
    have hsize : encodedSize (stored now slot) ≤ 8192 := encodedSize_le hlen fun r hr =>
      ⟨(hb.rows _ hrows r hr).1, (hb.rows _ hrows r hr).2.1⟩
    have hpass : ¬(8192 < encodedSize (stored now slot) ∨ 8 < (stored now slot).length) := by omega
    rw [if_neg hpass, if_pos]
    refine List.all_eq_true.mpr fun r hr => ?_
    obtain ⟨hvalid, -, hret, hbyte⟩ := hb.rows _ hrows r hr
    simp [hvalid, hret, hbyte]

theorem Bucket.distinct_stored {slot : Slot (List Candidate)}
    (hb : Bucket k slot) (now : Nat) : Distinct (stored now slot) := by
  rcases stored_eq now slot with hnil | hrows
  · rw [hnil]
    exact distinct_nil
  · exact hb.distinct _ hrows

section Inspect

variable {h : List Event} {now : Nat} {s : Store}

theorem Represents.mem_inspected (hs : Represents h now s) {hash : Hash} {band : Fin 8}
    {r : Candidate} : r ∈ inspected now hash s band ↔
      r ∈ remembered h ∧ now < r.expiresAtMs ∧ r.recompressionHash band = hash band := by
  unfold inspected
  rw [mem_liveRows]
  constructor
  · rintro ⟨hr, hlive⟩
    rw [(hs.bucket (band, hash band)).mem_stored hlive] at hr
    obtain ⟨hmem, hbyte⟩ := (hs.live (band, hash band) r hlive).mp hr
    exact ⟨hmem, hlive, hbyte⟩
  · rintro ⟨hmem, hlive, hbyte⟩
    rw [(hs.bucket (band, hash band)).mem_stored hlive]
    exact ⟨(hs.live (band, hash band) r hlive).mpr ⟨hmem, hbyte⟩, hlive⟩

theorem Represents.distinct_inspected (hs : Represents h now s) (hash : Hash) (band : Fin 8) :
    Distinct (inspected now hash s band) :=
  ((hs.bucket (band, hash band)).distinct_stored now).filter _

theorem Represents.incoming_eq (hs : Represents h now s) (c : Candidate) :
    incoming now c ((List.finRange 8).flatMap (inspected now c.recompressionHash s)) =
      incoming now c ((liveRows now (remembered h)).filter fun r =>
        sharesBand r.recompressionHash c.recompressionHash) := by
  refine incoming_congr now c fun r => ?_
  rw [List.mem_filter, mem_liveRows, sharesBand_iff, List.mem_flatMap]
  constructor
  · rintro ⟨band, -, hr⟩
    obtain ⟨hmem, hlive, hbyte⟩ := hs.mem_inspected.mp hr
    exact ⟨⟨hmem, hlive⟩, band, hbyte⟩
  · rintro ⟨⟨hmem, hlive⟩, band, hbyte⟩
    exact ⟨band, List.mem_finRange band, hs.mem_inspected.mpr ⟨hmem, hlive, hbyte⟩⟩

end Inspect

/-! ## One call -/

/-- The candidate that an accepted call takes in. -/
def taken (now : Nat) (p : Request) (index : List Candidate) : Option Candidate :=
  match p with
  | .read _ _ => none
  | .remember c => incoming now c
      ((liveRows now index).filter fun r => sharesBand r.recompressionHash c.recompressionHash)

def Accepted (now : Nat) (call : Call) : Prop :=
  now < call.deadlineAtMs ∧ call.request.valid = true

/-- What taking in `r` makes of the remembered candidates. -/
def TakenIn (candidate : Option Candidate) (rows : List Candidate) (r : Candidate) : Prop :=
  candidate = some r ∨ r ∈ rows ∧ ∀ c, candidate = some c → r.canonicalHash ≠ c.canonicalHash

theorem record_of_not_accepted {call : Call} (h : ¬Accepted now call)
    (index : List Candidate) : record now call index = index := by
  refine if_pos ?_
  by_cases hd : now < call.deadlineAtMs
  · exact .inr (Bool.eq_false_iff.mpr fun hv => h ⟨hd, hv⟩)
  · exact .inl (Nat.le_of_not_lt hd)

theorem record_spec {call : Call} {index : List Candidate} (h : Accepted now call)
    (hdistinct : Distinct index) :
    Distinct (record now call index) ∧
      ∀ r, r ∈ record now call index ↔ TakenIn (taken now call.request index) index r := by
  have haccepted : ¬(call.deadlineAtMs ≤ now ∨ call.request.valid = false) := by
    rintro (hle | hv)
    · exact absurd h.1 (Nat.not_lt.mpr hle)
    · rw [h.2] at hv
      cases hv
  unfold record TakenIn
  rw [if_neg haccepted]
  cases call.request with
  | read hash atMs => exact ⟨hdistinct, fun r => by simp [taken]⟩
  | remember c =>
    dsimp only [taken, remember]
    cases hin : incoming now c ((liveRows now index).filter fun r =>
      sharesBand r.recompressionHash c.recompressionHash) with
    | none => exact ⟨hdistinct, fun r => by simp⟩
    | some x =>
      have hcanon : x.canonicalHash = c.canonicalHash := by rw [(incoming_eq_some hin).1]
      refine ⟨distinct_snoc.mpr ⟨hdistinct.filter _, fun y hy => ?_⟩, fun r => ?_⟩
      · rw [hcanon]
        exact of_decide_eq_true (List.mem_filter.mp hy).2
      · rw [List.mem_append, List.mem_filter, List.mem_singleton, or_comm, decide_eq_true_eq]
        simp [hcanon, eq_comm]

section Call

variable {h : List Event} {now : Nat} {s : Store} {call : Call}

theorem Represents.sameButExpiry (hs : Represents h now s) (hcare : Careful h now call)
    {c x : Candidate} (hc : call.request = .remember c) (hx : x ∈ remembered h)
    (hcanon : x.canonicalHash = c.canonicalHash) : SameButExpiry x c := by
  obtain ⟨c', hc', hsame⟩ := (hs.sound x hx).origin
  have hcanon' : c'.canonicalHash = c.canonicalHash := by
    rw [← hcanon, ← hsame]
  have hsingle := hcare.single c c' hc hc' hcanon'
  unfold SameButExpiry at hsame hsingle ⊢
  rw [← hsame]
  exact hsingle

theorem Represents.refreshes (hs : Represents h now s) (hcare : Careful h now call)
    {r x : Candidate} {band : Fin 8} (hr : taken now call.request (remembered h) = some r)
    (hx : x ∈ inspected now call.request.hash s band) (hcanon : x.canonicalHash = r.canonicalHash) :
    Refreshes r x := by
  obtain ⟨hmem, hlive, hbyte⟩ := hs.mem_inspected.mp hx
  cases hreq : call.request with
  | read hash atMs =>
    rw [hreq] at hr
    cases hr
  | remember c =>
    rw [hreq] at hr hbyte
    obtain ⟨heq, -, -⟩ := incoming_eq_some hr
    have hcanon' : x.canonicalHash = c.canonicalHash := by
      rw [hcanon, heq]
    have hsame := hs.sameButExpiry hcare hreq hmem hcanon'
    have hsource : sameSource c x = true := by
      rw [← hsame]
      simp [sameSource]
    have hle := (expires_le now c ((liveRows now (remembered h)).filter fun r =>
      sharesBand r.recompressionHash c.recompressionHash)).2.2.2 x
        (List.mem_filter.mpr ⟨mem_liveRows.mpr ⟨hmem, hlive⟩, sharesBand_iff.mpr ⟨band, hbyte⟩⟩)
        hsource
    constructor
    · rw [heq, ← hsame]
      simp [sameSource]
    · unfold SameButExpiry at hsame
      rw [heq]
      dsimp only
      rw [Nat.min_eq_right hle, ← hsame]

/-- What a call keeps in an inspected bucket is the bucket of what is remembered after it. -/
theorem Represents.kept (hs : Represents h now s) (hcare : Careful h now call)
    (hacc : Accepted now call) (band : Fin 8) :
    Distinct (keptBuckets now call.request s band) ∧
      (keptBuckets now call.request s band).length ≤ 8 ∧
      ∀ r, r ∈ keptBuckets now call.request s band ↔
        r ∈ bucketOf now (record now call (remembered h)) (band, call.request.hash band) := by
  have htaken : keptBuckets now call.request s band =
      keptRows (inspected now call.request.hash s band) (taken now call.request (remembered h)) := by
    unfold keptBuckets taken
    cases call.request with
    | read hash atMs => rfl
    | remember c =>
      dsimp only [Request.hash]
      rw [hs.incoming_eq c]
  have hbucket : ∀ r, TakenIn (taken now call.request (remembered h))
        (inspected now call.request.hash s band) r ↔
      r ∈ bucketOf now (record now call (remembered h)) (band, call.request.hash band) := by
    intro r
    rw [mem_bucketOf, (record_spec hacc hs.distinct).2]
    unfold TakenIn
    rw [hs.mem_inspected]
    constructor
    · rintro (hr | ⟨⟨hmem, hlive, hbyte⟩, hne⟩)
      · refine ⟨.inl hr, ?_⟩
        cases hreq : call.request with
        | read hash atMs =>
          rw [hreq] at hr
          cases hr
        | remember c =>
          rw [hreq] at hr
          obtain ⟨heq, hlive, -⟩ := incoming_eq_some hr
          rw [heq]
          exact ⟨hlive, rfl⟩
      · exact ⟨.inr ⟨hmem, hne⟩, hlive, hbyte⟩
    · rintro ⟨hr | ⟨hmem, hne⟩, hlive, hbyte⟩
      · exact .inl hr
      · exact .inr ⟨⟨hmem, hlive, hbyte⟩, hne⟩
  have hroom : ∀ kept : List Candidate, Distinct kept →
      (∀ r ∈ kept, TakenIn (taken now call.request (remembered h))
        (inspected now call.request.hash s band) r) → kept.length ≤ 8 := by
    intro kept hkept hsub
    have hsubset : kept ⊆ bucketOf now (record now call (remembered h))
        (band, call.request.hash band) := fun r hr => (hbucket r).mp (hsub r hr)
    exact Nat.le_trans (hkept.nodup.subperm hsubset).length_le (hcare.room _)
  obtain ⟨hdistinct, hmem⟩ := keptRows_spec (taken now call.request (remembered h))
    (hs.distinct_inspected call.request.hash band)
    (fun r hr x hx hcanon => hs.refreshes hcare hr hx hcanon) hroom
  rw [htaken]
  exact ⟨hdistinct, hroom _ hdistinct fun r hr => (hmem r).mp hr, fun r => (hmem r).trans (hbucket r)⟩

theorem Handed.last (h : List Event) (e : Event) {c : Candidate}
    (hc : e.request.request = .remember c) : Handed (h ++ [e]) c :=
  ⟨e, List.mem_append_right _ (List.mem_singleton.mpr rfl), hc⟩

theorem taken_sound (hcare : Careful h now call) (hacc : Accepted now call) {e : Event}
    (he : e.request = call) {r : Candidate} {index : List Candidate}
    (hr : taken now call.request index = some r) : Sound (h ++ [e]) now r := by
  obtain ⟨-, hvalid⟩ := hacc
  cases hreq : call.request with
  | read hash atMs =>
    rw [hreq] at hr
    cases hr
  | remember c =>
    rw [hreq] at hr hvalid
    have hevent := hcare.dates c hreq
    have hclock := hcare.clock
    obtain ⟨heq, hlive, hpub⟩ := incoming_eq_some hr
    obtain ⟨hle, hret, hbound, -⟩ := expires_le now c ((liveRows now index).filter fun r =>
      sharesBand r.recompressionHash c.recompressionHash)
    generalize expires now c ((liveRows now index).filter fun r =>
      sharesBand r.recompressionHash c.recompressionHash) = x at *
    have hc : c.valid = true := (Bool.and_eq_true_iff.mp hvalid).2
    refine ⟨?_, ?_, ?_, ?_, c, Handed.last h e (he ▸ hreq), ?_⟩
    · simp only [Candidate.valid, integer, Bool.and_eq_true, decide_eq_true_eq] at hc
      obtain ⟨⟨⟨⟨⟨hid, hmessage⟩, hev⟩, hpublished⟩, hexp⟩, -⟩ := hc
      rw [heq]
      simp only [Candidate.valid, integer, Bool.and_eq_true, decide_eq_true_eq]
      exact ⟨⟨⟨⟨⟨hid, hmessage⟩, hev⟩, hpublished⟩, by omega, by omega⟩, hpub⟩
    · rw [heq]
      exact hret
    · rw [heq]
      exact hbound
    · rw [heq]
      exact ⟨hevent, show c.publishedAtMs < 10 ^ 14 by omega, show x < 10 ^ 14 by omega⟩
    · rw [heq]
      rfl

theorem written_bucket {kept : List Candidate} {k : Fin 8 × BitVec 8} (hdistinct : Distinct kept)
    (hlen : kept.length ≤ 8) (hsound : ∀ r ∈ kept, Sound h now r ∧ r.recompressionHash k.1 = k.2) :
    Bucket k (written now kept) ∧ (content (written now kept)).getD [] = kept := by
  have hmax : ∀ (l : List Candidate) (d : Nat), d ≤ l.foldl (fun d r => max d r.expiresAtMs) d ∧
      ∀ r ∈ l, r.expiresAtMs ≤ l.foldl (fun d r => max d r.expiresAtMs) d := by
    intro l
    induction l with
    | nil => simp
    | cons x l ih =>
      intro d
      obtain ⟨hle, hmem⟩ := ih (max d x.expiresAtMs)
      rw [List.foldl_cons]
      refine ⟨by omega, fun r hr => ?_⟩
      rcases List.mem_cons.mp hr with rfl | hr
      · omega
      · exact hmem r hr
  unfold written
  by_cases hnil : kept = []
  · rw [if_pos hnil, hnil]
    exact ⟨⟨nofun, nofun, nofun, nofun⟩, rfl⟩
  · rw [if_neg hnil]
    refine ⟨⟨?_, ?_, ?_, ?_⟩, rfl⟩
    · intro rows hrows
      exact Option.some.inj hrows ▸ hdistinct
    · intro rows hrows
      exact Option.some.inj hrows ▸ hlen
    · intro rows hrows r hr
      obtain rfl := Option.some.inj hrows
      obtain ⟨hr, hbyte⟩ := hsound r hr
      exact ⟨hr.valid, hr.exact, hr.retained, hbyte⟩
    · intro c hc
      obtain rfl := Option.some.inj hc
      refine ⟨deadline now kept, rfl, fun r hr => Nat.le_min.mpr ⟨(hmax kept 0).2 r hr, ?_⟩⟩
      exact (hsound r hr).1.bounded

theorem Represents.sound_snoc (hs : Represents h now s) (hcare : Careful h now call)
    (hacc : Accepted now call) {e : Event} (he : e.request = call) (hnow : e.now = now) :
    ∀ r ∈ remembered (h ++ [e]), Sound (h ++ [e]) now r := by
  intro r hr
  rw [remembered_snoc, he, hnow, (record_spec hacc hs.distinct).2] at hr
  rcases hr with hr | ⟨hr, -⟩
  · exact taken_sound hcare hacc he hr
  · exact (hs.sound r hr).snoc e

/-- The buckets after an accepted call represent what is remembered after it. -/
theorem Represents.accepted (hs : Represents h now s) (hcare : Careful h now call)
    (hacc : Accepted now call) {e : Event} (he : e.request = call) (hnow : e.now = now) :
    Represents (h ++ [e]) now fun k =>
      if k.2 = call.request.hash k.1 then written now (keptBuckets now call.request s k.1)
      else s k := by
  have hrem : remembered (h ++ [e]) = record now call (remembered h) := by
    rw [remembered_snoc, he, hnow]
  have hsound := hs.sound_snoc hcare hacc he hnow
  have hwritten : ∀ band : Fin 8,
      Bucket (band, call.request.hash band) (written now (keptBuckets now call.request s band)) ∧
        (content (written now (keptBuckets now call.request s band))).getD [] =
          keptBuckets now call.request s band := by
    intro band
    obtain ⟨hdistinct, hlen, hmem⟩ := hs.kept hcare hacc band
    refine written_bucket (h := h ++ [e]) hdistinct hlen fun r hr => ?_
    obtain ⟨hr, -, hbyte⟩ := mem_bucketOf.mp ((hmem r).mp hr)
    exact ⟨hsound r (hrem ▸ hr), hbyte⟩
  refine ⟨?_, hsound, ?_, ?_⟩
  · rw [hrem]
    exact (record_spec hacc hs.distinct).1
  · rintro ⟨band, byte⟩
    by_cases hk : byte = call.request.hash band
    · subst hk
      dsimp only
      rw [if_pos rfl]
      exact (hwritten band).1
    · rw [if_neg hk]
      exact hs.bucket _
  · rintro ⟨band, byte⟩ r hlive
    by_cases hk : byte = call.request.hash band
    · subst hk
      dsimp only
      rw [if_pos rfl, (hwritten band).2, (hs.kept hcare hacc band).2.2, mem_bucketOf, hrem]
      exact ⟨fun hr => ⟨hr.1, hr.2.2⟩, fun hr => ⟨hr.1, hlive, hr.2⟩⟩
    · dsimp only
      rw [if_neg hk, hs.live (band, byte) r hlive, hrem, (record_spec hacc hs.distinct).2]
      refine and_congr_left fun hbyte => ?_
      change r.recompressionHash band = byte at hbyte
      unfold TakenIn
      constructor
      · intro hr
        refine .inr ⟨hr, fun x hx hcanon => hk ?_⟩
        cases hreq : call.request with
        | read hash atMs =>
          rw [hreq] at hx
          cases hx
        | remember c =>
          rw [hreq] at hx
          have hcanon' : r.canonicalHash = c.canonicalHash := by
            rw [hcanon, (incoming_eq_some hx).1]
          have hsame := hs.sameButExpiry hcare hreq hr hcanon'
          rw [← hbyte]
          change r.recompressionHash band = c.recompressionHash band
          rw [← hsame]
      · rintro (hx | ⟨hr, -⟩)
        · refine absurd ?_ hk
          cases hreq : call.request with
          | read hash atMs =>
            rw [hreq] at hx
            cases hx
          | remember c =>
            rw [hreq] at hx
            rw [← hbyte, (incoming_eq_some hx).1]
            rfl
        · exact hr

theorem Represents.unchanged (hs : Represents h now s) {e : Event}
    (hrem : remembered (h ++ [e]) = remembered h) : Represents (h ++ [e]) now s := by
  refine ⟨hrem ▸ hs.distinct, fun r hr => ?_, hs.bucket, fun k r hlive => ?_⟩
  · rw [hrem] at hr
    exact (hs.sound r hr).snoc e
  · rw [hrem]
    exact hs.live k r hlive

/-! ## What a call answers -/

theorem forM_ok {α : Type} {f : α → Except String Unit} (hf : ∀ a, f a = .ok ()) (l : List α) :
    l.forM f = .ok () := by
  induction l with
  | nil => rfl
  | cons a l ih =>
    change (f a >>= fun _ => l.forM f) = .ok ()
    rw [hf a]
    exact ih

theorem Represents.script_eq (hs : Represents h now s) (hcare : Careful h now call)
    (hacc : Accepted now call) :
    script now call s =
      (fun k => if k.2 = call.request.hash k.1 then
          written now (keptBuckets now call.request s k.1) else s k,
        .ok ((sort (((List.finRange 8).flatMap fun band =>
          (keptBuckets now call.request s band).filter call.request.matched).foldl gather [])).take
            8)) := by
  obtain ⟨hdeadline, hvalid⟩ := hacc
  have hdeadline' : ¬call.deadlineAtMs ≤ now := Nat.not_le.mpr hdeadline
  have hvalid' : ¬call.request.valid = false := by
    rw [hvalid]
    exact Bool.noConfusion
  have hcheck := forM_ok (fun band => (hs.bucket (band, call.request.hash band)).check now)
    (List.finRange 8)
  have hsize : ¬∃ band, keptBuckets now call.request s band ≠ [] ∧
      8192 < encodedSize (keptBuckets now call.request s band) := by
    rintro ⟨band, -, hbig⟩
    obtain ⟨-, hlen, hmem⟩ := hs.kept hcare ⟨hdeadline, hvalid⟩ band
    have hle := encodedSize_le hlen fun r hr => by
      have hr := (mem_bucketOf.mp ((hmem r).mp hr)).1
      rw [(record_spec ⟨hdeadline, hvalid⟩ hs.distinct).2] at hr
      rcases hr with hr | ⟨hr, -⟩
      · have hsound := taken_sound (e := ⟨now, call, .ok []⟩) hcare ⟨hdeadline, hvalid⟩ rfl hr
        exact ⟨hsound.valid, hsound.exact⟩
      · exact ⟨(hs.sound r hr).valid, (hs.sound r hr).exact⟩
    omega
  unfold script
  dsimp only
  rw [if_neg hdeadline', if_neg hvalid', hcheck]
  dsimp only
  rw [if_neg hsize]

theorem script_of_not_accepted (hno : ¬Accepted now call) : (script now call s).1 = s := by
  unfold script
  dsimp only
  split
  · rfl
  · next hd =>
    split
    · rfl
    · next hv =>
      refine absurd ⟨Nat.lt_of_not_le hd, ?_⟩ hno
      rwa [Bool.not_eq_false] at hv

theorem Represents.step (hs : Represents h now s) (hcare : Careful h now call) :
    Represents (h ++ [⟨now, call, (script now call s).2⟩]) now (script now call s).1 := by
  by_cases hacc : Accepted now call
  · have hstore := hs.accepted (e := ⟨now, call, (script now call s).2⟩) hcare hacc rfl rfl
    rw [show (script now call s).1 = _ from congrArg Prod.fst (hs.script_eq hcare hacc)]
    exact hstore
  · rw [script_of_not_accepted hacc]
    refine hs.unchanged ?_
    rw [remembered_snoc]
    exact record_of_not_accepted hacc _

end Call

/-! ## Every history -/

theorem run_represents {h : List Event} {s : Store}
    (hr : Run script Careful (fun _ => none) h t s) : Represents h t s :=
  hr.invariant Represents represents_empty (fun _ _ _ _ hs hle => hs.mono hle)
    fun _ _ _ _ hs hcare => hs.step hcare

/-- The remembered candidates that a query at `atMs` is about: published and dated by then, live
then and on the clock, and within six bits. -/
def within (now : Nat) (hash : Hash) (atMs : Nat) (r : Candidate) : Bool :=
  decide (r.publishedAtMs ≤ atMs ∧ r.eventTimestampMs ≤ atMs ∧ atMs < r.expiresAtMs ∧
    now < r.expiresAtMs ∧ hammingDist (bits r.recompressionHash) (bits hash) ≤ 6)

/-- A query answers, in order and up to eight, exactly the live remembered candidates within six
bits. -/
theorem index_complete {h : List Event} {t : Nat} {s : Store}
    (hr : Run script Careful (fun _ => none) h t s) {now : Nat} (hle : t ≤ now) {deadlineAtMs : Nat}
    (hdeadline : now < deadlineAtMs) {hash : Hash} {atMs : Nat} (hat : integer atMs = true)
    (hcare : Careful h now ⟨deadlineAtMs, .read hash atMs⟩) :
    (script now ⟨deadlineAtMs, .read hash atMs⟩ s).2 =
      .ok ((sort ((remembered h).filter (within now hash atMs))).take 8) := by
  have hs := (run_represents hr).mono hle
  have hacc : Accepted now ⟨deadlineAtMs, .read hash atMs⟩ :=
    ⟨hdeadline, Bool.and_eq_true_iff.mpr ⟨hat, rfl⟩⟩
  rw [hs.script_eq hcare hacc]
  generalize hall : ((List.finRange 8).flatMap fun band =>
    (keptBuckets now (.read hash atMs) s band).filter (Request.read hash atMs).matched) = all
  have hrecord : record now ⟨deadlineAtMs, .read hash atMs⟩ (remembered h) = remembered h := by
    unfold record
    split <;> rfl
  have hmem : ∀ r, r ∈ all ↔ r ∈ (remembered h).filter (within now hash atMs) := by
    intro r
    rw [← hall, List.mem_flatMap, List.mem_filter]
    have hkept : ∀ band, r ∈ keptBuckets now (.read hash atMs) s band ↔ r ∈ remembered h ∧
        now < r.expiresAtMs ∧ r.recompressionHash band = hash band := fun band => by
      have hmem := (hs.kept hcare hacc band).2.2 r
      rwa [mem_bucketOf, hrecord] at hmem
    simp only [List.mem_filter, hkept, List.mem_finRange, true_and, within, Request.matched,
      Request.atMs, Bool.and_eq_true, decide_eq_true_eq, ← withinHamming_iff]
    constructor
    · rintro ⟨band, ⟨hr, hlive, -⟩, ⟨⟨hpub, hevent⟩, hexp⟩, hdist⟩
      exact ⟨hr, of_decide_eq_true hpub, of_decide_eq_true hevent, of_decide_eq_true hexp, hlive,
        hdist⟩
    · rintro ⟨hr, hpub, hevent, hexp, hlive, hdist⟩
      obtain ⟨band, hband⟩ := exists_band_eq hdist
      exact ⟨band, ⟨hr, hlive, hband⟩,
        ⟨⟨decide_eq_true hpub, decide_eq_true hevent⟩, decide_eq_true hexp⟩, hdist⟩
  have hdetermined : Determined all := fun a ha b hb heq =>
    hs.distinct.eq (List.mem_filter.mp ((hmem a).mp ha)).1 (List.mem_filter.mp ((hmem b).mp hb)).1
      heq
  obtain ⟨hdistinct, hgather⟩ := foldl_gather hdetermined
  have hperm : (all.foldl gather []).Perm ((remembered h).filter (within now hash atMs)) :=
    (List.perm_ext_iff_of_nodup hdistinct.nodup (hs.distinct.filter _).nodup).mpr fun r =>
      (hgather r).trans (hmem r)
  rw [sort_eq_of_perm hperm hdistinct]

/-! ## One photo -/

def photo : Candidate where
  webhookEventId := "w1"
  messageId := "m1"
  eventTimestampMs := 50
  publishedAtMs := 40
  canonicalHash := 7
  recompressionHash := fun _ => 0
  expiresAtMs := 150

def similar : Hash := fun band => if band = 0 then 3 else 0

def afterPhoto : Store := (script 60 ⟨1000, .remember photo⟩ fun _ => none).1

def photoRemembered : List Event :=
  [⟨60, ⟨1000, .remember photo⟩, (script 60 ⟨1000, .remember photo⟩ fun _ => none).2⟩]

theorem remembered_photo : remembered photoRemembered = [photo] := by decide +kernel

theorem careful_of_length {h : List Event} {call : Call}
    (hlen : (record now call (remembered h)).length ≤ 8) (hclock : now + MAX_RETENTION_MS < 10 ^ 14)
    (hfirst : ∀ c, call.request = .remember c → h = [] ∧ c.eventTimestampMs < 10 ^ 14) :
    Careful h now call where
  single c c' hc hc' _ := by
    obtain ⟨e, he, -⟩ := hc'
    rw [(hfirst c hc).1] at he
    cases he
  room k := Nat.le_trans (List.length_filter_le _ _) (Nat.le_trans (List.length_filter_le _ _) hlen)
  clock := hclock
  dates c hc := (hfirst c hc).2

theorem photo_run : Run script Careful (fun _ => none) photoRemembered 60 afterPhoto := by
  have hcare : Careful [] 60 ⟨1000, .remember photo⟩ := by
    refine careful_of_length (by decide +kernel) (by decide) fun c hc => ⟨rfl, ?_⟩
    obtain rfl := Request.remember.inj hc
    decide
  have hr : Run script Careful (fun _ => none) [] 0 fun _ => none := .nil
  exact hr.snoc 60 ⟨1000, .remember photo⟩ (Nat.zero_le _) hcare

theorem photo_query (now atMs : Nat) (hnow : now + MAX_RETENTION_MS < 10 ^ 14) :
    Careful photoRemembered now ⟨1000, .read similar atMs⟩ := by
  refine careful_of_length ?_ hnow nofun
  unfold record
  rw [remembered_photo]
  split
  · decide
  · show [photo].length ≤ 8
    decide

theorem index_complete_photo :
    (script 100 ⟨1000, .read similar 90⟩ afterPhoto).2 =
      .ok ((sort ((remembered photoRemembered).filter (within 100 similar 90))).take 8) :=
  index_complete photo_run (by decide) (by decide) (by decide) (photo_query 100 90 (by decide))

/-- A candidate that is live at the time of the query but not on the clock is not returned. -/
theorem index_complete_expired :
    Run script Careful (fun _ => none) photoRemembered 60 afterPhoto ∧
      Careful photoRemembered 200 ⟨1000, .read similar 90⟩ ∧
      (script 200 ⟨1000, .read similar 90⟩ afterPhoto).2 = .ok [] ∧
      photo ∈ remembered photoRemembered ∧ photo.publishedAtMs ≤ 90 ∧
      photo.eventTimestampMs ≤ 90 ∧ 90 < photo.expiresAtMs ∧
      hammingDist (bits photo.recompressionHash) (bits similar) ≤ 6 := by
  refine ⟨photo_run, photo_query 200 90 (by decide), by decide +kernel, ?_, by decide, by decide,
    by decide, by decide +kernel⟩
  rw [remembered_photo]
  exact List.mem_singleton.mpr rfl

end Maxim.Moderation.MessageDuplicate.Recompression
