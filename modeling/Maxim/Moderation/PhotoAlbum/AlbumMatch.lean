import Maxim.Library.Fallible
import Maxim.Library.Matching
import Maxim.Moderation.PhotoAlbum.HashDistance
import Mathlib.Data.List.Sort

/-!
# The match of two photo albums

Two albums match when their images can be paired, each with one that has its
canonical hash or is near enough. The pairs come from augmenting paths that try
the nearest images first.
-/

namespace Maxim.Moderation.PhotoAlbum

open Maxim.Library Maxim.Library.Matching

def PHOTO_FINGERPRINT_ALGORITHM_VERSION : String := "sharp-rgba-native-pdq-v3"
def PHOTO_PD_DEFAULT_MIN_QUALITY : Int := 50
def PHOTO_PD_SAME_IMAGE_MAX_DISTANCE : Int := 12
def PHOTO_PD_MINOR_EDITS_MAX_DISTANCE : Int := 31
def MAX_SAFE_INTEGER : Int := 9007199254740991

structure PhotoFingerprint where
  canonicalHash : String
  pdqHash : String
  pdqQuality : Int

/-- The version of an album is of a type with one value. -/
structure PhotoAlbumFingerprint where
  algorithmVersion : String
  images : List PhotoFingerprint
  version : algorithmVersion = PHOTO_FINGERPRINT_ALGORITHM_VERSION

inductive PhotoMatchPreset
  | SAME_IMAGE
  | MINOR_EDITS
  deriving DecidableEq

structure PhotoMatchOptions where
  preset : PhotoMatchPreset
  minPdqQuality : Option Int
  sameImageMaxDistance : Option Int
  minorEditsMaxDistance : Option Int

structure PhotoAlbumMatch where
  matched : Bool
  strongestDistance : Option Nat
  usedPerceptualHash : Bool
  deriving DecidableEq

def normalizeBoundedInteger (value : Option Int) (fallback min max : Int) (field : String) : Except String Int :=
  let normalized := value.getD fallback
  if MAX_SAFE_INTEGER < normalized.natAbs ∨ normalized < min ∨ max < normalized then
    .error (field ++ " must be an integer from " ++ toString min ++ " to " ++ toString max)
  else .ok normalized

structure Candidate where
  eligible : Bool
  distance : Nat
  perceptual : Bool
  deriving DecidableEq

structure Edge where
  distance : Nat
  perceptual : Bool
  deriving DecidableEq

def candidate (minPdqQuality maxDistance : Int) (leftImage rightImage : PhotoFingerprint) :
    Except String Candidate :=
  if leftImage.canonicalHash = rightImage.canonicalHash then .ok ⟨true, 0, false⟩
  else if leftImage.pdqQuality < minPdqQuality ∨ rightImage.pdqQuality < minPdqQuality ∨
      ¬ isHexHash leftImage.pdqHash ∨ ¬ isHexHash rightImage.pdqHash then .ok ⟨false, 257, false⟩
  else do
    let distance ← hammingDistanceHex leftImage.pdqHash rightImage.pdqHash
    return ⟨distance ≤ maxDistance, distance, true⟩

def rankedRightIndices (candidates : List (List Candidate)) (leftIndex : Nat) : List (Nat × Edge) :=
  ((((candidates.getD leftIndex []).zipIdx.filter fun (c, _) => c.eligible).insertionSort
    fun a b => a.1.distance ≤ b.1.distance)).map fun (c, rightIndex) => (rightIndex, ⟨c.distance, c.perceptual⟩)

def PhotoMatchOptions.maxDistance (options : PhotoMatchOptions) : Except String Int :=
  match options.preset with
  | .SAME_IMAGE =>
    normalizeBoundedInteger options.sameImageMaxDistance PHOTO_PD_SAME_IMAGE_MAX_DISTANCE 0 256 "sameImageMaxDistance"
  | .MINOR_EDITS =>
    normalizeBoundedInteger options.minorEditsMaxDistance PHOTO_PD_MINOR_EDITS_MAX_DISTANCE 0 256
      "minorEditsMaxDistance"

def sortedHashes (album : PhotoAlbumFingerprint) : List String :=
  (album.images.map (·.canonicalHash)).insertionSort (· ≤ ·)

/-- The edges of the albums, when the augmenting paths give every left image one. -/
def matchedEdges (candidates : List (List Candidate)) (lefts rights : Nat) : Option (List (Nat × Edge)) :=
  (assignAll (rankedRightIndices candidates) (rights + 1) (List.range lefts) .empty).map (·.edges)

/-- The part of `matchPhotoAlbums` for albums whose hashes differ. -/
def matchByPaths (left right : PhotoAlbumFingerprint) (options : PhotoMatchOptions) :
    Except String PhotoAlbumMatch := do
  let minPdqQuality ← normalizeBoundedInteger options.minPdqQuality PHOTO_PD_DEFAULT_MIN_QUALITY 0 100 "minPdqQuality"
  let maxDistance ← options.maxDistance
  let candidates ← left.images.mapM fun l => right.images.mapM fun r => candidate minPdqQuality maxDistance l r
  match matchedEdges candidates left.images.length right.images.length with
  | none => return ⟨false, none, false⟩
  | some edges => return ⟨true, (edges.map (·.2.distance)).max?, edges.any (·.2.perceptual)⟩

def matchPhotoAlbums (left right : PhotoAlbumFingerprint) (options : PhotoMatchOptions) :
    Except String PhotoAlbumMatch :=
  if left.algorithmVersion ≠ right.algorithmVersion ∨ left.images.length = 0 ∨
      left.images.length ≠ right.images.length then .ok ⟨false, none, false⟩
  else if ((sortedHashes left).zip (sortedHashes right)).all fun (hash, other) => hash = other then
    .ok ⟨true, some 0, false⟩
  else matchByPaths left right options

/-! ## Pairs of images -/

def PhotoMatchOptions.quality (options : PhotoMatchOptions) : Int :=
  options.minPdqQuality.getD PHOTO_PD_DEFAULT_MIN_QUALITY

def PhotoMatchOptions.threshold (options : PhotoMatchOptions) : Int :=
  match options.preset with
  | .SAME_IMAGE => options.sameImageMaxDistance.getD PHOTO_PD_SAME_IMAGE_MAX_DISTANCE
  | .MINOR_EDITS => options.minorEditsMaxDistance.getD PHOTO_PD_MINOR_EDITS_MAX_DISTANCE

/-- Thresholds that the match does not refuse. -/
structure PhotoMatchOptions.Valid (options : PhotoMatchOptions) : Prop where
  quality_nonneg : 0 ≤ options.quality
  quality_le : options.quality ≤ 100
  threshold_nonneg : 0 ≤ options.threshold
  threshold_le : options.threshold ≤ 256

/-- Two images that can be a pair. -/
def Similar (options : PhotoMatchOptions) (a b : PhotoFingerprint) : Prop :=
  a.canonicalHash = b.canonicalHash ∨
    (options.quality ≤ a.pdqQuality ∧ options.quality ≤ b.pdqQuality ∧ isHexHash a.pdqHash ∧ isHexHash b.pdqHash ∧
      (hamming a.pdqHash b.pdqHash : Int) ≤ options.threshold)

def pairDistance (a b : PhotoFingerprint) : Nat :=
  if a.canonicalHash = b.canonicalHash then 0 else hamming a.pdqHash b.pdqHash

def Pairing (options : PhotoMatchOptions) (left right : PhotoAlbumFingerprint)
    (e : Fin left.images.length ≃ Fin right.images.length) : Prop :=
  ∀ i, Similar options (left.images.get i) (right.images.get (e i))

variable {a b : PhotoFingerprint}

theorem Similar.symm {options : PhotoMatchOptions} (h : Similar options a b) :
    Similar options b a := by
  rcases h with h | ⟨ha, hb, hah, hbh, hd⟩
  · exact .inl h.symm
  · exact .inr ⟨hb, ha, hbh, hah, hamming_comm a.pdqHash b.pdqHash ▸ hd⟩

theorem normalize_ok {value : Option Int} {fallback lo hi : Int} {field : String} (hmax : hi ≤ MAX_SAFE_INTEGER)
    (hlo : 0 ≤ lo) : normalizeBoundedInteger value fallback lo hi field = .ok (value.getD fallback) ↔
      lo ≤ value.getD fallback ∧ value.getD fallback ≤ hi := by
  unfold normalizeBoundedInteger
  dsimp only
  split
  · next h =>
    refine ⟨(fun h => nomatch h), fun hrange => ?_⟩
    omega
  · next h =>
    simp only [true_iff]
    omega

theorem normalize_eq {value : Option Int} {fallback lo hi v : Int} {field : String}
    (h : normalizeBoundedInteger value fallback lo hi field = .ok v) : v = value.getD fallback := by
  unfold normalizeBoundedInteger at h
  dsimp only at h
  split at h
  · cases h
  · exact (Except.ok.inj h).symm

theorem maxDistance_eq {options : PhotoMatchOptions} {d : Int} (h : options.maxDistance = .ok d) :
    d = options.threshold := by
  unfold PhotoMatchOptions.maxDistance at h
  unfold PhotoMatchOptions.threshold
  cases hp : options.preset <;> rw [hp] at h <;> exact normalize_eq h

theorem maxDistance_ok {options : PhotoMatchOptions} (h : options.Valid) :
    options.maxDistance = .ok options.threshold := by
  obtain ⟨-, -, hlo, hhi⟩ := h
  unfold PhotoMatchOptions.threshold at hlo hhi
  unfold PhotoMatchOptions.maxDistance PhotoMatchOptions.threshold
  cases hp : options.preset <;> rw [hp] at hlo hhi <;>
    exact (normalize_ok (by decide) (Int.le_refl 0)).mpr ⟨hlo, hhi⟩

/-- What `candidate` is without an error. -/
def candidateOf (options : PhotoMatchOptions) (a b : PhotoFingerprint) : Candidate :=
  if a.canonicalHash = b.canonicalHash then ⟨true, 0, false⟩
  else if a.pdqQuality < options.quality ∨ b.pdqQuality < options.quality ∨
      ¬ isHexHash a.pdqHash ∨ ¬ isHexHash b.pdqHash then ⟨false, 257, false⟩
  else ⟨hamming a.pdqHash b.pdqHash ≤ options.threshold, hamming a.pdqHash b.pdqHash, true⟩

theorem candidate_ok (options : PhotoMatchOptions) (a b : PhotoFingerprint) :
    candidate options.quality options.threshold a b = .ok (candidateOf options a b) := by
  unfold candidate candidateOf
  split
  · rfl
  split
  · rfl
  · next h =>
    simp only [not_or, not_not] at h
    rw [hammingDistanceHex_eq h.2.2.1 h.2.2.2]
    rfl

theorem eligible_iff {options : PhotoMatchOptions} :
    (candidateOf options a b).eligible = true ↔ Similar options a b := by
  unfold candidateOf Similar
  split
  · next h => simp [h]
  split
  · next h hbad =>
    simp only [Bool.false_eq_true, h, false_or, false_iff]
    rintro ⟨ha, hb, hah, hbh, -⟩
    rcases hbad with hbad | hbad | hbad | hbad
    · exact absurd ha (Int.not_le.mpr hbad)
    · exact absurd hb (Int.not_le.mpr hbad)
    · exact hbad hah
    · exact hbad hbh
  · next h hgood =>
    simp only [not_or, not_not, Int.not_lt] at hgood
    simp [h, hgood]

theorem distance_eq {options : PhotoMatchOptions} (h : Similar options a b) :
    (candidateOf options a b).distance = pairDistance a b := by
  have he := eligible_iff.mpr h
  unfold candidateOf pairDistance at *
  split
  · rfl
  split
  · next hcanon hbad =>
    rw [if_neg hcanon, if_pos hbad] at he
    cases he
  · rfl

theorem pairDistance_le {options : PhotoMatchOptions} (h : Similar options a b)
    (hnonneg : 0 ≤ options.threshold) : (pairDistance a b : Int) ≤ options.threshold := by
  unfold pairDistance
  split
  · exact hnonneg
  · next hcanon => exact (h.resolve_left hcanon).2.2.2.2

/-! ## The search over the images -/

variable {options : PhotoMatchOptions} {left right : PhotoAlbumFingerprint}

def candidateTable (options : PhotoMatchOptions) (left right : PhotoAlbumFingerprint) : List (List Candidate) :=
  left.images.map fun l => right.images.map fun r => candidateOf options l r

theorem candidates_ok (options : PhotoMatchOptions) (left right : PhotoAlbumFingerprint) :
    (left.images.mapM fun l => right.images.mapM fun r =>
      candidate options.quality options.threshold l r) = .ok (candidateTable options left right) := by
  simp only [candidate_ok]
  change (left.images.mapM fun l => right.images.mapM fun r => (pure (candidateOf options l r) : Except String _)) = _
  simp only [List.mapM_pure]
  rfl

theorem mem_ranked {l r : Nat} {edge : Edge} :
    (r, edge) ∈ rankedRightIndices (candidateTable options left right) l ↔
      ∃ (hl : l < left.images.length) (hr : r < right.images.length),
        Similar options left.images[l] right.images[r] ∧
        edge = ⟨(candidateOf options left.images[l] right.images[r]).distance,
          (candidateOf options left.images[l] right.images[r]).perceptual⟩ := by
  simp only [rankedRightIndices, List.mem_map, List.mem_insertionSort, List.mem_filter, Prod.exists, Prod.mk.injEq,
    List.mk_mem_zipIdx_iff_getElem?, candidateTable, List.getD_eq_getElem?_getD, List.getElem?_map]
  by_cases hl : l < left.images.length
  · simp only [List.getElem?_eq_getElem hl, Option.map_some, Option.getD_some, List.getElem?_map, hl, exists_true_left]
    constructor
    · rintro ⟨c, i, ⟨hc, he⟩, rfl, rfl⟩
      obtain ⟨b, hb, rfl⟩ := Option.map_eq_some_iff.mp hc
      obtain ⟨hi, rfl⟩ := List.getElem?_eq_some_iff.mp hb
      exact ⟨hi, eligible_iff.mp he, rfl⟩
    · rintro ⟨hr, hs, rfl⟩
      refine ⟨_, r, ⟨?_, eligible_iff.mpr hs⟩, rfl, rfl⟩
      rw [List.getElem?_eq_getElem hr]
      rfl
  · simp [hl]

/-- The searches find a pairing and its edges, or there is none. -/
theorem matchedEdges_spec (options : PhotoMatchOptions) (hlength : left.images.length = right.images.length) :
    (∀ edges, matchedEdges (candidateTable options left right) left.images.length right.images.length = some edges →
      ∃ e, Pairing options left right e ∧ ∀ edge, (∃ l, (l, edge) ∈ edges) ↔
        ∃ i, edge = ⟨(candidateOf options (left.images.get i) (right.images.get (e i))).distance,
          (candidateOf options (left.images.get i) (right.images.get (e i))).perceptual⟩) ∧
    (matchedEdges (candidateTable options left right) left.images.length right.images.length = none →
      ∀ e, ¬ Pairing options left right e) := by
  have hrights : ∀ l, ∀ edge ∈ rankedRightIndices (candidateTable options left right) l,
      edge.1 ∈ List.range right.images.length := by
    rintro l ⟨r, edge⟩ hedge
    obtain ⟨-, hr, -⟩ := mem_ranked.mp hedge
    exact List.mem_range.mpr hr
  obtain ⟨hsome, hnone⟩ := assignAll_outcome hrights (right.images.length + 1)
    (by rw [List.length_range]; exact Nat.lt_succ_self _) (List.range left.images.length) .empty matched_empty
    (by rw [List.append_nil]; exact List.nodup_range)
  rw [List.append_nil] at hnone
  constructor
  · intro edges hedges
    obtain ⟨s, hs, rfl⟩ := Option.map_eq_some_iff.mp hedges
    obtain ⟨g, hrank, hinj, hmem⟩ := (hsome s hs).exists_function
    have hrange : ∀ i : Fin left.images.length, i.val ∈ (List.range left.images.length).reverse ++ [] := by
      intro i
      simp
    have hg := fun i : Fin left.images.length => mem_ranked.mp (hrank i (hrange i))
    let f : Fin left.images.length → Fin right.images.length := fun i => ⟨(g i (hrange i)).1, (hg i).2.choose⟩
    have hf : Function.Injective f := fun i j he => Fin.ext (hinj i _ j _ (congrArg Fin.val he))
    have hbij : Function.Bijective f :=
      (Fintype.bijective_iff_injective_and_card f).mpr ⟨hf, by rw [Fintype.card_fin, Fintype.card_fin, hlength]⟩
    refine ⟨Equiv.ofBijective f hbij, fun i => (hg i).2.choose_spec.1, fun edge => ?_⟩
    constructor
    · rintro ⟨l, hl⟩
      obtain ⟨hdone, rfl⟩ := (hmem l edge).mp hl
      have hlt : l < left.images.length := by simpa using hdone
      exact ⟨⟨l, hlt⟩, (hg ⟨l, hlt⟩).2.choose_spec.2⟩
    · rintro ⟨i, rfl⟩
      exact ⟨i, (hmem i _).mpr ⟨hrange i, (hg i).2.choose_spec.2.symm⟩⟩
  · intro hfail e he
    refine hnone (Option.map_eq_none_iff.mp hfail)
      (fun l => if hl : l < left.images.length then (e ⟨l, hl⟩).val else 0) (fun l hl => ?_) fun l hl l' hl' heq => ?_
    · have hl := List.mem_range.mp hl
      refine ⟨_, mem_ranked.mpr ⟨hl, ?_, ?_, rfl⟩⟩
      · rw [dif_pos hl]
        exact (e ⟨l, hl⟩).isLt
      · simp only [dif_pos hl]
        exact he ⟨l, hl⟩
    · have hl := List.mem_range.mp hl
      have hl' := List.mem_range.mp hl'
      rw [dif_pos hl, dif_pos hl'] at heq
      exact congrArg Fin.val (e.injective (Fin.ext heq))

theorem all_zip_eq_iff {l r : List String} (hlength : l.length = r.length) :
    ((l.zip r).all fun (hash, other) => hash = other) = true ↔ l = r := by
  induction l generalizing r with
  | nil => simp [List.length_eq_zero_iff.mp hlength.symm]
  | cons hash l ih =>
    cases r with
    | nil => cases hlength
    | cons other r =>
      have hlength : l.length = r.length := Nat.succ.inj hlength
      simp [ih hlength]

theorem sortedHashes_eq_iff (hlength : left.images.length = right.images.length) :
    (((sortedHashes left).zip (sortedHashes right)).all fun (hash, other) => hash = other) = true ↔
      ∃ e : Fin left.images.length ≃ Fin right.images.length,
        ∀ i, (left.images.get i).canonicalHash = (right.images.get (e i)).canonicalHash := by
  have hsorted : ∀ album, (sortedHashes album).Perm (album.images.map (·.canonicalHash)) :=
    fun album => List.perm_insertionSort _ _
  have hlen : (sortedHashes left).length = (sortedHashes right).length := by
    rw [(hsorted left).length_eq, (hsorted right).length_eq, List.length_map, List.length_map, hlength]
  rw [all_zip_eq_iff hlen]
  have hperm : sortedHashes left = sortedHashes right ↔
      (left.images.map (·.canonicalHash)).Perm (right.images.map (·.canonicalHash)) := by
    constructor
    · intro h
      exact (hsorted left).symm.trans (h ▸ hsorted right)
    · intro h
      have h' := (hsorted left).trans (h.trans (hsorted right).symm)
      exact h'.eq_of_pairwise' (List.pairwise_insertionSort _ _) (List.pairwise_insertionSort _ _)
  rw [hperm, perm_iff_exists_equiv]
  have hl : (left.images.map (·.canonicalHash)).length = left.images.length := List.length_map _
  have hr : (right.images.map (·.canonicalHash)).length = right.images.length := List.length_map _
  constructor
  · rintro ⟨e, he⟩
    refine ⟨(finCongr hl).symm.trans (e.trans (finCongr hr)), fun i => ?_⟩
    have h := he ((finCongr hl).symm i)
    simp only [List.get_eq_getElem, List.getElem_map] at h
    exact h
  · rintro ⟨e, he⟩
    refine ⟨(finCongr hl).trans (e.trans (finCongr hr).symm), fun i => ?_⟩
    have h := he (finCongr hl i)
    simp only [List.get_eq_getElem, List.getElem_map]
    exact h

/-! ## The match -/

/-- The three ways the match answers. -/
inductive Answers (options : PhotoMatchOptions) (left right : PhotoAlbumFingerprint) : PhotoAlbumMatch → Prop
  | same (e : Fin left.images.length ≃ Fin right.images.length) :
    (∀ i, (left.images.get i).canonicalHash = (right.images.get (e i)).canonicalHash) →
    Answers options left right ⟨true, some 0, false⟩
  | near (e : Fin left.images.length ≃ Fin right.images.length) (d : Nat) (perceptual : Bool) :
    Pairing options left right e → (∃ i, pairDistance (left.images.get i) (right.images.get (e i)) = d) →
    (∀ i, pairDistance (left.images.get i) (right.images.get (e i)) ≤ d) →
    Answers options left right ⟨true, some d, perceptual⟩
  | none : (∀ e, ¬ Pairing options left right e) → Answers options left right ⟨false, none, false⟩

theorem comparable (hne : left.images ≠ []) (hlength : left.images.length = right.images.length) :
    ¬ (left.algorithmVersion ≠ right.algorithmVersion ∨ left.images.length = 0 ∨
      left.images.length ≠ right.images.length) := by
  rintro (h | h | h)
  · exact h (left.version.trans right.version.symm)
  · exact hne (List.length_eq_zero_iff.mp h)
  · exact h hlength

theorem paths_answers (hne : left.images ≠ []) (hlength : left.images.length = right.images.length)
    {m : PhotoAlbumMatch} (h : matchByPaths left right options = .ok m) : Answers options left right m := by
  have hempty : left.images.length ≠ 0 := fun he => hne (List.length_eq_zero_iff.mp he)
  obtain ⟨q, hq, h⟩ := bind_eq_ok.mp h
  obtain ⟨d, hd, h⟩ := bind_eq_ok.mp h
  rw [normalize_eq hq, maxDistance_eq hd] at h
  obtain ⟨candidates, hc, h⟩ := bind_eq_ok.mp h
  obtain rfl := Except.ok.inj ((candidates_ok options left right).symm.trans hc)
  obtain ⟨hsome, hnone⟩ := matchedEdges_spec options hlength
  cases hedges : matchedEdges (candidateTable options left right) left.images.length right.images.length with
  | none =>
    rw [hedges] at h
    exact Except.ok.inj h ▸ .none (hnone hedges)
  | some edges =>
    rw [hedges] at h
    obtain ⟨e, he, hmem⟩ := hsome edges hedges
    have hdistance : ∀ d, d ∈ edges.map (·.2.distance) ↔
        ∃ i, pairDistance (left.images.get i) (right.images.get (e i)) = d := by
      intro d
      rw [List.mem_map]
      constructor
      · rintro ⟨⟨l, edge⟩, hedge, rfl⟩
        obtain ⟨i, rfl⟩ := (hmem edge).mp ⟨l, hedge⟩
        exact ⟨i, (distance_eq (he i)).symm⟩
      · rintro ⟨i, rfl⟩
        obtain ⟨l, hl⟩ := (hmem _).mpr ⟨i, rfl⟩
        exact ⟨_, hl, distance_eq (he i)⟩
    have hsomeMax : (edges.map (·.2.distance)).max? ≠ none := by
      rw [ne_eq, List.max?_eq_none_iff]
      intro hnil
      have h0 := (hdistance _).mpr ⟨⟨0, Nat.pos_of_ne_zero hempty⟩, rfl⟩
      rw [hnil] at h0
      exact List.not_mem_nil h0
    obtain ⟨d, hd⟩ := Option.ne_none_iff_exists'.mp hsomeMax
    have hmax := List.max?_eq_some_iff.mp hd
    rw [← Except.ok.inj h, hd]
    exact .near e d _ he ((hdistance d).mp hmax.1) fun i => hmax.2 _ ((hdistance _).mpr ⟨i, rfl⟩)

theorem paths_ok (left right : PhotoAlbumFingerprint) {q d : Int}
    (hq : normalizeBoundedInteger options.minPdqQuality PHOTO_PD_DEFAULT_MIN_QUALITY 0 100 "minPdqQuality" = .ok q)
    (hd : options.maxDistance = .ok d) : ∃ m, matchByPaths left right options = .ok m := by
  have hc := candidates_ok options left right
  rw [← maxDistance_eq hd, PhotoMatchOptions.quality, ← normalize_eq hq] at hc
  simp only [matchByPaths, hq, hd, hc, bind, Except.bind]
  cases matchedEdges (candidateTable options left right) left.images.length right.images.length with
  | none => exact ⟨_, rfl⟩
  | some edges => exact ⟨_, rfl⟩

theorem match_answers (hne : left.images ≠ []) (hlength : left.images.length = right.images.length)
    {m : PhotoAlbumMatch} (h : matchPhotoAlbums left right options = .ok m) : Answers options left right m := by
  rw [matchPhotoAlbums, if_neg (comparable hne hlength)] at h
  split at h
  · next hsame =>
    obtain ⟨e, he⟩ := (sortedHashes_eq_iff hlength).mp hsame
    exact Except.ok.inj h ▸ .same e he
  · exact paths_answers hne hlength h

/-- The thresholds are checked when the hashes differ. -/
def PhotoMatchOptions.check (options : PhotoMatchOptions) : Except String Unit := do
  let _ ← normalizeBoundedInteger options.minPdqQuality PHOTO_PD_DEFAULT_MIN_QUALITY 0 100 "minPdqQuality"
  let _ ← options.maxDistance
  return ()

def SameHash (a b : PhotoFingerprint) : Prop := a.canonicalHash = b.canonicalHash

theorem Answers.matched_iff {m : PhotoAlbumMatch} (h : Answers options left right m) :
    m.matched = true ↔ Paired (Similar options) left.images right.images := by
  cases h with
  | same e he => exact ⟨fun _ => ⟨e, fun i => .inl (he i)⟩, fun _ => rfl⟩
  | near e d perceptual he _ _ => exact ⟨fun _ => ⟨e, he⟩, fun _ => rfl⟩
  | none hnone => exact ⟨fun h => (Bool.false_ne_true h).elim, fun ⟨e, he⟩ => (hnone e he).elim⟩

open scoped Classical in
theorem matched_eq (hne : left.images ≠ []) (hlength : left.images.length = right.images.length) :
    (matchPhotoAlbums left right options).map (·.matched) =
      if Paired SameHash left.images right.images then .ok true
      else options.check.map fun _ => decide (Paired (Similar options) left.images right.images) := by
  by_cases hsame : Paired SameHash left.images right.images
  · rw [if_pos hsame, matchPhotoAlbums, if_neg (comparable hne hlength),
      if_pos ((sortedHashes_eq_iff hlength).mpr hsame)]
    rfl
  rw [if_neg hsame, matchPhotoAlbums, if_neg (comparable hne hlength),
    if_neg fun h => hsame ((sortedHashes_eq_iff hlength).mp h)]
  cases hq : normalizeBoundedInteger options.minPdqQuality PHOTO_PD_DEFAULT_MIN_QUALITY 0 100 "minPdqQuality" with
  | error e =>
    rw [matchByPaths, PhotoMatchOptions.check, hq]
    rfl
  | ok q =>
    cases hd : options.maxDistance with
    | error e =>
      rw [matchByPaths, PhotoMatchOptions.check, hq, hd]
      rfl
    | ok d =>
      obtain ⟨m, hm⟩ := paths_ok left right hq hd
      have hmatched := (paths_answers hne hlength hm).matched_iff
      rw [hm, PhotoMatchOptions.check, hq, hd]
      refine congrArg Except.ok ?_
      rw [Bool.eq_iff_iff, hmatched, decide_eq_true_iff]

theorem matched_congr {left' right' : PhotoAlbumFingerprint} (hne : left.images ≠ [])
    (hlength : left.images.length = right.images.length) (hne' : left'.images ≠ [])
    (hlength' : left'.images.length = right'.images.length)
    (h : ∀ R, (∀ a b : PhotoFingerprint, R a b → R b a) →
      (Paired R left'.images right'.images ↔ Paired R left.images right.images)) :
    (matchPhotoAlbums left' right' options).map (·.matched) =
      (matchPhotoAlbums left right options).map (·.matched) := by
  have hsame := h SameHash fun a b hab => hab.symm
  have hsimilar := h (Similar options) fun a b hab => hab.symm
  rw [matched_eq hne hlength, matched_eq hne' hlength']
  by_cases hp : Paired SameHash left.images right.images
  · rw [if_pos hp, if_pos (hsame.mpr hp)]
  · rw [if_neg hp, if_neg fun hp' => hp (hsame.mp hp')]
    exact congrArg (fun b => options.check.map fun _ => b) (decide_eq_decide.mpr hsimilar)

/-- Albums of one size match exactly when a bijection pairs similar images. The order of the images and of
the albums does not matter, and the strongest distance is the largest of a pairing. -/
theorem photo_albums_match_perfectly (left right : PhotoAlbumFingerprint) (options : PhotoMatchOptions)
    (hne : left.images ≠ []) (hlength : left.images.length = right.images.length) :
    (options.Valid → ∃ m, matchPhotoAlbums left right options = .ok m) ∧
    (∀ m, matchPhotoAlbums left right options = .ok m →
      (m.matched = true ↔ ∃ e, Pairing options left right e)) ∧
    (∀ left' right', left'.images.Perm left.images → right'.images.Perm right.images →
      (matchPhotoAlbums left' right' options).map (·.matched) =
        (matchPhotoAlbums left right options).map (·.matched)) ∧
    (matchPhotoAlbums right left options).map (·.matched) =
      (matchPhotoAlbums left right options).map (·.matched) ∧
    (∀ m, matchPhotoAlbums left right options = .ok m → m.matched = true →
      ∃ e d, Pairing options left right e ∧ m.strongestDistance = some d ∧
        (∃ i, pairDistance (left.images.get i) (right.images.get (e i)) = d) ∧
        (∀ i, pairDistance (left.images.get i) (right.images.get (e i)) ≤ d) ∧
        (0 ≤ options.threshold → (d : Int) ≤ options.threshold)) := by
  have hright : right.images ≠ [] := by
    intro h
    rw [h, List.length_nil] at hlength
    exact hne (List.length_eq_zero_iff.mp hlength)
  refine ⟨fun hvalid => ?_, fun m hm => (match_answers hne hlength hm).matched_iff, fun left' right' hl hr => ?_, ?_,
    fun m hm hmatched => ?_⟩
  · have hq : normalizeBoundedInteger options.minPdqQuality PHOTO_PD_DEFAULT_MIN_QUALITY 0 100 "minPdqQuality" = _ :=
      (normalize_ok (by decide) (Int.le_refl 0)).mpr ⟨hvalid.quality_nonneg, hvalid.quality_le⟩
    rw [matchPhotoAlbums, if_neg (comparable hne hlength)]
    split
    · exact ⟨_, rfl⟩
    · exact paths_ok left right hq (maxDistance_ok hvalid)
  · have hne' : left'.images ≠ [] := by
      intro h
      rw [h] at hl
      exact hne hl.nil_eq.symm
    have hlength' : left'.images.length = right'.images.length := by
      rw [hl.length_eq, hr.length_eq, hlength]
    refine matched_congr hne hlength hne' hlength' fun R _ => ⟨fun h => ?_, fun h => ?_⟩
    · exact h.perm hl.symm hr
    · exact h.perm hl hr.symm
  · refine matched_congr hne hlength hright hlength.symm fun R hR => ⟨fun h => ?_, fun h => ?_⟩
    · obtain ⟨e, he⟩ := h.symm
      exact ⟨e, fun i => hR _ _ (he i)⟩
    · obtain ⟨e, he⟩ := h.symm
      exact ⟨e, fun i => hR _ _ (he i)⟩
  · have hpairs : ∀ e : Fin left.images.length ≃ Fin right.images.length, (∀ i, (left.images.get i).canonicalHash = (right.images.get (e i)).canonicalHash) →
        ∀ i, pairDistance (left.images.get i) (right.images.get (e i)) = 0 :=
      fun e he i => if_pos (he i)
    cases match_answers hne hlength hm with
    | same e he =>
      refine ⟨e, 0, fun i => .inl (he i), rfl, ?_, fun i => Nat.le_of_eq (hpairs e he i), id⟩
      exact ⟨⟨0, List.length_pos_iff.mpr hne⟩, hpairs e he _⟩
    | near e d perceptual he hd hle =>
      refine ⟨e, d, he, rfl, hd, hle, fun hnonneg => ?_⟩
      obtain ⟨i, rfl⟩ := hd
      exact pairDistance_le (he i) hnonneg
    | none => cases hmatched

/-- An album of images with these hashes. -/
def sampleAlbum (hashes : List (String × String)) : PhotoAlbumFingerprint where
  algorithmVersion := PHOTO_FINGERPRINT_ALGORITHM_VERSION
  images := hashes.map fun (canonicalHash, pdqHash) => ⟨canonicalHash, pdqHash, 80⟩
  version := rfl

theorem photo_albums_match_perfectly_sample :
    ∃ m, matchPhotoAlbums (sampleAlbum [("a", "x"), ("b", "y")]) (sampleAlbum [("b", "z"), ("a", "w")])
      ⟨.SAME_IMAGE, none, some 12, none⟩ = .ok m :=
  (photo_albums_match_perfectly (sampleAlbum [("a", "x"), ("b", "y")]) (sampleAlbum [("b", "z"), ("a", "w")])
    ⟨.SAME_IMAGE, none, some 12, none⟩ (by decide) rfl).1
    ⟨by decide, by decide, by decide, by decide⟩

end Maxim.Moderation.PhotoAlbum
