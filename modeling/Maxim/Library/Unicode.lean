import Maxim.Library.Text

/-!
# Unicode text

Code units, runs of a class, trimming, and lower case with its final sigma. The
tables of the character database are a structure. Texts are lists of code
points.
-/

namespace Maxim.Library

def isBmp (c : Char) : Bool := c.toNat < 0x10000

/-- The code units of a text. `none` is one half of a pair. -/
def codeUnits (text : List Char) : List (Option Char) :=
  text.flatMap fun c => if isBmp c then [some c] else [none, none]

def codeUnitLength (text : List Char) : Nat := (codeUnits text).length

/-- The longest pieces of a text that consist of characters of the class. -/
def runsOf (p : Char → Bool) (text : List Char) : List (List Char) :=
  (text.splitOnP fun c => !p c).filter (· ≠ [])

/-- `trim` on code points. -/
def trimSpace (text : List Char) : List Char := (text.dropWhile isSpace).rdropWhile isSpace

/-- Every run of white space becomes a space. -/
def squeezeSpace : List Char → List Char
  | [] => []
  | c :: rest =>
    if isSpace c then
      if rest.head?.any isSpace then squeezeSpace rest else ' ' :: squeezeSpace rest
    else c :: squeezeSpace rest

/-! ## Runs -/

section Runs

variable {p : Char → Bool} {text x y : List Char}

theorem runsOf_cons_of_not {c : Char} (hc : p c = false) : runsOf p (c :: text) = runsOf p text := by
  rw [runsOf, List.splitOnP_cons_eq_if_modifyHead, if_pos (by rw [hc]; rfl), List.filter_cons_of_neg (by simp)]
  rfl

theorem runsOf_append_left (hx : ∀ c ∈ x, p c = false) : runsOf p (x ++ y) = runsOf p y := by
  induction x with
  | nil => rfl
  | cons c x ih =>
    rw [List.cons_append, runsOf_cons_of_not (hx c List.mem_cons_self)]
    exact ih fun d hd => hx d (List.mem_cons_of_mem c hd)

theorem runsOf_append (hne : x ≠ []) (hx : ∀ c ∈ x, p c = true) (hy : ∀ c, y.head? = some c → p c = false) :
    runsOf p (x ++ y) = x :: runsOf p y := by
  have hneg : ∀ c ∈ x, (!p c) = false := fun c hc => by rw [hx c hc]; rfl
  cases y with
  | nil =>
    rw [List.append_nil, runsOf, List.splitOnP_eq_singleton hneg,
      List.filter_cons_of_pos (by simpa using hne)]
    rfl
  | cons c y =>
    have hc : p c = false := hy c rfl
    rw [runsOf_cons_of_not hc, runsOf, List.splitOnP_append_cons_of_forall_mem hneg c (by rw [hc]; rfl),
      List.filter_cons_of_pos (by simpa using hne)]
    rfl

theorem first_run (p : Char → Bool) (text : List Char) :
    text = text.takeWhile (fun c => !p c) ++
      ((text.dropWhile fun c => !p c).takeWhile p ++ (text.dropWhile fun c => !p c).dropWhile p) := by
  rw [List.takeWhile_append_dropWhile, List.takeWhile_append_dropWhile]

theorem not_of_mem_takeWhile {c : Char} (hc : c ∈ text.takeWhile fun c => !p c) : p c = false := by
  simpa using List.mem_takeWhile_imp hc

theorem head_dropWhile {l : List Char} {c : Char} (hc : (l.dropWhile p).head? = some c) : p c = false := by
  have h := List.head?_dropWhile_not p l
  rw [hc] at h
  exact h

theorem runsOf_first :
    runsOf p text =
      if (text.dropWhile fun c => !p c) = [] then [] else
        (text.dropWhile fun c => !p c).takeWhile p ::
          runsOf p ((text.dropWhile fun c => !p c).dropWhile p) := by
  conv_lhs => rw [first_run p text]
  rw [runsOf_append_left fun c hc => not_of_mem_takeWhile hc]
  split
  · next hnil => rw [hnil]; rfl
  · next hne =>
    refine runsOf_append ?_ (fun c hc => List.mem_takeWhile_imp hc) fun c hc => head_dropWhile hc
    obtain ⟨c, rest, hcons⟩ := List.exists_cons_of_ne_nil hne
    have hc : p c = true := by
      have h := head_dropWhile (p := fun c => !p c) (c := c) (by rw [hcons]; rfl)
      simpa using h
    rw [hcons, List.takeWhile_cons_of_pos hc]
    exact List.cons_ne_nil _ _

theorem forall_not_of_runsOf (h : runsOf p text = []) : ∀ c ∈ text, p c = false := by
  rw [runsOf_first] at h
  split at h
  · next hnil =>
    intro c hc
    simpa using List.dropWhile_eq_nil_iff.mp hnil c hc
  · cases h

theorem two_runs {c s d : Char} {run : List Char} (hc : c ∈ x) (hpc : p c = true) (hs : p s = false)
    (hd : d ∈ y) (hpd : p d = true) : runsOf p (x ++ s :: y) ≠ [run] := by
  have hcut : runsOf p (x ++ s :: y) = runsOf p x ++ runsOf p y := by
    rw [runsOf, List.splitOnP_append_cons x y (by rw [hs]; rfl), List.filter_append]
    rfl
  have hne {l : List Char} {a : Char} (ha : a ∈ l) (hpa : p a = true) : runsOf p l ≠ [] := fun h =>
    absurd hpa (by rw [forall_not_of_runsOf h a ha]; exact Bool.false_ne_true)
  intro h
  have hlen := congrArg List.length (hcut.symm.trans h)
  have hx := List.length_pos_iff.mpr (hne hc hpc)
  have hy := List.length_pos_iff.mpr (hne hd hpd)
  rw [List.length_append, List.length_singleton] at hlen
  omega

theorem runsOf_eq_singleton (h : runsOf p text = [x]) :
    x ≠ [] ∧ (∀ c ∈ x, p c = true) ∧ (text.dropWhile fun c => !p c).takeWhile p = x ∧
      ∀ c ∈ (text.dropWhile fun c => !p c).dropWhile p, p c = false := by
  have hmem : x ∈ runsOf p text := by rw [h]; exact List.mem_singleton.mpr rfl
  have hne : x ≠ [] := by simpa using (List.mem_filter.mp hmem).2
  rw [runsOf_first] at h
  split at h
  · cases h
  · obtain ⟨hfirst, hrest⟩ := List.cons.inj h
    exact ⟨hne, fun c hc => List.mem_takeWhile_imp (hfirst ▸ hc), hfirst, forall_not_of_runsOf hrest⟩

end Runs

/-! ## Code units -/

theorem codeUnits_append (x y : List Char) : codeUnits (x ++ y) = codeUnits x ++ codeUnits y :=
  List.flatMap_append

theorem codeUnits_cons (c : Char) (text : List Char) :
    codeUnits (c :: text) = (if isBmp c then [some c] else [none, none]) ++ codeUnits text :=
  List.flatMap_cons

theorem codeUnits_of_bmp {text : List Char} (h : ∀ c ∈ text, isBmp c = true) :
    codeUnits text = text.map some := by
  induction text with
  | nil => rfl
  | cons c text ih =>
    rw [codeUnits_cons, if_pos (h c List.mem_cons_self), ih fun d hd => h d (List.mem_cons_of_mem c hd)]
    rfl

theorem codeUnits_eq_nil {text : List Char} (h : codeUnits text = []) : text = [] := by
  cases text with
  | nil => rfl
  | cons c text =>
    rw [codeUnits_cons] at h
    split at h <;> cases h

theorem codeUnits_eq_append_cons {text : List Char} {c : Char} {u w : List (Option Char)}
    (h : codeUnits text = u ++ some c :: w) :
    ∃ x y, text = x ++ c :: y ∧ codeUnits x = u ∧ codeUnits y = w ∧ isBmp c = true := by
  induction text generalizing u with
  | nil => exact absurd h.symm (List.append_ne_nil_of_right_ne_nil u (List.cons_ne_nil _ _))
  | cons d text ih =>
    rw [codeUnits_cons] at h
    split at h
    · next hd =>
      cases u with
      | nil =>
        obtain ⟨hdc, hw⟩ := List.cons.inj h
        obtain rfl := Option.some.inj hdc
        exact ⟨[], text, rfl, rfl, hw, hd⟩
      | cons o u =>
        obtain ⟨rfl, hrest⟩ := List.cons.inj h
        obtain ⟨x, y, rfl, hx, hy, hc⟩ := ih hrest
        exact ⟨d :: x, y, rfl, by rw [codeUnits_cons, if_pos hd, hx]; rfl, hy, hc⟩
    · next hd =>
      obtain _ | ⟨o, _ | ⟨o', u⟩⟩ := u
      · cases h
      · cases h
      · obtain ⟨rfl, hhalf⟩ := List.cons.inj h
        obtain ⟨rfl, hrest⟩ := List.cons.inj hhalf
        obtain ⟨x, y, rfl, hx, hy, hc⟩ := ih hrest
        exact ⟨d :: x, y, rfl, by rw [codeUnits_cons, if_neg hd, hx]; rfl, hy, hc⟩

theorem codeUnits_eq_map_append {text token : List Char} {w : List (Option Char)}
    (h : codeUnits text = token.map some ++ w) :
    ∃ y, text = token ++ y ∧ ∀ c ∈ token, isBmp c = true := by
  induction token generalizing text with
  | nil => exact ⟨text, rfl, by simp⟩
  | cons c token ih =>
    obtain ⟨x, y, rfl, hx, hy, hc⟩ := codeUnits_eq_append_cons (u := []) h
    obtain rfl := codeUnits_eq_nil hx
    obtain ⟨z, rfl, hbmp⟩ := ih hy
    exact ⟨z, rfl, List.forall_mem_cons.mpr ⟨hc, hbmp⟩⟩

theorem map_some_infix_codeUnits {token text : List Char} (hne : token ≠ []) :
    token.map some <:+: codeUnits text ↔ (∀ c ∈ token, isBmp c = true) ∧ token <:+: text := by
  constructor
  · rintro ⟨u, w, h⟩
    obtain ⟨c, token, rfl⟩ := List.exists_cons_of_ne_nil hne
    rw [List.append_assoc] at h
    obtain ⟨x, y, rfl, -, hy, hc⟩ := codeUnits_eq_append_cons h.symm
    obtain ⟨z, rfl, hbmp⟩ := codeUnits_eq_map_append hy
    exact ⟨List.forall_mem_cons.mpr ⟨hc, hbmp⟩, x, z, by simp⟩
  · rintro ⟨hbmp, x, y, rfl⟩
    refine ⟨codeUnits x, codeUnits y, ?_⟩
    rw [codeUnits_append, codeUnits_append, codeUnits_of_bmp hbmp]

/-! ## Trimming -/

section Trimming

variable {x y z : List Char}

theorem squeezeSpace_of_space (hx : ∀ c ∈ x, isSpace c = true) : ∀ c ∈ squeezeSpace x, isSpace c = true := by
  induction x with
  | nil => simp [squeezeSpace]
  | cons c x ih =>
    have hrest := ih fun d hd => hx d (List.mem_cons_of_mem c hd)
    rw [squeezeSpace, if_pos (hx c List.mem_cons_self)]
    split
    · exact hrest
    · exact List.forall_mem_cons.mpr ⟨by decide, hrest⟩

theorem squeezeSpace_append_visible (hy : ∀ c ∈ y, isSpace c = false) :
    squeezeSpace (y ++ z) = y ++ squeezeSpace z := by
  induction y with
  | nil => rfl
  | cons c y ih =>
    rw [List.cons_append, squeezeSpace, if_neg (by simp [hy c List.mem_cons_self]),
      ih fun d hd => hy d (List.mem_cons_of_mem c hd)]
    rfl

theorem squeezeSpace_append (hne : y ≠ []) (hy : ∀ c ∈ y, isSpace c = false) :
    squeezeSpace (x ++ (y ++ z)) = squeezeSpace x ++ squeezeSpace (y ++ z) := by
  induction x with
  | nil => rfl
  | cons c x ih =>
    have hhead : (x ++ (y ++ z)).head?.any isSpace = x.head?.any isSpace := by
      cases x with
      | cons d x => rfl
      | nil =>
        obtain ⟨d, y, rfl⟩ := List.exists_cons_of_ne_nil hne
        exact hy d List.mem_cons_self
    rw [List.cons_append, squeezeSpace, squeezeSpace, hhead, ih]
    split
    · split <;> rfl
    · rfl

theorem trimSpace_append (hne : y ≠ []) (hx : ∀ c ∈ x, isSpace c = true)
    (hy : ∀ c ∈ y, isSpace c = false) (hz : ∀ c ∈ z, isSpace c = true) : trimSpace (x ++ (y ++ z)) = y := by
  have hfirst : (y ++ z).dropWhile isSpace = y ++ z := by
    obtain ⟨c, y, rfl⟩ := List.exists_cons_of_ne_nil hne
    exact List.dropWhile_cons_of_neg (by simp [hy c List.mem_cons_self])
  have hlast : y.reverse.dropWhile isSpace = y.reverse := by
    obtain ⟨c, y', hc⟩ := List.exists_cons_of_ne_nil (List.reverse_ne_nil_iff.mpr hne)
    have hmem : c ∈ y := List.mem_reverse.mp (hc ▸ List.mem_cons_self)
    rw [hc, List.dropWhile_cons_of_neg (by simp [hy c hmem])]
  rw [trimSpace, List.dropWhile_append_of_pos hx, hfirst, List.rdropWhile, List.reverse_append,
    List.dropWhile_append_of_pos fun c hc => hz c (List.mem_reverse.mp hc), hlast, List.reverse_reverse]

theorem exists_trimSpace (text : List Char) :
    ∃ x z, text = x ++ (trimSpace text ++ z) ∧ (∀ c ∈ x, isSpace c = true) ∧ ∀ c ∈ z, isSpace c = true := by
  have hreverse := List.takeWhile_append_dropWhile (p := isSpace) (l := (text.dropWhile isSpace).reverse)
  refine ⟨text.takeWhile isSpace, ((text.dropWhile isSpace).reverse.takeWhile isSpace).reverse, ?_,
    fun c hc => List.mem_takeWhile_imp hc,
    fun c hc => List.mem_takeWhile_imp (List.mem_reverse.mp hc)⟩
  rw [trimSpace, List.rdropWhile, ← List.reverse_append, hreverse, List.reverse_reverse,
    List.takeWhile_append_dropWhile]

theorem trimSpace_head {c : Char} {text : List Char} (hc : (trimSpace text).head? = some c) :
    isSpace c = false := by
  obtain ⟨t, ht⟩ := List.rdropWhile_prefix isSpace (l := text.dropWhile isSpace)
  refine head_dropWhile (l := text) ?_
  rw [← ht, List.head?_append]
  rw [trimSpace] at hc
  rw [hc]
  rfl

theorem trimSpace_getLast {c : Char} {text : List Char} (hc : (trimSpace text).getLast? = some c) :
    isSpace c = false := by
  rw [trimSpace, List.rdropWhile, List.getLast?_reverse] at hc
  exact head_dropWhile hc

end Trimming

/-- Tables of the character database. -/
structure Unicode where
  letterOrNumber : Char → Bool
  /-- Lower case where the context does not matter. -/
  lower : Char → List Char
  cased : Char → Bool
  caseIgnorable : Char → Bool
  /-- Simple case folding. -/
  fold : Char → Char
  letterOrNumberFolded : Char → Bool
  letterOrNumberFolded_iff : ∀ c, letterOrNumberFolded c = true ↔
    ∃ a, letterOrNumber a = true ∧ fold a = fold c
  lower_space : ∀ c, isSpace c = true → lower c = [c]
  lower_visible : ∀ c, isSpace c = false → lower c ≠ [] ∧ ∀ d ∈ lower c, isSpace d = false
  /-- The small Russian letters but `ё`. -/
  letter_of_russian : ∀ c : Char, 0x430 ≤ c.toNat → c.toNat ≤ 0x44F → letterOrNumber c = true

namespace Unicode

variable (U : Unicode)

/-- A sigma ends a word: there are letters before it and none after it. -/
def finalSigma (behind rest : List Char) : Bool :=
  (behind.dropWhile U.caseIgnorable).head?.any U.cased &&
    !(rest.dropWhile U.caseIgnorable).head?.any U.cased

def lowerAt (behind : List Char) (c : Char) (rest : List Char) : List Char :=
  if c = 'Σ' then [if U.finalSigma behind rest then 'ς' else 'σ'] else U.lower c

def lowerFrom : List Char → List Char → List Char
  | _, [] => []
  | behind, c :: rest => U.lowerAt behind c rest ++ lowerFrom (c :: behind) rest

def toLowerCase (text : List Char) : List Char := U.lowerFrom [] text

def folded (class' : List Char) (c : Char) : Bool := class'.any fun a => U.fold a == U.fold c

@[simp] theorem lowerFrom_nil (behind : List Char) : U.lowerFrom behind [] = [] := rfl

theorem lowerFrom_cons (behind : List Char) (c : Char) (rest : List Char) :
    U.lowerFrom behind (c :: rest) = U.lowerAt behind c rest ++ U.lowerFrom (c :: behind) rest := rfl

theorem lowerAt_space {behind rest : List Char} {c : Char} (hc : isSpace c = true) :
    U.lowerAt behind c rest = [c] := by
  rw [lowerAt, if_neg, U.lower_space c hc]
  rintro rfl
  exact absurd hc (by decide)

theorem lowerAt_visible (behind rest : List Char) {c : Char} (hc : isSpace c = false) :
    U.lowerAt behind c rest ≠ [] ∧ ∀ d ∈ U.lowerAt behind c rest, isSpace d = false := by
  rw [lowerAt]
  split
  · refine ⟨List.cons_ne_nil _ _, fun d hd => ?_⟩
    rw [List.mem_singleton.mp hd]
    split <;> decide
  · exact U.lower_visible c hc

theorem lowerFrom_append (behind x y : List Char) :
    ∃ x', U.lowerFrom behind (x ++ y) = x' ++ U.lowerFrom (x.reverse ++ behind) y ∧
      ((∃ c ∈ x, isSpace c = false) → ∃ d ∈ x', isSpace d = false) := by
  induction x generalizing behind with
  | nil => exact ⟨[], rfl, by simp⟩
  | cons c x ih =>
    obtain ⟨x', heq, hvisible⟩ := ih (c :: behind)
    refine ⟨U.lowerAt behind c (x ++ y) ++ x', ?_, ?_⟩
    · rw [List.cons_append, lowerFrom_cons, heq, List.reverse_cons, List.append_assoc, List.append_assoc,
        List.singleton_append]
    · rintro ⟨d, hd, hspace⟩
      rcases List.mem_cons.mp hd with rfl | hd
      · obtain ⟨hne, hall⟩ := U.lowerAt_visible behind (x ++ y) hspace
        obtain ⟨e, he⟩ := List.exists_mem_of_ne_nil _ hne
        exact ⟨e, List.mem_append_left _ he, hall e he⟩
      · obtain ⟨e, he, hspace⟩ := hvisible ⟨d, hd, hspace⟩
        exact ⟨e, List.mem_append_right _ he, hspace⟩

theorem toLowerCase_space {x y : List Char} {s : Char} (hx : ∃ c ∈ x, isSpace c = false)
    (hs : isSpace s = true) (hy : ∃ c ∈ y, isSpace c = false) :
    ∃ x' y', U.toLowerCase (x ++ s :: y) = x' ++ s :: y' ∧ (∃ c ∈ x', isSpace c = false) ∧
      ∃ c ∈ y', isSpace c = false := by
  obtain ⟨x', hx', hvisible⟩ := U.lowerFrom_append [] x (s :: y)
  obtain ⟨y', hy', hvisible'⟩ := U.lowerFrom_append (s :: x.reverse) y []
  refine ⟨x', y', ?_, hvisible hx, hvisible' hy⟩
  rw [List.append_nil] at hx'
  simp only [lowerFrom_nil, List.append_nil] at hy'
  rw [toLowerCase, hx', lowerFrom_cons, U.lowerAt_space hs, List.singleton_append, hy']

theorem toLowerCase_visible {text : List Char} (h : ∀ c ∈ text, isSpace c = false) :
    ∀ d ∈ U.toLowerCase text, isSpace d = false := by
  have hfrom (behind : List Char) : ∀ d ∈ U.lowerFrom behind text, isSpace d = false := by
    induction text generalizing behind with
    | nil => simp
    | cons c text ih =>
      intro d hd
      rw [lowerFrom_cons] at hd
      rcases List.mem_append.mp hd with hd | hd
      · exact (U.lowerAt_visible _ _ (h c List.mem_cons_self)).2 d hd
      · exact ih (fun e he => h e (List.mem_cons_of_mem c he)) _ d hd
  exact hfrom []

theorem visible_of_one_run {text run : List Char} {f : Char → Char} (hf : ∀ c, isSpace (f c) = isSpace c)
    (hhead : ∀ c, text.head? = some c → isSpace c = false)
    (hlast : ∀ c, text.getLast? = some c → isSpace c = false)
    (hrun : runsOf (fun c => !isSpace c) ((U.toLowerCase text).map f) = [run]) :
    ∀ c ∈ text, isSpace c = false := by
  intro s hs
  by_contra hspace
  rw [Bool.not_eq_false] at hspace
  obtain ⟨x, y, rfl⟩ := List.append_of_mem hs
  have hx : ∃ c ∈ x, isSpace c = false := by
    cases x with
    | nil => exact absurd hspace (by rw [hhead s rfl]; exact Bool.false_ne_true)
    | cons c x => exact ⟨c, List.mem_cons_self, hhead c rfl⟩
  have hy : ∃ c ∈ y, isSpace c = false := by
    rcases List.eq_nil_or_concat y with rfl | ⟨y, c, rfl⟩
    · exact absurd hspace (by rw [hlast s (by simp)]; exact Bool.false_ne_true)
    · refine ⟨c, by simp, hlast c ?_⟩
      rw [List.concat_eq_append, ← List.cons_append, ← List.append_assoc, List.getLast?_concat]
  obtain ⟨x', y', heq, ⟨c, hc, hcv⟩, ⟨d, hd, hdv⟩⟩ := U.toLowerCase_space hx hspace hy
  rw [heq, List.map_append, List.map_cons] at hrun
  exact two_runs (List.mem_map_of_mem hc) (by rw [hf, hcv]; rfl) (by rw [hf, hspace]; rfl)
    (List.mem_map_of_mem hd) (by rw [hf, hdv]; rfl) hrun

theorem letterOrNumberFolded_of {c : Char} (h : U.letterOrNumber c = true) :
    U.letterOrNumberFolded c = true := (U.letterOrNumberFolded_iff c).mpr ⟨c, h, rfl⟩

end Unicode

/-! ## Latin and Russian letters -/

theorem toNat_ofNat {n : Nat} (h : n < 0xD800) : (Char.ofNat n).toNat = n := by
  rw [Char.ofNat, dif_pos (Or.inl h)]
  rfl

theorem lowerChar_toNat (c : Char) :
    (lowerChar c).toNat =
      if (65 ≤ c.toNat ∧ c.toNat ≤ 90) ∨ (1040 ≤ c.toNat ∧ c.toNat ≤ 1071) then c.toNat + 32
      else if 1024 ≤ c.toNat ∧ c.toNat ≤ 1039 then c.toNat + 80 else c.toNat := by
  unfold lowerChar
  simp only [Bool.or_eq_true, Bool.and_eq_true, decide_eq_true_eq]
  split
  · exact toNat_ofNat (by omega)
  · split
    · exact toNat_ofNat (by omega)
    · rfl

theorem isSpace_range {c : Char} (h : isSpace c = true) : c.toNat ≤ 32 ∨ c.toNat = 160 ∨ 5760 ≤ c.toNat := by
  unfold isSpace at h
  generalize c.toNat = n at h
  rw [Bool.or_eq_true, Bool.and_eq_true, decide_eq_true_eq, decide_eq_true_eq, List.contains_iff_mem] at h
  simp only [List.mem_cons, List.not_mem_nil, or_false] at h
  omega

theorem isSpace_lowerChar (c : Char) : isSpace (lowerChar c) = isSpace c := by
  have hlower := lowerChar_toNat c
  by_cases hsame : (lowerChar c).toNat = c.toNat
  · rw [isSpace, isSpace, hsame]
  · have hc : isSpace c = false := Bool.eq_false_iff.mpr fun h => by
      have hrange := isSpace_range h
      split at hlower
      · omega
      · split at hlower <;> omega
    have hl : isSpace (lowerChar c) = false := Bool.eq_false_iff.mpr fun h => by
      have hrange := isSpace_range h
      split at hlower
      · omega
      · split at hlower <;> omega
    rw [hc, hl]

def isCommonLetterOrDigit (c : Char) : Bool :=
  (48 ≤ c.toNat && c.toNat ≤ 57) || (65 ≤ c.toNat && c.toNat ≤ 90) || (97 ≤ c.toNat && c.toNat ≤ 122) ||
    (0x400 ≤ c.toNat && c.toNat ≤ 0x45F)

theorem isCommonLetterOrDigit_lowerChar (c : Char) :
    isCommonLetterOrDigit (lowerChar c) = isCommonLetterOrDigit c := by
  have hlower := lowerChar_toNat c
  rw [Bool.eq_iff_iff]
  simp only [isCommonLetterOrDigit, Bool.or_eq_true, Bool.and_eq_true, decide_eq_true_eq]
  split at hlower
  · omega
  · split at hlower <;> omega

/-- The tables for texts of ASCII and Russian letters. -/
def Unicode.common : Unicode where
  letterOrNumber := isCommonLetterOrDigit
  lower c := [lowerChar c]
  cased c := isCommonLetterOrDigit c && !c.isDigit
  caseIgnorable c := ['.', ':', '\x27', '^'].contains c
  fold := lowerChar
  letterOrNumberFolded := isCommonLetterOrDigit
  letterOrNumberFolded_iff c := by
    constructor
    · intro h
      exact ⟨c, h, rfl⟩
    · rintro ⟨a, ha, hfold⟩
      rw [← isCommonLetterOrDigit_lowerChar, ← hfold, isCommonLetterOrDigit_lowerChar, ha]
  lower_space c hc := by
    have hlower := lowerChar_toNat c
    have hrange := isSpace_range hc
    refine congrArg (fun c => [c]) (Char.toNat_inj.mp ?_)
    split at hlower
    · omega
    · split at hlower <;> omega
  lower_visible c hc := by
    refine ⟨List.cons_ne_nil _ _, fun d hd => ?_⟩
    rw [List.mem_singleton.mp hd, isSpace_lowerChar, hc]
  letter_of_russian c h h' := by
    simp only [isCommonLetterOrDigit, Bool.or_eq_true, Bool.and_eq_true, decide_eq_true_eq]
    omega

end Maxim.Library
