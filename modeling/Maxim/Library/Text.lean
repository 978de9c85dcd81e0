import Mathlib.Data.List.DropRight
import Mathlib.Data.List.Infix

/-!
# Text as JavaScript treats it

Trimming by the ECMAScript white space, lower case for the Latin and Cyrillic
letters, and fragments of a text. Lengths count characters.
-/

namespace Maxim.Library

def isSpace (c : Char) : Bool :=
  [9, 10, 11, 12, 13, 32, 160, 5760, 8232, 8233, 8239, 8287, 12288, 65279].contains c.toNat ||
    (8192 ≤ c.toNat && c.toNat ≤ 8202)

def trim (s : String) : String :=
  String.ofList ((s.toList.dropWhile isSpace).reverse.dropWhile isSpace).reverse

/-- Lower case of one Latin or Cyrillic letter. -/
def lowerChar (c : Char) : Char :=
  if (65 ≤ c.toNat && c.toNat ≤ 90) || (1040 ≤ c.toNat && c.toNat ≤ 1071) then
    Char.ofNat (c.toNat + 32)
  else if 1024 ≤ c.toNat && c.toNat ≤ 1039 then Char.ofNat (c.toNat + 80)
  else c

def lowerCase (s : String) : String := s.map lowerChar

def includes (s fragment : String) : Bool := decide (fragment.toList <:+: s.toList)

def truncate (s : String) (maxLength : Nat) : String := String.ofList (s.toList.take maxLength)

def beginsWith (s start : String) : Bool := start.toList.isPrefixOf s.toList

def join (c : Char) (parts : List String) : String :=
  String.ofList ([c].intercalate (parts.map String.toList))

def split (c : Char) (s : String) : List String := (s.toList.splitOn c).map String.ofList

def nullableString (value : Option String) : Option String :=
  value.bind fun s => if trim s = "" then none else some (trim s)

def truthy (value : Option String) : Bool := value.any (· ≠ "")

theorem nullableString_of_trimmed {s : String} (h : trim s = s) (hs : s ≠ "") :
    nullableString (some s) = some s := by
  simp [nullableString, h, hs]

theorem forall_of_all {P : Char → Prop} [DecidablePred P] {l : List Char}
    (h : (l.all fun c => decide (P c)) = true) : ∀ c ∈ l, P c :=
  fun c hc => of_decide_eq_true (List.all_eq_true.mp h c hc)

theorem append_cons_inj {α : Type} {c : α} {r r' s s' : List α} (hs : c ∉ s) (hs' : c ∉ s')
    (h : r ++ c :: s = r' ++ c :: s') : r = r' ∧ s = s' := by
  induction r generalizing r' with
  | nil =>
    cases r' with
    | nil => exact ⟨rfl, (List.cons.inj h).2⟩
    | cons a r' =>
      obtain ⟨rfl, htail⟩ := List.cons.inj h
      exact absurd (htail ▸ List.mem_append_right r' List.mem_cons_self) hs
  | cons a r ih =>
    cases r' with
    | nil =>
      obtain ⟨rfl, htail⟩ := List.cons.inj h
      exact absurd (htail ▸ List.mem_append_right r List.mem_cons_self) hs'
    | cons b r' =>
      obtain ⟨rfl, htail⟩ := List.cons.inj h
      obtain ⟨rfl, hsuffix⟩ := ih htail
      exact ⟨rfl, hsuffix⟩

theorem isSpace_of_visible {c : Char} (hlow : 33 ≤ c.toNat) (hhigh : c.toNat < 128) : isSpace c = false := by
  unfold isSpace
  generalize c.toNat = n at hlow hhigh
  have hrest : (8192 ≤ n && n ≤ 8202) = false := by
    rw [Bool.and_eq_false_iff, decide_eq_false_iff_not, decide_eq_false_iff_not]
    omega
  rw [Bool.or_eq_false_iff]
  refine ⟨?_, hrest⟩
  by_contra hmem
  rw [Bool.not_eq_false, List.contains_iff_mem] at hmem
  simp only [List.mem_cons, List.not_mem_nil, or_false] at hmem
  omega

theorem isSpace_of_isDigit {c : Char} (h : c.isDigit = true) : isSpace c = false := by
  have hrange : 48 ≤ c.toNat ∧ c.toNat ≤ 57 := Char.isDigit_iff_toNat.mp h
  exact isSpace_of_visible (by omega) (by omega)

theorem trim_eq_self {s : String} {a b : Char} {t t' : List Char} (hfirst : s.toList = a :: t)
    (hlast : s.toList = t' ++ [b]) (ha : isSpace a = false) (hb : isSpace b = false) : trim s = s := by
  have hbegin : s.toList.dropWhile isSpace = s.toList := by
    rw [hfirst, List.dropWhile_cons_of_neg (by rw [ha]; exact Bool.false_ne_true)]
  have hend : s.toList.reverse.dropWhile isSpace = s.toList.reverse := by
    rw [hlast, List.reverse_append, List.reverse_singleton, List.singleton_append,
      List.dropWhile_cons_of_neg (by rw [hb]; exact Bool.false_ne_true)]
  rw [trim, hbegin, hend, List.reverse_reverse, String.ofList_toList]

theorem trim_trim (s : String) : trim (trim s) = trim s := by
  have htrim (t : String) : trim t = String.ofList ((t.toList.dropWhile isSpace).rdropWhile isSpace) :=
    rfl
  have hhead : (((s.toList.dropWhile isSpace).rdropWhile isSpace).dropWhile isSpace) =
      (s.toList.dropWhile isSpace).rdropWhile isSpace := by
    obtain ⟨t, ht⟩ := List.rdropWhile_prefix isSpace (l := s.toList.dropWhile isSpace)
    cases hr : (s.toList.dropWhile isSpace).rdropWhile isSpace with
    | nil => rfl
    | cons a r =>
      rw [hr, List.cons_append] at ht
      have ha := List.head?_dropWhile_not isSpace s.toList
      rw [← ht] at ha
      exact List.dropWhile_cons_of_neg (by simpa using ha)
  rw [htrim (trim s), htrim s, String.toList_ofList, hhead, List.rdropWhile_idempotent]

theorem nullableString_idem {value : Option String} {s : String} (h : nullableString value = some s) :
    nullableString (some s) = some s := by
  obtain ⟨v, -, hv⟩ := Option.bind_eq_some_iff.mp h
  split at hv
  · cases hv
  · next hne =>
    obtain rfl := Option.some.inj hv
    exact nullableString_of_trimmed (trim_trim v) hne

theorem trim_of_forall {s : String} (hs : ∀ c ∈ s.toList, isSpace c = false) : trim s = s := by
  have hdrop (l : List Char) (hl : ∀ c ∈ l, isSpace c = false) : l.dropWhile isSpace = l := by
    cases l with
    | nil => rfl
    | cons c l =>
      exact List.dropWhile_cons_of_neg (by rw [hl c List.mem_cons_self]; exact Bool.false_ne_true)
  rw [trim, hdrop _ hs, hdrop _ fun c hc => hs c (List.mem_reverse.mp hc), List.reverse_reverse,
    String.ofList_toList]

theorem beginsWith_append (s start : String) : beginsWith (start ++ s) start = true := by
  simp [beginsWith]

theorem split_join {c : Char} {parts : List String} (hparts : ∀ p ∈ parts, c ∉ p.toList)
    (hne : parts ≠ []) : split c (join c parts) = parts := by
  rw [split, join, String.toList_ofList, List.splitOn_intercalate c _ (by simpa using hne),
    List.map_map]
  · simp
  · intro l hl
    obtain ⟨p, hp, rfl⟩ := List.mem_map.mp hl
    exact hparts p hp

theorem join_split (c : Char) (s : String) : join c (split c s) = s := by
  rw [join, split, List.map_map]
  simp

theorem join_cons (c : Char) (p : String) {parts : List String} (hne : parts ≠ []) :
    join c (p :: parts) = p ++ String.singleton c ++ join c parts := by
  obtain ⟨q, parts, rfl⟩ := List.exists_cons_of_ne_nil hne
  apply String.toList_injective
  simp [join, List.intercalate_cons_cons]

theorem join_concat (c : Char) (p : String) {parts : List String} (hne : parts ≠ []) :
    join c (parts ++ [p]) = join c parts ++ String.singleton c ++ p := by
  induction parts with
  | nil => exact absurd rfl hne
  | cons q parts ih =>
    cases parts with
    | nil =>
      apply String.toList_injective
      simp [join, List.intercalate_cons_cons]
    | cons r parts =>
      have hall := join_cons c q (List.cons_ne_nil r (parts ++ [p]))
      have hinit := join_cons c q (List.cons_ne_nil r parts)
      rw [List.cons_append] at ih ⊢
      rw [List.cons_append, hall, ih (by simp), hinit]
      simp only [String.append_assoc]

theorem mem_join {c d : Char} {p : String} {parts : List String} (hp : p ∈ parts) (hd : d ∈ p.toList) :
    d ∈ (join c parts).toList := by
  induction parts with
  | nil => cases hp
  | cons q parts ih =>
    cases parts with
    | nil =>
      rw [List.mem_singleton.mp hp] at hd
      simpa [join] using hd
    | cons r parts =>
      rw [join_cons c q (List.cons_ne_nil r parts), String.toList_append, String.toList_append,
        List.mem_append, List.mem_append]
      rcases List.mem_cons.mp hp with rfl | hp
      · exact .inl (.inl hd)
      · exact .inr (ih hp)

end Maxim.Library
