import Mathlib.Data.List.Basic
import Mathlib.Data.List.TakeWhile

/-!
# Reading HTML

A text is a list of code units. The reader takes it apart into start tags, end
tags and characters, with the references undone. A walk over the result gives
every character and every start tag the elements that are open there.
-/

namespace Maxim.Library.Html

abbrev Units := List Nat

def units (s : String) : Units := s.toList.map Char.toNat

structure Tag where
  name : Units
  attributes : List (Units × Units)
  deriving DecidableEq

inductive Token
  | start (tag : Tag)
  | close (name : Units)
  | char (c : Nat)
  deriving DecidableEq

/-- The character of a reference. A space that may not be collapsed is a space. -/
def reference (name : Units) : Option Nat :=
  if name = units "amp" then some 38
  else if name = units "lt" then some 60
  else if name = units "gt" then some 62
  else if name = units "quot" then some 34
  else if name = units "#39" then some 39
  else if name = units "nbsp" then some 32
  else none

/-- The text with its references undone, after the beginning of one when there is one. -/
def unescape : Option Units → Units → Option Units
  | none, [] => some []
  | some _, [] => none
  | none, c :: s => if c = 38 then unescape (some []) s else (unescape none s).map (c :: ·)
  | some name, c :: s =>
    if c = 59 then (reference name.reverse).bind fun d => (unescape none s).map (d :: ·)
    else unescape (some (c :: name)) s

def readAttributes : Nat → Units → Option (List (Units × Units))
  | _, [] => some []
  | 0, _ :: _ => none
  | fuel + 1, c :: s =>
    let name := s.takeWhile (· ≠ 61)
    let value := (s.drop (name.length + 2)).takeWhile (· ≠ 34)
    if c = 32 ∧ (s.drop name.length).take 2 = [61, 34] ∧
        ((s.drop (name.length + 2)).drop value.length).head? = some 34 then
      (unescape none value).bind fun v =>
        (readAttributes fuel ((s.drop (name.length + 2)).drop (value.length + 1))).map ((name, v) :: ·)
    else none

def isNameUnit (c : Nat) : Bool := (97 ≤ c && c ≤ 122) || (48 ≤ c && c ≤ 57)

/-- What stands between the brackets of a tag. -/
def readTag (raw : Units) : Option Token :=
  if raw.head? = some 47 then
    if raw.tail ≠ [] ∧ raw.tail.all isNameUnit then some (.close raw.tail) else none
  else
    let name := raw.takeWhile isNameUnit
    if name = [] then none
    else (readAttributes raw.length (raw.drop name.length)).map fun attributes => .start ⟨name, attributes⟩

inductive Mode
  | text
  | tag (raw : Units)
  | ref (name : Units)

/-- The reader. `plain` are the characters that may stand for themselves. -/
def read (plain : Nat → Bool) : Mode → Units → Option (List Token)
  | .text, [] => some []
  | .tag _, [] => none
  | .ref _, [] => none
  | .text, c :: s =>
    if c = 60 then read plain (.tag []) s
    else if c = 38 then read plain (.ref []) s
    else if plain c then (read plain .text s).map (.char c :: ·)
    else none
  | .tag raw, c :: s =>
    if c = 62 then (readTag raw.reverse).bind fun t => (read plain .text s).map (t :: ·)
    else if c = 60 then none
    else read plain (.tag (c :: raw)) s
  | .ref name, c :: s =>
    if c = 59 then (reference name.reverse).bind fun d => (read plain .text s).map (.char d :: ·)
    else read plain (.ref (c :: name)) s

/-- The start tags and the characters with the elements that are open there, the innermost first. `none` when
an end tag does not fit, or an element stays open. -/
def walk (void : Units → Bool) : List Tag → List Token → Option (List (List Tag × Token))
  | [], [] => some []
  | _ :: _, [] => none
  | stack, .start tag :: rest =>
    (walk void (if void tag.name then stack else tag :: stack) rest).map ((stack, .start tag) :: ·)
  | [], .close _ :: _ => none
  | tag :: stack, .close name :: rest => if tag.name = name then walk void stack rest else none
  | stack, .char c :: rest => (walk void stack rest).map ((stack, .char c) :: ·)

def chars (events : List (List Tag × Token)) : List (List Tag × Nat) :=
  events.filterMap fun
    | (stack, .char c) => some (stack, c)
    | _ => none

/-! ## What is read -/

variable {plain : Nat → Bool} {void : Units → Bool}

theorem read_text (c : Nat) (s : Units) :
    read plain .text (c :: s) =
      if c = 60 then read plain (.tag []) s
      else if c = 38 then read plain (.ref []) s
      else if plain c then (read plain .text s).map (.char c :: ·)
      else none := rfl

theorem read_tag (raw : Units) (c : Nat) (s : Units) :
    read plain (.tag raw) (c :: s) =
      if c = 62 then (readTag raw.reverse).bind fun t => (read plain .text s).map (t :: ·)
      else if c = 60 then none
      else read plain (.tag (c :: raw)) s := rfl

theorem read_ref (name : Units) (c : Nat) (s : Units) :
    read plain (.ref name) (c :: s) =
      if c = 59 then (reference name.reverse).bind fun d => (read plain .text s).map (.char d :: ·)
      else read plain (.ref (c :: name)) s := rfl

/-- A piece of a text is read as some tokens, whatever follows it. -/
def Reads (plain : Nat → Bool) (x : Units) (ts : List Token) : Prop :=
  ∀ s, read plain .text (x ++ s) = (read plain .text s).map (ts ++ ·)

theorem Reads.nil : Reads plain [] [] := by
  intro s
  simp

theorem Reads.append {x y : Units} {ts us : List Token} (hx : Reads plain x ts) (hy : Reads plain y us) :
    Reads plain (x ++ y) (ts ++ us) := by
  intro s
  rw [List.append_assoc, hx, hy, Option.map_map]
  exact congrArg (Option.map · _) (funext fun r => (List.append_assoc ts us r).symm)

theorem Reads.flatMap {α : Type} {f : α → Units} {g : α → List Token} {l : List α}
    (h : ∀ a ∈ l, Reads plain (f a) (g a)) : Reads plain (l.flatMap f) (l.flatMap g) := by
  induction l with
  | nil => exact .nil
  | cons a l ih =>
    rw [List.flatMap_cons, List.flatMap_cons]
    exact (h a List.mem_cons_self).append (ih fun b hb => h b (List.mem_cons_of_mem a hb))

theorem Reads.read_eq {x : Units} {ts : List Token} (h : Reads plain x ts) : read plain .text x = some ts := by
  have h := h []
  simpa [read] using h

theorem reads_char {c : Nat} (hopen : c ≠ 60) (hamp : c ≠ 38) (hplain : plain c = true) :
    Reads plain [c] [.char c] := by
  intro s
  rw [List.singleton_append, read_text, if_neg hopen, if_neg hamp, if_pos hplain]
  rfl

theorem reads_reference {name : Units} {d : Nat} (hname : 59 ∉ name) (hd : reference name = some d) :
    Reads plain (38 :: name ++ [59]) [.char d] := by
  have hrest : ∀ (rest acc s : Units), 59 ∉ rest →
      read plain (.ref acc) (rest ++ 59 :: s) =
        (reference (acc.reverse ++ rest)).bind fun d => (read plain .text s).map (.char d :: ·) := by
    intro rest
    induction rest with
    | nil =>
      intro acc s _
      rw [List.nil_append, read_ref, if_pos rfl, List.append_nil]
    | cons c rest ih =>
      intro acc s hmem
      obtain ⟨hc, hmem⟩ := List.ne_and_not_mem_of_not_mem_cons hmem
      rw [List.cons_append, read_ref, if_neg (Ne.symm hc), ih _ _ hmem, List.reverse_cons, List.append_assoc,
        List.singleton_append]
  intro s
  rw [List.append_assoc, List.singleton_append, List.cons_append, read_text, if_neg (by decide), if_pos rfl,
    hrest name [] s hname, List.reverse_nil, List.nil_append, hd]
  rfl

theorem reads_tag {raw : Units} {t : Token} (hopen : 60 ∉ raw) (hclose : 62 ∉ raw) (ht : readTag raw = some t) :
    Reads plain (60 :: raw ++ [62]) [t] := by
  have hrest : ∀ (rest acc s : Units), 60 ∉ rest → 62 ∉ rest →
      read plain (.tag acc) (rest ++ 62 :: s) =
        (readTag (acc.reverse ++ rest)).bind fun t => (read plain .text s).map (t :: ·) := by
    intro rest
    induction rest with
    | nil =>
      intro acc s _ _
      rw [List.nil_append, read_tag, if_pos rfl, List.append_nil]
    | cons c rest ih =>
      intro acc s hopen hclose
      obtain ⟨hc, hopen⟩ := List.ne_and_not_mem_of_not_mem_cons hopen
      obtain ⟨hc', hclose⟩ := List.ne_and_not_mem_of_not_mem_cons hclose
      rw [List.cons_append, read_tag, if_neg (Ne.symm hc'), if_neg (Ne.symm hc), ih _ _ hopen hclose,
        List.reverse_cons, List.append_assoc, List.singleton_append]
  intro s
  rw [List.append_assoc, List.singleton_append, List.cons_append, read_text, if_pos rfl, hrest raw [] s hopen hclose,
    List.reverse_nil, List.nil_append, ht]
  rfl

theorem isNameUnit_ne {name : Units} (hname : name.all isNameUnit = true) {c : Nat} (hc : isNameUnit c = false) :
    c ∉ name := by
  intro hmem
  rw [List.all_eq_true.mp hname c hmem] at hc
  exact Bool.false_ne_true hc.symm

theorem reads_start {name : Units} (hne : name ≠ []) (hname : name.all isNameUnit = true) :
    Reads plain (60 :: name ++ [62]) [.start ⟨name, []⟩] := by
  apply reads_tag (isNameUnit_ne hname (by decide)) (isNameUnit_ne hname (by decide))
  have htake : name.takeWhile isNameUnit = name := List.takeWhile_eq_self_iff.mpr (List.all_eq_true.mp hname)
  have hslash : name.head? ≠ some 47 := fun h => isNameUnit_ne hname (by decide) (List.mem_of_mem_head? h)
  rw [readTag, if_neg hslash]
  simp only [htake, if_neg hne, List.drop_length]
  cases name <;> rfl

theorem reads_end {name : Units} (hne : name ≠ []) (hname : name.all isNameUnit = true) :
    Reads plain (60 :: 47 :: name ++ [62]) [.close name] := by
  have hmem : ∀ c, c ≠ 47 → isNameUnit c = false → c ∉ 47 :: name := fun c hc hunit =>
    List.not_mem_cons_of_ne_of_not_mem hc (isNameUnit_ne hname hunit)
  apply reads_tag (hmem 60 (by decide) (by decide)) (hmem 62 (by decide) (by decide))
  rw [readTag]
  exact (if_pos rfl).trans (if_pos ⟨hne, hname⟩)

/-! ## What is walked -/

/-- Some tokens take one stack to another, whatever follows them. -/
def Walks (void : Units → Bool) (stack : List Tag) (ts : List Token) (stack' : List Tag)
    (events : List (List Tag × Token)) : Prop :=
  ∀ us, walk void stack (ts ++ us) = (walk void stack' us).map (events ++ ·)

theorem Walks.nil (stack : List Tag) : Walks void stack [] stack [] := by
  intro us
  simp

theorem Walks.append {stack stack' stack'' : List Tag} {ts us : List Token} {es fs : List (List Tag × Token)}
    (h : Walks void stack ts stack' es) (h' : Walks void stack' us stack'' fs) :
    Walks void stack (ts ++ us) stack'' (es ++ fs) := by
  intro vs
  rw [List.append_assoc, h, h', Option.map_map]
  exact congrArg (Option.map · _) (funext fun r => (List.append_assoc es fs r).symm)

theorem Walks.walk_eq {stack : List Tag} {ts : List Token} {es : List (List Tag × Token)}
    (h : Walks void stack ts [] es) : walk void stack ts = some es := by
  have h := h []
  simpa [walk] using h

theorem walks_char (stack : List Tag) (c : Nat) : Walks void stack [.char c] stack [(stack, .char c)] := by
  intro us
  cases stack <;> rfl

theorem walks_chars (stack : List Tag) (s : Units) :
    Walks void stack (s.map .char) stack (s.map fun c => (stack, .char c)) := by
  induction s with
  | nil => exact .nil stack
  | cons c s ih => exact (walks_char stack c).append ih

theorem walks_start (stack : List Tag) {tag : Tag} (hvoid : void tag.name = false) :
    Walks void stack [.start tag] (tag :: stack) [(stack, .start tag)] := by
  intro us
  cases stack <;> simp [walk, hvoid]

theorem walks_void (stack : List Tag) {tag : Tag} (hvoid : void tag.name = true) :
    Walks void stack [.start tag] stack [(stack, .start tag)] := by
  intro us
  cases stack <;> simp [walk, hvoid]

theorem walks_close (stack : List Tag) (tag : Tag) : Walks void (tag :: stack) [.close tag.name] stack [] := by
  intro us
  simp [walk]

theorem walks_starts (stack : List Tag) {tags : List Tag} (hvoid : ∀ tag ∈ tags, void tag.name = false) :
    ∃ es, Walks void stack (tags.map .start) (tags.reverse ++ stack) es ∧ chars es = [] := by
  induction tags generalizing stack with
  | nil => exact ⟨[], .nil stack, rfl⟩
  | cons tag tags ih =>
    obtain ⟨es, hes, hchars⟩ := ih (tag :: stack) fun t ht => hvoid t (List.mem_cons_of_mem tag ht)
    rw [List.reverse_cons, List.append_assoc, List.singleton_append]
    exact ⟨_, (walks_start stack (hvoid tag List.mem_cons_self)).append hes, hchars⟩

theorem walks_closes (stack tags : List Tag) :
    Walks void (tags ++ stack) (tags.map fun tag => .close tag.name) stack [] := by
  induction tags with
  | nil => exact .nil stack
  | cons tag tags ih => exact (walks_close (tags ++ stack) tag).append ih

theorem walks_switch (stay old new : List Tag) (hvoid : ∀ tag ∈ new, void tag.name = false) :
    ∃ es, Walks void (stay ++ old).reverse ((old.reverse.map fun tag => .close tag.name) ++ new.map .start)
      (stay ++ new).reverse es ∧ chars es = [] := by
  obtain ⟨es, hes, hchars⟩ := walks_starts stay.reverse hvoid
  rw [List.reverse_append, List.reverse_append]
  exact ⟨es, (walks_closes stay.reverse old.reverse).append hes, hchars⟩

@[simp]
theorem chars_append (es fs : List (List Tag × Token)) : chars (es ++ fs) = chars es ++ chars fs :=
  List.filterMap_append

theorem chars_map_char (stack : List Tag) (s : Units) :
    chars (s.map fun c => (stack, .char c)) = s.map fun c => (stack, c) := by
  induction s with
  | nil => rfl
  | cons c s ih => exact congrArg ((stack, c) :: ·) ih

end Maxim.Library.Html
