import LanRoom.Go.JsonString

/-! # Structs of `encoding/json`

`Unmarshal` into strings, integers, slices, pointers and structs, and the parts that `Marshal` puts
together. An error of any part is the error of the whole, so that no value is left half read. -/

namespace LanRoom.Go

open JsonText (Json IsText IsInt IsNat)

/-! ## Reading -/

/-- How a value is read into a variable that has a value already; `none` is an error. -/
abbrev Decoder (α : Type) := α → Json → Option α

variable {α F : Type}

def decodeString : Decoder GoString
  | old, .null => some old
  | _, .str text => some (unquote text)
  | _, _ => none

/-- An `int64`. -/
def decodeInt : Decoder ℤ
  | old, .null => some old
  | _, .num text => parseInt text
  | _, _ => none

/-- A pointer; `zero` is what a new variable holds. -/
def decodePointer (zero : α) (decode : Decoder α) : Decoder (Option α)
  | _, .null => some none
  | old, v => (decode (old.getD zero) v).map some

/-- A slice: the elements that its array holds, and how many of them belong to it. -/
structure Slice (α : Type) where
  array : List α := []
  length : ℕ := 0

/-- The elements of a slice. -/
def Slice.elements (s : Slice α) : List α := s.array.take s.length

/-- Every value is read into the element at its place, which keeps what it holds already; `zero` is
what an element holds that has not been used. -/
def decodeElements (zero : α) (decode : Decoder α) : List α → List Json → Option (List α)
  | _, [] => some []
  | array, v :: vs =>
      (decode (array.head?.getD zero) v).bind fun x =>
        (decodeElements zero decode array.tail vs).map fun xs => x :: xs

/-- A slice becomes shorter or longer within its array, so that elements that an earlier member of
the same name has left behind come back. No value, or an empty one, starts with a new array. -/
def decodeSlice (zero : α) (decode : Decoder α) : Decoder (Slice α)
  | _, .null => some {}
  | _, .arr [] => some {}
  | old, .arr vs =>
      (decodeElements zero decode old.array vs).map fun xs =>
        { array := xs ++ old.array.drop vs.length, length := vs.length }
  | _, _ => none

/-- The fields of a struct, in their order, and the names of their members. -/
structure Fields (F : Type) where
  all : List F
  name : F → GoString
  plain : ∀ f ∈ all, ∀ b ∈ name f, isPlainAscii b = true
  /-- No two names are equal without regard to case. -/
  distinct : (all.map fun f => foldName (name f)).Nodup

/-- The field that a member is read into. -/
def Fields.find (fs : Fields F) (name : Bytes) : Option F :=
  fs.all.find? fun f => decide (foldName name = foldName (fs.name f))

/-- A struct: unknown members are skipped. -/
def decodeStruct (fs : Fields F) (decode : F → Decoder α) : Decoder α
  | old, .null => some old
  | old, .obj ms => ms.foldlM (fun x m => match fs.find m.1 with
      | none => some x
      | some f => decode f x m.2) old
  | _, _ => none

/-- `maxNestingDepth`. -/
def maxNestingDepth : ℕ := 10000

mutual

/-- How deep arrays and objects are nested. -/
def depth : Json → ℕ
  | .arr vs => itemsDepth vs + 1
  | .obj ms => membersDepth ms + 1
  | _ => 0

def itemsDepth : List Json → ℕ
  | [] => 0
  | v :: vs => max (depth v) (itemsDepth vs)

def membersDepth : List (Bytes × Json) → ℕ
  | [] => 0
  | (_, v) :: ms => max (depth v) (membersDepth ms)

end

/-- `Unmarshal` into a new variable. -/
def unmarshal (zero : α) (decode : Decoder α) (data : Bytes) : Option α :=
  match JsonText.parse data with
  | none => none
  | some v => if maxNestingDepth < depth v then none else decode zero v

/-! ## Writing -/

def stringJson (s : GoString) : Json := .str (quoteText s)

def intJson (n : ℤ) : Json := .num (formatInt n)

/-- `omitempty`. -/
def omitEmpty (empty : Bool) (v : Json) : Option Json := if empty then none else some v

/-- The members of a struct; a field without a value is left out. -/
def structMembers (fs : Fields F) (value : F → Option Json) : List (Bytes × Json) :=
  fs.all.filterMap fun f => (value f).map fun v => (fs.name f, v)

def structJson (fs : Fields F) (value : F → Option Json) : Json := .obj (structMembers fs value)

/-! ## Spelled values -/

/-- The strings of a value are spelled, and its numbers are integers. -/
inductive Spelled : Json → Prop
  | null : Spelled .null
  | bool (b : Bool) : Spelled (.bool b)
  | num {text : Bytes} (h : IsInt text) : Spelled (.num text)
  | str {text : Bytes} {cs : List (Option Char)} (h : Spells text cs) : Spelled (.str text)
  | arr {vs : List Json} (h : ∀ v ∈ vs, Spelled v) : Spelled (.arr vs)
  | obj {ms : List (Bytes × Json)} (hkeys : ∀ m ∈ ms, ∃ cs, Spells m.1 cs)
      (hvalues : ∀ m ∈ ms, Spelled m.2) : Spelled (.obj ms)

/-- They can be read back. A spelled value is in particular one of the grammar, for which reading
inverts writing. -/
theorem Spelled.wellFormed {v : Json} (h : Spelled v) : v.WellFormed := by
  induction h with
  | null => exact .null
  | bool b => exact .bool b
  | num h => exact .num h
  | str h => exact .str h.isText
  | arr _ ih => exact .arr ih
  | obj hkeys _ ih =>
    refine .obj ?_ ih
    intro m hm
    obtain ⟨cs, h⟩ := hkeys m hm
    exact h.isText

/-- The items of an array, put together, are valid UTF-8. The commas between them are ASCII. -/
theorem isUtf8_renderItems {vs : List Json} (h : ∀ v ∈ vs, IsUtf8 v.render) :
    IsUtf8 (JsonText.renderItems vs) := by
  induction vs with
  | nil => exact isUtf8_nil
  | cons v vs ih =>
    rw [List.forall_mem_cons] at h
    cases vs with
    | nil => exact h.1
    | cons w vs => exact h.1.append (.cons (by decide) (ih h.2))

/-- So are the members of an object. The quotes, colons and commas around them are ASCII, and the
names are spelled. -/
theorem isUtf8_renderMembers {ms : List (Bytes × Json)} (hkeys : ∀ m ∈ ms, ∃ cs, Spells m.1 cs)
    (h : ∀ m ∈ ms, IsUtf8 m.2.render) : IsUtf8 (JsonText.renderMembers ms) := by
  induction ms with
  | nil => exact isUtf8_nil
  | cons m ms ih =>
    obtain ⟨key, v⟩ := m
    rw [List.forall_mem_cons] at h hkeys
    obtain ⟨cs, hkey⟩ := hkeys.1
    cases ms with
    | nil => exact .cons (by decide) (hkey.isUtf8.append (.cons (by decide) (.cons (by decide) h.1)))
    | cons m ms =>
      exact .cons (by decide) (hkey.isUtf8.append (.cons (by decide) (.cons (by decide)
        (h.1.append (.cons (by decide) (ih hkeys.2 h.2))))))

/-- An integer is written in ASCII. Its bytes are digits and at most one sign. -/
theorem isUtf8_of_isInt {text : Bytes} (h : IsInt text) : IsUtf8 text := by
  have hnat : ∀ digits, IsNat digits → IsUtf8 digits := by
    rintro digits (rfl | ⟨-, hall, -⟩)
    · exact isUtf8_of_all rfl
    · apply isUtf8_of_ascii
      intro b hb
      have hdigit := hall b hb
      simp only [JsonText.isDigit, Bool.and_eq_true, decide_eq_true_eq] at hdigit
      exact UInt8.lt_of_le_of_lt hdigit.2 (by decide)
  rcases h with h | ⟨digits, rfl, h⟩
  · exact hnat text h
  · exact .cons (by decide) (hnat digits h)

/-- They are written in UTF-8. The induction follows the value; strings are valid because what
spells is. -/
theorem Spelled.isUtf8 {v : Json} (h : Spelled v) : IsUtf8 v.render := by
  induction h with
  | null => exact isUtf8_of_all rfl
  | bool b =>
    cases b
    all_goals exact isUtf8_of_all rfl
  | num h => exact isUtf8_of_isInt h
  | str h => exact .cons (by decide) (h.isUtf8.append (.cons (by decide) isUtf8_nil))
  | arr _ ih => exact .cons (by decide) ((isUtf8_renderItems ih).append (.cons (by decide) isUtf8_nil))
  | obj hkeys _ ih =>
    exact .cons (by decide) ((isUtf8_renderMembers hkeys ih).append (.cons (by decide) isUtf8_nil))

/-! ## Lemmas -/

variable {fs : Fields F} {decode : F → Decoder α} {x : α} {f : F} {v : Json} {ms : List (Bytes × Json)}

/-- A member with the name of a field is read into it. The search by exact name comes first, so the
search without regard to case is not reached. -/
theorem Fields.find_name (fs : Fields F) (hf : f ∈ fs.all) : fs.find (fs.name f) = some f := by
  have hdistinct := fs.distinct
  unfold Fields.find
  generalize fs.all = all at hf hdistinct
  induction all with
  | nil => exact absurd hf List.not_mem_nil
  | cons g all ih =>
    rw [List.map_cons, List.nodup_cons] at hdistinct
    by_cases hg : foldName (fs.name f) = foldName (fs.name g)
    · rcases List.mem_cons.mp hf with rfl | hf
      · exact List.find?_cons_of_pos (by simp)
      · exact absurd (List.mem_map.mpr ⟨f, hf, hg⟩) hdistinct.1
    · have hne : f ∈ all := by
        rcases List.mem_cons.mp hf with rfl | hf
        · exact absurd rfl hg
        · exact hf
      rw [List.find?_cons_of_neg (by simpa using hg)]
      exact ih hne hdistinct.2

/-- One member after the other. What is read of the later members does not depend on the earlier
ones except through the struct. -/
theorem decodeStruct_cons {name : Bytes} {y : α} (hf : f ∈ fs.all) (hname : fs.name f = name)
    (h : decode f x v = some y) :
    decodeStruct fs decode x (.obj ((name, v) :: ms)) = decodeStruct fs decode y (.obj ms) := by
  subst hname
  simp only [decodeStruct, List.foldlM_cons, fs.find_name hf, h]
  rfl

/-- An object without members leaves the struct as it was. The fields that no member names keep the
values they had, as `Unmarshal` documents. -/
theorem decodeStruct_nil : decodeStruct fs decode x (.obj []) = some x := rfl

/-- Every integer is written as one. The two cases are that of a natural number and that of a minus
sign in front of one. -/
theorem isInt_formatInt (n : ℤ) : IsInt (formatInt n) := by
  by_cases h : n < 0
  · right
    have hnat := isNat_formatInt (Int.natCast_nonneg n.natAbs)
    rw [formatInt, if_neg (by omega), Int.natAbs_natCast] at hnat
    exact ⟨formatNat n.natAbs, by rw [formatInt, if_pos h], hnat⟩
  · exact Or.inl (isNat_formatInt (by omega))

/-- A marshalled string is spelled as the grammar has it. It is an instance of the fact that quoting
spells the runes. -/
theorem spelled_stringJson (s : GoString) : Spelled (stringJson s) := .str (spells_quoteText s)

/-- A marshalled integer is spelled as the grammar has it. Timestamps and sizes are the integers it
is used for. -/
theorem spelled_intJson (n : ℤ) : Spelled (intJson n) := .num (isInt_formatInt n)

/-- A text is read as the string that it spells. The value that the field had before does not
matter. -/
theorem decodeString_of_spells {text : Bytes} {cs : List (Option Char)} (h : Spells text cs)
    (old : GoString) : decodeString old (.str text) = some (restored cs) :=
  congrArg some h.unquote_eq

/-- An integer that fits the type is read back. Times since 1970 and sizes are never negative. -/
theorem decodeInt_intJson {n : ℤ} (hpos : 0 ≤ n) (h : n < 2 ^ 63) (old : ℤ) :
    decodeInt old (intJson n) = some n :=
  parseInt_formatInt hpos h

/-- What is written for a struct. It is one member for each field that is not omitted, under the
name of its tag. -/
theorem mem_structMembers {value : F → Option Json} {m : Bytes × Json} :
    m ∈ structMembers fs value ↔ ∃ f ∈ fs.all, ∃ v, value f = some v ∧ m = (fs.name f, v) := by
  unfold structMembers
  rw [List.mem_filterMap]
  constructor
  · rintro ⟨f, hf, hm⟩
    obtain ⟨v, hv, rfl⟩ := Option.map_eq_some_iff.mp hm
    exact ⟨f, hf, v, hv, rfl⟩
  · rintro ⟨f, hf, v, hv, rfl⟩
    exact ⟨f, hf, by rw [hv, Option.map_some]⟩

/-- A marshalled struct is spelled when its fields are. The names of the fields are plain ASCII, so
they spell themselves. -/
theorem spelled_structJson {value : F → Option Json} (h : ∀ f v, value f = some v → Spelled v) :
    Spelled (structJson fs value) := by
  refine .obj ?_ ?_
  · intro m hm
    obtain ⟨f, hf, v, -, rfl⟩ := mem_structMembers.mp hm
    exact ⟨_, spells_of_plain (fs.plain f hf)⟩
  · intro m hm
    obtain ⟨f, -, v, hv, rfl⟩ := mem_structMembers.mp hm
    exact h f v hv

/-- A marshalled slice is spelled when its elements are. This is the step from an element to a list
of them. -/
theorem spelled_arr {β : Type} {write : β → Json} (h : ∀ x, Spelled (write x)) (xs : List β) :
    Spelled (.arr (xs.map write)) := by
  apply Spelled.arr
  intro v hv
  obtain ⟨x, -, rfl⟩ := List.mem_map.mp hv
  exact h x

/-- The elements of a new array are what has been written. With no earlier elements to reuse each
one is decoded into a zero value. -/
theorem decodeElements_map {β : Type} (zero : α) (decode : Decoder α) (write : β → Json)
    (read : β → α) (xs : List β) (h : ∀ x ∈ xs, decode zero (write x) = some (read x)) :
    decodeElements zero decode [] (xs.map write) = some (xs.map read) := by
  induction xs with
  | nil => rfl
  | cons x xs ih =>
    rw [List.forall_mem_cons] at h
    rw [List.map_cons, decodeElements, List.head?_nil, Option.getD_none, h.1, Option.bind_some,
      List.tail_nil, ih h.2]
    rfl

/-- A slice that has not been used is read as what has been written. The slice of a fresh struct is
such a slice, so no element of an earlier member can shine through. -/
theorem decodeSlice_map {β : Type} (zero : α) (decode : Decoder α) (write : β → Json) (read : β → α)
    (xs : List β) (h : ∀ x ∈ xs, decode zero (write x) = some (read x)) :
    decodeSlice zero decode {} (.arr (xs.map write)) =
      some { array := xs.map read, length := xs.length } := by
  cases xs with
  | nil => rfl
  | cons x xs =>
    have hstep : decodeSlice zero decode {} (.arr ((x :: xs).map write)) =
        (decodeElements zero decode [] ((x :: xs).map write)).map fun ys =>
          { array := ys ++ [], length := ((x :: xs).map write).length } := rfl
    rw [hstep, decodeElements_map zero decode write read (x :: xs) h, Option.map_some,
      List.append_nil, List.length_map]

/-- The second member of a name is read into the elements of the first: what `null` leaves alone, and
what has been cut off before, is still there. -/
example : (do
    let first ← decodeSlice [] decodeString {} (.arr [.str [0x61], .str [0x62]])
    let second ← decodeSlice [] decodeString first (.arr [.str [0x63]])
    let third ← decodeSlice [] decodeString second (.arr [.null, .null])
    return third.elements) = some [[0x63], [0x62]] := by
  decide +kernel

/-- What is read is the value that was written, if it is not nested too deep. Reading the text of a
value and decoding it is decoding the value, up to the nesting limit of the package. -/
theorem unmarshal_render (zero : α) (decode : Decoder α) (hv : Spelled v)
    (hdepth : depth v ≤ maxNestingDepth) : unmarshal zero decode v.render = decode zero v := by
  rw [unmarshal, JsonText.parse_of_wellFormed hv.wellFormed]
  exact if_neg (Nat.not_lt.mpr hdepth)

end LanRoom.Go
