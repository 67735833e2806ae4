import Mathlib

/-! # JSON texts

The grammar of JSON over bytes (`parse`). Strings and numbers are kept as they are written: what they
mean is up to the language that reads them.

A flat object, written without spaces (`renderObject`), is read back (`parse_renderObject`). -/

namespace JsonText

/-- A JSON value, with the texts of its strings (without the quotation marks) and numbers. -/
inductive Json
  | null
  | bool (b : Bool)
  | num (text : List UInt8)
  | str (text : List UInt8)
  | arr (items : List Json)
  | obj (members : List (List UInt8 × Json))

/-- The value is `null`. -/
def Json.isNull : Json → Bool
  | .null => true
  | _ => false

/-! ## Bytes -/

def quote : UInt8 := 0x22

def backslash : UInt8 := 0x5C

def comma : UInt8 := 0x2C

def colon : UInt8 := 0x3A

def leftBrace : UInt8 := 0x7B

def rightBrace : UInt8 := 0x7D

def leftBracket : UInt8 := 0x5B

def rightBracket : UInt8 := 0x5D

/-- Space, tab, line feed and carriage return. -/
def isSpace (b : UInt8) : Bool := b == 0x20 || b == 0x09 || b == 0x0A || b == 0x0D

def isDigit (b : UInt8) : Bool := 0x30 ≤ b && b ≤ 0x39

def isHexDigit (b : UInt8) : Bool :=
  isDigit b || (0x41 ≤ b && b ≤ 0x46) || (0x61 ≤ b && b ≤ 0x66)

/-- What follows a backslash, `u` apart: one of `"\/bfnrt`. -/
def isEscape (b : UInt8) : Bool := b ∈ ([0x22, 0x5C, 0x2F, 0x62, 0x66, 0x6E, 0x72, 0x74] : List UInt8)

/-! ## The grammar -/

/-- Without the spaces in front. -/
def skip (s : List UInt8) : List UInt8 := s.dropWhile isSpace

/-- What follows the byte `b`, which may have spaces in front. -/
def punct (b : UInt8) (s : List UInt8) : Option (List UInt8) :=
  match skip s with
  | [] => none
  | c :: rest => if c = b then some rest else none

/-- What follows a text at the start. -/
def literal (text s : List UInt8) : Option (List UInt8) :=
  if text.isPrefixOf s then some (s.drop text.length) else none

/-- The text of a string up to its closing quotation mark, and what follows. -/
def stringText : List UInt8 → Option (List UInt8 × List UInt8)
  | [] => none
  | b :: s =>
      if b = quote then some ([], s)
      else if b < 0x20 then none
      else if b = backslash then
        match s with
        | 0x75 :: h₁ :: h₂ :: h₃ :: h₄ :: s =>
            if [h₁, h₂, h₃, h₄].all isHexDigit then
              (stringText s).map fun x => (b :: 0x75 :: h₁ :: h₂ :: h₃ :: h₄ :: x.1, x.2)
            else none
        | e :: s => if isEscape e then (stringText s).map fun x => (b :: e :: x.1, x.2) else none
        | [] => none
      else (stringText s).map fun x => (b :: x.1, x.2)

/-- Digits, at least one. -/
def digits (s : List UInt8) : Option (List UInt8 × List UInt8) :=
  if s.takeWhile isDigit = [] then none else some (s.takeWhile isDigit, s.dropWhile isDigit)

/-- The integer part of a number: no zero in front of other digits. -/
def intPart : List UInt8 → Option (List UInt8 × List UInt8)
  | [] => none
  | b :: s => if b = 0x30 then some ([b], s) else digits (b :: s)

/-- An optional fraction. -/
def fracPart : List UInt8 → Option (List UInt8 × List UInt8)
  | [] => some ([], [])
  | b :: s => if b = 0x2E then (digits s).map fun x => (b :: x.1, x.2) else some ([], b :: s)

/-- An optional sign. -/
def sign : List UInt8 → List UInt8 × List UInt8
  | [] => ([], [])
  | b :: s => if b = 0x2B ∨ b = 0x2D then ([b], s) else ([], b :: s)

/-- An optional exponent. -/
def expPart : List UInt8 → Option (List UInt8 × List UInt8)
  | [] => some ([], [])
  | b :: s =>
      if b = 0x65 ∨ b = 0x45 then (digits (sign s).2).map fun x => (b :: (sign s).1 ++ x.1, x.2)
      else some ([], b :: s)

/-- A minus sign in front of a number. -/
def minus : List UInt8 → List UInt8 × List UInt8
  | [] => ([], [])
  | b :: s => if b = 0x2D then ([b], s) else ([], b :: s)

/-- The text of a number, and what follows. -/
def numberText (s : List UInt8) : Option (List UInt8 × List UInt8) := do
  let (i, s₁) ← intPart (minus s).2
  let (f, s₂) ← fracPart s₁
  let (e, s₃) ← expPart s₂
  return ((minus s).1 ++ i ++ f ++ e, s₃)

mutual

/-- A value and what follows. Every call consumes a byte, so that a bound above the length is never
reached. -/
def value : ℕ → List UInt8 → Option (Json × List UInt8)
  | 0, _ => none
  | n + 1, s =>
      match skip s with
      | [] => none
      | b :: rest =>
          if b = leftBrace then
            match punct rightBrace rest with
            | some r => some (.obj [], r)
            | none => (members n rest).map fun x => (.obj x.1, x.2)
          else if b = leftBracket then
            match punct rightBracket rest with
            | some r => some (.arr [], r)
            | none => (items n rest).map fun x => (.arr x.1, x.2)
          else if b = quote then (stringText rest).map fun x => (.str x.1, x.2)
          else if b = 0x6E then (literal [0x75, 0x6C, 0x6C] rest).map fun r => (.null, r)
          else if b = 0x74 then (literal [0x72, 0x75, 0x65] rest).map fun r => (.bool true, r)
          else if b = 0x66 then (literal [0x61, 0x6C, 0x73, 0x65] rest).map fun r => (.bool false, r)
          else (numberText (b :: rest)).map fun x => (.num x.1, x.2)

/-- Items of an array, and what follows its closing bracket. -/
def items : ℕ → List UInt8 → Option (List Json × List UInt8)
  | 0, _ => none
  | n + 1, s => do
      let (v, s) ← value n s
      match punct comma s with
      | some s => (items n s).map fun x => (v :: x.1, x.2)
      | none => (punct rightBracket s).map fun s => ([v], s)

/-- Members of an object, and what follows its closing brace. -/
def members : ℕ → List UInt8 → Option (List (List UInt8 × Json) × List UInt8)
  | 0, _ => none
  | n + 1, s => do
      let s ← punct quote s
      let (key, s) ← stringText s
      let s ← punct colon s
      let (v, s) ← value n s
      match punct comma s with
      | some s => (members n s).map fun x => ((key, v) :: x.1, x.2)
      | none => (punct rightBrace s).map fun s => ([(key, v)], s)

end

/-- A whole text. -/
def parse (s : List UInt8) : Option Json :=
  match value (s.length + 1) s with
  | some (v, rest) => if skip rest = [] then some v else none
  | none => none

/-! ## Writing -/

mutual

/-- A value without spaces. -/
def Json.render : Json → List UInt8
  | .null => [0x6E, 0x75, 0x6C, 0x6C]
  | .bool true => [0x74, 0x72, 0x75, 0x65]
  | .bool false => [0x66, 0x61, 0x6C, 0x73, 0x65]
  | .num text => text
  | .str text => quote :: (text ++ [quote])
  | .arr vs => leftBracket :: (renderItems vs ++ [rightBracket])
  | .obj ms => leftBrace :: (renderMembers ms ++ [rightBrace])

def renderItems : List Json → List UInt8
  | [] => []
  | [v] => v.render
  | v :: w :: vs => v.render ++ comma :: renderItems (w :: vs)

def renderMembers : List (List UInt8 × Json) → List UInt8
  | [] => []
  | [(key, v)] => quote :: (key ++ quote :: colon :: v.render)
  | (key, v) :: m :: ms => quote :: (key ++ quote :: colon :: (v.render ++ comma :: renderMembers (m :: ms)))

end

/-! ## Reading back what was written -/

/-- A byte that stands for itself in a string. -/
def isPlain (b : UInt8) : Bool := 0x20 ≤ b && b != quote && b != backslash

/-- A natural number in decimal notation. -/
def IsNat (text : List UInt8) : Prop :=
  text = [0x30] ∨ text ≠ [] ∧ (∀ b ∈ text, isDigit b = true) ∧ text.head? ≠ some 0x30

/-- A plain string or a natural number. -/
inductive Scalar : Json → Prop
  | str {text : List UInt8} (h : ∀ b ∈ text, isPlain b = true) : Scalar (.str text)
  | num {text : List UInt8} (h : IsNat text) : Scalar (.num text)

variable {n : ℕ} {b c : UInt8} {s text rest : List UInt8} {v : Json} {ms : List (List UInt8 × Json)}

/-- A character that is no space is not skipped. Reading a value begins with skipping, which does
nothing then. -/
theorem skip_cons (h : isSpace b = false) : skip (b :: s) = b :: s := by
  rw [skip, List.dropWhile_cons_of_neg]
  simp [h]

/-- A punctuation character is read where it stands. What follows it is left for the next reader. -/
theorem punct_cons (h : isSpace b = false) : punct b (b :: s) = some s := by
  rw [punct, skip_cons h]
  exact if_pos rfl

/-- Another character stands in its place. The reader fails without having consumed anything. -/
theorem punct_cons_of_ne (h : isSpace c = false) (hne : c ≠ b) : punct b (c :: s) = none := by
  rw [punct, skip_cons h]
  exact if_neg hne

/-- A plain text ends at the quotation mark. Nothing is escaped in it, so it is its own text. -/
theorem stringText_append (h : ∀ b ∈ text, isPlain b = true) :
    stringText (text ++ quote :: rest) = some (text, rest) := by
  induction text with
  | nil =>
      unfold stringText
      exact if_pos rfl
  | cons b text ih =>
      have hb := h b List.mem_cons_self
      simp only [isPlain, Bool.and_eq_true, decide_eq_true_eq, bne_iff_ne] at hb
      obtain ⟨⟨hlow, hquote⟩, hback⟩ := hb
      have hlow' : ¬b < 0x20 := UInt8.not_lt.mpr hlow
      rw [List.cons_append, stringText.eq_def]
      dsimp only
      rw [if_neg hquote, if_neg hlow', if_neg hback, ih fun c hc => h c (List.mem_cons_of_mem b hc)]
      rfl

/-- What may follow a value. -/
def Ends (rest : List UInt8) : Prop :=
  ∃ b r, rest = b :: r ∧ (b = comma ∨ b = rightBrace)

/-- Digits are read as far as they go. What follows is a comma or a brace, which is no digit. -/
theorem digits_append (hne : text ≠ []) (h : ∀ b ∈ text, isDigit b = true) (hrest : Ends rest) :
    digits (text ++ rest) = some (text, rest) := by
  obtain ⟨b, r, rfl, hb⟩ := hrest
  have hno : isDigit b = false := by rcases hb with rfl | rfl <;> rfl
  have htake : (text ++ b :: r).takeWhile isDigit = text := by
    rw [List.takeWhile_append_of_pos h, List.takeWhile_cons_of_neg (by simp [hno]), List.append_nil]
  have hdrop : (text ++ b :: r).dropWhile isDigit = b :: r := by
    rw [List.dropWhile_append_of_pos h, List.dropWhile_cons_of_neg (by simp [hno])]
  rw [digits, htake, hdrop, if_neg hne]

/-- Neither a fraction nor an exponent begins there. What follows the digits is left as it is. -/
theorem fracPart_of_ends (hrest : Ends rest) : fracPart rest = some ([], rest) := by
  obtain ⟨b, r, rfl, hb⟩ := hrest
  rcases hb with rfl | rfl <;> rfl

/-- A number that ends has no exponent. What follows the digits is left as it is. -/
theorem expPart_of_ends (hrest : Ends rest) : expPart rest = some ([], rest) := by
  obtain ⟨b, r, rfl, hb⟩ := hrest
  rcases hb with rfl | rfl <;> rfl

/-- The integer part of a number is read as far as it goes. A natural number is `0` or starts with
another digit, so no leading zero is refused. -/
theorem intPart_append (h : IsNat text) (hrest : Ends rest) :
    intPart (text ++ rest) = some (text, rest) := by
  rcases h with rfl | ⟨hne, hall, hhead⟩
  · rfl
  · cases text with
    | nil => exact absurd rfl hne
    | cons b text =>
        have hzero : b ≠ 0x30 := fun hb => hhead (congrArg some hb)
        rw [List.cons_append, intPart, if_neg hzero, ← List.cons_append]
        exact digits_append hne hall hrest

/-- The first byte of a natural number. It is how the reader of values sees that a number begins. -/
theorem IsNat.cons (h : IsNat text) : ∃ b t, text = b :: t ∧ isDigit b = true := by
  rcases h with rfl | ⟨hne, hall, -⟩
  · exact ⟨0x30, [], rfl, rfl⟩
  · cases text with
    | nil => exact absurd rfl hne
    | cons b text => exact ⟨b, text, rfl, hall b List.mem_cons_self⟩

/-- A natural number is read as a number. It has neither a sign nor a fraction nor an exponent, so
the integer part is all of it. -/
theorem numberText_append (h : IsNat text) (hrest : Ends rest) :
    numberText (text ++ rest) = some (text, rest) := by
  have hminus : minus (text ++ rest) = ([], text ++ rest) := by
    obtain ⟨b, t, rfl, hb⟩ := h.cons
    have hne : b ≠ 0x2D := by
      rintro rfl
      cases hb
    exact if_neg hne
  simp only [numberText, hminus, intPart_append h hrest, fracPart_of_ends hrest,
    expPart_of_ends hrest, Option.bind_eq_bind, Option.bind_some, List.nil_append, List.append_nil]
  rfl

/-- A scalar is read back. The scalars are the plain strings and the natural numbers, the values a
flat object may have here. -/
theorem value_scalar (hv : Scalar v) (hrest : Ends rest) (n : ℕ) :
    value (n + 1) (v.render ++ rest) = some (v, rest) := by
  cases hv with
  | str h =>
      rename_i text
      have hshape : (Json.str text).render ++ rest = quote :: (text ++ quote :: rest) := by
        simp [Json.render]
      have hskip : skip (quote :: (text ++ quote :: rest)) = quote :: (text ++ quote :: rest) :=
        skip_cons rfl
      rw [hshape]
      rw [value, hskip]
      dsimp only
      rw [if_neg (by decide), if_neg (by decide), if_pos rfl, stringText_append h]
      rfl
  | num h =>
      rename_i text
      obtain ⟨b, t, rfl, hb⟩ := h.cons
      -- a digit or a sign is no space, and starts neither a string nor a composite value
      have hall : ∀ n < 256, isDigit (UInt8.ofNat n) = true → isSpace (UInt8.ofNat n) = false ∧
          UInt8.ofNat n ∉ [leftBrace, leftBracket, quote, 0x6E, 0x74, 0x66] := by
        decide +kernel
      obtain ⟨hspace, hnot⟩ := hall b.toNat b.toNat_lt (by rwa [UInt8.ofNat_toNat])
      rw [UInt8.ofNat_toNat] at hspace hnot
      simp only [List.mem_cons, List.not_mem_nil, or_false, not_or] at hnot
      obtain ⟨h₁, h₂, h₃, h₄, h₅, h₆⟩ := hnot
      have hskip : skip (b :: t ++ rest) = b :: (t ++ rest) := skip_cons hspace
      have hnumber := numberText_append h hrest
      rw [List.cons_append] at hnumber
      simp only [Json.render, value, hskip, if_neg h₁, if_neg h₂, if_neg h₃, if_neg h₄, if_neg h₅,
        if_neg h₆, hnumber]
      rfl

/-- The members of a flat object are read back. The fuel is more than the number of members; what
follows the brace is left over. -/
theorem members_render (hne : ms ≠ []) (hkeys : ∀ m ∈ ms, ∀ b ∈ m.1, isPlain b = true)
    (hscalar : ∀ m ∈ ms, Scalar m.2) (hn : ms.length < n) :
    members n (renderMembers ms ++ rightBrace :: rest) = some (ms, rest) := by
  induction ms generalizing n with
  | nil => exact absurd rfl hne
  | cons m ms ih =>
      obtain ⟨key, v⟩ := m
      obtain ⟨n, rfl⟩ : ∃ k, n = k + 1 := ⟨n - 1, by omega⟩
      obtain ⟨k, rfl⟩ : ∃ k, n = k + 1 := ⟨n - 1, by simp at hn; omega⟩
      have hkey : ∀ r, stringText (key ++ quote :: r) = some (key, r) := fun r =>
        stringText_append (hkeys (key, v) List.mem_cons_self)
      have hv := hscalar (key, v) List.mem_cons_self
      cases ms with
      -- the last member is followed by the brace
      | nil =>
          have hvalue := value_scalar hv ⟨rightBrace, rest, rfl, .inr rfl⟩ k
          rw [members]
          simp only [renderMembers, List.cons_append, List.append_assoc,
            punct_cons (b := quote) rfl, Option.bind_eq_bind, Option.bind_some, hkey,
            punct_cons (b := colon) rfl, hvalue, punct_cons (b := rightBrace) rfl,
            punct_cons_of_ne (c := rightBrace) (b := comma) rfl (by decide)]
          rfl
      -- the others by a comma
      | cons m ms =>
          have hvalue := value_scalar hv
            ⟨comma, renderMembers (m :: ms) ++ rightBrace :: rest, rfl, .inl rfl⟩ k
          have hrest := ih (n := k + 1) (by simp) (fun m' hm' => hkeys m' (List.mem_cons_of_mem _ hm'))
            (fun m' hm' => hscalar m' (List.mem_cons_of_mem _ hm')) (by simp at hn ⊢; omega)
          rw [members]
          simp only [renderMembers, List.cons_append, List.append_assoc,
            punct_cons (b := quote) rfl, Option.bind_eq_bind, Option.bind_some, hkey,
            punct_cons (b := colon) rfl, hvalue, punct_cons (b := comma) rfl, hrest, Option.map_some]

/-- Every member takes at least one byte. The length of the text is therefore enough fuel for its
members. -/
theorem length_le_renderMembers (ms : List (List UInt8 × Json)) :
    ms.length ≤ (renderMembers ms).length := by
  induction ms with
  | nil => exact Nat.zero_le _
  | cons m ms ih =>
      obtain ⟨key, v⟩ := m
      cases ms with
      | nil => simp [renderMembers]
      | cons m ms =>
          simp only [renderMembers, List.length_cons, List.length_append] at ih ⊢
          omega

/-- **A flat object is read back.** Its names and strings are plain, and its numbers natural, so
nothing needs an escape or a sign. -/
theorem parse_render (hne : ms ≠ []) (hkeys : ∀ m ∈ ms, ∀ b ∈ m.1, isPlain b = true)
    (hscalar : ∀ m ∈ ms, Scalar m.2) : parse (Json.obj ms).render = some (.obj ms) := by
  have hshape : (Json.obj ms).render = leftBrace :: (renderMembers ms ++ [rightBrace]) := by
    simp only [Json.render]
  have hlength := length_le_renderMembers ms
  have hmembers : members (leftBrace :: (renderMembers ms ++ [rightBrace])).length
      (renderMembers ms ++ [rightBrace]) = some (ms, []) := by
    refine members_render hne hkeys hscalar ?_
    simp only [List.length_cons, List.length_append, List.length_nil]
    omega
  have hnone : punct rightBrace (renderMembers ms ++ [rightBrace]) = none := by
    cases ms with
    | nil => exact absurd rfl hne
    | cons m ms =>
        obtain ⟨key, v⟩ := m
        cases ms with
        | nil => exact punct_cons_of_ne rfl (by decide)
        | cons m ms => exact punct_cons_of_ne rfl (by decide)
  rw [hshape, parse]
  simp only [value, skip_cons (b := leftBrace) rfl, if_true, hnone, hmembers, Option.map_some]
  rfl

/-- What holds of the punctuation, the names and the values holds of a whole object. It is used for
`P` a statement about single bytes, such as that all of them are ASCII. -/
theorem forall_mem_render {P : UInt8 → Prop}
    (hpunct : ∀ b ∈ [quote, colon, comma, leftBrace, rightBrace], P b)
    (hms : ∀ m ∈ ms, (∀ b ∈ m.1, P b) ∧ ∀ b ∈ m.2.render, P b) :
    ∀ b ∈ (Json.obj ms).render, P b := by
  have hmembers : ∀ b ∈ renderMembers ms, P b := by
    induction ms with
    | nil => exact fun b hb => absurd hb List.not_mem_nil
    | cons m ms ih =>
        obtain ⟨key, v⟩ := m
        obtain ⟨hkey, hv⟩ := hms (key, v) List.mem_cons_self
        have hrest := ih fun m hm => hms m (List.mem_cons_of_mem _ hm)
        cases ms with
        -- a single member; the others are followed by a comma
        | nil =>
            intro b hb
            simp only [renderMembers, List.mem_cons, List.mem_append] at hb
            rcases hb with rfl | hb | rfl | rfl | hb
            · exact hpunct _ (by simp)
            · exact hkey b hb
            · exact hpunct _ (by simp)
            · exact hpunct _ (by simp)
            · exact hv b hb
        | cons m ms =>
            intro b hb
            simp only [renderMembers, List.mem_cons, List.mem_append] at hb
            rcases hb with rfl | hb | rfl | rfl | hb | rfl | hb
            · exact hpunct _ (by simp)
            · exact hkey b hb
            · exact hpunct _ (by simp)
            · exact hpunct _ (by simp)
            · exact hv b hb
            · exact hpunct _ (by simp)
            · exact hrest b hb
  intro b hb
  simp only [Json.render, List.mem_cons, List.mem_append, List.not_mem_nil, or_false] at hb
  rcases hb with rfl | hb | rfl
  · exact hpunct _ (by simp)
  · exact hmembers b hb
  · exact hpunct _ (by simp)

end JsonText
