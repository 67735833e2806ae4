import Mathlib.Data.List.Basic

/-! # Header fields with parameters

A field such as `Content-Disposition` is a token followed by parameters, `token; name=value; …`,
where a value is a run of bare bytes or a quoted string, and a semicolon inside a quoted string
separates nothing. Readers differ in which bytes they take in a bare value: the grammar allows the
bytes of a token, browsers nearly everything up to the next semicolon. `readField` has this set as a
parameter, and reads back what `renderField` writes whatever it is (`readField_renderField`). -/

namespace LanRoom

namespace HeaderField

/-! ## Bytes -/

/-- `"`. -/
def quote : UInt8 := 0x22

/-- `\`. -/
def backslash : UInt8 := 0x5C

/-- `;`. -/
def semicolon : UInt8 := 0x3B

/-- `=`. -/
def equals : UInt8 := 0x3D

/-- A space. -/
def space : UInt8 := 0x20

/-- The bytes of a token: letters, digits and fifteen signs. -/
def isToken (b : UInt8) : Bool :=
  (0x30 ≤ b && b ≤ 0x39) || (0x41 ≤ b && b ≤ 0x5A) || (0x5E ≤ b && b ≤ 0x7A) || b == 0x21 ||
    (0x23 ≤ b && b ≤ 0x27) || b == 0x2A || b == 0x2B || b == 0x2D || b == 0x2E || b == 0x7C ||
    b == 0x7E

/-- What a token is not made of. These are the bytes that have a meaning of their own between the
parts of a field. -/
theorem isToken_spec {b : UInt8} (h : isToken b = true) :
    b ≠ quote ∧ b ≠ backslash ∧ b ≠ semicolon ∧ b ≠ equals ∧ b ≠ space := by
  refine ⟨?_, ?_, ?_, ?_, ?_⟩ <;> (rintro rfl; exact absurd h (by decide))

/-! ## The pieces between semicolons -/

/-- Where a reader is. -/
inductive Mode
  | plain
  | quoted
  /-- After a backslash in a quoted string. -/
  | escaped
  deriving DecidableEq

/-- The next byte. -/
def Mode.next : Mode → UInt8 → Mode
  | plain, b => if b = quote then quoted else plain
  | quoted, b => if b = backslash then escaped else if b = quote then plain else quoted
  | escaped, _ => quoted

/-- The texts between the separating semicolons. -/
def pieces : Mode → List UInt8 → List (List UInt8)
  | _, [] => [[]]
  | m, b :: s =>
      if m = .plain ∧ b = semicolon then [] :: pieces .plain s
      else (pieces (m.next b) s).modifyHead (b :: ·)

/-- Where a reader is after `s`; `none` if it meets a separating semicolon. -/
def Mode.after : Mode → List UInt8 → Option Mode
  | m, [] => some m
  | m, b :: s => if m = .plain ∧ b = semicolon then none else (m.next b).after s

variable {m m' : Mode} {s t : List UInt8} {b : UInt8} {allowed : UInt8 → Bool}

/-- Reading goes piece by piece. The state of the reader after a first piece is all that the second
one needs. -/
theorem Mode.after_append (m : Mode) (s t : List UInt8) :
    m.after (s ++ t) = (m.after s).bind fun m' => m'.after t := by
  induction s generalizing m with
  | nil => rfl
  | cons b s ih =>
      rw [List.cons_append, Mode.after, Mode.after, ih]
      split <;> rfl

/-- A text without separating semicolons is one piece. The reader is in some mode before the text
and in another after it, and has met no semicolon outside quotes. -/
theorem pieces_of_after (h : m.after s = some m') : pieces m s = [s] := by
  induction s generalizing m with
  | nil => rfl
  | cons b s ih =>
      by_cases hsep : m = .plain ∧ b = semicolon
      · rw [Mode.after, if_pos hsep] at h
        cases h
      · rw [Mode.after, if_neg hsep] at h
        rw [pieces, if_neg hsep, ih h]
        rfl

/-- Up to a separating semicolon there is one piece. With `pieces_of_after` for the last piece this
splits a whole field. -/
theorem pieces_append (h : m.after s = some .plain) :
    pieces m (s ++ semicolon :: t) = s :: pieces .plain t := by
  induction s generalizing m with
  | nil =>
      obtain rfl := Option.some.inj h
      rw [List.nil_append, pieces, if_pos ⟨rfl, rfl⟩]
  | cons b s ih =>
      by_cases hsep : m = .plain ∧ b = semicolon
      · rw [Mode.after, if_pos hsep] at h
        cases h
      · rw [Mode.after, if_neg hsep] at h
        rw [List.cons_append, pieces, if_neg hsep, ih h]
        rfl

/-- A byte outside quoted strings that starts none and separates nothing. -/
theorem after_of_inert (h : ∀ b ∈ s, b ≠ quote ∧ b ≠ semicolon) : Mode.plain.after s = some .plain := by
  induction s with
  | nil => rfl
  | cons b s ih =>
      obtain ⟨hquote, hsemi⟩ := h b List.mem_cons_self
      rw [Mode.after, if_neg fun h => hsemi h.2, Mode.next, if_neg hquote]
      exact ih fun c hc => h c (List.mem_cons_of_mem b hc)

/-! ## Quoted strings -/

/-- A byte in a quoted string. -/
def quoteByte (b : UInt8) : List UInt8 := if b = quote ∨ b = backslash then [backslash, b] else [b]

/-- The text as a quoted string. -/
def quoteString (s : List UInt8) : List UInt8 := quote :: s.flatMap quoteByte ++ [quote]

/-- What follows an opening quote, read up to the closing one, which ends the text. -/
def unquote : List UInt8 → Option (List UInt8)
  | [] => none
  | b :: s =>
      if b = quote then (if s = [] then some [] else none)
      else if b = backslash then
        match s with
        | [] => none
        | c :: s => (unquote s).map (c :: ·)
      else (unquote s).map (b :: ·)

/-- A quoted string is read back. Each quote and each backslash is preceded by a backslash, which
the reader drops. -/
theorem unquote_quoted (s : List UInt8) : unquote (s.flatMap quoteByte ++ [quote]) = some s := by
  induction s with
  | nil => rfl
  | cons b s ih =>
      rw [List.flatMap_cons, List.append_assoc, quoteByte]
      by_cases h : b = quote ∨ b = backslash
      · rw [if_pos h, List.cons_append, unquote.eq_def]
        show (unquote (s.flatMap quoteByte ++ [quote])).map (b :: ·) = _
        rw [ih]
        rfl
      · rw [if_neg h, List.cons_append, List.nil_append, unquote.eq_def]
        dsimp only
        rw [if_neg fun hb => h (Or.inl hb),
          if_neg fun hb => h (Or.inr hb), ih]
        rfl

/-- A quoted string separates nothing. The semicolons in it are between quotes, and the reader is
outside again after the last quote. -/
theorem after_quoteString (s : List UInt8) : Mode.plain.after (quoteString s) = some .plain := by
  have hinner : ∀ s : List UInt8, Mode.quoted.after (s.flatMap quoteByte) = some .quoted := by
    intro s
    induction s with
    | nil => rfl
    | cons b s ih =>
        rw [List.flatMap_cons, Mode.after_append, quoteByte]
        by_cases h : b = quote ∨ b = backslash
        · rw [if_pos h]
          exact ih
        · rw [if_neg h, Mode.after, if_neg (by simp), Mode.next, if_neg fun hb => h (Or.inr hb),
            if_neg fun hb => h (Or.inl hb)]
          exact ih
  rw [quoteString, List.cons_append, Mode.after, if_neg (by decide), Mode.next, if_pos rfl,
    Mode.after_append, hinner]
  rfl

/-- Nothing is escaped in a text without quotes and backslashes. Such a text stands between the
quotes as it is. -/
theorem quoteString_of_plain (h : ∀ b ∈ s, b ≠ quote ∧ b ≠ backslash) :
    quoteString s = quote :: s ++ [quote] := by
  have hplain : s.flatMap quoteByte = s := by
    induction s with
    | nil => rfl
    | cons b s ih =>
        obtain ⟨hquote, hback⟩ := h b List.mem_cons_self
        rw [List.flatMap_cons, quoteByte, if_neg (by simp [hquote, hback]),
          ih fun c hc => h c (List.mem_cons_of_mem b hc)]
        rfl
  rw [quoteString, hplain]

/-! ## Parameters -/

/-- A value as it is written. -/
inductive Value
  | bare (text : List UInt8)
  | quoted (text : List UInt8)
  deriving DecidableEq

/-- What a value says. -/
def Value.text : Value → List UInt8
  | bare text => text
  | quoted text => text

/-- The value as it is written. -/
def Value.render : Value → List UInt8
  | bare text => text
  | quoted text => quoteString text

/-- A value: a quoted string, or bytes that may stand without quotes. -/
def readValue (allowed : UInt8 → Bool) (s : List UInt8) : Option (List UInt8) :=
  match s with
  | [] => none
  | b :: rest => if b = quote then unquote rest else if s.all allowed then some s else none

/-- A token. -/
def readToken (s : List UInt8) : Option (List UInt8) :=
  if s ≠ [] ∧ s.all isToken then some s else none

/-- A parameter, after spaces: its name and what its value says. -/
def readParam (allowed : UInt8 → Bool) (s : List UInt8) : Option (List UInt8 × List UInt8) :=
  let s := s.dropWhile (· = space)
  (readToken (s.takeWhile (· ≠ equals))).bind fun name =>
    (readValue allowed ((s.dropWhile (· ≠ equals)).drop 1)).map fun value => (name, value)

/-- A field: its token and its parameters. -/
def readField (allowed : UInt8 → Bool) (s : List UInt8) :
    Option (List UInt8 × List (List UInt8 × List UInt8)) :=
  (readToken ((pieces .plain s).headD [])).bind fun word =>
    ((pieces .plain s).tail.mapM (readParam allowed)).map fun params => (word, params)

/-- A parameter as it is written. -/
def renderParam (p : List UInt8 × Value) : List UInt8 := space :: p.1 ++ equals :: p.2.render

/-- A field as it is written. -/
def renderField (word : List UInt8) (params : List (List UInt8 × Value)) : List UInt8 :=
  word ++ params.flatMap fun p => semicolon :: renderParam p

/-- The text is a token. -/
def IsToken (s : List UInt8) : Prop := s ≠ [] ∧ ∀ b ∈ s, isToken b = true

/-- A bare value is not empty and has no quotes or semicolons. -/
def Value.Writable : Value → Prop
  | bare text => text ≠ [] ∧ ∀ b ∈ text, b ≠ quote ∧ b ≠ semicolon
  | quoted _ => True

/-- The reader takes the value. -/
def Value.Readable (allowed : UInt8 → Bool) : Value → Prop
  | .bare text => text.all allowed = true
  | quoted _ => True

instance (allowed : UInt8 → Bool) (v : Value) : Decidable (v.Readable allowed) :=
  match v with
  | .bare text => inferInstanceAs (Decidable (text.all allowed = true))
  | .quoted _ => inferInstanceAs (Decidable True)

/-- A token is read as itself. None of its bytes ends it. -/
theorem IsToken.readToken (h : IsToken s) : readToken s = some s :=
  if_pos ⟨h.1, List.all_eq_true.mpr h.2⟩

/-- What a reader makes of a value it may or may not take. Quoted strings are always taken; of the
bare words only those whose bytes the reader allows. -/
theorem readValue_render {v : Value} (hv : v.Writable) :
    readValue allowed v.render = if v.Readable allowed then some v.text else none := by
  cases v with
  | quoted text =>
      have hreadable : Value.Readable allowed (.quoted text) := trivial
      rw [if_pos hreadable]
      exact unquote_quoted text
  | bare text =>
      obtain ⟨hne, hsafe⟩ := hv
      cases text with
      | nil => exact absurd rfl hne
      | cons b text =>
          show (if b = quote then _ else _) = _
          rw [if_neg (hsafe b List.mem_cons_self).1]
          rfl

/-- A value separates nothing. The reader is in the plain mode before it and after it, so the
parameters are split where they were joined. -/
theorem Value.Writable.after {v : Value} (hv : v.Writable) : Mode.plain.after v.render = some .plain := by
  cases v with
  | quoted text => exact after_quoteString text
  | bare text => exact after_of_inert hv.2

variable {word : List UInt8} {params : List (List UInt8 × Value)}

/-- The name of a parameter ends before the first equals sign. A token holds no equals sign, so the
cut is at the sign between name and value. -/
theorem takeWhile_name {name : List UInt8} (h : IsToken name) (t : List UInt8) :
    (name ++ equals :: t).takeWhile (· ≠ equals) = name ∧
      (name ++ equals :: t).dropWhile (· ≠ equals) = equals :: t := by
  have hall : ∀ b ∈ name, (decide (b ≠ equals)) = true := by
    intro b hb
    exact decide_eq_true (isToken_spec (h.2 b hb)).2.2.2.1
  constructor
  · rw [List.takeWhile_append_of_pos hall]
    simp
  · rw [List.dropWhile_append_of_pos hall]
    simp

/-- A parameter is read back, or refused if its value is not one the reader takes. Readers differ in
`allowed` only, the bytes they take in a bare value. -/
theorem readParam_renderParam {name : List UInt8} {v : Value} (hname : IsToken name)
    (hv : v.Writable) :
    readParam allowed (renderParam (name, v)) =
      if v.Readable allowed then some (name, v.text) else none := by
  have hspace : (renderParam (name, v)).dropWhile (· = space) = name ++ equals :: v.render := by
    obtain ⟨b, rest, rfl⟩ := List.exists_cons_of_ne_nil hname.1
    have hb := (isToken_spec (hname.2 b List.mem_cons_self)).2.2.2.2
    simp [renderParam, hb]
  unfold readParam
  simp only [hspace]
  rw [(takeWhile_name hname _).1, (takeWhile_name hname _).2, hname.readToken, Option.bind_some,
    List.drop_one, List.tail_cons, readValue_render hv]
  split <;> rfl

/-- The parameters of a field are its pieces. Neither a name nor a written value has a semicolon
that separates anything. -/
theorem pieces_renderField (hword : Mode.plain.after word = some .plain)
    (hparams : ∀ p ∈ params, IsToken p.1 ∧ p.2.Writable) :
    pieces .plain (renderField word params) = word :: params.map renderParam := by
  induction params generalizing word with
  | nil =>
      rw [renderField, List.flatMap_nil, List.append_nil]
      exact pieces_of_after hword
  | cons p params ih =>
      obtain ⟨hname, hvalue⟩ := hparams p List.mem_cons_self
      have hafter : Mode.plain.after (renderParam p) = some .plain := by
        have hinert : ∀ b ∈ space :: p.1 ++ [equals], b ≠ quote ∧ b ≠ semicolon := by
          intro b hb
          simp only [List.cons_append, List.mem_cons, List.mem_append, List.not_mem_nil, or_false] at hb
          rcases hb with rfl | hb | rfl
          · decide
          · exact ⟨(isToken_spec (hname.2 b hb)).1, (isToken_spec (hname.2 b hb)).2.2.1⟩
          · decide
        rw [renderParam, List.append_cons (space :: p.1) equals p.2.render, Mode.after_append,
          after_of_inert hinert]
        exact hvalue.after
      rw [renderField, List.flatMap_cons, List.cons_append, pieces_append hword, List.map_cons]
      exact congrArg _ (ih hafter fun q hq => hparams q (List.mem_cons_of_mem p hq))

/-- **A field is read back**, by every reader that takes its bare values; any other refuses it.
The separators inside of a quoted value are not taken for separators, and the escapes in it are
undone. -/
theorem readField_renderField (hword : IsToken word)
    (hparams : ∀ p ∈ params, IsToken p.1 ∧ p.2.Writable) :
    readField allowed (renderField word params) =
      if ∀ p ∈ params, p.2.Readable allowed then some (word, params.map fun p => (p.1, p.2.text))
      else none := by
  have hafter : Mode.plain.after word = some .plain := by
    apply after_of_inert
    intro b hb
    exact ⟨(isToken_spec (hword.2 b hb)).1, (isToken_spec (hword.2 b hb)).2.2.1⟩
  have hmap : (params.map renderParam).mapM (readParam allowed) =
      if ∀ p ∈ params, p.2.Readable allowed then some (params.map fun p => (p.1, p.2.text))
      else none := by
    induction params with
    | nil => rfl
    | cons p params ih =>
        obtain ⟨hname, hvalue⟩ := hparams p List.mem_cons_self
        rw [List.map_cons, List.mapM_cons, readParam_renderParam hname hvalue,
          ih fun q hq => hparams q (List.mem_cons_of_mem p hq)]
        simp only [List.forall_mem_cons]
        by_cases hp : p.2.Readable allowed
        · by_cases hall : ∀ q ∈ params, q.2.Readable allowed
          · rw [if_pos hp, if_pos hall, if_pos ⟨hp, hall⟩]
            rfl
          · have hboth : ¬(p.2.Readable allowed ∧ ∀ q ∈ params, q.2.Readable allowed) :=
              fun h => hall h.2
            rw [if_pos hp, if_neg hall, if_neg hboth]
            rfl
        · have hboth : ¬(p.2.Readable allowed ∧ ∀ q ∈ params, q.2.Readable allowed) :=
            fun h => hp h.1
          rw [if_neg hp, if_neg hboth]
          rfl
  rw [readField, pieces_renderField hafter hparams, List.headD_cons, hword.readToken,
    Option.bind_some, List.tail_cons, hmap]
  split <;> rfl

end HeaderField

end LanRoom
