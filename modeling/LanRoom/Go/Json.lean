import LanRoom.Data.Json
import LanRoom.Go.Net
import LanRoom.Go.Utf8

/-! # Strings of `encoding/json`

What the text of a JSON string stands for (`characters`, `unquote`), and the text that `Marshal` writes
for a string (`quoteText`). Names of members are compared without regard to case (`foldName`). -/

namespace LanRoom.Go

open JsonText (isPlain)

/-! ## Reading -/

/-- The code unit of an escape `\uXXXX` at the start, and what follows. -/
def escapedUnit? : Bytes → Option (ℕ × Bytes)
  | e :: u :: a :: b :: c :: d :: s =>
      if e = backslash ∧ u = 0x75 then
        match hexVal? a, hexVal? b, hexVal? c, hexVal? d with
        | some a, some b, some c, some d => some (((a * 16 + b) * 16 + c) * 16 + d, s)
        | _, _, _, _ => none
      else none
  | _ => none

/-- `utf16.IsSurrogate`. -/
def isSurrogate (r : ℕ) : Bool := 0xD800 ≤ r && r < 0xE000

/-- `utf16.DecodeRune`: the character of a pair of surrogates. -/
def surrogatePair? (r₁ r₂ : ℕ) : Option Char :=
  if (0xD800 ≤ r₁ ∧ r₁ < 0xDC00) ∧ 0xDC00 ≤ r₂ ∧ r₂ < 0xE000 then
    some (Char.ofNat ((r₁ - 0xD800) * 1024 + (r₂ - 0xDC00) + 0x10000))
  else none

/-- What a backslash and this byte stand for. -/
def escapeChar (e : UInt8) : Char :=
  if e = 0x62 then Char.ofNat 0x08
  else if e = 0x66 then Char.ofNat 0x0C
  else if e = 0x6E then Char.ofNat 0x0A
  else if e = 0x72 then Char.ofNat 0x0D
  else if e = 0x74 then Char.ofNat 0x09
  else Char.ofNat e.toNat

/-- The characters of the text of a string, at most `n` of them. A surrogate without its partner is
`none`. -/
def charactersUpTo : ℕ → Bytes → List (Option Char)
  | 0, _ => []
  | n + 1, s =>
      match escapedUnit? s with
      | some (r, s₁) =>
          if isSurrogate r then
            match (escapedUnit? s₁).bind fun x => (surrogatePair? r x.1).map fun c => (c, x.2) with
            | some (c, s₂) => some c :: charactersUpTo n s₂
            | none => none :: charactersUpTo n s₁
          else some (Char.ofNat r) :: charactersUpTo n s₁
      | none =>
          match s with
          | [] => []
          | b :: rest =>
              if b = backslash then
                match rest with
                | [] => []
                | e :: rest => some (escapeChar e) :: charactersUpTo n rest
              else some (Char.ofNat (decodeRune (b :: rest)).1) ::
                charactersUpTo n ((b :: rest).drop (decodeRune (b :: rest)).2)

/-- The characters of the text of a string. -/
def characters (text : Bytes) : List (Option Char) := charactersUpTo text.length text

/-- `unquote`: surrogates without partner become `utf8.RuneError`. -/
def unquote (text : Bytes) : GoString :=
  utf8 ((characters text).map fun c => c.getD (Char.ofNat runeError))

/-- The runes that are equal to an upper-case letter of ASCII under simple folding. Other runes are
equal to no name of a field. -/
def foldRune (c : Char) : Char :=
  if c.toNat = 0x17F then 'S' else if c.toNat = 0x212A then 'K' else c.toUpper

/-- `foldName`, of a name of a member. -/
def foldName (name : Bytes) : List Char := (runes (unquote name)).map foldRune

/-! ## Writing -/

/-- `htmlSafeSet`. -/
def isSafe (b : UInt8) : Bool :=
  0x20 ≤ b && b < 0x80 && b ∉ ([0x22, 0x26, 0x3C, 0x3E, 0x5C] : List UInt8)

/-- What `appendString` writes for a byte of ASCII. -/
def quoteByte (b : UInt8) : Bytes :=
  if isSafe b then [b]
  else if b = 0x22 ∨ b = 0x5C then [backslash, b]
  else if b = 0x08 then [backslash, 0x62]
  else if b = 0x0C then [backslash, 0x66]
  else if b = 0x0A then [backslash, 0x6E]
  else if b = 0x0D then [backslash, 0x72]
  else if b = 0x09 then [backslash, 0x74]
  else [backslash, 0x75, 0x30, 0x30, hexDigit (b / 16), hexDigit (b % 16)]

/-- What `appendString` writes for the first `n` runes. -/
def quoteUpTo : ℕ → GoString → Bytes
  | 0, _ => []
  | _, [] => []
  | n + 1, b :: s =>
      if b < 0x80 then quoteByte b ++ quoteUpTo n s
      else
        let (r, width) := decodeRune (b :: s)
        let rest := quoteUpTo n ((b :: s).drop width)
        if r = runeError ∧ width = 1 then goString "\\ufffd" ++ rest
        else if r = 0x2028 ∨ r = 0x2029 then
          goString "\\u202" ++ hexDigit (UInt8.ofNat (r % 16)) :: rest
        else (b :: s).take width ++ rest

/-- The text of a string, as `Marshal` writes it. -/
def quoteText (s : GoString) : Bytes := quoteUpTo s.length s

/-! ## Plain texts -/

/-- A byte of ASCII that stands for itself. -/
def isPlainAscii (b : UInt8) : Bool := isPlain b && b < 0x80

/-- A text without escapes spells its own characters. The proof is by induction on the text: a plain
byte is none of the two that begin something else. -/
theorem characters_of_plain {text : Bytes} (h : ∀ b ∈ text, isPlainAscii b = true) :
    characters text = text.map fun b => some (Char.ofNat b.toNat) := by
  unfold characters
  induction text with
  | nil => rfl
  | cons b text ih =>
      have hb := h b List.mem_cons_self
      simp only [isPlainAscii, isPlain, Bool.and_eq_true, decide_eq_true_eq, bne_iff_ne] at hb
      obtain ⟨⟨-, hno⟩, hascii⟩ := hb
      have hback : b ≠ backslash := hno
      have hunit : escapedUnit? (b :: text) = none := by
        unfold escapedUnit?
        split
        · rename_i heq
          obtain ⟨rfl, -⟩ := List.cons.inj heq
          exact if_neg fun h => hback h.1
        · rfl
      rw [List.length_cons, charactersUpTo.eq_def]
      dsimp only
      rw [hunit]
      dsimp only
      rw [if_neg hback, decodeRune_ascii hascii]
      exact congrArg _ (ih fun c hc => h c (List.mem_cons_of_mem b hc))

/-- The string of ASCII characters. Each of them is encoded as the one byte it is. -/
theorem utf8_ascii {s : GoString} (h : ∀ b ∈ s, b < 0x80) :
    utf8 (s.map fun b => Char.ofNat b.toNat) = s := by
  induction s with
  | nil => rfl
  | cons b s ih =>
      have hall : ∀ n < 0x80, encodeRune (Char.ofNat n) = [UInt8.ofNat n] := by
        decide
      rw [List.map_cons, utf8_cons, ih fun c hc => h c (List.mem_cons_of_mem b hc),
        hall b.toNat (UInt8.lt_iff_toNat_lt.mp (h b List.mem_cons_self)), UInt8.ofNat_toNat]
      rfl

/-- A plain text stands for itself. This is the case of fixed texts without quotes and backslashes:
they are read back as they are. -/
theorem unquote_of_plain {text : Bytes} (h : ∀ b ∈ text, isPlainAscii b = true) :
    unquote text = text := by
  unfold unquote
  rw [characters_of_plain h, List.map_map]
  refine utf8_ascii fun b hb => ?_
  have hplain := h b hb
  simp only [isPlainAscii, Bool.and_eq_true, decide_eq_true_eq] at hplain
  exact hplain.2

/-- A safe string is written as it is. None of its bytes is replaced by an escape, so the text
between the quotes is the string itself. -/
theorem quoteText_of_safe {s : GoString} (h : ∀ b ∈ s, isSafe b = true) : quoteText s = s := by
  unfold quoteText
  induction s with
  | nil => rfl
  | cons b s ih =>
      have hb := h b List.mem_cons_self
      have hascii : b < 0x80 := by
        simp only [isSafe, Bool.and_eq_true, decide_eq_true_eq] at hb
        exact hb.1.2
      rw [List.length_cons, quoteUpTo, if_pos hascii, quoteByte, if_pos hb,
        ih fun c hc => h c (List.mem_cons_of_mem b hc)]
      rfl

example : quoteText (goString "a<\n") = goString "a\\u003c\\n" := by decide +kernel

/-- Safe bytes are plain. What the writer leaves alone is therefore also what the reader takes as it
stands. -/
theorem isPlainAscii_of_isSafe {b : UInt8} (h : isSafe b = true) : isPlainAscii b = true := by
  have hall : ∀ n < 256, isSafe (UInt8.ofNat n) = true → isPlainAscii (UInt8.ofNat n) = true := by
    decide +kernel
  have hb := hall b.toNat b.toNat_lt
  rw [UInt8.ofNat_toNat] at hb
  exact hb h

/-! ## What the server writes -/

/-- Decimal notation has no zero in front. The grammar of numbers forbids a leading zero, so this is
needed to read the number back. -/
theorem head_formatNat {n : ℕ} (h : 0 < n) : (formatNat n).head? ≠ some 0x30 := by
  induction n using formatNat.induct with
  | case1 n hn =>
      have hall : ∀ n < 10, 0 < n → [digit n].head? ≠ some 0x30 := by
        decide
      rw [formatNat, if_pos hn]
      exact hall n hn h
  | case2 n hn ih =>
      rw [formatNat, if_neg hn, List.head?_append_of_ne_nil _ (formatNat_ne_nil _)]
      exact ih (by omega)

/-- A digit. The reader of decimal numbers and the grammar of JSON mean the same ten bytes. -/
theorem isDigit_of_digit? {b : UInt8} (h : (digit? b).isSome) : JsonText.isDigit b = true := by
  unfold digit? at h
  split at h
  · rename_i hb
    simp [JsonText.isDigit, hb.1, hb.2]
  · cases h

/-- Decimal notation is a number of JSON. What `Marshal` writes for a size or a timestamp is
accepted by the grammar. -/
theorem isNat_formatInt {n : ℤ} (h : 0 ≤ n) : JsonText.IsNat (formatInt n) := by
  rw [formatInt, if_neg (by omega)]
  by_cases hzero : n.natAbs = 0
  · left
    rw [hzero]
    decide +kernel
  · right
    refine ⟨formatNat_ne_nil _, fun b hb => ?_, head_formatNat (Nat.pos_of_ne_zero hzero)⟩
    exact isDigit_of_digit? (mem_formatNat hb)

/-- Hexadecimal digits are safe. An identifier in hexadecimal digits needs no escape in a string of
JSON. -/
theorem isSafe_of_mem_hexEncode {s : Bytes} {b : UInt8} (h : b ∈ hexEncode s) : isSafe b = true := by
  have hall : ∀ k < 16, isSafe (hexDigit (UInt8.ofNat k)) = true := by
    decide
  obtain ⟨k, hk, rfl⟩ := mem_hexEncode h
  exact hall k hk

/-- The characters of a string of ASCII. Decoding takes one byte at a time here and changes none of
them. -/
theorem runes_of_ascii {s : GoString} (h : ∀ b ∈ s, b < 0x80) :
    runes s = s.map fun b => Char.ofNat b.toNat := by
  induction s with
  | nil => rfl
  | cons b s ih =>
      rw [runes_ascii (h b List.mem_cons_self), ih fun c hc => h c (List.mem_cons_of_mem b hc)]
      rfl

end LanRoom.Go
