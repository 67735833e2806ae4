import Mathlib

/-! # Go strings and the text functions of its standard library

A Go `string` is a sequence of bytes, not necessarily valid UTF-8, so it is modelled as a list of
bytes. This file holds the functions of `unicode/utf8`, `strings`, `path/filepath` (slash-separated
systems), `strconv` and `encoding/hex` that the server applies to names, offsets and identifiers,
following their documented behaviour byte for byte. -/

namespace LanRoom

/-- A sequence of bytes: the content of a file or of a request body. -/
abbrev Bytes := List UInt8

/-- A Go `string`. -/
abbrev GoString := List UInt8

/-- Strings are equal when their bytes are. -/
instance : LawfulBEq GoString := inferInstance

/-- The Go string of a literal. -/
def goString (s : String) : GoString := s.toUTF8.toList

namespace Go

/-! ## `unicode/utf8` -/

/-- `utf8.RuneError`. -/
def runeError : ℕ := 0xFFFD

/-- The table `first` of `unicode/utf8` for bytes from `0x80` on: the length of the encoding that
starts with this byte and the range accepted for the second byte; `none` for an illegal starter. -/
def firstByte (b : UInt8) : Option (ℕ × UInt8 × UInt8) :=
  if b < 0xC2 then none
  else if b < 0xE0 then some (2, 0x80, 0xBF)
  else if b = 0xE0 then some (3, 0xA0, 0xBF)
  else if b = 0xED then some (3, 0x80, 0x9F)
  else if b < 0xF0 then some (3, 0x80, 0xBF)
  else if b = 0xF0 then some (4, 0x90, 0xBF)
  else if b < 0xF4 then some (4, 0x80, 0xBF)
  else if b = 0xF4 then some (4, 0x80, 0x8F)
  else none

/-- The six payload bits of a continuation byte. -/
def payload (b : UInt8) : ℕ := (b &&& 0x3F).toNat

/-- `utf8.DecodeRuneInString`: the first rune and its width; `(runeError, 1)` on an illegal or
truncated encoding and `(runeError, 0)` on the empty string. -/
def decodeRune : GoString → ℕ × ℕ
  | [] => (runeError, 0)
  | b₀ :: rest =>
      if b₀ < 0x80 then (b₀.toNat, 1)
      else match firstByte b₀, rest with
        | some (2, lo, hi), b₁ :: _ =>
            if lo ≤ b₁ ∧ b₁ ≤ hi then ((b₀ &&& 0x1F).toNat * 64 + payload b₁, 2)
            else (runeError, 1)
        | some (3, lo, hi), b₁ :: b₂ :: _ =>
            if (lo ≤ b₁ ∧ b₁ ≤ hi) ∧ 0x80 ≤ b₂ ∧ b₂ ≤ 0xBF then
              (((b₀ &&& 0x0F).toNat * 64 + payload b₁) * 64 + payload b₂, 3)
            else (runeError, 1)
        | some (4, lo, hi), b₁ :: b₂ :: b₃ :: _ =>
            if (lo ≤ b₁ ∧ b₁ ≤ hi) ∧ (0x80 ≤ b₂ ∧ b₂ ≤ 0xBF) ∧ 0x80 ≤ b₃ ∧ b₃ ≤ 0xBF then
              ((((b₀ &&& 0x07).toNat * 64 + payload b₁) * 64 + payload b₂) * 64 + payload b₃, 4)
            else (runeError, 1)
        | _, _ => (runeError, 1)

/-- `utf8.RuneStart`: the byte is not a continuation byte. -/
def runeStart (b : UInt8) : Bool := b &&& 0xC0 != 0x80

/-- How many bytes before the last one `utf8.DecodeLastRuneInString` steps back: it looks for the
nearest starter among the three bytes before the last (`rev` lists them from the right) and stops
one byte further left when there is none, but not before the start of the string. -/
def stepBack (rev : List UInt8) : ℕ :=
  let seen := (rev.take 3).takeWhile fun b => !runeStart b
  min (seen.length + 1) rev.length

/-- `utf8.DecodeLastRuneInString`: the last rune and its width. -/
def decodeLastRune (s : GoString) : ℕ × ℕ :=
  match s.reverse with
  | [] => (runeError, 0)
  | last :: rev =>
      if last < 0x80 then (last.toNat, 1)
      else
        let width := stepBack rev + 1
        let (r, size) := decodeRune (s.drop (s.length - width))
        if size ≠ width then (runeError, 1) else (r, size)

/-- The first rune of a non-empty string has a positive width, at most the length of the string. -/
theorem decodeRune_width {s : GoString} (h : s ≠ []) :
    1 ≤ (decodeRune s).2 ∧ (decodeRune s).2 ≤ s.length := by
  have hone : ∀ r : ℕ, 1 ≤ (r, 1).2 ∧ (r, 1).2 ≤ s.length :=
    fun _ => ⟨Nat.le_refl 1, List.length_pos_iff.mpr h⟩
  unfold decodeRune
  split
  · exact absurd rfl h
  · split
    · exact hone _
    · split
      -- two, three and four bytes, each accepted or not, and the illegal encodings
      · split
        · simp
        · exact hone _
      · split
        · simp
        · exact hone _
      · split
        · simp
        · exact hone _
      · exact hone _

/-- The last rune of a non-empty string has a positive width. Trimming from the right therefore gets
shorter at every step. -/
theorem decodeLastRune_pos {s : GoString} (h : s ≠ []) : 1 ≤ (decodeLastRune s).2 := by
  rw [decodeLastRune]
  split
  · rename_i hrev
    exact absurd (List.reverse_eq_nil_iff.mp hrev) h
  · split
    · exact le_refl 1
    · dsimp only
      split
      · exact le_refl 1
      · rename_i heq
        rw [not_not.mp heq]
        exact Nat.succ_pos _

/-! ## `strings` -/

/-- `unicode.IsSpace`. -/
def isSpace (r : ℕ) : Bool :=
  (9 ≤ r && r ≤ 13) || r == 0x20 || r == 0x85 || r == 0xA0 || r == 0x1680 ||
    (0x2000 ≤ r && r ≤ 0x200A) || r == 0x2028 || r == 0x2029 || r == 0x202F || r == 0x205F ||
    r == 0x3000

/-- `strings.TrimLeftFunc(s, unicode.IsSpace)`. -/
def trimLeft : GoString → GoString
  | [] => []
  | b :: s =>
      let first := decodeRune (b :: s)
      if isSpace first.1 then trimLeft ((b :: s).drop first.2) else b :: s
termination_by s => s.length
decreasing_by
  have hsize := decodeRune_width (List.cons_ne_nil b s)
  simp only [List.length_drop, List.length_cons]
  omega

/-- `strings.TrimRightFunc(s, unicode.IsSpace)`. -/
def trimRight : GoString → GoString
  | [] => []
  | b :: s =>
      let last := decodeLastRune (b :: s)
      if isSpace last.1 then trimRight ((b :: s).take (s.length + 1 - last.2)) else b :: s
termination_by s => s.length
decreasing_by
  have hsize := decodeLastRune_pos (List.cons_ne_nil b s)
  simp only [List.length_take, List.length_cons]
  omega

/-- `strings.TrimSpace`. -/
def trimSpace (s : GoString) : GoString := trimRight (trimLeft s)

/-- An ASCII byte is decoded as itself. Its width is one byte, and nothing behind it is looked
at. -/
theorem decodeRune_ascii {b : UInt8} {s : GoString} (h : b < 0x80) :
    decodeRune (b :: s) = (b.toNat, 1) := if_pos h

/-- So is one at the end. Such a byte starts a rune, so the way back ends at once. -/
theorem decodeLastRune_ascii {b : UInt8} {s : GoString} (h : b < 0x80) :
    decodeLastRune (s ++ [b]) = (b.toNat, 1) := by
  simp [decodeLastRune, h]

/-- Text that starts with an ASCII character other than white space has nothing to trim there. -/
theorem trimLeft_of_plain {b : UInt8} {s : GoString} (hb : b < 0x80)
    (hspace : isSpace b.toNat = false) : trimLeft (b :: s) = b :: s := by
  have hstop : ¬isSpace (decodeRune (b :: s)).1 = true := by
    rw [decodeRune_ascii hb]
    simp [hspace]
  -- one unrolling; the unfolding lemma of `trimLeft` takes Lean too long to generate
  delta trimLeft
  rw [WellFounded.Nat.fix_eq]
  exact dif_neg hstop

/-- Text that ends in an ASCII character other than white space has nothing to trim there. -/
theorem trimRight_of_plain {b : UInt8} {s : GoString} (hb : b < 0x80)
    (hspace : isSpace b.toNat = false) : trimRight (s ++ [b]) = s ++ [b] := by
  have hlast := decodeLastRune_ascii (s := s) hb
  cases hs : s ++ [b] with
  | nil => simp at hs
  | cons x t =>
      rw [hs] at hlast
      have hstop : ¬isSpace (decodeLastRune (x :: t)).1 = true := by
        rw [hlast]
        simp [hspace]
      delta trimRight
      rw [WellFounded.Nat.fix_eq]
      exact dif_neg hstop

/-- There is nothing to trim from ASCII text without white space. Both loops stop at their first
byte. -/
theorem trimSpace_of_plain {s : GoString}
    (h : ∀ b ∈ s, b < 0x80 ∧ isSpace b.toNat = false) : trimSpace s = s := by
  have hleft : trimLeft s = s := by
    cases s with
    | nil =>
        delta trimLeft
        rw [WellFounded.Nat.fix_eq]
    | cons b t =>
        obtain ⟨hb, hspace⟩ := h b List.mem_cons_self
        exact trimLeft_of_plain hb hspace
  unfold trimSpace
  rw [hleft]
  rcases List.eq_nil_or_concat s with rfl | ⟨t, b, rfl⟩
  · delta trimRight
    rw [WellFounded.Nat.fix_eq]
  · obtain ⟨hb, hspace⟩ := h b (by simp)
    simpa using trimRight_of_plain (s := t) hb hspace

/-- `strings.ReplaceAll` for a one-byte pattern and replacement. -/
def replaceByte (old new : UInt8) (s : GoString) : GoString :=
  s.map fun b => if b = old then new else b

/-! ## `path/filepath` -/

/-- The byte `'/'`. -/
def slash : UInt8 := 0x2F

/-- The byte `'\\'`. -/
def backslash : UInt8 := 0x5C

/-- `filepath.Base` on a slash-separated system: `.` for the empty path, else the text after the
last separator once trailing separators are stripped, `/` when nothing else is left. -/
def base (path : GoString) : GoString :=
  if path = [] then [0x2E]
  else
    let stripped := (path.reverse.dropWhile (· = slash)).reverse
    let last := (stripped.reverse.takeWhile (· ≠ slash)).reverse
    if last = [] then [slash] else last

/-! ## `strconv` and `encoding/hex` -/

/-- The value of a decimal digit. -/
def digit? (b : UInt8) : Option ℕ := if 0x30 ≤ b ∧ b ≤ 0x39 then some (b.toNat - 0x30) else none

/-- The number written by a non-empty sequence of decimal digits. -/
def parseDigits (s : GoString) : Option ℕ :=
  if s = [] then none
  else s.foldl (fun acc b => acc.bind fun n => (digit? b).map fun d => n * 10 + d) (some 0)

/-- `strconv.ParseInt(s, 10, 64)`: an optional sign and decimal digits, within `int64`. -/
def parseInt (s : GoString) : Option ℤ :=
  match s with
  | [] => none
  | c :: rest =>
      let neg := c = 0x2D
      let digits := if c = 0x2D ∨ c = 0x2B then rest else s
      (parseDigits digits).bind fun n =>
        if neg then if n ≤ 2 ^ 63 then some (-(n : ℤ)) else none
        else if n < 2 ^ 63 then some (n : ℤ) else none

/-- A decimal digit. -/
def digit (n : ℕ) : UInt8 := 0x30 + UInt8.ofNat n

/-- A natural number in decimal notation, as a client writes an offset. -/
def formatNat (n : ℕ) : GoString :=
  if n < 10 then [digit n] else formatNat (n / 10) ++ [digit (n % 10)]

/-- Reading a digit back. The two tables are inverse to each other on the ten digits. -/
theorem digit?_digit {n : ℕ} (h : n < 10) : digit? (digit n) = some n := by
  revert n
  decide

/-- Decimal notation consists of digits. A decimal number thus contains neither a sign nor white
space. -/
theorem mem_formatNat {n : ℕ} {b : UInt8} (h : b ∈ formatNat n) : (digit? b).isSome := by
  induction n using formatNat.induct with
  | case1 n hn =>
      rw [formatNat, if_pos hn, List.mem_singleton] at h
      rw [h, digit?_digit hn]
      rfl
  | case2 n hn ih =>
      rw [formatNat, if_neg hn, List.mem_append, List.mem_singleton] at h
      rcases h with h | rfl
      · exact ih h
      · rw [digit?_digit (Nat.mod_lt n (by decide))]
        rfl

/-- A number has at least one digit. The empty text, which `ParseInt` refuses, is never written. -/
theorem formatNat_ne_nil (n : ℕ) : formatNat n ≠ [] := by
  rw [formatNat]
  split <;> simp

/-- Reading decimal notation back. The induction follows the digits from the most significant one
on. -/
theorem parseDigits_formatNat (n : ℕ) : parseDigits (formatNat n) = some n := by
  rw [parseDigits, if_neg (formatNat_ne_nil n)]
  induction n using formatNat.induct with
  | case1 n hn =>
      rw [formatNat, if_pos hn]
      simp [digit?_digit hn]
  | case2 n hn ih =>
      rw [formatNat, if_neg hn, List.foldl_append, ih]
      simp only [List.foldl_cons, List.foldl_nil, Option.bind_some,
        digit?_digit (Nat.mod_lt n (by decide : 0 < 10)), Option.map_some]
      congr 1
      omega

/-- **`ParseInt` reads decimal notation back**, within `int64`. A number written in a header is read
as the number it was. -/
theorem parseInt_formatNat {n : ℕ} (h : n < 2 ^ 63) : parseInt (formatNat n) = some (n : ℤ) := by
  have hdigits := parseDigits_formatNat n
  have hmem := fun b => mem_formatNat (n := n) (b := b)
  cases hs : formatNat n with
  | nil => exact absurd hs (formatNat_ne_nil n)
  | cons c rest =>
      rw [hs] at hdigits hmem
      have hc := hmem c List.mem_cons_self
      have hsign : c ≠ 0x2D ∧ c ≠ 0x2B := by
        refine ⟨?_, ?_⟩ <;> rintro rfl <;> exact absurd hc (by decide)
      have hparse : parseInt (c :: rest) = if n < 2 ^ 63 then some (n : ℤ) else none := by
        simp [parseInt, hsign.1, hsign.2, hdigits]
      rw [hparse, if_pos h]

/-- A lower-case hexadecimal digit. -/
def hexDigit (n : UInt8) : UInt8 := if n < 10 then 0x30 + n else 0x61 + (n - 10)

/-- `hex.EncodeToString`. -/
def hexEncode (s : Bytes) : GoString := s.flatMap fun b => [hexDigit (b / 16), hexDigit (b % 16)]

/-- Encoding doubles the length. An identifier of sixteen bytes is therefore 32 digits long. -/
theorem length_hexEncode (s : Bytes) : (hexEncode s).length = 2 * s.length := by
  induction s with
  | nil => rfl
  | cons b s ih =>
      rw [hexEncode, List.flatMap_cons, List.length_append, ← hexEncode, ih]
      simp only [List.length_cons, List.length_nil]
      omega

/-- Encoding writes the sixteen hexadecimal digits only. There are only lower-case digits among
them. -/
theorem mem_hexEncode {s : Bytes} {c : UInt8} (h : c ∈ hexEncode s) :
    ∃ k < 16, c = hexDigit (UInt8.ofNat k) := by
  obtain ⟨b, -, hc⟩ := List.mem_flatMap.mp h
  have hb := b.toNat_lt
  have hc' : c = hexDigit (b / 16) ∨ c = hexDigit (b % 16) := by simpa using hc
  rcases hc' with rfl | rfl
  · refine ⟨(b / 16).toNat, ?_, by rw [UInt8.ofNat_toNat]⟩
    rw [UInt8.toNat_div]
    show b.toNat / 16 < 16
    omega
  · refine ⟨(b % 16).toNat, ?_, by rw [UInt8.ofNat_toNat]⟩
    rw [UInt8.toNat_mod]
    exact Nat.mod_lt _ (by decide)

/-- An integer in decimal notation: the verb `%d` of `fmt.Sprintf`. -/
def formatInt (n : ℤ) : GoString :=
  if n < 0 then 0x2D :: formatNat n.natAbs else formatNat n.natAbs

/-- `ParseInt` reads a non-negative integer back. It is the case of a natural number; negative ones
are not written where this is used. -/
theorem parseInt_formatInt {n : ℤ} (hpos : 0 ≤ n) (h : n < 2 ^ 63) :
    parseInt (formatInt n) = some n := by
  obtain ⟨k, rfl⟩ := Int.eq_ofNat_of_zero_le hpos
  have hneg : ¬(k : ℤ) < 0 := by omega
  rw [formatInt, if_neg hneg]
  exact parseInt_formatNat (by omega)

/-- An upper-case hexadecimal digit. -/
def upperHexDigit (n : UInt8) : UInt8 := if n < 10 then 0x30 + n else 0x41 + (n - 10)

/-- The bytes `url.QueryEscape` leaves as they are: letters, digits, `-`, `_`, `.` and `~`. -/
def isUnreserved (b : UInt8) : Bool :=
  (0x30 ≤ b && b ≤ 0x39) || (0x41 ≤ b && b ≤ 0x5A) || (0x61 ≤ b && b ≤ 0x7A) ||
    b == 0x2D || b == 0x5F || b == 0x2E || b == 0x7E

/-- `url.QueryEscape`: a space becomes `+`, any other reserved byte `%` and two digits. -/
def queryEscape (s : GoString) : GoString :=
  s.flatMap fun b =>
    if b = 0x20 then [0x2B]
    else if isUnreserved b then [b]
    else [0x25, upperHexDigit (b / 16), upperHexDigit (b % 16)]

example : parseInt [0x31, 0x32] = some 12 := by decide

end Go

end LanRoom
