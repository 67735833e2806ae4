import LanRoom.Go.Json
import LanRoom.Mobile.Client

/-! # `dart:convert`

`jsonDecode` after `utf8.decode`, the comparisons of what it delivers, and `jsonEncode` of strings. A
Dart string has its lone surrogates, which no text that is compared with here has. -/

namespace LanRoom.Mobile

open LanRoom.Go (characters decodeRune encodeRune runeError hexDigit isPlainAscii characters_of_plain)

/-! ## Reading -/

/-- The first `n` characters are encoded as UTF-8, and there are no more. -/
def isUtf8UpTo : ℕ → Bytes → Bool
  | _, [] => true
  | 0, _ :: _ => false
  | n + 1, b :: s =>
      decodeRune (b :: s) != (runeError, 1) && isUtf8UpTo n ((b :: s).drop (decodeRune (b :: s)).2)

/-- `utf8.decode` does not throw. -/
def isUtf8 (bytes : Bytes) : Bool := isUtf8UpTo bytes.length bytes

/-- `utf8.decode` drops a byte order mark. -/
def withoutMark (bytes : Bytes) : Bytes :=
  if [0xEF, 0xBB, 0xBF].isPrefixOf bytes then bytes.drop 3 else bytes

/-- `jsonDecode(utf8.decode(bytes))`; `none` when it throws. -/
def jsonDecode (bytes : Bytes) : Option JsonText.Json :=
  if isUtf8 bytes then JsonText.parse (withoutMark bytes) else none

/-- The string that a text stands for; `none` when it has a lone surrogate. -/
def dartString? (text : Bytes) : Option DartString :=
  if (characters text).all Option.isSome then some ((characters text).filterMap id) else none

/-- `data[key]`: the last member counts, and an absent one is `null`. -/
def get (data : List (Bytes × JsonText.Json)) (key : DartString) : JsonText.Json :=
  ((data.reverse.find? fun m => decide (dartString? m.1 = some key)).map (·.2)).getD .null

/-- `value == s`, for a string `s`. -/
def equalsString (value : JsonText.Json) (s : DartString) : Bool :=
  match value with
  | .str text => dartString? text = some s
  | _ => false

/-- The value of a number that is an `int`: it has no fraction and no exponent, and 64 bits are enough.
The text `-0` is a `double`. -/
def dartInt? (text : Bytes) : Option ℤ :=
  if text.all (fun b => b ∉ ([0x2E, 0x65, 0x45] : List UInt8)) && text != [0x2D, 0x30] then
    Go.parseInt text
  else none

/-- The exponent of a number. -/
def exponent (text : Bytes) : ℤ :=
  match text.dropWhile fun b => b ∉ ([0x65, 0x45] : List UInt8) with
  | _ :: 0x2D :: s => -((Go.parseDigits s).getD 0 : ℤ)
  | _ :: 0x2B :: s => (Go.parseDigits s).getD 0
  | _ :: s => (Go.parseDigits s).getD 0
  | [] => 0

/-- `value == 1`, for a number: the closest `double` is 1. That of a number that is not negative is,
from half a step below 1 to half a step above. -/
def isOne (text : Bytes) : Bool :=
  let whole := text.takeWhile JsonText.isDigit
  let fraction := ((text.dropWhile JsonText.isDigit).drop 1).takeWhile JsonText.isDigit
  let hasFraction := (text.dropWhile JsonText.isDigit).head? = some 0x2E
  let digits := if hasFraction then whole ++ fraction else whole
  let shift := exponent text - if hasFraction then (fraction.length : ℤ) else 0
  let m := (Go.parseDigits digits).getD 0
  let above := m * 10 ^ shift.toNat * 2 ^ 54
  let below := 10 ^ (-shift).toNat
  decide ((2 ^ 54 - 1) * below ≤ above ∧ above ≤ (2 ^ 54 + 2) * below)

/-- `value == 1`. -/
def equalsOne : JsonText.Json → Bool
  | .num text => isOne text
  | _ => false

/-! ## Writing -/

/-- What `jsonEncode` writes for a character of a string. -/
def encodeChar (c : Char) : Bytes :=
  let v := c.toNat
  if v = 0x22 ∨ v = 0x5C then [0x5C, UInt8.ofNat v]
  else if v < 0x20 then
    if v = 0x08 then [0x5C, 0x62]
    else if v = 0x09 then [0x5C, 0x74]
    else if v = 0x0A then [0x5C, 0x6E]
    else if v = 0x0C then [0x5C, 0x66]
    else if v = 0x0D then [0x5C, 0x72]
    else [0x5C, 0x75, 0x30, 0x30, hexDigit (UInt8.ofNat (v / 16)), hexDigit (UInt8.ofNat (v % 16))]
  else encodeRune c

/-- The text of a string, as `jsonEncode` writes it, in UTF-8. -/
def jsonText (s : DartString) : Bytes := s.flatMap encodeChar

/-! ## Plain texts -/

/-- The characters of a text of ASCII. -/
def asciiString (text : Bytes) : DartString := text.map fun b => Char.ofNat b.toNat

/-- ASCII is valid UTF-8. Each byte is a character of its own. -/
theorem isUtf8_of_ascii {bytes : Bytes} (h : ∀ b ∈ bytes, b < 0x80) : isUtf8 bytes = true := by
  unfold isUtf8
  induction bytes with
  | nil => rfl
  | cons b s ih =>
      have hb := h b List.mem_cons_self
      rw [List.length_cons, isUtf8UpTo, Go.decodeRune_ascii hb]
      have hgood : ((b.toNat, 1) != (runeError, 1)) = true := by
        have hlt : b.toNat < 0x80 := UInt8.lt_iff_toNat_lt.mp hb
        have hne : b.toNat ≠ runeError := by
          unfold runeError
          omega
        rw [bne_iff_ne]
        intro heq
        exact hne (Prod.mk.inj heq).1
      rw [hgood, Bool.true_and]
      exact ih fun c hc => h c (List.mem_cons_of_mem b hc)

/-- A text of ASCII has no byte order mark. The decoder hands it to the parser as it is. -/
theorem jsonDecode_of_ascii {bytes : Bytes} (h : ∀ b ∈ bytes, b < 0x80) :
    jsonDecode bytes = JsonText.parse bytes := by
  have hmark : withoutMark bytes = bytes := by
    unfold withoutMark
    cases bytes with
    | nil => rfl
    | cons b s =>
        have hne : b ≠ 0xEF := by
          rintro rfl
          exact absurd (h 0xEF List.mem_cons_self) (by decide)
        simp [List.isPrefixOf, Ne.symm hne]
  rw [jsonDecode, if_pos (isUtf8_of_ascii h), hmark]

/-- A string without escapes is read character by character. -/
theorem dartString?_of_plain {text : Bytes} (h : ∀ b ∈ text, isPlainAscii b = true) :
    dartString? text = some (asciiString text) := by
  unfold dartString?
  rw [characters_of_plain h, if_pos (by simp)]
  simp [asciiString, List.filterMap_map]

/-- Plain characters are written as they are. The app sends such a text byte by byte. -/
theorem jsonText_asciiString {text : Bytes} (h : ∀ b ∈ text, isPlainAscii b = true) :
    jsonText (asciiString text) = text := by
  have hall : ∀ n < 256, isPlainAscii (UInt8.ofNat n) = true →
      encodeChar (Char.ofNat n) = [UInt8.ofNat n] := by
    decide +kernel
  induction text with
  | nil => rfl
  | cons b text ih =>
      have hb := hall b.toNat b.toNat_lt (by rw [UInt8.ofNat_toNat]; exact h b List.mem_cons_self)
      rw [UInt8.ofNat_toNat] at hb
      show encodeChar (Char.ofNat b.toNat) ++ jsonText (asciiString text) = b :: text
      rw [hb, ih fun c hc => h c (List.mem_cons_of_mem b hc)]
      rfl

end LanRoom.Mobile
