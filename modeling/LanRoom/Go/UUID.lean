import LanRoom.Chat.Model
import LanRoom.Go.Net

/-! # The package `google/uuid`

It is not part of the repository. What is relied on is what its documentation says about the texts it
reads and writes (`Documented`). A package that reads the canonical form only, `canonicalUUIDs`, shows
that nothing impossible is asked for. -/

namespace LanRoom.Go

open LanRoom.Chat (UUID UUIDPackage)

/-- The byte `'-'`. -/
def hyphen : UInt8 := 0x2D

/-! ## What is documented -/

/-- `String` writes the form `xxxxxxxx-xxxx-xxxx-xxxx-xxxxxxxxxxxx`, which `Parse` reads back. `Parse`
accepts 36 characters, 38 (in braces), 45 (with the prefix `urn:uuid:`), or 32 hexadecimal digits. -/
structure Documented (u : UUIDPackage) : Prop where
  parse_string : ∀ x, u.parse (u.string x) = some x
  length_string : ∀ x, (u.string x).length = 36
  hyphen_string : ∀ x, (u.string x)[8]? = some hyphen
  forms : ∀ s x, u.parse s = some x → s.length = 36 ∨ s.length = 38 ∨ s.length = 45 ∨
    s.length = 32 ∧ ∀ b ∈ s, (hexVal? b).isSome = true

namespace Documented

variable {u : UUIDPackage} (hu : Documented u) {s : GoString} {x y : UUID}

include hu

/-- A proper prefix of a canonical text is no UUID: at 32 characters there is a hyphen in it. -/
theorem parse_eq_none (hs : s <+: u.string x) (hlt : s.length < 36) : u.parse s = none := by
  cases hparse : u.parse s with
  | none => rfl
  | some y =>
      exfalso
      rcases hu.forms s y hparse with h | h | h | ⟨h, hhex⟩
      · omega
      · omega
      · omega
      · have height : s[8]? = some hyphen := by
          obtain ⟨rest, hrest⟩ := hs
          rw [← hu.hyphen_string x, ← hrest, List.getElem?_append_left (by omega)]
        have hhyphen := hhex hyphen (List.mem_of_getElem? height)
        exact absurd hhyphen (by decide)

/-- What is read off a piece of a canonical text is the UUID, and the piece is the whole text. -/
theorem eq_of_parse (hs : s <+: u.string x) (hparse : u.parse s = some y) :
    s = u.string x ∧ y = x := by
  have hfull : s.length = (u.string x).length := by
    have hle := hs.length_le
    rw [hu.length_string] at hle ⊢
    by_contra hne
    rw [hu.parse_eq_none hs (by omega)] at hparse
    cases hparse
  have heq : s = u.string x := hs.eq_of_length hfull
  rw [heq, hu.parse_string] at hparse
  exact ⟨heq, (Option.some.inj hparse).symm⟩

end Documented

/-! ## The canonical form -/

/-- `UUID.String`. -/
def uuidString (x : UUID) : GoString :=
  let h := hexEncode x.toList
  h.take 8 ++ hyphen :: ((h.drop 8).take 4 ++ hyphen :: ((h.drop 12).take 4 ++
    hyphen :: ((h.drop 16).take 4 ++ hyphen :: h.drop 20)))

/-- The bytes that pairs of hexadecimal digits stand for. -/
def hexDecode : GoString → Option Bytes
  | [] => some []
  | [_] => none
  | a :: b :: s =>
      match hexVal? a, hexVal? b, hexDecode s with
      | some hi, some lo, some rest => some (UInt8.ofNat (16 * hi + lo) :: rest)
      | _, _, _ => none

/-- `uuid.Parse` for the canonical form. -/
def parseCanonical (s : GoString) : Option UUID :=
  if s.length = 36 ∧ [s[8]?, s[13]?, s[18]?, s[23]?] = List.replicate 4 (some hyphen) then
    match hexDecode (s.take 8 ++ (s.drop 9).take 4 ++ (s.drop 14).take 4 ++ (s.drop 19).take 4 ++
        s.drop 24) with
    | none => none
    | some bytes => if h : bytes.length = 16 then some ⟨bytes.toArray, h⟩ else none
  else none

/-- A package that reads the canonical form only. -/
def canonicalUUIDs : UUIDPackage := ⟨parseCanonical, uuidString⟩

/-- What is written in hexadecimal digits is read back. Each byte becomes two digits, and two digits
give the byte again. -/
theorem hexDecode_hexEncode (s : Bytes) : hexDecode (hexEncode s) = some s := by
  induction s with
  | nil => rfl
  | cons b s ih =>
      have hhigh : ∀ n < 256, hexVal? (hexDigit (UInt8.ofNat n / 16)) = some (n / 16) := by
        decide +kernel
      have hlow : ∀ n < 256, hexVal? (hexDigit (UInt8.ofNat n % 16)) = some (n % 16) := by
        decide +kernel
      have hb := b.toNat_lt
      have hi := hhigh b.toNat hb
      have lo := hlow b.toNat hb
      rw [UInt8.ofNat_toNat] at hi lo
      show hexDecode (hexDigit (b / 16) :: hexDigit (b % 16) :: hexEncode s) = _
      simp only [hexDecode, hi, lo, ih]
      rw [Nat.div_add_mod, UInt8.ofNat_toNat]

/-- The text of a UUID has 36 bytes. These are 32 digits and four hyphens; the length is what a
stored text is first checked for. -/
theorem length_uuidString (x : UUID) : (uuidString x).length = 36 := by
  have hlen : (hexEncode x.toList).length = 32 := by rw [length_hexEncode, Vector.length_toList]
  simp [uuidString, hlen]

/-- Pieces of lists of known lengths. The five groups of a canonical UUID are found again at their
fixed places. -/
theorem take_drop_pieces {α : Type*} (a b c d e : List α) (h : α) (ha : a.length = 8)
    (hb : b.length = 4) (hc : c.length = 4) (hd : d.length = 4) :
    let s := a ++ h :: (b ++ h :: (c ++ h :: (d ++ h :: e)))
    s.take 8 = a ∧ (s.drop 9).take 4 = b ∧ (s.drop 14).take 4 = c ∧ (s.drop 19).take 4 = d ∧
      s.drop 24 = e ∧ [s[8]?, s[13]?, s[18]?, s[23]?] = List.replicate 4 (some h) := by
  have hnil : ∀ {xs : List α} {n : ℕ}, xs.length ≤ n → xs.drop n = [] := List.drop_eq_nil_of_le
  refine ⟨?_, ?_, ?_, ?_, ?_, ?_⟩
  · simp [ha]
  · simp (disch := omega) [List.drop_append, hnil, ha, hb]
  · simp (disch := omega) [List.drop_append, hnil, ha, hb, hc]
  · simp (disch := omega) [List.drop_append, hnil, ha, hb, hc, hd]
  · simp (disch := omega) [List.drop_append, hnil, ha, hb, hc, hd]
  · simp [List.getElem?_append, ha, hb, hc, hd, List.replicate]

/-- The canonical form is read back. The groups have fixed lengths, so the hyphens stand where they
are looked for. -/
theorem parseCanonical_uuidString (x : UUID) : parseCanonical (uuidString x) = some x := by
  have hlen : (hexEncode x.toList).length = 32 := by rw [length_hexEncode, Vector.length_toList]
  obtain ⟨ha, hb, hc, hd, he, hhyphens⟩ := take_drop_pieces ((hexEncode x.toList).take 8)
    (((hexEncode x.toList).drop 8).take 4) (((hexEncode x.toList).drop 12).take 4)
    (((hexEncode x.toList).drop 16).take 4) ((hexEncode x.toList).drop 20) hyphen
    (by simp [hlen]) (by simp [hlen]) (by simp [hlen]) (by simp [hlen])
  have hpieces : (hexEncode x.toList).take 8 ++ ((hexEncode x.toList).drop 8).take 4 ++
      ((hexEncode x.toList).drop 12).take 4 ++ ((hexEncode x.toList).drop 16).take 4 ++
      (hexEncode x.toList).drop 20 = hexEncode x.toList := by
    have hpiece : ∀ n : ℕ, ((hexEncode x.toList).drop n).take 4 ++ (hexEncode x.toList).drop (n + 4) =
        (hexEncode x.toList).drop n := by
      intro n
      rw [← List.drop_drop, List.take_append_drop]
    simp only [List.append_assoc]
    rw [hpiece 16, hpiece 12, hpiece 8, List.take_append_drop]
  unfold parseCanonical
  rw [if_pos ⟨length_uuidString x, hhyphens⟩]
  unfold uuidString
  rw [ha, hb, hc, hd, he, hpieces, hexDecode_hexEncode]
  dsimp only
  rw [dif_pos Vector.length_toList]
  have harray : x.toList.toArray = x.toArray := Array.toArray_toList
  simp only [harray]

/-- Nothing impossible is documented. The package that accepts the canonical form only satisfies
every assumption made on the real one. -/
theorem documented_canonicalUUIDs : Documented canonicalUUIDs where
  parse_string := parseCanonical_uuidString
  length_string := length_uuidString
  hyphen_string x := by
    have hlen : (hexEncode x.toList).length = 32 := by rw [length_hexEncode, Vector.length_toList]
    show (uuidString x)[8]? = _
    unfold uuidString
    rw [List.getElem?_append_right (by simp [hlen])]
    simp [hlen]
  forms s x h := by
    have h' : parseCanonical s = some x := h
    unfold parseCanonical at h'
    split at h'
    · rename_i hform
      exact Or.inl hform.1
    · cases h'

end LanRoom.Go
