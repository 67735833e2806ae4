import LanRoom.Go.Net

/-! # Escapes in URLs

`url.PathEscape` and the reading of percent escapes, which undoes it on every text. -/

namespace LanRoom

namespace Go

/-! ## `url.PathEscape` -/

/-- The bytes `url.PathEscape` leaves as they are: those of `url.QueryEscape` and `$&+:=@`. -/
def isSegmentByte (b : UInt8) : Bool :=
  isUnreserved b || b == 0x24 || b == 0x26 || b == 0x2B || b == 0x3A || b == 0x3D || b == 0x40

/-- A byte of a path segment. -/
def segmentByte (b : UInt8) : GoString :=
  if isSegmentByte b then [b] else [percent, upperHexDigit (b / 16), upperHexDigit (b % 16)]

/-- `url.PathEscape`. -/
def pathEscape (s : GoString) : GoString := s.flatMap segmentByte

/-! ## Reading escapes -/

/-- The text with every `%` and two digits replaced by the byte they stand for. -/
def percentDecode : GoString → Option GoString
  | [] => some []
  | b :: s =>
      if b ≠ percent then (percentDecode s).map (b :: ·)
      else match s with
        | h :: l :: s => (hexVal? h).bind fun x => (hexVal? l).bind fun y =>
            (percentDecode s).map (UInt8.ofNat (16 * x + y) :: ·)
        | _ => none

variable {s t : GoString} {b : UInt8}

/-- The halves of a byte. The two digits of an escape are those of the quotient and the remainder by
sixteen. -/
theorem halves_eq (b : UInt8) :
    b / 16 = UInt8.ofNat (b.toNat / 16) ∧ b % 16 = UInt8.ofNat (b.toNat % 16) := by
  have h := UInt8.toNat_lt b
  have hsixteen : (16 : UInt8).toNat = 16 := rfl
  constructor
  · apply UInt8.toNat_inj.mp
    rw [UInt8.toNat_div, UInt8.toNat_ofNat', hsixteen]
    exact (Nat.mod_eq_of_lt (by omega)).symm
  · apply UInt8.toNat_inj.mp
    rw [UInt8.toNat_mod, UInt8.toNat_ofNat', hsixteen]
    exact (Nat.mod_eq_of_lt (by omega)).symm

/-- The digits that are written are those that are read, and need no escape themselves. -/
theorem upperHexDigit_spec : ∀ k < 16, hexVal? (upperHexDigit (UInt8.ofNat k)) = some k ∧
    isUnreserved (upperHexDigit (UInt8.ofNat k)) = true := by
  decide

/-- The digits of a byte are read back, and need no escape. An escape written by `PathEscape` is
therefore one that the decoder accepts. -/
theorem upperHexDigits_spec (b : UInt8) :
    (hexVal? (upperHexDigit (b / 16)) = some (b.toNat / 16) ∧
      isUnreserved (upperHexDigit (b / 16)) = true) ∧
    hexVal? (upperHexDigit (b % 16)) = some (b.toNat % 16) ∧
      isUnreserved (upperHexDigit (b % 16)) = true := by
  have h := UInt8.toNat_lt b
  rw [(halves_eq b).1, (halves_eq b).2]
  exact ⟨upperHexDigit_spec _ (by omega), upperHexDigit_spec _ (by omega)⟩

/-- An escaped byte is read back. Either the byte stands for itself, and it is no percent sign, or
it has become an escape. -/
theorem percentDecode_segmentByte (b : UInt8) (s : GoString) :
    percentDecode (segmentByte b ++ s) = (percentDecode s).map (b :: ·) := by
  rw [segmentByte]
  by_cases h : isSegmentByte b = true
  · have hne : b ≠ percent := by
      rintro rfl
      exact absurd h (by decide)
    rw [if_pos h, List.cons_append, List.nil_append, percentDecode.eq_def]
    dsimp only
    rw [if_pos hne]
  · obtain ⟨⟨hhigh, -⟩, hlow, -⟩ := upperHexDigits_spec b
    have hbyte : UInt8.ofNat (16 * (b.toNat / 16) + b.toNat % 16) = b := by
      rw [Nat.div_add_mod, UInt8.ofNat_toNat]
    rw [if_neg h, List.cons_append, percentDecode.eq_def]
    dsimp only [List.cons_append, List.nil_append]
    rw [if_neg (not_not_intro rfl), hhigh, Option.bind_some, hlow, Option.bind_some, hbyte]

/-- **Every text is read back from its escapes.** A file name in a link is therefore the name that
the server receives. -/
theorem percentDecode_pathEscape (s : GoString) : percentDecode (pathEscape s) = some s := by
  induction s with
  | nil => rfl
  | cons b s ih =>
      rw [pathEscape, List.flatMap_cons, percentDecode_segmentByte]
      exact congrArg (Option.map (b :: ·)) ih

/-- An escaped text is made of percent signs and bytes that need no escape. In particular no slash,
question mark or number sign can get into a path through it. -/
theorem mem_pathEscape (h : b ∈ pathEscape s) :
    b = percent ∨ isUnreserved b = true ∨ isSegmentByte b = true ∧ b ∈ s := by
  obtain ⟨c, hc, hb⟩ := List.mem_flatMap.mp h
  rw [segmentByte] at hb
  by_cases hseg : isSegmentByte c = true
  · rw [if_pos hseg, List.mem_singleton] at hb
    subst hb
    exact Or.inr (Or.inr ⟨hseg, hc⟩)
  · rw [if_neg hseg] at hb
    simp only [List.mem_cons, List.not_mem_nil, or_false] at hb
    rcases hb with rfl | rfl | rfl
    · exact Or.inl rfl
    · exact Or.inr (Or.inl (upperHexDigits_spec c).1.2)
    · exact Or.inr (Or.inl (upperHexDigits_spec c).2.2)

/-- What needs no escape stays. Escaping only replaces bytes, it never drops one. -/
theorem mem_pathEscape_of_mem (h : b ∈ s) (hseg : isSegmentByte b = true) : b ∈ pathEscape s := by
  refine List.mem_flatMap.mpr ⟨b, h, ?_⟩
  rw [segmentByte, if_pos hseg]
  exact List.mem_singleton.mpr rfl

example : pathEscape [0x61, 0x20, 0x3D] = [0x61, 0x25, 0x32, 0x30, 0x3D] := by decide

end Go

end LanRoom
