import LanRoom.Go.JsonString
import LanRoom.Web.Devices
import LanRoom.Web.Escape

/-! # Strings in `JSON.stringify`

A string of JavaScript is a sequence of units of UTF-16, which need not be well formed. What is written
for it, in UTF-8, spells its characters; a surrogate without its partner is escaped
(`spells_stringText`). -/

namespace LanRoom.Web

open LanRoom.Go (Spells encodeRune utf8 unitText hexDigit escapedUnit? surrogatePair? isSurrogate
  escapeChar backslash)
open JsonText (isEscape)

/-- The character of a unit that is not paired. -/
def unitChar? (u : UInt16) : Option Char :=
  if isSurrogate u.toNat then none else some (Char.ofNat u.toNat)

/-- The characters of a string; `none` is a surrogate without its partner. -/
def codePoints : JSString → List (Option Char)
  | [] => []
  | [u] => [unitChar? u]
  | u :: w :: s =>
      match surrogatePair? u.toNat w.toNat with
      | some c => some c :: codePoints s
      | none => unitChar? u :: codePoints (w :: s)

/-- What is written for a unit that is not paired. -/
def unitQuote (u : UInt16) : Bytes :=
  if isSurrogate u.toNat then unitText u.toNat else utf8 (quoteChar (Char.ofNat u.toNat))

/-- What is written for a string between its quotation marks. -/
def stringText : JSString → Bytes
  | [] => []
  | [u] => unitQuote u
  | u :: w :: s =>
      match surrogatePair? u.toNat w.toNat with
      | some c => encodeRune c ++ stringText s
      | none => unitQuote u ++ stringText (w :: s)

/-! ## Units -/

variable {u w : UInt16} {s : JSString} {text rest : Bytes} {cs : List (Option Char)} {c : Char}

/-- What is written for a character of ASCII. They are an escape by digits, an escape by a letter,
or the character itself. -/
theorem quoteChar_ascii : ∀ n < 0x80,
    utf8 (quoteChar (Char.ofNat n)) = unitText n ∨
    (∃ letter ∈ [0x22, 0x5C, 0x62, 0x74, 0x6E, 0x66, 0x72], isEscape letter = true ∧
      escapeChar letter = Char.ofNat n ∧ utf8 (quoteChar (Char.ofNat n)) = [backslash, letter]) ∨
    (0x20 ≤ (Char.ofNat n).toNat ∧ Char.ofNat n ≠ '"' ∧ Char.ofNat n ≠ '\\' ∧
      utf8 (quoteChar (Char.ofNat n)) = encodeRune (Char.ofNat n)) := by
  decide +kernel

/-- A unit that is no surrogate is the number of its character. -/
theorem toNat_ofNat_unit (h : isSurrogate u.toNat = false) : (Char.ofNat u.toNat).toNat = u.toNat := by
  have hlt := u.toNat_lt
  simp only [isSurrogate, Bool.and_eq_false_iff, decide_eq_false_iff_not] at h
  rw [Char.toNat_ofNat, if_pos (by unfold Nat.isValidChar; omega)]

/-- Other characters stand for themselves. They are left to UTF-8. -/
theorem quoteChar_of_le (h : 0x80 ≤ c.toNat) : quoteChar c = [c] := by
  have hne : ∀ d : Char, d.toNat < 0x80 → c ≠ d := by
    rintro d hd rfl
    omega
  have hletter : escapeLetter c = none := by
    unfold escapeLetter
    rw [if_neg (hne _ (by decide)), if_neg (hne _ (by decide)), if_neg (by omega), if_neg (by omega),
      if_neg (by omega), if_neg (by omega), if_neg (by omega)]
  unfold quoteChar
  rw [hletter]
  exact if_neg (by omega)

/-- How a unit is written. -/
inductive Quoted (u : UInt16) : Bytes → Prop
  | escaped : Quoted u (unitText u.toNat)
  | letter {letter : UInt8} (hescape : isEscape letter = true) (hu : isSurrogate u.toNat = false)
      (hchar : escapeChar letter = Char.ofNat u.toNat) : Quoted u [backslash, letter]
  | raw (hu : isSurrogate u.toNat = false) (hlow : 0x20 ≤ (Char.ofNat u.toNat).toNat)
      (hquote : Char.ofNat u.toNat ≠ '"') (hback : Char.ofNat u.toNat ≠ '\\') :
      Quoted u (encodeRune (Char.ofNat u.toNat))

/-- Every unit has a quoted form. It is an escape, a character, or for half of a pair the escape by
digits. -/
theorem quoted_unitQuote (u : UInt16) : Quoted u (unitQuote u) := by
  unfold unitQuote
  by_cases hsurrogate : isSurrogate u.toNat = true
  · rw [if_pos hsurrogate]
    exact .escaped
  · rw [if_neg hsurrogate]
    rw [Bool.not_eq_true] at hsurrogate
    have hvalue := toNat_ofNat_unit hsurrogate
    by_cases hascii : u.toNat < 0x80
    · rcases quoteChar_ascii u.toNat hascii with h | ⟨letter, -, hescape, hchar, h⟩ | ⟨hlow, hquote, hback, h⟩
      · rw [h]
        exact .escaped
      · rw [h]
        exact .letter hescape hsurrogate hchar
      · rw [h]
        exact .raw hsurrogate hlow hquote hback
    · have hne : ∀ d : Char, d.toNat < 0x80 → Char.ofNat u.toNat ≠ d := by
        rintro d hd heq
        rw [← heq, hvalue] at hd
        exact hascii hd
      rw [quoteChar_of_le (by rw [hvalue]; omega)]
      have hone : utf8 [Char.ofNat u.toNat] = encodeRune (Char.ofNat u.toNat) := by simp [utf8]
      rw [hone]
      exact .raw hsurrogate (by rw [hvalue]; omega) (hne _ (by decide)) (hne _ (by decide))

/-- A unit that is not paired, before what does not begin with its partner. -/
theorem spells_unitQuote (hnext : ∀ x, escapedUnit? text = some x → surrogatePair? u.toNat x.1 = none)
    (h : Spells text cs) : Spells (unitQuote u ++ text) (unitChar? u :: cs) := by
  have hlt := u.toNat_lt
  unfold unitChar?
  generalize hq : unitQuote u = q
  have hquoted := quoted_unitQuote u
  rw [hq] at hquoted
  cases hquoted with
  | escaped =>
    by_cases hsurrogate : isSurrogate u.toNat = true
    · rw [if_pos hsurrogate]
      exact .lone hlt hsurrogate hnext h
    · rw [if_neg hsurrogate]
      exact .unit hlt (Bool.not_eq_true _ ▸ hsurrogate) h
  | letter hescape hu hchar =>
    rw [hu, ← hchar]
    exact .escape hescape h
  | raw hu hlow hquote hback =>
    rw [hu]
    exact .char hlow hquote hback h

/-- An escaped unit at the front of what is written for a unit is that unit. -/
theorem eq_of_escapedUnit?_unitQuote {x : ℕ × Bytes} (h : escapedUnit? (unitQuote u ++ text) = some x) :
    x.1 = u.toNat := by
  generalize hq : unitQuote u = q at h
  have hquoted := quoted_unitQuote u
  rw [hq] at hquoted
  cases hquoted with
  | escaped =>
    rw [Go.escapedUnit?_unitText u.toNat_lt] at h
    rw [← Option.some.inj h]
  | @letter letter hescape hu hchar =>
    have hne : letter ≠ 0x75 := by
      rintro rfl
      cases hescape
    rw [List.cons_append, List.cons_append, Go.escapedUnit?_of_escape hne] at h
    cases h
  | raw hu hlow hquote hback =>
    obtain ⟨b, bs, heq, hb⟩ := Go.head_encodeRune hback
    rw [heq, List.cons_append, Go.escapedUnit?_of_head hb] at h
    cases h

/-! ## Strings -/

/-- The character of a pair lies beyond the units. So it is never written as a single unit. -/
theorem le_of_surrogatePair? {r₁ r₂ : ℕ} (h : surrogatePair? r₁ r₂ = some c) : 0x10000 ≤ c.toNat := by
  unfold surrogatePair? at h
  split at h
  · rename_i hrange
    rw [← Option.some.inj h, Char.toNat_ofNat, if_pos (by unfold Nat.isValidChar; omega)]
    omega
  · cases h

/-- A character beyond ASCII needs no escape. Its bytes stand for themselves. -/
theorem spells_encodeRune (hc : 0x80 ≤ c.toNat) (h : Spells text cs) :
    Spells (encodeRune c ++ text) (some c :: cs) := by
  refine .char (le_trans (by decide) hc) ?_ ?_ h
  · rintro rfl
    exact absurd hc (by decide)
  · rintro rfl
    exact absurd hc (by decide)

/-- An escaped unit at the front of what is written for a string is its first unit. -/
theorem eq_of_escapedUnit?_stringText {x : ℕ × Bytes} (h : escapedUnit? (stringText (u :: s)) = some x) :
    x.1 = u.toNat := by
  cases s with
  | nil =>
    rw [stringText, ← List.append_nil (unitQuote u)] at h
    exact eq_of_escapedUnit?_unitQuote h
  | cons w s =>
    rw [stringText] at h
    cases hpair : surrogatePair? u.toNat w.toNat with
    | some c =>
      have hback : c ≠ '\\' := by
        rintro rfl
        exact absurd (le_of_surrogatePair? hpair) (by decide)
      obtain ⟨b, bs, heq, hb⟩ := Go.head_encodeRune hback
      rw [hpair] at h
      dsimp only at h
      rw [heq, List.cons_append, Go.escapedUnit?_of_head hb] at h
      cases h
    | none =>
      rw [hpair] at h
      exact eq_of_escapedUnit?_unitQuote h

/-- **`JSON.stringify` spells** every string. Pairs are written as characters and lone surrogates as
escapes. -/
theorem spells_stringText (s : JSString) : Spells (stringText s) (codePoints s) := by
  induction s using codePoints.induct with
  | case1 => exact .nil
  | case2 u =>
    rw [stringText, codePoints, ← List.append_nil (unitQuote u)]
    exact spells_unitQuote nofun .nil
  | case3 u w s c hpair ih =>
    rw [stringText, codePoints, hpair]
    exact spells_encodeRune (le_trans (by decide) (le_of_surrogatePair? hpair)) ih
  | case4 u w s hpair ih =>
    rw [stringText, codePoints, hpair]
    refine spells_unitQuote ?_ ih
    intro x hx
    rw [eq_of_escapedUnit?_stringText hx]
    exact hpair

/-! ## Characters -/

/-- No character has a surrogate for its number. A lone surrogate is thus no character. -/
theorem isSurrogate_toNat (c : Char) : isSurrogate c.toNat = false := by
  have hvalid := Go.toNat_char c
  simp only [isSurrogate, Bool.and_eq_false_iff, decide_eq_false_iff_not]
  omega

/-- A unit that is no surrogate is a character. This is the case of all characters of the basic
plane. -/
theorem codePoints_cons (h : isSurrogate u.toNat = false) :
    codePoints (u :: s) = some (Char.ofNat u.toNat) :: codePoints s := by
  have hchar : unitChar? u = some (Char.ofNat u.toNat) := by
    rw [unitChar?, h]
    rfl
  cases s with
  | nil => rw [codePoints, codePoints, hchar]
  | cons w s =>
    have hpair : surrogatePair? u.toNat w.toNat = none := by
      simp only [isSurrogate, Bool.and_eq_false_iff, decide_eq_false_iff_not] at h
      exact if_neg (by omega)
    rw [codePoints, hpair]
    dsimp only
    rw [hchar]

/-- The surrogates of a character are a pair. It is the arithmetic of UTF-16. -/
theorem surrogatePair?_utf16 (h : ¬c.toNat < 0x10000) :
    surrogatePair? (UInt16.ofNat (0xD800 + (c.toNat - 0x10000) / 0x400)).toNat
      (UInt16.ofNat (0xDC00 + (c.toNat - 0x10000) % 0x400)).toNat = some c := by
  have hvalid := Go.toNat_char c
  rw [UInt16.toNat_ofNat_of_lt' (by show _ < 65536; omega),
    UInt16.toNat_ofNat_of_lt' (by show _ < 65536; omega), surrogatePair?, if_pos (by omega)]
  have hvalue : (0xD800 + (c.toNat - 0x10000) / 0x400 - 0xD800) * 1024 +
      (0xDC00 + (c.toNat - 0x10000) % 0x400 - 0xDC00) + 0x10000 = c.toNat := by omega
  rw [hvalue, Char.ofNat_toNat]

/-- A string that is well formed. It has no lone surrogates, so each code point is a character. -/
theorem codePoints_utf16 (s : Text) : codePoints (utf16 s) = s.map some := by
  induction s with
  | nil => rfl
  | cons c s ih =>
    show codePoints (utf16Char c ++ utf16 s) = some c :: s.map some
    unfold utf16Char
    split
    · rename_i hlt
      have hunit : (unit c).toNat = c.toNat := UInt16.toNat_ofNat_of_lt' hlt
      rw [List.singleton_append, codePoints_cons (by rw [hunit]; exact isSurrogate_toNat c), hunit,
        Char.ofNat_toNat, ih]
    · rename_i hge
      rw [List.cons_append, List.singleton_append, codePoints, surrogatePair?_utf16 hge]
      dsimp only
      rw [ih]

end LanRoom.Web
