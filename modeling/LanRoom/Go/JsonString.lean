import LanRoom.Data.JsonValue
import LanRoom.Go.Json
import LanRoom.Go.LastRune

/-! # The texts that spell a string

How a writer of JSON spells the characters of a string: raw, by an escape of one letter or by four
hexadecimal digits, as it spells a surrogate without its partner (`Spells`). Whoever reads such a text
gets the characters back (`Spells.characters_eq`), and `Marshal` writes one (`spells_quoteText`). -/

namespace LanRoom.Go

open JsonText (IsText isPlain isEscape isHexDigit)

variable {text rest : Bytes} {c : Char} {cs : List (Option Char)} {v : ℕ}

/-! ## Escapes -/

/-- The escape of a code unit, in lower-case digits. -/
def unitText (v : ℕ) : Bytes :=
  [backslash, 0x75, hexDigit (UInt8.ofNat (v / 4096)), hexDigit (UInt8.ofNat (v / 256 % 16)),
    hexDigit (UInt8.ofNat (v / 16 % 16)), hexDigit (UInt8.ofNat (v % 16))]

/-- A hexadecimal digit. It is checked for the sixteen of them. -/
theorem hexDigit_spec : ∀ k < 16, hexVal? (hexDigit (UInt8.ofNat k)) = some k ∧
    isHexDigit (hexDigit (UInt8.ofNat k)) = true := by
  decide

/-- An escape of four hexadecimal digits is read back. What follows it is left as it is. -/
theorem escapedUnit?_unitText (hv : v < 0x10000) : escapedUnit? (unitText v ++ rest) = some (v, rest) := by
  have h₁ := (hexDigit_spec (v / 4096) (by omega)).1
  have h₂ := (hexDigit_spec (v / 256 % 16) (by omega)).1
  have h₃ := (hexDigit_spec (v / 16 % 16) (by omega)).1
  have h₄ := (hexDigit_spec (v % 16) (by omega)).1
  have hvalue : ((v / 4096 * 16 + v / 256 % 16) * 16 + v / 16 % 16) * 16 + v % 16 = v := by omega
  simp only [unitText, List.cons_append, List.nil_append, escapedUnit?]
  rw [if_pos (by decide), h₁, h₂, h₃, h₄]
  simp only [hvalue]

/-- Only a backslash and the letter `u` begin the escape of a code unit. A character that stands for
itself is thus not taken for one. -/
theorem escapedUnit?_of_head {b : UInt8} (hb : b ≠ backslash) : escapedUnit? (b :: rest) = none := by
  unfold escapedUnit?
  split
  · rename_i heq
    obtain ⟨rfl, -⟩ := List.cons.inj heq
    exact if_neg fun h => hb h.1
  · rfl

/-- Any other escape is not one of these. The letter behind the backslash decides. -/
theorem escapedUnit?_of_escape {e : UInt8} (he : e ≠ 0x75) :
    escapedUnit? (backslash :: e :: rest) = none := by
  unfold escapedUnit?
  split
  · rename_i heq
    obtain ⟨-, heq⟩ := List.cons.inj heq
    obtain ⟨rfl, -⟩ := List.cons.inj heq
    exact if_neg fun h => he h.2
  · rfl

/-- The escape of a code unit takes six bytes. A reader that has read one has less text left. -/
theorem length_of_escapedUnit? {s s₁ : Bytes} {r : ℕ} (h : escapedUnit? s = some (r, s₁)) :
    s.length = s₁.length + 6 := by
  unfold escapedUnit? at h
  split at h
  · split at h
    · split at h
      · simp only [Option.some.injEq, Prod.mk.injEq] at h
        rw [← h.2]
        rfl
      · cases h
    · cases h
  · cases h

/-! ## Reading -/

/-- The length is always enough. Each round consumes at least one byte. -/
theorem charactersUpTo_of_le {n m : ℕ} {s : Bytes} (hn : s.length ≤ n) (hm : s.length ≤ m) :
    charactersUpTo n s = charactersUpTo m s := by
  -- induction on the fuel; each character uses at least one byte
  induction n generalizing m s with
  | zero =>
    obtain rfl := List.length_eq_zero_iff.mp (Nat.le_zero.mp hn)
    cases m with
    | zero => rfl
    | succ m => rfl
  | succ n ih =>
    cases m with
    | zero =>
      obtain rfl := List.length_eq_zero_iff.mp (Nat.le_zero.mp hm)
      rfl
    | succ m =>
      rw [charactersUpTo.eq_def, charactersUpTo.eq_def (m + 1)]
      dsimp only
      -- a `\uXXXX` escape, alone or as the first half of a surrogate pair
      cases hunit : escapedUnit? s with
      | some x =>
        obtain ⟨r, s₁⟩ := x
        have hlen := length_of_escapedUnit? hunit
        have hsame : charactersUpTo n s₁ = charactersUpTo m s₁ := ih (by omega) (by omega)
        dsimp only
        rw [hsame]
        cases hpair : (escapedUnit? s₁).bind fun x => (surrogatePair? r x.1).map fun c => (c, x.2) with
        | none => rfl
        | some y =>
          obtain ⟨c, s₂⟩ := y
          obtain ⟨x, hx, hy⟩ := Option.bind_eq_some_iff.mp hpair
          obtain ⟨c', -, heq⟩ := Option.map_eq_some_iff.mp hy
          have hs₂ : x.2 = s₂ := (Prod.mk.inj heq).2
          have hlen₂ := length_of_escapedUnit? hx
          rw [hs₂] at hlen₂
          dsimp only
          rw [ih (s := s₂) (m := m) (by omega) (by omega)]
      | none =>
        cases s with
        | nil => rfl
        | cons b rest =>
          dsimp only
          split
          · -- an escape of one letter
            cases rest with
            | nil => rfl
            | cons e rest =>
              dsimp only
              rw [ih (m := m) (s := rest) (by simp at hn; omega) (by simp at hm; omega)]
          · -- a character as it stands
            have hwidth := decodeRune_width (List.cons_ne_nil b rest)
            have hdrop : ((b :: rest).drop (decodeRune (b :: rest)).2).length ≤ rest.length := by
              rw [List.length_drop, List.length_cons]
              omega
            rw [List.length_cons] at hn hm
            rw [ih (m := m) (s := (b :: rest).drop (decodeRune (b :: rest)).2) (by omega) (by omega)]

/-- Any bound that is long enough. The recursion can be unfolded with whatever bound is at hand. -/
theorem charactersUpTo_eq {n : ℕ} (h : text.length ≤ n) : charactersUpTo n text = characters text :=
  charactersUpTo_of_le h (Nat.le_refl _)

/-- A code unit that is no surrogate. It is the character with this number. -/
theorem characters_unitText (hv : v < 0x10000) (hsurrogate : isSurrogate v = false) :
    characters (unitText v ++ rest) = some (Char.ofNat v) :: characters rest := by
  have hlen : (unitText v ++ rest).length = rest.length + 5 + 1 := by simp [unitText]
  rw [characters, hlen, charactersUpTo.eq_def]
  dsimp only
  rw [escapedUnit?_unitText hv]
  simp only [hsurrogate, Bool.false_eq_true, if_false]
  rw [charactersUpTo_eq (by omega)]

/-- A surrogate whose partner does not follow. It cannot be encoded and is read as no character. -/
theorem characters_lone (hv : v < 0x10000) (hsurrogate : isSurrogate v = true)
    (hnext : ∀ x, escapedUnit? rest = some x → surrogatePair? v x.1 = none) :
    characters (unitText v ++ rest) = none :: characters rest := by
  have hlen : (unitText v ++ rest).length = rest.length + 5 + 1 := by simp [unitText]
  have hpair : ((escapedUnit? rest).bind fun x => (surrogatePair? v x.1).map fun c => (c, x.2)) = none := by
    cases hunit : escapedUnit? rest with
    | none => rfl
    | some x => rw [Option.bind_some, hnext x hunit, Option.map_none]
  rw [characters, hlen, charactersUpTo.eq_def]
  dsimp only
  rw [escapedUnit?_unitText hv]
  simp only [hsurrogate, if_true, hpair]
  rw [charactersUpTo_eq (by omega)]

/-- An escape of one letter. The table of letters says which character it is. -/
theorem characters_escape {e : UInt8} (he : isEscape e = true) :
    characters (backslash :: e :: rest) = some (escapeChar e) :: characters rest := by
  have hu : e ≠ 0x75 := by
    rintro rfl
    cases he
  rw [characters, List.length_cons, charactersUpTo.eq_def]
  dsimp only
  rw [escapedUnit?_of_escape hu]
  dsimp only
  rw [if_pos rfl, charactersUpTo_eq (by simp)]

/-- The bytes of a character are not those of an escape. So an escape is only read where a backslash
stands. -/
theorem head_encodeRune (hback : c ≠ '\\') : ∃ b bs, encodeRune c = b :: bs ∧ b ≠ backslash := by
  obtain ⟨b, bs, heq, -⟩ := encodeRune_shape c
  refine ⟨b, bs, heq, ?_⟩
  rintro rfl
  by_cases hascii : c.toNat < 0x80
  · rw [encodeRune_ascii hascii] at heq
    have hbyte := congrArg UInt8.toNat (List.cons.inj heq).1
    rw [UInt8.toNat_ofNat', Nat.mod_eq_of_lt (hascii.trans (by decide))] at hbyte
    apply hback
    rw [← Char.ofNat_toNat c, hbyte]
    rfl
  · have hge := le_of_mem_encodeRune (Nat.not_lt.mp hascii) (heq ▸ List.mem_cons_self)
    exact absurd hge (by decide)

/-- A character that stands for itself. It is decoded from its bytes. -/
theorem characters_encodeRune (hback : c ≠ '\\') :
    characters (encodeRune c ++ rest) = some c :: characters rest := by
  obtain ⟨b, bs, heq, hb⟩ := head_encodeRune hback
  have hdecode := decodeRune_encodeRune c rest
  rw [heq, List.cons_append] at hdecode ⊢
  rw [characters, List.length_cons, charactersUpTo.eq_def]
  dsimp only
  rw [escapedUnit?_of_head hb]
  dsimp only
  rw [if_neg hb, hdecode, Char.ofNat_toNat]
  have hdrop : (b :: (bs ++ rest)).drop (b :: bs).length = rest := List.drop_left
  dsimp only
  rw [hdrop, charactersUpTo_eq (by simp)]

/-! ## Spelling -/

/-- The text spells the characters; `none` is a surrogate without its partner. -/
inductive Spells : Bytes → List (Option Char) → Prop
  | nil : Spells [] []
  | char {c : Char} {text : Bytes} {cs : List (Option Char)} (hlow : 0x20 ≤ c.toNat) (hquote : c ≠ '"')
      (hback : c ≠ '\\') (h : Spells text cs) : Spells (encodeRune c ++ text) (some c :: cs)
  | escape {e : UInt8} {text : Bytes} {cs : List (Option Char)} (he : isEscape e = true)
      (h : Spells text cs) : Spells (backslash :: e :: text) (some (escapeChar e) :: cs)
  | unit {v : ℕ} {text : Bytes} {cs : List (Option Char)} (hv : v < 0x10000)
      (hsurrogate : isSurrogate v = false) (h : Spells text cs) :
      Spells (unitText v ++ text) (some (Char.ofNat v) :: cs)
  | lone {v : ℕ} {text : Bytes} {cs : List (Option Char)} (hv : v < 0x10000)
      (hsurrogate : isSurrogate v = true)
      (hnext : ∀ x, escapedUnit? text = some x → surrogatePair? v x.1 = none) (h : Spells text cs) :
      Spells (unitText v ++ text) (none :: cs)

/-- **What is spelled is read.** The induction is on the derivation; each rule is one round of the
reader. -/
theorem Spells.characters_eq (h : Spells text cs) : characters text = cs := by
  induction h with
  | nil => rfl
  | char _ _ hback _ ih => rw [characters_encodeRune hback, ih]
  | escape he _ ih => rw [characters_escape he, ih]
  | unit hv hsurrogate _ ih => rw [characters_unitText hv hsurrogate, ih]
  | lone hv hsurrogate hnext _ ih => rw [characters_lone hv hsurrogate hnext, ih]

/-- The string that the characters make in Go. -/
def restored (cs : List (Option Char)) : GoString :=
  utf8 (cs.map fun c => c.getD (Char.ofNat runeError))

/-- **A spelled string is read as what it spells**, with what cannot be encoded restored. This is
what a reader gets for a string that another program has written. -/
theorem Spells.unquote_eq (h : Spells text cs) : unquote text = restored cs := by
  unfold unquote
  rw [h.characters_eq]
  rfl

/-- The bytes of a character that needs no escape are plain. They may stand between the quotes as
they are. -/
theorem isPlain_encodeRune (hlow : 0x20 ≤ c.toNat) (hquote : c ≠ '"') (hback : c ≠ '\\') :
    ∀ b ∈ encodeRune c, isPlain b = true := by
  intro b hb
  by_cases hascii : c.toNat < 0x80
  · have hplain : ∀ n < 0x80, 0x20 ≤ n → n ≠ 0x22 → n ≠ 0x5C → isPlain (UInt8.ofNat n) = true := by
      decide
    have hne : ∀ d : Char, c ≠ d → c.toNat ≠ d.toNat := by
      intro d hd heq
      exact hd (Char.toNat_inj.mp heq)
    rw [encodeRune_ascii hascii, List.mem_singleton] at hb
    rw [hb]
    exact hplain _ hascii hlow (hne '"' hquote) (hne '\\' hback)
  · have hge := UInt8.le_iff_toNat_le.mp (le_of_mem_encodeRune (Nat.not_lt.mp hascii) hb)
    have hne : ∀ d : UInt8, d < 0x80 → b ≠ d := by
      rintro d hd rfl
      exact absurd hge (Nat.not_le.mpr (UInt8.lt_iff_toNat_lt.mp hd))
    simp only [isPlain, Bool.and_eq_true, decide_eq_true_eq, bne_iff_ne]
    refine ⟨⟨UInt8.le_iff_toNat_le.mpr (le_trans (by decide) hge), ?_⟩, ?_⟩
    · exact hne _ (by decide)
    · exact hne _ (by decide)

/-- What spells is a text of the grammar. The grammar therefore accepts it between quotes. -/
theorem Spells.isText (h : Spells text cs) : IsText text := by
  induction h with
  | nil => exact .nil
  | char hlow hquote hback _ ih =>
    exact (JsonText.isText_of_plain (isPlain_encodeRune hlow hquote hback)).append ih
  | escape he _ ih => exact .escape he ih
  | unit hv _ _ ih | lone hv _ _ _ ih =>
    refine .unit ?_ ih
    simp only [List.all_cons, List.all_nil, Bool.and_true, Bool.and_eq_true]
    exact ⟨(hexDigit_spec _ (by omega)).2, (hexDigit_spec _ (by omega)).2,
      (hexDigit_spec _ (by omega)).2, (hexDigit_spec _ (by omega)).2⟩

/-- Plain bytes of ASCII spell themselves. It is the case of names and fixed texts. -/
theorem spells_of_plain (h : ∀ b ∈ text, isPlainAscii b = true) :
    Spells text (text.map fun b => some (Char.ofNat b.toNat)) := by
  have hall : ∀ n < 0x80, isPlainAscii (UInt8.ofNat n) = true → 0x20 ≤ (Char.ofNat n).toNat ∧
      Char.ofNat n ≠ '"' ∧ Char.ofNat n ≠ '\\' ∧ encodeRune (Char.ofNat n) = [UInt8.ofNat n] := by
    decide
  induction text with
  | nil => exact .nil
  | cons b text ih =>
    rw [List.forall_mem_cons] at h
    have hplain := h.1
    simp only [isPlainAscii, Bool.and_eq_true, decide_eq_true_eq] at hplain
    obtain ⟨hlow, hquote, hback, hbytes⟩ :=
      hall b.toNat (UInt8.lt_iff_toNat_lt.mp hplain.2) (by rw [UInt8.ofNat_toNat]; exact h.1)
    rw [UInt8.ofNat_toNat] at hbytes
    have hspells := Spells.char hlow hquote hback (ih h.2)
    rw [hbytes] at hspells
    exact hspells

/-! ## UTF-8 -/

/-- The bytes are valid UTF-8. -/
def IsUtf8 (bytes : Bytes) : Prop := ∃ cs, bytes = utf8 cs

/-- The empty string is valid UTF-8. It is the start of the facts below, which put texts
together. -/
theorem isUtf8_nil : IsUtf8 [] := ⟨[], rfl⟩

/-- Valid strings can be put together. The characters of the two follow one another. -/
theorem IsUtf8.append {s t : Bytes} (hs : IsUtf8 s) (ht : IsUtf8 t) : IsUtf8 (s ++ t) := by
  obtain ⟨cs, rfl⟩ := hs
  obtain ⟨ds, rfl⟩ := ht
  exact ⟨cs ++ ds, (utf8_append cs ds).symm⟩

/-- The encoding of a character is valid. It is a text of one character. -/
theorem isUtf8_encodeRune (c : Char) : IsUtf8 (encodeRune c) := ⟨[c], by simp [utf8]⟩

/-- ASCII is valid UTF-8. Each byte is the encoding of a character. -/
theorem isUtf8_of_ascii {s : Bytes} (h : ∀ b ∈ s, b < 0x80) : IsUtf8 s :=
  ⟨s.map fun b => Char.ofNat b.toNat, (utf8_ascii h).symm⟩

/-- The same, with the test evaluated. It is used for literals. -/
theorem isUtf8_of_all {s : Bytes} (h : s.all (fun b => b < 0x80) = true) : IsUtf8 s :=
  isUtf8_of_ascii fun b hb => of_decide_eq_true (List.all_eq_true.mp h b hb)

/-- A byte of ASCII in front. Punctuation around a text keeps it valid. -/
theorem IsUtf8.cons {b : UInt8} {s : Bytes} (hb : b < 0x80) (hs : IsUtf8 s) : IsUtf8 (b :: s) :=
  (isUtf8_of_ascii (s := [b]) fun c hc => by rwa [List.mem_singleton.mp hc]).append hs

/-- An escape is ASCII. It consists of a backslash, a letter and digits. -/
theorem isUtf8_unitText (hv : v < 0x10000) : IsUtf8 (unitText v) := by
  have hdigit : ∀ k < 16, hexDigit (UInt8.ofNat k) < 0x80 := by decide
  apply isUtf8_of_ascii
  intro b hb
  simp only [unitText, List.mem_cons, List.not_mem_nil, or_false] at hb
  rcases hb with rfl | rfl | rfl | rfl | rfl | rfl
  · decide
  · decide
  · exact hdigit _ (by omega)
  · exact hdigit _ (by omega)
  · exact hdigit _ (by omega)
  · exact hdigit _ (by omega)

/-- What spells is valid UTF-8. Each rule of the derivation adds a valid piece. -/
theorem Spells.isUtf8 (h : Spells text cs) : IsUtf8 text := by
  induction h with
  | nil => exact isUtf8_nil
  | char _ _ _ _ ih => exact (isUtf8_encodeRune _).append ih
  | @escape e _ _ he _ ih =>
    have hascii : ∀ n < 256, isEscape (UInt8.ofNat n) = true → UInt8.ofNat n < 0x80 := by decide +kernel
    have hlow := hascii e.toNat e.toNat_lt (by rwa [UInt8.ofNat_toNat])
    rw [UInt8.ofNat_toNat] at hlow
    exact .cons (by decide) (.cons hlow ih)
  | unit hv _ _ ih | lone hv _ _ _ ih => exact (isUtf8_unitText hv).append ih

/-! ## `Marshal` -/

/-- A byte of ASCII. It is written as itself, as an escape by a letter or as one by digits. -/
theorem spells_quoteByte {b : UInt8} (hb : b < 0x80) (h : Spells text cs) :
    Spells (quoteByte b ++ text) (some (Char.ofNat b.toNat) :: cs) := by
  have hlt := UInt8.lt_iff_toNat_lt.mp hb
  unfold quoteByte
  split
  · -- a byte that needs no escape
    rename_i hsafe
    have hraw : ∀ n < 0x80, isSafe (UInt8.ofNat n) = true → 0x20 ≤ (Char.ofNat n).toNat ∧
        Char.ofNat n ≠ '"' ∧ Char.ofNat n ≠ '\\' ∧ encodeRune (Char.ofNat n) = [UInt8.ofNat n] := by
      decide
    obtain ⟨hlow, hquote, hback, hbytes⟩ := hraw b.toNat hlt (by rwa [UInt8.ofNat_toNat])
    rw [UInt8.ofNat_toNat] at hbytes
    rw [← hbytes]
    exact .char hlow hquote hback h
  · split
    · -- the quote and the backslash
      rename_i hb
      rcases hb with rfl | rfl
      · exact .escape rfl h
      · exact .escape rfl h
    · split
      · rename_i hb
        subst hb
        exact .escape (e := 0x62) rfl h
      · split
        · rename_i hb
          subst hb
          exact .escape (e := 0x66) rfl h
        · split
          · rename_i hb
            subst hb
            exact .escape (e := 0x6E) rfl h
          · split
            · rename_i hb
              subst hb
              exact .escape (e := 0x72) rfl h
            · split
              · rename_i hb
                subst hb
                exact .escape (e := 0x74) rfl h
              · -- the other control characters and `<`, `>`, `&` become `\u00XX`
                have hunit : ∀ n < 0x80, unitText n = [backslash, 0x75, 0x30, 0x30,
                    hexDigit (UInt8.ofNat n / 16), hexDigit (UInt8.ofNat n % 16)] ∧
                    isSurrogate n = false := by
                  decide
                obtain ⟨hbytes, hsurrogate⟩ := hunit b.toNat hlt
                rw [UInt8.ofNat_toNat] at hbytes
                rw [← hbytes]
                exact .unit (hlt.trans (by decide)) hsurrogate h

/-- The escapes that `appendString` has for runes outside ASCII. They are compared by evaluation. -/
theorem escapes_eq : goString "\\ufffd" = unitText runeError ∧
    goString "\\u202" ++ [hexDigit (UInt8.ofNat (0x2028 % 16))] = unitText 0x2028 ∧
    goString "\\u202" ++ [hexDigit (UInt8.ofNat (0x2029 % 16))] = unitText 0x2029 := by
  decide +kernel

/-- **`Marshal` spells** the runes of a string. The induction follows the runes; a byte that is no
valid rune is written as the replacement character. -/
theorem spells_quoteText (s : GoString) : Spells (quoteText s) ((runes s).map some) := by
  unfold quoteText
  generalize hn : s.length = n
  have hle : s.length ≤ n := hn.le
  clear hn
  induction n generalizing s with
  | zero =>
    obtain rfl := List.length_eq_zero_iff.mp (Nat.le_zero.mp hle)
    exact .nil
  | succ n ih =>
    cases s with
    | nil => exact .nil
    | cons b s =>
      rw [quoteUpTo]
      by_cases hb : b < 0x80
      · rw [if_pos hb, runes_ascii hb, List.map_cons]
        exact spells_quoteByte hb (ih s (Nat.le_of_succ_le_succ hle))
      · have hne := List.cons_ne_nil b s
        have hwidth := decodeRune_width hne
        have hlow := le_decodeRune s hb
        have hrest := ih ((b :: s).drop (decodeRune (b :: s)).2) (by
          rw [List.length_drop]
          rw [List.length_cons] at hle ⊢
          omega)
        obtain ⟨herror, hline, hparagraph⟩ := escapes_eq
        rw [if_neg hb, runes_cons hne, List.map_cons]
        dsimp only
        by_cases hbad : (decodeRune (b :: s)).1 = runeError ∧ (decodeRune (b :: s)).2 = 1
        · rw [if_pos hbad, hbad.1, herror]
          exact .unit (by decide) rfl hrest
        · rw [if_neg hbad]
          by_cases hsep : (decodeRune (b :: s)).1 = 0x2028 ∨ (decodeRune (b :: s)).1 = 0x2029
          · rw [if_pos hsep, ← List.singleton_append, ← List.append_assoc]
            rcases hsep with hsep | hsep
            · rw [hsep, hline]
              exact .unit (by decide) rfl hrest
            · rw [hsep, hparagraph]
              exact .unit (by decide) rfl hrest
          · -- a character outside ASCII is written as it is
            have hvalid : decodeRune (b :: s) ≠ (runeError, 1) := by
              intro heq
              exact hbad ⟨congrArg Prod.fst heq, congrArg Prod.snd heq⟩
            obtain ⟨c, rest, heq⟩ := eq_of_decodeRune hne hvalid
            have hdecode := decodeRune_encodeRune c rest
            rw [← heq] at hdecode
            rw [if_neg hsep]
            rw [hdecode] at hlow hrest ⊢
            dsimp only at hlow hrest ⊢
            have htake : (b :: s).take (encodeRune c).length = encodeRune c := by
              rw [heq, List.take_left]
            rw [htake, Char.ofNat_toNat]
            refine .char (le_trans (by decide) hlow) ?_ ?_ hrest
            · rintro rfl
              exact absurd hlow (by decide)
            · rintro rfl
              exact absurd hlow (by decide)

/-- A string that is valid UTF-8 is the encoding of its runes. Decoding inverts encoding, character
by character. -/
theorem runes_utf8 (cs : List Char) : runes (utf8 cs) = cs := by
  induction cs with
  | nil => rfl
  | cons c cs ih =>
    have hne : encodeRune c ++ utf8 cs ≠ [] := by
      intro h
      exact encodeRune_ne_nil c (List.append_eq_nil_iff.mp h).1
    rw [utf8_cons, runes_cons hne, decodeRune_encodeRune]
    dsimp only
    rw [List.drop_left, ih, Char.ofNat_toNat]

end LanRoom.Go
