import LanRoom.Go.Utf8

/-! # Reading a string from its end

`utf8.DecodeLastRuneInString` steps back to the last byte that starts a rune and decodes forward from
there. On the end of a valid string it reads the last character (`decodeLastRune_encodeRune`), and it
reads no white space but an encoded one (`eq_of_decodeRune`). So `strings.TrimSpace` takes encoded
white space off both ends, and nothing else. -/

namespace LanRoom.Go

/-! ## The bytes of a character -/

/-- A character is a byte that starts a rune and at most three that do not; there are none of these in
ASCII only. -/
theorem encodeRune_shape (c : Char) :
    ∃ b rest, encodeRune c = b :: rest ∧ runeStart b = true ∧ rest.length ≤ 3 ∧
      (∀ x ∈ rest, runeStart x = false) ∧ (rest = [] → c.toNat < 0x80) := by
  have hvalid := toNat_char c
  -- a continuation byte is `10xxxxxx`, never the start of a rune
  have hcont : ∀ m, runeStart (UInt8.ofNat (0x80 + m % 64)) = false := by
    have hall : ∀ m < 64, runeStart (UInt8.ofNat (0x80 + m)) = false := by
      decide
    intro m
    exact hall (m % 64) (Nat.mod_lt m (by decide))
  have hstart : ∀ n < 256, n < 0x80 ∨ 0xC0 ≤ n → runeStart (UInt8.ofNat n) = true := by
    decide +kernel
  have hnone : ∀ x ∈ ([] : List UInt8), runeStart x = false := by
    simp
  have hmore : ∀ m {l : List UInt8}, (∀ x ∈ l, runeStart x = false) →
      ∀ x ∈ UInt8.ofNat (0x80 + m % 64) :: l, runeStart x = false := by
    intro m l hl
    rw [List.forall_mem_cons]
    exact ⟨hcont m, hl⟩
  unfold encodeRune
  generalize c.toNat = v at hvalid
  simp only
  -- one to four bytes, by the size of the code point
  split
  · rename_i hone
    exact ⟨_, _, rfl, hstart v (by omega) (Or.inl hone), by simp, hnone, fun _ => hone⟩
  · split
    · exact ⟨_, _, rfl, hstart _ (by omega) (by omega), by simp, hmore _ hnone, by simp⟩
    · split
      · exact ⟨_, _, rfl, hstart _ (by omega) (by omega), by simp, hmore _ (hmore _ hnone), by simp⟩
      · exact ⟨_, _, rfl, hstart _ (by omega) (by omega), by simp,
          hmore _ (hmore _ (hmore _ hnone)), by simp⟩

/-- Every character has an encoding of at least one byte. The decoders can therefore make progress
at every character. -/
theorem encodeRune_ne_nil (c : Char) : encodeRune c ≠ [] := by
  obtain ⟨b, rest, heq, -⟩ := encodeRune_shape c
  rw [heq]
  exact List.cons_ne_nil b rest

/-- A character has at most four bytes. This is the bound `utf8.UTFMax` by which the reader of the
last rune looks back. -/
theorem length_encodeRune_le (c : Char) : (encodeRune c).length ≤ 4 := by
  obtain ⟨b, rest, heq, -, hlen, -, -⟩ := encodeRune_shape c
  rw [heq, List.length_cons]
  omega

/-- Texts are encoded piece by piece. So a valid string can be cut at a boundary of characters, and
only there. -/
theorem utf8_append (cs ds : List Char) : utf8 (cs ++ ds) = utf8 cs ++ utf8 ds :=
  List.flatMap_append

/-- The encoding of a text ends with that of its last character. Reading a text from the right
begins with this equation. -/
theorem utf8_concat (cs : List Char) (c : Char) : utf8 (cs ++ [c]) = utf8 cs ++ encodeRune c := by
  rw [utf8_append, utf8_cons]
  exact congrArg _ (List.append_nil _)

/-! ## The last rune -/

/-- The way back over the bytes of a rune. It stops at the first byte that can start a rune; at most
two bytes are passed before it. -/
theorem stepBack_append {conts rev : List UInt8} {b : UInt8} (hlen : conts.length ≤ 2)
    (hconts : ∀ x ∈ conts, runeStart x = false) (hb : runeStart b = true) :
    stepBack (conts ++ b :: rev) = conts.length + 1 := by
  have htake : (conts ++ b :: rev).take 3 = conts ++ b :: rev.take (2 - conts.length) := by
    rw [List.take_append, List.take_of_length_le (hlen.trans (by decide))]
    obtain ⟨k, hk⟩ : ∃ k, 3 - conts.length = k + 1 := ⟨2 - conts.length, by omega⟩
    rw [hk, List.take_succ_cons]
    congr 3
    omega
  have hseen : ((conts ++ b :: rev).take 3).takeWhile (fun b => !runeStart b) = conts := by
    rw [htake, List.takeWhile_append_of_pos (by simpa using hconts)]
    simp [hb]
  unfold stepBack
  simp only [hseen, List.length_append, List.length_cons]
  omega

/-- The reader looks at five bytes at most. A suffix of the string therefore decides what its last
rune is. -/
theorem decodeLastRune_le (s : GoString) : (decodeLastRune s).2 ≤ 5 := by
  have hback : ∀ rev, stepBack rev ≤ 4 := by
    intro rev
    have hseen : ((rev.take 3).takeWhile fun b => !runeStart b).length ≤ 3 :=
      (List.takeWhile_prefix _).length_le.trans (List.length_take_le 3 rev)
    exact (Nat.min_le_left _ _).trans (Nat.succ_le_succ hseen)
  rw [decodeLastRune]
  cases s.reverse with
  | nil => exact Nat.zero_le 5
  | cons last rev =>
    dsimp only
    split
    · exact Nat.one_le_ofNat
    · split
      · exact Nat.one_le_ofNat
      · rename_i heq
        rw [not_not.mp heq]
        exact Nat.succ_le_succ (hback rev)

/-- **The last rune of a valid string** is its last character. The bytes of `c` are found by going
back to its first one, and nothing in front of it matters. -/
theorem decodeLastRune_encodeRune (s : GoString) (c : Char) :
    decodeLastRune (s ++ encodeRune c) = (c.toNat, (encodeRune c).length) := by
  have hdecode := decodeRune_encodeRune c []
  rw [List.append_nil] at hdecode
  obtain ⟨b, rest, heq, hb, hlen, hrest, hnil⟩ := encodeRune_shape c
  by_cases hascii : c.toNat < 0x80
  · rw [encodeRune_ascii hascii]
    have hbyte : (UInt8.ofNat c.toNat).toNat = c.toNat := by
      rw [UInt8.toNat_ofNat']
      omega
    have hlt : UInt8.ofNat c.toNat < 0x80 := by
      rw [UInt8.lt_iff_toNat_lt, hbyte]
      exact hascii
    rw [decodeLastRune_ascii hlt, hbyte]
    rfl
  · -- the last byte continues, so that the reader steps back to the first
    rcases List.eq_nil_or_concat rest with hempty | ⟨conts, last, hconcat⟩
    · exact absurd (hnil hempty) hascii
    · rw [List.concat_eq_append] at hconcat
      subst hconcat
      have hlast : ¬last < 0x80 := by
        rw [UInt8.not_lt]
        apply le_of_mem_encodeRune (c := c) (by omega)
        rw [heq]
        simp
      rw [List.length_append, List.length_singleton] at hlen
      have hrev : (s ++ encodeRune c).reverse = last :: (conts.reverse ++ b :: s.reverse) := by
        rw [heq]
        simp
      have hback : stepBack (conts.reverse ++ b :: s.reverse) + 1 = (encodeRune c).length := by
        rw [stepBack_append, heq]
        · simp
        · simp only [List.length_reverse]
          omega
        · intro x hx
          exact hrest x (List.mem_append_left _ (List.mem_reverse.mp hx))
        · exact hb
      have hdrop : (s ++ encodeRune c).drop ((s ++ encodeRune c).length - (encodeRune c).length) =
          encodeRune c := by
        rw [List.length_append, Nat.add_sub_cancel, List.drop_left]
      rw [decodeLastRune, hrev]
      simp only [if_neg hlast, hback, hdrop, hdecode, ne_eq, not_true_eq_false, if_false]

/-! ## What is read is an encoding -/

/-- The bytes from `0x80` to `0xBF`. Such a byte is determined by the six bits it carries, which is
how an encoding is rebuilt from what was read. -/
theorem continuation_eq {b : UInt8} (hlo : 0x80 ≤ b) (hhi : b ≤ 0xBF) :
    b = UInt8.ofNat (0x80 + payload b) ∧ payload b < 64 := by
  have hall : ∀ n < 256, 0x80 ≤ UInt8.ofNat n → UInt8.ofNat n ≤ 0xBF →
      UInt8.ofNat n = UInt8.ofNat (0x80 + payload (UInt8.ofNat n)) ∧
        payload (UInt8.ofNat n) < 64 := by
    decide +kernel
  have hb := hall b.toNat b.toNat_lt
  rw [UInt8.ofNat_toNat] at hb
  exact hb hlo hhi

/-- The payload of a second byte that is not too large. The two upper bounds are those after the
first bytes `0xED` and `0xF4`. -/
theorem payload_lt {b : UInt8} (hlo : 0x80 ≤ b) :
    (b ≤ 0x9F → payload b < 32) ∧ (b ≤ 0x8F → payload b < 16) := by
  have hall : ∀ n < 256, 0x80 ≤ UInt8.ofNat n →
      (UInt8.ofNat n ≤ 0x9F → payload (UInt8.ofNat n) < 32) ∧
      (UInt8.ofNat n ≤ 0x8F → payload (UInt8.ofNat n) < 16) := by
    decide +kernel
  have hb := hall b.toNat b.toNat_lt
  rw [UInt8.ofNat_toNat] at hb
  exact hb hlo

/-- A valid value is that of a character. The two ranges are the scalar values below and above the
surrogates. -/
theorem exists_toNat_eq {v : ℕ} (h : v < 0xD800 ∨ 0xDFFF < v ∧ v < 0x110000) :
    ∃ c : Char, c.toNat = v := by
  refine ⟨Char.ofNat v, ?_⟩
  rw [Char.toNat_ofNat, if_pos h]

/-- Every encoding of two bytes is one of a character. The head is at least two, since a smaller one
would encode a byte of ASCII in a longer form. -/
theorem exists_two {h m : ℕ} (hge : 2 ≤ h) (hlt : h < 32) (hm : m < 64) :
    ∃ c, encodeRune c = [UInt8.ofNat (0xC0 + h), UInt8.ofNat (0x80 + m)] := by
  obtain ⟨c, hc⟩ := exists_toNat_eq (v := h * 64 + m) (by omega)
  refine ⟨c, ?_⟩
  have hhigh : (h * 64 + m) / 64 = h := by omega
  have hlow : (h * 64 + m) % 64 = m := by omega
  unfold encodeRune
  simp only
  rw [hc, if_neg (by omega), if_pos (by omega), hhigh, hlow]

/-- Every encoding of three bytes, the shortest one and no surrogate. The hypotheses on the second
byte are those that the table of first bytes enforces. -/
theorem exists_three {h m₁ m₂ : ℕ} (hlt : h < 16) (hm₁ : m₁ < 64) (hm₂ : m₂ < 64)
    (hzero : h = 0 → 32 ≤ m₁) (hlast : h = 13 → m₁ < 32) :
    ∃ c, encodeRune c =
      [UInt8.ofNat (0xE0 + h), UInt8.ofNat (0x80 + m₁), UInt8.ofNat (0x80 + m₂)] := by
  obtain ⟨c, hc⟩ := exists_toNat_eq (v := (h * 64 + m₁) * 64 + m₂) (by omega)
  refine ⟨c, ?_⟩
  have hhigh : ((h * 64 + m₁) * 64 + m₂) / 4096 = h := by omega
  have hmid : ((h * 64 + m₁) * 64 + m₂) / 64 % 64 = m₁ := by omega
  have hlow : ((h * 64 + m₁) * 64 + m₂) % 64 = m₂ := by omega
  unfold encodeRune
  simp only
  rw [hc, if_neg (by omega), if_neg (by omega), if_pos (by omega), hhigh, hmid, hlow]

/-- Every encoding of four bytes, the shortest one and not too large. Again the table of first bytes
enforces the two hypotheses on the second byte. -/
theorem exists_four {h m₁ m₂ m₃ : ℕ} (hlt : h < 5) (hm₁ : m₁ < 64) (hm₂ : m₂ < 64) (hm₃ : m₃ < 64)
    (hzero : h = 0 → 16 ≤ m₁) (hlast : h = 4 → m₁ < 16) :
    ∃ c, encodeRune c = [UInt8.ofNat (0xF0 + h), UInt8.ofNat (0x80 + m₁),
      UInt8.ofNat (0x80 + m₂), UInt8.ofNat (0x80 + m₃)] := by
  obtain ⟨c, hc⟩ := exists_toNat_eq (v := ((h * 64 + m₁) * 64 + m₂) * 64 + m₃) (by omega)
  refine ⟨c, ?_⟩
  have hhigh : (((h * 64 + m₁) * 64 + m₂) * 64 + m₃) / 262144 = h := by omega
  have hmid₁ : (((h * 64 + m₁) * 64 + m₂) * 64 + m₃) / 4096 % 64 = m₁ := by omega
  have hmid₂ : (((h * 64 + m₁) * 64 + m₂) * 64 + m₃) / 64 % 64 = m₂ := by omega
  have hlow : (((h * 64 + m₁) * 64 + m₂) * 64 + m₃) % 64 = m₃ := by omega
  unfold encodeRune
  simp only
  rw [hc, if_neg (by omega), if_neg (by omega), if_neg (by omega), hhigh, hmid₁, hmid₂, hlow]

/-- What is accepted after a first byte. -/
structure Starter (b : UInt8) (n : ℕ) (lo hi : UInt8) : Prop where
  two : n = 2 → b = UInt8.ofNat (0xC0 + (b &&& 0x1F).toNat) ∧ 2 ≤ (b &&& 0x1F).toNat ∧
    (b &&& 0x1F).toNat < 32
  three : n = 3 → b = UInt8.ofNat (0xE0 + (b &&& 0x0F).toNat) ∧ (b &&& 0x0F).toNat < 16 ∧
    ((b &&& 0x0F).toNat = 0 → lo = 0xA0) ∧ ((b &&& 0x0F).toNat = 13 → hi = 0x9F)
  four : n = 4 → b = UInt8.ofNat (0xF0 + (b &&& 0x07).toNat) ∧ (b &&& 0x07).toNat < 5 ∧
    ((b &&& 0x07).toNat = 0 → lo = 0x90) ∧ ((b &&& 0x07).toNat = 4 → hi = 0x8F)
  range : 0x80 ≤ lo ∧ hi ≤ 0xBF

/-- What the table says of a first byte, as arithmetic: how many bytes follow, and which code points
the bounds on the second one leave. -/
theorem starter_of_firstByte {b lo hi : UInt8} {n : ℕ} (h : firstByte b = some (n, lo, hi)) :
    Starter b n lo hi := by
  have hall : ∀ k < 256, (firstByte (UInt8.ofNat k)).all fun x =>
      (x.1 = 2 → UInt8.ofNat k = UInt8.ofNat (0xC0 + (UInt8.ofNat k &&& 0x1F).toNat) ∧
        2 ≤ (UInt8.ofNat k &&& 0x1F).toNat ∧ (UInt8.ofNat k &&& 0x1F).toNat < 32) ∧
      (x.1 = 3 → UInt8.ofNat k = UInt8.ofNat (0xE0 + (UInt8.ofNat k &&& 0x0F).toNat) ∧
        (UInt8.ofNat k &&& 0x0F).toNat < 16 ∧
        ((UInt8.ofNat k &&& 0x0F).toNat = 0 → x.2.1 = 0xA0) ∧
        ((UInt8.ofNat k &&& 0x0F).toNat = 13 → x.2.2 = 0x9F)) ∧
      (x.1 = 4 → UInt8.ofNat k = UInt8.ofNat (0xF0 + (UInt8.ofNat k &&& 0x07).toNat) ∧
        (UInt8.ofNat k &&& 0x07).toNat < 5 ∧
        ((UInt8.ofNat k &&& 0x07).toNat = 0 → x.2.1 = 0x90) ∧
        ((UInt8.ofNat k &&& 0x07).toNat = 4 → x.2.2 = 0x8F)) ∧
      0x80 ≤ x.2.1 ∧ x.2.2 ≤ 0xBF := by
    decide +kernel
  have hb := hall b.toNat b.toNat_lt
  rw [UInt8.ofNat_toNat, h] at hb
  obtain ⟨htwo, hthree, hfour, hrange⟩ := of_decide_eq_true hb
  exact ⟨htwo, hthree, hfour, hrange⟩

/-- A second byte that is accepted continues. The narrower ranges of the table lie inside the range
of all continuation bytes. -/
theorem Starter.continues {b b₁ lo hi : UInt8} {n : ℕ} (h : Starter b n lo hi)
    (hok : lo ≤ b₁ ∧ b₁ ≤ hi) : 0x80 ≤ b₁ ∧ b₁ ≤ 0xBF :=
  ⟨UInt8.le_trans h.range.1 hok.1, UInt8.le_trans hok.2 h.range.2⟩

/-- **A string that is not read as an error** starts with the encoding of a character. It is the
converse of the round trip: the table of first bytes admits nothing but encodings of characters. -/
theorem eq_of_decodeRune {s : GoString} (hs : s ≠ []) (h : decodeRune s ≠ (runeError, 1)) :
    ∃ c rest, s = encodeRune c ++ rest := by
  obtain ⟨b₀, rest, rfl⟩ := List.exists_cons_of_ne_nil hs
  by_cases hascii : b₀ < 0x80
  · have hlt := UInt8.lt_iff_toNat_lt.mp hascii
    obtain ⟨c, hc⟩ := exists_toNat_eq (v := b₀.toNat) (Or.inl (hlt.trans (by decide)))
    refine ⟨c, rest, ?_⟩
    rw [encodeRune_ascii (hc ▸ hlt), hc, UInt8.ofNat_toNat, List.singleton_append]
  · cases hfirst : firstByte b₀ with
    | none => exact absurd (by simp [decodeRune, hascii, hfirst]) h
    | some w =>
      obtain ⟨n, lo, hi⟩ := w
      have hstart := starter_of_firstByte hfirst
      obtain ⟨hn, -⟩ := firstByte_bounds hfirst
      rcases hn with rfl | rfl | rfl
      · -- two bytes
        obtain ⟨hb₀, hge, hlt⟩ := hstart.two rfl
        rcases rest with _ | ⟨b₁, rest⟩
        · exact absurd (by simp [decodeRune, hascii, hfirst]) h
        · by_cases hok : lo ≤ b₁ ∧ b₁ ≤ hi
          · obtain ⟨hlo, hhi⟩ := hstart.continues hok
            obtain ⟨hb₁, hm⟩ := continuation_eq hlo hhi
            obtain ⟨c, hc⟩ := exists_two hge hlt hm
            rw [← hb₀, ← hb₁] at hc
            exact ⟨c, rest, by rw [hc, List.cons_append, List.singleton_append]⟩
          · exact absurd (by simp [decodeRune, hascii, hfirst, hok]) h
      · -- three bytes; the bounds exclude overlong forms and surrogates
        obtain ⟨hb₀, hlt, hzero, hlast⟩ := hstart.three rfl
        rcases rest with _ | ⟨b₁, _ | ⟨b₂, rest⟩⟩
        · exact absurd (by simp [decodeRune, hascii, hfirst]) h
        · exact absurd (by simp [decodeRune, hascii, hfirst]) h
        · by_cases hok : (lo ≤ b₁ ∧ b₁ ≤ hi) ∧ 0x80 ≤ b₂ ∧ b₂ ≤ 0xBF
          · obtain ⟨hlo, hhi⟩ := hstart.continues hok.1
            obtain ⟨hb₁, hm₁⟩ := continuation_eq hlo hhi
            obtain ⟨hb₂, hm₂⟩ := continuation_eq hok.2.1 hok.2.2
            obtain ⟨c, hc⟩ := exists_three hlt hm₁ hm₂
              (fun h0 => (payload_ge hhi).1 (hzero h0 ▸ hok.1.1))
              (fun h13 => (payload_lt hlo).1 (hlast h13 ▸ hok.1.2))
            rw [← hb₀, ← hb₁, ← hb₂] at hc
            exact ⟨c, rest, by rw [hc]; rfl⟩
          · exact absurd (by simp [decodeRune, hascii, hfirst, hok]) h
      · -- four bytes; the bounds exclude overlong forms and what is above `U+10FFFF`
        obtain ⟨hb₀, hlt, hzero, hlast⟩ := hstart.four rfl
        rcases rest with _ | ⟨b₁, _ | ⟨b₂, _ | ⟨b₃, rest⟩⟩⟩
        · exact absurd (by simp [decodeRune, hascii, hfirst]) h
        · exact absurd (by simp [decodeRune, hascii, hfirst]) h
        · exact absurd (by simp [decodeRune, hascii, hfirst]) h
        · by_cases hok : (lo ≤ b₁ ∧ b₁ ≤ hi) ∧ (0x80 ≤ b₂ ∧ b₂ ≤ 0xBF) ∧ 0x80 ≤ b₃ ∧ b₃ ≤ 0xBF
          · obtain ⟨hlo, hhi⟩ := hstart.continues hok.1
            obtain ⟨hb₁, hm₁⟩ := continuation_eq hlo hhi
            obtain ⟨hb₂, hm₂⟩ := continuation_eq hok.2.1.1 hok.2.1.2
            obtain ⟨hb₃, hm₃⟩ := continuation_eq hok.2.2.1 hok.2.2.2
            obtain ⟨c, hc⟩ := exists_four hlt hm₁ hm₂ hm₃
              (fun h0 => (payload_ge hhi).2 (hzero h0 ▸ hok.1.1))
              (fun h4 => (payload_lt hlo).2 (hlast h4 ▸ hok.1.2))
            rw [← hb₀, ← hb₁, ← hb₂, ← hb₃] at hc
            exact ⟨c, rest, by rw [hc]; rfl⟩
          · exact absurd (by simp [decodeRune, hascii, hfirst, hok]) h

/-- **The last rune that is not an error** is encoded at the end. Conversely to
`decodeLastRune_encodeRune`: a string whose last rune is read without an error ends in a
character. -/
theorem eq_of_decodeLastRune {s : GoString} (hs : s ≠ [])
    (h : decodeLastRune s ≠ (runeError, 1)) : ∃ t c, s = t ++ encodeRune c := by
  obtain ⟨last, rev, hrev⟩ := List.exists_cons_of_ne_nil (List.reverse_ne_nil_iff.mpr hs)
  rw [decodeLastRune, hrev] at h
  by_cases hascii : last < 0x80
  · have hlt := UInt8.lt_iff_toNat_lt.mp hascii
    obtain ⟨c, hc⟩ := exists_toNat_eq (v := last.toNat) (Or.inl (hlt.trans (by decide)))
    refine ⟨rev.reverse, c, ?_⟩
    rw [encodeRune_ascii (hc ▸ hlt), hc, UInt8.ofNat_toNat, ← List.reverse_cons, ← hrev,
      List.reverse_reverse]
  · simp only [if_neg hascii] at h
    generalize hwidth : stepBack rev + 1 = width at h
    have hpos : 0 < width := hwidth ▸ Nat.succ_pos _
    have hlen := List.length_pos_iff.mpr hs
    by_cases hsize : (decodeRune (s.drop (s.length - width))).2 = width
    · rw [if_neg (not_not.mpr hsize)] at h
      have hne : s.drop (s.length - width) ≠ [] := by
        apply List.ne_nil_of_length_pos
        rw [List.length_drop]
        omega
      obtain ⟨c, rest, heq⟩ := eq_of_decodeRune hne h
      -- the character takes up all that was decoded
      have hrest : rest = [] := by
        rw [heq, decodeRune_encodeRune] at hsize
        have hwide : (encodeRune c).length = width := hsize
        have hlength := congrArg List.length heq
        rw [List.length_drop, List.length_append, hwide] at hlength
        apply List.eq_nil_of_length_eq_zero
        omega
      refine ⟨s.take (s.length - width), c, ?_⟩
      rw [hrest, List.append_nil] at heq
      rw [← heq, List.take_append_drop]
    · rw [if_pos hsize] at h
      exact absurd rfl h

/-! ## White space -/

/-- Text of white space. -/
def Blank (s : GoString) : Prop := ∃ cs, s = utf8 cs ∧ ∀ c ∈ cs, isSpace c.toNat = true

/-- The replacement character is no space. So trimming stops at the first byte that is not valid
UTF-8. -/
theorem not_isSpace_runeError : isSpace runeError = false := rfl

/-- So a rune that is a space has been read without an error. Each step of trimming removes the
whole encoding of a character. -/
theorem ne_error_of_isSpace {x : ℕ × ℕ} (h : isSpace x.1 = true) : x ≠ (runeError, 1) := by
  rintro rfl
  rw [not_isSpace_runeError] at h
  exact absurd h (by decide)

/-- Nothing is trimmed off the empty string. It is where the recursion of trimming ends. -/
theorem trimLeft_nil : trimLeft [] = [] := by
  delta trimLeft
  rw [WellFounded.Nat.fix_eq]

/-- One rune at the front. Either it is a space and the rest is trimmed, or the string begins as it
should. -/
theorem trimLeft_eq {s : GoString} (hs : s ≠ []) :
    trimLeft s = if isSpace (decodeRune s).1 then trimLeft (s.drop (decodeRune s).2) else s := by
  obtain ⟨b, s, rfl⟩ := List.exists_cons_of_ne_nil hs
  -- as in `trimLeft_of_plain`
  delta trimLeft
  rw [WellFounded.Nat.fix_eq]
  rfl

/-- One step of trimming from the right. Either the last rune is a space and what stands before it
is trimmed, or nothing is taken off. -/
theorem trimRight_eq {s : GoString} (hs : s ≠ []) :
    trimRight s =
      if isSpace (decodeLastRune s).1 then trimRight (s.take (s.length - (decodeLastRune s).2))
      else s := by
  obtain ⟨b, s, rfl⟩ := List.exists_cons_of_ne_nil hs
  delta trimRight
  rw [WellFounded.Nat.fix_eq]
  rfl

/-- Nothing is trimmed off the empty string. It is where the recursion from the right ends. -/
theorem trimRight_nil : trimRight [] = [] := by
  delta trimRight
  rw [WellFounded.Nat.fix_eq]

/-- White space in front is taken off. What follows is not looked at before all of it is gone. -/
theorem trimLeft_append {l : GoString} (hl : Blank l) (s : GoString) :
    trimLeft (l ++ s) = trimLeft s := by
  obtain ⟨cs, rfl, hcs⟩ := hl
  induction cs with
  | nil => rfl
  | cons c cs ih =>
    have hne : encodeRune c ++ (utf8 cs ++ s) ≠ [] := fun h =>
      encodeRune_ne_nil c (List.append_eq_nil_iff.mp h).1
    rw [utf8_cons, List.append_assoc, trimLeft_eq hne, decodeRune_encodeRune,
      if_pos (hcs c List.mem_cons_self), List.drop_left]
    exact ih fun d hd => hcs d (List.mem_cons_of_mem c hd)

/-- White space at the end is taken off. What stands before it is trimmed as if the white space were
not there. -/
theorem trimRight_append (s : GoString) {r : GoString} (hr : Blank r) :
    trimRight (s ++ r) = trimRight s := by
  obtain ⟨cs, rfl, hcs⟩ := hr
  induction cs using List.reverseRecOn with
  | nil => rw [utf8, List.flatMap_nil, List.append_nil]
  | append_singleton cs c ih =>
    have hne : s ++ utf8 cs ++ encodeRune c ≠ [] := fun h =>
      encodeRune_ne_nil c (List.append_eq_nil_iff.mp h).2
    rw [utf8_concat, ← List.append_assoc, trimRight_eq hne, decodeLastRune_encodeRune,
      if_pos (hcs c (by simp)), List.length_append, Nat.add_sub_cancel, List.take_left]
    exact ih fun d hd => hcs d (List.mem_append_left [c] hd)

/-- The empty string consists of spaces. It is the white space around a string that needs no
trimming. -/
theorem Blank.nil : Blank [] := ⟨[], rfl, by simp⟩

/-- **Nothing but white space** is taken off in front. Together with the same fact for the end this
says that trimming only shortens a string. -/
theorem exists_trimLeft (s : GoString) : ∃ l, Blank l ∧ s = l ++ trimLeft s := by
  generalize hm : s.length = m
  induction m using Nat.strong_induction_on generalizing s with
  | _ m ih =>
    by_cases hs : s = []
    · subst hs
      exact ⟨[], Blank.nil, trimLeft_nil.symm⟩
    · by_cases hspace : isSpace (decodeRune s).1 = true
      · obtain ⟨c, rest, rfl⟩ := eq_of_decodeRune hs (ne_error_of_isSpace hspace)
        rw [trimLeft_eq hs, if_pos hspace, decodeRune_encodeRune, List.drop_left]
        rw [decodeRune_encodeRune] at hspace
        have hlen := List.length_pos_iff.mpr (encodeRune_ne_nil c)
        rw [List.length_append] at hm
        obtain ⟨_, ⟨cs, rfl, hcs⟩, heq⟩ := ih rest.length (by omega) rest rfl
        refine ⟨utf8 (c :: cs), ⟨c :: cs, rfl, ?_⟩, ?_⟩
        · rw [List.forall_mem_cons]
          exact ⟨hspace, hcs⟩
        · rw [utf8_cons, List.append_assoc, ← heq]
      · rw [trimLeft_eq hs, if_neg hspace]
        exact ⟨[], Blank.nil, rfl⟩

/-- **Nothing but white space** is taken off at the end. The induction is on the number of bytes,
since each step takes the last rune off. -/
theorem exists_trimRight (s : GoString) : ∃ r, Blank r ∧ s = trimRight s ++ r := by
  generalize hm : s.length = m
  -- induction on the length; each round takes one space character off the end
  induction m using Nat.strong_induction_on generalizing s with
  | _ m ih =>
    by_cases hs : s = []
    · subst hs
      refine ⟨[], Blank.nil, ?_⟩
      rw [trimRight_nil, List.append_nil]
    · -- the last character is a space; an invalid byte is not
      by_cases hspace : isSpace (decodeLastRune s).1 = true
      · obtain ⟨t, c, rfl⟩ := eq_of_decodeLastRune hs (ne_error_of_isSpace hspace)
        rw [trimRight_eq hs, if_pos hspace, decodeLastRune_encodeRune, List.length_append,
          Nat.add_sub_cancel, List.take_left]
        rw [decodeLastRune_encodeRune] at hspace
        have hlen := List.length_pos_iff.mpr (encodeRune_ne_nil c)
        rw [List.length_append] at hm
        obtain ⟨_, ⟨cs, rfl, hcs⟩, heq⟩ := ih t.length (by omega) t rfl
        refine ⟨utf8 (cs ++ [c]), ⟨cs ++ [c], rfl, ?_⟩, ?_⟩
        · rw [List.forall_mem_append]
          exact ⟨hcs, by simpa using hspace⟩
        · rw [utf8_concat, ← List.append_assoc, ← heq]
      · rw [trimRight_eq hs, if_neg hspace]
        refine ⟨[], Blank.nil, ?_⟩
        rw [List.append_nil]

/-- What is left between white space at both ends. Every string is its trimmed form between two
strings of white space. -/
theorem exists_trimSpace (s : GoString) : ∃ l r, Blank l ∧ Blank r ∧ s = l ++ trimSpace s ++ r := by
  obtain ⟨l, hl, hleft⟩ := exists_trimLeft s
  obtain ⟨r, hr, hright⟩ := exists_trimRight (trimLeft s)
  refine ⟨l, r, hl, hr, ?_⟩
  rw [trimSpace, List.append_assoc, ← hright, ← hleft]

example : trimSpace [0x20, 0xC2, 0x85, 0x61, 0x09] = [0x61] := by decide +kernel

end LanRoom.Go
