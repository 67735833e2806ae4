import LanRoom.Go.Text

/-! # UTF-8

`utf8.AppendRune` and the text of a valid UTF-8 string. What `DecodeRuneInString` reads from the
encoding of a character is this character (`decodeRune_encodeRune`), and an ASCII byte in a string
ends whatever stands before it (`runes_append`). -/

namespace LanRoom.Go

/-- `utf8.AppendRune` to the empty string. -/
def encodeRune (c : Char) : GoString :=
  let v := c.toNat
  if v < 0x80 then [UInt8.ofNat v]
  else if v < 0x800 then [UInt8.ofNat (0xC0 + v / 64), UInt8.ofNat (0x80 + v % 64)]
  else if v < 0x10000 then
    [UInt8.ofNat (0xE0 + v / 4096), UInt8.ofNat (0x80 + v / 64 % 64), UInt8.ofNat (0x80 + v % 64)]
  else
    [UInt8.ofNat (0xF0 + v / 262144), UInt8.ofNat (0x80 + v / 4096 % 64),
      UInt8.ofNat (0x80 + v / 64 % 64), UInt8.ofNat (0x80 + v % 64)]

/-- The string of a sequence of characters. -/
def utf8 (cs : List Char) : GoString := cs.flatMap encodeRune

/-- A text is encoded character by character. It is the equation that inductions over a text use. -/
theorem utf8_cons (c : Char) (cs : List Char) : utf8 (c :: cs) = encodeRune c ++ utf8 cs := rfl

/-! ## Bytes -/

/-- A continuation byte. It carries six bits, and the ranges of the table after a first byte are
conditions on these bits. -/
theorem continuation {m : ℕ} (h : m < 64) :
    payload (UInt8.ofNat (0x80 + m)) = m ∧ 0x80 ≤ UInt8.ofNat (0x80 + m) ∧
      UInt8.ofNat (0x80 + m) ≤ 0xBF ∧ (32 ≤ m → 0xA0 ≤ UInt8.ofNat (0x80 + m)) ∧
      (m < 32 → UInt8.ofNat (0x80 + m) ≤ 0x9F) ∧ (16 ≤ m → 0x90 ≤ UInt8.ofNat (0x80 + m)) ∧
      (m < 16 → UInt8.ofNat (0x80 + m) ≤ 0x8F) := by
  revert m
  decide

/-- The first byte of two. The table names two bytes for it, with the full range for the second
one. -/
theorem starter_two {h : ℕ} (hle : 2 ≤ h) (hlt : h < 32) :
    ¬UInt8.ofNat (0xC0 + h) < 0x80 ∧ firstByte (UInt8.ofNat (0xC0 + h)) = some (2, 0x80, 0xBF) ∧
      (UInt8.ofNat (0xC0 + h) &&& 0x1F).toNat = h := by
  revert hle
  revert h
  decide

/-- The first byte of three. After the first and the fourteenth of them the range of the second byte
is narrower, against long forms and surrogates. -/
theorem starter_three {h : ℕ} (hlt : h < 16) :
    ¬UInt8.ofNat (0xE0 + h) < 0x80 ∧ firstByte (UInt8.ofNat (0xE0 + h)) =
      some (3, if h = 0 then 0xA0 else 0x80, if h = 13 then 0x9F else 0xBF) ∧
      (UInt8.ofNat (0xE0 + h) &&& 0x0F).toNat = h := by
  revert h
  decide

/-- The first byte of four. After the first and the last of them the range of the second byte is
narrower, against long forms and values that are too large. -/
theorem starter_four {h : ℕ} (hlt : h < 5) :
    ¬UInt8.ofNat (0xF0 + h) < 0x80 ∧ firstByte (UInt8.ofNat (0xF0 + h)) =
      some (4, if h = 0 then 0x90 else 0x80, if h = 4 then 0x8F else 0xBF) ∧
      (UInt8.ofNat (0xF0 + h) &&& 0x07).toNat = h := by
  revert h
  decide

/-- The values of characters: no surrogates, and nothing above `0x10FFFF`. These are the scalar
values, and it is what the type `Char` carries. -/
theorem toNat_char (c : Char) : c.toNat < 0xD800 ∨ 0xDFFF < c.toNat ∧ c.toNat < 0x110000 := c.valid

/-! ## Decoding -/

/-- **Reading a character back**, whatever follows it. The four cases are the four lengths of an
encoding. -/
theorem decodeRune_encodeRune (c : Char) (rest : GoString) :
    decodeRune (encodeRune c ++ rest) = (c.toNat, (encodeRune c).length) := by
  have hvalid := toNat_char c
  unfold encodeRune
  generalize c.toNat = v at hvalid
  simp only
  -- one byte
  split
  · rename_i hone
    have hbyte : (UInt8.ofNat v).toNat = v := by
      rw [UInt8.toNat_ofNat']
      omega
    have hlt : UInt8.ofNat v < 0x80 := by
      rw [UInt8.lt_iff_toNat_lt, hbyte]
      exact hone
    rw [List.singleton_append, decodeRune_ascii hlt, hbyte]
    rfl
  · split
    · -- two bytes
      rename_i hone htwo
      obtain ⟨hhigh, hfirst, hbits⟩ := starter_two (h := v / 64) (by omega) (by omega)
      obtain ⟨hpay, hlo, hhi, -⟩ := continuation (m := v % 64) (by omega)
      simp only [List.cons_append, List.nil_append, decodeRune, if_neg hhigh, hfirst, hlo, hhi,
        and_self, if_true, hbits, hpay]
      refine Prod.ext ?_ rfl
      show v / 64 * 64 + v % 64 = v
      omega
    · split
      · -- three bytes: the second one is restricted after `0xE0` and `0xED`
        rename_i hone htwo hthree
        obtain ⟨hhigh, hfirst, hbits⟩ := starter_three (h := v / 4096) (by omega)
        obtain ⟨hpay, hlo, hhi, hlo', hhi', -⟩ := continuation (m := v / 64 % 64) (by omega)
        obtain ⟨hpay₂, hlo₂, hhi₂, -⟩ := continuation (m := v % 64) (by omega)
        have hsecond : (if v / 4096 = 0 then 0xA0 else 0x80) ≤ UInt8.ofNat (0x80 + v / 64 % 64) ∧
            UInt8.ofNat (0x80 + v / 64 % 64) ≤ if v / 4096 = 13 then 0x9F else 0xBF := by
          constructor
          · split
            · exact hlo' (by omega)
            · exact hlo
          · split
            · exact hhi' (by omega)
            · exact hhi
        simp only [List.cons_append, List.nil_append, decodeRune, if_neg hhigh, hfirst, hsecond,
          hlo₂, hhi₂, and_self, if_true, hbits, hpay, hpay₂]
        refine Prod.ext ?_ rfl
        show (v / 4096 * 64 + v / 64 % 64) * 64 + v % 64 = v
        omega
      · -- four bytes: the second one is restricted after `0xF0` and `0xF4`
        rename_i hone htwo hthree
        obtain ⟨hhigh, hfirst, hbits⟩ := starter_four (h := v / 262144) (by omega)
        obtain ⟨hpay, hlo, hhi, -, -, hlo', hhi'⟩ := continuation (m := v / 4096 % 64) (by omega)
        obtain ⟨hpay₂, hlo₂, hhi₂, -⟩ := continuation (m := v / 64 % 64) (by omega)
        obtain ⟨hpay₃, hlo₃, hhi₃, -⟩ := continuation (m := v % 64) (by omega)
        have hsecond : (if v / 262144 = 0 then 0x90 else 0x80) ≤
              UInt8.ofNat (0x80 + v / 4096 % 64) ∧
            UInt8.ofNat (0x80 + v / 4096 % 64) ≤ if v / 262144 = 4 then 0x8F else 0xBF := by
          constructor
          · split
            · exact hlo' (by omega)
            · exact hlo
          · split
            · exact hhi' (by omega)
            · exact hhi
        simp only [List.cons_append, List.nil_append, decodeRune, if_neg hhigh, hfirst, hsecond,
          hlo₂, hhi₂, hlo₃, hhi₃, and_self, if_true, hbits, hpay, hpay₂, hpay₃]
        refine Prod.ext ?_ rfl
        show ((v / 262144 * 64 + v / 4096 % 64) * 64 + v / 64 % 64) * 64 + v % 64 = v
        omega

/-- The bytes of a character: itself when it is ASCII, else bytes from `0x80` on. -/
theorem encodeRune_ascii {c : Char} (h : c.toNat < 0x80) : encodeRune c = [UInt8.ofNat c.toNat] :=
  if_pos h

/-- A character outside ASCII has no ASCII bytes in its encoding. An ASCII byte of a valid string is
therefore always a character of its own. -/
theorem le_of_mem_encodeRune {c : Char} (h : 0x80 ≤ c.toNat) {b : UInt8} (hb : b ∈ encodeRune c) :
    0x80 ≤ b := by
  have hvalid := toNat_char c
  unfold encodeRune at hb
  generalize c.toNat = v at *
  have hbyte : ∀ n, 0x80 ≤ n → n < 256 → 0x80 ≤ UInt8.ofNat n := by
    decide
  simp only [if_neg (Nat.not_lt.mpr h)] at hb
  split at hb
  · simp only [List.mem_cons, List.not_mem_nil, or_false] at hb
    rcases hb with rfl | rfl <;> exact hbyte _ (by omega) (by omega)
  · split at hb
    · simp only [List.mem_cons, List.not_mem_nil, or_false] at hb
      rcases hb with rfl | rfl | rfl <;> exact hbyte _ (by omega) (by omega)
    · simp only [List.mem_cons, List.not_mem_nil, or_false] at hb
      rcases hb with rfl | rfl | rfl | rfl <;> exact hbyte _ (by omega) (by omega)

/-! ## Text

What a reader that replaces invalid encodings makes of a string. -/

/-- The characters of a string, at most `n` of them. -/
def runesUpTo : ℕ → GoString → List Char
  | 0, _ => []
  | _, [] => []
  | n + 1, b :: s => Char.ofNat (decodeRune (b :: s)).1 ::
      runesUpTo n ((b :: s).drop (decodeRune (b :: s)).2)

/-- The characters of a string; invalid encodings become `runeError`. -/
def runes (s : GoString) : List Char := runesUpTo s.length s

/-- The length is always enough. Each character takes at least one byte, so more steps than bytes
are never needed. -/
theorem runesUpTo_of_le {n : ℕ} {s : GoString} (h : s.length ≤ n) : runesUpTo n s = runes s := by
  unfold runes
  generalize hm : s.length = m
  have hle : s.length ≤ m := hm.le
  rw [hm] at h
  clear hm
  induction m generalizing n s with
  | zero =>
      obtain rfl := List.length_eq_zero_iff.mp (Nat.le_zero.mp hle)
      cases n <;> rfl
  | succ m ih =>
      cases s with
      | nil => cases n <;> rfl
      | cons b s =>
          obtain ⟨n, rfl⟩ : ∃ k, n = k + 1 := ⟨n - 1, by omega⟩
          have hwidth := decodeRune_width (List.cons_ne_nil b s)
          have hrest : ((b :: s).drop (decodeRune (b :: s)).2).length ≤ m := by
            rw [List.length_drop]
            omega
          simp only [runesUpTo]
          rw [ih (Nat.le_of_succ_le_succ h) hrest]

/-- The first character, and the rest. With it an induction on the length of the string can follow
the decoder. -/
theorem runes_cons {s : GoString} (h : s ≠ []) :
    runes s = Char.ofNat (decodeRune s).1 :: runes (s.drop (decodeRune s).2) := by
  cases s with
  | nil => exact absurd rfl h
  | cons b s =>
      have hwidth := decodeRune_width h
      have hrest : ((b :: s).drop (decodeRune (b :: s)).2).length ≤ s.length := by
        rw [List.length_drop, List.length_cons]
        omega
      rw [← runesUpTo_of_le hrest]
      rfl

/-- An ASCII byte is a character of its own. Splitting or searching for such bytes can be done
before or after decoding. -/
theorem runes_ascii {b : UInt8} {s : GoString} (h : b < 0x80) :
    runes (b :: s) = Char.ofNat b.toNat :: runes s := by
  rw [runes_cons (List.cons_ne_nil b s), decodeRune_ascii h]
  rfl

/-- What `firstByte` accepts: two to four bytes, and no ASCII byte as the second. -/
theorem firstByte_bounds {b lo hi : UInt8} {n : ℕ} (h : firstByte b = some (n, lo, hi)) :
    (n = 2 ∨ n = 3 ∨ n = 4) ∧ 0x80 ≤ lo := by
  have hall : ∀ n < 256, (firstByte (UInt8.ofNat n)).all fun x =>
      (x.1 = 2 ∨ x.1 = 3 ∨ x.1 = 4) ∧ 0x80 ≤ x.2.1 := by
    decide +kernel
  have hb := hall b.toNat b.toNat_lt
  rw [UInt8.ofNat_toNat, h] at hb
  exact of_decide_eq_true hb

/-- An ASCII byte is not taken for a continuation of what stands before it. The first byte that is
missing ends a rune in the same way as a byte that does not continue it. -/
theorem decodeRune_append {s t : GoString} (hs : s ≠ []) (ht : ∀ b ∈ t.head?, b < 0x80) :
    decodeRune (s ++ t) = decodeRune s := by
  obtain ⟨b₀, rest, rfl⟩ := List.exists_cons_of_ne_nil hs
  by_cases hascii : b₀ < 0x80
  · rw [List.cons_append, decodeRune_ascii hascii, decodeRune_ascii hascii]
  · cases hfirst : firstByte b₀ with
    | none => simp [decodeRune, hascii, hfirst]
    | some w =>
        obtain ⟨n, lo, hi⟩ := w
        obtain ⟨hn, hlo⟩ := firstByte_bounds hfirst
        -- the first byte of `t` continues nothing
        have hstop : ∀ x t', t = x :: t' → ¬lo ≤ x ∧ ¬0x80 ≤ x := by
          rintro x t' rfl
          have hx := UInt8.lt_iff_toNat_lt.mp (ht x rfl)
          rw [UInt8.le_iff_toNat_le] at hlo
          refine ⟨fun hle => ?_, fun hle => ?_⟩
          · rw [UInt8.le_iff_toNat_le] at hle
            omega
          · rw [UInt8.le_iff_toNat_le] at hle
            omega
        rcases t with _ | ⟨x, t⟩
        · rw [List.append_nil]
        · obtain ⟨hx, hx'⟩ := hstop x t rfl
          rcases hn with rfl | rfl | rfl
          · rcases rest with _ | ⟨b₁, rest⟩
            · simp [decodeRune, hascii, hfirst, hx]
            · simp [decodeRune, hascii, hfirst]
          · rcases rest with _ | ⟨b₁, _ | ⟨b₂, rest⟩⟩
            · cases t <;> simp [decodeRune, hascii, hfirst, hx]
            · simp [decodeRune, hascii, hfirst, hx']
            · simp [decodeRune, hascii, hfirst]
          · rcases rest with _ | ⟨b₁, _ | ⟨b₂, _ | ⟨b₃, rest⟩⟩⟩
            · rcases t with _ | ⟨y, _ | ⟨z, t⟩⟩ <;> simp [decodeRune, hascii, hfirst, hx]
            · cases t <;> simp [decodeRune, hascii, hfirst, hx']
            · simp [decodeRune, hascii, hfirst, hx']
            · simp [decodeRune, hascii, hfirst]

/-- **Text before an ASCII byte** is read on its own. Delimiters in ASCII thus cut a string at
boundaries of characters, valid UTF-8 or not. -/
theorem runes_append {s t : GoString} (ht : ∀ b ∈ t.head?, b < 0x80) :
    runes (s ++ t) = runes s ++ runes t := by
  generalize hm : s.length = m
  have hle : s.length ≤ m := hm.le
  clear hm
  induction m generalizing s with
  | zero =>
      obtain rfl := List.length_eq_zero_iff.mp (Nat.le_zero.mp hle)
      rfl
  | succ m ih =>
      by_cases hs : s = []
      · subst hs
        rfl
      · have hne : s ++ t ≠ [] := fun hnil => hs (List.append_eq_nil_iff.mp hnil).1
        have hwidth := decodeRune_width hs
        rw [runes_cons hs, runes_cons hne, decodeRune_append hs ht,
          List.drop_append_of_le_length hwidth.2, List.cons_append, ih]
        rw [List.length_drop]
        omega

example : runes [0x61, 0xC3, 0xA9, 0xFF] = ['a', 'é', '\uFFFD'] := by decide +kernel

/-- The shortest encoding is required: the first two bytes of an encoding make it no ASCII
character. -/
theorem firstByte_weight {b lo hi : UInt8} {n : ℕ} (h : firstByte b = some (n, lo, hi)) :
    (n = 2 → 2 ≤ (b &&& 0x1F).toNat) ∧
      (n = 3 → 1 ≤ (b &&& 0x0F).toNat ∨ lo = 0xA0 ∧ hi = 0xBF) ∧
      (n = 4 → 1 ≤ (b &&& 0x07).toNat ∨ lo = 0x90 ∧ hi = 0xBF) := by
  have hall : ∀ n < 256, (firstByte (UInt8.ofNat n)).all fun x =>
      (x.1 = 2 → 2 ≤ (UInt8.ofNat n &&& 0x1F).toNat) ∧
      (x.1 = 3 → 1 ≤ (UInt8.ofNat n &&& 0x0F).toNat ∨ x.2.1 = 0xA0 ∧ x.2.2 = 0xBF) ∧
      (x.1 = 4 → 1 ≤ (UInt8.ofNat n &&& 0x07).toNat ∨ x.2.1 = 0x90 ∧ x.2.2 = 0xBF) := by
    decide +kernel
  have hb := hall b.toNat b.toNat_lt
  rw [UInt8.ofNat_toNat, h] at hb
  exact of_decide_eq_true hb

/-- The payload of a second byte that is not too small. The two lower bounds are those after the
first bytes `0xE0` and `0xF0`. -/
theorem payload_ge {b : UInt8} (hhi : b ≤ 0xBF) :
    (0xA0 ≤ b → 32 ≤ payload b) ∧ (0x90 ≤ b → 16 ≤ payload b) := by
  have hall : ∀ n < 256, UInt8.ofNat n ≤ 0xBF →
      (0xA0 ≤ UInt8.ofNat n → 32 ≤ payload (UInt8.ofNat n)) ∧
      (0x90 ≤ UInt8.ofNat n → 16 ≤ payload (UInt8.ofNat n)) := by
    decide +kernel
  have hb := hall b.toNat b.toNat_lt
  rw [UInt8.ofNat_toNat] at hb
  exact hb hhi

/-- Whatever does not start with an ASCII byte is not read as an ASCII character. -/
theorem le_decodeRune {b₀ : UInt8} (rest : GoString) (h : ¬b₀ < 0x80) :
    0x80 ≤ (decodeRune (b₀ :: rest)).1 := by
  -- an invalid byte decodes to `U+FFFD`, which is large
  have herror : 0x80 ≤ (runeError, 1).1 := by decide
  cases hfirst : firstByte b₀ with
  | none => simpa [decodeRune, h, hfirst] using herror
  | some w =>
      obtain ⟨n, lo, hi⟩ := w
      obtain ⟨hn, -⟩ := firstByte_bounds hfirst
      obtain ⟨htwo, hthree, hfour⟩ := firstByte_weight hfirst
      rcases hn with rfl | rfl | rfl
      · -- a valid sequence of two bytes or more encodes at least `0x80`
        have hweight := htwo rfl
        rcases rest with _ | ⟨b₁, rest⟩
        · simpa [decodeRune, h, hfirst] using herror
        · simp only [decodeRune, if_neg h, hfirst]
          split
          · show 0x80 ≤ (b₀ &&& 0x1F).toNat * 64 + payload b₁
            omega
          · exact herror
      · have hweight := hthree rfl
        rcases rest with _ | ⟨b₁, _ | ⟨b₂, rest⟩⟩
        · simpa [decodeRune, h, hfirst] using herror
        · simpa [decodeRune, h, hfirst] using herror
        · simp only [decodeRune, if_neg h, hfirst]
          split
          · rename_i hok
            show 0x80 ≤ ((b₀ &&& 0x0F).toNat * 64 + payload b₁) * 64 + payload b₂
            rcases hweight with hweight | ⟨rfl, rfl⟩
            · omega
            · have hpay := (payload_ge hok.1.2).1 hok.1.1
              omega
          · exact herror
      · have hweight := hfour rfl
        rcases rest with _ | ⟨b₁, _ | ⟨b₂, _ | ⟨b₃, rest⟩⟩⟩
        · simpa [decodeRune, h, hfirst] using herror
        · simpa [decodeRune, h, hfirst] using herror
        · simpa [decodeRune, h, hfirst] using herror
        · simp only [decodeRune, if_neg h, hfirst]
          split
          · rename_i hok
            show 0x80 ≤ (((b₀ &&& 0x07).toNat * 64 + payload b₁) * 64 + payload b₂) * 64 + payload b₃
            rcases hweight with hweight | ⟨rfl, rfl⟩
            · omega
            · have hpay := (payload_ge hok.1.2).2 hok.1.1
              omega
          · exact herror

/-- An ASCII character in the text is a byte of the string. Decoding does not make up ASCII
characters, not even from bytes that are not valid. -/
theorem mem_of_mem_runes {s : GoString} {n : ℕ} (hpos : 0 < n) (hn : n < 0x80) (h : Char.ofNat n ∈ runes s) :
    UInt8.ofNat n ∈ s := by
  generalize hm : s.length = m
  have hle : s.length ≤ m := hm.le
  clear hm
  induction m generalizing s with
  | zero =>
      obtain rfl := List.length_eq_zero_iff.mp (Nat.le_zero.mp hle)
      exact absurd h List.not_mem_nil
  | succ m ih =>
      cases s with
      | nil => exact absurd h List.not_mem_nil
      | cons b₀ rest =>
          have hwidth := decodeRune_width (List.cons_ne_nil b₀ rest)
          rw [runes_cons (List.cons_ne_nil b₀ rest)] at h
          rcases List.mem_cons.mp h with hhead | htail
          · have hvalue := congrArg Char.toNat hhead
            rw [Char.toNat_ofNat, Char.toNat_ofNat, if_pos (.inl (by omega))] at hvalue
            -- a character below `0x80` stands for its own byte only
            by_cases hascii : b₀ < 0x80
            · have hlt := UInt8.lt_iff_toNat_lt.mp hascii
              rw [decodeRune_ascii hascii, if_pos (.inl (hlt.trans (by decide)))] at hvalue
              rw [hvalue, UInt8.ofNat_toNat]
              exact List.mem_cons_self
            · have hge := le_decodeRune rest hascii
              split at hvalue <;> omega
          · refine List.mem_of_mem_drop (ih htail ?_)
            rw [List.length_drop]
            omega

end LanRoom.Go
