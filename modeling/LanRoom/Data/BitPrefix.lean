import Mathlib

/-! # The first bits of a byte string

A mask of `n` ones keeps the first `n` bits of a byte string and clears the others. Masked byte
strings of one length are equal exactly when the byte strings agree on these bits
(`masked_eq_iff`). -/

namespace BitPrefix

/-- The bit number `i`, counted from the most significant bit of the first byte. -/
def bit (a : List UInt8) (i : ℕ) : Bool := (a.getD (i / 8) 0).toBitVec.getMsbD (i % 8)

/-- The first `n` bits are the same. -/
def SamePrefix (n : ℕ) (a b : List UInt8) : Prop := ∀ i < n, bit a i = bit b i

/-- The byte that starts with `n` ones. -/
def prefixByte (n : ℕ) : UInt8 := if 8 ≤ n then 0xFF else ~~~(0xFF >>> UInt8.ofNat n)

/-- The mask of `len` bytes that starts with `n` ones. -/
def prefixMask : ℕ → ℕ → List UInt8
  | 0, _ => []
  | len + 1, n => prefixByte n :: prefixMask len (n - 8)

/-- A byte string under a mask. -/
def masked (a m : List UInt8) : List UInt8 := List.zipWith (· &&& ·) a m

variable {n k i : ℕ} {a b m : List UInt8}

/-! ## Bits -/

/-- The first eight bits are those of the first byte. Bits are numbered from the most significant
one on. -/
theorem bit_cons_of_lt (x : UInt8) (hi : i < 8) : bit (x :: a) i = x.toBitVec.getMsbD i := by
  have hdiv : i / 8 = 0 := Nat.div_eq_of_lt hi
  rw [bit, hdiv, Nat.mod_eq_of_lt hi]
  rfl

/-- The bits after the first eight are those of the rest. The induction on a string of bytes goes by
this step. -/
theorem bit_cons_add (x : UInt8) (i : ℕ) : bit (x :: a) (i + 8) = bit a i := by
  rw [bit, Nat.add_div_right i (by decide), Nat.add_mod_right]
  rfl

/-- Behind the end every bit is zero. So a string can be compared with a longer one bit by bit. -/
theorem bit_nil (i : ℕ) : bit [] i = false := by
  rw [bit, List.getD_nil]
  exact BitVec.getMsbD_zero

/-- Dropping `k` bytes drops `8 * k` bits. It carries a fact about a prefix over to what stands
behind it. -/
theorem bit_drop (a : List UInt8) (k i : ℕ) : bit (a.drop k) i = bit a (8 * k + i) := by
  have hdiv : (8 * k + i) / 8 = k + i / 8 := by omega
  have hmod : (8 * k + i) % 8 = i % 8 := by omega
  rw [bit, bit, hdiv, hmod, List.getD_eq_getElem?_getD, List.getElem?_drop,
    List.getD_eq_getElem?_getD]

/-- Taking `k` bytes keeps the first `8 * k` bits. The others are zero in it. -/
theorem bit_take (a : List UInt8) (hi : i < 8 * k) : bit (a.take k) i = bit a i := by
  have hdiv : i / 8 < k := by omega
  rw [bit, bit, List.getD_eq_getElem?_getD, List.getElem?_take_of_lt hdiv,
    List.getD_eq_getElem?_getD]

/-- There is no bit after the last byte. What is asked there is answered with zero. -/
theorem bit_of_le (h : 8 * a.length ≤ i) : bit a i = false := by
  have hdiv : a.length ≤ i / 8 := by omega
  rw [bit, List.getD_eq_getElem?_getD, List.getElem?_eq_none hdiv]
  exact BitVec.getMsbD_zero

/-- Byte strings of one length are equal when their bits are. Bits are counted from the most
significant one of the first byte, as in a network mask. -/
theorem eq_of_bit (hlen : a.length = b.length) (h : ∀ i, bit a i = bit b i) : a = b := by
  induction a generalizing b with
  | nil => exact (List.length_eq_zero_iff.mp hlen.symm).symm
  | cons x a ih =>
      cases b with
      | nil => cases hlen
      | cons y b =>
          have hxy : x = y := by
            apply UInt8.toBitVec_inj.mp
            apply BitVec.eq_of_getMsbD_eq
            intro i hi
            rw [← bit_cons_of_lt x hi, ← bit_cons_of_lt y hi, h i]
          have hab : a = b := by
            apply ih (Nat.succ.inj hlen)
            intro i
            rw [← bit_cons_add x i, ← bit_cons_add y i, h (i + 8)]
          rw [hxy, hab]

/-! ## Masks -/

/-- A mask has the length it is made for. The number of ones may exceed its length without a
harm. -/
theorem length_prefixMask (len n : ℕ) : (prefixMask len n).length = len := by
  induction len generalizing n with
  | zero => rfl
  | succ len ih => rw [prefixMask, List.length_cons, ih]

/-- The rest of a mask is the mask of what is left of its ones. Subtraction stops at zero, when the
ones have all been dropped. -/
theorem drop_prefixMask (k len n : ℕ) :
    (prefixMask (k + len) n).drop k = prefixMask len (n - 8 * k) := by
  induction k generalizing n with
  | zero => rw [Nat.zero_add, List.drop_zero, Nat.mul_zero, Nat.sub_zero]
  | succ k ih =>
      have hsub : n - 8 - 8 * k = n - 8 * (k + 1) := by omega
      rw [Nat.add_right_comm, prefixMask, List.drop_succ_cons, ih, hsub]

/-- Masking keeps the length. The hypothesis is that both strings have the same length, since the
shorter one would decide. -/
theorem length_masked (h : a.length = m.length) : (masked a m).length = a.length := by
  rw [masked, List.length_zipWith, h, min_self]

/-- So does masking by a prefix mask of the right length. This is the form in which addresses are
masked. -/
theorem length_masked_prefixMask {len : ℕ} (n : ℕ) (h : a.length = len) :
    (masked a (prefixMask len n)).length = len :=
  (length_masked (h.trans (length_prefixMask len n).symm)).trans h

/-- The rest of a masked string is the masked rest. Masking is byte by byte, so it can be done
before or after the dropping. -/
theorem drop_masked (k : ℕ) (a m : List UInt8) :
    (masked a m).drop k = masked (a.drop k) (m.drop k) := List.drop_zipWith

/-- Masking twice is masking once. A masked address is its own network address. -/
theorem masked_masked (a m : List UInt8) : masked (masked a m) m = masked a m := by
  induction a generalizing m with
  | nil => rfl
  | cons x a ih =>
      cases m with
      | nil => rfl
      | cons y m =>
          show ((x &&& y) &&& y) :: masked (masked a m) m = (x &&& y) :: masked a m
          rw [ih, UInt8.and_assoc, UInt8.and_self]

/-- The byte that starts with `n` ones has its first `n` bits set and no others. It is the one byte
of a mask that may be neither `0x00` nor `0xFF`. -/
theorem getMsbD_prefixByte (n : ℕ) (hi : i < 8) :
    (prefixByte n).toBitVec.getMsbD i = decide (i < n) := by
  by_cases hn : 8 ≤ n
  · have hones : ∀ i < 8, (0xFF : UInt8).toBitVec.getMsbD i = true := by decide
    rw [prefixByte, if_pos hn, hones i hi, decide_eq_true (hi.trans_le hn)]
  · have hall : ∀ n < 8, ∀ i < 8, (~~~(0xFF >>> UInt8.ofNat n) : UInt8).toBitVec.getMsbD i =
        decide (i < n) := by
      decide
    rw [prefixByte, if_neg hn]
    exact hall n (not_le.mp hn) i hi

/-- The mask keeps the first `n` bits and clears the others. This is the reading of a mask all the
others are derived from. -/
theorem bit_masked (a : List UInt8) (n i : ℕ) :
    bit (masked a (prefixMask a.length n)) i = (decide (i < n) && bit a i) := by
  induction a generalizing n i with
  | nil =>
      show bit [] i = _
      rw [bit_nil, Bool.and_false]
  | cons x a ih =>
      show bit ((x &&& prefixByte n) :: masked a (prefixMask a.length (n - 8))) i = _
      by_cases hi : i < 8
      · rw [bit_cons_of_lt _ hi, bit_cons_of_lt x hi, UInt8.toBitVec_and, BitVec.getMsbD_and,
          getMsbD_prefixByte n hi, Bool.and_comm]
      · obtain ⟨j, rfl⟩ := Nat.exists_eq_add_of_le' (not_lt.mp hi)
        have hlt : j < n - 8 ↔ j + 8 < n := by omega
        rw [bit_cons_add, bit_cons_add, ih, decide_eq_decide.mpr hlt]

/-! ## Prefixes -/

/-- **Masked byte strings** are equal exactly when the first bits are. So comparing two masked
addresses is comparing their prefixes, which is what a range check means. -/
theorem masked_eq_iff (hlen : a.length = b.length) (n : ℕ) :
    masked a (prefixMask a.length n) = masked b (prefixMask a.length n) ↔ SamePrefix n a b := by
  have hb (i : ℕ) : bit (masked b (prefixMask a.length n)) i = (decide (i < n) && bit b i) := by
    rw [hlen]
    exact bit_masked b n i
  constructor
  · intro h i hi
    have hbits : bit (masked a (prefixMask a.length n)) i = bit (masked b (prefixMask a.length n)) i :=
      congrArg (bit · i) h
    rwa [bit_masked, hb, decide_eq_true hi, Bool.true_and, Bool.true_and] at hbits
  · intro h
    apply eq_of_bit
    · rw [length_masked_prefixMask n rfl, length_masked_prefixMask n hlen.symm]
    · intro i
      rw [bit_masked, hb]
      by_cases hi : i < n
      · rw [h i hi]
      · rw [decide_eq_false hi, Bool.false_and, Bool.false_and]

/-- A prefix that ends inside a byte: whole bytes first, then the bits that are left. It connects
the definition by bits with code that compares byte by byte. -/
theorem samePrefix_add_iff : SamePrefix (8 * k + n) a b ↔
    SamePrefix (8 * k) a b ∧ SamePrefix n (a.drop k) (b.drop k) := by
  constructor
  · refine fun h => ⟨fun i hi => h i (by omega), fun i hi => ?_⟩
    rw [bit_drop, bit_drop, h _ (by omega)]
  · rintro ⟨hfirst, hrest⟩ i hi
    by_cases hk : i < 8 * k
    · exact hfirst i hk
    · obtain ⟨j, rfl⟩ := Nat.exists_eq_add_of_le (not_lt.mp hk)
      rw [← bit_drop, ← bit_drop]
      exact hrest j (by omega)

/-- Whole bytes agree when their bits do. A prefix of whole bytes is a prefix of the list. -/
theorem samePrefix_bytes_iff (ha : k ≤ a.length) (hb : k ≤ b.length) :
    SamePrefix (8 * k) a b ↔ a.take k = b.take k := by
  constructor
  · intro h
    apply eq_of_bit
    · rw [List.length_take_of_le ha, List.length_take_of_le hb]
    · intro i
      by_cases hi : i < 8 * k
      · rw [bit_take a hi, bit_take b hi, h i hi]
      · rw [bit_of_le (by rw [List.length_take_of_le ha]; omega),
          bit_of_le (by rw [List.length_take_of_le hb]; omega)]
  · intro h i hi
    rw [← bit_take a hi, ← bit_take b hi, h]

/-- Strings of one length that agree in all bits are equal. A prefix of full length is the whole
string. -/
theorem samePrefix_full_iff (hlen : a.length = b.length) :
    SamePrefix (8 * a.length) a b ↔ a = b := by
  rw [samePrefix_bytes_iff (le_refl _) hlen.le, List.take_length, hlen, List.take_length]

/-- A mask of ones clears nothing. It is the mask for a prefix of full length. -/
theorem masked_full (a : List UInt8) : masked a (prefixMask a.length (8 * a.length)) = a := by
  apply eq_of_bit (length_masked_prefixMask _ rfl)
  intro i
  rw [bit_masked]
  by_cases hi : i < 8 * a.length
  · rw [decide_eq_true hi, Bool.true_and]
  · rw [bit_of_le (not_lt.mp hi), Bool.and_false]

end BitPrefix
