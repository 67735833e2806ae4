import LanRoom.Go.LastRune
import LanRoom.Upload.Model

/-! # Names of stored files

`sanitizeFileName` of `server/upload.go`. Its loop drops runes from the end, and on a valid name
these are the characters: the longest start of the name is left that fits in 255 bytes
(`truncateName_keeps`).

What is stored is a plain file name, except for one kind of input: `..` passes the test for special
names. `plain_iff` says which inputs become `..`. -/

namespace LanRoom.Upload

open LanRoom.Go

/-! ## The loop -/

/-- One round: the last rune is dropped. -/
def cutLast (name : GoString) : GoString := name.take (name.length - (decodeLastRune name).2)

/-- A name that fits is kept. The loop of the source does not run. -/
theorem truncateName_of_le {name : GoString} (h : name.length ≤ 255) : truncateName name = name := by
  rw [truncateName, if_neg (Nat.not_lt.mpr h)]

/-- A name that is too long loses its last character. It is one pass of the loop. -/
theorem truncateName_of_lt {name : GoString} (h : 255 < name.length) :
    truncateName name = truncateName (cutLast name) := by
  rw [truncateName, if_pos h]
  rfl

/-- The last character of a valid name is dropped. Its width is the number of bytes of its
encoding. -/
theorem cutLast_encodeRune (name : GoString) (c : Char) : cutLast (name ++ encodeRune c) = name := by
  rw [cutLast, decodeLastRune_encodeRune, List.length_append, Nat.add_sub_cancel, List.take_left]

/-- **The loop ends**: its rounds go on while the name is too long, and no longer. The number of
rounds is finite because each of them takes at least one byte. -/
theorem truncateName_rounds (name : GoString) :
    ∃ n, (∀ m < n, 255 < (cutLast^[m] name).length) ∧ cutLast^[n] name = truncateName name := by
  induction name using truncateName.induct with
  | case1 name h ih =>
    obtain ⟨n, hlong, hend⟩ := ih
    refine ⟨n + 1, ?_, ?_⟩
    · intro m hm
      cases m with
      | zero => exact h
      | succ m => exact hlong m (Nat.lt_of_succ_lt_succ hm)
    · rw [Function.iterate_succ_apply, truncateName_of_lt h]
      exact hend
  | case2 name h =>
    refine ⟨0, ?_, ?_⟩
    · intro m hm
      exact absurd hm (Nat.not_lt_zero m)
    · rw [Function.iterate_zero_apply, truncateName_of_le (Nat.not_lt.mp h)]

/-- What is left is short, and a prefix. The induction follows the loop; nothing is put in the place
of what is dropped. -/
theorem truncateName_prefix (name : GoString) :
    (truncateName name).length ≤ 255 ∧ truncateName name <+: name := by
  induction name using truncateName.induct with
  | case1 name h ih =>
    rw [truncateName_of_lt h]
    exact ⟨ih.1, ih.2.trans (List.take_prefix _ name)⟩
  | case2 name h =>
    rw [truncateName_of_le (Nat.not_lt.mp h)]
    exact ⟨Nat.not_lt.mp h, List.prefix_refl name⟩

/-- The longest start of a text that fits in 255 bytes. -/
structure Longest (cs kept : List Char) : Prop where
  isPrefix : kept <+: cs
  fits : (utf8 kept).length ≤ 255
  /-- Every other start that fits is a start of it. -/
  longest : ∀ ds, ds <+: cs → (utf8 ds).length ≤ 255 → ds <+: kept
  /-- A character has at most four bytes. -/
  full : 255 < (utf8 cs).length → 252 ≤ (utf8 kept).length

/-- On a valid name whole characters are dropped. What is kept is the longest prefix of whole
characters that fits. -/
theorem truncateName_utf8 (cs : List Char) :
    ∃ kept, truncateName (utf8 cs) = utf8 kept ∧ Longest cs kept := by
  -- induction from the end, where the name is shortened by a character at a time
  induction cs using List.reverseRecOn with
  | nil => exact ⟨[], truncateName_of_le (Nat.zero_le 255), List.prefix_refl [], Nat.zero_le 255,
      fun ds h _ => h, fun h => absurd h (by simp [utf8])⟩
  | append_singleton cs c ih =>
    have hfour := length_encodeRune_le c
    have hlength : (utf8 (cs ++ [c])).length = (utf8 cs).length + (encodeRune c).length := by
      rw [utf8_concat, List.length_append]
    by_cases hlong : 255 < (utf8 (cs ++ [c])).length
    · -- too long: the last character goes, and the rest is as for the shorter name
      obtain ⟨kept, heq, h⟩ := ih
      refine ⟨kept, ?_, h.isPrefix.trans (List.prefix_append cs [c]), h.fits, ?_, ?_⟩
      · rw [truncateName_of_lt hlong, utf8_concat, cutLast_encodeRune, heq]
      · intro ds hds hfits
        rcases List.prefix_concat_iff.mp hds with rfl | hds
        · exact absurd hfits (Nat.not_le.mpr hlong)
        · exact h.longest ds hds hfits
      · -- with at most four bytes a character, what was cut off fits no more
        intro _
        by_cases hstill : 255 < (utf8 cs).length
        · exact h.full hstill
        · rw [← heq, truncateName_of_le (Nat.not_lt.mp hstill)]
          omega
    · have hfits := Nat.not_lt.mp hlong
      exact ⟨cs ++ [c], truncateName_of_le hfits, List.prefix_refl _, hfits, fun ds h _ => h,
        fun h => absurd h hlong⟩

/-- **Truncation keeps whole characters.** On any bytes the loop ends with a prefix of at most 255
bytes; on a valid name this is the longest one made of whole characters. -/
theorem truncateName_keeps (name : GoString) :
    (∃ n, (∀ m < n, 255 < (cutLast^[m] name).length) ∧ cutLast^[n] name = truncateName name) ∧
      (truncateName name).length ≤ 255 ∧ truncateName name <+: name ∧
      ∀ cs, name = utf8 cs → ∃ kept, truncateName name = utf8 kept ∧ Longest cs kept := by
  obtain ⟨hshort, hstart⟩ := truncateName_prefix name
  refine ⟨truncateName_rounds name, hshort, hstart, ?_⟩
  rintro cs rfl
  exact truncateName_utf8 cs

/-! ## The last element of a path -/

/-- What is before the last element. -/
def Parent (p : GoString) : Prop := p = [] ∨ ∃ p', p = p' ++ [slash]

/-- The last element of a path, whose trailing separators do not count. -/
theorem base_append {p x q : GoString} (hp : Parent p) (hx : x ≠ []) (hslash : slash ∉ x)
    (hq : ∀ b ∈ q, b = slash) : base (p ++ x ++ q) = x := by
  have hne : p ++ x ++ q ≠ [] := by
    simp [hx]
  have hlast : ∀ b ∈ x.reverse, decide (b ≠ slash) = true := by
    intro b hb
    rw [decide_eq_true_iff]
    rintro rfl
    exact hslash (List.mem_reverse.mp hb)
  -- trailing separators are dropped, and `x` does not end in one
  have hstripped : ((p ++ x ++ q).reverse.dropWhile (· = slash)).reverse = p ++ x := by
    obtain ⟨b, t, hrev⟩ := List.exists_cons_of_ne_nil (List.reverse_ne_nil_iff.mpr hx)
    have hb := hlast b (hrev ▸ List.mem_cons_self)
    rw [List.reverse_append, List.reverse_append,
      List.dropWhile_append_of_pos (by simpa using hq), hrev, List.cons_append,
      List.dropWhile_cons_of_neg (by simpa using hb), ← List.cons_append, ← hrev,
      ← List.reverse_append, List.reverse_reverse]
  -- the parent ends in one
  have hparent : p.reverse.takeWhile (· ≠ slash) = [] := by
    rcases hp with rfl | ⟨p', rfl⟩
    · rfl
    · rw [List.reverse_append]
      rfl
  have htake : ((p ++ x).reverse.takeWhile (· ≠ slash)).reverse = x := by
    rw [List.reverse_append, List.takeWhile_append_of_pos hlast, hparent, List.append_nil,
      List.reverse_reverse]
  rw [base, if_neg hne]
  simp only [hstripped, htake, if_neg hx]

/-- What `base` makes of a path: the path is empty, nothing but separators, or has a last element. -/
theorem base_cases (path : GoString) :
    base path = [0x2E] ∨ base path = [slash] ∨
      ∃ p q, path = p ++ base path ++ q ∧ Parent p ∧ base path ≠ [] ∧ slash ∉ base path ∧
        ∀ b ∈ q, b = slash := by
  by_cases hempty : path = []
  · left
    rw [base, if_pos hempty]
  right
  -- the trailing slashes are stripped, and then everything up to the last slash
  set stripped := (path.reverse.dropWhile (· = slash)).reverse with hstripped
  set x := (stripped.reverse.takeWhile (· ≠ slash)).reverse with hx
  have hbase : base path = if x = [] then [slash] else x := by
    rw [base, if_neg hempty]
  by_cases hnil : x = []
  · left
    rw [hbase, if_pos hnil]
  right
  rw [hbase, if_neg hnil]
  refine ⟨(stripped.reverse.dropWhile (· ≠ slash)).reverse,
    (path.reverse.takeWhile (· = slash)).reverse, ?_, ?_, hnil, ?_, ?_⟩
  · rw [hx, ← List.reverse_append, List.takeWhile_append_dropWhile, List.reverse_reverse, hstripped,
      ← List.reverse_append, List.takeWhile_append_dropWhile, List.reverse_reverse]
  · -- what stands before the element is empty or ends in a slash
    cases hdrop : stripped.reverse.dropWhile (· ≠ slash) with
    | nil => exact Or.inl List.reverse_nil
    | cons b t =>
      have hb : b = slash := by
        have hhead := List.head?_dropWhile_not (fun b => decide (b ≠ slash)) stripped.reverse
        rw [hdrop] at hhead
        simpa using hhead
      exact Or.inr ⟨t.reverse, by rw [List.reverse_cons, hb]⟩
  · rw [hx, List.mem_reverse]
    intro hmem
    simpa using List.mem_takeWhile_imp hmem
  · intro b hb
    simpa using List.mem_takeWhile_imp (List.mem_reverse.mp hb)

/-! ## Plain names -/

/-- A plain file name. -/
structure Plain (name : GoString) : Prop where
  nonempty : name ≠ []
  short : name.length ≤ 255
  no_slash : slash ∉ name
  no_backslash : backslash ∉ name
  ne_dot : name ≠ [0x2E]
  ne_dotdot : name ≠ [0x2E, 0x2E]

/-- A separator of a name that a client sends. -/
def isSeparator (b : UInt8) : Bool := b == slash || b == backslash

/-- The last element of the name, less white space around it, is `..`. -/
def IsParentDirectory (name : GoString) : Prop :=
  ∃ p l r q, name = p ++ (l ++ [0x2E, 0x2E] ++ r) ++ q ∧ Blank l ∧ Blank r ∧
    (p = [] ∨ ∃ p' b, p = p' ++ [b] ∧ isSeparator b = true) ∧ ∀ b ∈ q, isSeparator b = true

/-- Bytes are replaced one by one. Splitting a path and replacing its backslashes can thus be done
in either order. -/
theorem replaceByte_append (old new : UInt8) (s t : GoString) :
    replaceByte old new (s ++ t) = replaceByte old new s ++ replaceByte old new t := List.map_append

/-- The separators are what becomes a slash. After the replacement a slash stands exactly where a
slash or a backslash stood. -/
theorem replaceByte_eq_slash {b : UInt8} :
    (if b = backslash then slash else b) = slash ↔ isSeparator b = true := by
  rw [isSeparator, Bool.or_eq_true, beq_iff_eq, beq_iff_eq]
  by_cases h : b = backslash
  · simp [h]
  · simp [h]

/-- No backslash is left when they have been replaced. Hence `path.Base` sees every separator that a
client may have used. -/
theorem backslash_not_mem_replaceByte (s : GoString) :
    backslash ∉ replaceByte backslash slash s := by
  intro h
  obtain ⟨b, -, hb⟩ := List.mem_map.mp h
  by_cases hback : b = backslash
  · rw [if_pos hback] at hb
    exact absurd hb (by decide)
  · rw [if_neg hback] at hb
    exact hback hb

/-- Text without separators stays. The replacement touches backslashes only. -/
theorem replaceByte_of_forall {s : GoString} (h : ∀ b ∈ s, isSeparator b = false) :
    replaceByte backslash slash s = s := by
  have hself : ∀ b ∈ s, (if b = backslash then slash else b) = b := by
    intro b hb
    apply if_neg
    rintro rfl
    exact absurd (h backslash hb) (by decide)
  exact (List.map_congr_left hself).trans (List.map_id' s)

/-- White space has no separators. Trimming and splitting at separators therefore do not get in each
other's way. -/
theorem not_isSeparator_of_blank {s : GoString} (h : Blank s) : ∀ b ∈ s, isSeparator b = false := by
  obtain ⟨cs, rfl, hcs⟩ := h
  intro b hb
  obtain ⟨c, hc, hb⟩ := List.mem_flatMap.mp hb
  have hspace := hcs c hc
  by_cases hascii : c.toNat < 0x80
  · have hall : ∀ n < 0x80, isSpace n = true → isSeparator (UInt8.ofNat n) = false := by
      decide
    rw [encodeRune_ascii hascii, List.mem_singleton] at hb
    rw [hb]
    exact hall c.toNat hascii hspace
  · have hge := le_of_mem_encodeRune (Nat.not_lt.mp hascii) hb
    rw [isSeparator, Bool.or_eq_false_iff, beq_eq_false_iff_ne, beq_eq_false_iff_ne]
    constructor
    · rintro rfl
      exact absurd hge (by decide)
    · rintro rfl
      exact absurd hge (by decide)

/-- The name that is tested and truncated. -/
def lastElement (name : GoString) : GoString :=
  trimSpace (base (replaceByte backslash slash name))

/-- The name is the last element of the path, cut to size, or `file` where that says nothing. -/
theorem sanitizeFileName_eq (name : GoString) :
    sanitizeFileName name =
      if lastElement name = [] ∨ lastElement name = [0x2E] ∨ lastElement name = [slash] then
        goString "file"
      else truncateName (lastElement name) := rfl

/-- Blanks at both ends are trimmed off what begins and ends without one. -/
theorem trimSpace_blank {l x r : GoString} (hl : Blank l) (hr : Blank r) {b : UInt8} (hb : b < 0x80)
    (hspace : isSpace b.toNat = false) (hx : ∃ t, x = b :: t) (hx' : ∃ t, x = t ++ [b]) :
    trimSpace (l ++ x ++ r) = x := by
  obtain ⟨t, ht⟩ := hx
  obtain ⟨t', ht'⟩ := hx'
  rw [trimSpace, List.append_assoc, trimLeft_append hl, ht, List.cons_append,
    trimLeft_of_plain hb hspace, ← List.cons_append, ← ht, trimRight_append x hr, ht',
    trimRight_of_plain hb hspace]

/-- **What becomes `..`.** These are the names that the test on special names lets through although
it should not. -/
theorem lastElement_eq_iff (name : GoString) :
    lastElement name = [0x2E, 0x2E] ↔ IsParentDirectory name := by
  constructor
  · intro h
    obtain ⟨l, r, hl, hr, heq⟩ := exists_trimSpace (base (replaceByte backslash slash name))
    have hdots : base (replaceByte backslash slash name) = l ++ [0x2E, 0x2E] ++ r := by
      rw [← h]
      exact heq
    have hlen : 2 ≤ (base (replaceByte backslash slash name)).length := by
      rw [hdots]
      simp only [List.length_append, List.length_cons]
      omega
    rcases base_cases (replaceByte backslash slash name) with
      hdot | hslash | ⟨p', q', hpath, hp', -, hslash, hq'⟩
    · rw [hdot] at hlen
      exact absurd hlen (by decide)
    · rw [hslash] at hlen
      exact absurd hlen (by decide)
    · -- the parts of the path come from parts of the name
      obtain ⟨px, q, rfl, hpx, hq⟩ := List.map_eq_append_iff.mp hpath
      obtain ⟨p, x, rfl, hp, hx⟩ := List.map_eq_append_iff.mp hpx
      have hself : x = l ++ [0x2E, 0x2E] ++ r := by
        rw [← hdots, ← hx]
        apply (replaceByte_of_forall _).symm
        intro b hb
        rw [← Bool.not_eq_true]
        intro hsep
        apply hslash
        rw [← hx]
        exact List.mem_map.mpr ⟨b, hb, replaceByte_eq_slash.mpr hsep⟩
      refine ⟨p, l, r, q, by rw [hself], hl, hr, ?_, ?_⟩
      · rcases hp' with rfl | ⟨p'', rfl⟩
        · exact Or.inl (List.map_eq_nil_iff.mp hp)
        · obtain ⟨p₁, p₂, rfl, -, hp₂⟩ := List.map_eq_append_iff.mp hp
          obtain ⟨b, rfl, hb⟩ := List.map_eq_singleton_iff.mp hp₂
          exact Or.inr ⟨p₁, b, rfl, replaceByte_eq_slash.mp hb⟩
      · intro b hb
        apply replaceByte_eq_slash.mp
        apply hq'
        rw [← hq]
        exact List.mem_map_of_mem hb
  · rintro ⟨p, l, r, q, rfl, hl, hr, hp, hq⟩
    have hplain : ∀ b ∈ l ++ [0x2E, 0x2E] ++ r, isSeparator b = false := by
      rw [List.forall_mem_append, List.forall_mem_append]
      exact ⟨⟨not_isSeparator_of_blank hl, by decide +kernel⟩, not_isSeparator_of_blank hr⟩
    have hslash : slash ∉ l ++ [0x2E, 0x2E] ++ r := fun h => absurd (hplain slash h) (by decide)
    have hparent : Parent (replaceByte backslash slash p) := by
      rcases hp with rfl | ⟨p', b, rfl, hb⟩
      · exact Or.inl rfl
      · refine Or.inr ⟨replaceByte backslash slash p', ?_⟩
        rw [replaceByte_append]
        exact congrArg _ (congrArg (fun c => [c]) (replaceByte_eq_slash.mpr hb))
    have htrailing : ∀ b ∈ replaceByte backslash slash q, b = slash := by
      intro b hb
      obtain ⟨c, hc, rfl⟩ := List.mem_map.mp hb
      exact replaceByte_eq_slash.mpr (hq c hc)
    rw [lastElement, replaceByte_append, replaceByte_append, replaceByte_of_forall hplain,
      base_append hparent (by simp) hslash htrailing]
    exact trimSpace_blank (b := 0x2E) hl hr (by decide) (by decide) ⟨_, rfl⟩ ⟨[0x2E], rfl⟩

/-- What is tested has no separator, unless it is one. It is a single element of a path. -/
theorem not_mem_lastElement {name : GoString} (h : lastElement name ≠ [slash]) :
    slash ∉ lastElement name ∧ backslash ∉ lastElement name := by
  obtain ⟨l, r, -, -, heq⟩ := exists_trimSpace (base (replaceByte backslash slash name))
  -- trimming spaces takes bytes away only
  have hsub : ∀ b ∈ lastElement name, b ∈ base (replaceByte backslash slash name) := by
    intro b hb
    rw [heq]
    exact List.mem_append_left r (List.mem_append_right l hb)
  rcases base_cases (replaceByte backslash slash name) with
    hdot | hslash | ⟨p, q, hpath, -, -, hslash, -⟩
  · rw [hdot] at hsub
    constructor
    · intro hmem
      exact absurd (hsub _ hmem) (by decide)
    · intro hmem
      exact absurd (hsub _ hmem) (by decide)
  · apply absurd _ h
    rw [lastElement, hslash]
    exact trimSpace_of_plain (by decide +kernel)
  · -- every backslash has become a slash before the element was taken
    refine ⟨fun hmem => hslash (hsub _ hmem), fun hmem => ?_⟩
    apply backslash_not_mem_replaceByte name
    rw [hpath]
    exact List.mem_append_left q (List.mem_append_right p (hsub _ hmem))

/-- At most five bytes are dropped in a round. A character of valid UTF-8 has four at most; the
reader of the last rune never returns more than five. -/
theorem length_cutLast (name : GoString) : name.length ≤ (cutLast name).length + 5 := by
  have hwidth := decodeLastRune_le name
  rw [cutLast, List.length_take]
  omega

/-- A long name stays long. The last round starts above 255 bytes and drops five at most. -/
theorem length_truncateName {name : GoString} (h : 251 ≤ name.length) :
    251 ≤ (truncateName name).length := by
  induction name using truncateName.induct with
  | case1 name hlong ih =>
    rw [truncateName_of_lt hlong]
    apply ih
    have hcut := length_cutLast name
    show 251 ≤ (cutLast name).length
    omega
  | case2 name hshort =>
    rw [truncateName_of_le (Nat.not_lt.mp hshort)]
    exact h

/-- A short result is the name itself. The special names have at most two bytes, so truncating does
not make one. -/
theorem eq_of_truncateName_eq {name x : GoString} (h : truncateName name = x)
    (hx : x.length ≤ 2) : name = x := by
  by_cases hlong : 255 < name.length
  · have hlen := length_truncateName (show 251 ≤ name.length by omega)
    rw [h] at hlen
    omega
  · rw [truncateName_of_le (Nat.not_lt.mp hlong)] at h
    exact h

/-- **The stored name is a plain file name** for every name whose last element is not `..`, and for
no other. A plain name is not empty, fits into 255 bytes, has no separator and is neither `.` nor
`..`. -/
theorem plain_iff (name : GoString) :
    Plain (sanitizeFileName name) ↔ ¬IsParentDirectory name := by
  rw [← lastElement_eq_iff, sanitizeFileName_eq]
  constructor
  · intro hplain hdots
    rw [hdots, if_neg (by decide), truncateName_of_le (by decide)] at hplain
    exact hplain.ne_dotdot rfl
  · -- the three names that are replaced, and all the others, which are truncated
    intro hdots
    by_cases hspecial : lastElement name = [] ∨ lastElement name = [0x2E] ∨
        lastElement name = [slash]
    · rw [if_pos hspecial]
      constructor <;> decide +kernel
    · rw [if_neg hspecial]
      rw [not_or, not_or] at hspecial
      obtain ⟨hempty, hdot, hslash⟩ := hspecial
      obtain ⟨hshort, hstart⟩ := truncateName_prefix (lastElement name)
      -- an element of a path holds no slash
      obtain ⟨hno, hno'⟩ := not_mem_lastElement hslash
      exact {
        nonempty := fun h => hempty (eq_of_truncateName_eq h (by decide))
        short := hshort
        no_slash := fun h => hno (hstart.subset h)
        no_backslash := fun h => hno' (hstart.subset h)
        ne_dot := fun h => hdot (eq_of_truncateName_eq h (by decide))
        ne_dotdot := fun h => hdots (eq_of_truncateName_eq h (by decide)) }

/-- The name `..` is stored as it is. It is the last element of itself, and the test does not name
it. -/
theorem stored_parent_directory : ¬∀ name, Plain (sanitizeFileName name) := by
  intro h
  have hdots : lastElement [0x2E, 0x2E] = [0x2E, 0x2E] :=
    (lastElement_eq_iff _).mpr ⟨[], [], [], [], rfl, Blank.nil, Blank.nil, Or.inl rfl, by simp⟩
  apply (h [0x2E, 0x2E]).ne_dotdot
  rw [sanitizeFileName_eq, hdots, if_neg (by decide), truncateName_of_le (by decide)]

end LanRoom.Upload
