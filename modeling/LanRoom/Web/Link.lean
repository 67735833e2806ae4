import LanRoom.Go.Utf8

/-! # The join link in the browser

`pickJoinURL` and `consumePINFromHash` of `web/static/app.js`, with the parts of the platform they
rest on: `decodeURIComponent` as ECMAScript specifies it, and `location.hash` as the URL standard
does. A string without lone surrogates is a sequence of characters; none can arise here, since the
strings come from UTF-8 and `decodeURIComponent` refuses encoded surrogates. -/

namespace LanRoom.Web

open LanRoom.Go (encodeRune decodeRune utf8)

/-! ## `decodeURIComponent` -/

/-- The value of a hexadecimal digit. -/
def hexDigit? (c : Char) : Option ℕ :=
  if '0' ≤ c ∧ c ≤ '9' then some (c.toNat - 0x30)
  else if 'a' ≤ c ∧ c ≤ 'f' then some (c.toNat - 0x61 + 10)
  else if 'A' ≤ c ∧ c ≤ 'F' then some (c.toNat - 0x41 + 10)
  else none

/-- A percent sign and two digits at the start: the byte, and what follows. -/
def octet? : List Char → Option (UInt8 × List Char)
  | '%' :: h :: l :: s =>
      (hexDigit? h).bind fun x => (hexDigit? l).map fun y => (UInt8.ofNat (16 * x + y), s)
  | _ => none

/-- As many as `n` of them. -/
def octets? : ℕ → List Char → Option (GoString × List Char)
  | 0, s => some ([], s)
  | n + 1, s => (octet? s).bind fun x => (octets? n x.2).map fun y => (x.1 :: y.1, y.2)

/-- The number of bytes in the encoding that starts with this one. -/
def announced (b : UInt8) : Option ℕ :=
  if b < 0x80 then some 1
  else if b < 0xC0 then none
  else if b < 0xE0 then some 2
  else if b < 0xF0 then some 3
  else if b < 0xF8 then some 4
  else none

/-- `Decode`, for at most `n` characters; `none` for a `URIError`. -/
def decodeUpTo : ℕ → List Char → Option (List Char)
  | _, [] => some []
  | 0, _ => none
  | n + 1, c :: s =>
      if c ≠ '%' then (decodeUpTo n s).map (c :: ·)
      else (octet? (c :: s)).bind fun first => (announced first.1).bind fun k =>
        (octets? k (c :: s)).bind fun x =>
          if (decodeRune x.1).2 = k then
            (decodeUpTo n x.2).map (Char.ofNat (decodeRune x.1).1 :: ·)
          else none

/-- `decodeURIComponent`. -/
def decodeURIComponent (s : List Char) : Option (List Char) := decodeUpTo s.length s

/-! ## `location` -/

/-- The parts of `location` that the page reads. -/
structure Location where
  hostname : List Char
  origin : List Char
  href : List Char

/-- The characters that are percent-encoded in a fragment. -/
def inFragmentSet (c : Char) : Bool :=
  c.toNat ≤ 0x20 || c == '"' || c == '<' || c == '>' || c.toNat == 0x60 || 0x7E < c.toNat

/-- A character of a fragment, percent-encoded where it has to be. -/
def fragmentChar (c : Char) : List Char :=
  if inFragmentSet c then
    (encodeRune c).flatMap fun b =>
      ['%', Char.ofNat (Go.upperHexDigit (b / 16)).toNat, Char.ofNat (Go.upperHexDigit (b % 16)).toNat]
  else [c]

/-- The text from the first `#` on. -/
def fromHash (url : List Char) : List Char := url.dropWhile (· ≠ '#')

/-- `location.hash` of a page opened at `url`. -/
def locationHash (url : List Char) : List Char :=
  match fromHash url with
  | _ :: c :: fragment => '#' :: (c :: fragment).flatMap fragmentChar
  | _ => []

/-! ## `app.js` -/

/-- `\d{1,3}`. -/
def shortNumber (s : List Char) : Bool := decide (1 ≤ s.length ∧ s.length ≤ 3) && s.all Char.isDigit

/-- `isLANIPv4Host`. -/
def isLANIPv4Host (host : List Char) : Bool :=
  match host.splitOn '.' with
  | [a, b, c, d] =>
      (a == ['1', '9', '2'] && b == ['1', '6', '8'] && shortNumber c && shortNumber d) ||
        (a == ['1', '0'] && shortNumber b && shortNumber c && shortNumber d)
  | _ => false

/-- `pickJoinURL`. -/
def pickJoinURL (loc : Location) (joinUrl : List Char) : List Char :=
  if isLANIPv4Host loc.hostname then loc.origin ++ '/' :: fromHash joinUrl
  else if joinUrl ≠ [] then joinUrl
  else loc.href

/-- What `[^&]*` matches after the first `&pin=`. -/
def afterAmpersand : List Char → Option (List Char)
  | [] => none
  | c :: s =>
      if ['&', 'p', 'i', 'n', '='].isPrefixOf (c :: s) then
        some ((s.drop 4).takeWhile (· ≠ '&'))
      else afterAmpersand s

/-- The group of `/(?:^#|&)pin=([^&]*)/`. -/
def pinGroup (hash : List Char) : Option (List Char) :=
  if ['#', 'p', 'i', 'n', '='].isPrefixOf hash then some ((hash.drop 5).takeWhile (· ≠ '&'))
  else afterAmpersand hash

/-- `submitPIN`: the PIN in the body it sends; an empty one is not sent. -/
def submitPIN (pin : List Char) : Option GoString := if pin = [] then none else some (utf8 pin)

/-- `consumePINFromHash`: the PIN it submits. -/
def consumePINFromHash (hash : List Char) : Option GoString :=
  (pinGroup hash).bind fun group => (decodeURIComponent group).bind submitPIN

/-! ## Reading the escapes of `url.QueryEscape` -/

/-- The character of an ASCII byte. -/
def asciiChar (b : UInt8) : Char := Char.ofNat b.toNat

/-- The characters of an escaped string. -/
def escaped (s : GoString) : List Char := (Go.queryEscape s).map asciiChar

/-- Texts are escaped piece by piece. A byte is escaped without regard to its neighbours. -/
theorem escaped_append (s t : GoString) : escaped (s ++ t) = escaped s ++ escaped t := by
  simp [escaped, Go.queryEscape]

/-- A byte that is escaped by its digits. The digits are in upper case. -/
theorem escaped_reserved {b : UInt8} (hspace : b ≠ 0x20) (h : Go.isUnreserved b = false) :
    escaped [b] = ['%', asciiChar (Go.upperHexDigit (b / 16)), asciiChar (Go.upperHexDigit (b % 16))] := by
  simp [escaped, Go.queryEscape, hspace, h]
  rfl

/-- What needs no escape is written as it is. These are letters, digits and four other
characters. -/
theorem escaped_unreserved {b : UInt8} (hspace : b ≠ 0x20) (h : Go.isUnreserved b = true) :
    escaped [b] = [asciiChar b] := by
  simp [escaped, Go.queryEscape, hspace, h]

/-- The digits are read back. The page accepts digits in either case. -/
theorem hexDigit?_upperHexDigit (b : UInt8) :
    hexDigit? (asciiChar (Go.upperHexDigit (b / 16))) = some (b.toNat / 16) ∧
      hexDigit? (asciiChar (Go.upperHexDigit (b % 16))) = some (b.toNat % 16) := by
  have hall : ∀ n < 256,
      hexDigit? (asciiChar (Go.upperHexDigit (UInt8.ofNat n / 16))) =
        some ((UInt8.ofNat n).toNat / 16) ∧
      hexDigit? (asciiChar (Go.upperHexDigit (UInt8.ofNat n % 16))) =
        some ((UInt8.ofNat n).toNat % 16) := by
    decide +kernel
  have hb := hall b.toNat b.toNat_lt
  rwa [UInt8.ofNat_toNat] at hb

/-- An escaped byte is read back. It takes the three characters of the escape and leaves the
rest. -/
theorem octet?_escaped {b : UInt8} (hspace : b ≠ 0x20) (h : Go.isUnreserved b = false)
    (s : List Char) : octet? (escaped [b] ++ s) = some (b, s) := by
  obtain ⟨hhigh, hlow⟩ := hexDigit?_upperHexDigit b
  rw [escaped_reserved hspace h]
  simp only [List.cons_append, List.nil_append, octet?, hhigh, hlow, Option.bind_some,
    Option.map_some]
  have hvalue : 16 * (b.toNat / 16) + b.toNat % 16 = b.toNat := by omega
  rw [hvalue, UInt8.ofNat_toNat]

/-- Escaped bytes are read back. The induction is on the bytes. -/
theorem octets?_escaped {bs : GoString}
    (h : ∀ b ∈ bs, b ≠ 0x20 ∧ Go.isUnreserved b = false) (s : List Char) :
    octets? bs.length (escaped bs ++ s) = some (bs, s) := by
  induction bs with
  | nil => rfl
  | cons b bs ih =>
      obtain ⟨hspace, hreserved⟩ := h b List.mem_cons_self
      have hrest := ih fun b' hb' => h b' (List.mem_cons_of_mem _ hb')
      have hsplit : escaped (b :: bs) ++ s = escaped [b] ++ (escaped bs ++ s) := by
        rw [← List.append_assoc, ← escaped_append]
        rfl
      rw [hsplit, List.length_cons, octets?, octet?_escaped hspace hreserved]
      simp only [Option.bind_some, hrest, Option.map_some]

/-- The first byte of a character announces its length. So the decoder knows how many escapes belong
together. -/
theorem announced_encodeRune (c : Char) :
    ∃ b bs, encodeRune c = b :: bs ∧ announced b = some (bs.length + 1) := by
  have hvalid := Go.toNat_char c
  unfold encodeRune
  generalize c.toNat = v at hvalid
  have hone : ∀ n < 0x80, announced (UInt8.ofNat n) = some 1 := by decide
  have htwo : ∀ n < 32, announced (UInt8.ofNat (0xC0 + n)) = some 2 := by decide
  have hthree : ∀ n < 16, announced (UInt8.ofNat (0xE0 + n)) = some 3 := by decide
  have hfour : ∀ n < 8, announced (UInt8.ofNat (0xF0 + n)) = some 4 := by decide
  simp only
  split
  · exact ⟨_, _, rfl, hone v ‹_›⟩
  · split
    · exact ⟨_, _, rfl, htwo (v / 64) (by omega)⟩
    · split
      · exact ⟨_, _, rfl, hthree (v / 4096) (by omega)⟩
      · exact ⟨_, _, rfl, hfour (v / 262144) (by omega)⟩

/-- What becomes of a character on its way: a space comes back as a plus sign. -/
def plusForSpace (c : Char) : Char := if c = ' ' then '+' else c

/-- The bytes of a character that is escaped. All of them are escaped, since only bytes of ASCII may
stand for themselves. -/
theorem reserved_of_encodeRune {c : Char} (hspace : c ≠ ' ')
    (h : ∀ b, encodeRune c = [b] → Go.isUnreserved b = false) :
    ∀ b ∈ encodeRune c, b ≠ 0x20 ∧ Go.isUnreserved b = false := by
  intro b hb
  by_cases hascii : c.toNat < 0x80
  · have hbytes := Go.encodeRune_ascii hascii
    rw [hbytes, List.mem_singleton] at hb
    subst hb
    refine ⟨fun heq => hspace ?_, h _ hbytes⟩
    have hvalue := congrArg UInt8.toNat heq
    rw [UInt8.toNat_ofNat', Nat.mod_eq_of_lt (hascii.trans (by decide))] at hvalue
    rw [← Char.ofNat_toNat c, hvalue]
    rfl
  · have hge := Go.le_of_mem_encodeRune (Nat.not_lt.mp hascii) hb
    have hall : ∀ n < 256, 0x80 ≤ UInt8.ofNat n →
        UInt8.ofNat n ≠ 0x20 ∧ Go.isUnreserved (UInt8.ofNat n) = false := by
      decide +kernel
    have hb' := hall b.toNat b.toNat_lt
    rw [UInt8.ofNat_toNat] at hb'
    exact hb' hge

/-- One round of `Decode` reads one character back. The space is the one character that comes back
as another one. -/
theorem decodeUpTo_escaped (n : ℕ) (c : Char) (s : List Char) :
    decodeUpTo (n + 1) (escaped (encodeRune c) ++ s) =
      (decodeUpTo n s).map (plusForSpace c :: ·) := by
  by_cases hspace : c = ' '
  · subst hspace
    rfl
  · have hkeep : plusForSpace c = c := if_neg hspace
    rw [hkeep]
    by_cases hplain : ∃ b, encodeRune c = [b] ∧ Go.isUnreserved b = true
    · -- an unreserved character is written as it is
      obtain ⟨b, hb, hunreserved⟩ := hplain
      have hascii : c.toNat < 0x80 := by
        by_contra hlarge
        have hge := Go.le_of_mem_encodeRune (Nat.not_lt.mp hlarge) (hb ▸ List.mem_singleton_self b)
        have hall : ∀ n < 256, 0x80 ≤ UInt8.ofNat n → Go.isUnreserved (UInt8.ofNat n) = false := by
          decide +kernel
        have hb' := hall b.toNat b.toNat_lt
        rw [UInt8.ofNat_toNat] at hb'
        rw [hb' hge] at hunreserved
        cases hunreserved
      have hbyte : UInt8.ofNat c.toNat = b := by
        rw [Go.encodeRune_ascii hascii] at hb
        exact (List.cons.inj hb).1
      have hchar : asciiChar b = c := by
        unfold asciiChar
        rw [← hbyte, UInt8.toNat_ofNat', Nat.mod_eq_of_lt (hascii.trans (by decide)),
          Char.ofNat_toNat]
      have hall : ∀ n < 256, Go.isUnreserved (UInt8.ofNat n) = true →
          UInt8.ofNat n ≠ 0x20 ∧ asciiChar (UInt8.ofNat n) ≠ '%' := by
        decide +kernel
      have hb' := hall b.toNat b.toNat_lt
      rw [UInt8.ofNat_toNat] at hb'
      obtain ⟨hne, hpercent⟩ := hb' hunreserved
      rw [hb, escaped_unreserved hne hunreserved, List.singleton_append, decodeUpTo, if_pos hpercent,
        hchar]
    · -- any other character is written as escaped bytes
      have hreserved := reserved_of_encodeRune hspace fun b hb => by
        by_contra hno
        exact hplain ⟨b, hb, Bool.not_eq_false _ |>.mp hno⟩
      have hoctets := octets?_escaped hreserved s
      obtain ⟨b, bs, hbytes, hannounced⟩ := announced_encodeRune c
      have hdecode := Go.decodeRune_encodeRune c []
      rw [List.append_nil, hbytes] at hdecode
      rw [hbytes] at hoctets hreserved ⊢
      obtain ⟨hb, hb'⟩ := hreserved b List.mem_cons_self
      have hsplit : escaped (b :: bs) ++ s = escaped [b] ++ (escaped bs ++ s) := by
        rw [← List.append_assoc, ← escaped_append]
        rfl
      have hfirst := octet?_escaped hb hb' (escaped bs ++ s)
      have hpercent : ∃ rest, escaped (b :: bs) ++ s = '%' :: rest := by
        rw [hsplit, escaped_reserved hb hb']
        exact ⟨_, rfl⟩
      rw [← hsplit] at hfirst
      obtain ⟨rest, hrest⟩ := hpercent
      rw [hrest] at hfirst hoctets ⊢
      simp only [decodeUpTo, ne_eq, not_true_eq_false, if_false, hfirst, Option.bind_some,
        hannounced, List.length_cons] at hoctets ⊢
      simp only [hoctets, Option.bind_some, hdecode, List.length_cons, if_true, Char.ofNat_toNat]

/-- **`decodeURIComponent` after `url.QueryEscape`**: every character comes back, but a space as a
plus sign. The induction is on the characters, each of which is one round of the decoder. -/
theorem decodeURIComponent_escaped (cs : List Char) :
    decodeURIComponent (escaped (utf8 cs)) = some (cs.map plusForSpace) := by
  -- a unit of fuel for each character; an escape is read at one go
  have hrounds : ∀ n, cs.length ≤ n → decodeUpTo n (escaped (utf8 cs)) =
      some (cs.map plusForSpace) := by
    induction cs with
    | nil =>
        intro n _
        cases n <;> rfl
    | cons c cs ih =>
        intro n hn
        obtain ⟨n, rfl⟩ : ∃ k, n = k + 1 := ⟨n - 1, by rw [List.length_cons] at hn; omega⟩
        rw [Go.utf8_cons, escaped_append, decodeUpTo_escaped,
          ih n (Nat.le_of_succ_le_succ hn)]
        rfl
  refine hrounds _ ?_
  clear hrounds
  induction cs with
  | nil => exact Nat.zero_le _
  | cons c cs ih =>
      have hpos : 1 ≤ (escaped (encodeRune c)).length := by
        obtain ⟨b, bs, hbytes, -⟩ := announced_encodeRune c
        rw [hbytes]
        have hsplit : escaped (b :: bs) = escaped [b] ++ escaped bs := escaped_append [b] bs
        have hone : 1 ≤ (escaped [b]).length := by
          simp only [escaped, Go.queryEscape, List.flatMap_cons, List.flatMap_nil, List.append_nil,
            List.length_map]
          split
          · exact le_refl 1
          · split
            · exact le_refl 1
            · exact Nat.le_add_left 1 2
        rw [hsplit, List.length_append]
        omega
      rw [Go.utf8_cons, escaped_append, List.length_append, List.length_cons]
      omega

example : decodeURIComponent "%C3%A4+b".toList = some ['ä', '+', 'b'] := by decide +kernel

/-! ## From the fragment to the PIN -/

/-- The characters of an escaped string stand for themselves in a fragment, and end neither the
fragment nor the parameter. -/
theorem plain_of_mem_escaped {s : GoString} {c : Char} (h : c ∈ escaped s) :
    inFragmentSet c = false ∧ c ≠ '&' := by
  have hall : ∀ n < 256, (escaped [UInt8.ofNat n]).all (fun c => !inFragmentSet c && c != '&') := by
    decide +kernel
  induction s with
  | nil => exact absurd h List.not_mem_nil
  | cons b s ih =>
      have hsplit : escaped (b :: s) = escaped [b] ++ escaped s := escaped_append [b] s
      rw [hsplit] at h
      rcases List.mem_append.mp h with h | h
      · have hb := hall b.toNat b.toNat_lt
        rw [UInt8.ofNat_toNat] at hb
        simpa using List.all_eq_true.mp hb c h
      · exact ih h

/-- The fragment of a join link. What stands in front has no number sign, so the fragment begins
here. -/
theorem fromHash_link {front : List Char} (hfront : '#' ∉ front) (s : GoString) :
    fromHash (front ++ '#' :: ['p', 'i', 'n', '='] ++ escaped s) =
      '#' :: ['p', 'i', 'n', '='] ++ escaped s := by
  unfold fromHash
  rw [List.append_assoc, List.dropWhile_append_of_pos]
  · rfl
  · intro c hc
    refine decide_eq_true ?_
    rintro rfl
    exact hfront hc

/-- The fragment of a join link is shown as it is. Browsers escape a few characters in a fragment,
none of which is left in it. -/
theorem locationHash_link {front : List Char} (hfront : '#' ∉ front) (s : GoString) :
    locationHash (front ++ '#' :: ['p', 'i', 'n', '='] ++ escaped s) =
      '#' :: ['p', 'i', 'n', '='] ++ escaped s := by
  have hkeep : ∀ c ∈ ['p', 'i', 'n', '='] ++ escaped s, fragmentChar c = [c] := by
    intro c hc
    refine if_neg ?_
    rw [Bool.not_eq_true]
    have hname : ['p', 'i', 'n', '='].all (fun c => !inFragmentSet c) = true := by decide
    rcases List.mem_append.mp hc with hc | hc
    · simpa using List.all_eq_true.mp hname c hc
    · exact (plain_of_mem_escaped hc).1
  unfold locationHash
  rw [fromHash_link hfront]
  show '#' :: (['p', 'i', 'n', '='] ++ escaped s).flatMap fragmentChar = _
  rw [List.flatMap_congr hkeep]
  simp

/-- **What the page submits** when it is opened by a join link. The value behind `#pin=` is decoded
once, and the page submits it as it is. -/
theorem consumePINFromHash_link {front : List Char} (hfront : '#' ∉ front) (cs : List Char) :
    consumePINFromHash (locationHash
      (front ++ '#' :: ['p', 'i', 'n', '='] ++ escaped (utf8 cs))) =
      submitPIN (cs.map plusForSpace) := by
  rw [locationHash_link hfront]
  have hgroup : pinGroup ('#' :: ['p', 'i', 'n', '='] ++ escaped (utf8 cs)) =
      some (escaped (utf8 cs)) := by
    have htake : (escaped (utf8 cs)).takeWhile (· ≠ '&') = escaped (utf8 cs) := by
      rw [List.takeWhile_eq_self_iff]
      intro c hc
      exact decide_eq_true (plain_of_mem_escaped hc).2
    show some ((escaped (utf8 cs)).takeWhile (· ≠ '&')) = _
    rw [htake]
  unfold consumePINFromHash
  rw [hgroup, Option.bind_some, decodeURIComponent_escaped, Option.bind_some]

/-- A space is a byte of no other character. Whether a PIN has a space can be seen on its bytes. -/
theorem space_of_mem_encodeRune {c : Char} (h : (0x20 : UInt8) ∈ encodeRune c) : c = ' ' := by
  by_cases hascii : c.toNat < 0x80
  · rw [Go.encodeRune_ascii hascii, List.mem_singleton] at h
    have hvalue := congrArg UInt8.toNat h
    rw [UInt8.toNat_ofNat', Nat.mod_eq_of_lt (hascii.trans (by decide))] at hvalue
    rw [← Char.ofNat_toNat c, ← hvalue]
    rfl
  · exact absurd (Go.le_of_mem_encodeRune (Nat.not_lt.mp hascii) h) (by decide)

/-- What is submitted is the PIN exactly when this has no space. -/
theorem submitPIN_iff {cs : List Char} (hne : cs ≠ []) :
    submitPIN (cs.map plusForSpace) = some (utf8 cs) ↔ ' ' ∉ cs := by
  have hsome : submitPIN (cs.map plusForSpace) = some (utf8 (cs.map plusForSpace)) :=
    if_neg fun hnil => hne (List.map_eq_nil_iff.mp hnil)
  rw [hsome, Option.some.injEq]
  constructor
  · intro heq hmem
    -- the space is a byte of the PIN, and no byte of what is submitted
    have hbyte : (0x20 : UInt8) ∈ utf8 cs := List.mem_flatMap.mpr ⟨' ', hmem, by decide⟩
    rw [← heq] at hbyte
    obtain ⟨c, hc, hspace⟩ := List.mem_flatMap.mp hbyte
    obtain ⟨c₀, -, rfl⟩ := List.mem_map.mp hc
    have hspace' := space_of_mem_encodeRune hspace
    unfold plusForSpace at hspace'
    split at hspace'
    · exact absurd hspace' (by decide)
    · rename_i hno
      exact hno hspace'
  · intro hno
    have hid : cs.map plusForSpace = cs := by
      rw [List.map_congr_left (g := id)]
      · exact List.map_id cs
      · intro c hc
        have hne : c ≠ ' ' := fun heq => hno (heq ▸ hc)
        exact if_neg hne
    rw [hid]

end LanRoom.Web
