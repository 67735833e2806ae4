import LanRoom.Go.Text

/-! # The package `net`

`net.ParseIP`, `IPNet.Contains` and `net.SplitHostPort` of Go's standard library, with
`strings.Split` and `strings.Trim` for the arguments the server uses. An address is a sequence of
sixteen bytes (an IPv4 address inside IPv6, or a proper IPv6 address), as `ParseIP` returns it.

What the text of an address looks like is used by callers: it has no comma and no white space
(`isAddressByte_of_parseIP`). -/

namespace LanRoom.Go

/-! ## `strings` -/

/-- The byte `','`. -/
def comma : UInt8 := 0x2C

/-- `strings.Split(s, ",")`. -/
def splitComma (s : GoString) : List GoString := s.splitOn comma

/-- `strings.Join(lines, ",")`. -/
def joinComma : List GoString → GoString
  | [] => []
  | [line] => line
  | line :: lines => line ++ comma :: joinComma lines

/-- Splitting what has been joined splits the lines one after the other. Joining repeated header
lines with commas and splitting them gives every entry of every line, in order. -/
theorem splitComma_joinComma (line : GoString) (lines : List GoString) :
    splitComma (joinComma (line :: lines)) = (line :: lines).flatMap splitComma := by
  induction lines generalizing line with
  | nil => simp [joinComma]
  | cons next lines ih =>
      have hjoin : joinComma (line :: next :: lines) = line ++ comma :: joinComma (next :: lines) :=
        rfl
      rw [hjoin, List.flatMap_cons, ← ih next]
      exact List.splitOn_append_cons_self line _

/-- `strings.Trim(s, "[]")`. -/
def trimBrackets (s : GoString) : GoString :=
  let bracket := fun b : UInt8 => b = 0x5B || b = 0x5D
  ((s.dropWhile bracket).reverse.dropWhile bracket).reverse

/-! ## `net.ParseIP` -/

/-- The byte `'.'`. -/
def dot : UInt8 := 0x2E

/-- The byte `':'`. -/
def colon : UInt8 := 0x3A

/-- The byte `'%'`. -/
def percent : UInt8 := 0x25

/-- The value of a hexadecimal digit. -/
def hexVal? (b : UInt8) : Option ℕ :=
  if 0x30 ≤ b ∧ b ≤ 0x39 then some (b.toNat - 0x30)
  else if 0x61 ≤ b ∧ b ≤ 0x66 then some (b.toNat - 0x61 + 10)
  else if 0x41 ≤ b ∧ b ≤ 0x46 then some (b.toNat - 0x41 + 10)
  else none

/-- `parseIPv4Fields`: the fields read so far, the value of the current one and its number of
digits. -/
def ipv4Fields : GoString → Bytes → ℕ → ℕ → Option Bytes
  | [], fields, val, _ => if fields.length < 3 then none else some (fields ++ [UInt8.ofNat val])
  | b :: s, fields, val, digits =>
      match digit? b with
      | some d =>
          if digits = 1 ∧ val = 0 then none
          else if 255 < val * 10 + d then none
          else ipv4Fields s fields (val * 10 + d) (digits + 1)
      | none =>
          if b ≠ dot then none
          else if digits = 0 ∨ s = [] then none
          else if fields.length = 3 then none
          else ipv4Fields s (fields ++ [UInt8.ofNat val]) 0 0

/-- The two bytes of a group of hexadecimal digits. -/
def groupBytes (run : GoString) : Bytes :=
  let acc := run.foldl (fun acc b => acc * 16 + (hexVal? b).getD 0) 0
  [UInt8.ofNat (acc / 256), UInt8.ofNat acc]

/-- The loop of `parseIPv6`, with the bytes read so far, the position of the `::` and the number of
groups there is room for: the bytes, the position and what is left of the text. -/
def ipv6Groups : ℕ → GoString → Bytes → Option ℕ → Option (Bytes × Option ℕ × GoString)
  | 0, s, ip, ellipsis => some (ip, ellipsis, s)
  | n + 1, s, ip, ellipsis =>
      let run := s.takeWhile fun b => (hexVal? b).isSome
      let ip' := ip ++ groupBytes run
      if run = [] ∨ 4 < run.length then none
      else match s.dropWhile fun b => (hexVal? b).isSome with
        | [] => some (ip', ellipsis, [])
        | c :: rest =>
            if c = dot then
              if ellipsis = none ∧ ip.length ≠ 12 then none
              else if 16 < ip.length + 4 then none
              else (ipv4Fields s [] 0 0).map fun fields => (ip ++ fields, ellipsis, [])
            else if c ≠ colon ∨ rest = [] then none
            else if rest.head? = some colon then
              if ellipsis ≠ none then none
              else if rest.tail = [] then some (ip', some ip'.length, [])
              else ipv6Groups n rest.tail ip' (some ip'.length)
            else ipv6Groups n rest ip' ellipsis

/-- `parseIPv6` for a text without a zone. -/
def parseIPv6 (s : GoString) : Option Bytes :=
  let leading := s.take 2 = [colon, colon]
  if leading ∧ s.drop 2 = [] then some (List.replicate 16 0)
  else
    match ipv6Groups 8 (if leading then s.drop 2 else s) [] (if leading then some 0 else none) with
    | some (ip, ellipsis, []) =>
        if ip.length < 16 then
          ellipsis.map fun k => ip.take k ++ List.replicate (16 - ip.length) 0 ++ ip.drop k
        else if ellipsis = none then some ip else none
    | _ => none

/-- An IPv4 address inside IPv6. -/
def mapped (ip : Bytes) : Bytes := List.replicate 10 0 ++ [0xFF, 0xFF] ++ ip

/-- `net.ParseIP`. Text with a zone is no address. -/
def parseIP (s : GoString) : Option Bytes :=
  match s.find? fun b => b = dot || b = colon || b = percent with
  | none => none
  | some b =>
      if percent ∈ s then none
      else if b = dot then (ipv4Fields s [] 0 0).map mapped
      else parseIPv6 s

/-- The bytes in the text of an address: hexadecimal digits, dots and colons. -/
def isAddressByte (b : UInt8) : Bool := (hexVal? b).isSome || b = dot || b = colon

/-- A decimal digit is a hexadecimal one. The set of bytes that can stand in an address is thus one
set for both notations. -/
theorem isAddressByte_of_digit {b : UInt8} {d : ℕ} (h : digit? b = some d) :
    isAddressByte b = true := by
  have hrange : 0x30 ≤ b ∧ b ≤ 0x39 := by
    unfold digit? at h
    split at h
    · assumption
    · cases h
  have hhex : hexVal? b = some (b.toNat - 0x30) := if_pos hrange
  simp [isAddressByte, hhex]

/-- A dotted address consists of digits and dots. The loop fails at every other byte, whatever it
has read before. -/
theorem isAddressByte_of_ipv4Fields {s : GoString} {fields ip : Bytes} {val digits : ℕ}
    (h : ipv4Fields s fields val digits = some ip) : ∀ b ∈ s, isAddressByte b = true := by
  induction s generalizing fields val digits with
  | nil => exact fun b hb => absurd hb List.not_mem_nil
  | cons c s ih =>
      rw [ipv4Fields] at h
      have hhead : isAddressByte c = true ∧ ∃ fields val digits,
          ipv4Fields s fields val digits = some ip := by
        split at h
        · rename_i d hd
          split at h
          · cases h
          · split at h
            · cases h
            · exact ⟨isAddressByte_of_digit hd, _, _, _, h⟩
        · split at h
          · cases h
          · rename_i hdot
            split at h
            · cases h
            · split at h
              · cases h
              · exact ⟨by simp [isAddressByte, not_not.mp hdot], _, _, _, h⟩
      obtain ⟨hc, fields', val', digits', hrest⟩ := hhead
      intro b hb
      rcases List.mem_cons.mp hb with rfl | hb
      · exact hc
      · exact ih hrest b hb

/-- The loop leaves address bytes behind. What it leaves unread is what the caller asks to be
empty. -/
theorem isAddressByte_of_ipv6Groups {n : ℕ} {s rest : GoString} {ip ip' : Bytes}
    {ellipsis ellipsis' : Option ℕ}
    (h : ipv6Groups n s ip ellipsis = some (ip', ellipsis', rest)) :
    ∃ front, s = front ++ rest ∧ ∀ b ∈ front, isAddressByte b = true := by
  induction n generalizing s ip ellipsis with
  | zero =>
      cases h
      exact ⟨[], rfl, fun b hb => absurd hb List.not_mem_nil⟩
  | succ n ih =>
      -- the run of digits, then `c`, then what the rest of the loop reads
      have hnext : ∀ {c t}, s.dropWhile (fun b => (hexVal? b).isSome) = c ++ t →
          (∀ b ∈ c, b = colon) → (∃ front, t = front ++ rest ∧
            ∀ b ∈ front, isAddressByte b = true) →
          ∃ front, s = front ++ rest ∧ ∀ b ∈ front, isAddressByte b = true := by
        rintro c t hc hcolon ⟨front, rfl, hfront⟩
        refine ⟨s.takeWhile (fun b => (hexVal? b).isSome) ++ (c ++ front), ?_, fun b hb => ?_⟩
        · rw [List.append_assoc, List.append_assoc, ← hc, List.takeWhile_append_dropWhile]
        · rcases List.mem_append.mp hb with hb | hb
          · have hhex : (hexVal? b).isSome = true := by simpa using List.mem_takeWhile_imp hb
            simp [isAddressByte, hhex]
          · rcases List.mem_append.mp hb with hb | hb
            · simp [isAddressByte, hcolon b hb]
            · exact hfront b hb
      simp only [ipv6Groups] at h
      split at h
      · cases h
      · split at h
        · rename_i hdrop
          cases h
          exact hnext (c := []) (t := []) hdrop (fun b hb => absurd hb List.not_mem_nil)
            ⟨[], rfl, fun b hb => absurd hb List.not_mem_nil⟩
        · rename_i c tail hdrop
          split at h
          · split at h
            · cases h
            · split at h
              · cases h
              · obtain ⟨fields, hfields, heq⟩ := Option.map_eq_some_iff.mp h
                cases heq
                exact ⟨s, (List.append_nil s).symm, isAddressByte_of_ipv4Fields hfields⟩
          · split at h
            · cases h
            · rename_i hcolon
              obtain ⟨rfl, hne⟩ : c = colon ∧ tail ≠ [] := by simpa using hcolon
              split at h
              · rename_i hsecond
                obtain ⟨tail', rfl⟩ : ∃ tail', tail = colon :: tail' := by
                  cases tail with
                  | nil => cases hsecond
                  | cons x tail' => exact ⟨tail', by rw [Option.some.inj hsecond]⟩
                have htwo : ∀ b ∈ [colon, colon], b = colon := by simp
                split at h
                · cases h
                · split at h
                  · rename_i hend
                    obtain rfl : tail' = [] := hend
                    cases h
                    exact hnext (c := [colon, colon]) (t := []) hdrop htwo
                      ⟨[], rfl, fun b hb => absurd hb List.not_mem_nil⟩
                  · exact hnext (c := [colon, colon]) (t := tail') hdrop htwo (ih h)
              · exact hnext (c := [colon]) (t := tail) hdrop (by simp) (ih h)

/-- An IPv6 address consists of hexadecimal digits, colons and dots. A zone is refused, so no other
byte can stand in it. -/
theorem isAddressByte_of_parseIPv6 {s : GoString} {ip : Bytes} (h : parseIPv6 s = some ip) :
    ∀ b ∈ s, isAddressByte b = true := by
  have hleading : s.take 2 = [colon, colon] → (∀ b ∈ s.drop 2, isAddressByte b = true) →
      ∀ b ∈ s, isAddressByte b = true := by
    intro htake hdrop b hb
    rw [← List.take_append_drop 2 s, htake] at hb
    rcases List.mem_append.mp hb with hb | hb
    · have hcolon : b = colon := by simpa using hb
      simp [isAddressByte, hcolon]
    · exact hdrop b hb
  have hgroups : ∀ {t ellipsis ip' ellipsis'},
      ipv6Groups 8 t [] ellipsis = some (ip', ellipsis', []) → ∀ b ∈ t, isAddressByte b = true := by
    intro t ellipsis ip' ellipsis' hloop
    obtain ⟨front, rfl, hfront⟩ := isAddressByte_of_ipv6Groups hloop
    rwa [List.append_nil]
  simp only [parseIPv6] at h
  split at h
  · rename_i hall
    refine hleading hall.1 ?_
    rw [hall.2]
    exact fun b hb => absurd hb List.not_mem_nil
  · split at h
    · rename_i hloop
      by_cases htake : s.take 2 = [colon, colon]
      · rw [if_pos htake] at hloop
        exact hleading htake (hgroups hloop)
      · rw [if_neg htake] at hloop
        exact hgroups hloop
    · cases h

/-- **The text of an address** has hexadecimal digits, dots and colons only. In particular there is
neither a comma nor white space in it, which is why a list of addresses can be split safely. -/
theorem isAddressByte_of_parseIP {s : GoString} {ip : Bytes} (h : parseIP s = some ip) :
    ∀ b ∈ s, isAddressByte b = true := by
  unfold parseIP at h
  split at h
  · cases h
  · split at h
    · cases h
    · split at h
      · obtain ⟨fields, hfields, -⟩ := Option.map_eq_some_iff.mp h
        exact isAddressByte_of_ipv4Fields hfields
      · exact isAddressByte_of_parseIPv6 h

/-- An address byte is an ASCII character that is neither white space nor a comma. -/
theorem plain_of_isAddressByte {b : UInt8} (h : isAddressByte b = true) :
    b < 0x80 ∧ isSpace b.toNat = false ∧ b ≠ comma := by
  have hall : ∀ n < 256, isAddressByte (UInt8.ofNat n) = true → UInt8.ofNat n < 0x80 ∧
      isSpace (UInt8.ofNat n).toNat = false ∧ UInt8.ofNat n ≠ comma := by
    decide +kernel
  have hb := hall b.toNat b.toNat_lt
  rw [UInt8.ofNat_toNat] at hb
  exact hb h

/-- The empty string is no address. An empty entry of a list of addresses therefore stands for
nothing. -/
theorem parseIP_nil : parseIP [] = none := rfl

/-- The text of an address is one entry of a list. There is no comma in it, so a header with one
address has one entry. -/
theorem splitComma_of_parseIP {s : GoString} {ip : Bytes} (h : parseIP s = some ip) :
    splitComma s = [s] := by
  apply List.splitOn_eq_singleton
  intro hmem
  exact (plain_of_isAddressByte (isAddressByte_of_parseIP h comma hmem)).2.2 rfl

/-- There is nothing to trim from the text of an address. None of its bytes is white space, so an
address is found again after trimming. -/
theorem trimSpace_of_parseIP {s : GoString} {ip : Bytes} (h : parseIP s = some ip) :
    trimSpace s = s :=
  trimSpace_of_plain fun b hb =>
    have hplain := plain_of_isAddressByte (isAddressByte_of_parseIP h b hb)
    ⟨hplain.1, hplain.2.1⟩

example : parseIP (goString "::1") = some (List.replicate 15 0 ++ [1]) := by decide +kernel

/-! ## `net.IPNet` -/

/-- `IP.To4`. -/
def to4 (ip : Bytes) : Option Bytes :=
  if ip.length = 4 then some ip
  else if ip.length = 16 ∧ ip.take 12 = List.replicate 10 0 ++ [0xFF, 0xFF] then some (ip.drop 12)
  else none

/-- `net.IPNet`. -/
structure IPNet where
  ip : Bytes
  mask : Bytes
  deriving DecidableEq

/-- `networkNumberAndMask`. -/
def IPNet.numberAndMask (n : IPNet) : Option (Bytes × Bytes) :=
  let ip := (to4 n.ip).getD n.ip
  if to4 n.ip = none ∧ n.ip.length ≠ 16 then none
  else if n.mask.length = 4 then if ip.length = 4 then some (ip, n.mask) else none
  else if n.mask.length = 16 then some (ip, if ip.length = 4 then n.mask.drop 12 else n.mask)
  else none

/-- `IPNet.Contains`. -/
def IPNet.contains (n : IPNet) (ip : Bytes) : Bool :=
  match n.numberAndMask with
  | none => false
  | some (number, mask) =>
      let ip := (to4 ip).getD ip
      decide (ip.length = number.length) &&
        ((number.zip mask).zip ip).all fun x => x.1.1 &&& x.1.2 == x.2 &&& x.1.2

/-! ## `net.SplitHostPort` -/

/-- The host `net.SplitHostPort` returns, if it returns no error. -/
def splitHostPort (hostport : GoString) : Option GoString :=
  if colon ∉ hostport then none
  else
    -- the text before and after the last colon
    let port := (hostport.reverse.takeWhile (· ≠ colon)).reverse
    let before := hostport.take (hostport.length - port.length - 1)
    match hostport with
    | 0x5B :: inner =>
        if 0x5D ∉ inner then none
        else
          let host := inner.takeWhile (· ≠ 0x5D)
          if host.length + 2 ≠ before.length then none
          else if 0x5B ∈ inner ∨ 0x5D ∈ port then none
          else some host
    | _ =>
        if colon ∈ before ∨ 0x5B ∈ hostport ∨ 0x5D ∈ hostport then none else some before

end LanRoom.Go
