import LanRoom.Data.BitPrefix
import LanRoom.Go.Net

/-! # Networks in CIDR notation

`net.ParseCIDR`, `net.CIDRMask` and `IP.Mask` of Go's standard library. `IPNet.Contains` compares
addresses under a mask, in four bytes or in sixteen. `contains_parseCIDR` says what that comes to
for the sixteen bytes `ParseIP` returns: the first bits are those of the network's address. A network
that leaves the marking of IPv4 addresses open has no IPv4 address in it. -/

namespace LanRoom.Go

open BitPrefix

/-! ## The length of an address -/

/-- An address in dotted notation has four bytes. A last field is only taken when three bytes stand
already, and a fourth dot ends the loop with an error. -/
theorem length_ipv4Fields {s : GoString} {fields ip : Bytes} {val digits : ℕ}
    (h : ipv4Fields s fields val digits = some ip) (hlen : fields.length ≤ 3) : ip.length = 4 := by
  -- induction on the text; a dot ends a field, and at most three are there before the last one
  induction s generalizing fields val digits with
  | nil =>
      rw [ipv4Fields] at h
      split at h
      · cases h
      · cases h
        rw [List.length_append, List.length_singleton]
        omega
  | cons c s ih =>
      rw [ipv4Fields] at h
      split at h
      · split at h
        · cases h
        · split at h
          · cases h
          · exact ih h hlen
      · split at h
        · cases h
        · split at h
          · cases h
          · split at h
            · cases h
            · refine ih h ?_
              rw [List.length_append, List.length_singleton]
              omega

/-- The loop reads at most as many groups as there is room for. Each round appends two bytes and
lowers the counter by one, and a dotted tail is taken only where four more bytes fit. -/
theorem length_ipv6Groups {n : ℕ} {s rest : GoString} {ip ip' : Bytes} {ellipsis ellipsis' : Option ℕ}
    (h : ipv6Groups n s ip ellipsis = some (ip', ellipsis', rest)) (hlen : ip.length + 2 * n ≤ 16) :
    ip'.length ≤ 16 := by
  -- induction on the groups that may follow; each adds two bytes
  induction n generalizing s ip ellipsis with
  | zero =>
      cases h
      exact hlen
  | succ n ih =>
      have hgroup (run : GoString) : (ip ++ groupBytes run).length = ip.length + 2 :=
        List.length_append
      simp only [ipv6Groups] at h
      split at h
      · cases h
      · split at h
        · cases h
          rw [hgroup]
          omega
        · split at h
          · split at h
            · cases h
            · split at h
              · cases h
              · -- a dotted IPv4 address at the end adds four
                obtain ⟨fields, hfields, heq⟩ := Option.map_eq_some_iff.mp h
                cases heq
                rw [List.length_append, length_ipv4Fields hfields (Nat.zero_le _)]
                omega
          · split at h
            · cases h
            · split at h
              · split at h
                · cases h
                · split at h
                  · cases h
                    rw [hgroup]
                    omega
                  · exact ih h (by rw [hgroup]; omega)
              · exact ih h (by rw [hgroup]; omega)

/-- An address in IPv6 notation has sixteen bytes. Fewer groups need a `::`, and it is filled with
zeros up to sixteen bytes. -/
theorem length_parseIPv6 {s : GoString} {ip : Bytes} (h : parseIPv6 s = some ip) :
    ip.length = 16 := by
  simp only [parseIPv6] at h
  split at h
  · cases h
    exact List.length_replicate
  · split at h
    · rename_i hloop
      have hle := length_ipv6Groups hloop (le_refl 16)
      split at h
      · obtain ⟨k, -, rfl⟩ := Option.map_eq_some_iff.mp h
        rw [List.length_append, List.length_append, List.length_replicate, List.length_take,
          List.length_drop]
        omega
      · split at h
        · cases h
          omega
        · cases h
    · cases h

/-- Whether the text of an address is in IPv4 notation. -/
def isDotted (s : GoString) : Bool :=
  (s.find? fun b => b = dot || b = colon || b = percent) == some dot

/-- An address in dotted notation is kept as an IPv4-mapped one. This is why `net.IP` values of both
families have one length. -/
theorem exists_mapped {s : GoString} {ip : Bytes} (h : parseIP s = some ip)
    (hdotted : isDotted s = true) : ∃ ip4 : Bytes, ip4.length = 4 ∧ ip = mapped ip4 := by
  have hfind := eq_of_beq hdotted
  rw [parseIP, hfind] at h
  simp only [if_true] at h
  split at h
  · cases h
  · obtain ⟨fields, hfields, rfl⟩ := Option.map_eq_some_iff.mp h
    exact ⟨fields, length_ipv4Fields hfields (Nat.zero_le _), rfl⟩

/-- A mapped address has sixteen bytes. The prefix `::ffff:0:0/96` has twelve of them. -/
theorem length_mapped {ip4 : Bytes} (h : ip4.length = 4) : (mapped ip4).length = 16 := by
  rw [mapped, List.length_append, h]
  rfl

/-- `net.ParseIP` returns sixteen bytes. A dotted address is kept in its mapped form, so both
notations give values of one length. -/
theorem length_parseIP {s : GoString} {ip : Bytes} (h : parseIP s = some ip) : ip.length = 16 := by
  by_cases hdotted : isDotted s = true
  · obtain ⟨ip4, hlen, rfl⟩ := exists_mapped h hdotted
    exact length_mapped hlen
  · unfold parseIP at h
    split at h
    · cases h
    · rename_i b hfind
      split at h
      · cases h
      · split at h
        · rename_i hdot
          rw [hdot] at hfind
          exact absurd (beq_iff_eq.mpr hfind) hdotted
        · exact length_parseIPv6 h

/-! ## IPv4 inside IPv6 -/

/-- `v4InV6Prefix`. -/
def v4InV6Prefix : Bytes := List.replicate 10 0 ++ [0xFF, 0xFF]

/-- An address of sixteen bytes is one of IPv4 exactly when it begins with the prefix of the mapped
ones. -/
theorem to4_eq_none_iff {ip : Bytes} (h : ip.length = 16) :
    to4 ip = none ↔ ip.take 12 ≠ v4InV6Prefix := by
  have hne : ip.length ≠ 4 := by omega
  rw [to4, if_neg hne]
  split
  · rename_i hmarked
    exact iff_of_false (Option.some_ne_none _) (not_not.mpr hmarked.2)
  · rename_i hmarked
    exact iff_of_true rfl fun htake => hmarked ⟨h, htake⟩

/-- A mapped address loses its prefix. `To4` recognises it by the twelve bytes in front and returns
the four bytes behind them. -/
theorem to4_of_marked {ip : Bytes} (h : ip.length = 16) (htake : ip.take 12 = v4InV6Prefix) :
    to4 ip = some (ip.drop 12) := by
  have hne : ip.length ≠ 4 := by omega
  rw [to4, if_neg hne, if_pos ⟨h, htake⟩]

/-- A marked address is its last four bytes inside IPv6. So nothing is lost when `To4` takes the
prefix off. -/
theorem mapped_drop {ip : Bytes} (htake : ip.take 12 = v4InV6Prefix) : mapped (ip.drop 12) = ip := by
  rw [mapped, ← v4InV6Prefix, ← htake, List.take_append_drop]

/-- An address of four bytes is one of IPv4 already. `To4` returns it unchanged; this is the case of
a network number that was masked as IPv4. -/
theorem to4_of_length {ip : Bytes} (h : ip.length = 4) : to4 ip = some ip := if_pos h

/-! ## Source -/

/-- The loop of `dtoi` on a text that it has to read to the end. -/
def dtoiFrom : ℕ → GoString → Option ℕ
  | n, [] => some n
  | n, b :: s =>
      match digit? b with
      | none => none
      | some d => if 0xFFFFFF ≤ n * 10 + d then none else dtoiFrom (n * 10 + d) s

/-- `dtoi`, if it reads the whole text. -/
def dtoi (s : GoString) : Option ℕ := if s = [] then none else dtoiFrom 0 s

/-- `net.CIDRMask`; `nil` is the empty mask. -/
def cidrMask (ones bits : ℕ) : Bytes :=
  if bits ≠ 32 ∧ bits ≠ 128 then []
  else if bits < ones then []
  else prefixMask (bits / 8) ones

/-- `IP.Mask`; `nil` is the empty address. -/
def maskIP (ip mask : Bytes) : Bytes :=
  let mask := if mask.length = 16 ∧ ip.length = 4 ∧ (mask.take 12).all (· = 0xFF) then mask.drop 12
    else mask
  let ip := if mask.length = 4 ∧ ip.length = 16 ∧ ip.take 12 = v4InV6Prefix then ip.drop 12 else ip
  if ip.length ≠ mask.length then [] else masked ip mask

/-- `Addr.BitLen` of `net/netip` for the text of an address. -/
def bitLen (addr : GoString) : ℕ := if isDotted addr then 32 else 128

/-- The network `net.ParseCIDR` returns, if it returns no error. -/
def parseCIDR (s : GoString) : Option IPNet :=
  if slash ∉ s then none
  else
    let addr := s.takeWhile (· ≠ slash)
    (parseIP addr).bind fun ip =>
      (dtoi (s.dropWhile (· ≠ slash)).tail).bind fun n =>
        if bitLen addr < n then none
        else
          let m := cidrMask n (bitLen addr)
          some { ip := maskIP ip m, mask := m }

/-! ## What a network contains -/

/-- `IPNet.Contains` compares the masked addresses. Byte by byte that the masked bytes agree is that
the two masked addresses are equal. -/
theorem all_zip_iff {number mask ip : Bytes} (hmask : mask.length = number.length)
    (hip : ip.length = number.length) :
    ((number.zip mask).zip ip).all (fun x => x.1.1 &&& x.1.2 == x.2 &&& x.1.2) = true ↔
      masked number mask = masked ip mask := by
  induction number generalizing mask ip with
  | nil =>
      obtain rfl := List.length_eq_zero_iff.mp hmask
      obtain rfl := List.length_eq_zero_iff.mp hip
      exact iff_of_true rfl rfl
  | cons x number ih =>
      cases mask with
      | nil => cases hmask
      | cons m mask =>
          cases ip with
          | nil => cases hip
          | cons y ip =>
              have htail := ih (Nat.succ.inj hmask) (Nat.succ.inj hip)
              rw [List.zip_cons_cons, List.zip_cons_cons, List.all_cons, Bool.and_eq_true, htail,
                beq_iff_eq]
              exact List.cons_eq_cons.symm

/-- The addresses of a network whose number and mask come from the address `a`. What `Contains` asks
is that the families agree and that the first `n` bits do. -/
theorem contains_iff {net : IPNet} {a ip : Bytes} {n : ℕ}
    (h : net.numberAndMask = some (masked a (prefixMask a.length n), prefixMask a.length n)) :
    net.contains ip = true ↔
      ((to4 ip).getD ip).length = a.length ∧ SamePrefix n a ((to4 ip).getD ip) := by
  have hnumber : (masked a (prefixMask a.length n)).length = a.length :=
    length_masked_prefixMask n rfl
  simp only [IPNet.contains, h, Bool.and_eq_true, decide_eq_true_eq, hnumber]
  refine and_congr_right fun hlen => ?_
  rw [all_zip_iff ((length_prefixMask _ n).trans hnumber.symm) (hlen.trans hnumber.symm),
    masked_masked]
  exact masked_eq_iff hlen.symm n

/-- The number of bits that are fixed in the sixteen bytes of an address. -/
def fixedBits (addr : GoString) (n : ℕ) : ℕ := if isDotted addr then 96 + n else n

/-- The number and the mask of an IPv4 network are kept as they are. The number is four bytes long
already, and the mask has the same length. -/
theorem numberAndMask_v4 {ip4 : Bytes} (n : ℕ) (h4 : ip4.length = 4) :
    (IPNet.mk (masked ip4 (prefixMask 4 n)) (prefixMask 4 n)).numberAndMask =
      some (masked ip4 (prefixMask 4 n), prefixMask 4 n) := by
  have hlen : (masked ip4 (prefixMask 4 n)).length = 4 := length_masked_prefixMask n h4
  simp [IPNet.numberAndMask, to4_of_length hlen, hlen, length_prefixMask]

/-- The network of an IPv4 address. Seen as addresses of sixteen bytes, it is a prefix that is
longer by the 96 bits of the IPv4 mark. -/
theorem contains_v4 {ip4 ip : Bytes} {n : ℕ} {net : IPNet} (h4 : ip4.length = 4)
    (hnumber : net.numberAndMask = some (masked ip4 (prefixMask 4 n), prefixMask 4 n))
    (hip : ip.length = 16) :
    net.contains ip = true ↔ SamePrefix (96 + n) (mapped ip4) ip := by
  rw [← h4] at hnumber
  have htake : (mapped ip4).take 12 = v4InV6Prefix := rfl
  have hdrop : (mapped ip4).drop 12 = ip4 := rfl
  rw [contains_iff hnumber, h4, show 96 + n = 8 * 12 + n from rfl, samePrefix_add_iff,
    samePrefix_bytes_iff (by rw [length_mapped h4]; decide) (by rw [hip]; decide), htake, hdrop]
  by_cases hmarked : ip.take 12 = v4InV6Prefix
  · have hrest : (ip.drop 12).length = 4 := by rw [List.length_drop, hip]
    rw [to4_of_marked hip hmarked, Option.getD_some, hmarked]
    exact and_congr_left' (iff_of_true hrest rfl)
  · have hne : ip.length ≠ 4 := by omega
    rw [(to4_eq_none_iff hip).mpr hmarked, Option.getD_none]
    exact iff_of_false (fun h => hne h.1) (fun h => hmarked h.1.symm)

/-- A masked address is marked as an IPv4 address if the address is and the mark is kept. -/
theorem take_masked_iff {a : Bytes} {n : ℕ} (ha : a.length = 16) :
    (masked a (prefixMask 16 n)).take 12 = v4InV6Prefix ↔ 96 ≤ n ∧ a.take 12 = v4InV6Prefix := by
  have hlen : (masked a (prefixMask 16 n)).length = 16 := length_masked_prefixMask n ha
  have hself : v4InV6Prefix.take 12 = v4InV6Prefix := rfl
  have hbit (i : ℕ) : bit (masked a (prefixMask 16 n)) i = (decide (i < n) && bit a i) := by
    have := bit_masked a n i
    rwa [ha] at this
  have htwelve : 12 ≤ v4InV6Prefix.length := by decide
  rw [← hself, ← samePrefix_bytes_iff (by rw [hlen]; decide) htwelve,
    ← samePrefix_bytes_iff (by rw [ha]; decide) htwelve]
  constructor
  · intro h
    -- the last of the 96 bits is set, so a shorter mask would clear it
    have hlast : bit v4InV6Prefix 95 = true := by decide
    have hn : 96 ≤ n := by
      by_contra hlt
      have hclear := h 95 (by decide)
      rw [hbit, hlast, decide_eq_false (by omega), Bool.false_and] at hclear
      cases hclear
    refine ⟨hn, fun i hi => ?_⟩
    have hi' := h i hi
    rwa [hbit, decide_eq_true (by omega), Bool.true_and] at hi'
  · -- a mask of at least 96 bits keeps the prefix
    rintro ⟨hn, h⟩ i hi
    rw [hbit, decide_eq_true (by omega), Bool.true_and, h i hi]

/-- **The network of an address in IPv6 notation.** From 96 bits on, with the prefix of the mapped
addresses, it is a network of IPv4 addresses. A network with fewer bits contains no IPv4 address,
even where the bits agree. -/
theorem contains_v6 {a ip : Bytes} {n : ℕ} {net : IPNet} (ha : a.length = 16)
    (hnet : net = { ip := masked a (prefixMask 16 n), mask := prefixMask 16 n })
    (hip : ip.length = 16) :
    net.contains ip = true ↔ SamePrefix n a ip ∧ (n < 96 → to4 ip = none) := by
  have hlen : (masked a (prefixMask 16 n)).length = 16 := length_masked_prefixMask n ha
  by_cases hmark : 96 ≤ n ∧ a.take 12 = v4InV6Prefix
  · -- the network is one of IPv4 addresses
    obtain ⟨hn, htake⟩ := hmark
    obtain ⟨k, rfl⟩ := Nat.exists_eq_add_of_le hn
    have hrest : (a.drop 12).length = 4 := by rw [List.length_drop, ha]
    -- the last four bytes of the mask are those of an IPv4 mask
    have hmask : (prefixMask 16 (96 + k)).drop 12 = prefixMask 4 k := by
      rw [drop_prefixMask 12 4]
      congr 1
      omega
    have hto4 : to4 net.ip = some (masked (a.drop 12) (prefixMask 4 k)) := by
      rw [hnet, to4_of_marked hlen ((take_masked_iff ha).mpr ⟨hn, htake⟩), drop_masked, hmask]
    have hshort : (masked (a.drop 12) (prefixMask 4 k)).length = 4 :=
      length_masked_prefixMask k hrest
    have hnumber : net.numberAndMask =
        some (masked (a.drop 12) (prefixMask 4 k), prefixMask 4 k) := by
      have hnetMask : net.mask = prefixMask 16 (96 + k) := by rw [hnet]
      simp [IPNet.numberAndMask, hto4, hnetMask, hshort, length_prefixMask, hmask]
    rw [contains_v4 hrest hnumber hip, mapped_drop htake]
    exact (and_iff_left fun hlt => absurd hn (not_le.mpr hlt)).symm
  · have hto4 : to4 net.ip = none := by
      rw [hnet, to4_eq_none_iff hlen]
      exact fun htake => hmark ((take_masked_iff ha).mp htake)
    have hnumber : net.numberAndMask =
        some (masked a (prefixMask a.length n), prefixMask a.length n) := by
      have hnetIP : net.ip = masked a (prefixMask 16 n) := by rw [hnet]
      have hnetMask : net.mask = prefixMask 16 n := by rw [hnet]
      rw [hnetIP] at hto4
      simp [IPNet.numberAndMask, hnetIP, hnetMask, hto4, hlen, length_prefixMask, ha]
    rw [contains_iff hnumber, ha]
    by_cases hmarked : ip.take 12 = v4InV6Prefix
    · -- an IPv4 address
      have hrest : (ip.drop 12).length ≠ 16 := by rw [List.length_drop, hip]; decide
      rw [to4_of_marked hip hmarked, Option.getD_some]
      refine iff_of_false (fun h => hrest h.1) ?_
      rintro ⟨hsame, hopen⟩
      -- fewer bits are excluded by the statement, and with 96 the prefix would have to be that of
      -- `a`
      have hn : 96 ≤ n := by
        by_contra hlt
        cases hopen (not_le.mp hlt)
      have hfirst : SamePrefix (8 * 12) a ip := fun i hi => hsame i (by omega)
      rw [samePrefix_bytes_iff (by rw [ha]; decide) (by rw [hip]; decide), hmarked] at hfirst
      exact hmark ⟨hn, hfirst⟩
    · rw [(to4_eq_none_iff hip).mpr hmarked, Option.getD_none]
      exact ⟨fun h => ⟨h.2, fun _ => rfl⟩, fun h => ⟨hip, h.1⟩⟩

/-! ## Ranges -/

/-- The text `s` is the address `addr`, which is `a`, a slash and the number `n` of its bits that
are fixed. -/
structure IsRange (s addr : GoString) (a : Bytes) (n : ℕ) : Prop where
  text : ∃ digits, s = addr ++ slash :: digits ∧ dtoi digits = some n
  address : parseIP addr = some a
  bits : n ≤ bitLen addr

/-- The text of an address has no slash. Hence the first slash of a range is the one that
`ParseCIDR` splits at, and there is only one way to read a range. -/
theorem slash_not_mem {s : GoString} {ip : Bytes} (h : parseIP s = some ip) : slash ∉ s := by
  intro hmem
  exact absurd (isAddressByte_of_parseIP h slash hmem) (by decide)

/-- `net.ParseCIDR` accepts the ranges. The function and the relation `IsRange` thus describe the
same texts, with the same network for each. -/
theorem parseCIDR_eq_some_iff {s : GoString} {net : IPNet} : parseCIDR s = some net ↔
    ∃ addr a n, IsRange s addr a n ∧
      net = ⟨maskIP a (cidrMask n (bitLen addr)), cidrMask n (bitLen addr)⟩ := by
  constructor
  · intro h
    simp only [parseCIDR] at h
    split at h
    · cases h
    · rename_i hslash
      obtain ⟨a, ha, h⟩ := Option.bind_eq_some_iff.mp h
      obtain ⟨n, hn, h⟩ := Option.bind_eq_some_iff.mp h
      split at h
      · cases h
      · rename_i hbits
        cases h
        -- the text is cut at its first slash
        refine ⟨_, a, n, ⟨⟨_, ?_, hn⟩, ha, not_lt.mp hbits⟩, rfl⟩
        have hhead := List.head?_dropWhile_not (· ≠ slash) s
        cases hdrop : s.dropWhile (· ≠ slash) with
        | nil =>
            have hall := List.dropWhile_eq_nil_iff.mp hdrop slash (not_not.mp hslash)
            cases of_decide_eq_true hall rfl
        | cons c rest =>
            rw [hdrop] at hhead
            obtain rfl : c = slash := by simpa using hhead
            rw [List.tail_cons, ← hdrop, List.takeWhile_append_dropWhile]
  · rintro ⟨addr, a, n, ⟨⟨digits, rfl, hn⟩, ha, hbits⟩, rfl⟩
    have hslash : slash ∈ addr ++ slash :: digits := by simp
    -- an address holds no slash, so the cut is at the one that was put there
    have hfree : ∀ b ∈ addr, decide (b ≠ slash) = true := by
      intro b hb
      exact decide_eq_true fun heq => slash_not_mem ha (heq ▸ hb)
    have htake : (addr ++ slash :: digits).takeWhile (· ≠ slash) = addr := by
      rw [List.takeWhile_append_of_pos hfree, List.takeWhile_cons_of_neg (by simp),
        List.append_nil]
    have hdrop : (addr ++ slash :: digits).dropWhile (· ≠ slash) = slash :: digits := by
      rw [List.dropWhile_append_of_pos hfree, List.dropWhile_cons_of_neg (by simp)]
    simp only [parseCIDR, if_neg (not_not.mpr hslash), htake, hdrop, ha, List.tail_cons, hn,
      Option.bind_some, if_neg (not_lt.mpr hbits)]

/-- A mapped address under a mask of four bytes is masked as one of IPv4. This is the branch of
`IP.Mask` that a dotted range takes. -/
theorem maskIP_mapped {ip4 m : Bytes} (h4 : ip4.length = 4) (hm : m.length = 4) :
    maskIP (mapped ip4) m = masked ip4 m := by
  have htake : (mapped ip4).take 12 = v4InV6Prefix := rfl
  have hdrop : (mapped ip4).drop 12 = ip4 := rfl
  simp [maskIP, hm, length_mapped h4, htake, hdrop, h4]

/-- An address of sixteen bytes under a mask of sixteen bytes. This is the branch that a range in
IPv6 notation takes. -/
theorem maskIP_of_length {a m : Bytes} (ha : a.length = 16) (hm : m.length = 16) :
    maskIP a m = masked a m := by
  simp [maskIP, ha, hm]

/-- The mask of an IPv4 network. `CIDRMask` builds it byte by byte; here it is the prefix of `n`
ones among 32 bits. -/
theorem cidrMask_v4 {n : ℕ} (h : n ≤ 32) : cidrMask n 32 = prefixMask 4 n := by
  rw [cidrMask, if_neg (by decide), if_neg (not_lt.mpr h)]

/-- The mask of an IPv6 network. The same loop, over sixteen bytes. -/
theorem cidrMask_v6 {n : ℕ} (h : n ≤ 128) : cidrMask n 128 = prefixMask 16 n := by
  rw [cidrMask, if_neg (by decide), if_neg (not_lt.mpr h)]

/-- **A range** contains the addresses that start with its fixed bits, but an IPv6 range that leaves
the marking of IPv4 addresses open has none of these. -/
theorem IsRange.contains {s addr : GoString} {a ip : Bytes} {n : ℕ} (h : IsRange s addr a n)
    (hip : ip.length = 16) :
    (IPNet.mk (maskIP a (cidrMask n (bitLen addr))) (cidrMask n (bitLen addr))).contains ip = true ↔
      SamePrefix (fixedBits addr n) a ip ∧ (fixedBits addr n < 96 → to4 ip = none) := by
  by_cases hdotted : isDotted addr = true
  · obtain ⟨ip4, h4, rfl⟩ := exists_mapped h.address hdotted
    have hbits : bitLen addr = 32 := if_pos hdotted
    have hfixed : fixedBits addr n = 96 + n := if_pos hdotted
    rw [hbits, hfixed, cidrMask_v4 (hbits ▸ h.bits), maskIP_mapped h4 (length_prefixMask 4 n),
      contains_v4 h4 (numberAndMask_v4 n h4) hip]
    exact (and_iff_left fun hlt => absurd hlt (by omega)).symm
  · have ha := length_parseIP h.address
    have hbits : bitLen addr = 128 := if_neg hdotted
    have hfixed : fixedBits addr n = n := if_neg hdotted
    rw [hbits, hfixed, cidrMask_v6 (hbits ▸ h.bits), maskIP_of_length ha (length_prefixMask 16 n)]
    exact contains_v6 ha rfl hip

/-- The network of one address, in four bytes if it has them. -/
def hostNet (ip : Bytes) : IPNet :=
  match to4 ip with
  | some ip4 => { ip := ip4, mask := cidrMask 32 32 }
  | none => { ip, mask := cidrMask 128 128 }

/-- **The network of a single address contains that address only.** An address without a prefix
length can therefore be kept as this network. -/
theorem contains_host {a ip : Bytes} (ha : a.length = 16) (hip : ip.length = 16) :
    (hostNet a).contains ip = true ↔ a = ip := by
  have hfull : SamePrefix 128 a ip ↔ a = ip := by
    have := samePrefix_full_iff (ha.trans hip.symm)
    rwa [ha] at this
  by_cases htake : a.take 12 = v4InV6Prefix
  · have h4 : (a.drop 12).length = 4 := by rw [List.length_drop, ha]
    have hself : masked (a.drop 12) (prefixMask 4 32) = a.drop 12 := by
      have := masked_full (a.drop 12)
      rwa [h4] at this
    have hnumber := numberAndMask_v4 32 h4
    rw [hself] at hnumber
    rw [hostNet, to4_of_marked ha htake, ← hfull, cidrMask_v4 (le_refl 32)]
    have hcontains := contains_v4 h4 (hnumber.trans (by rw [hself])) hip
    rwa [mapped_drop htake] at hcontains
  · have hself : masked a (prefixMask 16 128) = a := by
      have := masked_full a
      rwa [ha] at this
    rw [hostNet, (to4_eq_none_iff ha).mpr htake, ← hfull, cidrMask_v6 (le_refl 128)]
    have hcontains := contains_v6 ha (congrArg (IPNet.mk · (prefixMask 16 128)) hself.symm) hip
    exact hcontains.trans (and_iff_left fun hlt => absurd hlt (by decide))

end LanRoom.Go
