import LanRoom.Go.CIDR
import LanRoom.Routes.ClientAddress

/-! # The trusted proxies

`internal/config/config.go` reads the reverse proxies whose forwarding headers are believed from
`LANROOM_TRUSTED_PROXIES`, a list of addresses and ranges. `trusted_proxies` says which peers these
are, by the bits of their addresses: the parser, the masks of package `net` and `fromProxy` together
trust the peers that an entry of the list stands for, and nobody else is believed. -/

namespace LanRoom.Routes

open BitPrefix (SamePrefix)
open LanRoom.Go

/-! ## Source -/

/-- The characters that separate the entries. -/
def isSeparator (b : UInt8) : Bool := b = comma || b = 0x20 || b = 0x3B

/-- `strings.FieldsFunc` for these characters: the pieces between them that are not empty. -/
def proxyFields (raw : GoString) : List GoString := (raw.splitOnP isSeparator).filter (· ≠ [])

/-- An error: its format and the text that takes the place of `%q`. -/
structure ProxyError where
  format : GoString
  field : GoString

def invalidIP (f : GoString) : ProxyError :=
  { format := goString "LANROOM_TRUSTED_PROXIES: invalid IP %q", field := f }

def invalidCIDR (f : GoString) : ProxyError :=
  { format := goString "LANROOM_TRUSTED_PROXIES: invalid CIDR %q", field := f }

/-- What the loop of `ParseTrustedProxies` does with an entry. -/
def parseProxy (f : GoString) : Except ProxyError IPNet :=
  if slash ∉ f then
    match parseIP f with
    | none => .error (invalidIP f)
    | some ip => .ok (hostNet ip)
  else
    match parseCIDR f with
    | none => .error (invalidCIDR f)
    | some n => .ok n

/-- The loop of `ParseTrustedProxies`, which returns at the first error. -/
def parseProxies : List GoString → Except ProxyError ProxyTrust
  | [] => .ok []
  | f :: fields =>
      match parseProxy f with
      | .error e => .error e
      | .ok n =>
          match parseProxies fields with
          | .error e => .error e
          | .ok nets => .ok (n :: nets)

/-- `ParseTrustedProxies`. -/
def parseTrustedProxies (raw : GoString) : Except ProxyError ProxyTrust :=
  parseProxies (proxyFields raw)

/-! ## What an entry stands for -/

/-- The entry is an address or a range. -/
def IsEntry (f : GoString) : Prop := (∃ a, parseIP f = some a) ∨ ∃ addr a n, IsRange f addr a n

/-- The entry stands for the address `ip`: it is this address, or a range whose fixed bits are the
first bits of `ip`. -/
def Covers (f : GoString) (ip : Bytes) : Prop :=
  parseIP f = some ip ∨ ∃ addr a n, IsRange f addr a n ∧ SamePrefix (fixedBits addr n) a ip ∧
    (fixedBits addr n < 96 → to4 ip = none)

variable {f : GoString} {ip : Bytes}

/-- A range is written with a slash. Hence an address without a slash is not read as a range. -/
theorem slash_mem_of_isRange {addr : GoString} {a : Bytes} {n : ℕ} (h : IsRange f addr a n) :
    slash ∈ f := by
  obtain ⟨digits, rfl, -⟩ := h.text
  exact List.mem_append_right _ List.mem_cons_self

/-- A range is read in one way. The first slash is the only one, so the address and the length are
determined by the text. -/
theorem covers_of_range {addr : GoString} {a : Bytes} {n : ℕ} (h : IsRange f addr a n)
    (hip : ip.length = 16) : Covers f ip ↔
      SamePrefix (fixedBits addr n) a ip ∧ (fixedBits addr n < 96 → to4 ip = none) := by
  constructor
  · rintro (hself | ⟨addr', a', n', h', hcovers⟩)
    · exact absurd (slash_mem_of_isRange h) (slash_not_mem hself)
    · have hnet := (parseCIDR_eq_some_iff.mpr ⟨addr, a, n, h, rfl⟩).symm.trans
        (parseCIDR_eq_some_iff.mpr ⟨addr', a', n', h', rfl⟩)
      rw [← h.contains hip, Option.some.inj hnet, h'.contains hip]
      exact hcovers
  · exact fun hcovers => Or.inr ⟨addr, a, n, h, hcovers⟩

/-- An entry gives the network of the addresses it stands for, or the error that names it. -/
theorem parseProxy_spec (f : GoString) : match parseProxy f with
    | .ok n => IsEntry f ∧ ∀ ip : Bytes, ip.length = 16 → (n.contains ip = true ↔ Covers f ip)
    | .error e => e.field = f ∧ ¬IsEntry f := by
  rw [parseProxy]
  by_cases hslash : slash ∈ f
  · -- an entry with a slash is a range
    rw [if_neg (not_not.mpr hslash)]
    cases hparse : parseCIDR f with
    | none =>
        refine ⟨rfl, ?_⟩
        rintro (⟨a, ha⟩ | ⟨addr, a, n, h⟩)
        · exact slash_not_mem ha hslash
        · cases hparse.symm.trans (parseCIDR_eq_some_iff.mpr ⟨addr, a, n, h, rfl⟩)
    | some net =>
        obtain ⟨addr, a, n, h, rfl⟩ := parseCIDR_eq_some_iff.mp hparse
        refine ⟨Or.inr ⟨addr, a, n, h⟩, fun ip hip => ?_⟩
        rw [h.contains hip, covers_of_range h hip]
  · -- one without is a single address
    rw [if_pos hslash]
    cases hparse : parseIP f with
    | none =>
        refine ⟨rfl, ?_⟩
        rintro (⟨a, ha⟩ | ⟨addr, a, n, h⟩)
        · cases hparse.symm.trans ha
        · exact hslash (slash_mem_of_isRange h)
    | some a =>
        refine ⟨Or.inl ⟨a, hparse⟩, fun ip hip => ?_⟩
        rw [contains_host (length_parseIP hparse) hip]
        constructor
        · rintro rfl
          exact Or.inl hparse
        · rintro (hself | ⟨addr, a, n, h, -⟩)
          · exact Option.some.inj (hparse.symm.trans hself)
          · exact absurd (slash_mem_of_isRange h) hslash

/-- The whole list. Either all entries are accepted and the result covers exactly what they cover,
or the error names one that is not an entry. -/
theorem parseProxies_spec (fields : List GoString) : match parseProxies fields with
    | .ok nets => (∀ f ∈ fields, IsEntry f) ∧
        ∀ ip : Bytes, ip.length = 16 → (nets.contains ip = true ↔ ∃ f ∈ fields, Covers f ip)
    | .error e => e.field ∈ fields ∧ ¬IsEntry e.field := by
  -- induction on the entries: the first one that cannot be parsed gives the error
  induction fields with
  | nil =>
      refine ⟨fun f hf => absurd hf List.not_mem_nil, fun ip _ => ?_⟩
      refine iff_of_false (fun h => by cases h) ?_
      rintro ⟨f, hf, -⟩
      exact absurd hf List.not_mem_nil
  | cons f fields ih =>
      have hspec := parseProxy_spec f
      rw [parseProxies]
      cases hparse : parseProxy f with
      | error e =>
          rw [hparse] at hspec
          obtain ⟨hfield, hno⟩ := hspec
          refine ⟨?_, ?_⟩
          · rw [hfield]
            exact List.mem_cons_self
          · rw [hfield]
            exact hno
      | ok n =>
          rw [hparse] at hspec
          obtain ⟨hentry, hcontains⟩ := hspec
          cases hrest : parseProxies fields with
          | error e =>
              rw [hrest] at ih
              exact ⟨List.mem_cons_of_mem f ih.1, ih.2⟩
          | ok nets =>
              rw [hrest] at ih
              refine ⟨List.forall_mem_cons.mpr ⟨hentry, ih.1⟩, fun ip hip => ?_⟩
              have hcons : ProxyTrust.contains (n :: nets) ip = (n.contains ip || nets.contains ip) :=
                rfl
              rw [hcons, Bool.or_eq_true, hcontains ip hip, ih.2 ip hip, List.exists_mem_cons_iff]

/-! ## Whose headers are read -/

/-- **The trusted proxies** are the peers that an entry of the list stands for, and the address of
any other peer is the one of its connection, whatever its headers say. A list with an entry that is
neither an address nor a range is refused, and the error names such an entry. -/
theorem trusted_proxies (raw : GoString) : match parseTrustedProxies raw with
    | .ok nets => (∀ f ∈ proxyFields raw, IsEntry f) ∧ ∀ r : Forwarded,
        (nets.fromProxy r = true ↔
          ∃ ip, parseIP (peerIP r) = some ip ∧ ∃ f ∈ proxyFields raw, Covers f ip) ∧
        ((∀ ip, parseIP (peerIP r) = some ip → ∀ f ∈ proxyFields raw, ¬Covers f ip) →
          nets.rawClientIP r = peerIP r)
    | .error e => e.field ∈ proxyFields raw ∧ ¬IsEntry e.field := by
  have hspec := parseProxies_spec (proxyFields raw)
  rw [parseTrustedProxies]
  cases hparse : parseProxies (proxyFields raw) with
  | error e =>
      rw [hparse] at hspec
      exact hspec
  | ok nets =>
      rw [hparse] at hspec
      obtain ⟨hentries, hcontains⟩ := hspec
      refine ⟨hentries, fun r => ?_⟩
      -- the peer is trusted when an entry covers its address
      have hfrom : nets.fromProxy r = true ↔
          ∃ ip, parseIP (peerIP r) = some ip ∧ ∃ f ∈ proxyFields raw, Covers f ip := by
        rw [ProxyTrust.fromProxy, Option.any_eq_true]
        refine exists_congr fun ip => and_congr_right fun hip => ?_
        exact hcontains ip (length_parseIP hip)
      refine ⟨hfrom, fun hnone => ?_⟩
      have hno : nets.fromProxy r = false := by
        apply Bool.eq_false_iff.mpr
        intro hproxy
        obtain ⟨ip, hip, f, hf, hcovers⟩ := hfrom.mp hproxy
        exact hnone ip hip f hf hcovers
      rw [ProxyTrust.rawClientIP, if_pos hno]

example : (match parseTrustedProxies (goString "127.0.0.1, ::1;172.16.0.0/12") with
    | .ok nets => nets.map fun n => n.contains (mapped [172, 17, 0, 1])
    | .error _ => []) = [false, false, true] := by
  decide +kernel

end LanRoom.Routes
