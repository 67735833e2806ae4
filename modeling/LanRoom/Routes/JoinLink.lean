import LanRoom.Routes.Model
import LanRoom.Web.Link

/-! # The PIN in the join link

A device in the room shows a QR code of the join URL, with the PIN in its fragment: `handleInfo`
writes it with `url.QueryEscape`, and the page that is opened with the link reads it with
`decodeURIComponent` and submits it. The two are not inverse to each other: a space is written as
`+` and read as `+`. The PIN arrives exactly when it has no space (`joinLink_iff`). -/

namespace LanRoom.Routes

open LanRoom.Auth (AuthState)
open LanRoom.Go (queryEscape runes utf8 formatInt formatNat)
open LanRoom.Web (Location pickJoinURL locationHash consumePINFromHash escaped submitPIN)

variable {cfg : Config} {a : AuthState} {r : Request}

/-- The byte `'#'`. -/
def hash : UInt8 := 0x23

/-- The PIN that the page submits when it is opened by the link that another page, at `loc`, shows
for the answer of `handleInfo`. -/
def submitted (cfg : Config) (a : AuthState) (r : Request) (loc : Location) : Option GoString :=
  consumePINFromHash (locationHash (pickJoinURL loc (runes (handleInfo cfg a r).joinURL)))

/-- Decimal notation has no `#`. The number of a port cannot begin the fragment of an address. -/
theorem hash_notMem_formatInt (n : ℤ) : hash ∉ formatInt n := by
  have hnat : ∀ k : ℕ, hash ∉ formatNat k := fun k hmem =>
    absurd (Go.mem_formatNat hmem) (by decide)
  unfold formatInt
  split
  · intro hmem
    rcases List.mem_cons.mp hmem with hsign | hmem
    · exact absurd hsign (by decide)
    · exact hnat _ hmem
  · exact hnat _

/-- No base of a join URL has a fragment: `ParsePublicURL` refuses one, and an address has none. -/
theorem hash_notMem_bareJoinURL (hpublic : hash ∉ cfg.publicURL) (hips : ∀ ip ∈ r.ips, hash ∉ ip) :
    hash ∉ bareJoinURL cfg r := by
  unfold bareJoinURL
  split
  · exact hpublic
  · cases hr : r.ips with
    | nil => exact List.not_mem_nil
    | cons ip ips =>
        have hip : hash ∉ ip := hips ip (hr ▸ List.mem_cons_self)
        show hash ∉ lanURL cfg ip
        unfold lanURL
        simp only [List.mem_append, not_or]
        exact ⟨⟨⟨by decide +kernel, hip⟩, by decide +kernel⟩, hash_notMem_formatInt _⟩

/-- The escaped PIN is read byte by byte. What the page sees of it is ASCII. -/
theorem runes_queryEscape (s : GoString) : runes (queryEscape s) = escaped s := by
  have hall : ∀ n < 256, (queryEscape [UInt8.ofNat n]).all fun b => b < 0x80 := by
    decide +kernel
  have hascii : ∀ b ∈ queryEscape s, b < 0x80 := by
    intro b hb
    obtain ⟨b₀, -, hb⟩ := List.mem_flatMap.mp hb
    have hb₀ := hall b₀.toNat b₀.toNat_lt
    rw [UInt8.ofNat_toNat] at hb₀
    have hmem : b ∈ queryEscape [b₀] := by
      simpa only [queryEscape, List.flatMap_cons, List.flatMap_nil, List.append_nil] using hb
    exact of_decide_eq_true (List.all_eq_true.mp hb₀ b hmem)
  unfold escaped
  generalize queryEscape s = t at hascii
  induction t with
  | nil => rfl
  | cons b t ih =>
      rw [Go.runes_ascii (hascii b List.mem_cons_self), List.map_cons,
        ih fun b' hb' => hascii b' (List.mem_cons_of_mem _ hb')]
      rfl

example : escaped (goString "ä b") = "%C3%A4+b".toList := by decide +kernel

/-- The join URL that an authorized device reads. The fragment with the PIN stands behind the first
number sign. -/
theorem runes_joinURL (henabled : a.enabled = true) (hauth : authorized a r = true)
    (hjoin : bareJoinURL cfg r ≠ []) :
    runes (handleInfo cfg a r).joinURL =
      (runes (bareJoinURL cfg r) ++ ['/']) ++ '#' :: ['p', 'i', 'n', '='] ++ escaped a.pin := by
  have hurl : (handleInfo cfg a r).joinURL =
      bareJoinURL cfg r ++ (goString "/#pin=" ++ queryEscape a.pin) := by
    simp [handleInfo, hjoin, henabled, hauth]
  have hbytes : goString "/#pin=" = [0x2F, 0x23, 0x70, 0x69, 0x6E, 0x3D] := by decide +kernel
  have hslash : ∀ b ∈ (goString "/#pin=" ++ queryEscape a.pin).head?, b < 0x80 := by
    rw [hbytes]
    intro b hb
    obtain rfl := Option.some.inj hb
    decide
  rw [hurl, Go.runes_append hslash, hbytes]
  have hname : runes ([0x2F, 0x23, 0x70, 0x69, 0x6E, 0x3D] ++ queryEscape a.pin) =
      '/' :: '#' :: 'p' :: 'i' :: 'n' :: '=' :: runes (queryEscape a.pin) := by
    simp only [List.cons_append, List.nil_append]
    rw [Go.runes_ascii (by decide), Go.runes_ascii (by decide), Go.runes_ascii (by decide),
      Go.runes_ascii (by decide), Go.runes_ascii (by decide), Go.runes_ascii (by decide)]
    rfl
  rw [hname, runes_queryEscape]
  simp

/-- The link that `pickJoinURL` shows, in front of the fragment. -/
theorem pickJoinURL_link {loc : Location} {front : List Char} (hfront : '#' ∉ front)
    (horigin : '#' ∉ loc.origin) (s : GoString) :
    ∃ front', '#' ∉ front' ∧
      pickJoinURL loc (front ++ '#' :: ['p', 'i', 'n', '='] ++ escaped s) =
        front' ++ '#' :: ['p', 'i', 'n', '='] ++ escaped s := by
  unfold pickJoinURL
  split
  · refine ⟨loc.origin ++ ['/'], ?_, ?_⟩
    · intro hmem
      rcases List.mem_append.mp hmem with hmem | hmem
      · exact horigin hmem
      · exact absurd (List.mem_singleton.mp hmem) (by decide)
    · have hfrom : Web.fromHash (front ++ '#' :: ['p', 'i', 'n', '='] ++ escaped s) =
          '#' :: ['p', 'i', 'n', '='] ++ escaped s := Web.fromHash_link hfront s
      rw [hfrom]
      simp
  · refine ⟨front, hfront, if_pos ?_⟩
    simp

/-- **The join link carries the PIN exactly when it has no space.** The PIN is any non-empty valid
UTF-8 string; the device that shows the link is in the room; the base of the link has no fragment,
which `ParsePublicURL` sees to, nor has the origin of a page. -/
theorem joinLink_iff (cfg : Config) (a : AuthState) (r : Request) (loc : Location) {cs : List Char}
    (hpin : a.pin = utf8 cs) (hne : a.pin ≠ []) (hauth : authorized a r = true)
    (hjoin : bareJoinURL cfg r ≠ []) (hpublic : hash ∉ cfg.publicURL)
    (hips : ∀ ip ∈ r.ips, hash ∉ ip) (horigin : '#' ∉ loc.origin) :
    submitted cfg a r loc = some a.pin ↔ ' ' ∉ cs := by
  have henabled : a.enabled = true := decide_eq_true hne
  have hfront : '#' ∉ runes (bareJoinURL cfg r) ++ ['/'] := by
    intro hmem
    rcases List.mem_append.mp hmem with hmem | hmem
    · have hbyte : UInt8.ofNat 0x23 ∈ bareJoinURL cfg r :=
        Go.mem_of_mem_runes (by decide) (by decide) hmem
      exact hash_notMem_bareJoinURL hpublic hips hbyte
    · exact absurd (List.mem_singleton.mp hmem) (by decide)
  obtain ⟨front, hfront', hlink⟩ := pickJoinURL_link hfront horigin a.pin
  have hcs : cs ≠ [] := by
    rintro rfl
    exact hne hpin
  unfold submitted
  rw [runes_joinURL henabled hauth hjoin, hlink, hpin, Web.consumePINFromHash_link hfront']
  exact Web.submitPIN_iff hcs

/-! ## A PIN of two words -/

namespace Sample

/-- A server in a local network. -/
def lan : Config := { port := 8787, maxUploadBytes := 0, retention := 0 }

/-- A room with this PIN and a device in it. -/
def joined (pin : GoString) : AuthState :=
  (Auth.newAuthState pin 0).setSession (goString "key") Auth.sessionTTL

/-- The device asks for the info page. -/
def ask : Request :=
  { method := .get, peer := [], pin := none, path := goString "/api/info",
    cookies := [(sessionCookie, goString "key")], ips := [goString "10.0.0.2"] }

/-- It shows the link on its own page. -/
def page : Location := ⟨"localhost".toList, "http://localhost:8787".toList, []⟩

end Sample

/-- The PIN `a b` is submitted as `a+b`. The browser does not turn a plus sign in a fragment back
into a space. -/
theorem submitted_two_words : authorized (Sample.joined (utf8 ['a', ' ', 'b'])) Sample.ask = true ∧
    Go.trimSpace (utf8 ['a', ' ', 'b']) = utf8 ['a', ' ', 'b'] ∧
    submitted Sample.lan (Sample.joined (utf8 ['a', ' ', 'b'])) Sample.ask Sample.page =
      some (utf8 ['a', '+', 'b']) ∧
    submitted Sample.lan (Sample.joined (utf8 ['a', ' ', 'b'])) Sample.ask Sample.page ≠
      some (utf8 ['a', ' ', 'b']) := by
  have hplus : submitted Sample.lan (Sample.joined (utf8 ['a', ' ', 'b'])) Sample.ask Sample.page =
      some (utf8 ['a', '+', 'b']) := by
    decide +kernel
  refine ⟨by decide +kernel, by decide +kernel, hplus, ?_⟩
  rw [hplus]
  decide +kernel

/-- The PIN `ä&1` arrives. It has two bytes that are no ASCII and a reserved character, all of which
are escaped. -/
theorem joinLink_iff_umlaut :
    submitted Sample.lan (Sample.joined (utf8 ['ä', '&', '1'])) Sample.ask Sample.page =
      some (Sample.joined (utf8 ['ä', '&', '1'])).pin :=
  (joinLink_iff Sample.lan (Sample.joined (utf8 ['ä', '&', '1'])) Sample.ask Sample.page rfl
    (by decide +kernel) (by decide +kernel) (by decide +kernel) (by decide +kernel)
    (by decide +kernel) (by decide +kernel)).mpr (by decide)

end LanRoom.Routes
