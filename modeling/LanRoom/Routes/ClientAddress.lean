import LanRoom.Go.Net
import LanRoom.Routes.Model

/-! # The address of a client

`internal/server/netinfo.go`: behind a trusted reverse proxy the TCP peer of every request is the
proxy, so the client's address is read from the forwarding headers, which anybody can write. In
`X-Forwarded-For` each proxy adds the address it was called from at the end, so `rawClientIP` looks
for the rightmost address that is not a trusted proxy.

`Header.Get` returns the first line of a field. A client that writes a line of its own, before the
line of the proxy, is therefore believed (`forged_two_lines`): `rawClientIP` is what the whole field
says exactly when the lines after the first do not settle it (`rawClientIP_iff`). Which entry of the
first line it returns is said without a loop in `ProxyTrust.reference` (`rawClientIP_spec`). -/

namespace LanRoom.Routes

open LanRoom.Go (IPNet parseIP splitComma joinComma splitHostPort trimBrackets trimSpace)

/-! ## Source -/

/-- The part of an `http.Request` that `netinfo.go` reads. -/
structure Forwarded where
  remoteAddr : GoString
  /-- The lines of the field `X-Forwarded-For`, in the order they arrived. -/
  forwardedFor : List GoString := []
  /-- The lines of the field `X-Real-IP`. -/
  realIP : List GoString := []

/-- `Header.Get`: the first line of a field, or the empty string. -/
def headerGet (lines : List GoString) : GoString := lines.head?.getD []

/-- `proxyTrust`. -/
abbrev ProxyTrust := List IPNet

/-- `proxyTrust.contains`. -/
def ProxyTrust.contains (p : ProxyTrust) (ip : Bytes) : Bool := p.any fun n => n.contains ip

/-- `peerIP`. -/
def peerIP (r : Forwarded) : GoString :=
  match splitHostPort r.remoteAddr with
  | none => trimSpace r.remoteAddr
  | some host => trimBrackets host

/-- `proxyTrust.fromProxy`. -/
def ProxyTrust.fromProxy (p : ProxyTrust) (r : Forwarded) : Bool := (parseIP (peerIP r)).any p.contains

/-- The loop of `rawClientIP` over the entries of `X-Forwarded-For`, given from the right. -/
def ProxyTrust.walk (p : ProxyTrust) : List GoString → Option GoString
  | [] => none
  | entry :: left =>
      let hop := trimSpace entry
      match parseIP hop with
      | none => none
      | some ip => if p.contains ip = false ∨ left = [] then some hop else walk p left

/-- `proxyTrust.rawClientIP`. -/
def ProxyTrust.rawClientIP (p : ProxyTrust) (r : Forwarded) : GoString :=
  let peer := peerIP r
  if p.fromProxy r = false then peer
  else
    let xff := headerGet r.forwardedFor
    match if xff ≠ [] then p.walk (splitComma xff).reverse else none with
    | some hop => hop
    | none =>
        let xri := trimSpace (headerGet r.realIP)
        if parseIP xri ≠ none then xri else peer

/-! ## What the field says -/

/-- The entry is an address. -/
def IsAddress (entry : GoString) : Prop := parseIP (trimSpace entry) ≠ none

/-- The entry is the address of somebody who is not trusted. -/
def ProxyTrust.Distrusts (p : ProxyTrust) (entry : GoString) : Prop :=
  ∃ ip, parseIP (trimSpace entry) = some ip ∧ p.contains ip = false

/-- Nobody can forge an address in front of `S`: when the whole field is `P ++ S`, all entries of `S`
are addresses and one of them is not trusted, `rawClientIP` is the rightmost of these. -/
def Unforgeable (p : ProxyTrust) (r : Forwarded) (lines : List GoString) : Prop :=
  ∀ P S : List GoString, splitComma (joinComma lines) = P ++ S → (∀ e ∈ S, IsAddress e) →
    ∀ left entry right, S = left ++ entry :: right → p.Distrusts entry →
      (∀ e ∈ right, ¬p.Distrusts e) →
        p.rawClientIP { r with forwardedFor := lines } = trimSpace entry

/-- The lines do not settle who the client is: to the right of every address in them that is not
trusted there is something that is no address. -/
def Unsettled (p : ProxyTrust) (lines : List GoString) : Prop :=
  ∀ left entry right, lines.flatMap splitComma = left ++ entry :: right → p.Distrusts entry →
    ∃ e ∈ right, ¬IsAddress e

variable {p : ProxyTrust} {r : Forwarded} {entry : GoString} {entries left right : List GoString}

/-- An address is trusted or distrusted. An entry that is an address and does not stop the search is
one of a trusted proxy. -/
theorem trusted_of_not_distrusts (haddress : IsAddress entry) (h : ¬p.Distrusts entry) :
    ∃ ip, parseIP (trimSpace entry) = some ip ∧ p.contains ip = true := by
  obtain ⟨ip, hip⟩ := Option.ne_none_iff_exists'.mp haddress
  refine ⟨ip, hip, ?_⟩
  by_contra hno
  exact h ⟨ip, hip, Bool.not_eq_true _ |>.mp hno⟩

/-- The walk passes trusted addresses and stops at the first that is not. -/
theorem walk_of_distrusts (hentry : p.Distrusts entry)
    (hright : ∀ e ∈ right, IsAddress e ∧ ¬p.Distrusts e) :
    p.walk (right ++ entry :: left) = some (trimSpace entry) := by
  induction right with
  | nil =>
      obtain ⟨ip, hip, hno⟩ := hentry
      show p.walk (entry :: left) = _
      simp only [ProxyTrust.walk, hip, hno, true_or, if_true]
  | cons e right ih =>
      obtain ⟨haddress, htrust⟩ := hright e List.mem_cons_self
      obtain ⟨ip, hip, hyes⟩ := trusted_of_not_distrusts haddress htrust
      have hmore : right ++ entry :: left ≠ [] := by simp
      have hstop : ¬(p.contains ip = false ∨ right ++ entry :: left = []) := by
        rw [hyes]
        rintro (hno | hnil)
        · cases hno
        · exact hmore hnil
      have hrest := ih fun e he => hright e (List.mem_cons_of_mem _ he)
      simp only [List.cons_append, ProxyTrust.walk, hip, if_neg hstop]
      exact hrest

/-- An empty line has no address. A request without the header is of this kind. -/
theorem not_distrusts_nil : ¬p.Distrusts [] := by
  rintro ⟨ip, hip, -⟩
  have htrim : trimSpace [] = [] := Go.trimSpace_of_plain fun b hb => absurd hb List.not_mem_nil
  rw [htrim, Go.parseIP_nil] at hip
  cases hip

/-- The address that the first line gives, when there is one. -/
theorem rawClientIP_of_walk {first hop : GoString} (rest : List GoString)
    (hproxy : p.fromProxy r = true) (hfirst : first ≠ [])
    (hwalk : p.walk (splitComma first).reverse = some hop) :
    p.rawClientIP { r with forwardedFor := first :: rest } = hop := by
  have hproxy' : p.fromProxy { r with forwardedFor := first :: rest } = true := hproxy
  have hget : headerGet (first :: rest) = first := rfl
  simp only [ProxyTrust.rawClientIP, hproxy', hget, Bool.true_eq_false, if_false, ne_eq, hfirst,
    not_false_eq_true, if_true, hwalk]

/-- Of the members with a property there is a last one. The induction is on the list; what stands
behind that member does not have the property. -/
theorem exists_last {α : Type*} {q : α → Prop} {xs : List α} (h : ∃ x ∈ xs, q x) :
    ∃ left x right, xs = left ++ x :: right ∧ q x ∧ ∀ y ∈ right, ¬q y := by
  induction xs with
  | nil =>
      obtain ⟨x, hx, -⟩ := h
      exact absurd hx List.not_mem_nil
  | cons y ys ih =>
      by_cases hys : ∃ x ∈ ys, q x
      · obtain ⟨left, x, right, rfl, hx, hright⟩ := ih hys
        exact ⟨y :: left, x, right, rfl, hx, hright⟩
      · obtain ⟨x, hx, hq⟩ := h
        have hxy : x = y := by
          rcases List.mem_cons.mp hx with hxy | hmem
          · exact hxy
          · exact absurd ⟨x, hmem, hq⟩ hys
        subst hxy
        exact ⟨[], x, ys, rfl, hq, fun y hy hqy => hys ⟨y, hy, hqy⟩⟩

/-- When the later lines do not settle it, the first line does. -/
theorem unforgeable_of_unsettled (hproxy : p.fromProxy r = true) {rest : List GoString}
    (h : Unsettled p rest) (first : GoString) : Unforgeable p r (first :: rest) := by
  intro P S hentries haddress left entry right hS hentry hright
  subst hS
  have hsafe : ∀ e ∈ right, IsAddress e ∧ ¬p.Distrusts e := fun e he =>
    ⟨haddress e (List.mem_append_right _ (List.mem_cons_of_mem _ he)), hright e he⟩
  rw [Go.splitComma_joinComma, List.flatMap_cons, ← List.append_assoc] at hentries
  -- the entry is in a later line only if there is something else to its right
  have hlater : ∀ before, rest.flatMap splitComma ≠ before ++ entry :: right := by
    intro before hrest
    obtain ⟨e, he, hno⟩ := h before entry right hrest hentry
    exact hno (hsafe e he).1
  rcases List.append_eq_append_iff.mp hentries with ⟨c, -, hrest⟩ | ⟨c, hfirst, htail⟩
  · exact absurd hrest (hlater c)
  · cases c with
    | nil => exact absurd htail.symm (hlater [])
    | cons x c =>
        obtain ⟨rfl, rfl⟩ := List.cons.inj htail
        have hwalk : p.walk (splitComma first).reverse = some (trimSpace entry) := by
          rw [hfirst, List.reverse_append, List.reverse_cons, List.append_assoc]
          refine walk_of_distrusts hentry fun e he => ?_
          exact hsafe e (List.mem_append_left _ (List.mem_reverse.mp he))
        refine rawClientIP_of_walk rest hproxy ?_ hwalk
        rintro rfl
        have hempty : entry = [] := by
          have hmem : entry ∈ splitComma [] := by
            rw [hfirst]
            simp
          simpa [splitComma] using hmem
        exact not_distrusts_nil (hempty ▸ hentry)

/-- When the later lines settle it, a line that names the proxy itself hides what they say. -/
theorem unsettled_of_unforgeable (hproxy : p.fromProxy r = true) {rest : List GoString}
    (h : ∀ first, Unforgeable p r (first :: rest)) : Unsettled p rest := by
  intro left entry right hrest hentry
  by_contra hno
  have haddress : ∀ e ∈ entry :: right, IsAddress e := by
    intro e he
    rcases List.mem_cons.mp he with rfl | he
    · obtain ⟨ip, hip, -⟩ := hentry
      exact fun hnone => by rw [hip] at hnone; cases hnone
    · by_contra hnot
      exact hno ⟨e, he, hnot⟩
  have hsome : ∃ e ∈ entry :: right, p.Distrusts e := ⟨entry, List.mem_cons_self, hentry⟩
  obtain ⟨left', last, right', hsplit, hlast, hright'⟩ := exists_last hsome
  obtain ⟨ip, hip, htrust⟩ := (Option.any_eq_true _ _).mp hproxy
  -- the forged line: the address of the proxy
  have hself : p.walk (splitComma (peerIP r)).reverse = some (peerIP r) := by
    rw [Go.splitComma_of_parseIP hip]
    simp [ProxyTrust.walk, Go.trimSpace_of_parseIP hip, hip]
  have hne : peerIP r ≠ [] := by
    intro hempty
    rw [hempty, Go.parseIP_nil] at hip
    cases hip
  have hforged := rawClientIP_of_walk rest hproxy hne hself
  have hwhole : splitComma (joinComma (peerIP r :: rest)) =
      (splitComma (peerIP r) ++ left) ++ (entry :: right) := by
    rw [Go.splitComma_joinComma, List.flatMap_cons, hrest, List.append_assoc]
  have htrue := h (peerIP r) _ _ hwhole haddress left' last right' hsplit hlast hright'
  obtain ⟨ip', hip', hdistrust⟩ := hlast
  rw [← htrue, hforged, hip] at hip'
  obtain rfl := Option.some.inj hip'
  rw [htrust] at hdistrust
  cases hdistrust

/-- **Forwarded addresses**, for a request from a trusted proxy: whatever the first line of
`X-Forwarded-For` is, `rawClientIP` is what the whole field says, exactly when the later lines do
not settle it; and without any line there is nothing to forge. For any other request it is the TCP
peer. -/
theorem rawClientIP_iff (p : ProxyTrust) (r : Forwarded) :
    (p.fromProxy r = true → Unforgeable p r [] ∧ ∀ rest : List GoString,
      (∀ first, Unforgeable p r (first :: rest)) ↔ Unsettled p rest) ∧
    (p.fromProxy r = false → p.rawClientIP r = peerIP r) := by
  refine ⟨fun hproxy => ⟨?_, fun rest => ⟨unsettled_of_unforgeable hproxy, ?_⟩⟩, fun hno => ?_⟩
  · intro P S hentries _ left entry right hS hentry _
    subst hS
    have hmem : entry ∈ splitComma [] := by
      have hmem : entry ∈ P ++ (left ++ entry :: right) := by simp
      rwa [← hentries] at hmem
    have hempty : entry = [] := by simpa [splitComma] using hmem
    exact absurd (hempty ▸ hentry) not_distrusts_nil
  · exact unforgeable_of_unsettled hproxy
  · simp only [ProxyTrust.rawClientIP, hno, if_true]

/-! ## Two lines -/

namespace Sample

/-- The reverse proxy `10.0.0.1`. -/
def proxies : ProxyTrust := [⟨[10, 0, 0, 1], [255, 255, 255, 255]⟩]

/-- A request it passes on. -/
def passedOn : Forwarded := { remoteAddr := goString "10.0.0.1:50000" }

/-- The line a client has written, and the line of the proxy with the client's address. -/
def twoLines : List GoString := [goString "6.6.6.6", goString "9.9.9.9"]

end Sample

/-- The client is taken for `6.6.6.6`, the address in a line of its own. -/
theorem forged_two_lines : Sample.proxies.fromProxy Sample.passedOn = true ∧
    splitComma (joinComma Sample.twoLines) = [goString "6.6.6.6"] ++ [goString "9.9.9.9"] ∧
    Sample.proxies.rawClientIP { Sample.passedOn with forwardedFor := Sample.twoLines } =
      goString "6.6.6.6" ∧
    ¬Unforgeable Sample.proxies Sample.passedOn Sample.twoLines := by
  -- the client writes the first line, and the proxy appends a line of its own
  have hsplit : splitComma (joinComma Sample.twoLines) =
      [goString "6.6.6.6"] ++ [goString "9.9.9.9"] := by
    decide +kernel
  have hforged : Sample.proxies.rawClientIP
      { Sample.passedOn with forwardedFor := Sample.twoLines } = goString "6.6.6.6" := by
    decide +kernel
  have hip : parseIP (trimSpace (goString "9.9.9.9")) = some (Go.mapped [9, 9, 9, 9]) := by
    decide +kernel
  refine ⟨by decide +kernel, hsplit, hforged, fun h => ?_⟩
  -- what follows the first line are addresses, and none of a trusted proxy
  have haddress : ∀ e ∈ [goString "9.9.9.9"], IsAddress e := by
    intro e he
    rw [List.mem_singleton.mp he]
    unfold IsAddress
    rw [hip]
    exact Option.some_ne_none _
  have htrue := h _ _ hsplit haddress [] (goString "9.9.9.9") [] rfl
    ⟨_, hip, by decide +kernel⟩ fun e he => absurd he List.not_mem_nil
  rw [hforged] at htrue
  exact absurd htrue (by decide +kernel)

/-- Two lines after the first one; what is right of the client's address in them is no address. -/
def Sample.laterLines : List GoString := [goString "9.9.9.9, unknown", goString "10.0.0.1"]

/-- The later lines do not settle who the client is, so the first line cannot be made to contradict
them; and a peer that is no proxy is not asked for any line. -/
theorem rawClientIP_iff_later_lines :
    Unforgeable Sample.proxies Sample.passedOn (goString "6.6.6.6, 7.7.7.7" :: Sample.laterLines) ∧
      Sample.proxies.rawClientIP
        { remoteAddr := goString "9.9.9.9:50000", forwardedFor := Sample.twoLines } =
          goString "9.9.9.9" := by
  have hproxy : Sample.proxies.fromProxy Sample.passedOn = true := by decide +kernel
  have hlines : Sample.laterLines.flatMap splitComma =
      [goString "9.9.9.9", goString " unknown", goString "10.0.0.1"] := by
    decide +kernel
  have hunknown : parseIP (trimSpace (goString " unknown")) = none := by decide +kernel
  have htrusted : (parseIP (trimSpace (goString "10.0.0.1"))).all Sample.proxies.contains = true := by
    decide +kernel
  have hunsettled : Unsettled Sample.proxies Sample.laterLines := by
    intro left entry right hsplit hentry
    obtain ⟨ip, hip, hno⟩ := hentry
    rw [hlines] at hsplit
    rcases left with _ | ⟨_, _ | ⟨_, _ | ⟨_, left⟩⟩⟩
    · -- the client's address: the next entry is no address
      obtain ⟨-, rfl⟩ := List.cons.inj hsplit
      exact ⟨_, List.mem_cons_self, fun h => h hunknown⟩
    · obtain ⟨rfl, -⟩ := List.cons.inj (List.cons.inj hsplit).2
      cases hunknown.symm.trans hip
    · obtain ⟨rfl, -⟩ := List.cons.inj (List.cons.inj (List.cons.inj hsplit).2).2
      rw [hip, Option.all_some, hno] at htrusted
      cases htrusted
    · have hlength := congrArg List.length hsplit
      simp at hlength
  have hdirect : Sample.proxies.fromProxy
      { remoteAddr := goString "9.9.9.9:50000", forwardedFor := Sample.twoLines } = false := by
    decide +kernel
  refine ⟨((rawClientIP_iff _ _).1 hproxy).2 _ |>.mpr hunsettled _, ?_⟩
  rw [(rawClientIP_iff _ _).2 hdirect]
  decide +kernel

/-! ## The reference definition

Which entry `rawClientIP` returns, without a loop: the one with the largest index at which the
reading from the right has to stop. -/

/-- The entries of the first line of `X-Forwarded-For`, trimmed. -/
def hops (r : Forwarded) : List GoString :=
  (splitComma (headerGet r.forwardedFor)).map trimSpace

/-- The reading cannot pass the entry: it is no address or not a trusted one. -/
def ProxyTrust.stops (p : ProxyTrust) (hop : GoString) : Bool := !(parseIP hop).any p.contains

/-- The largest index of an entry that cannot be passed, 0 if there is none. -/
def ProxyTrust.stopIndex (p : ProxyTrust) (hops : List GoString) : ℕ :=
  Nat.findGreatest (fun i => hops[i]?.any p.stops = true) hops.length

/-- The entry of that index. -/
def ProxyTrust.stopHop (p : ProxyTrust) (hops : List GoString) : GoString :=
  hops.getD (p.stopIndex hops) []

/-- What `rawClientIP` is to return. -/
def ProxyTrust.reference (p : ProxyTrust) (r : Forwarded) : GoString :=
  if p.fromProxy r = false then peerIP r
  else
    let xri := trimSpace (headerGet r.realIP)
    if parseIP (p.stopHop (hops r)) ≠ none then p.stopHop (hops r)
    else if parseIP xri ≠ none then xri
    else peerIP r

/-- Everything to the right of the entry is the address of a trusted proxy. -/
def ProxyTrust.Reached (p : ProxyTrust) (entries : List GoString) (entry : GoString) : Prop :=
  ∃ left right, entries = left ++ entry :: right ∧ ∀ e ∈ right, IsAddress e ∧ ¬p.Distrusts e

/-- An entry that can be passed is a trusted address. The search from the right goes on past such
entries only. -/
theorem parseIP_of_not_stops {hop : GoString} (h : ¬p.stops hop = true) :
    ∃ ip, parseIP hop = some ip ∧ p.contains ip = true := by
  apply (Option.any_eq_true _ _).mp
  simpa [ProxyTrust.stops] using h

/-- The index is that of an entry. The loop of the source never leaves the slice. -/
theorem stopIndex_lt {xs : List GoString} (h : xs ≠ []) : p.stopIndex xs < xs.length := by
  by_cases hzero : p.stopIndex xs = 0
  · rw [hzero]
    exact List.length_pos_iff.mpr h
  · have hstop : xs[p.stopIndex xs]?.any p.stops = true := Nat.findGreatest_of_ne_zero rfl hzero
    by_contra hlong
    rw [List.getElem?_eq_none (not_lt.mp hlong)] at hstop
    simp at hstop

/-- An entry more at the right end is the one, or it is passed. -/
theorem stopIndex_concat (xs : List GoString) (x : GoString) :
    p.stopIndex (xs ++ [x]) = if p.stops x = true then xs.length else p.stopIndex xs := by
  have hnone : ¬((xs ++ [x])[xs.length + 1]?.any p.stops = true) := by simp
  have hlast : (xs ++ [x])[xs.length]? = some x := by simp
  unfold ProxyTrust.stopIndex
  rw [List.length_append, List.length_singleton, Nat.findGreatest_of_not hnone]
  by_cases hx : p.stops x = true
  · rw [if_pos hx]
    apply Nat.findGreatest_eq
    rw [hlast]
    exact hx
  · rw [if_neg hx]
    -- the entry that is passed counts no more than no entry
    have hsame : ∀ i : ℕ, (xs ++ [x])[i]?.any p.stops = xs[i]?.any p.stops := by
      intro i
      rcases Nat.lt_trichotomy i xs.length with hi | rfl | hi
      · rw [List.getElem?_append_left hi]
      · rw [hlast, List.getElem?_eq_none le_rfl]
        simpa using hx
      · rw [List.getElem?_eq_none (by simp; omega), List.getElem?_eq_none hi.le]
    simp only [hsame]

/-- The hops are looked at from the right. It is one round of the loop, from the last entry to the
one before it. -/
theorem stopHop_concat (xs : List GoString) (x : GoString) :
    p.stopHop (xs ++ [x]) = if p.stops x = true ∨ xs = [] then x else p.stopHop xs := by
  have hlast : (xs ++ [x]).getD xs.length [] = x := by simp
  unfold ProxyTrust.stopHop
  rw [stopIndex_concat]
  by_cases hx : p.stops x = true
  · rw [if_pos hx, if_pos (Or.inl hx), hlast]
  · rw [if_neg hx]
    by_cases hxs : xs = []
    · rw [if_pos (Or.inr hxs), hxs]
      rfl
    · rw [if_neg (not_or.mpr ⟨hx, hxs⟩)]
      exact List.getD_append _ _ _ _ (stopIndex_lt hxs)

/-- The loop finds that entry, and returns it when it is an address. -/
theorem walk_reverse (entries : List GoString) :
    p.walk entries.reverse = if parseIP (p.stopHop (entries.map trimSpace)) ≠ none then
      some (p.stopHop (entries.map trimSpace)) else none := by
  -- induction from the right end, where the loop of the source begins
  induction entries using List.reverseRecOn with
  | nil => rfl
  | append_singleton front x ih =>
      rw [List.map_append, List.map_singleton, stopHop_concat, List.reverse_append,
        List.reverse_singleton, List.singleton_append]
      simp only [ProxyTrust.walk, List.map_eq_nil_iff, List.reverse_eq_nil_iff]
      by_cases hstop : p.stops (trimSpace x) = true
      · rw [if_pos (Or.inl hstop)]
        cases hip : parseIP (trimSpace x) with
        | none => simp
        | some ip =>
            have hno : p.contains ip = false := by simpa [ProxyTrust.stops, hip] using hstop
            simp [hno]
      · -- a trusted address is passed over, unless it is the leftmost
        obtain ⟨ip, hip, hyes⟩ := parseIP_of_not_stops hstop
        by_cases hfront : front = []
        · simp [hfront, hip]
        · have hkept : ¬(p.stops (trimSpace x) = true ∨ front = []) := not_or.mpr ⟨hstop, hfront⟩
          have hgoes : ¬(p.contains ip = false ∨ front = []) := by simp [hyes, hfront]
          simp only [hip, if_neg hkept, if_neg hgoes]
          exact ih

/-- Behind a trusted proxy the loop decides, also when there is no line to read. -/
theorem rawClientIP_of_fromProxy (hproxy : p.fromProxy r = true) :
    p.rawClientIP r = (p.walk (splitComma (headerGet r.forwardedFor)).reverse).getD
      (if parseIP (trimSpace (headerGet r.realIP)) ≠ none then trimSpace (headerGet r.realIP)
        else peerIP r) := by
  have hline : (if headerGet r.forwardedFor ≠ [] then
      p.walk (splitComma (headerGet r.forwardedFor)).reverse else none) =
      p.walk (splitComma (headerGet r.forwardedFor)).reverse := by
    split
    · rfl
    · rename_i hnil
      have hempty : (splitComma []).map trimSpace = [] ++ [[]] := by decide +kernel
      rw [not_not.mp hnil, walk_reverse, hempty, stopHop_concat, if_pos (Or.inr rfl),
        Go.parseIP_nil]
      rfl
  simp only [ProxyTrust.rawClientIP, hproxy, Bool.true_eq_false, if_false, hline]
  cases p.walk (splitComma (headerGet r.forwardedFor)).reverse <;> rfl

/-- **The loop of `rawClientIP` computes the reference.** The reference is stated with the position
at which the search stops and has no loop. -/
theorem rawClientIP_eq_reference (p : ProxyTrust) (r : Forwarded) :
    p.rawClientIP r = p.reference r := by
  by_cases hproxy : p.fromProxy r = true
  · have hno : ¬p.fromProxy r = false := by simp [hproxy]
    rw [rawClientIP_of_fromProxy hproxy, walk_reverse, ProxyTrust.reference, if_neg hno]
    show Option.getD (if parseIP (p.stopHop (hops r)) ≠ none then some (p.stopHop (hops r)) else none)
      _ = _
    split <;> rfl
  · rw [Bool.not_eq_true] at hproxy
    simp only [ProxyTrust.rawClientIP, ProxyTrust.reference, hproxy, if_true]

/-- Behind a trusted proxy the reference definition is an address: at worst that of the proxy. -/
theorem parseIP_reference (hproxy : p.fromProxy r = true) :
    ∃ ip, parseIP (p.reference r) = some ip := by
  apply Option.ne_none_iff_exists'.mp
  unfold ProxyTrust.reference
  rw [if_neg (by simp [hproxy])]
  split
  · assumption
  · dsimp only
    split
    · assumption
    · obtain ⟨ip, hip, -⟩ := (Option.any_eq_true _ _).mp hproxy
      rw [hip]
      exact Option.some_ne_none ip

/-- **The address of a client**: `rawClientIP` is the reference definition (lines of
`X-Forwarded-For` after the first one are read by neither). Behind a trusted proxy
it is an address, of somebody trusted only if the reading from the right did not come upon anybody
else. -/
theorem rawClientIP_spec (p : ProxyTrust) (r : Forwarded) :
    p.rawClientIP r = p.reference r ∧
    (p.fromProxy r = true → ∃ ip, parseIP (p.rawClientIP r) = some ip ∧
      (p.contains ip = true → ∀ entry,
        p.Reached (splitComma (headerGet r.forwardedFor)) entry → ¬p.Distrusts entry)) := by
  refine ⟨rawClientIP_eq_reference p r, fun hproxy => ?_⟩
  obtain ⟨ip, hip⟩ := parseIP_reference hproxy
  rw [← rawClientIP_eq_reference] at hip
  refine ⟨ip, hip, ?_⟩
  rintro htrusted entry ⟨left, right, hentries, hright⟩ hentry
  have hwalk : p.walk (splitComma (headerGet r.forwardedFor)).reverse = some (trimSpace entry) := by
    rw [hentries, List.reverse_append, List.reverse_cons, List.append_assoc]
    exact walk_of_distrusts hentry fun e he => hright e (List.mem_reverse.mp he)
  obtain ⟨other, hother, hno⟩ := hentry
  rw [rawClientIP_of_fromProxy hproxy, hwalk, Option.getD_some, hother] at hip
  rw [Option.some.inj hip, htrusted] at hno
  cases hno

/-- A hop that is no address, a client, the proxy itself. -/
def Sample.chain : Forwarded :=
  { Sample.passedOn with forwardedFor := [goString "6.6.6.6, unknown, 9.9.9.9 ,10.0.0.1"] }

/-- A request that has come through two trusted proxies. The rightmost address that is no proxy is
found, and what stands to the left of it is not looked at. -/
theorem rawClientIP_spec_chain :
    Sample.proxies.rawClientIP Sample.chain = goString "9.9.9.9" ∧
      ∃ ip, parseIP (Sample.proxies.rawClientIP Sample.chain) = some ip :=
  have hproxy : Sample.proxies.fromProxy Sample.chain = true := by decide +kernel
  have hspec := rawClientIP_spec Sample.proxies Sample.chain
  ⟨hspec.1.trans (by decide +kernel), (hspec.2 hproxy).imp fun _ h => h.1⟩

end LanRoom.Routes
