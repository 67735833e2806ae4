import LanRoom.Go.UUID
import LanRoom.Mobile.Json

/-! # The datagrams of the discovery

`Reply` of `internal/discovery/discovery.go` answers the datagram that `discover` of
`mobile/lib/discovery.dart` broadcasts, and `FoundServer.parse` reads the answer. Each side has its own
JSON library and its own checks. -/

namespace LanRoom.Discovery

open LanRoom.Go (unquote foldName quoteText parseInt formatInt runes uuidString hexEncode isSafe
  isPlainAscii isPlainAscii_of_isSafe isSafe_of_mem_hexEncode)
open LanRoom.Chat (UUID)
open LanRoom.Mobile (DartString Uri FoundServer jsonText jsonDecode dartString? dartInt? equalsString
  equalsOne isServiceID asciiString)
open JsonText (Scalar)

/-! ## The server -/

/-- `Packet`. -/
structure Packet where
  type : GoString := []
  version : ℤ := 0
  requestId : GoString := []
  serviceId : GoString := []
  port : ℤ := 0
  deriving DecidableEq

/-- A field of `Packet`. -/
inductive Field
  | type | version | requestId | serviceId | port
  deriving DecidableEq

/-- The name of the member that a field is read from. -/
def Field.name : Field → GoString
  | .type => goString "type"
  | .version => goString "version"
  | .requestId => goString "requestId"
  | .serviceId => goString "serviceId"
  | .port => goString "port"

/-- The fields, in their order. -/
def Field.all : List Field := [.type, .version, .requestId, .serviceId, .port]

/-- The field that a member is read into: the names are compared without regard to case. -/
def field? (name : Bytes) : Option Field :=
  Field.all.find? fun f => decide (foldName name = foldName f.name)

/-- A member is read into its field; `none` is an error. `null` leaves the field as it is. -/
def Packet.read (p : Packet) (m : Bytes × JsonText.Json) : Option Packet :=
  match field? m.1, m.2 with
  | none, _ => some p
  | some _, .null => some p
  | some .type, .str text => some { p with type := unquote text }
  | some .version, .num text => (parseInt text).map fun n => { p with version := n }
  | some .requestId, .str text => some { p with requestId := unquote text }
  | some .serviceId, .str text => some { p with serviceId := unquote text }
  | some .port, .num text => (parseInt text).map fun n => { p with port := n }
  | some _, _ => none

/-- `json.Unmarshal` into an empty `Packet`; `none` is an error. -/
def unmarshal (data : Bytes) : Option Packet :=
  match JsonText.parse data with
  | some (.obj ms) => ms.foldlM Packet.read {}
  | some .null => some {}
  | _ => none

/-- `json.Marshal`; `serviceId` and `port` are left out when they are empty. -/
def Packet.marshal (p : Packet) : Bytes :=
  let str (f : Field) (s : GoString) := (f.name, JsonText.Json.str (quoteText s))
  let num (f : Field) (n : ℤ) := (f.name, JsonText.Json.num (formatInt n))
  (JsonText.Json.obj ([str .type p.type, num .version p.version, str .requestId p.requestId] ++
    (if p.serviceId = [] then [] else [str .serviceId p.serviceId]) ++
    if p.port = 0 then [] else [num .port p.port])).render

/-- A character that a request id may have. -/
def isRequestChar (c : Char) : Bool :=
  (('a' ≤ c && c ≤ 'z') || ('A' ≤ c && c ≤ 'Z') || ('0' ≤ c && c ≤ '9')) || c == '-'

/-- `Reply`. -/
def reply (data : Bytes) (serviceID : GoString) (port : ℤ) : Option Bytes :=
  if 1024 < data.length then none
  else match unmarshal data with
    | none => none
    | some req =>
        if req.type ≠ goString "lanroom.discover" ∨ req.version ≠ 1 ∨ req.requestId.length < 16 ∨
            64 < req.requestId.length then none
        else if (runes req.requestId).all isRequestChar then
          some (Packet.marshal ⟨goString "lanroom.offer", 1, req.requestId, serviceID, port⟩)
        else none

/-! ## The app -/

/-- `padLeft`. -/
def padLeft (width : ℕ) (c : Char) (s : DartString) : DartString :=
  List.replicate (width - s.length) c ++ s

/-- `randomID`, for the bytes that are drawn. -/
def randomID (drawn : List UInt8) : DartString :=
  drawn.flatMap fun b => padLeft 2 '0' (Nat.toDigits 16 b.toNat)

/-- The datagram of `discover`. -/
def query (id : DartString) : Bytes :=
  (JsonText.Json.obj [(jsonText "type".toList, .str (jsonText "lanroom.discover".toList)),
    (jsonText "version".toList, .num (formatInt 1)),
    (jsonText "requestId".toList, .str (jsonText id))]).render

/-- The address of a sender: `discover` listens on IPv4 sockets. -/
structure InternetAddress where
  bytes : Vector UInt8 4

/-- `InternetAddress.address`. -/
def InternetAddress.address (a : InternetAddress) : DartString :=
  ['.'].intercalate (a.bytes.toList.map fun b => Nat.toDigits 10 b.toNat)

/-- `Uri(scheme: 'http', host: host, port: port)`, for a host that needs no escape. The port 80 is left
out. -/
def httpUri (host : DartString) (port : ℤ) : Uri :=
  let authority := if port = 80 then host else host ++ ':' :: Nat.toDigits 10 port.toNat
  ⟨"http://".toList ++ authority, authority⟩

/-- `FoundServer.parse`. -/
def FoundServer.parse (bytes : Bytes) (sender : InternetAddress) (requestID : DartString) : Option FoundServer :=
  match jsonDecode bytes with
  | some (.obj data) =>
      if equalsString (Mobile.get data "type".toList) "lanroom.offer".toList &&
          equalsOne (Mobile.get data "version".toList) &&
          equalsString (Mobile.get data "requestId".toList) requestID then
        match Mobile.get data "port".toList, Mobile.get data "serviceId".toList with
        | .num port, .str id =>
            match dartInt? port, dartString? id with
            | some port, some id =>
                if 1 ≤ port ∧ port ≤ 65535 ∧ isServiceID id = true then
                  some ⟨id, httpUri sender.address port⟩
                else none
            | _, _ => none
        | _, _ => none
      else none
  | _ => none

/-! ## What the server answers to -/

/-- The member that a field gets its value from: the last one of its name that is not `null`. -/
def lastValue (ms : List (Bytes × JsonText.Json)) (f : Field) : Option JsonText.Json :=
  (ms.reverse.find? fun m => decide (field? m.1 = some f) && !m.2.isNull).map (·.2)

/-- **A request of the discovery**: a short JSON object with the type and the version of a request and
an id of 16 to 64 letters, digits and hyphens. -/
structure IsRequest (data : Bytes) : Prop where
  short : data.length ≤ 1024
  object : ∃ ms, JsonText.parse data = some (.obj ms) ∧
    (∃ text, lastValue ms .type = some (.str text) ∧ unquote text = goString "lanroom.discover") ∧
    (∃ text, lastValue ms .version = some (.num text) ∧ parseInt text = some 1) ∧
    ∃ text, lastValue ms .requestId = some (.str text) ∧ 16 ≤ (unquote text).length ∧
      (unquote text).length ≤ 64 ∧ ∀ c ∈ runes (unquote text), isRequestChar c = true

/-- The string in a field. -/
def Packet.text (p : Packet) : Field → Option GoString
  | .type => some p.type
  | .requestId => some p.requestId
  | .serviceId => some p.serviceId
  | _ => none

/-- The number in a field. -/
def Packet.number (p : Packet) : Field → Option ℤ
  | .version => some p.version
  | .port => some p.port
  | _ => none

/-- What a member does to a field. -/
inductive Packet.Read (p q : Packet) (m : Bytes × JsonText.Json) (f : Field) : Prop
  | kept (hother : field? m.1 ≠ some f ∨ m.2.isNull = true) (htext : q.text f = p.text f)
      (hnumber : q.number f = p.number f) : Read p q m f
  | text {t : Bytes} (hfield : field? m.1 = some f) (hm : m.2 = .str t)
      (htext : q.text f = some (unquote t)) : Read p q m f
  | number {t : Bytes} {n : ℤ} (hfield : field? m.1 = some f) (hm : m.2 = .num t)
      (hn : parseInt t = some n) (hnumber : q.number f = some n) : Read p q m f

/-- What reading one member does to each field of the packet: it sets the field the member is for,
unless its value is `null`, and leaves the others alone. -/
theorem Packet.read_spec {p q : Packet} {m : Bytes × JsonText.Json} (h : p.read m = some q)
    (f : Field) : p.Read q m f := by
  obtain ⟨name, v⟩ := m
  unfold Packet.read at h
  cases hfield : field? name with
  | none =>
      simp only [hfield, Option.some.injEq] at h
      subst h
      exact .kept (.inl (by simp [hfield])) rfl rfl
  | some g =>
      by_cases hfg : g = f
      · subst hfg
        cases v with
        | null =>
            simp only [hfield, Option.some.injEq] at h
            subst h
            exact .kept (.inr rfl) rfl rfl
        | str t =>
            cases g <;> simp only [hfield, Option.some.injEq, reduceCtorEq] at h <;> subst h <;>
              exact .text hfield rfl rfl
        | num t =>
            cases g <;> simp only [hfield, Option.map_eq_some_iff, reduceCtorEq] at h <;>
              obtain ⟨n, hn, rfl⟩ := h <;> exact .number hfield rfl hn rfl
        | bool b => cases g <;> simp [hfield] at h
        | arr vs => cases g <;> simp [hfield] at h
        | obj ms => cases g <;> simp [hfield] at h
      · have hother : field? name ≠ some f := by
          rw [hfield]
          simpa using hfg
        -- another field has changed, at most
        cases v with
        | null =>
            simp only [hfield, Option.some.injEq] at h
            subst h
            exact .kept (.inl hother) rfl rfl
        | str t =>
            cases g <;> simp only [hfield, Option.some.injEq, reduceCtorEq] at h <;> subst h <;>
              refine .kept (.inl hother) ?_ ?_ <;> cases f <;> first | rfl | exact absurd rfl hfg
        | num t =>
            cases g <;> simp only [hfield, Option.map_eq_some_iff, reduceCtorEq] at h <;>
              obtain ⟨n, -, rfl⟩ := h <;> refine .kept (.inl hother) ?_ ?_ <;> cases f <;>
              first | rfl | exact absurd rfl hfg
        | bool b => cases g <;> simp [hfield] at h
        | arr vs => cases g <;> simp [hfield] at h
        | obj ms => cases g <;> simp [hfield] at h

/-- What a field holds after all members are read into an empty packet. -/
inductive Packet.Holds (p : Packet) (ms : List (Bytes × JsonText.Json)) (f : Field) : Prop
  | empty (hno : lastValue ms f = none) (htext : p.text f = ({} : Packet).text f)
      (hnumber : p.number f = ({} : Packet).number f) : Holds p ms f
  | text {t : Bytes} (hlast : lastValue ms f = some (.str t)) (htext : p.text f = some (unquote t)) :
      Holds p ms f
  | number {t : Bytes} {n : ℤ} (hlast : lastValue ms f = some (.num t)) (hn : parseInt t = some n)
      (hnumber : p.number f = some n) : Holds p ms f

/-- A member that sets a field is the last one to do so. This is what lets the members of a packet
be read from the end. -/
theorem lastValue_append_self {ms : List (Bytes × JsonText.Json)} {m : Bytes × JsonText.Json}
    {f : Field} (hfield : field? m.1 = some f) (hnull : m.2.isNull = false) :
    lastValue (ms ++ [m]) f = some m.2 := by
  rw [lastValue, List.reverse_append, List.reverse_singleton, List.singleton_append,
    List.find?_cons_of_pos (by simp [hfield, hnull])]
  rfl

/-- A member that does not set a field does not change its last value. -/
theorem lastValue_append_of_not {ms : List (Bytes × JsonText.Json)} {m : Bytes × JsonText.Json}
    {f : Field} (hother : field? m.1 ≠ some f ∨ m.2.isNull = true) :
    lastValue (ms ++ [m]) f = lastValue ms f := by
  rw [lastValue, List.reverse_append, List.reverse_singleton, List.singleton_append,
    List.find?_cons_of_neg (by rcases hother with h | h <;> simp [h])]
  rfl

/-- **A packet holds the last values.** By induction on the members, from the last one. A later
member of the same name overwrites an earlier one, and `null` overwrites nothing. -/
theorem Packet.holds_of_read {p : Packet} {ms : List (Bytes × JsonText.Json)}
    (h : ms.foldlM Packet.read {} = some p) (f : Field) : p.Holds ms f := by
  induction ms using List.reverseRecOn generalizing p with
  | nil =>
      obtain rfl := Option.some.inj h
      exact .empty rfl rfl rfl
  | append_singleton ms m ih =>
      rw [List.foldlM_append] at h
      obtain ⟨q, hq, hlast⟩ := Option.bind_eq_some_iff.mp h
      have hread : q.read m = some p := by simpa using hlast
      rcases q.read_spec hread f with ⟨hother, htext, hnumber⟩ | ⟨hfield, hm, htext⟩ |
        ⟨hfield, hm, hn, hnumber⟩
      · have hsame : lastValue (ms ++ [m]) f = lastValue ms f := lastValue_append_of_not hother
        rcases ih hq with ⟨hno, ht, hn⟩ | ⟨hl, ht⟩ | ⟨hl, hparse, hn⟩
        · exact .empty (hsame.trans hno) (htext.trans ht) (hnumber.trans hn)
        · exact .text (hsame.trans hl) (htext.trans ht)
        · exact .number (hsame.trans hl) hparse (hnumber.trans hn)
      · exact .text ((lastValue_append_self hfield (by rw [hm]; rfl)).trans (congrArg some hm)) htext
      · exact .number ((lastValue_append_self hfield (by rw [hm]; rfl)).trans (congrArg some hm)) hn
          hnumber

/-- A field that holds a string that is not empty got it from the last member. -/
theorem Packet.Holds.of_text {p : Packet} {ms : List (Bytes × JsonText.Json)} {f : Field}
    {s : GoString} (h : p.Holds ms f) (htext : p.text f = some s) (hne : s ≠ []) :
    ∃ t, lastValue ms f = some (.str t) ∧ unquote t = s := by
  rcases h with ⟨-, ht, -⟩ | ⟨hlast, ht⟩ | ⟨-, -, hn⟩
  · rw [htext] at ht
    cases f <;> simp [Packet.text] at ht <;> exact absurd ht hne
  · exact ⟨_, hlast, Option.some.inj (ht.symm.trans htext)⟩
  · cases f <;> simp [Packet.text, Packet.number] at htext hn

/-- A field that holds a number that is not 0 got it from the last member. -/
theorem Packet.Holds.of_number {p : Packet} {ms : List (Bytes × JsonText.Json)} {f : Field} {n : ℤ}
    (h : p.Holds ms f) (hnumber : p.number f = some n) (hne : n ≠ 0) :
    ∃ t, lastValue ms f = some (.num t) ∧ parseInt t = some n := by
  rcases h with ⟨-, -, hn⟩ | ⟨-, ht⟩ | ⟨hlast, hparse, hn⟩
  · rw [hnumber] at hn
    cases f <;> simp [Packet.number] at hn <;> exact absurd hn hne
  · cases f <;> simp [Packet.text, Packet.number] at hnumber ht
  · rw [hnumber] at hn
    exact ⟨_, hlast, hparse.trans hn.symm⟩

/-- What is answered to is a request. The tests of the responder on the decoded packet are tests on
the members of the object. -/
theorem isRequest_of_reply {data answer : Bytes} {serviceID : GoString} {port : ℤ}
    (h : reply data serviceID port = some answer) : IsRequest data := by
  unfold reply at h
  split at h
  · cases h
  · rename_i hshort
    split at h
    · cases h
    · rename_i req hreq
      -- the checks of `handleDiscovery` in their order; an answer has passed all of them
      split at h
      · cases h
      · rename_i hfields
        split at h
        · rename_i hchars
          simp only [not_or, ne_eq, not_not, not_lt] at hfields
          obtain ⟨htype, hversion, hmin, hmax⟩ := hfields
          refine ⟨Nat.not_lt.mp hshort, ?_⟩
          -- what the decoder has put into the fields was a member of the packet
          unfold unmarshal at hreq
          split at hreq
          · rename_i ms hparse
            have hholds := Packet.holds_of_read hreq
            refine ⟨ms, hparse, ?_, ?_, ?_⟩
            · exact (hholds .type).of_text (congrArg some htype) (by decide +kernel)
            · exact (hholds .version).of_number (congrArg some hversion) (by decide)
            · obtain ⟨t, hlast, ht⟩ := (hholds .requestId).of_text rfl
                (List.length_pos_iff.mp (by omega))
              rw [← ht] at hmin hmax hchars
              exact ⟨t, hlast, hmin, hmax, List.all_eq_true.mp hchars⟩
          · -- the literal `null` leaves all fields zero, and `""` is not the type of a request
            obtain rfl := Option.some.inj hreq
            exact absurd htype (by decide +kernel)
          · cases hreq
        · cases h

/-! ## The datagrams -/

/-- The members of a request. -/
def requestMembers (id : GoString) : List (Bytes × JsonText.Json) :=
  [(Field.type.name, .str (goString "lanroom.discover")), (Field.version.name, .num (formatInt 1)),
    (Field.requestId.name, .str id)]

/-- What an offer has for a field. -/
def offerValue (id serviceID : GoString) (port : ℤ) : Field → JsonText.Json
  | .type => .str (goString "lanroom.offer")
  | .version => .num (formatInt 1)
  | .requestId => .str id
  | .serviceId => .str serviceID
  | .port => .num (formatInt port)

/-- The members of an offer. -/
def offerMembers (id serviceID : GoString) (port : ℤ) : List (Bytes × JsonText.Json) :=
  Field.all.map fun f => (f.name, offerValue id serviceID port f)

variable {id serviceID : GoString} {port : ℤ}

/-- The literals of the two programs. They are evaluated once here, and everything below uses them
by name. -/
theorem literals :
    (∀ f ∈ Field.all, (∀ b ∈ f.name, isSafe b = true) ∧ field? f.name = some f) ∧
    (∀ b ∈ goString "lanroom.discover", isSafe b = true) ∧
    (∀ b ∈ goString "lanroom.offer", isSafe b = true) ∧
    "lanroom.discover".toList = asciiString (goString "lanroom.discover") ∧
    "lanroom.offer".toList = asciiString (goString "lanroom.offer") ∧
    "type".toList = asciiString Field.type.name ∧
    "version".toList = asciiString Field.version.name ∧
    "requestId".toList = asciiString Field.requestId.name ∧
    "serviceId".toList = asciiString Field.serviceId.name ∧
    "port".toList = asciiString Field.port.name ∧
    (goString "lanroom.discover").length = 16 ∧ Field.type.name.length = 4 ∧
    Field.version.name.length = 7 ∧ Field.requestId.name.length = 9 := by
  decide +kernel

/-- The names of the fields need no escape. So a name in a packet is the text between its quotes. -/
theorem isSafe_name (f : Field) : ∀ b ∈ f.name, isSafe b = true :=
  (literals.1 f (by cases f <;> decide)).1

/-- The name of a field is recognised as the name of that field. -/
theorem field?_name (f : Field) : field? f.name = some f :=
  (literals.1 f (by cases f <;> decide)).2

/-- The kind of a query needs no escape. It is written and read as it stands. -/
theorem isSafe_discover : ∀ b ∈ goString "lanroom.discover", isSafe b = true := literals.2.1

/-- The kind of an offer needs no escape. It is written and read as it stands. -/
theorem isSafe_offer : ∀ b ∈ goString "lanroom.offer", isSafe b = true := literals.2.2.1

/-- Safe texts are plain. The grammar accepts them as the inside of a string. -/
theorem isPlain_of_isSafe {b : UInt8} (h : isSafe b = true) : JsonText.isPlain b = true := by
  have hplain := isPlainAscii_of_isSafe h
  simp only [isPlainAscii, Bool.and_eq_true] at hplain
  exact hplain.1

/-- A string without characters to escape is written as it is. -/
theorem scalar_str {text : Bytes} (h : ∀ b ∈ text, isSafe b = true) : Scalar (.str text) :=
  .str fun b hb => isPlain_of_isSafe (h b hb)

/-- The datagram of `discover` is an object with the members of a request. -/
theorem query_asciiString (hid : ∀ b ∈ id, isSafe b = true) :
    query (asciiString id) = (JsonText.Json.obj (requestMembers id)).render := by
  obtain ⟨-, -, -, hdiscover, -, htype, hversion, hrequest, -⟩ := literals
  have hname : ∀ f : Field, jsonText (asciiString f.name) = f.name := fun f =>
    Mobile.jsonText_asciiString fun b hb => isPlainAscii_of_isSafe (isSafe_name f b hb)
  rw [query, htype, hdiscover, hversion, hrequest, hname, hname, hname,
    Mobile.jsonText_asciiString fun b hb => isPlainAscii_of_isSafe (hid b hb),
    Mobile.jsonText_asciiString fun b hb => isPlainAscii_of_isSafe (isSafe_discover b hb)]
  rfl

/-- An offer is an object with the members of an offer. No member is left out: the fields with
`omitempty` are not empty in an offer. -/
theorem marshal_offer (hid : ∀ b ∈ id, isSafe b = true) (hservice : ∀ b ∈ serviceID, isSafe b = true)
    (hne : serviceID ≠ []) (hport : port ≠ 0) :
    Packet.marshal ⟨goString "lanroom.offer", 1, id, serviceID, port⟩ =
      (JsonText.Json.obj (offerMembers id serviceID port)).render := by
  simp only [Packet.marshal, if_neg hne, if_neg hport, Go.quoteText_of_safe isSafe_offer,
    Go.quoteText_of_safe hid, Go.quoteText_of_safe hservice]
  rfl

/-- The members of a request are read back. The three strings in it need no escapes. -/
theorem parse_requestMembers (hid : ∀ b ∈ id, isSafe b = true) :
    JsonText.parse (JsonText.Json.obj (requestMembers id)).render = some (.obj (requestMembers id)) := by
  have hnames : ∀ m ∈ requestMembers id, ∃ f : Field, m.1 = f.name := by
    intro m hm
    simp only [requestMembers, List.mem_cons, List.not_mem_nil, or_false] at hm
    rcases hm with rfl | rfl | rfl
    · exact ⟨.type, rfl⟩
    · exact ⟨.version, rfl⟩
    · exact ⟨.requestId, rfl⟩
  refine JsonText.parse_render (List.cons_ne_nil _ _) ?_ ?_
  · intro m hm b hb
    obtain ⟨f, hf⟩ := hnames m hm
    exact isPlain_of_isSafe (isSafe_name f b (hf ▸ hb))
  · intro m hm
    simp only [requestMembers, List.mem_cons, List.not_mem_nil, or_false] at hm
    rcases hm with rfl | rfl | rfl
    · exact scalar_str isSafe_discover
    · exact .num (Go.isNat_formatInt (by decide))
    · exact scalar_str hid

/-- The values of an offer are strings that need no escape and a number. -/
theorem scalar_offerValue (hid : ∀ b ∈ id, isSafe b = true)
    (hservice : ∀ b ∈ serviceID, isSafe b = true) (hport : 0 ≤ port) (f : Field) :
    Scalar (offerValue id serviceID port f) := by
  cases f with
  | type => exact scalar_str isSafe_offer
  | version => exact .num (Go.isNat_formatInt (by decide))
  | requestId => exact scalar_str hid
  | serviceId => exact scalar_str hservice
  | port => exact .num (Go.isNat_formatInt hport)

/-- The members of an offer are read back. Besides the strings there are two integers, which the
grammar reads back too. -/
theorem parse_offerMembers (hid : ∀ b ∈ id, isSafe b = true)
    (hservice : ∀ b ∈ serviceID, isSafe b = true) (hport : 0 ≤ port) :
    JsonText.parse (JsonText.Json.obj (offerMembers id serviceID port)).render =
      some (.obj (offerMembers id serviceID port)) := by
  refine JsonText.parse_render (List.cons_ne_nil _ _) ?_ ?_
  · intro m hm b hb
    obtain ⟨f, -, rfl⟩ := List.mem_map.mp hm
    exact isPlain_of_isSafe (isSafe_name f b hb)
  · intro m hm
    obtain ⟨f, -, rfl⟩ := List.mem_map.mp hm
    exact scalar_offerValue hid hservice hport f

/-- Reading such a string back changes nothing. With the fact that writing changes nothing it is the
round trip of a string. -/
theorem unquote_of_safe {text : Bytes} (h : ∀ b ∈ text, isSafe b = true) : unquote text = text :=
  Go.unquote_of_plain fun b hb => isPlainAscii_of_isSafe (h b hb)

/-- The server decodes a request. The fields that a request does not have keep their zero values. -/
theorem unmarshal_request (hid : ∀ b ∈ id, isSafe b = true) :
    unmarshal (JsonText.Json.obj (requestMembers id)).render =
      some { type := goString "lanroom.discover", version := 1, requestId := id } := by
  have hdiscover := unquote_of_safe isSafe_discover
  have hversion : parseInt (formatInt 1) = some 1 := Go.parseInt_formatInt (by decide) (by decide)
  rw [unmarshal, parse_requestMembers hid]
  simp only [requestMembers, List.foldlM_cons, List.foldlM_nil, Packet.read, field?_name, hdiscover,
    hversion, unquote_of_safe hid, Option.bind_eq_bind, Option.bind_some, Option.map_some,
    Option.pure_def]

/-- The datagram of a request is short. With an identifier of the permitted length it fits the
buffer of the responder. -/
theorem length_request (id : GoString) :
    (JsonText.Json.obj (requestMembers id)).render.length = id.length + 54 := by
  obtain ⟨-, -, -, -, -, -, -, -, -, -, h₁, h₂, h₃, h₄⟩ := literals
  have hone : (formatInt 1).length = 1 := by simp [formatInt, Go.formatNat]
  simp only [requestMembers, JsonText.Json.render, JsonText.renderMembers, List.length_cons,
    List.length_append, List.length_nil, h₁, h₂, h₃, h₄, hone]
  omega

/-- **The server answers a request** with its own id and port. What it checks is the kind, the
version and the form of the request id. -/
theorem reply_query (hid : ∀ b ∈ id, isSafe b = true) (hmin : 16 ≤ id.length) (hmax : id.length ≤ 64)
    (hchars : ∀ c ∈ runes id, isRequestChar c = true) :
    reply (query (asciiString id)) serviceID port =
      some (Packet.marshal ⟨goString "lanroom.offer", 1, id, serviceID, port⟩) := by
  have hlength := length_request id
  have hfields : ¬(goString "lanroom.discover" ≠ goString "lanroom.discover" ∨ (1 : ℤ) ≠ 1 ∨
      id.length < 16 ∨ 64 < id.length) := by
    simp only [ne_eq, not_true_eq_false, false_or]
    omega
  rw [query_asciiString hid, reply, if_neg (by omega), unmarshal_request hid]
  dsimp only
  rw [if_neg hfields, if_pos (List.all_eq_true.mpr hchars)]

/-- The member of a name, when there is one. Names that are repeated would make the last one count,
hence the hypothesis. -/
theorem get_of_mem {data : List (Bytes × JsonText.Json)} {key : DartString}
    {m : Bytes × JsonText.Json} (hm : m ∈ data) (hkey : dartString? m.1 = some key)
    (hunique : ∀ m' ∈ data, dartString? m'.1 = some key → m' = m) : Mobile.get data key = m.2 := by
  have hfind : (data.reverse.find? fun m => decide (dartString? m.1 = some key)) = some m := by
    cases hfound : data.reverse.find? fun m => decide (dartString? m.1 = some key) with
    | none =>
        have hno := List.find?_eq_none.mp hfound m (List.mem_reverse.mpr hm)
        exact absurd (decide_eq_true hkey) hno
    | some m' =>
        have hkey' : dartString? m'.1 = some key := by simpa using List.find?_some hfound
        rw [hunique m' (List.mem_reverse.mp (List.mem_of_find?_eq_some hfound)) hkey']
  rw [Mobile.get, hfind]
  rfl

/-- Two plain texts that are read alike are the same. The app compares strings of UTF-16 units, the
server strings of bytes; on these texts it is the same. -/
theorem asciiString_injective {s t : Bytes} (h : asciiString s = asciiString t)
    (hs : ∀ b ∈ s, isSafe b = true) (ht : ∀ b ∈ t, isSafe b = true) : s = t := by
  have hback := congrArg jsonText h
  rwa [Mobile.jsonText_asciiString fun b hb => isPlainAscii_of_isSafe (hs b hb),
    Mobile.jsonText_asciiString fun b hb => isPlainAscii_of_isSafe (ht b hb)] at hback

/-- The names of the fields, as the app reads them. They are ASCII without escapes, so each byte is
one code unit. -/
theorem dartString?_name (f : Field) : dartString? f.name = some (asciiString f.name) :=
  Mobile.dartString?_of_plain fun b hb => isPlainAscii_of_isSafe (isSafe_name f b hb)

/-- A field of an offer, as the app sees it. There is one case for each of the five members. -/
theorem get_offer (id serviceID : GoString) (port : ℤ) (f : Field) :
    Mobile.get (offerMembers id serviceID port) (asciiString f.name) =
      offerValue id serviceID port f := by
  have hinjective : ∀ g g' : Field, asciiString g.name = asciiString g'.name → g = g' := by
    intro g g' heq
    have hnames := asciiString_injective heq (isSafe_name g) (isSafe_name g')
    exact Option.some.inj ((field?_name g).symm.trans ((congrArg field? hnames).trans (field?_name g')))
  have hall : f ∈ Field.all := by cases f <;> decide
  refine get_of_mem (m := (f.name, offerValue id serviceID port f))
    (List.mem_map_of_mem (f := fun f => (Field.name f, offerValue id serviceID port f)) hall)
    (dartString?_name f) fun m hm hkey => ?_
  obtain ⟨g, -, rfl⟩ := List.mem_map.mp hm
  rw [dartString?_name] at hkey
  obtain rfl := hinjective g f (Option.some.inj hkey)
  rfl

/-- A byte that needs no escape is ASCII. The texts of the protocol are therefore valid UTF-8. -/
theorem ascii_of_isSafe {b : UInt8} (h : isSafe b = true) : b < 0x80 := by
  simp only [isSafe, Bool.and_eq_true, decide_eq_true_eq] at h
  exact h.1.2

/-- Decimal notation is safe. A port needs no quoting and no escape. -/
theorem isSafe_of_isDigit {b : UInt8} (h : JsonText.isDigit b = true) : isSafe b = true := by
  have hnot : b ∉ ([0x22, 0x26, 0x3C, 0x3E, 0x5C] : List UInt8) := by
    intro hmem
    simp only [List.mem_cons, List.not_mem_nil, or_false] at hmem
    rcases hmem with rfl | rfl | rfl | rfl | rfl <;> cases h
  simp only [JsonText.isDigit, Bool.and_eq_true, decide_eq_true_eq, UInt8.le_iff_toNat_le] at h
  have hlow : 0x20 ≤ b := UInt8.le_iff_toNat_le.mpr (by have := h.1; simp at this ⊢; omega)
  have hhigh : b < 0x80 := UInt8.lt_iff_toNat_lt.mpr (by have := h.2; simp at this ⊢; omega)
  simp [isSafe, hlow, hhigh, hnot]

/-- The digits of a natural number. There is no sign among them. -/
theorem isDigit_of_mem_formatInt {n : ℤ} (h : 0 ≤ n) {b : UInt8} (hb : b ∈ formatInt n) :
    JsonText.isDigit b = true := by
  rw [formatInt, if_neg (by omega)] at hb
  exact Go.isDigit_of_digit? (Go.mem_formatNat hb)

/-- An offer is ASCII. The app can decode the datagram as UTF-8 without an error. -/
theorem ascii_offer (hid : ∀ b ∈ id, isSafe b = true) (hservice : ∀ b ∈ serviceID, isSafe b = true)
    (hport : 0 ≤ port) :
    ∀ b ∈ (JsonText.Json.obj (offerMembers id serviceID port)).render, b < 0x80 := by
  -- a number is digits, as the port is not negative
  have hnumber : ∀ n : ℤ, 0 ≤ n → ∀ b ∈ formatInt n, b < 0x80 := fun n hn b hb =>
    ascii_of_isSafe (isSafe_of_isDigit (isDigit_of_mem_formatInt hn hb))
  -- the strings are hexadecimal and hyphens, which are written as they are
  have hstr : ∀ text : Bytes, (∀ b ∈ text, isSafe b = true) →
      ∀ b ∈ (JsonText.Json.str text).render, b < 0x80 := by
    intro text htext b hb
    simp only [JsonText.Json.render, List.mem_cons, List.mem_append, List.not_mem_nil, or_false] at hb
    rcases hb with rfl | hb | rfl
    · decide
    · exact ascii_of_isSafe (htext b hb)
    · decide
  refine JsonText.forall_mem_render (by decide +kernel) fun m hm => ?_
  obtain ⟨f, -, rfl⟩ := List.mem_map.mp hm
  refine ⟨fun b hb => ascii_of_isSafe (isSafe_name f b hb), ?_⟩
  cases f with
  | type => exact hstr (goString "lanroom.offer") isSafe_offer
  | version => exact hnumber 1 (by decide)
  | requestId => exact hstr id hid
  | serviceId => exact hstr serviceID hservice
  | port => exact hnumber port hport

/-- The app reads decimal notation back. Dart's integers have 64 bits here, and the bound is that of
the largest one. -/
theorem dartInt?_formatInt {n : ℤ} (h : 0 ≤ n) (hlt : n < 2 ^ 63) :
    dartInt? (formatInt n) = some n := by
  have hdigit : ∀ b ∈ formatInt n, b ∉ ([0x2E, 0x65, 0x45, 0x2D] : List UInt8) := by
    intro b hb hmem
    have hdigit := isDigit_of_mem_formatInt h hb
    simp only [List.mem_cons, List.not_mem_nil, or_false] at hmem
    rcases hmem with rfl | rfl | rfl | rfl <;> cases hdigit
  have hzero : formatInt n ≠ [0x2D, 0x30] := by
    intro heq
    have hmem : (0x2D : UInt8) ∈ formatInt n := by
      rw [heq]
      exact List.mem_cons_self
    exact hdigit 0x2D hmem (by decide)
  have hint : (formatInt n).all (fun b => b ∉ ([0x2E, 0x65, 0x45] : List UInt8)) = true :=
    List.all_eq_true.mpr fun b hb => decide_eq_true fun hmem => hdigit b hb (by simp at hmem ⊢; tauto)
  rw [dartInt?, hint, Bool.true_and, if_pos (bne_iff_ne.mpr hzero), Go.parseInt_formatInt h hlt]

/-- **The app reads an offer** under its own request id, and under no other. The address is the one
the datagram has come from and the port is the one in the offer. -/
theorem parse_offer (hid : ∀ b ∈ id, isSafe b = true) (hservice : ∀ b ∈ serviceID, isSafe b = true)
    (hmin : 1 ≤ port) (hmax : port ≤ 65535) (huuid : isServiceID (asciiString serviceID) = true)
    (sender : InternetAddress) (requestID : DartString) :
    FoundServer.parse (JsonText.Json.obj (offerMembers id serviceID port)).render sender requestID =
      if asciiString id = requestID then
        some ⟨asciiString serviceID, httpUri sender.address port⟩
      else none := by
  obtain ⟨-, -, -, -, hliteral, htype, hversion, hrequest, hserviceId, hportName, -⟩ := literals
  -- such a text reads as the same characters in Dart
  have hplain : ∀ text : Bytes, (∀ b ∈ text, isSafe b = true) →
      dartString? text = some (asciiString text) := fun text h =>
    Mobile.dartString?_of_plain fun b hb => isPlainAscii_of_isSafe (h b hb)
  have hoffer : equalsString (offerValue id serviceID port .type) "lanroom.offer".toList = true := by
    simp [equalsString, offerValue, hplain _ isSafe_offer, hliteral]
  have hone : equalsOne (offerValue id serviceID port .version) = true := by
    show equalsOne (.num (formatInt 1)) = true
    decide +kernel
  have hnumber := dartInt?_formatInt (n := port) (by omega) (by omega)
  unfold FoundServer.parse
  rw [Mobile.jsonDecode_of_ascii (ascii_offer hid hservice (by omega)),
    parse_offerMembers hid hservice (by omega), htype, hversion, hrequest, hserviceId, hportName]
  simp only [get_offer, hoffer, hone, Bool.true_and]
  -- the one comparison left is of the request's id
  by_cases heq : asciiString id = requestID
  · rw [if_pos heq, if_pos (by simp [equalsString, offerValue, hplain id hid, heq])]
    simp only [offerValue, hnumber, hplain serviceID hservice]
    rw [if_pos ⟨hmin, hmax, huuid⟩]
  · rw [if_neg heq, if_neg (by simp [equalsString, offerValue, hplain id hid, heq])]

/-! ## The identifiers -/

/-- Two hexadecimal digits of a byte. A leading zero is filled in, so that each byte takes two
digits. -/
theorem padLeft_toDigits {n : ℕ} (h : n < 256) :
    padLeft 2 '0' (Nat.toDigits 16 n) = [(n / 16).digitChar, (n % 16).digitChar] := by
  by_cases hn : n < 16
  · rw [Nat.toDigits_of_lt_base hn, Nat.div_eq_of_lt hn, Nat.mod_eq_of_lt hn]
    rfl
  · rw [Nat.toDigits_of_base_le (by decide) (Nat.not_lt.mp hn),
      Nat.toDigits_of_lt_base (by omega : n / 16 < 16)]
    rfl

/-- A request id is sixteen bytes in hexadecimal. A leading zero of a byte is kept, so the length
does not depend on what was drawn. -/
theorem randomID_eq (drawn : List UInt8) : randomID drawn = asciiString (hexEncode drawn) := by
  have hdigit : ∀ k < 16, Nat.digitChar k = Char.ofNat (Go.hexDigit (UInt8.ofNat k)).toNat := by
    decide
  induction drawn with
  | nil => rfl
  | cons b drawn ih =>
      have hlt := b.toNat_lt
      have hhigh : b / 16 = UInt8.ofNat (b.toNat / 16) := by
        rw [← UInt8.toNat_inj, UInt8.toNat_div]
        simp
        omega
      have hlow : b % 16 = UInt8.ofNat (b.toNat % 16) := by
        rw [← UInt8.toNat_inj, UInt8.toNat_mod]
        simp
        omega
      show padLeft 2 '0' (Nat.toDigits 16 b.toNat) ++ randomID drawn =
        asciiString (Go.hexDigit (b / 16) :: Go.hexDigit (b % 16) :: hexEncode drawn)
      rw [padLeft_toDigits hlt, hdigit _ (by omega), hdigit _ (Nat.mod_lt _ (by decide)), ih, hhigh, hlow]
      rfl

/-- Its characters are allowed. The server answers to such an identifier and to longer ones up to
its limit. -/
theorem isRequestChar_of_hexEncode {s : Bytes} {c : Char} (h : c ∈ runes (hexEncode s)) :
    isRequestChar c = true := by
  have hall : ∀ k < 16, isRequestChar (Char.ofNat (Go.hexDigit (UInt8.ofNat k)).toNat) = true := by
    decide
  rw [Go.runes_of_ascii fun b hb => ascii_of_isSafe (isSafe_of_mem_hexEncode hb)] at h
  obtain ⟨b, hb, rfl⟩ := List.mem_map.mp h
  obtain ⟨k, hk, rfl⟩ := Go.mem_hexEncode hb
  exact hall k hk

/-- The bytes of a canonical UUID. They are hexadecimal digits and hyphens. -/
theorem mem_uuidString {x : UUID} {b : UInt8} (h : b ∈ uuidString x) :
    b = Go.hyphen ∨ b ∈ hexEncode x.toList := by
  have htake : ∀ n m, ∀ b ∈ ((hexEncode x.toList).drop n).take m, b ∈ hexEncode x.toList :=
    fun n m b hb => List.mem_of_mem_drop (List.mem_of_mem_take hb)
  simp only [uuidString, List.mem_append, List.mem_cons] at h
  rcases h with h | rfl | h | rfl | h | rfl | h | rfl | h
  · exact .inr (List.mem_of_mem_take h)
  · exact .inl rfl
  · exact .inr (htake _ _ _ h)
  · exact .inl rfl
  · exact .inr (htake _ _ _ h)
  · exact .inl rfl
  · exact .inr (htake _ _ _ h)
  · exact .inl rfl
  · exact .inr (List.mem_of_mem_drop h)

/-- A UUID is written in hexadecimal digits and hyphens. A service identity is written into the
offer as it stands. -/
theorem isSafe_uuidString (x : UUID) : ∀ b ∈ uuidString x, isSafe b = true := by
  intro b hb
  rcases mem_uuidString hb with rfl | hb
  · decide
  · exact isSafe_of_mem_hexEncode hb

/-- **A canonical UUID matches the regular expression** of the app. So the identity that the server
has stored is one that the app accepts. -/
theorem isServiceID_uuidString (x : UUID) : isServiceID (asciiString (uuidString x)) = true := by
  -- the hexadecimal digits Go writes are digits to the app
  have hall : ∀ k < 16, Mobile.isHexDigit (Char.ofNat (Go.hexDigit (UInt8.ofNat k)).toNat) = true := by
    decide
  have hlen : (hexEncode x.toList).length = 32 := by
    rw [Go.length_hexEncode, Vector.length_toList]
  have hhex : ∀ s : Bytes, (∀ b ∈ s, b ∈ hexEncode x.toList) →
      (asciiString s).all Mobile.isHexDigit = true := by
    intro s hs
    refine List.all_eq_true.mpr fun c hc => ?_
    obtain ⟨b, hb, rfl⟩ := List.mem_map.mp hc
    obtain ⟨k, hk, rfl⟩ := Go.mem_hexEncode (hs b hb)
    exact hall k hk
  let h := hexEncode x.toList
  let parts : List Bytes :=
    [h.take 8, (h.drop 8).take 4, (h.drop 12).take 4, (h.drop 16).take 4, h.drop 20]
  have hparts : ∀ part ∈ parts, (asciiString part).all Mobile.isHexDigit = true := by
    intro part hpart
    simp only [parts, List.mem_cons, List.not_mem_nil, or_false] at hpart
    rcases hpart with rfl | rfl | rfl | rfl | rfl
    · exact hhex _ fun b hb => List.mem_of_mem_take hb
    · exact hhex _ fun b hb => List.mem_of_mem_drop (List.mem_of_mem_take hb)
    · exact hhex _ fun b hb => List.mem_of_mem_drop (List.mem_of_mem_take hb)
    · exact hhex _ fun b hb => List.mem_of_mem_drop (List.mem_of_mem_take hb)
    · exact hhex _ fun b hb => List.mem_of_mem_drop hb
  -- the five groups between hyphens are those the pattern of the app asks for
  have hjoin : asciiString (uuidString x) = ['-'].intercalate (parts.map asciiString) := by
    simp [parts, h, uuidString, asciiString, List.intercalate, List.intersperse]
    rfl
  have hsplit : (asciiString (uuidString x)).splitOn '-' = parts.map asciiString := by
    rw [hjoin]
    refine List.splitOn_intercalate '-' ?_ (by simp [parts])
    intro l hl hmem
    obtain ⟨part, hpart, rfl⟩ := List.mem_map.mp hl
    exact absurd (List.all_eq_true.mp (hparts part hpart) _ hmem) (by decide)
  have hlengths : (parts.map asciiString).map List.length = [8, 4, 4, 4, 12] := by
    simp [parts, h, asciiString, hlen]
  have hdigits : (parts.map asciiString).all (fun part => part.all Mobile.isHexDigit) = true := by
    refine List.all_eq_true.mpr fun l hl => ?_
    obtain ⟨part, hpart, rfl⟩ := List.mem_map.mp hl
    exact hparts part hpart
  unfold isServiceID
  rw [hsplit]
  simp only [parts, List.map_cons, List.map_nil] at hlengths hdigits ⊢
  simp only [List.cons.injEq, and_true] at hlengths
  obtain ⟨h₁, h₂, h₃, h₄, h₅⟩ := hlengths
  simp only [h₁, h₂, h₃, h₄, h₅, decide_true, Bool.true_and]
  exact hdigits

/-! ## The exchange -/

/-- **The discovery agrees across Go and Dart.** The server answers the datagram of every request id
that the app draws; the app reads from the answer the service id and the address of the sender with the
port, and nothing when it has another request id. Whatever is answered to is a request. -/
theorem discovery_agreement :
    (∀ (drawn : Vector UInt8 16) (x : UUID) (port : ℤ) (sender : InternetAddress), 1 ≤ port →
      port ≤ 65535 → ∃ answer,
        reply (query (randomID drawn.toList)) (uuidString x) port = some answer ∧
        FoundServer.parse answer sender (randomID drawn.toList) =
          some ⟨asciiString (uuidString x), httpUri sender.address port⟩ ∧
        ∀ other, other ≠ randomID drawn.toList → FoundServer.parse answer sender other = none) ∧
    ∀ data serviceID port, ¬IsRequest data → reply data serviceID port = none := by
  constructor
  · -- a query of the app is answered, and the answer is accepted for this query only
    intro drawn x port sender hmin hmax
    have hid : ∀ b ∈ hexEncode drawn.toList, isSafe b = true := fun b hb =>
      isSafe_of_mem_hexEncode hb
    have hlength : (hexEncode drawn.toList).length = 32 := by
      rw [Go.length_hexEncode, Vector.length_toList]
    have hne : uuidString x ≠ [] := by
      rw [← List.length_pos_iff, Go.length_uuidString]
      decide
    have hread := parse_offer hid (isSafe_uuidString x) hmin hmax (isServiceID_uuidString x) sender
    rw [randomID_eq]
    refine ⟨_, reply_query hid (by omega) (by omega) fun c hc => isRequestChar_of_hexEncode hc, ?_, ?_⟩
    · rw [marshal_offer hid (isSafe_uuidString x) hne (by omega), hread, if_pos rfl]
    · intro other hother
      rw [marshal_offer hid (isSafe_uuidString x) hne (by omega), hread, if_neg (Ne.symm hother)]
  · -- a datagram that is no request is not answered
    intro data serviceID port hno
    cases hreply : reply data serviceID port with
    | none => rfl
    | some answer => exact absurd (isRequest_of_reply hreply) hno

namespace Sample

/-- An object without a member `type`. -/
def shouted : Bytes :=
  goString "\x7b\"TYPE\":\"lanroom.discover\",\"version\":1,\"requestId\":\"0123456789abcdef\"\x7d"

end Sample

/-- A query and its offer, for one service at one address. The address is that of a host in a
private network, and the port is the default one. -/
theorem discovery_agreement_sample : ∃ answer,
    reply (query (randomID (List.replicate 16 0xA5))) (uuidString (Vector.replicate 16 7)) 8787 =
      some answer ∧
    FoundServer.parse answer ⟨#v[192, 168, 1, 20]⟩ (randomID (List.replicate 16 0xA5)) =
      some ⟨asciiString (uuidString (Vector.replicate 16 7)),
        httpUri (InternetAddress.address ⟨#v[192, 168, 1, 20]⟩) 8787⟩ := by
  obtain ⟨answer, hreply, hparse, -⟩ := discovery_agreement.1 (Vector.replicate 16 0xA5)
    (Vector.replicate 16 7) 8787 ⟨#v[192, 168, 1, 20]⟩ (by decide) (by decide)
  exact ⟨answer, hreply, hparse⟩

/-- The names of the members, when the text is an object. -/
def memberNames (data : Bytes) : List GoString :=
  match JsonText.parse data with
  | some (.obj ms) => ms.map fun m => unquote m.1
  | _ => []

/-- The server takes `TYPE` for `type`. So not every answered datagram has the members under their
exact names. -/
theorem reply_shouted :
    memberNames Sample.shouted =
      [goString "TYPE", goString "version", goString "requestId"] ∧
    reply Sample.shouted (goString "server") 8787 ≠ none := by
  decide +kernel

end LanRoom.Discovery
