import LanRoom.Chat.Wire
import LanRoom.Web.Devices

/-! # The frames of the hub on the page

`ws.onmessage` of `web/static/app.js` reads every frame as the hub has meant it (`onmessage_marshal`).
Bytes that are no UTF-8 have become the replacement character on the way. -/

namespace LanRoom.Web

open JsonText (Json)
open LanRoom.Go (Fields runes characters Spells quoteText spells_quoteText stringJson intJson
  structJson structMembers mem_structMembers isPlainAscii foldName)

/-! ## `JSON.parse` -/

/-- The string that a text stands for; `none` when it has a lone surrogate. -/
def jsString? (text : Bytes) : Option Text :=
  if (characters text).all Option.isSome then some ((characters text).filterMap id) else none

/-- `v.key`: the last member counts; `none` is `undefined`. -/
def property (v : Json) (key : Text) : Option Json :=
  match v with
  | .obj ms => (ms.reverse.find? fun m => decide (jsString? m.1 = some key)).map (·.2)
  | _ => none

/-- A string, or `""` in place of `undefined`. -/
def stringOf : Option Json → Text
  | some (.str text) => (jsString? text).getD []
  | _ => []

/-- The value of an integer in decimal notation; the hub writes no other numbers. -/
def integer? : Bytes → Option ℤ
  | [] => none
  | b :: digits =>
      if b = 0x2D then (Go.parseDigits digits).map fun n : ℕ => -(n : ℤ)
      else (Go.parseDigits (b :: digits)).map fun n : ℕ => (n : ℤ)

/-- An integer, or 0 in place of `undefined`. It is rounded where it is used. -/
def integerOf : Option Json → ℤ
  | some (.num text) => (integer? text).getD 0
  | _ => 0

/-- `v || []`. -/
def itemsOf : Option Json → List Json
  | some (.arr vs) => vs
  | _ => []

/-- `v === s`, for a string `s`. -/
def isString (v : Option Json) (s : Text) : Bool :=
  match v with
  | some (.str text) => jsString? text = some s
  | _ => false

/-! ## Frames -/

def readDevice (v : Json) : Device where
  id := stringOf (property v "id".toList)
  name := stringOf (property v "name".toList)
  platform := stringOf (property v "platform".toList)

def readUser (v : Json) : User where
  id := stringOf (property v "id".toList)
  name := stringOf (property v "name".toList)
  ip := stringOf (property v "ip".toList)
  platform := stringOf (property v "platform".toList)

def readMeta (v : Json) : FileMeta where
  name := stringOf (property v "name".toList)
  size := integerOf (property v "size".toList)

def readPayload (v : Json) : MessagePayload where
  kind := stringOf (property v "kind".toList)
  content := stringOf (property v "content".toList)
  fileId := stringOf (property v "fileId".toList)
  meta? := (property v "meta".toList).map readMeta

def readMessage (v : Json) : ChatMessage where
  sender := (property v "from".toList).map readDevice
  toIDs := (itemsOf (property v "to".toList)).map fun id => stringOf (some id)
  recipients := (itemsOf (property v "recipients".toList)).map readDevice
  payload := readPayload ((property v "payload".toList).getD (.obj []))
  timestamp := integerOf (property v "timestamp".toList)

/-- What a frame makes the page do. -/
inductive PageFrame
  | presence (users : List User)
  | welcome (device : Option User)
  | history (messages : List ChatMessage)
  | message (m : ChatMessage)

/-- `ws.onmessage`; `none` when the frame is ignored. -/
def onmessage (data : Bytes) : Option PageFrame :=
  match JsonText.parse data with
  | none => none
  | some v =>
      if isString (property v "type".toList) "presence".toList then
        some (.presence ((itemsOf (property v "users".toList)).map readUser))
      else if isString (property v "type".toList) "welcome".toList then
        some (.welcome ((property v "device".toList).map readUser))
      else if isString (property v "type".toList) "history".toList then
        some (.history ((itemsOf (property v "messages".toList)).map readMessage))
      else if isString (property v "type".toList) "message".toList then some (.message (readMessage v))
      else none

/-! ## What the hub means -/

def viewDevice (d : Chat.Device) : Device := ⟨runes d.id, runes d.name, runes d.platform⟩

def viewUser (d : Chat.Device) : User := ⟨runes d.id, runes d.name, runes d.ip, runes d.platform⟩

def viewMeta (m : Chat.FileMeta) : FileMeta := ⟨runes m.name, m.size⟩

def viewPayload (p : Chat.MessagePayload) : MessagePayload where
  kind := runes p.kind
  content := runes p.content
  fileId := runes p.fileID
  meta? := p.fileMeta.map viewMeta

def viewMessage (m : Chat.ChatMessage) : ChatMessage where
  sender := m.sender.map viewDevice
  toIDs := m.toIDs.map runes
  recipients := m.recipients.map viewDevice
  payload := viewPayload m.payload
  timestamp := m.timestamp

def viewFrame : Chat.Frame → PageFrame
  | .welcome device => .welcome (viewUser device)
  | .history messages => .history (messages.map fun e => viewMessage e.msg)
  | .presence _ users => .presence (users.map viewUser)
  | .message e => .message (viewMessage e.msg)

/-! ## Reading what `Marshal` writes -/

variable {F : Type} {fs : Fields F} {value : F → Option Json} {f : F}

/-- A spelled string whose escapes stand for characters is read as these characters. -/
theorem jsString?_of_spells {text : Bytes} {cs : Text} (h : Spells text (cs.map some)) :
    jsString? text = some cs := by
  unfold jsString?
  rw [h.characters_eq, if_pos (by simp), List.filterMap_map]
  simp

/-- The page reads a string of the server as its runes. Both sides mean the same characters, with
the replacement character for bytes that are not valid. -/
theorem stringOf_stringJson (s : GoString) : stringOf (some (stringJson s)) = runes s := by
  show (jsString? (quoteText s)).getD [] = runes s
  rw [jsString?_of_spells (spells_quoteText s)]
  rfl

/-- An empty string that is left out is read as one. The page takes a missing string for the empty
one. -/
theorem stringOf_omitEmpty (s : GoString) :
    stringOf (Go.omitEmpty s.isEmpty (stringJson s)) = runes s := by
  cases s with
  | nil => rfl
  | cons b s => exact stringOf_stringJson (b :: s)

/-- An integer that is written in digits is read back. There is a case for the sign and one without
it. -/
theorem integer?_formatInt (n : ℤ) : integer? (Go.formatInt n) = some n := by
  unfold Go.formatInt
  by_cases h : n < 0
  · have hneg : -(n.natAbs : ℤ) = n := by omega
    rw [if_pos h, integer?, if_pos rfl, Go.parseDigits_formatNat, Option.map_some, hneg]
  · rw [if_neg h]
    have hdigits := Go.parseDigits_formatNat n.natAbs
    have hdigit := fun b => Go.mem_formatNat (n := n.natAbs) (b := b)
    cases hs : Go.formatNat n.natAbs with
    | nil => exact absurd hs (Go.formatNat_ne_nil _)
    | cons b digits =>
      rw [hs] at hdigits hdigit
      have hsign : b ≠ 0x2D := by
        rintro rfl
        exact absurd (hdigit _ List.mem_cons_self) (by decide)
      have habs : (n.natAbs : ℤ) = n := by omega
      rw [integer?, if_neg hsign, hdigits, Option.map_some, habs]

/-- The page reads an integer of the server. The digits and the sign give the integer again. -/
theorem integerOf_intJson (n : ℤ) : integerOf (some (intJson n)) = n := by
  show (integer? (Go.formatInt n)).getD 0 = n
  rw [integer?_formatInt]
  rfl

/-- A member that is left out for zero is read as zero. The page takes a missing number for zero. -/
theorem integerOf_omitEmpty (n : ℤ) : integerOf (Go.omitEmpty (n == 0) (intJson n)) = n := by
  by_cases h : n = 0
  · subst h
    rfl
  · have hne : (n == 0) = false := by simpa using h
    rw [hne]
    exact integerOf_intJson n

/-- The name of a field. It is plain ASCII, so the page sees the same characters. -/
theorem jsString?_name (hf : f ∈ fs.all) : jsString? (fs.name f) = some (runes (fs.name f)) := by
  have hplain := fs.plain f hf
  have hascii : ∀ b ∈ fs.name f, b < 0x80 := by
    intro b hb
    have h := hplain b hb
    simp only [isPlainAscii, Bool.and_eq_true, decide_eq_true_eq] at h
    exact h.2
  unfold jsString?
  rw [Go.characters_of_plain hplain, Go.runes_of_ascii hascii, if_pos (by simp), List.filterMap_map]
  simp

/-- Two fields have two names. A property is thus found by its name alone. -/
theorem eq_of_runes_name {g : F} (hf : f ∈ fs.all) (hg : g ∈ fs.all)
    (h : runes (fs.name f) = runes (fs.name g)) : f = g := by
  have hunquote : ∀ f ∈ fs.all, Go.unquote (fs.name f) = fs.name f := by
    intro f hf
    exact Go.unquote_of_plain (fs.plain f hf)
  have hfold : foldName (fs.name f) = foldName (fs.name g) := by
    unfold foldName
    rw [hunquote f hf, hunquote g hg, h]
  exact List.inj_on_of_nodup_map fs.distinct hf hg hfold

/-- **A property of a struct** is the value of its field. It is undefined when the field was left
out. -/
theorem property_structJson (hf : f ∈ fs.all) :
    property (structJson fs value) (runes (fs.name f)) = value f := by
  have hname : ∀ m ∈ structMembers fs value, jsString? m.1 = some (runes (fs.name f)) →
      value f = some m.2 := by
    intro m hm hkey
    obtain ⟨g, hg, v, hv, rfl⟩ := mem_structMembers.mp hm
    rw [jsString?_name hg] at hkey
    rw [eq_of_runes_name hf hg (Option.some.inj hkey).symm, hv]
  show ((structMembers fs value).reverse.find?
    fun m => decide (jsString? m.1 = some (runes (fs.name f)))).map (·.2) = value f
  cases hfind : (structMembers fs value).reverse.find?
      fun m => decide (jsString? m.1 = some (runes (fs.name f))) with
  | some m =>
    have hkey : jsString? m.1 = some (runes (fs.name f)) := by simpa using List.find?_some hfind
    exact (hname m (List.mem_reverse.mp (List.mem_of_find?_eq_some hfind)) hkey).symm
  | none =>
    cases hv : value f with
    | none => rfl
    | some v =>
      have hm : (fs.name f, v) ∈ structMembers fs value := mem_structMembers.mpr ⟨f, hf, v, hv, rfl⟩
      have hno := List.find?_eq_none.mp hfind (fs.name f, v) (List.mem_reverse.mpr hm)
      simp [jsString?_name hf] at hno

/-- The names of the members, as the page writes them. They are compared by evaluation, once for all
that follows. -/
theorem names_eq :
    runes (goString "id") = "id".toList ∧ runes (goString "name") = "name".toList ∧
    runes (goString "platform") = "platform".toList ∧ runes (goString "ip") = "ip".toList ∧
    runes (goString "size") = "size".toList ∧ runes (goString "kind") = "kind".toList ∧
    runes (goString "content") = "content".toList ∧ runes (goString "fileId") = "fileId".toList ∧
    runes (goString "meta") = "meta".toList ∧ runes (goString "type") = "type".toList ∧
    runes (goString "from") = "from".toList ∧ runes (goString "to") = "to".toList ∧
    runes (goString "recipients") = "recipients".toList ∧
    runes (goString "payload") = "payload".toList ∧
    runes (goString "timestamp") = "timestamp".toList ∧
    runes (goString "device") = "device".toList ∧ runes (goString "messages") = "messages".toList ∧
    runes (goString "users") = "users".toList := by
  decide +kernel

/-! ## Reading what the hub means -/

/-- A member by the name that the page writes. It is the form in which the readers below use it. -/
theorem property_eq (hf : f ∈ fs.all) {key : Text} (hkey : runes (fs.name f) = key) :
    property (structJson fs value) key = value f := by
  rw [← hkey]
  exact property_structJson hf

/-- The page reads a device as it was meant. There is one fact for each property. -/
theorem readDevice_json (d : Chat.Device) : readDevice d.json = viewDevice d := by
  obtain ⟨hid, hname, hplatform, -⟩ := names_eq
  unfold readDevice Chat.Device.json
  rw [property_eq (f := .id) (by decide) hid, property_eq (f := .name) (by decide) hname,
    property_eq (f := .platform) (by decide) hplatform, stringOf_stringJson, stringOf_stringJson,
    stringOf_stringJson]
  rfl

/-- The page reads an entry of the list of devices as it was meant. -/
theorem readUser_json (d : Chat.Device) : readUser d.json = viewUser d := by
  obtain ⟨hid, hname, hplatform, hip, -⟩ := names_eq
  unfold readUser Chat.Device.json
  rw [property_eq (f := .id) (by decide) hid, property_eq (f := .name) (by decide) hname,
    property_eq (f := .ip) (by decide) hip, property_eq (f := .platform) (by decide) hplatform,
    stringOf_stringJson, stringOf_stringJson, stringOf_stringJson, stringOf_stringJson]
  rfl

/-- The page reads the metadata of a file as they were meant. -/
theorem readMeta_json (m : Chat.FileMeta) : readMeta m.json = viewMeta m := by
  obtain ⟨-, hname, -, -, hsize, -⟩ := names_eq
  unfold readMeta Chat.FileMeta.json
  rw [property_eq (f := .name) (by decide) hname, property_eq (f := .size) (by decide) hsize,
    stringOf_stringJson, integerOf_intJson]
  rfl

/-- The page reads a payload as it was meant. What was left out is read as what it stands for. -/
theorem readPayload_json (p : Chat.MessagePayload) : readPayload p.json = viewPayload p := by
  obtain ⟨-, -, -, -, -, hkind, hcontent, hfileId, hmeta, -⟩ := names_eq
  unfold readPayload Chat.MessagePayload.json
  rw [property_eq (f := .kind) (by decide) hkind, property_eq (f := .content) (by decide) hcontent,
    property_eq (f := .fileId) (by decide) hfileId, property_eq (f := .fileMeta) (by decide) hmeta,
    stringOf_stringJson, stringOf_omitEmpty, stringOf_omitEmpty]
  unfold viewPayload
  cases p.fileMeta with
  | none => rfl
  | some m => rw [Option.map_some, Option.map_some, Option.map_some, readMeta_json]

/-- A list that is left out when it is empty. The page takes a missing list for an empty one. -/
theorem itemsOf_omitEmpty (vs : List Json) : itemsOf (Go.omitEmpty vs.isEmpty (.arr vs)) = vs := by
  cases vs with
  | nil => rfl
  | cons v vs => rfl

/-- The page reads a message as it was meant. Its sender, its recipients and its payload are read by
the facts above. -/
theorem readMessage_json (m : Chat.ChatMessage) : readMessage m.json = viewMessage m := by
  obtain ⟨-, -, -, -, -, -, -, -, -, -, hfrom, hto, hrecipients, hpayload, htimestamp, -⟩ := names_eq
  unfold readMessage Chat.ChatMessage.json
  rw [property_eq (f := .sender) (by decide) hfrom, property_eq (f := .toIDs) (by decide) hto,
    property_eq (f := .recipients) (by decide) hrecipients,
    property_eq (f := .payload) (by decide) hpayload,
    property_eq (f := .timestamp) (by decide) htimestamp]
  have hids : (itemsOf (Go.omitEmpty m.toIDs.isEmpty (.arr (m.toIDs.map stringJson)))).map
      (fun id => stringOf (some id)) = m.toIDs.map runes := by
    rw [← List.isEmpty_map, itemsOf_omitEmpty, List.map_map]
    exact List.map_congr_left fun id _ => stringOf_stringJson id
  have hnames : (itemsOf (Go.omitEmpty m.recipients.isEmpty
      (.arr (m.recipients.map Chat.Device.json)))).map readDevice = m.recipients.map viewDevice := by
    rw [← List.isEmpty_map, itemsOf_omitEmpty, List.map_map]
    exact List.map_congr_left fun d _ => readDevice_json d
  have hsender : (m.sender.map Chat.Device.json).map readDevice = m.sender.map viewDevice := by
    rw [Option.map_map]
    exact Option.map_congr fun d _ => readDevice_json d
  rw [hids, hnames, hsender, integerOf_omitEmpty, Option.getD_some, readPayload_json]
  rfl

/-- The `type` of what is written. The page compares it with a literal. -/
theorem isString_stringJson (s : GoString) (t : Text) :
    isString (some (stringJson s)) t = decide (runes s = t) := by
  show decide (jsString? (quoteText s) = some t) = _
  rw [jsString?_of_spells (spells_quoteText s)]
  exact decide_eq_decide.mpr Option.some_inj

/-- The values of `type`, as the page writes them. They are compared by evaluation. -/
theorem types_eq :
    runes (goString "presence") = "presence".toList ∧ runes (goString "welcome") = "welcome".toList ∧
    runes (goString "history") = "history".toList ∧ runes (goString "message") = "message".toList := by
  decide +kernel

/-- The `type` of a frame that is no chat message. The tests of `onmessage` are decided by it. -/
theorem isString_frameJson {type : GoString} {field : Chat.FrameField} {v : Json} {t : Text}
    (ht : runes type = t) (t' : Text) :
    isString (property (Chat.frameJson type field v) "type".toList) t' = decide (t = t') := by
  obtain ⟨-, -, -, -, -, -, -, -, -, htype, -⟩ := names_eq
  unfold Chat.frameJson
  rw [property_eq (f := .type) (by decide) htype, if_pos rfl, isString_stringJson, ht]

/-- Its other member. It carries the content of the frame. -/
theorem property_frameJson {type : GoString} {g : Chat.FrameField} {v : Json} {key : Text}
    (hg : g ≠ .type) (hkey : runes g.key = key) : property (Chat.frameJson type g v) key = some v := by
  have hmem : g ∈ Chat.frameFields.all := by
    cases g
    all_goals decide
  unfold Chat.frameJson
  rw [property_eq hmem hkey, if_neg hg, if_pos rfl]

/-- A list of structs. Each element is read by itself. -/
theorem itemsOf_map {α β : Type} {write : α → Json} {read : Json → β} {view : α → β}
    (h : ∀ x, read (write x) = view x) (xs : List α) :
    (itemsOf (some (.arr (xs.map write)))).map read = xs.map view := by
  show (xs.map write).map read = xs.map view
  rw [List.map_map]
  exact List.map_congr_left fun x _ => h x

/-- **The page reads a frame** as the hub means it. The hypothesis says that a message frame bears
the `type` by which the page knows it. -/
theorem onmessage_of_typed (f : Chat.Frame)
    (htyped : ∀ e, f = .message e → e.msg.type = goString "message") :
    onmessage f.marshal = some (viewFrame f) := by
  obtain ⟨-, -, -, -, -, -, -, -, -, htype, -, -, -, -, -, hdevice, hmessages, husers⟩ := names_eq
  obtain ⟨hpresence, hwelcome, hhistory, hmessage⟩ := types_eq
  unfold onmessage
  rw [Chat.parse_marshal]
  dsimp only
  cases f with
  | welcome device =>
    unfold Chat.Frame.json
    rw [isString_frameJson hwelcome, isString_frameJson hwelcome, if_neg (by decide),
      if_pos (by decide), property_frameJson (g := .device) nofun hdevice, Option.map_some,
      readUser_json]
    rfl
  | history messages =>
    unfold Chat.Frame.json
    rw [isString_frameJson hhistory, isString_frameJson hhistory, isString_frameJson hhistory,
      if_neg (by decide), if_neg (by decide), if_pos (by decide),
      property_frameJson (g := .messages) nofun hmessages,
      itemsOf_map fun e : Chat.Entry => readMessage_json e.msg]
    rfl
  | presence seq users =>
    unfold Chat.Frame.json
    rw [isString_frameJson hpresence, if_pos (by decide),
      property_frameJson (g := .users) nofun husers, itemsOf_map readUser_json]
    rfl
  | message e =>
    have hstring : ∀ t, isString (property e.msg.json "type".toList) t = decide ("message".toList = t) := by
      intro t
      unfold Chat.ChatMessage.json
      rw [property_eq (f := .type) (by decide) htype, isString_stringJson, htyped e rfl, hmessage]
    unfold Chat.Frame.json
    rw [hstring, hstring, hstring, hstring, if_neg (by decide), if_neg (by decide), if_neg (by decide),
      if_pos (by decide), readMessage_json]
    rfl

end LanRoom.Web
