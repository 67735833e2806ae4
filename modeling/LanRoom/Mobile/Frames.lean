import LanRoom.Chat.Traffic
import LanRoom.Mobile.Json
import LanRoom.Web.Frames
import LanRoom.Web.Sending

/-! # The frames of the hub in the app

`LanClient.send` of `mobile/lib/client.dart`, the listener in `Room._open` of `mobile/lib/room.dart`, and
what `mobile/lib/main.dart` shows of the devices and messages. The app keeps the maps that it gets and
looks into them when it shows them. -/

namespace LanRoom.Mobile

open LanRoom.Go (Fields Spells intJson runes stringJson structJson structMembers omitEmpty)

/-! ## Sending -/

/-- `LanClient.send`, on an open socket. `jsonEncode` escapes strings as `JSON.stringify` does. -/
def send (payload : Web.Payload) (recipients : List Web.JSString) : Bytes :=
  (JsonText.Json.obj [(goString "type", Web.stringJSON (Web.literal "message")),
    (goString "to", Web.recipientsJSON recipients),
    (goString "payload", payload.json fun n => intJson n)]).render

/-- The payload of `text`. -/
def textPayload (value : Web.JSString) : Web.Payload where
  kind := Web.literal "text"
  content := some value

/-- The payload of `resumeUpload`. -/
def filePayload (fileId : Web.JSString) (file : Web.SentMeta) : Web.Payload where
  kind := Web.literal "file"
  fileId := some fileId
  fileMeta := some file

/-- **The hub reads what the app sends.** The payload and the recipients arrive as they were chosen,
up to unpaired surrogates. -/
theorem readIncoming_send (payload : Web.Payload) (hsize : ∀ m ∈ payload.fileMeta, m.size < 2 ^ 63)
    (recipients : List Web.JSString) :
    Chat.readIncoming (send payload recipients) = some (Web.incoming payload recipients) := by
  have hexact : payload.Exact fun n => intJson n := fun m hm => ⟨rfl, hsize m hm⟩
  refine Web.Members.readIncoming (?_ : Web.Members (fun n => intJson n) _ _ _) hexact
  refine ⟨?_, ?_⟩
  · intro m hm
    simp only [List.mem_cons, List.not_mem_nil, or_false] at hm
    exact hm.symm
  · intro m hpayload htoIDs
    rw [Go.decodeStruct_cons (by decide) (by rfl : _ = goString "to")
        (Web.decodeMessageField_toIDs m htoIDs recipients),
      Go.decodeStruct_cons (by decide) (by rfl : _ = goString "payload")
        (Web.decodeMessageField_payload { m with toIDs := Web.arrivedSlice recipients } hpayload payload
          hexact), Go.decodeStruct_nil]

/-! ## The listener -/

/-- A map. -/
abbrev JsonMap := List (Bytes × JsonText.Json)

/-- `v as Map`; `none` when it throws. -/
def asMap : JsonText.Json → Option JsonMap
  | .obj ms => some ms
  | _ => none

/-- `v as Map?`. -/
def asMap? : JsonText.Json → Option (Option JsonMap)
  | .obj ms => some (some ms)
  | .null => some none
  | _ => none

/-- `v as String?`. The hub writes no surrogate without its partner. -/
def asString? : JsonText.Json → Option (Option DartString)
  | .str text => (dartString? text).map some
  | .null => some none
  | _ => none

/-- `v as List`. -/
def asList : JsonText.Json → Option (List JsonText.Json)
  | .arr vs => some vs
  | _ => none

/-- `v as List? ?? []`. -/
def asItems : JsonText.Json → Option (List JsonText.Json)
  | .arr vs => some vs
  | .null => some []
  | _ => none

/-- `map?[key]`. -/
def member (map? : Option JsonMap) (key : DartString) : JsonText.Json :=
  map?.elim .null fun ms => get ms key

/-- What a frame makes the room do. -/
inductive RoomFrame
  | welcome (ownID : Option DartString)
  | presence (devices : List JsonMap)
  | history (messages : List JsonMap)
  | message (message : JsonMap)

/-- The listener of a socket; `none` when it ignores the frame. -/
def listen (raw : Bytes) : Option RoomFrame :=
  (jsonDecode raw).bind fun data => (asMap data).bind fun message =>
    if equalsString (get message "type".toList) "welcome".toList then
      (asMap (get message "device".toList)).bind fun device =>
        (asString? (get device "id".toList)).map .welcome
    else if equalsString (get message "type".toList) "presence".toList then
      (asList (get message "users".toList)).bind fun users => (users.mapM asMap).map .presence
    else if equalsString (get message "type".toList) "history".toList then
      (asList (get message "messages".toList)).bind fun messages => (messages.mapM asMap).map .history
    else if equalsString (get message "type".toList) "message".toList then some (.message message)
    else none

/-! ## What is shown -/

/-- The chip of a device. -/
structure Chip where
  id : DartString
  label : DartString
  smartphone : Bool
  deriving DecidableEq

/-- `v == id`. -/
def equalsID (v : JsonText.Json) : Option DartString → Bool
  | some id => equalsString v id
  | none => match v with
    | .null => true
    | _ => false

/-- The chip of a device; `none` when a cast throws, when it is shown or when it is selected. -/
def chip (device : JsonMap) : Option Chip :=
  match asString? (get device "id".toList), asString? (get device "name".toList) with
  | some (some id), some (some label) => some ⟨id, label,
      equalsString (get device "platform".toList) "android".toList ||
        equalsString (get device "platform".toList) "ios".toList⟩
  | _, _ => none

/-- The chips of the other devices. -/
def chips (ownID : Option DartString) (devices : List JsonMap) : Option (List Chip) :=
  (devices.filter fun d => !equalsID (get d "id".toList) ownID).mapM chip

/-- A message on the screen. -/
structure Bubble where
  own : Bool
  title : DartString
  /-- It can be downloaded. -/
  file : Bool
  body : DartString
  deriving DecidableEq

/-- `${v ?? '设备'}`; `toText` is `toString` of what is no string. -/
def senderName (toText : JsonText.Json → DartString) : JsonText.Json → DartString
  | .null => "设备".toList
  | .str text => (dartString? text).getD []
  | v => toText v

def privateMark (isPrivate : Bool) : DartString := if isPrivate then " · 私信".toList else []

/-- A payload that can be downloaded. -/
def isDownload (payload : JsonMap) : Bool :=
  equalsString (get payload "kind".toList) "file".toList ||
    equalsString (get payload "kind".toList) "image".toList

/-- The text below the title. -/
def bodyText (payload : JsonMap) : Option DartString :=
  if isDownload payload then
    (asMap? (get payload "meta".toList)).bind fun fileMeta =>
      (asString? (member fileMeta "name".toList)).map fun name => name.getD "下载文件".toList
  else (asString? (get payload "content".toList)).map fun content => content.getD []

/-- `message`; `none` when a cast throws. -/
def bubble (toText : JsonText.Json → DartString) (ownID : Option DartString) (item : JsonMap) :
    Option Bubble :=
  (asMap? (get item "payload".toList)).bind fun payload =>
  (asMap? (get item "from".toList)).bind fun sender =>
  (asItems (get item "to".toList)).bind fun toIDs =>
  (bodyText (payload.getD [])).map fun body =>
    { own := equalsID (member sender "id".toList) ownID
      title := senderName toText (member sender "name".toList) ++ privateMark (!toIDs.isEmpty)
      file := isDownload (payload.getD [])
      body }

/-- What the app shows after a frame. -/
inductive Shown
  | welcome (ownID : Option DartString)
  | presence (chips : Option (List Chip))
  | history (bubbles : List (Option Bubble))
  | message (bubble : Option Bubble)

def RoomFrame.shown (toText : JsonText.Json → DartString) (ownID : Option DartString) : RoomFrame → Shown
  | .welcome id => .welcome id
  | .presence devices => .presence (chips ownID devices)
  | .history messages => .history (messages.map (bubble toText ownID))
  | .message m => .message (bubble toText ownID m)

/-! ## What the hub means -/

def chipOf (d : Chat.Device) : Chip where
  id := runes d.id
  label := runes d.name
  smartphone := runes d.platform = "android".toList ∨ runes d.platform = "ios".toList

/-- `some` text is that of this device. -/
def isOwn (ownID : Option DartString) (d : Option Chat.Device) : Bool :=
  (d.map fun d => runes d.id) = ownID

/-- A message can be downloaded. -/
def isFile (m : Chat.ChatMessage) : Bool :=
  runes m.payload.kind = "file".toList ∨ runes m.payload.kind = "image".toList

def bubbleOf (ownID : Option DartString) (m : Chat.ChatMessage) : Bubble where
  own := isOwn ownID m.sender
  title := (m.sender.elim "设备".toList fun d => runes d.name) ++ privateMark (!m.toIDs.isEmpty)
  file := isFile m
  body :=
    if isFile m then m.payload.fileMeta.elim "下载文件".toList fun x => runes x.name
    else runes m.payload.content

def shownOf (ownID : Option DartString) : Chat.Frame → Shown
  | .welcome device => .welcome (some (runes device.id))
  | .presence _ users => .presence (some ((users.filter fun d => !isOwn ownID (some d)).map chipOf))
  | .history messages => .history (messages.map fun e => some (bubbleOf ownID e.msg))
  | .message e => .message (some (bubbleOf ownID e.msg))

/-! ## Reading what `Marshal` writes -/

variable {F : Type} {fs : Fields F} {value : F → Option JsonText.Json} {f : F} {key : DartString}
  {toText : JsonText.Json → DartString} {ownID : Option DartString}

/-- A value that is an object. -/
def members (v : JsonText.Json) : JsonMap := (asMap v).getD []

/-- A member by its name. A field that was left out is read as `null`. -/
theorem get_structJson (hf : f ∈ fs.all) (hkey : runes (fs.name f) = key) :
    get (members (structJson fs value)) key = (value f).getD .null := by
  show (Web.property (structJson fs value) key).getD .null = (value f).getD .null
  rw [Web.property_eq hf hkey]

/-- The app compares a string it has read with a literal by their code points. -/
theorem equalsString_stringJson (s : GoString) (t : DartString) :
    equalsString (stringJson s) t = decide (runes s = t) :=
  Web.isString_stringJson s t

/-- A string the server has quoted is read back as its code points. -/
theorem dartString?_quoteText (s : GoString) : dartString? (Go.quoteText s) = some (runes s) :=
  Web.jsString?_of_spells (Go.spells_quoteText s)

/-- A string is cast to `String?` without failure. What is read are its characters. -/
theorem asString?_stringJson (s : GoString) : asString? (stringJson s) = some (some (runes s)) := by
  show (dartString? (Go.quoteText s)).map some = _
  rw [dartString?_quoteText]
  rfl

/-- A string that is left out when it is empty. The default of the app is the empty string again, so
nothing is lost by leaving it out. -/
theorem asString?_omitEmpty (s : GoString) :
    (asString? ((omitEmpty s.isEmpty (stringJson s)).getD .null)).map (fun c => c.getD []) =
      some (runes s) := by
  cases s with
  | nil => rfl
  | cons b s =>
    show (asString? (stringJson (b :: s))).map _ = _
    rw [asString?_stringJson]
    rfl

/-- The app compares an id it has read with its own. They are compared as strings of characters. -/
theorem equalsID_stringJson (s : GoString) : equalsID (stringJson s) ownID = decide (some (runes s) = ownID) := by
  cases ownID with
  | none => rfl
  | some id =>
    show equalsString (stringJson s) id = _
    rw [equalsString_stringJson]
    exact decide_eq_decide.mpr Option.some_inj.symm

/-- The members of a device that the app asks for. There is one fact for each of them. -/
theorem members_device (d : Chat.Device) :
    get (members d.json) "id".toList = stringJson d.id ∧
      get (members d.json) "name".toList = stringJson d.name ∧
      get (members d.json) "platform".toList = stringJson d.platform := by
  obtain ⟨hid, hname, hplatform, -⟩ := Web.names_eq
  unfold Chat.Device.json
  exact ⟨get_structJson (f := Chat.DeviceField.id) (by decide) hid, get_structJson (f := Chat.DeviceField.name) (by decide) hname,
    get_structJson (f := Chat.DeviceField.platform) (by decide) hplatform⟩

/-- The chip of a device shows its name and its platform. None of the casts on the way fails. -/
theorem chip_json (d : Chat.Device) : chip (members d.json) = some (chipOf d) := by
  obtain ⟨hid, hname, hplatform⟩ := members_device d
  unfold chip
  rw [hid, hname, hplatform, asString?_stringJson, asString?_stringJson, equalsString_stringJson,
    equalsString_stringJson]
  simp [chipOf]

/-- The devices are shown in their order, without the own one. -/
theorem chips_json (users : List Chat.Device) :
    chips ownID (users.map fun d => members d.json) =
      some ((users.filter fun d => !isOwn ownID (some d)).map chipOf) := by
  have hown : ∀ d : Chat.Device, equalsID (get (members d.json) "id".toList) ownID = isOwn ownID (some d) := by
    intro d
    rw [(members_device d).1, equalsID_stringJson]
    rfl
  unfold chips
  induction users with
  | nil => rfl
  | cons d users ih =>
    rw [List.map_cons, List.filter_cons, List.filter_cons, hown]
    split
    · rw [List.mapM_cons, ih, chip_json]
      rfl
    · exact ih

/-- The app offers a download for files and images. The test is on the kind that the payload
states. -/
theorem isDownload_json (p : Chat.MessagePayload) : isDownload (members p.json) =
    decide (runes p.kind = "file".toList ∨ runes p.kind = "image".toList) := by
  obtain ⟨-, -, -, -, -, hkind, -⟩ := Web.names_eq
  have hget : get (members p.json) "kind".toList = stringJson p.kind := by
    unfold Chat.MessagePayload.json
    exact get_structJson (f := Chat.PayloadField.kind) (by decide) hkind
  unfold isDownload
  rw [hget, equalsString_stringJson, equalsString_stringJson, Bool.decide_or]

/-- The text of a bubble depends on the kind of the payload. -/
theorem bodyText_json (ownID : Option DartString) (m : Chat.ChatMessage) :
    bodyText (members m.payload.json) = some (bubbleOf ownID m).body := by
  obtain ⟨-, hname, -, -, -, -, hcontent, -, hmeta, -⟩ := Web.names_eq
  have hgetContent : get (members m.payload.json) "content".toList =
      (omitEmpty m.payload.content.isEmpty (stringJson m.payload.content)).getD .null := by
    unfold Chat.MessagePayload.json
    exact get_structJson (f := Chat.PayloadField.content) (by decide) hcontent
  have hgetMeta : get (members m.payload.json) "meta".toList =
      (m.payload.fileMeta.map Chat.FileMeta.json).getD .null := by
    unfold Chat.MessagePayload.json
    exact get_structJson (f := Chat.PayloadField.fileMeta) (by decide) hmeta
  unfold bodyText bubbleOf isFile
  rw [isDownload_json, hgetContent, hgetMeta]
  -- for a file the name is read, otherwise the text
  split
  · cases m.payload.fileMeta with
    | none => rfl
    | some x =>
      have hgetName : get (members x.json) "name".toList = stringJson x.name := by
        unfold Chat.FileMeta.json
        exact get_structJson (f := Chat.MetaField.name) (by decide) hname
      show (asString? (get (members x.json) "name".toList)).map _ = _
      rw [hgetName, asString?_stringJson]
      rfl
  · exact asString?_omitEmpty m.payload.content

/-- The app reads a message as the bubble it is meant to be, and no cast fails on the way. -/
theorem bubble_json (m : Chat.ChatMessage) :
    bubble toText ownID (members m.json) = some (bubbleOf ownID m) := by
  obtain ⟨-, -, -, -, -, -, -, -, -, -, hfrom, hto, -, hpayload, -⟩ := Web.names_eq
  have hgetPayload : get (members m.json) "payload".toList = m.payload.json := by
    unfold Chat.ChatMessage.json
    exact get_structJson (f := Chat.MessageField.payload) (by decide) hpayload
  have hgetFrom : get (members m.json) "from".toList = (m.sender.map Chat.Device.json).getD .null := by
    unfold Chat.ChatMessage.json
    exact get_structJson (f := Chat.MessageField.sender) (by decide) hfrom
  have hgetTo : get (members m.json) "to".toList =
      (omitEmpty m.toIDs.isEmpty (.arr (m.toIDs.map stringJson))).getD .null := by
    unfold Chat.ChatMessage.json
    exact get_structJson (f := Chat.MessageField.toIDs) (by decide) hto
  -- an empty list of recipients is left out, which the app reads as an empty list
  have hitems : asItems ((omitEmpty m.toIDs.isEmpty (.arr (m.toIDs.map stringJson))).getD .null) =
      some (m.toIDs.map stringJson) := by
    cases m.toIDs with
    | nil => rfl
    | cons id ids => rfl
  have hasFrom : asMap? ((m.sender.map Chat.Device.json).getD .null) =
      some (m.sender.map fun d => members d.json) := by
    cases m.sender with
    | none => rfl
    | some d => rfl
  have hasPayload : asMap? m.payload.json = some (some (members m.payload.json)) := rfl
  -- a message without a sender is nobody's own
  have hown : equalsID (member (m.sender.map fun d => members d.json) "id".toList) ownID =
      isOwn ownID m.sender := by
    cases m.sender with
    | none =>
      cases ownID with
      | none => rfl
      | some id => rfl
    | some d =>
      rw [Option.map_some, member, Option.elim_some, (members_device d).1, equalsID_stringJson]
      rfl
  have hname : senderName toText (member (m.sender.map fun d => members d.json) "name".toList) =
      m.sender.elim "设备".toList fun d => runes d.name := by
    cases m.sender with
    | none => rfl
    | some d =>
      rw [Option.map_some, member, Option.elim_some, (members_device d).2.1]
      show (dartString? (Go.quoteText d.name)).getD [] = _
      rw [dartString?_quoteText]
      rfl
  unfold bubble
  rw [hgetPayload, hgetFrom, hgetTo, hasPayload, Option.bind_some, hasFrom, Option.bind_some, hitems,
    Option.bind_some, Option.getD_some, bodyText_json ownID, isDownload_json,
    List.isEmpty_map, Option.map_some, hown, hname]
  rfl

/-! ## Frames -/

/-- No character is taken for an error. The replacement character has a width of three bytes, and an
error has one. -/
theorem decodeRune_ne_error (c : Char) (rest : GoString) :
    Go.decodeRune (Go.encodeRune c ++ rest) ≠ (Go.runeError, 1) := by
  rw [Go.decodeRune_encodeRune]
  intro heq
  obtain ⟨hvalue, hlength⟩ := Prod.mk.inj heq
  have hrune : Go.runeError = 0xFFFD := rfl
  unfold Go.encodeRune at hlength
  dsimp only at hlength
  rw [if_neg (by omega), if_neg (by omega), if_pos (by omega)] at hlength
  simp at hlength

/-- Encoded characters are valid UTF-8, at any length. The induction is on the characters. -/
theorem isUtf8UpTo_utf8 {n : ℕ} (cs : List Char) (hn : (Go.utf8 cs).length ≤ n) :
    isUtf8UpTo n (Go.utf8 cs) = true := by
  induction cs generalizing n with
  | nil =>
    cases n with
    | zero => rfl
    | succ n => rfl
  | cons c cs ih =>
    obtain ⟨b, bs, heq⟩ := List.exists_cons_of_ne_nil (Go.encodeRune_ne_nil c)
    have hgood := decodeRune_ne_error c (Go.utf8 cs)
    have hdecode := Go.decodeRune_encodeRune c (Go.utf8 cs)
    rw [Go.utf8_cons] at hn ⊢
    rw [heq, List.cons_append, List.length_cons, List.length_append] at hn
    rw [heq, List.cons_append] at hgood hdecode ⊢
    obtain ⟨k, rfl⟩ : ∃ k, n = k + 1 := ⟨n - 1, by omega⟩
    have hdrop : (b :: (bs ++ Go.utf8 cs)).drop (b :: bs).length = Go.utf8 cs := List.drop_left
    rw [isUtf8UpTo, bne_iff_ne.mpr hgood, Bool.true_and, hdecode]
    dsimp only
    rw [hdrop]
    exact ih (by omega)

/-- What the hub writes can be decoded. It is valid UTF-8, has no byte order mark and is a value of
the grammar. -/
theorem jsonDecode_marshal (f : Chat.Frame) : jsonDecode f.marshal = some f.json := by
  obtain ⟨cs, hcs⟩ := (Chat.spelled_frame f).isUtf8
  have hutf8 : isUtf8 f.marshal = true := by
    show isUtf8UpTo f.json.render.length f.json.render = true
    rw [hcs]
    exact isUtf8UpTo_utf8 cs (le_refl _)
  have hmark : withoutMark f.marshal = f.marshal := by
    have hobj : ∃ ms, f.json = .obj ms := by
      cases f with
      | welcome device => exact ⟨_, rfl⟩
      | history messages => exact ⟨_, rfl⟩
      | presence seq users => exact ⟨_, rfl⟩
      | message e => exact ⟨_, rfl⟩
    obtain ⟨ms, hms⟩ := hobj
    unfold Chat.Frame.marshal
    rw [hms, JsonText.Json.render]
    rfl
  rw [jsonDecode, if_pos hutf8, hmark, Chat.parse_marshal]

/-- The `type` of a frame that is no chat message, and its other member. -/
theorem get_frameJson (type : GoString) {g : Chat.FrameField} {v : JsonText.Json} (hg : g ≠ .type)
    (hkey : runes g.key = key) :
    get (members (Chat.frameJson type g v)) "type".toList = stringJson type ∧
      get (members (Chat.frameJson type g v)) key = v := by
  obtain ⟨-, -, -, -, -, -, -, -, -, htype, -⟩ := Web.names_eq
  have hmem : g ∈ Chat.frameFields.all := by
    cases g
    all_goals decide
  unfold Chat.frameJson
  constructor
  · exact get_structJson (f := Chat.FrameField.type) (by decide) htype
  · rw [get_structJson hmem hkey, if_neg hg, if_pos rfl]
    rfl

/-- A list of objects is cast element by element. This is how a list of devices or of messages is
read. -/
theorem mapM_asMap {α : Type} {write : α → JsonText.Json}
    (h : ∀ x, asMap (write x) = some (members (write x))) (xs : List α) :
    (xs.map write).mapM asMap = some (xs.map fun x => members (write x)) := by
  induction xs with
  | nil => rfl
  | cons x xs ih =>
    rw [List.map_cons, List.mapM_cons, ih, h]
    rfl

/-- **The app reads a frame** as the hub means it, and shows it without a failed cast. The text that
is decoded is the one the hub has marshalled, and the shapes of its members are those that the casts
ask for. -/
theorem listen_of_typed (f : Chat.Frame)
    (htyped : ∀ e, f = .message e → e.msg.type = goString "message") :
    (listen f.marshal).map (RoomFrame.shown toText ownID) = some (shownOf ownID f) := by
  obtain ⟨-, -, -, -, -, -, -, -, -, htype, -, -, -, -, -, hdevice, hmessages, husers⟩ := Web.names_eq
  obtain ⟨hpresence, hwelcome, hhistory, hmessage⟩ := Web.types_eq
  -- every frame is an object
  have hmap : asMap f.json = some (members f.json) := by
    cases f with
    | welcome device => rfl
    | history messages => rfl
    | presence seq users => rfl
    | message e => rfl
  unfold listen
  rw [jsonDecode_marshal, Option.bind_some, hmap, Option.bind_some]
  -- the types are compared one after the other, in the order of the source
  cases f with
  | welcome device =>
    obtain ⟨hget, hmember⟩ := get_frameJson (goString "welcome") (g := .device) (v := device.json)
      nofun hdevice
    have hasMap : asMap device.json = some (members device.json) := rfl
    unfold Chat.Frame.json
    rw [hget, equalsString_stringJson, hwelcome, if_pos (by decide), hmember, hasMap, Option.bind_some,
      (members_device device).1, asString?_stringJson]
    rfl
  | history messages =>
    obtain ⟨hget, hmember⟩ := get_frameJson (goString "history") (g := .messages)
      (v := .arr (messages.map fun e => e.msg.json)) nofun hmessages
    unfold Chat.Frame.json
    rw [hget, equalsString_stringJson, equalsString_stringJson, equalsString_stringJson, hhistory,
      if_neg (by decide), if_neg (by decide), if_pos (by decide), hmember, asList, Option.bind_some,
      mapM_asMap fun e : Chat.Entry => rfl]
    have hbubbles : messages.map (bubble toText ownID ∘ fun e => members e.msg.json) =
        messages.map fun e => some (bubbleOf ownID e.msg) :=
      List.map_congr_left fun e _ => bubble_json e.msg
    simp only [Option.map_some, RoomFrame.shown, shownOf, List.map_map, hbubbles]
  | presence seq users =>
    obtain ⟨hget, hmember⟩ := get_frameJson (goString "presence") (g := .users)
      (v := .arr (users.map Chat.Device.json)) nofun husers
    unfold Chat.Frame.json
    rw [hget, equalsString_stringJson, equalsString_stringJson, hpresence, if_neg (by decide),
      if_pos (by decide), hmember, asList, Option.bind_some, mapM_asMap fun d : Chat.Device => rfl]
    simp only [Option.map_some, RoomFrame.shown, shownOf, chips_json]
  | message e =>
    have hget : get (members e.msg.json) "type".toList = stringJson (goString "message") := by
      rw [← htyped e rfl]
      unfold Chat.ChatMessage.json
      exact get_structJson (f := Chat.MessageField.type) (by decide) htype
    unfold Chat.Frame.json
    rw [hget, equalsString_stringJson, equalsString_stringJson, equalsString_stringJson,
      equalsString_stringJson, hmessage, if_neg (by decide), if_neg (by decide), if_neg (by decide),
      if_pos (by decide)]
    simp only [Option.map_some, RoomFrame.shown, shownOf, bubble_json]

end LanRoom.Mobile
