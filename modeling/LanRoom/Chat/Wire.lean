import LanRoom.Chat.Model
import LanRoom.Go.Struct

/-! # The frames of the hub as JSON

What `ReadPump` reads of a message (`readIncoming`) and what the hub writes into the queue of a
connection (`Frame.json`). -/

namespace LanRoom.Chat

open JsonText (Json)
open LanRoom.Go (Decoder Fields Slice decodeString decodeInt decodePointer decodeSlice decodeStruct
  unmarshal stringJson intJson omitEmpty structJson Spelled spelled_stringJson spelled_intJson
  spelled_structJson spelled_arr)

/-! ## Fields -/

inductive DeviceField
  | id | name | platform | ip
  deriving DecidableEq

def DeviceField.key : DeviceField → GoString
  | .id => goString "id"
  | .name => goString "name"
  | .platform => goString "platform"
  | .ip => goString "ip"

def deviceFields : Fields DeviceField where
  all := [.id, .name, .platform, .ip]
  name := DeviceField.key
  plain := by decide +kernel
  distinct := by decide +kernel

inductive MetaField
  | name | size | mime
  deriving DecidableEq

def MetaField.key : MetaField → GoString
  | .name => goString "name"
  | .size => goString "size"
  | .mime => goString "mime"

def metaFields : Fields MetaField where
  all := [.name, .size, .mime]
  name := MetaField.key
  plain := by decide +kernel
  distinct := by decide +kernel

inductive PayloadField
  | kind | content | fileId | fileMeta
  deriving DecidableEq

def PayloadField.key : PayloadField → GoString
  | .kind => goString "kind"
  | .content => goString "content"
  | .fileId => goString "fileId"
  | .fileMeta => goString "meta"

def payloadFields : Fields PayloadField where
  all := [.kind, .content, .fileId, .fileMeta]
  name := PayloadField.key
  plain := by decide +kernel
  distinct := by decide +kernel

inductive MessageField
  | type | sender | toIDs | recipients | payload | timestamp
  deriving DecidableEq

def MessageField.key : MessageField → GoString
  | .type => goString "type"
  | .sender => goString "from"
  | .toIDs => goString "to"
  | .recipients => goString "recipients"
  | .payload => goString "payload"
  | .timestamp => goString "timestamp"

def messageFields : Fields MessageField where
  all := [.type, .sender, .toIDs, .recipients, .payload, .timestamp]
  name := MessageField.key
  plain := by decide +kernel
  distinct := by decide +kernel

/-- The members of a frame that is no chat message. -/
inductive FrameField
  | type | device | messages | users
  deriving DecidableEq

def FrameField.key : FrameField → GoString
  | .type => goString "type"
  | .device => goString "device"
  | .messages => goString "messages"
  | .users => goString "users"

def frameFields : Fields FrameField where
  all := [.type, .device, .messages, .users]
  name := FrameField.key
  plain := by decide +kernel
  distinct := by decide +kernel

/-! ## Reading -/

def decodeDeviceField : DeviceField → Decoder Device
  | .id, d, v => (decodeString d.id v).map fun id => { d with id }
  | .name, d, v => (decodeString d.name v).map fun name => { d with name }
  | .platform, d, v => (decodeString d.platform v).map fun platform => { d with platform }
  | .ip, d, v => (decodeString d.ip v).map fun ip => { d with ip }

def decodeDevice : Decoder Device := decodeStruct deviceFields decodeDeviceField

def decodeMetaField : MetaField → Decoder FileMeta
  | .name, m, v => (decodeString m.name v).map fun name => { m with name }
  | .size, m, v => (decodeInt m.size v).map fun size => { m with size }
  | .mime, m, v => (decodeString m.mime v).map fun mime => { m with mime }

def decodeMeta : Decoder FileMeta := decodeStruct metaFields decodeMetaField

def decodePayloadField : PayloadField → Decoder MessagePayload
  | .kind, p, v => (decodeString p.kind v).map fun kind => { p with kind }
  | .content, p, v => (decodeString p.content v).map fun content => { p with content }
  | .fileId, p, v => (decodeString p.fileID v).map fun fileID => { p with fileID }
  | .fileMeta, p, v => (decodePointer ⟨[], 0, []⟩ decodeMeta p.fileMeta v).map fun fileMeta =>
      { p with fileMeta }

def decodePayload : Decoder MessagePayload := decodeStruct payloadFields decodePayloadField

/-- The variable `incoming` of `ReadPump` while it is read into. -/
structure MessageVariable where
  type : GoString := []
  sender : Option Device := none
  toIDs : Slice GoString := {}
  recipients : Slice Device := {}
  payload : MessagePayload := { kind := [] }
  timestamp : ℤ := 0

/-- The message in the variable. -/
def MessageVariable.message (m : MessageVariable) : ChatMessage where
  type := m.type
  sender := m.sender
  toIDs := m.toIDs.elements
  recipients := m.recipients.elements
  payload := m.payload
  timestamp := m.timestamp

def decodeMessageField : MessageField → Decoder MessageVariable
  | .type, m, v => (decodeString m.type v).map fun type => { m with type }
  | .sender, m, v => (decodePointer { id := [] } decodeDevice m.sender v).map fun sender =>
      { m with sender }
  | .toIDs, m, v => (decodeSlice [] decodeString m.toIDs v).map fun toIDs => { m with toIDs }
  | .recipients, m, v =>
      (decodeSlice { id := [] } decodeDevice m.recipients v).map fun recipients => { m with recipients }
  | .payload, m, v => (decodePayload m.payload v).map fun payload => { m with payload }
  | .timestamp, m, v => (decodeInt m.timestamp v).map fun timestamp => { m with timestamp }

def decodeMessage : Decoder MessageVariable := decodeStruct messageFields decodeMessageField

/-- `ReadPump`: the incoming message; `none` is an error of `Unmarshal`. -/
def readIncoming (data : Bytes) : Option ChatMessage :=
  (unmarshal {} decodeMessage data).map MessageVariable.message

/-! ## Writing -/

def Device.json (d : Device) : Json := structJson deviceFields fun
  | .id => stringJson d.id
  | .name => stringJson d.name
  | .platform => stringJson d.platform
  | .ip => stringJson d.ip

def FileMeta.json (m : FileMeta) : Json := structJson metaFields fun
  | .name => stringJson m.name
  | .size => intJson m.size
  | .mime => stringJson m.mime

def MessagePayload.json (p : MessagePayload) : Json := structJson payloadFields fun
  | .kind => stringJson p.kind
  | .content => omitEmpty p.content.isEmpty (stringJson p.content)
  | .fileId => omitEmpty p.fileID.isEmpty (stringJson p.fileID)
  | .fileMeta => p.fileMeta.map FileMeta.json

/-- `omitempty` does not leave out a struct. -/
def ChatMessage.json (m : ChatMessage) : Json := structJson messageFields fun
  | .type => stringJson m.type
  | .sender => m.sender.map Device.json
  | .toIDs => omitEmpty m.toIDs.isEmpty (.arr (m.toIDs.map stringJson))
  | .recipients => omitEmpty m.recipients.isEmpty (.arr (m.recipients.map Device.json))
  | .payload => m.payload.json
  | .timestamp => omitEmpty (m.timestamp == 0) (intJson m.timestamp)

/-- `welcomeMessage`, `historyMessage`, `presenceMessage`: the type and one more member. -/
def frameJson (type : GoString) (field : FrameField) (v : Json) : Json := structJson frameFields fun f =>
  if f = .type then some (stringJson type) else if f = field then some v else none

/-- The lists of the hub are never `nil`. -/
def Frame.json : Frame → Json
  | .welcome device => frameJson (goString "welcome") .device device.json
  | .history messages =>
      frameJson (goString "history") .messages (.arr (messages.map fun e => e.msg.json))
  | .presence _ users => frameJson (goString "presence") .users (.arr (users.map Device.json))
  | .message e => e.msg.json

/-- `Marshal`. -/
def Frame.marshal (f : Frame) : Bytes := f.json.render

/-! ## Every frame is a JSON text -/

/-- A device is spelled as the grammar has it. Its strings are quoted by `Marshal`, and the names of
its members are plain. -/
theorem spelled_device (d : Device) : Spelled d.json := by
  apply spelled_structJson
  intro f v hv
  cases f
  all_goals
    obtain rfl := Option.some.inj hv
    exact spelled_stringJson _

/-- The metadata of a file are. The size is written as an integer, the rest as strings. -/
theorem spelled_meta (m : FileMeta) : Spelled m.json := by
  apply spelled_structJson
  intro f v hv
  cases f with
  | size =>
    obtain rfl := Option.some.inj hv
    exact spelled_intJson _
  | name | mime =>
    obtain rfl := Option.some.inj hv
    exact spelled_stringJson _

/-- A member that is not left out has the value it stands for. So what holds of every value written
without `omitempty` holds with it. -/
theorem eq_of_omitEmpty {empty : Bool} {v w : Json} (h : omitEmpty empty v = some w) : w = v := by
  cases empty with
  | true => cases h
  | false => exact (Option.some.inj h).symm

/-- A payload is spelled as the grammar has it. The members for a text and for a file may be left
out. -/
theorem spelled_payload (p : MessagePayload) : Spelled p.json := by
  apply spelled_structJson
  intro f v hv
  cases f with
  | kind =>
    obtain rfl := Option.some.inj hv
    exact spelled_stringJson _
  | content | fileId =>
    rw [eq_of_omitEmpty hv]
    exact spelled_stringJson _
  | fileMeta =>
    obtain ⟨m, -, rfl⟩ := Option.map_eq_some_iff.mp hv
    exact spelled_meta m

/-- A message is. Sender, recipients and payload are spelled, and so is the number of the
timestamp. -/
theorem spelled_message (m : ChatMessage) : Spelled m.json := by
  apply spelled_structJson
  intro f v hv
  cases f with
  | type =>
    obtain rfl := Option.some.inj hv
    exact spelled_stringJson _
  | sender =>
    obtain ⟨d, -, rfl⟩ := Option.map_eq_some_iff.mp hv
    exact spelled_device d
  | toIDs =>
    rw [eq_of_omitEmpty hv]
    exact spelled_arr spelled_stringJson _
  | recipients =>
    rw [eq_of_omitEmpty hv]
    exact spelled_arr spelled_device _
  | payload =>
    obtain rfl := Option.some.inj hv
    exact spelled_payload _
  | timestamp =>
    rw [eq_of_omitEmpty hv]
    exact spelled_intJson _

/-- A frame is, when its content is. This is the last step; all three kinds of frames are made in
this way. -/
theorem spelled_frameJson (type : GoString) (field : FrameField) {v : Json} (hv : Spelled v) :
    Spelled (frameJson type field v) := by
  apply spelled_structJson
  intro f w hw
  by_cases htype : f = .type
  · rw [if_pos htype] at hw
    obtain rfl := Option.some.inj hw
    exact spelled_stringJson _
  · rw [if_neg htype] at hw
    by_cases hfield : f = field
    · rw [if_pos hfield] at hw
      obtain rfl := Option.some.inj hw
      exact hv
    · rw [if_neg hfield] at hw
      cases hw

/-- **Every frame is spelled as the grammar has it**, whatever bytes its strings hold. The three
kinds of frames are objects with a `type` and one more member, whose value is spelled by the facts
above. -/
theorem spelled_frame (f : Frame) : Spelled f.json := by
  cases f with
  | welcome device => exact spelled_frameJson _ _ (spelled_device device)
  | history messages =>
    exact spelled_frameJson _ _ (spelled_arr (fun e : Entry => spelled_message e.msg) messages)
  | presence seq users => exact spelled_frameJson _ _ (spelled_arr spelled_device users)
  | message e => exact spelled_message e.msg

/-- What the hub writes is read as it was meant. The grammar reads back the value that was written,
for every frame. -/
theorem parse_marshal (f : Frame) : JsonText.parse f.marshal = some f.json :=
  JsonText.parse_of_wellFormed (spelled_frame f).wellFormed

end LanRoom.Chat
