import LanRoom.Upload.Model

/-! # The chat hub: its data

`internal/hub`: the connections of a room, the queue of frames waiting to be written to each of
them, and the chat history. This file holds the data and what one locked section of a hub operation
does to it; `LanRoom.Chat.Steps` puts the sections together. -/

namespace LanRoom.Chat

open LanRoom.Upload (Time)
open ThreadPool (Tid)
open Function (update)

/-! ## Constants -/

/-- `MaxRecipients`. -/
def maxRecipients : ℕ := 16

/-- `sendBuffer`: the capacity of a connection's queue. -/
def sendBuffer : ℕ := 256

/-- `slowClientRetryWindow`, 3 seconds in nanoseconds. -/
def slowClientRetryWindow : Time := 3 * 1000000000

/-- `slowClientRetryDelay`, 150 milliseconds in nanoseconds. -/
def slowClientRetryDelay : Time := 150 * 1000000

/-! ## Messages and frames -/

/-- `Device`. -/
structure Device where
  id : GoString
  name : GoString := []
  platform : GoString := []
  ip : GoString := []
  deriving DecidableEq

/-- `FileMeta`. -/
structure FileMeta where
  name : GoString
  size : ℤ
  mime : GoString
  deriving DecidableEq

/-- `MessagePayload`. -/
structure MessagePayload where
  kind : GoString
  content : GoString := []
  fileID : GoString := []
  fileMeta : Option FileMeta := none
  deriving DecidableEq

/-- `ChatMessage`; its fields `From` and `To` are called `sender` and `toIDs`. -/
structure ChatMessage where
  type : GoString
  sender : Option Device := none
  toIDs : List GoString := []
  recipients : List Device := []
  payload : MessagePayload
  timestamp : ℤ := 0
  deriving DecidableEq

/-- `ChatMessage.visibleTo`. -/
def ChatMessage.visibleTo (m : ChatMessage) (deviceID : GoString) : Bool :=
  m.toIDs.isEmpty || m.sender.any (fun d => d.id = deviceID) || m.toIDs.any fun id => id = deviceID

/-- A chat message on its way through the hub, with the number of the incoming message it was made
from, which no code reads. -/
structure Entry where
  seq : ℕ
  msg : ChatMessage
  deriving DecidableEq

/-- What is marshalled into the queue of a connection. -/
inductive Frame
  /-- `welcomeMessage`. -/
  | welcome (device : Device)
  /-- `historyMessage`. -/
  | history (messages : List Entry)
  /-- The `seq`-th `presenceMessage`; no code reads the number. -/
  | presence (seq : ℕ) (users : List Device)
  /-- A `ChatMessage`. -/
  | message (e : Entry)
  deriving DecidableEq

/-! ## Connections and the hub -/

/-- A connection: the handler that made its `Client`. -/
abbrev Conn := Tid

/-- `Client`. -/
structure Client where
  device : Device
  /-- The frames in the channel `send`. -/
  send : List Frame := []
  /-- The channel `send` is closed. -/
  closed : Bool := false
  /-- The frames already received from `send`, which no code reads. -/
  taken : List Frame := []

/-- Every frame ever placed in the queue of a connection. -/
def Client.placed (cl : Client) : List Frame := cl.taken ++ cl.send

/-- `Hub`, with the clock and what is recorded about a run. -/
structure Hub where
  /-- The clock read by `time.Now`. -/
  now : Time
  historyTTL : Time
  /-- The clients made so far. -/
  conns : Conn → Option Client := fun _ => none
  /-- The keys of the map `clients`. -/
  clients : List Conn := []
  history : List Entry := []
  known : GoString → Option Device := fun _ => none
  /-- How many calls of `deliver` hold `mu` for reading. -/
  readers : ℕ := 0
  /-- The incoming messages handed to `SendMessage` and the connections that read them, which no
  code reads. -/
  accepted : List (Conn × ChatMessage) := []
  /-- How many presence frames have been made, which no code reads. -/
  announced : ℕ := 0
  /-- A closed channel was closed again or sent to. -/
  panicked : Bool := false

/-- `time.Time.Unix`. -/
def unix (t : Time) : ℤ := t / 1000000000

/-! ## Recipients -/

/-- `uuid.UUID`. -/
abbrev UUID := Vector UInt8 16

/-- The functions of the package `google/uuid` the hub uses. -/
structure UUIDPackage where
  /-- `uuid.Parse`. -/
  parse : GoString → Option UUID
  /-- `UUID.String`. -/
  string : UUID → GoString

/-- The loop of `sanitizeRecipients`; the map `seen` has the elements of `out` as keys. -/
def sanitizeLoop (u : UUIDPackage) (self : GoString) : List GoString → List GoString → List GoString
  | [], out => out
  | id :: raw, out =>
      match u.parse id with
      | none => sanitizeLoop u self raw out
      | some parsed =>
          let id := u.string parsed
          if id = self then sanitizeLoop u self raw out
          else if id ∈ out then sanitizeLoop u self raw out
          else if (out ++ [id]).length = maxRecipients then out ++ [id]
          else sanitizeLoop u self raw (out ++ [id])

/-- `sanitizeRecipients`. -/
def sanitizeRecipients (u : UUIDPackage) (raw : List GoString) (self : GoString) :
    List GoString × Bool :=
  if raw = [] then ([], true)
  else
    let out := sanitizeLoop u self raw []
    (out, 0 < out.length)

/-- What `ReadPump` checks of an incoming message before it calls `SendMessage`: the recipients it
passes on, or `none` when the message is dropped. -/
def screen (u : UUIDPackage) (device : Device) (incoming : ChatMessage) : Option (List GoString) :=
  if incoming.type ≠ goString "message" then none
  else if incoming.payload.kind = [] then none
  else match sanitizeRecipients u incoming.toIDs device.id with
    | (_, false) => none
    | (toIDs, true) => some toIDs

/-! ## Sections -/

namespace Hub

variable (h : Hub)

/-- `time.Now().Add(-h.historyTTL).Unix()`. -/
def cutoff : ℤ := unix (h.now - h.historyTTL)

def setClient (c : Conn) (cl : Client) : Hub := { h with conns := update h.conns c (some cl) }

/-- The section of `Register`, together with the making of the client. -/
def join (c : Conn) (device : Device) : Hub :=
  { h with
    conns := update h.conns c (some { device })
    clients := h.clients ++ [c]
    known := update h.known device.id (some device) }

/-- `select` with a send on the channel of `c` and a `default` branch: whether it was sent. Sending
on a closed channel panics. -/
def trySend (c : Conn) (f : Frame) : Hub × Bool :=
  match h.conns c with
  | none => (h, false)
  | some cl =>
      if cl.closed then ({ h with panicked := true }, false)
      else if cl.send.length < sendBuffer then
        (h.setClient c { cl with send := cl.send ++ [f] }, true)
      else (h, false)

/-- `enqueueJSON`. -/
def enqueueJSON (c : Conn) (f : Frame) : Hub :=
  if c ∈ h.clients then (h.trySend c f).1 else h

/-- The messages `sendHistory` collects. -/
def historyFor (cutoff : ℤ) (deviceID : GoString) : List Entry :=
  h.history.filter fun e => decide (cutoff ≤ e.msg.timestamp) && e.msg.visibleTo deviceID

/-- `addToHistory`. -/
def addToHistory (e : Entry) : Hub :=
  { h with history := h.history.filter (fun x => h.cutoff ≤ x.msg.timestamp) ++ [e] }

/-- The section of `Unregister`: whether the client was registered. Closing a closed channel
panics. -/
def unregister (c : Conn) : Hub × Bool :=
  if c ∈ h.clients then
    ({ h with
        clients := h.clients.erase c
        conns := update h.conns c ((h.conns c).map fun cl => { cl with closed := true })
        panicked := h.panicked || (h.conns c).any Client.closed }, true)
  else (h, false)

/-- `devices`, when the map yields the clients in the order given; the map `seen` has the IDs in
`list` as keys. -/
def devices (order : List Conn) : List Device :=
  order.foldl (fun list c => match h.conns c with
    | none => list
    | some cl => if list.any fun d => d.id = cl.device.id then list else list ++ [cl.device]) []

/-- The section of `SendMessage` that fills in `Recipients`. -/
def fillRecipients (m : ChatMessage) : ChatMessage :=
  { m with recipients := m.toIDs.map fun id => (h.known id).getD { id } }

/-- The message `SendMessage` starts with. -/
def newMessage (sender : Device) (toIDs : List GoString) (payload : MessagePayload) : ChatMessage :=
  { type := goString "message", sender := some sender, toIDs, payload, timestamp := unix h.now }

/-- An incoming message is handed to `SendMessage`. -/
def accept (c : Conn) (incoming : ChatMessage) : Hub :=
  { h with accepted := h.accepted ++ [(c, incoming)] }

/-- A presence frame is made. -/
def announce : Hub := { h with announced := h.announced + 1 }

def rLock : Hub := { h with readers := h.readers + 1 }

def rUnlock : Hub := { h with readers := h.readers - 1 }

end Hub

end LanRoom.Chat
