import LanRoom.Concurrency.ThreadPool

/-! # The state of the mobile room

`Room` of `mobile/lib/room.dart` with the objects it uses: `LanClient` of `mobile/lib/client.dart`,
the sockets, the storage of `AndroidBridge`. What is only shown on the screen (`status`, `error`,
`devices`, …) and the jobs of file transfers are left out, as are the lengths of delays: an armed
timer may fire at any time.

Some fields are read by no code. They note where a cookie, a socket or a recipient list comes from,
and `log` notes what the room has done. -/

namespace LanRoom.Mobile

/-! ## Values -/

/-- A Dart string without lone surrogates. -/
abbrev DartString := List Char

/-- What is read of a `Uri`: its text and its `authority`. -/
structure Uri where
  text : DartString
  authority : DartString
  deriving DecidableEq

/-- `FoundServer`. -/
structure FoundServer where
  id : DartString
  uri : Uri
  deriving DecidableEq

/-- A value that `jsonDecode` has delivered, as far as it is looked at. -/
inductive Json
  | null
  | bool (b : Bool)
  | int (n : ℤ)
  | string (s : DartString)
  | other
  deriving DecidableEq

/-- The fields that are read of the answer of `/api/info`; an absent one is `null`. -/
structure Info where
  serviceId : Json := .null
  discoveryVersion : Json := .null
  pinRequired : Json := .null
  authorized : Json := .null
  port : Json := .null
  deriving DecidableEq

/-- `is bool`. -/
def Json.isBool : Json → Bool
  | .bool _ => true
  | _ => false

/-- `is int`. -/
def Json.isInt : Json → Bool
  | .int _ => true
  | _ => false

/-- The prefix `manual:` of the id of a server without a service id. -/
def manualPrefix : DartString := ['m', 'a', 'n', 'u', 'a', 'l', ':']

/-- `id.startsWith('manual:')`. -/
def FoundServer.isManual (server : FoundServer) : Bool := manualPrefix.isPrefixOf server.id

/-- `[0-9a-fA-F]`. -/
def isHexDigit (c : Char) : Bool :=
  ('0' ≤ c && c ≤ '9') || ('a' ≤ c && c ≤ 'f') || ('A' ≤ c && c ≤ 'F')

/-- The regular expression of `FoundServer.parse` for a service id. -/
def isServiceID (id : DartString) : Bool :=
  match id.splitOn '-' with
  | [a, b, c, d, e] =>
      a.length = 8 && b.length = 4 && c.length = 4 && d.length = 4 && e.length = 12 &&
        [a, b, c, d, e].all fun part => part.all isHexDigit
  | _ => false

/-! ## Objects -/

/-- `LanClient`. -/
structure LanClient where
  base : Uri
  cookie : Option DartString := none
  /-- `socket`: its place among all sockets. -/
  socket : Option ℕ := none
  /-- `http` is closed. -/
  closed : Bool := false
  /-- The id of the server that `attach` has made the client for. -/
  owner : Option DartString := none
  /-- `some X` when the cookie was read under `cookie:X`. -/
  cookieOf : Option DartString := none
  /-- The service ids that `/api/info` has answered to this client. -/
  answered : List DartString := []

/-- A `WebSocket` with its subscription. -/
structure Socket where
  /-- The client it was opened on. -/
  client : ℕ
  /-- The token of the `_open` that opened it. -/
  token : ℕ
  /-- `selected?.id` when the handshake was sent. -/
  openedFor : Option DartString
  /-- `selected?.id` when it was established. -/
  establishedFor : Option DartString
  /-- `readyState == WebSocket.open`. -/
  isOpen : Bool := true
  /-- Somebody listens to it. -/
  listening : Bool := false
  /-- It has reported its end. -/
  ended : Bool := false
  deriving DecidableEq

/-- An element of `messages`, and the socket it arrived on. -/
structure Message where
  body : DartString
  socket : ℕ
  deriving DecidableEq

/-! ## What the room does -/

/-- What is noted of a run. -/
inductive Event
  /-- `attach(server)` is called. It may clear the recipients, while these were the last ones that
  the user chose for the server. -/
  | attach (server : FoundServer) (clears : Bool) (chosen : List DartString)
  /-- `attach` or `search` has cancelled the old subscription. -/
  | cancelled (token generation : ℕ)
  /-- `login` starts, on the client made for `owner`. -/
  | loginCalled (connected : Bool) (owner selected : Option DartString)
  /-- `login` has stored the cookie. -/
  | loginWrote (token generation : ℕ) (connected : Bool)
  /-- `login` catches an exception. -/
  | loginFailed (token generation : ℕ) (connected needsPin retry : Bool)
  /-- `login` ends. -/
  | loginEnded (token generation : ℕ) (busy : Bool)
  /-- `_open` has stored the server. -/
  | openWrote (token generation : ℕ)
  /-- A request or a handshake with a cookie is sent. -/
  | sent (cookieOf : Option DartString) (base : Uri) (answered : List DartString)
  /-- `login` stores the cookie of `client` under `cookie:id`; it has logged `active` in. -/
  | stored (id : DartString) (active client : Option DartString)
  /-- The user chooses recipients. -/
  | chose (selected : Option DartString)
  /-- `text` hands a message to the client made for `owner`; `chosen` was last chosen for it. -/
  | text (owner last : Option DartString) (recipients chosen : List DartString) (isOpen : Bool)
  deriving DecidableEq

/-- `Room`. -/
structure Room where
  preferred : Option DartString := none
  selected : Option FoundServer := none
  servers : List FoundServer := []
  /-- `client`: its place among all clients. -/
  client : Option ℕ := none
  busy : Bool := false
  connected : Bool := false
  needsPin : Bool := false
  messages : List Message := []
  recipients : List DartString := []
  disposed : Bool := false
  foreground : Bool := true
  service : Bool := false
  generation : ℕ := 0
  serviceLabel : Option DartString := none
  /-- `_network` is active. -/
  network : Bool := false
  /-- `_socket`: the place of its socket among all sockets. -/
  socket : Option ℕ := none
  /-- `_retry` is armed. -/
  retry : Bool := false
  /-- `_debounce` is armed. -/
  debounce : Bool := false
  nickname : DartString := "我的手机".toList
  /-- What `bridge.read` delivers. -/
  storage : DartString → Option DartString := fun _ => none
  /-- Every `LanClient` made so far. -/
  clients : List LanClient := []
  /-- Every `WebSocket` opened so far. -/
  sockets : List Socket := []
  /-- A search has found a server and left the choice to the user, and no `attach` or `login` has
  started since. -/
  leftToUser : Bool := false
  /-- The id of the server selected last. -/
  lastSelected : Option DartString := none
  /-- The recipients the user last chose while this server was selected. -/
  chosen : DartString → List DartString := fun _ => []
  log : List Event := []

namespace Room

variable (s : Room)

/-! ## Objects of the room -/

def note (e : Event) : Room := { s with log := e :: s.log }

def modifyClient (c : ℕ) (f : LanClient → LanClient) : Room :=
  { s with clients := s.clients.modify c f }

def modifySocket (ws : ℕ) (f : Socket → Socket) : Room :=
  { s with sockets := s.sockets.modify ws f }

/-- `LanClient(…)`; its place is `s.clients.length`. -/
def newClient (x : LanClient) : Room := { s with clients := s.clients ++ [x] }

/-- `bridge.write(key, value)`. -/
def write (key value : DartString) : Room :=
  { s with storage := Function.update s.storage key (some value) }

/-- `ws?.close()`. -/
def closeWS (ws : Option ℕ) : Room :=
  { s with sockets := match ws with
      | none => s.sockets
      | some ws => s.sockets.modify ws fun x => { x with isOpen := false } }

/-- `socket` of a client. -/
def socketOf (c : ℕ) : Option ℕ := s.clients[c]?.bind LanClient.socket

/-- `LanClient.close`. -/
def closeClient (c : ℕ) : Room :=
  (s.closeWS (s.socketOf c)).modifyClient c fun x => { x with closed := true }

/-- `client?.socket`. -/
def currentSocket : Option ℕ := s.client.bind s.socketOf

/-- `client?.close()`. -/
def closeCurrent : Room :=
  { s.closeWS s.currentSocket with clients := match s.client with
      | none => s.clients
      | some c => s.clients.modify c fun x => { x with closed := true } }

/-- `_socket?.cancel()`. -/
def cancelSocket : Room :=
  { s with sockets := match s.socket with
      | none => s.sockets
      | some ws => s.sockets.modify ws fun x => { x with listening := false } }

/-- The id that the current client was made for. -/
def owner : Option DartString := s.client.bind fun c => s.clients[c]?.bind LanClient.owner

/-- `client?.socket?.readyState == WebSocket.open`. -/
def hasOpenSocket : Bool :=
  match s.currentSocket with
  | none => false
  | some ws => s.sockets[ws]?.any Socket.isOpen

/-- The client is still in use. -/
def isUsable (c : ℕ) : Bool := s.clients[c]?.any fun x => !x.closed

/-- What there is to note when a request or a handshake of a client goes out: its cookie, if it has
one. -/
def cookieSent (c : ℕ) : List Event :=
  match s.clients[c]? with
  | some x => if x.cookie = none then [] else [.sent x.cookieOf x.base x.answered]
  | none => []

/-- The cookie of a client goes out, if it has one. -/
def sendCookie (c : ℕ) : Room := { s with log := s.cookieSent c ++ s.log }

end Room

/-! ## Requests -/

/-- What the awaited call does. -/
inductive Outcome
  /-- It is done; what it delivers is known. -/
  | done
  /-- It throws. -/
  | failed
  /-- The head of an HTTP response: the status, the session cookie if one is set, and what the body
  decodes to. -/
  | response (status : ℕ) (setCookie : Option DartString) (info : Info)
  /-- The answer of the permission dialog. -/
  | allowed (b : Bool)
  /-- The result of `discover`. -/
  | found (servers : List FoundServer)

/-- What a request asks for. -/
inductive Endpoint
  | info
  | auth
  /-- Part of a file transfer. -/
  | transfer
  deriving DecidableEq

/-- `ApiException`, or another exception. -/
inductive Failure
  | status (code : ℕ)
  | other
  deriving DecidableEq

/-- Where a request is. -/
inductive RequestPC
  /-- At `await http.openUrl(…)`. -/
  | opening
  /-- At `await req.close()`. -/
  | sent
  /-- The body is read, for this result. -/
  | body (result : Except Failure Info)
  | ended (result : Except Failure Info)

/-- A call of `LanClient.json`. -/
structure Request where
  client : ℕ
  endpoint : Endpoint
  pc : RequestPC := .opening

/-- The service id in an answer of `/api/info`. -/
def answeredID : Endpoint → Except Failure Info → List DartString
  | .info, .ok { serviceId := .string id, .. } => [id]
  | _, _ => []

/-- A session cookie that a response sets replaces the client's. -/
def LanClient.receive (x : LanClient) : Option DartString → LanClient
  | none => x
  | some cookie => { x with cookie := some cookie, cookieOf := none }

/-- The client has got an answer. -/
def LanClient.hear (x : LanClient) (ids : List DartString) : LanClient :=
  { x with answered := x.answered ++ ids }

/-- The next section of a request. -/
def Request.step (k : Outcome) (s : Room) (r : Request) : Option (Room × Request) :=
  match r.pc, k with
  | .opening, .failed => some (s, { r with pc := .ended (.error .other) })
  | .opening, .done =>
      if s.isUsable r.client then some (s.sendCookie r.client, { r with pc := .sent }) else none
  | .sent, .failed => some (s, { r with pc := .ended (.error .other) })
  | .sent, .response status setCookie info =>
      if s.isUsable r.client then
        some (s.modifyClient r.client (·.receive setCookie),
          { r with pc := .body (if 300 ≤ status then .error (.status status) else .ok info) })
      else none
  | .body _, .failed => some (s, { r with pc := .ended (.error .other) })
  | .body result, .done =>
      some (s.modifyClient r.client (·.hear (answeredID r.endpoint result)),
        { r with pc := .ended result })
  | _, _ => none

end LanRoom.Mobile
