import LanRoom.Mobile.Client

/-! # The operations of the mobile room

The methods of `Room` in `mobile/lib/room.dart`, from one `await` to the next. Every method that
awaits something has a type of places where it can be, with its local variables; a place in the
caller holds the place in the method it awaits. Whatever is awaited, other calls can go on before
the caller does. -/

namespace LanRoom.Mobile

open ThreadPool (Tid Machine Act Config)

/-! ## `_schedule`, `_open` -/

namespace Room

variable (s : Room)

/-- `_schedule`. -/
def schedule : Room := { s with retry := !s.disposed }

/-- The id of the selected server. -/
def selectedID : Option DartString := s.selected.map FoundServer.id

/-- The service is started once for each address, from the foreground. -/
def keepAlive (label : DartString) : Room :=
  { s with
    service := s.service || s.foreground && s.serviceLabel ≠ some label
    serviceLabel := if s.foreground then some label else s.serviceLabel }

/-- `_socket = ws.listen(…)`. -/
def listen (ws : ℕ) : Room :=
  { s with socket := some ws }.modifySocket ws fun x => { x with listening := true }

/-- The handshake of `LanClient.connect` is sent. -/
def handshake (c : ℕ) : Room :=
  { s with log := (if s.isUsable c then s.cookieSent c else []) ++ s.log }

/-- `LanClient.connect` has got its socket. -/
def established (c : ℕ) (x : Socket) : Room :=
  { s with sockets := s.sockets ++ [x] }.modifyClient c fun y =>
    { y with socket := some s.sockets.length }

end Room

/-- Where `_open` is. -/
inductive OpenPC
  /-- At `await _socket?.cancel()`. -/
  | cancel
  /-- At `await client?.socket?.close()`. -/
  | close
  /-- At `await client!.connect(…)`. -/
  | connect (client : ℕ) (openedFor : Option DartString)
  /-- `connect` has returned. -/
  | connected (ws : ℕ)
  /-- At `await ws.close()`. -/
  | closeStale
  /-- At `await bridge.write('preferred', …)`. -/
  | preferred (ws : ℕ)
  /-- At `await bridge.write('lastAddress', …)`. -/
  | lastAddress (ws : ℕ)
  | returned
  | threw

/-- `_open` up to its first `await`. -/
def Room.openSocket (s : Room) : Room × OpenPC := (s.cancelSocket, .cancel)

/-- The last section of `_open`. -/
def openConnected (token : ℕ) (s : Room) (ws : ℕ) : Room × OpenPC :=
  let s := { s.note (.openWrote token s.generation) with connected := true }
  match s.selected with
  | none => (s, .threw)
  | some server => ((s.keepAlive server.uri.authority).listen ws, .returned)

/-- The next section of `_open(token)`. -/
def openStep (token : ℕ) (k : Outcome) (s : Room) : OpenPC → Option (Room × OpenPC)
  | .cancel =>
      match k with
      | .done => some (s.closeWS s.currentSocket, .close)
      | _ => none
  | .close =>
      match k, s.client with
      | .failed, _ | .done, none => some (s, .threw)
      | .done, some c => some (s.handshake c, .connect c s.selectedID)
      | _, _ => none
  | .connect c openedFor =>
      match k with
      | .failed => some (s, .threw)
      | .done =>
          if s.isUsable c then
            some (s.established c ⟨c, token, openedFor, s.selectedID, true, false, false⟩,
              .connected s.sockets.length)
          else none
      | _ => none
  | .connected ws =>
      if s.disposed = true ∨ token ≠ s.generation then some (s.closeWS (some ws), .closeStale)
      else match s.selected with
        | none => some (s, .threw)
        | some server =>
            some ({ s with preferred := some server.id }.write "preferred".toList server.id,
              .preferred ws)
  | .closeStale =>
      match k with
      | .failed => some (s, .threw)
      | .done => some (s, .returned)
      | _ => none
  | .preferred ws =>
      match k, s.selected with
      | .failed, _ | .done, none => some (s, .threw)
      | .done, some server => some (s.write "lastAddress".toList server.uri.text, .lastAddress ws)
      | _, _ => none
  | .lastAddress ws =>
      match k with
      | .failed => some (s, .threw)
      | .done => some (openConnected token s ws)
      | _ => none
  | .returned | .threw => none

/-! ## `attach` -/

/-- Where `attach` is. -/
inductive AttachPC
  /-- At `await _socket?.cancel()`. -/
  | cancel
  /-- At the first `await next.info()`. -/
  | plainInfo (r : Request)
  /-- At `await bridge.read(…)`. -/
  | read (next : ℕ)
  /-- At the second `await next.info()`. -/
  | info (r : Request)
  /-- At `await _open(token)`. -/
  | opening (pc : OpenPC)
  | returned (reached : Bool)

/-- A call of `attach`. -/
structure Attach where
  server : FoundServer
  token : ℕ
  pc : AttachPC

/-- `attach(server)` clears messages and recipients. -/
def Room.clears (s : Room) (server : FoundServer) : Bool := s.selectedID ≠ some server.id

/-- `attach` up to its first `await`. -/
def Room.attach (s : Room) (server : FoundServer) : Room × Attach :=
  ({ s.note (.attach server (s.clears server) (s.chosen server.id)) with
      retry := false
      generation := s.generation + 1
      busy := true
      connected := false
      needsPin := false
      messages := if s.clears server then [] else s.messages
      recipients := if s.clears server then [] else s.recipients
      selected := some server
      lastSelected := some server.id
      leftToUser := false }.cancelSocket,
    ⟨server, s.generation + 1, .cancel⟩)

/-- The old subscription is cancelled: the client is replaced. -/
def Room.renew (s : Room) (token : ℕ) (server : FoundServer) : Room :=
  let s := (s.note (.cancelled token s.generation)).closeCurrent
  { s.newClient { base := server.uri, owner := some server.id } with client := some s.clients.length }

/-- `cookie:id`. -/
def cookieKey (id : DartString) : DartString := "cookie:".toList ++ id

/-- `next.cookie = await bridge.read('cookie:id')`. -/
def Room.takeCookie (s : Room) (next : ℕ) (id : DartString) : Room :=
  s.modifyClient next fun x => { x with cookie := s.storage (cookieKey id), cookieOf := some id }

/-- A PIN is needed: `next.cookie = null`. -/
def Room.askPin (s : Room) (next : ℕ) : Room :=
  { s with needsPin := true }.modifyClient next fun x => { x with cookie := none, cookieOf := none }

namespace Attach

variable (a : Attach)

/-- `return reached`, with the `finally`. -/
def finish (s : Room) (reached : Bool) : Room × Attach :=
  ({ s with busy := s.busy && a.token ≠ s.generation }, { a with pc := .returned reached })

/-- The `catch`. -/
def caught (silent : Bool) (s : Room) : Room × Attach :=
  if a.token ≠ s.generation ∨ s.disposed = true then a.finish s true
  else if silent = true then a.finish s false
  else a.finish s.schedule false

/-- The identity of the server is checked. -/
def checked (silent : Bool) (s : Room) (next : ℕ) (plainInfo : Info) : Room × Attach :=
  if a.server.isManual = false ∧ plainInfo.serviceId ≠ .string a.server.id then a.caught silent s
  else (s, { a with pc := .read next })

/-- The second answer of `/api/info`. -/
def informed (s : Room) (next : ℕ) (info : Info) : Room × Attach :=
  if a.token ≠ s.generation ∨ s.disposed = true then a.finish s true
  else if info.pinRequired = .bool true ∧ info.authorized ≠ .bool true then
    a.finish (s.askPin next) true
  else (s.openSocket.1, { a with pc := .opening s.openSocket.2 })

/-- The next section of `attach`. -/
def step (silent : Bool) (k : Outcome) (s : Room) : Option (Room × Attach) :=
  match a.pc with
  | .cancel =>
      match k with
      | .done =>
          let next := s.clients.length
          some (s.renew a.token a.server, { a with pc := .plainInfo ⟨next, .info, .opening⟩ })
      | _ => none
  | .plainInfo r =>
      match r.pc with
      | .ended (.ok info) => some (a.checked silent s r.client info)
      | .ended (.error _) => some (a.caught silent s)
      | _ => (r.step k s).map fun x => (x.1, { a with pc := .plainInfo x.2 })
  | .read next =>
      match k with
      | .failed => some (a.caught silent s)
      | .done =>
          some (s.takeCookie next a.server.id, { a with pc := .info ⟨next, .info, .opening⟩ })
      | _ => none
  | .info r =>
      match r.pc with
      | .ended (.ok info) => some (a.informed s r.client info)
      | .ended (.error _) => some (a.caught silent s)
      | _ => (r.step k s).map fun x => (x.1, { a with pc := .info x.2 })
  | .opening .returned => some (a.finish s true)
  | .opening .threw => some (a.caught silent s)
  | .opening pc => (openStep a.token k s pc).map fun x => (x.1, { a with pc := .opening x.2 })
  | .returned _ => none

end Attach

/-! ## `search` -/

/-- Where `search` is. -/
inductive SearchPC
  /-- At `await _socket?.cancel()`. -/
  | cancel
  /-- At `await AndroidBridge.channel.invokeMethod('permission')`. -/
  | permission
  /-- At `await bridge.interfaces`. -/
  | interfaces
  /-- At `await discover(…)`. -/
  | discover
  /-- At `await probe.info()` for `server`, with the servers still to come. -/
  | probe (r : Request) (server : FoundServer) (rest verified : List FoundServer)
  /-- At `await attach(match)`. -/
  | attach (a : Attach)
  | returned

/-- A call of `search`. -/
structure Search where
  token : ℕ
  chooseAnother : Bool
  pc : SearchPC

/-- `search` up to its first `await`. -/
def Room.search (s : Room) (chooseAnother : Bool) : Room × Search :=
  if s.busy = true ∨ s.disposed = true then (s, ⟨s.generation, chooseAnother, .returned⟩)
  else
    ({ s with
        busy := true
        generation := s.generation + 1
        retry := false
        connected := false
        needsPin := false
        selected := if chooseAnother then none else s.selected }.cancelSocket,
      ⟨s.generation + 1, chooseAnother, .cancel⟩)

/-- The old subscription is cancelled: the client is closed. -/
def Room.release (s : Room) (token : ℕ) : Room :=
  { (s.note (.cancelled token s.generation)).closeCurrent with client := none }

/-- `byID.values`. -/
def byID (verified : List FoundServer) : List FoundServer :=
  verified.foldl (fun m v => if m.any fun w => w.id = v.id then m else m ++ [v]) []

/-- `servers.length == 1 ? servers.single : null`. -/
def single : List FoundServer → Option FoundServer
  | [server] => some server
  | _ => none

/-- `preferredServer`. -/
def preferredServer (servers : List FoundServer) : Option DartString → Option FoundServer
  | none => single servers
  | some preferred =>
      if preferred = [] then single servers else servers.find? fun v => v.id = preferred

/-- No match is attached: the user chooses, or the search is repeated. -/
def Room.leave (s : Room) (chooseAnother : Bool) : Room :=
  let again := s.servers = [] ∨ s.preferred ≠ none ∧ chooseAnother = false
  { s with
    leftToUser := s.leftToUser || s.servers ≠ []
    retry := if again then s.schedule.retry else s.retry }

namespace Search

variable (x : Search)

/-- `return`, with the `finally`. -/
def finish (s : Room) : Room × Search :=
  ({ s with busy := s.busy && x.token ≠ s.generation }, { x with pc := .returned })

/-- The `catch`. -/
def caught (s : Room) : Room × Search := x.finish s.schedule

/-- The verified servers are known. -/
def verified (s : Room) (servers : List FoundServer) : Room × Search :=
  if s.disposed = true ∨ x.token ≠ s.generation then x.finish s
  else
    let pick := if x.chooseAnother then none else preferredServer (byID servers) s.preferred
    let s := { s with servers := byID servers, busy := false }
    match pick with
    | some server => ((s.attach server).1, { x with pc := .attach (s.attach server).2 })
    | none => x.finish (s.leave x.chooseAnother)

/-- The next offer is probed. -/
def next (s : Room) (verified : List FoundServer) : List FoundServer → Room × Search
  | [] => x.verified s verified
  | server :: rest =>
      (s.newClient { base := server.uri },
        { x with pc := .probe ⟨s.clients.length, .info, .opening⟩ server rest verified })

/-- `info` is the one of a room with the offered id. -/
def confirms (server : FoundServer) : Except Failure Info → Bool
  | .ok info =>
      info.serviceId = .string server.id && info.discoveryVersion = .int 1 && info.pinRequired.isBool
  | .error _ => false

/-- The next section of `search`. -/
def step (k : Outcome) (s : Room) : Option (Room × Search) :=
  match x.pc with
  | .cancel =>
      match k with
      | .done => some (s.release x.token, { x with pc := .permission })
      | _ => none
  | .permission =>
      match k with
      | .failed | .allowed false => some (x.caught s)
      | .allowed true => some (s, { x with pc := .interfaces })
      | _ => none
  | .interfaces =>
      match k with
      | .failed => some (x.caught s)
      | .done => some (s, { x with pc := .discover })
      | _ => none
  | .discover =>
      match k with
      | .failed => some (x.caught s)
      | .found servers =>
          -- `FoundServer.parse` lets only service ids through
          if servers.all fun v => isServiceID v.id then some (x.next s [] servers) else none
      | _ => none
  | .probe r server rest verified =>
      match r.pc with
      | .ended result =>
          some (x.next (s.closeClient r.client)
            (if confirms server result then verified ++ [server] else verified) rest)
      | _ => (r.step k s).map fun y => (y.1, { x with pc := .probe y.2 server rest verified })
  | .attach a =>
      match a.pc with
      | .returned _ => some (x.finish s)
      | _ => (a.step false k s).map fun y => (y.1, { x with pc := .attach y.2 })
  | .returned => none

end Search

/-! ## `_recover`, `reconnect` -/

/-- Where `_recover` is. -/
inductive RecoverPC
  /-- At `await attach(server, silent: true)`. -/
  | attach (a : Attach)
  /-- At `await search()`. -/
  | search (x : Search)
  | returned

/-- `_recover` after the known address has failed. -/
def Room.fallBack (s : Room) (server : Option FoundServer) : Room × RecoverPC :=
  if s.disposed = true ∨ s.busy = true ∨ s.needsPin = true then (s, .returned)
  else if s.foreground = true ∧ server.all (fun v => !v.isManual) = true then
    ((s.search false).1, .search (s.search false).2)
  else (s.schedule, .returned)

/-- `_recover` up to its first `await`. -/
def Room.recover (s : Room) : Room × RecoverPC :=
  if s.busy = true ∨ s.disposed = true then (s, .returned)
  else match s.selected with
    | some server => ((s.attach server).1, .attach (s.attach server).2)
    | none => s.fallBack none

/-- The next section of `_recover`. -/
def RecoverPC.step (k : Outcome) (s : Room) : RecoverPC → Option (Room × RecoverPC)
  | .attach a =>
      match a.pc with
      | .returned true => some (s, .returned)
      | .returned false => some (s.fallBack (some a.server))
      | _ => (a.step true k s).map fun x => (x.1, .attach x.2)
  | .search x =>
      match x.pc with
      | .returned => some (s, .returned)
      | _ => (x.step k s).map fun y => (y.1, .search y.2)
  | .returned => none

/-- Where `reconnect` is. -/
inductive ReconnectPC
  /-- At `await check.info()`. -/
  | probe (r : Request)
  /-- At `await _recover()`. -/
  | recover (pc : RecoverPC)
  | returned

/-- `reconnect` from the cancelling of the timer on. -/
def Room.restart (s : Room) : Room × ReconnectPC :=
  let s := { s with retry := false }
  (s.recover.1, .recover s.recover.2)

/-- `reconnect` up to its first `await`. -/
def Room.reconnect (s : Room) (probe : Bool) : Room × ReconnectPC :=
  if s.busy = true ∨ s.needsPin = true ∨ s.disposed = true then (s, .returned)
  else if s.connected = true ∧ s.hasOpenSocket = true then
    match probe, s.selected with
    | true, some server =>
        (s.newClient { base := server.uri }, .probe ⟨s.clients.length, .info, .opening⟩)
    -- `selected!` throws when it is null
    | _, _ => (s, .returned)
  else s.restart

/-- The next section of `reconnect`. -/
def ReconnectPC.step (k : Outcome) (s : Room) : ReconnectPC → Option (Room × ReconnectPC)
  | .probe r =>
      match r.pc with
      | .ended (.ok _) => some (s.closeClient r.client, .returned)
      | .ended (.error _) =>
          let s := s.closeClient r.client
          if s.busy = true ∨ s.disposed = true then some (s, .returned) else some s.restart
      | _ => (r.step k s).map fun x => (x.1, .probe x.2)
  | .recover .returned => some (s, .returned)
  | .recover pc => (pc.step k s).map fun x => (x.1, .recover x.2)
  | .returned => none

/-! ## `login` -/

/-- Where `login` is. -/
inductive LoginPC
  /-- At `await active.login(pin)`. -/
  | post (r : Request)
  /-- At `await bridge.write('cookie:…', …)`. -/
  | write
  /-- At `await _open(_generation)`, for this generation. -/
  | opening (token : ℕ) (pc : OpenPC)
  | returned

/-- A call of `login`. -/
structure Login where
  token : ℕ
  active : ℕ
  pc : LoginPC

/-- `login` up to its first `await`. -/
def Room.login (s : Room) : Room × Login :=
  match s.busy, s.client with
  | false, some c =>
      ({ s.note (.loginCalled s.connected s.owner s.selectedID) with
          busy := true
          leftToUser := false },
        ⟨s.generation, c, .post ⟨c, .auth, .opening⟩⟩)
  | _, _ => (s, ⟨s.generation, 0, .returned⟩)

/-- `bridge.write('cookie:id', client!.cookie ?? '')`. -/
def Room.storeCookie (s : Room) (active c : ℕ) (id : DartString) : Room :=
  let ownerOf c := s.clients[c]?.bind LanClient.owner
  (s.note (.stored id (ownerOf active) (ownerOf c))).write (cookieKey id)
    ((s.clients[c]?.bind LanClient.cookie).getD [])

namespace Login

variable (l : Login)

/-- The `finally`. -/
def finish (s : Room) : Room × Login :=
  ({ s.note (.loginEnded l.token s.generation s.busy) with busy := false },
    { l with pc := .returned })

/-- The `catch`, of an attempt under `token`. -/
def caught (token : ℕ) (s : Room) : Room × Login :=
  l.finish (s.note (.loginFailed token s.generation s.connected s.needsPin s.retry))

/-- The PIN is right. -/
def accepted (s : Room) : Room × Login :=
  if s.disposed = true ∨ l.token ≠ s.generation then l.finish s
  else match s.selected, s.client with
    | some server, some c => (s.storeCookie l.active c server.id, { l with pc := .write })
    | _, _ => l.caught l.token s

/-- The cookie is stored. -/
def stored (s : Room) : Room × Login :=
  let s := { s.note (.loginWrote l.token s.generation s.connected) with needsPin := false }
  (s.openSocket.1, { l with pc := .opening s.generation s.openSocket.2 })

/-- The next section of `login`. -/
def step (k : Outcome) (s : Room) : Option (Room × Login) :=
  match l.pc with
  | .post r =>
      match r.pc with
      | .ended (.ok _) => some (l.accepted s)
      | .ended (.error _) => some (l.caught l.token s)
      | _ => (r.step k s).map fun x => (x.1, { l with pc := .post x.2 })
  | .write =>
      match k with
      | .failed => some (l.caught l.token s)
      | .done => some (l.stored s)
      | _ => none
  | .opening _ .returned => some (l.finish s)
  | .opening token .threw => some (l.caught token s)
  | .opening token pc => (openStep token k s pc).map fun x => (x.1, { l with pc := .opening token x.2 })
  | .returned => none

end Login

/-! ## `manual`, `rename`, `initialize` -/

/-- Where `manual` is. -/
inductive ManualPC
  /-- At `await probe.info()`. -/
  | probe (base : Uri) (r : Request)
  /-- At `await attach(…)`. -/
  | attach (a : Attach)
  | returned

/-- `manual` up to its first `await`, for the base address in the text if it has one. -/
def Room.manual (s : Room) (base : Option Uri) : Room × ManualPC :=
  match s.busy, base with
  | false, some base =>
      (s.newClient { base }, .probe base ⟨s.clients.length, .info, .opening⟩)
  | _, _ => (s, .returned)

/-- `FoundServer(id == null || id.isEmpty ? 'manual:$base' : id, base)`; `none` when the id is no
string. -/
def manualServer (base : Uri) : Json → Option FoundServer
  | .null => some ⟨manualPrefix ++ base.text, base⟩
  | .string id => some ⟨if id = [] then manualPrefix ++ base.text else id, base⟩
  | _ => none

/-- The answer to the probe of `manual`. -/
def Room.manualAnswered (s : Room) (base : Uri) (info : Info) : Room × ManualPC :=
  if info.pinRequired.isBool = false ∨ info.port.isInt = false then (s, .returned)
  else match manualServer base info.serviceId with
    | none => (s, .returned)
    | some server => ((s.attach server).1, .attach (s.attach server).2)

/-- The next section of `manual`. -/
def ManualPC.step (k : Outcome) (s : Room) : ManualPC → Option (Room × ManualPC)
  | .probe base r =>
      match r.pc with
      | .ended (.ok info) => some ((s.closeClient r.client).manualAnswered base info)
      | .ended (.error _) => some (s.closeClient r.client, .returned)
      | _ => (r.step k s).map fun x => (x.1, .probe base x.2)
  | .attach a =>
      match a.pc with
      | .returned _ => some (s, .returned)
      | _ => (a.step false k s).map fun x => (x.1, .attach x.2)
  | .returned => none

/-- Where `rename` is. -/
inductive RenamePC
  /-- At `await bridge.write('nickname', …)`. -/
  | write
  /-- At `await attach(…)`. -/
  | attach (a : Attach)
  | returned

/-- `rename` up to its first `await`, for the trimmed text. -/
def Room.rename (s : Room) (value : DartString) : Room × RenamePC :=
  if s.busy = true ∨ value = [] then (s, .returned)
  else ({ s with nickname := value }.write "nickname".toList value, .write)

/-- The next section of `rename`. -/
def RenamePC.step (k : Outcome) (s : Room) : RenamePC → Option (Room × RenamePC)
  | .write =>
      match k, s.selected with
      | .failed, _ | .done, none => some (s, .returned)
      | .done, some server => some ((s.attach server).1, .attach (s.attach server).2)
      | _, _ => none
  | .attach a =>
      match a.pc with
      | .returned _ => some (s, .returned)
      | _ => (a.step false k s).map fun x => (x.1, .attach x.2)
  | .returned => none

/-- Where `initialize` is. -/
inductive InitializePC
  /-- The directory, the key and the name are read. -/
  | prepare
  /-- At `await bridge.read('preferred')`. -/
  | preferred
  /-- The pending upload is read, and left files are deleted. -/
  | clean
  /-- At `await search()`. -/
  | search (x : Search)
  | returned
  /-- In the `catch`. -/
  | failed

/-- The next section of `initialize`. -/
def InitializePC.step (k : Outcome) (s : Room) : InitializePC → Option (Room × InitializePC)
  | .prepare =>
      match k with
      | .failed => some (s, .failed)
      | .done => some (s, .preferred)
      | _ => none
  | .preferred =>
      match k with
      | .failed => some (s, .failed)
      | .done => some ({ s with preferred := s.storage "preferred".toList }, .clean)
      | _ => none
  | .clean =>
      match k with
      | .failed => some (s, .failed)
      | .done =>
          let s := { s with network := true }
          some ((s.search false).1, .search (s.search false).2)
      | _ => none
  | .search x =>
      match x.pc with
      | .returned => some (s, .returned)
      | _ => (x.step k s).map fun y => (y.1, .search y.2)
  | .returned | .failed => none

/-! ## What happens at once -/

namespace Room

variable (s : Room)

/-- `_lost`. -/
def lost (token : ℕ) : Room × RecoverPC :=
  if token ≠ s.generation ∨ s.disposed = true then (s, .returned)
  else
    let s := { s with connected := false }
    if (s.foreground = true ∨ s.service = true) ∧ s.busy = false then s.recover
    else (s.schedule, .returned)

/-- `_retry` fires. -/
def fireRetry : Room × RecoverPC :=
  if (s.foreground = true ∨ s.service = true) ∧ s.busy = false ∧ s.needsPin = false ∧
      s.connected = false then s.recover
  else if s.disposed = false ∧ s.connected = false then (s.schedule, .returned)
  else (s, .returned)

/-- `_debounce` fires. -/
def fireDebounce : Room × ReconnectPC :=
  if s.foreground = true ∨ s.service = true then s.reconnect true else (s, .returned)

/-- `foreground(active)`. -/
def setForeground (active : Bool) : Room × ReconnectPC :=
  let s := { s with foreground := active }
  if active then s.reconnect false else (s, .returned)

/-- The recipients that the user last chose for a server. -/
def chosenFor : Option DartString → List DartString
  | none => []
  | some id => s.chosen id

/-- `text`, for the trimmed text. -/
def text (value : DartString) : Room :=
  if value = [] ∨ s.client = none then s
  else s.note (.text s.owner s.lastSelected s.recipients (s.chosenFor s.owner) s.hasOpenSocket)

/-- The user chooses recipients. -/
def choose (recipients : List DartString) : Room :=
  { s.note (.chose s.selectedID) with
    recipients
    chosen := match s.selectedID with
      | none => s.chosen
      | some id => Function.update s.chosen id recipients }

/-- `_handleExpired`. -/
def handleExpired (e : Failure) : Room :=
  { s with
    needsPin := s.needsPin || e = .status 401
    connected := s.connected && e ≠ .status 401 }

/-- `dispose`. -/
def dispose : Room :=
  { s with
    disposed := true
    generation := s.generation + 1
    retry := false
    debounce := false
    network := false }.cancelSocket.closeCurrent

end Room

/-- What a socket delivers. -/
inductive Frame
  /-- `history`. -/
  | history (messages : List DartString)
  /-- `message`. -/
  | message (body : DartString)
  /-- `welcome`, `presence` and what is not understood. -/
  | other

/-- The messages after a frame from the socket `ws`. -/
def received (messages : List Message) (ws : ℕ) : Frame → List Message
  | .history bodies => bodies.map fun body => ⟨body, ws⟩
  | .message body =>
      let messages := messages ++ [⟨body, ws⟩]
      if 500 < messages.length then messages.drop 1 else messages
  | .other => messages

/-! ## Calls -/

/-- What the user, a timer, a socket or the system starts. -/
inductive Call
  | search (chooseAnother : Bool)
  | manual (base : Option Uri)
  | attach (server : FoundServer)
  | login
  | rename (value : DartString)
  | foreground (active : Bool)
  | text (value : DartString)
  /-- A chip for recipients is tapped. -/
  | choose (recipients : List DartString)
  /-- `_retry` fires. -/
  | retry
  /-- `_network` reports a change. -/
  | network
  /-- `_debounce` fires. -/
  | debounce
  /-- A socket delivers a frame. -/
  | frame (ws : ℕ) (f : Frame)
  /-- A socket reports its end, by `onDone` or `onError`. -/
  | lost (ws : ℕ)
  /-- `readyState` of a socket changes. -/
  | drop (ws : ℕ)
  /-- `download`, `resumeUpload` or `cancelUpload` make a request. -/
  | transfer
  | dispose

/-- A call, or what is left of it to do. -/
inductive Thread
  | call (c : Call)
  | initializing (pc : InitializePC)
  | search (x : Search)
  | manual (pc : ManualPC)
  | attach (a : Attach)
  | login (l : Login)
  | rename (pc : RenamePC)
  | recover (pc : RecoverPC)
  | reconnect (pc : ReconnectPC)
  | transfer (r : Request)
  | ended

/-- The subscription of a socket reports its end. -/
def Room.lostSocket (s : Room) (ws : ℕ) (x : Socket) : Room × RecoverPC :=
  (s.modifySocket ws fun x => { x with isOpen := false, listening := false, ended := true }).lost
    x.token

/-- The first section of a call. -/
def Call.start (s : Room) : Call → Option (Room × Thread)
  | .search another => some ((s.search another).1, .search (s.search another).2)
  | .manual base => some ((s.manual base).1, .manual (s.manual base).2)
  | .attach server => some ((s.attach server).1, .attach (s.attach server).2)
  | .login => some (s.login.1, .login s.login.2)
  | .rename value => some ((s.rename value).1, .rename (s.rename value).2)
  | .foreground active =>
      some ((s.setForeground active).1, .reconnect (s.setForeground active).2)
  | .text value => some (s.text value, .ended)
  | .choose recipients => some (s.choose recipients, .ended)
  | .retry =>
      if s.retry then
        let s := { s with retry := false }
        some (s.fireRetry.1, .recover s.fireRetry.2)
      else none
  | .network => if s.network then some ({ s with debounce := true }, .ended) else none
  | .debounce =>
      if s.debounce then
        let s := { s with debounce := false }
        some (s.fireDebounce.1, .reconnect s.fireDebounce.2)
      else none
  | .frame ws f =>
      match s.sockets[ws]? with
      | none => none
      | some x =>
          if x.listening = false then none
          else if x.token ≠ s.generation then some (s, .ended)
          else some ({ s with messages := received s.messages ws f }, .ended)
  | .lost ws =>
      match s.sockets[ws]? with
      | none => none
      | some x =>
          if x.listening = false then none
          else some ((s.lostSocket ws x).1, .recover (s.lostSocket ws x).2)
  | .drop ws => some (s.closeWS (some ws), .ended)
  | .transfer =>
      match s.client with
      | none => some (s, .ended)
      | some c => some (s, .transfer ⟨c, .transfer, .opening⟩)
  | .dispose => some (s.dispose, .ended)

/-- The next section of a request of a file transfer. -/
def transferStep (k : Outcome) (s : Room) (r : Request) : Option (Room × Thread) :=
  match r.pc with
  | .ended (.ok _) => some (s, .ended)
  | .ended (.error e) => some (s.handleExpired e, .ended)
  | _ => (r.step k s).map fun x => (x.1, .transfer x.2)

/-- The next section of a thread. -/
def Thread.step (k : Outcome) (s : Room) : Thread → Option (Room × Thread)
  | .call c => c.start s
  | .initializing pc => (pc.step k s).map fun x => (x.1, .initializing x.2)
  | .search x => (x.step k s).map fun y => (y.1, .search y.2)
  | .manual pc => (pc.step k s).map fun x => (x.1, .manual x.2)
  | .attach a => (a.step false k s).map fun x => (x.1, .attach x.2)
  | .login l => (l.step k s).map fun x => (x.1, .login x.2)
  | .rename pc => (pc.step k s).map fun x => (x.1, .rename x.2)
  | .recover pc => (pc.step k s).map fun x => (x.1, .recover x.2)
  | .reconnect pc => (pc.step k s).map fun x => (x.1, .reconnect x.2)
  | .transfer r => transferStep k s r
  | .ended => none

/-- The **app** as a pool of threads. -/
def app : Machine Room Thread Outcome Unit where
  step _ k s th := (th.step k s).map fun x => (x.1, x.2, [])
  env _ s := s

/-- The app has just been opened, with what is in storage. -/
def boot (storage : DartString → Option DartString) : Config Room Thread :=
  ⟨{ storage }, [.initializing .prepare]⟩

/-- Calls arrive. -/
def Arrivals (_ : Config Room Thread) (act : Act Thread Outcome Unit) : Prop :=
  ∀ th, act = .spawn th → ∃ c, th = .call c

/-! ## Schedules -/

namespace Sample

/-- A thread goes on with these outcomes. -/
def goOn (t : Tid) (ks : List Outcome) : List (Act Thread Outcome Unit) := ks.map (.run t)

/-- A call arrives as thread `t` and goes on with these outcomes. -/
def call (t : Tid) (c : Call) (ks : List Outcome) : List (Act Thread Outcome Unit) :=
  .spawn (.call c) :: goOn t (.done :: ks)

/-- An action lets nothing but calls arrive. -/
def isArrival : Act Thread Outcome Unit → Bool
  | .spawn (.call _) => true
  | .spawn _ => false
  | _ => true

/-- The calls that a run begins with are calls of the user and of the system. -/
theorem arrivals {as : List (Act Thread Outcome Unit)} (h : as.all isArrival = true)
    (c : Config Room Thread) : ∀ a ∈ as, Arrivals c a := by
  intro a ha th heq
  have harrival := List.all_eq_true.mp h a ha
  subst heq
  cases th with
  | call c => exact ⟨c, rfl⟩
  | _ => cases harrival

/-- A request is answered. -/
def answered (info : Info) : List Outcome := [.done, .response 200 none info, .done]

/-- `attach` from its first `await` to the end of its second request. -/
def informed (info : Info) : List Outcome :=
  [.done] ++ answered info ++ [.done, .done] ++ answered info

/-- `_open` from its first `await` to its end. -/
def opened : List Outcome := [.done, .done, .done, .done, .done, .done]

/-- `initialize` finds no server. -/
def started : List (Act Thread Outcome Unit) :=
  goOn 0 [.done, .done, .done, .done, .allowed true, .done, .found [], .done]

/-- The address of a server. -/
def address (name : Char) : Uri := ⟨[name], [name]⟩

/-- A server without a PIN. -/
def publicInfo (name : Char) : Info :=
  { serviceId := .string [name], discoveryVersion := .int 1, pinRequired := .bool false,
    port := .int 8787 }

/-- The user connects to a server by its address, up to the end of the second request. -/
def visit (t : Tid) (name : Char) (info : Info) : List (Act Thread Outcome Unit) :=
  call t (.manual (some (address name))) (answered info ++ [.done] ++ informed info)

end Sample

end LanRoom.Mobile
