import LanRoom.Auth.Model
import LanRoom.Data.Double

/-! # The routes of the server

`Handler`, `handleInfo` and `handleQRCode` of `internal/server/server.go`, with `authorized` and `requireAuth` of
`internal/server/auth.go`: which handler a path leads to, which handlers ask for the session cookie
first, and what the info page shows. -/

namespace LanRoom.Routes

open LanRoom.Go (queryEscape formatInt)
open LanRoom.Upload (Time)
open LanRoom.Auth (AuthState AuthRequest AuthPC authStep)
open ThreadPool (Tid Machine Act)

/-! ## Data -/

/-- The part of `Config` that `Handler` and `handleInfo` read. The PIN is kept in `AuthState`. -/
structure Config where
  serviceID : GoString := []
  port : ℤ
  /-- `StaticFS` is not nil. -/
  staticFS : Bool := false
  maxUploadBytes : ℤ
  retention : Time
  /-- Empty in a local network. -/
  publicURL : GoString := []

/-- `infoResponse`. -/
structure InfoResponse where
  serviceID : GoString
  discoveryVersion : ℤ
  joinURL : GoString
  publicURL : GoString
  pinRequired : Bool
  authorized : Bool
  retentionSec : ℤ
  port : ℤ
  localIPs : List GoString
  urls : List GoString
  clientCount : ℕ
  maxUploadMB : ℤ
  deriving DecidableEq

/-- A request. What `handleAuth` reads of it is an `AuthRequest`. -/
structure Request extends AuthRequest where
  /-- The cleaned path. -/
  path : GoString
  /-- The names and values of the cookies, in their order. -/
  cookies : List (GoString × GoString) := []
  /-- `AdvertiseIPv4Addresses(r)`. -/
  ips : List GoString := []
  /-- `s.hub.ClientCount()`. -/
  clientCount : ℕ := 0
  /-- `r.URL.Query().Get("url")`. -/
  url : GoString := []

/-- `r.Cookie(name)`: the value of the first cookie of that name. -/
def Request.cookie (r : Request) (name : GoString) : Option GoString :=
  (r.cookies.find? fun c => c.1 = name).map Prod.snd

/-- `sessionCookie`. -/
def sessionCookie : GoString := goString "lanroom_session"

/-! ## Routes -/

/-- The handlers of the server. -/
inductive Handler
  | handleInfo | handleQRCode | handleAuth | handleUpload | handleUploadCreate | handleUploadSession
  | handleDownload | handleWebSocket | fileServer
  deriving DecidableEq

/-- A call of `mux.HandleFunc`; `protect` tells whether the handler is wrapped in `requireAuth`. -/
structure Registration where
  pattern : GoString
  protect : Bool
  handler : Handler
  deriving DecidableEq

/-- `Handler`: what is registered. -/
def registrations (cfg : Config) : List Registration :=
  [⟨goString "/api/info", false, .handleInfo⟩,
   ⟨goString "/api/qrcode", false, .handleQRCode⟩,
   ⟨goString "/api/auth", false, .handleAuth⟩,
   ⟨goString "/api/upload", true, .handleUpload⟩,
   ⟨goString "/api/uploads", true, .handleUploadCreate⟩,
   ⟨goString "/api/uploads/", true, .handleUploadSession⟩,
   ⟨goString "/api/files/", true, .handleDownload⟩,
   ⟨goString "/ws", true, .handleWebSocket⟩] ++
    if cfg.staticFS then [⟨goString "/", false, .fileServer⟩] else []

/-- What `http.ServeMux` makes of a path. -/
inductive Match
  | registered (reg : Registration)
  /-- To the path with a slash at its end. -/
  | redirect
  | notFound

/-- A pattern that ends in a slash matches every path it is a prefix of. -/
def Registration.covers (reg : Registration) (path : GoString) : Bool :=
  reg.pattern.getLast? = some Go.slash && reg.pattern.isPrefixOf path

/-- The lookup of `http.ServeMux`: a pattern equal to the path, else a redirection when the path
lacks only the slash of a pattern, else the longest pattern that covers the path. -/
def mux (regs : List Registration) (path : GoString) : Match :=
  match regs.find? fun reg => reg.pattern = path with
  | some reg => .registered reg
  | none =>
      if regs.any fun reg => reg.pattern = path ++ [Go.slash] then .redirect
      else match List.argmax (fun reg => reg.pattern.length)
          (regs.filter fun reg => reg.covers path) with
        | some reg => .registered reg
        | none => .notFound

/-! ## Handlers -/

/-- `authorized`. -/
def authorized (a : AuthState) (r : Request) : Bool :=
  if a.enabled = false then true
  else match r.cookie sessionCookie with
    | none => false
    | some value => match a.sessions value with
      | none => false
      | some expiry => a.now < expiry

/-- `pin required`, the answer of `requireAuth`. -/
def pinRequired : Auth.Answer := .error 401 "pin required"

/-- `"http://%s:%d"`. -/
def lanURL (cfg : Config) (ip : GoString) : GoString :=
  goString "http://" ++ ip ++ goString ":" ++ formatInt cfg.port

/-- `joinURLs`. -/
def joinURLs (cfg : Config) (lanIPs : List GoString) : List GoString := lanIPs.map (lanURL cfg)

/-- `preferredJoinURL`. -/
def preferredJoinURL (cfg : Config) : List GoString → GoString
  | ip :: _ => lanURL cfg ip
  | [] => []

/-- The join URL of `handleInfo` before the PIN is put into it. -/
def bareJoinURL (cfg : Config) (r : Request) : GoString :=
  if cfg.publicURL ≠ [] then cfg.publicURL else preferredJoinURL cfg r.ips

/-- `int64(d.Seconds())`. `Seconds` adds the whole seconds and the quotient of the nanoseconds as
`float64`, so that a long time is rounded, upwards too. -/
def wholeSeconds (d : Time) : ℤ :=
  let sec := d.natAbs / 1000000000
  let nsec := d.natAbs % 1000000000
  let seconds := Double.sum (sec * Double.one) (Double.quotient nsec 1000000000) / Double.one
  if d < 0 then -(seconds : ℤ) else seconds

example : wholeSeconds 86400000000000 = 86400 ∧ wholeSeconds 8388608999999999 = 8388608 ∧
    wholeSeconds 9000000000999999999 = 9000000001 := by
  decide +kernel

/-- `handleInfo`. -/
def handleInfo (cfg : Config) (a : AuthState) (r : Request) : InfoResponse :=
  let ips := if cfg.publicURL ≠ [] then [] else r.ips
  let urls := if cfg.publicURL ≠ [] then [cfg.publicURL] else joinURLs cfg ips
  let join := bareJoinURL cfg r
  let authorized := authorized a r
  { serviceID := cfg.serviceID
    discoveryVersion := 1
    port := cfg.port
    localIPs := ips
    urls
    joinURL :=
      if join ≠ [] ∧ a.enabled = true ∧ authorized = true then
        join ++ goString "/#pin=" ++ queryEscape a.pin
      else join
    publicURL := cfg.publicURL
    pinRequired := a.enabled
    authorized
    retentionSec := wholeSeconds cfg.retention
    clientCount := r.clientCount
    maxUploadMB := cfg.maxUploadBytes >>> 20 }

/-- `handleQRCode`; `encode` stands for `qrcode.Encode(·, qrcode.Medium, 256)`. -/
def handleQRCode (cfg : Config) (encode : GoString → Option Bytes) (r : Request) :
    Except Auth.Answer Bytes :=
  if r.method ≠ .get then .error Auth.methodNotAllowed
  else
    let target := if Go.trimSpace r.url = [] then preferredJoinURL cfg r.ips else Go.trimSpace r.url
    if target = [] then .error (.error 400 "no join url available")
    else match encode target with
      | none => .error (.error 500 "qrcode failed")
      | some png => .ok png

/-! ## Sections

Requests interleave between the accesses to `authState`. -/

/-- Program points of a request. -/
inductive RequestPC
  /-- Find the handler and, on a protected route, check the session cookie. -/
  | start
  /-- `handleAuth`. -/
  | auth (pc : AuthPC)
  /-- Another handler runs; it does not access `authState`. -/
  | inner (h : Handler)
  | info (resp : InfoResponse)
  | refused (a : Auth.Answer)
  /-- `http.ServeMux` has answered. -/
  | unmatched

/-- Program points of `prune`. -/
inductive PrunePC
  | start
  /-- Take `mu` and drop what was over at `now`. -/
  | drop (now : Time)
  | ended

inductive Thread
  | request (r : Request) (pc : RequestPC)
  | prune (pc : PrunePC)

/-- `prune` with the reading `now` of the clock. -/
def pruneAt (a : AuthState) (now : Time) : AuthState := { { a with now }.prune with now := a.now }

/-- A registered handler is called. -/
def dispatch (cfg : Config) (a : AuthState) (r : Request) (reg : Registration) : RequestPC :=
  if reg.protect = true ∧ authorized a r = false then .refused pinRequired
  else match reg.handler with
    | .handleInfo => .info (handleInfo cfg a r)
    | .handleAuth => .auth .start
    | h => .inner h

/-- The next section of a request. -/
def requestStep (cfg : Config) (s : Auth.State) (r : Request) :
    RequestPC → Option (Auth.State × RequestPC)
  | .start =>
      match mux (registrations cfg) r.path with
      | .registered reg => some (s, dispatch cfg s.auth r reg)
      | _ => some (s, .unmatched)
  | .auth pc => (authStep s r.toAuthRequest pc).map fun x => (x.1, .auth x.2)
  | _ => none

/-- The next section of `prune`. -/
def pruneStep (s : Auth.State) : PrunePC → Option (Auth.State × PrunePC)
  | .start => some (s, .drop s.auth.now)
  | .drop now => some (s.become (pruneAt s.auth now), .ended)
  | .ended => none

/-- The next section of a thread. -/
def Thread.step (cfg : Config) (s : Auth.State) : Thread → Option (Auth.State × Thread)
  | .request r pc => (requestStep cfg s r pc).map fun x => (x.1, .request r x.2)
  | .prune pc => (pruneStep s pc).map fun x => (x.1, .prune x.2)

/-- The **server** as a pool of threads; the environment lets time pass. -/
def machine (cfg : Config) : Machine Auth.State Thread Unit ℕ where
  step _ _ s th := (th.step cfg s).map fun x => (x.1, x.2, [])
  env d s := { s with auth := { s.auth with now := s.auth.now + d } }

/-- A server that has just been started with a PIN. -/
def boot (pin : GoString) (now : Time) : ThreadPool.Config Auth.State Thread :=
  ⟨⟨Auth.newAuthState pin now, fun _ => 0⟩, []⟩

/-- Requests and ticks of the cleanup timer arrive. -/
def Arrivals (_ : ThreadPool.Config Auth.State Thread) (act : Act Thread Unit ℕ) : Prop :=
  ∀ th, act = .spawn th → (∃ r, th = .request r .start) ∨ th = .prune .start

end LanRoom.Routes
