import LanRoom.Upload.Model

/-! # The room PIN

`internal/server/auth.go`: a room may ask for a PIN. `POST /api/auth` with the right PIN hands out a
session cookie; wrong PINs are counted per peer, and a peer that has made `authFailLimit` of them in
one `failWindow` is turned away until the window is over. -/

namespace LanRoom.Auth

open LanRoom.Upload (Time Method randomID)
open ThreadPool (Tid Machine Act)
open Relation (ReflTransGen)
open Function (update)

/-! ## Constants and data -/

/-- `sessionTTL`, 30 days in nanoseconds. -/
def sessionTTL : Time := 30 * 24 * 3600 * 1000000000

/-- `authFailLimit`. -/
def authFailLimit : ℕ := 5

/-- `authFailWindow`, one minute in nanoseconds. -/
def authFailWindow : Time := 60 * 1000000000

/-- The address `rawClientIP` finds for a request. -/
abbrev Peer := GoString

/-- `failWindow`: the wrong PINs of one peer and when the first of them was recorded. -/
structure FailWindow where
  count : ℕ
  start : Time
  deriving DecidableEq

/-- `authState`. -/
structure AuthState where
  /-- The clock read by `time.Now`. -/
  now : Time
  /-- The room PIN; no PIN is asked for when it is empty. -/
  pin : GoString
  /-- The session tokens with their expiry. -/
  sessions : GoString → Option Time
  fails : Peer → Option FailWindow

/-- `newAuthState`. -/
def newAuthState (pin : GoString) (now : Time) : AuthState :=
  { now, pin, sessions := fun _ => none, fails := fun _ => none }

/-- `POST /api/auth`. -/
structure AuthRequest where
  method : Method
  /-- `a.proxies.rawClientIP(r)`. -/
  peer : Peer
  /-- The field `pin` of the decoded body; `none` when the JSON is invalid. -/
  pin : Option GoString
  /-- The 16 bytes `rand.Read` delivers, unless it fails. -/
  rand : Option (Vector UInt8 16) := none
  /-- `a.proxies.isHTTPS(r)`. -/
  isHTTPS : Bool := false

/-- The session cookie: its value, `MaxAge` and `Secure`. Name, path and the other attributes are
fixed. -/
structure SessionCookie where
  value : GoString
  maxAge : ℤ
  secure : Bool
  deriving DecidableEq

/-- What `handleAuth` answers. -/
inductive Answer
  /-- `http.Error`. -/
  | error (status : ℕ) (text : String)
  /-- `{"ok": true}`, with the session cookie if one is set. -/
  | ok (cookie : Option SessionCookie)
  deriving DecidableEq

/-! ## Handlers -/

namespace AuthState

variable (a : AuthState)

/-- `enabled`. -/
def enabled : Bool := a.pin ≠ []

/-- `time.Since(f.start) > authFailWindow`. -/
def expired (f : FailWindow) : Bool := authFailWindow < a.now - f.start

def setFails (peer : Peer) (f : Option FailWindow) : AuthState :=
  { a with fails := update a.fails peer f }

def setSession (token : GoString) (expiry : Time) : AuthState :=
  { a with sessions := update a.sessions token (some expiry) }

/-- `tooManyFails`. -/
def tooManyFails (peer : Peer) : AuthState × Bool :=
  match a.fails peer with
  | none => (a, false)
  | some f => if a.expired f then (a.setFails peer none, false) else (a, authFailLimit ≤ f.count)

/-- The window `recordFail` counts in: the current one unless it is over, else a new one. -/
def currentWindow (peer : Peer) : FailWindow :=
  match a.fails peer with
  | none => ⟨0, a.now⟩
  | some f => if f.count = 0 ∨ a.expired f = true then ⟨0, a.now⟩ else f

/-- `recordFail`. -/
def recordFail (peer : Peer) : AuthState :=
  let f := a.currentWindow peer
  a.setFails peer (some { f with count := f.count + 1 })

/-- `prune`: drop the sessions and windows that are over. -/
def prune : AuthState :=
  { a with
    sessions := fun token => (a.sessions token).filter fun expiry => !decide (expiry < a.now)
    fails := fun peer => (a.fails peer).filter fun f => !a.expired f }

/-- The section of `handleAuth` that stores the session and forgets the failures. -/
def letIn (peer : Peer) (token : GoString) : AuthState :=
  (a.setSession token (a.now + sessionTTL)).setFails peer none

end AuthState

def methodNotAllowed : Answer := .error 405 "method not allowed"
def tooManyAttempts : Answer := .error 429 "too many attempts, retry later"
def invalidJSON : Answer := .error 400 "invalid json"
def wrongPIN : Answer := .error 401 "wrong pin"
def internalError : Answer := .error 500 "internal error"

/-- The answer that sets the session cookie. -/
def admitted (r : AuthRequest) (token : GoString) : Answer :=
  .ok (some ⟨token, sessionTTL / 1000000000, r.isHTTPS⟩)

/-- `handleAuth` from the reading of the body on. -/
def comparePIN (a : AuthState) (r : AuthRequest) : AuthState × Answer :=
  match r.pin with
  | none => (a, invalidJSON)
  | some pin =>
      if pin ≠ a.pin then (a.recordFail r.peer, wrongPIN)
      else match r.rand with
        | none => (a, internalError)
        | some rand => (a.letIn r.peer (randomID rand), admitted r (randomID rand))

/-- `handleAuth`. -/
def handleAuth (a : AuthState) (r : AuthRequest) : AuthState × Answer :=
  if r.method ≠ .post then (a, methodNotAllowed)
  else if a.enabled = false then (a, .ok none)
  else match a.tooManyFails r.peer with
    | (a, true) => (a, tooManyAttempts)
    | (a, false) => comparePIN a r

/-! ## Sections

Requests interleave between the accesses to the state, each of which takes `a.mu`, and while a body
is read from the network. -/

/-- Program points of `handleAuth`. -/
inductive AuthPC
  /-- Check the method and `tooManyFails`. -/
  | start
  /-- Read the body and compare the PIN. -/
  | compare
  /-- `recordFail`. -/
  | recordFail
  /-- Store the session and delete the failures. -/
  | letIn (token : GoString)
  | done (a : Answer)

/-- A request being handled, or a tick of the cleanup timer. -/
inductive Thread
  | auth (r : AuthRequest) (pc : AuthPC)
  | prune (ended : Bool)

/-- The request carries a PIN that is not the room's. -/
def AuthRequest.wrong (r : AuthRequest) (pin : GoString) : Bool := r.pin.any fun p => p ≠ pin

/-- The shared state: `authState`, and for each peer the number of wrong PINs compared since its
last `failWindow` ended, which no code reads. -/
structure State where
  auth : AuthState
  guesses : Peer → ℕ

/-- The window of `peer` is dropped or replaced. -/
def windowEnds (a a' : AuthState) (peer : Peer) : Bool :=
  match a.fails peer with
  | none => false
  | some f => (a'.fails peer).map FailWindow.start ≠ some f.start

/-- The state after a section that leaves `authState` as `a`. -/
def State.become (s : State) (a : AuthState) : State :=
  { auth := a, guesses := fun peer => if windowEnds s.auth a peer then 0 else s.guesses peer }

/-- The state after a wrong PIN of `peer` has been compared. -/
def State.guessed (s : State) (peer : Peer) : State :=
  { s with guesses := update s.guesses peer (s.guesses peer + 1) }

/-- `handleAuth`, section by section. -/
def authStep (s : State) (r : AuthRequest) : AuthPC → Option (State × AuthPC)
  | .start =>
      if r.method ≠ .post then some (s, .done methodNotAllowed)
      else if s.auth.enabled = false then some (s, .done (.ok none))
      else match s.auth.tooManyFails r.peer with
        | (a, true) => some (s.become a, .done tooManyAttempts)
        | (a, false) => some (s.become a, .compare)
  | .compare =>
      match r.pin with
      | none => some (s, .done invalidJSON)
      | some pin =>
          if pin ≠ s.auth.pin then some (s.guessed r.peer, .recordFail)
          else match r.rand with
            | none => some (s, .done internalError)
            | some rand => some (s, .letIn (randomID rand))
  | .recordFail => some (s.become (s.auth.recordFail r.peer), .done wrongPIN)
  | .letIn token => some (s.become (s.auth.letIn r.peer token), .done (admitted r token))
  | .done _ => none

/-- The next section of a thread. -/
def Thread.step (s : State) : Thread → Option (State × Thread)
  | .auth r pc => (authStep s r pc).map fun x => (x.1, .auth r x.2)
  | .prune false => some (s.become s.auth.prune, .prune true)
  | .prune true => none

/-- The **PIN check** as a pool of threads; the environment lets time pass. -/
def machine : Machine State Thread Unit ℕ where
  step _ _ s th := (th.step s).map fun x => (x.1, x.2, [])
  env d s := { s with auth := { s.auth with now := s.auth.now + d } }

/-- A server that has just been started with a PIN. -/
def boot (pin : GoString) (now : Time) : ThreadPool.Config State Thread :=
  ⟨⟨newAuthState pin now, fun _ => 0⟩, []⟩

/-- Requests and ticks arrive at their first program point. -/
def Arrivals (_ : ThreadPool.Config State Thread) (act : Act Thread Unit ℕ) : Prop :=
  ∀ th, act = .spawn th → (∃ r, th = .auth r .start) ∨ th = .prune false

/-- A configuration the server can get into. -/
def Reachable (pin : GoString) (c : ThreadPool.Config State Thread) : Prop :=
  ∃ now, machine.Run Arrivals (boot pin now) c

/-- One thread alone takes the state and itself from one pair to another. -/
def Solo : State × Thread → State × Thread → Prop :=
  ReflTransGen fun x y => x.2.step x.1 = some y

/-- Begin with a section of `handleAuth`. A run of the handler alone is put together from its
sections in order. -/
theorem Solo.auth {s s₁ : State} {r : AuthRequest} {pc pc₁ : AuthPC} {z : State × Thread}
    (h : authStep s r pc = some (s₁, pc₁)) (hs : Solo (s₁, .auth r pc₁) z) :
    Solo (s, .auth r pc) z :=
  .head (by simp [Thread.step, h]) hs

/-- The sections of `handleAuth` after the check compute `comparePIN`. -/
theorem solo_comparePIN (s : State) (r : AuthRequest) :
    ∃ s' : State, Solo (s, .auth r .compare) (s', .auth r (.done (comparePIN s.auth r).2)) ∧
      s'.auth = (comparePIN s.auth r).1 := by
  unfold comparePIN
  cases hpin : r.pin with
  | none => exact ⟨s, .auth (by simp [authStep, hpin]) .refl, rfl⟩
  | some pin =>
      by_cases hwrong : pin ≠ s.auth.pin
      · have hcompare : authStep s r .compare = some (s.guessed r.peer, .recordFail) := by
          simp [authStep, hpin, hwrong]
        have hrecord : authStep (s.guessed r.peer) r .recordFail =
            some ((s.guessed r.peer).become (s.auth.recordFail r.peer), .done wrongPIN) := rfl
        simp only [if_pos hwrong]
        exact ⟨_, .auth hcompare (.auth hrecord .refl), rfl⟩
      · simp only [if_neg hwrong]
        cases hrand : r.rand with
        | none =>
            have hcompare : authStep s r .compare = some (s, .done internalError) := by
              simp [authStep, hpin, hrand, not_not.mp hwrong]
            exact ⟨s, .auth hcompare .refl, rfl⟩
        | some rand =>
            have hcompare : authStep s r .compare = some (s, .letIn (randomID rand)) := by
              simp [authStep, hpin, hrand, not_not.mp hwrong]
            exact ⟨_, .auth hcompare (.auth rfl .refl), rfl⟩

/-- **The sections of `handleAuth` compute `handleAuth`.** Without other requests in between, the
section-by-section model and the handler agree. -/
theorem solo_auth (s : State) (r : AuthRequest) :
    ∃ s' : State, Solo (s, .auth r .start) (s', .auth r (.done (handleAuth s.auth r).2)) ∧
      s'.auth = (handleAuth s.auth r).1 := by
  unfold handleAuth
  split
  · exact ⟨s, .auth (by simp [authStep, *]) .refl, rfl⟩
  · split
    · exact ⟨s, .auth (by simp_all [authStep]) .refl, rfl⟩
    · split
      · rename_i a hfails
        exact ⟨s.become a, .auth (by simp_all [authStep]) .refl, rfl⟩
      · rename_i a hfails
        have hstart : authStep s r .start = some (s.become a, .compare) := by
          simp_all [authStep]
        obtain ⟨s', hsolo, hauth⟩ := solo_comparePIN (s.become a) r
        exact ⟨s', .auth hstart hsolo, hauth⟩

end LanRoom.Auth
