import LanRoom.Upload.Outline

/-! # The upload loop of the web client

`uploadResumable` of `src/web/static/app.js`, from one `await` to the next, beside the upload server
and a network between them. The network may lose a request or its answer, cut the body of a request
at any byte, and deliver a request after the client has given it up; the server works for others at
the same time. -/

namespace LanRoom.Upload

open ThreadPool (Tid Act)

/-! ## Data -/

/-- `UPLOAD_MAX_RETRIES`. -/
def uploadMaxRetries : ℕ := 10

/-- `UploadError`, without the text shown to the user. -/
structure UploadError where
  retryable : Bool := false
  status : ℕ := 0
  deriving DecidableEq

/-- What `uploadResumable` throws. -/
inductive Thrown
  /-- A `DOMException` named `AbortError`. -/
  | abort
  | upload (err : UploadError)
  deriving DecidableEq

/-- Where `uploadResumable` is. -/
inductive ClientPC
  /-- At the condition of the `while` loop. -/
  | head
  /-- The `PUT` is under way, and handled by a thread once it has arrived. -/
  | put (r : SessionRequest) (handler : Option Tid)
  /-- Before the next attempt. -/
  | sleep
  /-- The `GET` is under way. -/
  | get (r : SessionRequest) (handler : Option Tid)
  | returned (file : FileResponse)
  | thrown (e : Thrown)

/-- The variables of `uploadResumable`. -/
structure Client where
  uploadId : FileID
  chunkSize : ℤ
  session : UploadStateResponse
  offset : ℤ
  failures : ℕ := 0
  pc : ClientPC := .head
  /-- The requests of the loop sent so far, which no code reads. -/
  sent : List SessionRequest := []

/-- `httpError`. -/
def httpError (status : ℕ) : UploadError :=
  if status = 401 then { status := 401 }
  else { retryable := 500 ≤ status || status = 400 || status = 0, status }

/-- `openUploadSession` returns `session` when it is what this thread has answered: to the `GET` of an
upload begun earlier, or to the `POST`. -/
def Thread.opens (session : UploadStateResponse) : Thread → Prop
  | .create _ (.done (.state status body)) => status = 201 ∧ body = session
  | .session r (.done (.state status body)) => r.method = .get ∧ status = 200 ∧ body = session
  | _ => False

/-- The error of `xhr.onerror`. -/
def networkError : UploadError := { retryable := true }

/-! ## The loop -/

namespace Client

/-- The client that has received `session` from `openUploadSession`. -/
def start (session : UploadStateResponse) : Client :=
  { uploadId := session.uploadID, chunkSize := session.chunkSize, session, offset := session.offset }

variable (file : Bytes) (c : Client)

/-- The `PUT` with the bytes `file.slice(offset, end)`. -/
def putRequest : SessionRequest :=
  let stop := min (c.offset + c.chunkSize) file.length
  { method := .put, id := c.uploadId, offset := Go.formatInt c.offset
    body := (file.drop c.offset.toNat).take (stop - c.offset).toNat }

/-- The `GET` for the progress of the server. -/
def getRequest : SessionRequest := { method := .get, id := c.uploadId }

/-- Run on to the next `await`: from the condition of the loop, or when the sleep is over. -/
def go : Option Client :=
  match c.pc with
  | .head =>
      match c.session.file with
      | some f => some { c with pc := .returned f }
      | none =>
          let r := c.putRequest file
          some { c with pc := .put r none, sent := c.sent ++ [r] }
  | .sleep =>
      let r := c.getRequest
      some { c with pc := .get r none, sent := c.sent ++ [r] }
  | _ => none

/-- The `catch` around the `PUT`, for an error other than an `AbortError`. -/
def failed (err : UploadError) : Client :=
  if err.retryable = false then { c with pc := .thrown (.upload err) }
  else if uploadMaxRetries < c.failures + 1 then
    { c with failures := c.failures + 1, pc := .thrown (.upload {}) }
  else { c with failures := c.failures + 1, pc := .sleep }

/-- The server's progress replaces the client's. -/
def progressed (body : UploadStateResponse) : Client :=
  { c with session := body, offset := body.offset, pc := .head }

/-- The answer to the `PUT`. -/
def putAnswered : Answer → Client
  | .state status body =>
      if status = 200 then { c.progressed body with failures := 0 }
      -- the server is elsewhere than the client thought, and the server is right
      else if status = 409 then c.progressed body
      else c.failed (httpError status)
  -- the handlers of uploads answer 200 and 409 with an `uploadStateResponse` only
  | a => c.failed (httpError a.status)

/-- The answer to the `GET`. -/
def getAnswered : Answer → Client
  | .state status body =>
      if status = 200 then c.progressed body
      else if status ≠ 0 then { c with pc := .thrown (.upload (httpError status)) }
      else { c with pc := .head }
  | a =>
      if a.status ≠ 0 then { c with pc := .thrown (.upload (httpError a.status)) }
      else { c with pc := .head }

/-- The network reports an error for the request under way. -/
def lost : Option Client :=
  match c.pc with
  | .put _ _ => some (c.failed networkError)
  | .get _ _ => some { c with pc := .head }
  | _ => none

/-- The user cancels the upload. -/
def aborted : Option Client :=
  match c.pc with
  | .put _ _ | .get _ _ | .sleep => some { c with pc := .thrown .abort }
  | _ => none

/-- The loop has ended. -/
def ended : Bool :=
  match c.pc with
  | .returned _ | .thrown _ => true
  | _ => false

end Client

/-! ## Client, network and server -/

/-- The client and the server. -/
structure System where
  server : ThreadPool.Config Server Thread
  client : Client
  /-- The threads that handle a `PUT` of the client. -/
  handlers : List Tid := []

/-- What happens next. -/
inductive Move
  /-- The server, or one of its other clients, acts. -/
  | server (act : Act Thread Unit ℕ)
  /-- The request under way arrives; the fault `copyErr` is the byte at which its body is cut. -/
  | deliver (faults : Faults)
  /-- The `i`-th request ever sent arrives, again or after it has been given up. -/
  | late (i : ℕ) (faults : Faults)
  /-- The client runs on. -/
  | go
  /-- The client receives the answer to the request under way. -/
  | answer
  /-- The client is told that the request under way has failed. -/
  | lose
  /-- The user cancels. -/
  | abort

/-- The move is one of the client. -/
def Move.byClient : Move → Bool
  | .go | .answer | .lose | .abort => true
  | _ => false

namespace System

variable (cfg : Config) (file : Bytes) (S : System)

/-- A request arrives at the server. -/
def arrive (r : SessionRequest) : ThreadPool.Config Server Thread :=
  ⟨S.server.shared, S.server.threads ++ [.session r .start]⟩

/-- The next thread of the server. -/
def newTid : Tid := S.server.threads.length

/-- The request under way arrives. -/
def deliver (faults : Faults) : Option System :=
  match S.client.pc with
  | .put r none =>
      some { server := S.arrive { r with faults }
             client := { S.client with pc := .put r (some S.newTid) }
             handlers := S.handlers ++ [S.newTid] }
  | .get r none =>
      some { S with server := S.arrive { r with faults }
                    client := { S.client with pc := .get r (some S.newTid) } }
  | _ => none

/-- The `i`-th request arrives late. -/
def late (i : ℕ) (faults : Faults) : Option System :=
  S.client.sent[i]?.map fun r =>
    { S with server := S.arrive { r with faults }
             handlers := if r.method = .put then S.handlers ++ [S.newTid] else S.handlers }

/-- The answer of a thread, if it has ended. -/
def answerOf (t : Tid) : Option Answer := S.server.threads[t]?.bind Thread.answer?

/-- The answer to the request under way is received. -/
def answer : Option System :=
  match S.client.pc with
  | .put _ (some t) => (S.answerOf t).map fun a => { S with client := S.client.putAnswered a }
  | .get _ (some t) => (S.answerOf t).map fun a => { S with client := S.client.getAnswered a }
  | _ => none

/-- One move. -/
def exec : Move → Option System
  | .server act => ((machine cfg).exec S.server act).map fun d => { S with server := d }
  | .deliver faults => S.deliver faults
  | .late i faults => S.late i faults
  | .go => (S.client.go file).map fun c => { S with client := c }
  | .answer => S.answer
  | .lose => S.client.lost.map fun c => { S with client := c }
  | .abort => S.client.aborted.map fun c => { S with client := c }

/-- Any number of moves. -/
def execAll (S : System) : List Move → Option System
  | [] => some S
  | m :: moves => (S.exec cfg file m).bind fun S' => execAll S' moves

end System

/-- Whoever else arrives at the server arrives with a request. -/
def Move.Ok (m : Move) : Prop := ∀ th, m = .server (.spawn th) → ∃ r : Request, th = r.thread

end LanRoom.Upload
