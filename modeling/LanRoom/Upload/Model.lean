import LanRoom.Go.Text
import LanRoom.Concurrency.ThreadPool

/-! # The upload handlers

The server stores an upload as a file in `UploadDir` and keeps two indexes beside the directory:
`files`, the finished files that can be downloaded, and `uploads`, the sessions of resumable
uploads still in progress. This file holds the data of `internal/server/upload.go` and its handlers
as the functions one request computes when it runs alone; `LanRoom.Upload.Steps` cuts the same
handlers into the atomic sections that concurrent requests interleave.

Operating-system calls fail as the fields of `Faults` say. `os.Truncate` succeeds, a failing
`os.Create` makes no file, a failing `os.Rename` moves nothing, and a copy that reports `k` bytes
has written exactly these `k` bytes. -/

namespace LanRoom.Upload

open ThreadPool (Tid)
open Function (update)

/-! ## Constants and data -/

/-- `UploadChunkSize`, the largest chunk of one `PUT` (8 MiB). -/
def uploadChunkSize : ℤ := 8388608

/-- The part of `Config` the upload handlers read. -/
structure Config where
  /-- `MaxUploadBytes`, the largest size of one file. -/
  maxUploadBytes : ℤ
  /-- `MaxUploadBytes` is an `int64`. -/
  int64 : maxUploadBytes < 2 ^ 63

/-- The identifier of an upload, which is the identifier of the finished file. -/
abbrev FileID := GoString

/-- An instant or a duration in nanoseconds. -/
abbrev Time := ℤ

/-- The files the server creates in `UploadDir`: `UploadDir/id` and `UploadDir/id.part`. Identifiers
are 32 hexadecimal digits, so these names never coincide. -/
inductive Path
  /-- `filepath.Join(UploadDir, id)`. -/
  | final (id : FileID)
  /-- `filepath.Join(UploadDir, id+partSuffix)`. -/
  | part (id : FileID)
  deriving DecidableEq

/-- `fileRecord`: an entry of `files`. -/
structure FileRecord where
  name : GoString
  size : ℤ
  mime : GoString
  path : Path
  createdAt : Time
  deriving DecidableEq

/-- `uploadSession`: an upload in progress; the bytes stored so far are those of its `.part` file. -/
structure UploadSession where
  /-- The holder of `mu`. -/
  mu : Option Tid
  name : GoString
  mime : GoString
  size : ℤ
  path : Path
  updatedAt : Time
  deriving DecidableEq

/-- `fileResponse`. -/
structure FileResponse where
  fileID : FileID
  name : GoString
  size : ℤ
  mime : GoString
  deriving DecidableEq

/-- `uploadStateResponse`. -/
structure UploadStateResponse where
  uploadID : FileID
  offset : ℤ
  size : ℤ
  chunkSize : ℤ
  file : Option FileResponse
  deriving DecidableEq

/-- What a handler answers. -/
inductive Answer
  /-- `http.Error`. -/
  | error (status : ℕ) (text : String)
  /-- `writeJSON` of an `uploadStateResponse`. -/
  | state (status : ℕ) (body : UploadStateResponse)
  /-- `writeJSON` of a `fileResponse`. -/
  | file (status : ℕ) (body : FileResponse)
  /-- Status 204 without a body. -/
  | noContent
  deriving DecidableEq

/-- The `file` an answer carries. -/
def Answer.file? : Answer → Option FileResponse
  | .state _ body => body.file
  | .file _ body => some body
  | _ => none

/-- The status code of an answer. -/
def Answer.status : Answer → ℕ
  | .error status _ => status
  | .state status _ => status
  | .file status _ => status
  | .noContent => 204

/-- The **server state** the upload handlers share. -/
structure Server where
  /-- The clock read by `time.Now`. -/
  now : Time
  /-- The content of `UploadDir`. -/
  disk : Path → Option Bytes
  /-- `files`: the finished files. -/
  files : FileID → Option FileRecord
  /-- `uploads`: the identifiers whose session can be loaded. -/
  uploads : FileID → Bool
  /-- The session objects, by the identifier they were made for. An object outlives its entry in
  `uploads`, since a handler that has loaded it keeps the pointer. -/
  sessions : FileID → Option UploadSession
  /-- The identifiers `randomID` has returned so far. -/
  issued : FileID → Bool

/-- The server after start-up: `removeOrphanUploads` has cleared the directory. -/
def Server.init (now : Time) : Server :=
  { now, disk := fun _ => none, files := fun _ => none, uploads := fun _ => false
    sessions := fun _ => none, issued := fun _ => false }

/-! ## Requests -/

/-- The request methods the handlers distinguish. -/
inductive Method
  | get | put | post | delete | other
  deriving DecidableEq

/-- An error of `io.Copy`, reported after `after` bytes were written. -/
structure CopyErr where
  after : ℕ
  /-- The error is an `http.MaxBytesError`. -/
  maxBytes : Bool := false
  deriving DecidableEq

/-- Which operating-system calls fail while a request is handled. -/
structure Faults where
  create : Bool := false
  stat : Bool := false
  openFile : Bool := false
  copyErr : Option CopyErr := none
  close : Bool := false
  rename : Bool := false
  remove : Bool := false
  deriving DecidableEq

/-- One part of a multipart form. -/
structure Part where
  formName : GoString
  fileName : GoString
  contentType : GoString
  data : Bytes
  deriving DecidableEq

/-- How `NextPart` ends after the last part: with `io.EOF` or with another error. -/
inductive PartsEnd
  | eof | broken
  deriving DecidableEq

/-- `POST /api/upload`. -/
structure UploadRequest where
  method : Method
  /-- `MultipartReader` accepts the request. -/
  multipart : Bool
  parts : List Part
  ending : PartsEnd
  /-- The 16 bytes `rand.Read` delivers, unless it fails. -/
  rand : Option (Vector UInt8 16)
  faults : Faults := {}

/-- The JSON body of `POST /api/uploads`. -/
structure CreateBody where
  name : GoString
  size : ℤ
  mime : GoString
  deriving DecidableEq

/-- `POST /api/uploads`. -/
structure CreateRequest where
  method : Method
  /-- The decoded body; `none` when the JSON is invalid. -/
  body : Option CreateBody
  /-- The 16 bytes `rand.Read` delivers, unless it fails. -/
  rand : Option (Vector UInt8 16)
  faults : Faults := {}

/-- `GET`, `PUT` and `DELETE /api/uploads/{id}?offset=…`. -/
structure SessionRequest where
  method : Method
  /-- The path after `/api/uploads/`. -/
  id : GoString
  /-- The query parameter `offset`, empty when missing. -/
  offset : GoString := []
  body : Bytes := []
  faults : Faults := {}

/-- One call of `purgeExpiredFiles`. `sync.Map.Range` promises neither an order nor a snapshot, so
the keys it visits are part of the call, each with the outcome of the `os.Remove` there. -/
structure PurgeRequest where
  ttl : Time
  filesRange : List (FileID × Bool)
  uploadsRange : List (FileID × Bool)

/-! ## Updating the state -/

namespace Server

variable (s : Server)

def setDisk (p : Path) (b : Option Bytes) : Server := { s with disk := update s.disk p b }

def setFile (id : FileID) (rec : Option FileRecord) : Server :=
  { s with files := update s.files id rec }

def setUpload (id : FileID) (present : Bool) : Server :=
  { s with uploads := update s.uploads id present }

def setSession (id : FileID) (sess : UploadSession) : Server :=
  { s with sessions := update s.sessions id (some sess) }

/-- Set the holder of `sess.mu`. -/
def setMu (id : FileID) (mu : Option Tid) : Server :=
  { s with sessions := update s.sessions id ((s.sessions id).map fun sess => { sess with mu }) }

def issue (id : FileID) : Server := { s with issued := update s.issued id true }

/-- The session object that has been filled in. It is stored before the index of uploads points to
it. -/
@[simp] theorem sessions_setSession (id : FileID) (sess : UploadSession) :
    (s.setSession id sess).sessions id = some sess := Function.update_self ..

/-- The others stay. Different uploads have different session objects. -/
theorem sessions_setSession_ne {id id' : FileID} (h : id' ≠ id) (sess : UploadSession) :
    (s.setSession id sess).sessions id' = s.sessions id' := Function.update_of_ne h ..

/-- The lock is part of the session object. Locking and unlocking change nothing else in it. -/
@[simp] theorem sessions_setMu (id : FileID) (mu : Option Tid) :
    (s.setMu id mu).sessions id = (s.sessions id).map fun sess => { sess with mu } :=
  Function.update_self ..

/-- The locks of the others stay. There is one mutex for each upload and none for all of them. -/
theorem sessions_setMu_ne {id id' : FileID} (h : id' ≠ id) (mu : Option Tid) :
    (s.setMu id mu).sessions id' = s.sessions id' := Function.update_of_ne h ..

/-- `s.uploads.Load(id)`. -/
def load (id : FileID) : Option UploadSession := if s.uploads id then s.sessions id else none

/-- A loaded session is an existing object whose entry is present. -/
theorem load_eq_some {id : FileID} {sess : UploadSession} :
    s.load id = some sess ↔ s.uploads id = true ∧ s.sessions id = some sess := by
  rw [load]
  split <;> simp_all

/-! ### Operating-system calls -/

/-- `fileSize`: `os.Stat(path).Size()`. -/
def fileSize (f : Faults) (p : Path) : Option ℤ :=
  if f.stat then none else (s.disk p).map fun b => (b.length : ℤ)

/-- `os.Create`. -/
def create (f : Faults) (p : Path) : Option Server :=
  if f.create then none else some (s.setDisk p (some []))

/-- `os.OpenFile(path, os.O_WRONLY|os.O_APPEND, 0)` succeeds: without `O_CREATE` the file has to
exist. -/
def canAppend (f : Faults) (p : Path) : Bool := !f.openFile && (s.disk p).isSome

/-- Appending `data` to a file. -/
def append (p : Path) (data : Bytes) : Server := s.setDisk p ((s.disk p).map (· ++ data))

/-- `os.Truncate`. -/
def truncate (p : Path) (n : ℤ) : Server :=
  s.setDisk p ((s.disk p).map fun b => b.take n.toNat ++ List.replicate (n.toNat - b.length) 0)

/-- `os.Rename`. -/
def rename (f : Faults) (src dst : Path) : Option Server :=
  if f.rename then none
  else (s.disk src).map fun b => (s.setDisk src none).setDisk dst (some b)

/-- `os.Remove` with its error ignored; removing a missing file is such an error. -/
def remove (fails : Bool) (p : Path) : Server := if fails then s else s.setDisk p none

/-- `sess.mu.Lock()`, the section `body` and `sess.mu.Unlock()` by thread `t`. -/
def locked {α : Type} (t : Tid) (id : FileID) (sess : UploadSession)
    (body : Server → UploadSession → Server × α) : Server × α :=
  let sess := { sess with mu := some t }
  let r := body (s.setSession id sess) sess
  (r.1.setMu id none, r.2)

end Server

/-- `io.Copy(dst, io.LimitReader(body, n))`: the bytes written and the error, if one is met before
the body or the limit ends (or on the last of these bytes). -/
def ioCopy (body : Bytes) (n : ℤ) (err : Option CopyErr) : Bytes × Option CopyErr :=
  let limited := body.take n.toNat
  match err with
  | some e => if e.after ≤ limited.length then (limited.take e.after, some e) else (limited, none)
  | none => (limited, none)

/-! ## Identifiers, names and media types -/

/-- `randomID`: the hexadecimal text of 16 random bytes. -/
def randomID (rand : Vector UInt8 16) : FileID := Go.hexEncode rand.toList

/-- The characters `isHexFileID` accepts. -/
def isHexByte (c : UInt8) : Bool := (0x30 ≤ c && c ≤ 0x39) || (0x61 ≤ c && c ≤ 0x66)

/-- `isHexFileID`. A byte of a multi-byte character is never accepted, so going through the bytes
is the same as going through the runes. -/
def isHexFileID (id : GoString) : Bool := id.length == 32 && id.all isHexByte

/-- `sanitizeFileName`'s loop: drop whole runes from the end until 255 bytes are left. -/
def truncateName (name : GoString) : GoString :=
  if 255 < name.length then truncateName (name.take (name.length - (Go.decodeLastRune name).2))
  else name
termination_by name.length
decreasing_by
  have hne : name ≠ [] := fun h => by simp [h] at *
  have := Go.decodeLastRune_pos hne
  simp only [List.length_take]
  omega

/-- `sanitizeFileName`. -/
def sanitizeFileName (name : GoString) : GoString :=
  let name := Go.trimSpace (Go.base (Go.replaceByte Go.backslash Go.slash name))
  if name = [] ∨ name = [0x2E] ∨ name = [Go.slash] then goString "file" else truncateName name

/-- `normalizeMime`. -/
def normalizeMime (mime : GoString) : GoString :=
  let mime := Go.trimSpace mime
  if mime = [] ∨ 255 < mime.length then goString "application/octet-stream" else mime

/-! ## Answers -/

def methodNotAllowed : Answer := .error 405 "method not allowed"
def pageNotFound : Answer := .error 404 "404 page not found"
def uploadNotFound : Answer := .error 404 "upload not found or expired"
def cannotSave : Answer := .error 500 "cannot save file"
def internalError : Answer := .error 500 "internal error"
def chunkExceeds : Answer := .error 413 "chunk exceeds declared size"
def chunkInterrupted : Answer := .error 400 "chunk interrupted"

/-- `fmt.Sprintf("file too large (max %d MiB)", maxUpload>>20)`. -/
def fileTooLarge (cfg : Config) : Answer :=
  .error 413 ("file too large (max " ++ toString (cfg.maxUploadBytes / 2 ^ 20) ++ " MiB)")

/-- The answer `uploadStateResponse` of an upload in progress. -/
def progress (status : ℕ) (id : FileID) (offset size : ℤ) : Answer :=
  .state status ⟨id, offset, size, uploadChunkSize, none⟩

/-- The answer `uploadStateResponse` of a finished upload. -/
def completed (status : ℕ) (id : FileID) (offset size : ℤ) (file : FileResponse) : Answer :=
  .state status ⟨id, offset, size, uploadChunkSize, some file⟩

/-! ## Handlers -/

/-- The record `registerFile` stores. -/
def newRecord (s : Server) (name mime : GoString) (path : Path) (size : ℤ) : FileRecord :=
  { name, size, mime, path, createdAt := s.now }

/-- `registerFile`. -/
def registerFile (s : Server) (id : FileID) (name mime : GoString) (path : Path) (size : ℤ) :
    Server × FileResponse :=
  (s.setFile id (some (newRecord s name mime path size)), ⟨id, name, size, mime⟩)

/-- `fileResponseFor`. -/
def fileResponseFor (s : Server) (id : FileID) : Option FileResponse :=
  (s.files id).map fun rec => ⟨id, rec.name, rec.size, rec.mime⟩

/-- `finishUpload`; `none` when the rename fails. -/
def finishUpload (s : Server) (f : Faults) (id : FileID) (sess : UploadSession) :
    Option (Server × FileResponse) :=
  (s.rename f sess.path (.final id)).map fun s =>
    registerFile (s.setUpload id false) id sess.name sess.mime (.final id) sess.size

/-- The bytes a `PUT` may still store: `min(UploadChunkSize, sess.size-current)`. -/
def chunkLimit (sess : UploadSession) (current : ℤ) : ℤ := min uploadChunkSize (sess.size - current)

/-- The state after the copy of a chunk: the bytes are appended and `updatedAt` is set. -/
def storeChunk (s : Server) (id : FileID) (sess : UploadSession) (data : Bytes) : Server :=
  (s.append sess.path data).setSession id { sess with updatedAt := s.now }

/-- `putChunk` from the copy of the body on. -/
def copyChunk (s : Server) (r : SessionRequest) (sess : UploadSession) (current : ℤ) :
    Server × Answer :=
  let limit := chunkLimit sess current
  -- one byte more than allowed is read, to see whether the chunk is too long
  let copied := ioCopy r.body (limit + 1) r.faults.copyErr
  let s := storeChunk s r.id sess copied.1
  if limit < copied.1.length then (s.truncate sess.path current, chunkExceeds)
  else if copied.2.isSome || r.faults.close then (s, chunkInterrupted)
  else
    let newOffset := current + copied.1.length
    if newOffset = sess.size then
      match finishUpload s r.faults r.id sess with
      | none => (s, cannotSave)
      | some (s, file) => (s, completed 200 r.id newOffset sess.size file)
    else (s, progress 200 r.id newOffset sess.size)

/-- `putChunk`, between locking and unlocking `sess.mu`. -/
def putChunk (s : Server) (r : SessionRequest) (sess : UploadSession) : Server × Answer :=
  match s.fileSize r.faults sess.path with
  | none => (s, uploadNotFound)
  | some current =>
      if Go.parseInt r.offset ≠ some current then (s, progress 409 r.id current sess.size)
      else if s.canAppend r.faults sess.path = false then (s, cannotSave)
      else copyChunk s r sess current

/-- The section of `GET` under `sess.mu`. -/
def getOffset (s : Server) (r : SessionRequest) (sess : UploadSession) : Server × Answer :=
  match s.fileSize r.faults sess.path with
  | none => (s, uploadNotFound)
  | some offset => (s, progress 200 r.id offset sess.size)

/-- The section of `DELETE` under `sess.mu`. -/
def deleteUpload (s : Server) (r : SessionRequest) (sess : UploadSession) : Server × Answer :=
  ((s.setUpload r.id false).remove r.faults.remove sess.path, .noContent)

/-- `handleUploadSession`, run by thread `t`. -/
def handleUploadSession (t : Tid) (s : Server) (r : SessionRequest) : Server × Answer :=
  if isHexFileID r.id = false then (s, pageNotFound)
  else match s.load r.id with
    | none =>
        match fileResponseFor s r.id with
        | some file =>
            -- the upload is finished: a client that missed the answer gets the file again
            if r.method ≠ .delete then (s, completed 200 r.id file.size file.size file)
            else (s, uploadNotFound)
        | none => (s, uploadNotFound)
    | some sess =>
        match r.method with
        | .get => s.locked t r.id sess fun s sess => getOffset s r sess
        | .put => s.locked t r.id sess fun s sess => putChunk s r sess
        | .delete => s.locked t r.id sess fun s sess => deleteUpload s r sess
        | _ => (s, methodNotAllowed)

/-- The checks of `handleUploadCreate` before an identifier is drawn. -/
def checkCreate (cfg : Config) (r : CreateRequest) : Except Answer CreateBody :=
  if r.method ≠ .post then .error methodNotAllowed
  else match r.body with
    | none => .error (.error 400 "invalid json")
    | some body =>
        if body.size < 0 then .error (.error 400 "invalid size")
        else if cfg.maxUploadBytes < body.size then .error (fileTooLarge cfg)
        else .ok body

/-- The session object `handleUploadCreate` makes. -/
def newSession (s : Server) (id : FileID) (body : CreateBody) : UploadSession :=
  { mu := none, name := sanitizeFileName body.name, mime := normalizeMime body.mime
    size := body.size, path := .part id, updatedAt := s.now }

/-- `handleUploadCreate`. -/
def handleUploadCreate (cfg : Config) (s : Server) (r : CreateRequest) : Server × Answer :=
  match checkCreate cfg r, r.rand with
  | .error a, _ => (s, a)
  | .ok _, none => (s, internalError)
  | .ok body, some rand =>
      let id := randomID rand
      let s := s.issue id
      let sess := newSession s id body
      match s.create r.faults sess.path with
      | none => (s, cannotSave)
      | some s =>
          let s := s.setSession id sess
          if body.size = 0 then
            match finishUpload s r.faults id sess with
            | none => (s, cannotSave)
            | some (s, file) => (s, completed 201 id 0 body.size file)
          else (s.setUpload id true, progress 201 id 0 body.size)

/-- The loop of `handleUpload` over the parts: the first part named `file`. -/
def firstFile : List Part → PartsEnd → Except Answer Part
  | [], .eof => .error (.error 400 "missing file field")
  | [], .broken => .error (.error 400 "invalid multipart form")
  | p :: ps, ending => if p.formName = goString "file" then .ok p else firstFile ps ending

/-- `handleUpload` up to the point where an identifier is drawn. -/
def checkUpload (r : UploadRequest) : Except Answer Part :=
  if r.method ≠ .post then .error methodNotAllowed
  else if r.multipart = false then .error (.error 400 "invalid multipart form")
  else firstFile r.parts r.ending

/-- The answer of `handleUpload` when the copy failed or was too long. -/
def uploadRefused (cfg : Config) (written : ℤ) (err : Option CopyErr) : Answer :=
  if cfg.maxUploadBytes < written ∨ (err.map CopyErr.maxBytes) = some true then fileTooLarge cfg
  else .error 500 "upload failed"

/-- `handleUpload`. -/
def handleUpload (cfg : Config) (s : Server) (r : UploadRequest) : Server × Answer :=
  match checkUpload r, r.rand with
  | .error a, _ => (s, a)
  | .ok _, none => (s, internalError)
  | .ok part, some rand =>
      let id := randomID rand
      let s := s.issue id
      match s.create r.faults (.final id) with
      | none => (s, cannotSave)
      | some s =>
          let copied := ioCopy part.data (cfg.maxUploadBytes + 1) r.faults.copyErr
          let s := s.append (.final id) copied.1
          if copied.2.isSome ∨ cfg.maxUploadBytes < copied.1.length then
            (s.remove r.faults.remove (.final id), uploadRefused cfg copied.1.length copied.2)
          else
            let registered := registerFile s id (sanitizeFileName part.fileName)
              (normalizeMime part.contentType) (.final id) copied.1.length
            (registered.1, .file 200 registered.2)

/-- The body of `purgeExpiredFiles`'s walk over `files`. -/
def purgeFile (cutoff : Time) (s : Server) (visit : FileID × Bool) : Server :=
  match s.files visit.1 with
  | some rec =>
      if rec.createdAt < cutoff then (s.setFile visit.1 none).remove visit.2 rec.path else s
  | none => s

/-- The section of `purgeStaleUploads` under `sess.mu`. -/
def dropStale (cutoff : Time) (visit : FileID × Bool) (s : Server) (sess : UploadSession) :
    Server × Unit :=
  if sess.updatedAt < cutoff then ((s.setUpload visit.1 false).remove visit.2 sess.path, ())
  else (s, ())

/-- The body of `purgeStaleUploads`'s walk over `uploads`. -/
def purgeSession (t : Tid) (cutoff : Time) (s : Server) (visit : FileID × Bool) : Server :=
  match s.load visit.1 with
  | some sess => (s.locked t visit.1 sess (dropStale cutoff visit)).1
  | none => s

/-- `purgeExpiredFiles`, which ends with `purgeStaleUploads`, run by thread `t`. -/
def purgeExpiredFiles (t : Tid) (s : Server) (r : PurgeRequest) : Server :=
  let cutoff := s.now - r.ttl
  r.uploadsRange.foldl (purgeSession t cutoff) (r.filesRange.foldl (purgeFile cutoff) s)

end LanRoom.Upload
