import LanRoom.Concurrency.ThreadPool
import LanRoom.Mobile.Json

/-! # The pending upload of the phone

`pickFile`, `resumeUpload` and `cancelUpload` of `mobile/lib/room.dart`, from one `await` to the next,
with the native side that copies a picked file into the directory of the app and stores the record
under the key `upload`. The process may be killed between any two sections; `initialize` then starts
from what is stored. A write is requested at once and performed later, in the order of the requests.

The operations begin when `initialize` has gone through the directory. The server, the rest of the
room and the other files are left open: what is awaited may deliver or throw whatever it likes, and
the connection may change at any time. What only the screen shows is left out. -/

namespace LanRoom.Mobile.Pending

open ThreadPool (Tid Machine Act Config)

/-! ## The state -/

/-- A `Map<String, dynamic>` out of an answer; the last member of a name counts. -/
abbrev JsonMap := List (Bytes × JsonText.Json)

/-- `value as int`; `none` when it throws. -/
def asInt? : JsonText.Json → Option ℤ
  | .num text => dartInt? text
  | _ => none

/-- The map `pendingUpload`. -/
structure Job where
  path : DartString
  name : DartString
  size : ℤ
  mime : DartString
  serviceId : DartString
  /-- `to`. -/
  recipients : List DartString
  uploadId : JsonText.Json := .null

/-- The message about a file that has been uploaded. -/
structure FileMessage where
  /-- `to`. -/
  recipients : List DartString
  fileId : JsonText.Json
  name : JsonText.Json
  size : JsonText.Json
  mime : JsonText.Json

/-- Where `initialize` is. -/
inductive InitPC
  /-- At `await bridge.read('upload')`. -/
  | read
  /-- At the `await for`, with the names that are left. -/
  | listing (todo : List DartString)
  /-- Past the files. -/
  | searching

/-- What survives the process, and what has happened so far. -/
structure Disk where
  /-- The values written under `upload`, newest first; `none` is the empty string. -/
  storage : List (Option Job) := []
  /-- The names of the files in the directory. -/
  files : List DartString := []
  /-- The names that the picker has ever made. -/
  staged : List DartString := []
  /-- The messages handed to an open socket, each with the path of its file. -/
  sent : List (DartString × FileMessage) := []
  /-- The paths of the uploads that the user has cancelled. -/
  cancelled : List DartString := []

/-- What ends with the process. -/
structure Memory where
  init : InitPC := .read
  /-- The writes that are requested and not performed, each with its number. -/
  writes : List (ℕ × Option Job) := []
  /-- The number of writes requested. -/
  issued : ℕ := 0
  /-- The number of writes performed. -/
  stored : ℕ := 0
  /-- The maps that `pendingUpload` has referred to. -/
  jobs : List Job := []
  /-- The place of the map in `jobs`. -/
  pendingUpload : Option ℕ := none
  uploading : Bool := false
  picking : Bool := false
  transferGeneration : ℕ := 0
  connected : Bool := false
  /-- The id of the selected server. -/
  selected : Option DartString := none
  client : Option ℕ := none
  /-- The clients with an open socket. -/
  openClients : List ℕ := []

/-- The **phone**. -/
structure Phone extends Disk, Memory where
  /-- `filesDir`. -/
  directory : DartString
  /-- The number of processes before this one. -/
  life : ℕ := 0

/-- The path of a file in the directory. -/
def filePath (directory name : DartString) : DartString := directory ++ '/' :: name

/-- `startsWith('pending-')`. -/
def isPending (name : DartString) : Bool := "pending-".toList.isPrefixOf name

/-- `startsWith('download-')`. -/
def isDownload (name : DartString) : Bool := "download-".toList.isPrefixOf name

/-- The name for a file that is picked. -/
def pendingName (uuid : DartString) : DartString := "pending-".toList ++ uuid

/-- The upload is stored under this path. -/
def names (path : DartString) (value : Option Job) : Bool := value.any fun job => job.path = path

namespace Phone

/-- The record as it is stored. -/
def record (s : Phone) : Option Job := s.storage.head?.join

/-- The place and the map. -/
def current (s : Phone) : Option (ℕ × Job) :=
  s.pendingUpload.bind fun n => (s.jobs[n]?).map fun job => (n, job)

/-- The map `pendingUpload`. -/
def pending (s : Phone) : Option Job := s.current.map (·.2)

/-- A file is deleted. -/
def delete (s : Phone) (path : DartString) : Phone :=
  { s with files := s.files.filter fun f => filePath s.directory f ≠ path }

/-- `File(path)` exists. -/
def hasFile (s : Phone) (path : DartString) : Bool :=
  s.files.any fun f => filePath s.directory f = path

/-- `_saveUpload`: the write is requested. -/
def saveUpload (s : Phone) : Phone :=
  { s with writes := s.writes ++ [(s.issued + 1, s.pending)], issued := s.issued + 1 }

/-- `pendingUpload = null`. -/
def forget (s : Phone) : Phone := { s with pendingUpload := none }

/-- `job['uploadId'] = id`. -/
def setUploadId (s : Phone) (n : ℕ) (id : JsonText.Json) : Phone :=
  { s with jobs := s.jobs.modify n fun job => { job with uploadId := id } }

/-! ## `initialize` -/

/-- The next section of `initialize`. -/
def initializeStep (s : Phone) : Phone :=
  match s.init with
  | .read =>
      match s.record with
      | none => { s with init := .listing s.files }
      | some job =>
          { s with
            jobs := s.jobs ++ [job]
            pendingUpload := some s.jobs.length
            init := .listing s.files }
  | .listing [] => { s with init := .searching }
  | .listing (f :: todo) =>
      let path := filePath s.directory f
      if (isPending f || isDownload f) && s.pending.map (·.path) ≠ some path then
        { s.delete path with init := .listing todo }
      else { s with init := .listing todo }
  | .searching => s

end Phone

/-! ## `resumeUpload` -/

/-- What is awaited delivers. -/
inductive Outcome
  | done
  /-- It throws; an `ApiException` has a status. -/
  | threw (status : Option ℕ)
  | answered (body : JsonMap)
  /-- As many bytes are read. -/
  | read (length : ℕ)
  /-- The picker is closed. -/
  | nothing
  /-- A file is picked: its copy is created. -/
  | copying (uuid : DartString)
  /-- The file is copied. -/
  | picked (name : DartString) (size : ℤ) (mime : DartString)
  /-- The file cannot be copied. -/
  | copyFailed (deleted : Bool)

/-- The loop of `resumeUpload`. -/
structure Loop where
  state : JsonMap
  offset : ℤ
  conflicts : ℕ

/-- Where `resumeUpload` is, once it has its number. -/
inductive TransferPC
  /-- At `await File(…).open()`. -/
  | opening
  /-- At the `GET`. -/
  | getting
  /-- At the `POST` of `_createUpload`. -/
  | creating
  /-- `_createUpload` has returned. -/
  | created (state : JsonMap)
  /-- At the first `await _saveUpload()`. -/
  | saving (ticket : ℕ) (state : JsonMap)
  /-- At `await source.setPosition(…)`. -/
  | seeking (l : Loop)
  /-- At `await source.read(…)`. -/
  | reading (l : Loop) (length : ℤ)
  /-- At the `PUT`. -/
  | putting (l : Loop)
  /-- At the second `await _saveUpload()`. -/
  | clearing (ticket : ℕ)
  /-- At `await source.close()`. -/
  | closing
  /-- At `await File(…).delete()`. -/
  | deleting
  /-- At `await source?.close()` of the `finally`. -/
  | finishing
  | returned
  | threw

/-- A call of `resumeUpload` with its number. -/
structure Transfer where
  /-- The place of `job`. -/
  job : ℕ
  transfer : ℕ
  activeClient : ℕ
  /-- `source` is open. -/
  source : Bool
  pc : TransferPC

namespace Transfer

/-- The `catch` of `resumeUpload`, with `_handleExpired`. -/
def catchError (status : Option ℕ) (s : Phone) (t : Transfer) : Phone × Transfer :=
  (if t.transfer = s.transferGeneration ∧ status = some 401 then { s with connected := false } else s,
    { t with pc := .finishing })

/-- The upload is known to the server. -/
def save (state : JsonMap) (s : Phone) (t : Transfer) : Phone × Transfer :=
  if t.transfer ≠ s.transferGeneration then (s, { t with pc := .finishing })
  else (s.saveUpload, { t with pc := .saving (s.issued + 1) state })

/-- The end of `resumeUpload`, from `Map.from(state['file'])` on. -/
def deliver (job : Job) (state : JsonMap) (s : Phone) (t : Transfer) : Phone × Transfer :=
  match get state "file".toList with
  | .obj file =>
      if t.activeClient ∉ s.openClients then t.catchError none s
      else
        let m : FileMessage := {
          recipients := job.recipients
          fileId := get file "fileId".toList
          name := get file "name".toList
          size := get file "size".toList
          mime := get file "mime".toList }
        ({ s with sent := (job.path, m) :: s.sent }.forget.saveUpload,
          { t with pc := .clearing (s.issued + 1) })
  | _ => t.catchError none s

/-- The head of the loop. -/
def loop (job : Job) (l : Loop) (s : Phone) (t : Transfer) : Phone × Transfer :=
  if (get l.state "file".toList).isNull then
    if t.transfer ≠ s.transferGeneration ∨ s.connected = false ∨ s.client ≠ some t.activeClient then
      t.catchError none s
    else if l.offset < 0 ∨ l.offset > job.size then t.catchError none s
    else (s, { t with pc := .seeking l })
  else if t.transfer ≠ s.transferGeneration then (s, { t with pc := .finishing })
  else t.deliver job l.state s

/-- `state['chunkSize'] as int? ?? 8388608`; `none` when it throws. -/
def chunkSize (state : JsonMap) : Option ℤ :=
  match get state "chunkSize".toList with
  | .null => some 8388608
  | value => asInt? value

/-- The loop after an answer to a `PUT`; `none` when it throws. -/
def progress (l : Loop) (result : JsonMap) : Option Loop :=
  (asInt? (get result "offset".toList)).bind fun next =>
    if next = l.offset ∧ (get result "file".toList).isNull then
      if l.conflicts + 1 > 3 then none else some ⟨l.state ++ result, next, l.conflicts + 1⟩
    else some ⟨l.state ++ result, next, 0⟩

/-- The next section of `resumeUpload`, for the map `job`. -/
def stepFor (job : Job) (k : Outcome) (s : Phone) (t : Transfer) : Option (Phone × Transfer) :=
  match t.pc, k with
  | .opening, .done =>
      some (s, { t with source := true, pc := if job.uploadId.isNull then .creating else .getting })
  | .getting, .answered body => some (t.save body s)
  | .getting, .threw status =>
      if status = some 404 then some (s, { t with pc := .creating })
      else some (t.catchError status s)
  | .creating, .answered body =>
      some (s.setUploadId t.job (get body "uploadId".toList), { t with pc := .created body })
  | .created body, .done => some (t.save body s)
  | .saving ticket state, .done =>
      if ticket ≤ s.stored then
        match asInt? (get state "offset".toList) with
        | none => some (t.catchError none s)
        | some offset => some (t.loop job ⟨state, offset, 0⟩ s)
      else none
  | .seeking l, .done =>
      match chunkSize l.state with
      | none => some (t.catchError none s)
      | some chunk =>
          let length := min (min chunk 1048576) (job.size - l.offset)
          if length < 0 then some (t.catchError none s)
          else some (s, { t with pc := .reading l length })
  | .reading l length, .read n =>
      if (n : ℤ) ≠ length then some (t.catchError none s) else some (s, { t with pc := .putting l })
  | .putting l, .answered result =>
      match progress l result with
      | none => some (t.catchError none s)
      | some l' => some (t.loop job l' s)
  | .clearing ticket, .done => if ticket ≤ s.stored then some (s, { t with pc := .closing }) else none
  | .closing, .done => some (s, { t with source := false, pc := .deleting })
  | .deleting, .done =>
      if s.hasFile job.path then some (s.delete job.path, { t with pc := .finishing }) else none
  | .opening, .threw status | .creating, .threw status | .seeking _, .threw status
  | .reading _ _, .threw status | .putting _, .threw status | .closing, .threw status
  | .deleting, .threw status => some (t.catchError status s)
  | .finishing, .done => some ({ s with uploading := false }, { t with pc := .returned })
  | .finishing, .threw _ => if t.source then some (s, { t with pc := .threw }) else none
  | _, _ => none

/-- The next section of `resumeUpload`. -/
def step (k : Outcome) (s : Phone) (t : Transfer) : Option (Phone × Transfer) :=
  (s.jobs[t.job]?).bind fun job => t.stepFor job k s

end Transfer

/-- Where a call of `resumeUpload` is. -/
inductive Resume
  | called
  | running (t : Transfer)
  | returned
  | threw

/-- `resumeUpload` up to its first `await`. -/
def Phone.resumeUpload (s : Phone) : Phone × Resume :=
  if s.uploading = true ∨ s.connected = false then (s, .returned)
  else match s.current with
    | none => (s, .returned)
    | some (n, job) =>
        match s.selected with
        | none => (s, .threw)
        | some id =>
            if job.serviceId ≠ id then (s, .returned)
            else
              let s :=
                { s with uploading := true, transferGeneration := s.transferGeneration + 1 }
              match s.client with
              | none => (s, .threw)
              | some c => (s, .running ⟨n, s.transferGeneration, c, false, .opening⟩)

/-- The call has come to its end. -/
def Resume.hasEnded : Resume → Bool
  | .running t =>
      match t.pc with
      | .returned | .threw => true
      | _ => false
  | .returned | .threw => true
  | .called => false

/-- The next section. -/
def Resume.step (k : Outcome) (s : Phone) : Resume → Option (Phone × Resume)
  | .called =>
      match s.init with
      | .searching => some s.resumeUpload
      | _ => none
  | .running t => (t.step k s).map fun x => (x.1, .running x.2)
  | .returned | .threw => none

/-! ## `pickFile` -/

/-- Where `pickFile` is. -/
inductive PickPC
  | called
  /-- At `await bridge.pick()`, while the user chooses. -/
  | choosing (targetServer : DartString) (targetRecipients : List DartString)
  /-- At `await bridge.pick()`, while the file is copied under this name. -/
  | copying (targetServer : DartString) (targetRecipients : List DartString) (name : DartString)
  /-- At `await _saveUpload()`. -/
  | saving (ticket : ℕ)
  /-- At `await resumeUpload()`. -/
  | resuming (r : Resume)
  | returned

namespace PickPC

/-- `pickFile` up to its first `await`. -/
def call (recipients : List DartString) (s : Phone) : Phone × PickPC :=
  if s.connected = false ∨ s.pendingUpload ≠ none ∨ s.picking = true then (s, .returned)
  else match s.selected with
    | none => ({ s with picking := false }, .returned)
    | some targetServer => ({ s with picking := true }, .choosing targetServer recipients)

/-- The `finally` of `pickFile`. -/
def finish (s : Phone) : Phone × PickPC := ({ s with picking := false }, .returned)

/-- The next section of `pickFile`. -/
def step (recipients : List DartString) (k : Outcome) (s : Phone) (pc : PickPC) :
    Option (Phone × PickPC) :=
  match pc, k with
  | .called, .done =>
      match s.init with
      | .searching => some (call recipients s)
      | _ => none
  | .choosing _ _, .nothing | .choosing _ _, .threw _ => some (finish s)
  | .choosing targetServer targetRecipients, .copying uuid =>
      let name := pendingName uuid
      -- a random name that has been made before is not made again
      if name ∈ s.staged then none
      else
        some ({ s with files := name :: s.files, staged := name :: s.staged },
          .copying targetServer targetRecipients name)
  | .copying targetServer targetRecipients name, .picked display size mime =>
      let job : Job := {
        path := filePath s.directory name
        name := display
        size := size
        mime := mime
        serviceId := targetServer
        recipients := targetRecipients }
      some
        ({ s with
            jobs := s.jobs ++ [job]
            pendingUpload := some s.jobs.length : Phone }.saveUpload, .saving (s.issued + 1))
  | .copying _ _ name, .copyFailed deleted =>
      some (finish (if deleted then s.delete (filePath s.directory name) else s))
  | .saving ticket, .done =>
      if ticket ≤ s.stored then some (s.resumeUpload.1, .resuming s.resumeUpload.2) else none
  | .resuming r, k =>
      if r.hasEnded then some (finish s)
      else (r.step k s).map fun x => (x.1, .resuming x.2)
  | _, _ => none

end PickPC

/-! ## `cancelUpload` -/

/-- Where `cancelUpload` is; `job` is the place of the map. -/
inductive CancelPC
  | called
  /-- At `await _saveUpload()`. -/
  | saving (ticket job : ℕ)
  /-- At `await client!.request('DELETE', …)`. -/
  | requesting (job : ℕ)
  /-- At `await response.drain()`. -/
  | draining (job : ℕ)
  /-- At `await File(…).delete()`. -/
  | deleting (job : ℕ)
  | returned

namespace CancelPC

/-- `cancelUpload` up to its first `await`. -/
def call (s : Phone) : Phone × CancelPC :=
  match s.current with
  | none => (s, .returned)
  | some (n, job) =>
      ({ s with
          transferGeneration := s.transferGeneration + 1
          cancelled := job.path :: s.cancelled : Phone }.forget.saveUpload, .saving (s.issued + 1) n)

/-- The next section of `cancelUpload`. -/
def step (k : Outcome) (s : Phone) (pc : CancelPC) : Option (Phone × CancelPC) :=
  match pc, k with
  | .called, .done =>
      match s.init with
      | .searching => some (call s)
      | _ => none
  | .saving ticket n, .done =>
      (s.jobs[n]?).bind fun job =>
        if ticket ≤ s.stored then
          if s.client ≠ none ∧ s.selected = some job.serviceId ∧ job.uploadId.isNull = false then
            some (s, .requesting n)
          else some (s, .deleting n)
        else none
  | .requesting n, .done => some (s, .draining n)
  | .requesting n, .threw _ | .draining n, .done | .draining n, .threw _ => some (s, .deleting n)
  | .deleting n, .done =>
      (s.jobs[n]?).bind fun job =>
        if s.hasFile job.path then some (s.delete job.path, .returned) else none
  | .deleting _, .threw _ => some (s, .returned)
  | _, _ => none

end CancelPC

/-! ## The machine -/

/-- A call of an operation. -/
inductive Op
  | pickFile (recipients : List DartString) (pc : PickPC)
  | resumeUpload (r : Resume)
  | cancelUpload (pc : CancelPC)

/-- The next section of an operation. -/
def Op.step (k : Outcome) (s : Phone) : Op → Option (Phone × Op)
  | .pickFile recipients pc => (pc.step recipients k s).map fun x => (x.1, .pickFile recipients x.2)
  | .resumeUpload r => (r.step k s).map fun x => (x.1, .resumeUpload x.2)
  | .cancelUpload pc => (pc.step k s).map fun x => (x.1, .cancelUpload x.2)

/-- It has just been called. -/
def Op.isCalled : Op → Bool
  | .pickFile _ .called | .resumeUpload .called | .cancelUpload .called => true
  | _ => false

/-- A **thread**: an operation and the process it belongs to. -/
structure Thread where
  life : ℕ
  op : Op

/-- What happens besides. -/
inductive Event
  /-- The process is killed, and the next one starts. -/
  | crash
  /-- The next section of `initialize`. -/
  | initialized
  /-- The oldest write that is requested is performed. -/
  | stored
  /-- The room connects or loses its connection. -/
  | room (connected : Bool) (selected : Option DartString) (client : Option ℕ)
      (openClients : List ℕ)
  /-- Another file comes or goes. -/
  | file (name : DartString) (present : Bool)

namespace Phone

/-- A write is performed. -/
def perform (s : Phone) : Phone :=
  match s.writes with
  | [] => s
  | (n, value) :: rest => { s with storage := value :: s.storage, writes := rest, stored := n }

/-- Another part of the app creates or deletes a file; the picker alone makes those of its name. -/
def touch (s : Phone) (name : DartString) (present : Bool) : Phone :=
  if isPending name then s
  else if present then { s with files := name :: s.files }
  else s.delete (filePath s.directory name)

/-- What an event does. -/
def env : Event → Phone → Phone
  | .crash, s => { s with toMemory := {}, life := s.life + 1 }
  | .initialized, s => s.initializeStep
  | .stored, s => s.perform
  | .room connected selected client openClients, s => { s with connected, selected, client, openClients }
  | .file name present, s => s.touch name present

end Phone

/-- The operations of a process that has been killed go no further. -/
def machine : Machine Phone Thread Outcome Event where
  step _ k s th :=
    if th.life = s.life then (th.op.step k s).map fun x => (x.1, ⟨th.life, x.2⟩, []) else none
  env := Phone.env

/-- The phone when the app has been installed. -/
def Phone.installed (directory : DartString) : Phone := { directory }

/-- What may be called: an operation, by the process that runs. -/
def Arrives (c : Config Phone Thread) : Act Thread Outcome Event → Prop
  | .spawn th => th.life = c.shared.life ∧ th.op.isCalled = true
  | _ => True

/-- The **runs** of the app. -/
def Reachable (directory : DartString) (c : Config Phone Thread) : Prop :=
  machine.Run Arrives ⟨Phone.installed directory, []⟩ c

end LanRoom.Mobile.Pending
