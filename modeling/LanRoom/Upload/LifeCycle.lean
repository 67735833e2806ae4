import LanRoom.Upload.Steps

/-! # The life of an upload

What the upload server is for, said about a single identifier: it is issued once, its bytes grow by
appending consecutive chunks, and when the declared size is reached they become a finished file
that stays until it expires. `Life` is that abstract state and `Life.Move` its transitions;
`LanRoom.Upload.Outline` shows that every interleaving of the real handlers makes only such moves.

The moves carry the request that causes them, constrained by a predicate `P` on the requests of the
run, so facts about what the clients send (each body is a slice of one source, nobody deletes)
become facts about the moves. -/

namespace LanRoom.Upload

open ThreadPool (Tid)
open Relation (ReflTransGen)

/-- The abstract state of one identifier. -/
inductive Life
  /-- Never issued. -/
  | unused
  /-- Issued to thread `t`, which is still creating the upload. -/
  | building (t : Tid)
  /-- A session in progress with its declared size and the bytes stored so far. -/
  | live (size : ℤ) (stored : Bytes)
  /-- Thread `t` has taken the session out of `uploads` and is about to remove its file. -/
  | dropped (t : Tid) (size : ℤ) (stored : Bytes)
  /-- Thread `t` has renamed the complete file and has not registered it yet. -/
  | sealed (t : Tid) (stored : Bytes)
  /-- A finished file. -/
  | registered (rec : FileRecord) (stored : Bytes)
  /-- The record has expired; the file is still to be removed, by `reaper` if not by another. -/
  | expiring (reaper : Option Tid)
  /-- Nothing is left of the finished file. -/
  | reclaimed
  /-- The upload ended without a file, and nothing is left of it. -/
  | gone
  /-- A file was left behind that no index ever mentioned. -/
  | orphan

namespace Life

/-- The thread that has to move the upload on. -/
def owner : Life → Option Tid
  | building t => some t
  | dropped t _ _ => some t
  | sealed t _ => some t
  | expiring reaper => reaper
  | _ => none

/-- Creation has ended with a session or a file. -/
def published : Life → Bool
  | unused | building _ | orphan => false
  | _ => true

/-- The upload is no longer in progress. -/
def closed : Life → Bool
  | registered _ _ | expiring _ | reclaimed | gone => true
  | _ => false

/-- The file has been registered. -/
def finished : Life → Bool
  | registered _ _ | expiring _ | reclaimed => true
  | _ => false

/-- The file has been registered and its record has been dropped again. -/
def expired : Life → Bool
  | expiring _ | reclaimed => true
  | _ => false

end Life

/-- The request `r` creates an empty file under `id` and its `os.Rename` fails after `os.Create`
succeeded. -/
def CreateRequest.leaks (cfg : Config) (id : FileID) (r : CreateRequest) : Prop :=
  ∃ body rand, checkCreate cfg r = .ok body ∧ r.rand = some rand ∧ randomID rand = id ∧
    body.size = 0 ∧ r.faults.create = false ∧ r.faults.rename = true

/-- An `os.Remove` fails while the request is handled. -/
def Request.removeFails : Request → Prop
  | .upload r => r.faults.remove = true
  | .create _ => False
  | .session r => r.faults.remove = true
  | .purge r => ∃ visit, (visit ∈ r.filesRange ∨ visit ∈ r.uploadsRange) ∧ visit.2 = true

/-- A **move** in the life of `id`, caused by a request that satisfies `P`. -/
inductive Life.Move (cfg : Config) (P : Request → Prop) (id : FileID) : Life → Life → Prop
  /-- `randomID` returns `id`. -/
  | issue (t : Tid) : Move cfg P id .unused (.building t)
  /-- `uploads.Store`: the session can be loaded. -/
  | publish {r : CreateRequest} {body : CreateBody} {rand : Vector UInt8 16} (t : Tid)
      (hP : P (.create r)) (hbody : checkCreate cfg r = .ok body) (hrand : r.rand = some rand)
      (hid : randomID rand = id) (hpos : 0 < body.size) (hmax : body.size ≤ cfg.maxUploadBytes) :
      Move cfg P id (.building t) (.live body.size [])
  /-- An empty file is finished while it is created. -/
  | finishEmpty {r : CreateRequest} {body : CreateBody} {rand : Vector UInt8 16} {rec : FileRecord}
      (t : Tid) (hP : P (.create r)) (hbody : checkCreate cfg r = .ok body)
      (hrand : r.rand = some rand) (hid : randomID rand = id) (hsize : body.size = 0)
      (hrec : rec.size = 0) : Move cfg P id (.building t) (.registered rec [])
  /-- A multipart upload is finished. -/
  | finishForm {r : UploadRequest} {rand : Vector UInt8 16} {rec : FileRecord} {b : Bytes} (t : Tid)
      (hP : P (.upload r)) (hrand : r.rand = some rand) (hid : randomID rand = id)
      (hrec : rec.size = b.length) : Move cfg P id (.building t) (.registered rec b)
  /-- Creation fails and leaves nothing behind. -/
  | abandon (t : Tid) : Move cfg P id (.building t) .gone
  /-- Creation of an empty file fails after its `.part` file was made. -/
  | leak {r : CreateRequest} (t : Tid) (hP : P (.create r)) (hleak : r.leaks cfg id) :
      Move cfg P id (.building t) .orphan
  /-- A refused multipart upload cannot be removed. -/
  | litter {r : Request} (t : Tid) (hP : P r) (hfail : r.removeFails) :
      Move cfg P id (.building t) .orphan
  /-- `putChunk` appends a first piece `x` of its body at its declared offset. -/
  | append {r : SessionRequest} {size : ℤ} {b x : Bytes} (hP : P (.session r)) (hid : r.id = id)
      (hput : r.method = .put) (hoff : Go.parseInt r.offset = some (b.length : ℤ))
      (hx : x <+: r.body) (hsize : ((b ++ x).length : ℤ) ≤ size) :
      Move cfg P id (.live size b) (.live size (b ++ x))
  /-- `finishUpload`: the complete `.part` file is renamed. -/
  | complete {size : ℤ} {b : Bytes} (t : Tid) (hfull : (b.length : ℤ) = size) :
      Move cfg P id (.live size b) (.sealed t b)
  /-- `finishUpload`: the record is stored. -/
  | register {t : Tid} {b : Bytes} {rec : FileRecord} (hrec : rec.size = b.length) :
      Move cfg P id (.sealed t b) (.registered rec b)
  /-- `DELETE` or the purge takes the session out of `uploads`. -/
  | drop {size : ℤ} {b : Bytes} (t : Tid) : Move cfg P id (.live size b) (.dropped t size b)
  /-- The `.part` file of the session is removed. -/
  | cancel {t : Tid} {size : ℤ} {b : Bytes} : Move cfg P id (.dropped t size b) .gone
  /-- The `.part` file cannot be removed: handlers that have loaded the session go on with it. -/
  | keep {r : Request} {t : Tid} {size : ℤ} {b : Bytes} (hP : P r) (hfail : r.removeFails) :
      Move cfg P id (.dropped t size b) (.live size b)
  /-- `purgeExpiredFiles` drops the record. -/
  | expire {r : PurgeRequest} {rec : FileRecord} {b : Bytes} (t : Tid) (hP : P (.purge r)) :
      Move cfg P id (.registered rec b) (.expiring (some t))
  /-- `purgeExpiredFiles` removes the file. -/
  | reclaim {reaper : Option Tid} : Move cfg P id (.expiring reaper) .reclaimed
  /-- `purgeExpiredFiles` cannot remove the file. -/
  | stray {r : Request} {t : Tid} (hP : P r) (hfail : r.removeFails) :
      Move cfg P id (.expiring (some t)) (.expiring none)

/-- Any number of moves. -/
abbrev Life.Moves (cfg : Config) (P : Request → Prop) (id : FileID) : Life → Life → Prop :=
  ReflTransGen (Life.Move cfg P id)

namespace Life

variable {cfg : Config} {P : Request → Prop} {id : FileID} {l l' : Life}

/-- A published upload stays published. Each move out of a published state leads to one. -/
theorem Moves.published (h : Moves cfg P id l l') (hl : l.published) : l'.published := by
  induction h with
  | refl => exact hl
  | tail _ hmove ih => cases hmove <;> first | rfl | cases ih

/-- An upload that is no longer in progress never is again. So a session that has been closed is not
reopened by a late request. -/
theorem Moves.closed (h : Moves cfg P id l l') (hl : l.closed) : l'.closed := by
  induction h with
  | refl => exact hl
  | tail _ hmove ih => cases hmove <;> first | rfl | cases ih

/-- A finished upload stays finished. It may expire, but it never becomes an upload in progress
again. -/
theorem Moves.finished (h : Moves cfg P id l l') (hl : l.finished) : l'.finished := by
  induction h with
  | refl => exact hl
  | tail _ hmove ih => cases hmove <;> first | rfl | cases ih

/-- An expired file never comes back. A record is stored under an identifier once only. -/
theorem Moves.expired (h : Moves cfg P id l l') (hl : l.expired) : l'.expired := by
  induction h with
  | refl => exact hl
  | tail _ hmove ih => cases hmove <;> first | rfl | cases ih

/-- Nothing follows an orphan. The file is left to the start of the next process. -/
theorem Moves.orphan (h : Moves cfg P id .orphan l') : l' = .orphan := by
  induction h with
  | refl => rfl
  | tail _ hmove ih => subst ih; cases hmove

/-- A finished file keeps its record and its bytes until it expires. -/
theorem Moves.registered {rec : FileRecord} {b : Bytes} (h : Moves cfg P id (.registered rec b) l') :
    l' = .registered rec b ∨ l'.expired := by
  induction h with
  | refl => exact .inl rfl
  | tail _ hmove ih =>
      rcases ih with rfl | ih
      · cases hmove
        exact .inr rfl
      · exact .inr (Moves.expired (.single hmove) ih)

/-- A session in progress keeps its size and only gains bytes at the end. -/
theorem Moves.live {size : ℤ} {b : Bytes} (h : Moves cfg P id (.live size b) l') :
    (∃ b', b <+: b' ∧ (l' = .live size b' ∨ ∃ t, l' = .dropped t size b')) ∨
      (∃ t b', l' = .sealed t b') ∨ l'.closed := by
  induction h with
  | refl => exact .inl ⟨b, List.prefix_rfl, .inl rfl⟩
  | tail _ hmove ih =>
      rcases ih with ⟨b', hb, rfl | ⟨t, rfl⟩⟩ | ⟨t, b', rfl⟩ | ih
      · cases hmove with
        | append => exact .inl ⟨_, hb.trans (List.prefix_append ..), .inl rfl⟩
        | complete t => exact .inr (.inl ⟨t, b', rfl⟩)
        | drop t => exact .inl ⟨b', hb, .inr ⟨t, rfl⟩⟩
      · cases hmove with
        | cancel => exact .inr (.inr rfl)
        | keep => exact .inl ⟨b', hb, .inl rfl⟩
      · cases hmove
        exact .inr (.inr rfl)
      · exact .inr (.inr (Moves.closed (.single hmove) ih))

end Life

/-! ## What the server state says about one identifier -/

/-- The identifier a file of `UploadDir` belongs to. -/
def Path.id : Path → FileID
  | .final id => id
  | .part id => id

/-- The part of the server state that concerns one identifier. -/
structure View where
  issued : Bool
  part : Option Bytes
  final : Option Bytes
  upload : Bool
  file : Option FileRecord
  session : Option UploadSession

/-- The view of `id` in a server state. -/
def Server.view (s : Server) (id : FileID) : View :=
  ⟨s.issued id, s.disk (.part id), s.disk (.final id), s.uploads id, s.files id, s.sessions id⟩

/-- The view of an identifier that was never issued. -/
def View.empty : View := ⟨false, none, none, false, none, none⟩

/-- The thread that holds `sess.mu`. -/
def View.mu (v : View) : Option Tid := v.session.bind UploadSession.mu

/-- Some request of a run with requests in `P` meets a failing `os.Remove`. -/
def Strays (P : Request → Prop) : Prop := ∃ r, P r ∧ r.removeFails

/-- **The life an identifier is in, in terms of the indexes and the directory.** -/
def Life.Holds (cfg : Config) (P : Request → Prop) (v : View) : Life → Prop
  | .unused => v = View.empty
  | .building _ =>
      v.issued = true ∧ v.upload = false ∧ v.file = none ∧ (∀ b, v.part = some b → b = []) ∧
        v.mu = none
  | .live size b =>
      v.issued = true ∧ v.final = none ∧ v.file = none ∧ 0 < size ∧ (b.length : ℤ) ≤ size ∧
        (v.upload = true ∨ Strays P) ∧
        ∃ se x, v.session = some se ∧ se.size = size ∧ v.part = some (b ++ x) ∧
          -- only the holder of `sess.mu` leaves bytes behind that it has not accepted yet
          (se.mu = none → x = [])
  | .dropped t size b =>
      v.issued = true ∧ v.final = none ∧ v.file = none ∧ 0 < size ∧ (b.length : ℤ) ≤ size ∧
        v.upload = false ∧ v.part = some b ∧
        ∃ se, v.session = some se ∧ se.size = size ∧ se.mu = some t
  | .sealed t b =>
      v.issued = true ∧ v.part = none ∧ v.final = some b ∧ v.file = none ∧
        ∃ se, v.session = some se ∧ se.size = b.length ∧ se.mu = some t
  | .registered rec b =>
      v.issued = true ∧ v.upload = false ∧ v.part = none ∧ v.final = some b ∧ v.file = some rec ∧
        rec.size = b.length ∧ rec.size ≤ cfg.maxUploadBytes
  | .expiring reaper =>
      v.issued = true ∧ v.upload = false ∧ v.part = none ∧ v.file = none ∧
        (∃ b, v.final = some b) ∧ (reaper = none → Strays P)
  | .reclaimed | .gone =>
      v.issued = true ∧ v.upload = false ∧ v.part = none ∧ v.final = none ∧ v.file = none
  | .orphan =>
      v.issued = true ∧ v.upload = false ∧ v.file = none ∧ (∀ b, v.part = some b → b = []) ∧
        (v.part ≠ none ∨ v.final ≠ none) ∧ v.mu = none

/-- Every record and every session object of the server has the path of its identifier, and every
session a size the server accepts. -/
structure Server.Wf (cfg : Config) (s : Server) : Prop where
  file : ∀ id rec, s.files id = some rec → rec.path = .final id
  session : ∀ id se, s.sessions id = some se →
    se.path = .part id ∧ 0 ≤ se.size ∧ se.size ≤ cfg.maxUploadBytes

/-! ### Views after an update -/

namespace Server

variable (s : Server) (id : FileID)

/-- Writing the `.part` file of an identifier, as its view sees it. -/
@[simp] theorem view_setDisk_part (b : Option Bytes) :
    (s.setDisk (.part id) b).view id = { s.view id with part := b } := by
  simp [view, setDisk]

/-- Writing the final file of an identifier, as its view sees it. -/
@[simp] theorem view_setDisk_final (b : Option Bytes) :
    (s.setDisk (.final id) b).view id = { s.view id with final := b } := by
  simp [view, setDisk]

/-- Appending to the `.part` file, if there is one. A file that does not exist is not made by it. -/
@[simp] theorem view_append_part (data : Bytes) :
    (s.append (.part id) data).view id =
      { s.view id with part := (s.view id).part.map (· ++ data) } := view_setDisk_part ..

/-- Appending to the final file, if there is one. It is the same fact for the other path of the
identifier. -/
@[simp] theorem view_append_final (data : Bytes) :
    (s.append (.final id) data).view id =
      { s.view id with final := (s.view id).final.map (· ++ data) } := view_setDisk_final ..

/-- Storing or deleting the record. The other components of the view are not touched. -/
@[simp] theorem view_setFile (rec : Option FileRecord) :
    (s.setFile id rec).view id = { s.view id with file := rec } := by
  simp [view, setFile]

/-- Publishing or deleting the session. Only the entry of the index changes and not the session
object. -/
@[simp] theorem view_setUpload (present : Bool) :
    (s.setUpload id present).view id = { s.view id with upload := present } := by
  simp [view, setUpload]

/-- Filling in the session object. It is there before the entry of the index points to it. -/
@[simp] theorem view_setSession (sess : UploadSession) :
    (s.setSession id sess).view id = { s.view id with session := some sess } := by
  simp [view, setSession]

/-- Locking or unlocking the session. Without a session object there is nothing to lock. -/
@[simp] theorem view_setMu (mu : Option Tid) :
    (s.setMu id mu).view id =
      { s.view id with session := (s.view id).session.map fun sess => { sess with mu } } := by
  simp [view, setMu]

/-- Issuing the identifier. It is the first change that the view of an identifier sees. -/
@[simp] theorem view_issue : (s.issue id).view id = { s.view id with issued := true } := by
  simp [view, issue]

variable {id} {id' : FileID}

/-- A file of another identifier is not seen. Paths carry the identifier, so different ones never
collide. -/
theorem view_setDisk_ne {p : Path} (h : p.id ≠ id) (b : Option Bytes) :
    (s.setDisk p b).view id = s.view id := by
  have hpart : Path.part id ≠ p := by
    rintro rfl
    exact h rfl
  have hfinal : Path.final id ≠ p := by
    rintro rfl
    exact h rfl
  simp [view, setDisk, hpart, hfinal]

/-- Removing a file of another identifier is not seen. This holds whether the remove fails or
not. -/
theorem view_remove_ne {p : Path} (h : p.id ≠ id) (fails : Bool) :
    (s.remove fails p).view id = s.view id := by
  cases fails with
  | true => rfl
  | false => exact view_setDisk_ne s h none

/-- A record of another identifier is not seen. The index is a map from identifiers to records. -/
theorem view_setFile_ne (h : id' ≠ id) (rec : Option FileRecord) :
    (s.setFile id' rec).view id = s.view id := by
  simp [view, setFile, h.symm]

/-- Publishing another session is not seen. The index of sessions is read at `id` only. -/
theorem view_setUpload_ne (h : id' ≠ id) (present : Bool) :
    (s.setUpload id' present).view id = s.view id := by
  simp [view, setUpload, h.symm]

/-- The session object of another identifier is not seen. Each identifier has a session object of
its own. -/
theorem view_setSession_ne (h : id' ≠ id) (sess : UploadSession) :
    (s.setSession id' sess).view id = s.view id := by
  simp [view, setSession, h.symm]

/-- Locking another session is not seen. Requests for different uploads do not wait for each
other. -/
theorem view_setMu_ne (h : id' ≠ id) (mu : Option Tid) :
    (s.setMu id' mu).view id = s.view id := by
  simp [view, setMu, h.symm]

/-- Issuing another identifier is not seen. Identifiers are issued one at a time. -/
theorem view_issue_ne (h : id' ≠ id) : (s.issue id').view id = s.view id := by
  simp [view, issue, h.symm]

end Server

end LanRoom.Upload
