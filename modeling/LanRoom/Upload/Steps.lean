import LanRoom.Upload.Model

/-! # The upload handlers, section by section

Concurrent requests interleave between the accesses to shared state: an operation on one of the
two `sync.Map`s, on a mutex or on the file system. Here every handler of `LanRoom.Upload.Model` is
cut at these accesses into program points; `Thread.step` performs the section from one point to
the next. The copy of a request body is a single section because a `.part` file is only ever
touched under `sess.mu` (or before its session is published) and a `UploadDir/id` file only before
it is registered.

The cuts are checked against the uncut handlers: a thread that runs undisturbed computes exactly
what its handler computes (`solo_upload`, `solo_create`, `solo_session`, `solo_purge`). -/

namespace LanRoom.Upload

open ThreadPool (Tid Machine Act)
open Relation (ReflTransGen)

/-! ## Program points -/

/-- Program points of `handleUpload`. -/
inductive UploadPC
  /-- Read the form up to the file part, then `randomID`. -/
  | start
  /-- `os.Create(destPath)`. -/
  | create (part : Part) (id : FileID)
  /-- `io.Copy` into the new file. -/
  | copy (part : Part) (id : FileID)
  /-- `os.Remove(destPath)` after a failed or too long copy. -/
  | discard (id : FileID) (written : ℤ) (err : Option CopyErr)
  /-- `registerFile`. -/
  | register (part : Part) (id : FileID) (written : ℤ)
  | done (a : Answer)

/-- Program points of `handleUploadCreate`. -/
inductive CreatePC
  /-- Check the request, then `randomID`. -/
  | start
  /-- Make the session object, then `os.Create(sess.path)`. -/
  | create (body : CreateBody) (id : FileID)
  /-- `finishUpload` of an empty file: `os.Rename`. -/
  | rename (body : CreateBody) (id : FileID)
  /-- `finishUpload` of an empty file: `s.uploads.Delete(id)`. -/
  | unregister (body : CreateBody) (id : FileID)
  /-- `finishUpload` of an empty file: `s.files.Store`. -/
  | register (body : CreateBody) (id : FileID)
  /-- `s.uploads.Store(id, sess)`. -/
  | store (body : CreateBody) (id : FileID)
  | done (a : Answer)

/-- Program points of `handleUploadSession` and `putChunk`. -/
inductive SessionPC
  /-- `s.uploads.Load(id)`. -/
  | start
  /-- `fileResponseFor`: `s.files.Load(id)`. -/
  | loadFile
  /-- `sess.mu.Lock()`. -/
  | lock
  /-- `fileSize(sess.path)`. -/
  | stat
  /-- `os.OpenFile(sess.path, …)`. -/
  | openFile (current : ℤ)
  /-- `io.Copy` of the chunk. -/
  | copy (current : ℤ)
  /-- `os.Truncate(sess.path, current)`. -/
  | truncate (current : ℤ)
  /-- `finishUpload`: `os.Rename`. -/
  | rename (newOffset : ℤ)
  /-- `finishUpload`: `s.uploads.Delete(id)`. -/
  | unregister (newOffset : ℤ)
  /-- `finishUpload`: `s.files.Store`. -/
  | register (newOffset : ℤ)
  /-- `DELETE`: `s.uploads.Delete(id)`. -/
  | deleteEntry
  /-- `DELETE`: `os.Remove(sess.path)`. -/
  | removeFile
  /-- `sess.mu.Unlock()`, with the answer decided. -/
  | unlock (a : Answer)
  | done (a : Answer)

/-- Program points of `purgeExpiredFiles` and `purgeStaleUploads`; `rest` lists the visits to
come, `visit` the current one. -/
inductive PurgePC
  /-- Read the clock. -/
  | start
  /-- `s.files.Range` visits the next key. -/
  | files (rest : List (FileID × Bool))
  /-- `s.files.Delete(key)`. -/
  | deleteRecord (visit : FileID × Bool) (rec : FileRecord) (rest : List (FileID × Bool))
  /-- `os.Remove(record.Path)`. -/
  | removeRecord (visit : FileID × Bool) (rec : FileRecord) (rest : List (FileID × Bool))
  /-- `s.uploads.Range` visits the next key. -/
  | uploads (rest : List (FileID × Bool))
  /-- `sess.mu.Lock()`. -/
  | lock (visit : FileID × Bool) (rest : List (FileID × Bool))
  /-- `sess.updatedAt.Before(cutoff)`. -/
  | check (visit : FileID × Bool) (rest : List (FileID × Bool))
  /-- `s.uploads.Delete(key)`. -/
  | deleteEntry (visit : FileID × Bool) (rest : List (FileID × Bool))
  /-- `os.Remove(sess.path)`. -/
  | removeFile (visit : FileID × Bool) (rest : List (FileID × Bool))
  /-- `sess.mu.Unlock()`. -/
  | unlock (visit : FileID × Bool) (rest : List (FileID × Bool))
  | done

/-- A request arriving at the upload handlers, or a tick of the cleanup timer. -/
inductive Request
  | upload (r : UploadRequest)
  | create (r : CreateRequest)
  | session (r : SessionRequest)
  | purge (r : PurgeRequest)

/-- A request being handled. -/
inductive Thread
  | upload (r : UploadRequest) (pc : UploadPC)
  | create (r : CreateRequest) (pc : CreatePC)
  | session (r : SessionRequest) (pc : SessionPC)
  | purge (r : PurgeRequest) (cutoff : Time) (pc : PurgePC)

/-- The thread of a request that has just arrived. -/
def Request.thread : Request → Thread
  | .upload r => .upload r .start
  | .create r => .create r .start
  | .session r => .session r .start
  | .purge r => .purge r 0 .start

/-- The request a thread handles. -/
def Thread.request : Thread → Request
  | .upload r _ => .upload r
  | .create r _ => .create r
  | .session r _ => .session r
  | .purge r _ _ => .purge r

/-- The answer of a thread that has ended. -/
def Thread.answer? : Thread → Option Answer
  | .upload _ (.done a) => some a
  | .create _ (.done a) => some a
  | .session _ (.done a) => some a
  | _ => none

/-- The request of the thread has been handled completely. -/
def Thread.ended : Thread → Bool
  | .upload _ (.done _) => true
  | .create _ (.done _) => true
  | .session _ (.done _) => true
  | .purge _ _ .done => true
  | _ => false

/-! ## Sections -/

/-- `handleUpload`, section by section. -/
def uploadStep (cfg : Config) (s : Server) (r : UploadRequest) :
    UploadPC → Option (Server × UploadPC)
  | .start =>
      match checkUpload r, r.rand with
      | .error a, _ => some (s, .done a)
      | .ok _, none => some (s, .done internalError)
      | .ok part, some rand =>
          -- `randomID` never returns an identifier twice
          if s.issued (randomID rand) then none
          else some (s.issue (randomID rand), .create part (randomID rand))
  | .create part id =>
      match s.create r.faults (.final id) with
      | none => some (s, .done cannotSave)
      | some s => some (s, .copy part id)
  | .copy part id =>
      let copied := ioCopy part.data (cfg.maxUploadBytes + 1) r.faults.copyErr
      let s := s.append (.final id) copied.1
      if copied.2.isSome ∨ cfg.maxUploadBytes < copied.1.length then
        some (s, .discard id copied.1.length copied.2)
      else some (s, .register part id copied.1.length)
  | .discard id written err =>
      some (s.remove r.faults.remove (.final id), .done (uploadRefused cfg written err))
  | .register part id written =>
      let registered := registerFile s id (sanitizeFileName part.fileName)
        (normalizeMime part.contentType) (.final id) written
      some (registered.1, .done (.file 200 registered.2))
  | .done _ => none

/-- `handleUploadCreate`, section by section. -/
def createStep (cfg : Config) (s : Server) (r : CreateRequest) :
    CreatePC → Option (Server × CreatePC)
  | .start =>
      match checkCreate cfg r, r.rand with
      | .error a, _ => some (s, .done a)
      | .ok _, none => some (s, .done internalError)
      | .ok body, some rand =>
          -- `randomID` never returns an identifier twice
          if s.issued (randomID rand) then none
          else some (s.issue (randomID rand), .create body (randomID rand))
  | .create body id =>
      let sess := newSession s id body
      match s.create r.faults sess.path with
      | none => some (s, .done cannotSave)
      | some s => some (s.setSession id sess, if body.size = 0 then .rename body id else .store body id)
  | .rename body id =>
      (s.sessions id).bind fun sess =>
        match s.rename r.faults sess.path (.final id) with
        | none => some (s, .done cannotSave)
        | some s => some (s, .unregister body id)
  | .unregister body id => some (s.setUpload id false, .register body id)
  | .register body id =>
      (s.sessions id).bind fun sess =>
        let registered := registerFile s id sess.name sess.mime (.final id) sess.size
        some (registered.1, .done (completed 201 id 0 body.size registered.2))
  | .store body id => some (s.setUpload id true, .done (progress 201 id 0 body.size))
  | .done _ => none

/-- `handleUploadSession` and `putChunk`, section by section, by thread `t`. -/
def sessionStep (t : Tid) (s : Server) (r : SessionRequest) :
    SessionPC → Option (Server × SessionPC)
  | .start =>
      if isHexFileID r.id = false then some (s, .done pageNotFound)
      else match s.load r.id with
        | none => some (s, .loadFile)
        | some _ =>
            match r.method with
            | .get | .put | .delete => some (s, .lock)
            | _ => some (s, .done methodNotAllowed)
  | .loadFile =>
      match fileResponseFor s r.id with
      | some file =>
          if r.method ≠ .delete then
            some (s, .done (completed 200 r.id file.size file.size file))
          else some (s, .done uploadNotFound)
      | none => some (s, .done uploadNotFound)
  | .lock =>
      (s.sessions r.id).bind fun sess =>
        if sess.mu.isSome then none
        else some (s.setMu r.id (some t), if r.method = .delete then .deleteEntry else .stat)
  | .stat =>
      (s.sessions r.id).bind fun sess =>
        match s.fileSize r.faults sess.path with
        | none => some (s, .unlock uploadNotFound)
        | some current =>
            if r.method = .get then some (s, .unlock (progress 200 r.id current sess.size))
            else if Go.parseInt r.offset ≠ some current then
              some (s, .unlock (progress 409 r.id current sess.size))
            else some (s, .openFile current)
  | .openFile current =>
      (s.sessions r.id).bind fun sess =>
        if s.canAppend r.faults sess.path = false then some (s, .unlock cannotSave)
        else some (s, .copy current)
  | .copy current =>
      (s.sessions r.id).bind fun sess =>
        let limit := chunkLimit sess current
        let copied := ioCopy r.body (limit + 1) r.faults.copyErr
        let s := storeChunk s r.id sess copied.1
        if limit < copied.1.length then some (s, .truncate current)
        else if copied.2.isSome || r.faults.close then some (s, .unlock chunkInterrupted)
        else
          let newOffset := current + copied.1.length
          if newOffset = sess.size then some (s, .rename newOffset)
          else some (s, .unlock (progress 200 r.id newOffset sess.size))
  | .truncate current =>
      (s.sessions r.id).bind fun sess =>
        some (s.truncate sess.path current, .unlock chunkExceeds)
  | .rename newOffset =>
      (s.sessions r.id).bind fun sess =>
        match s.rename r.faults sess.path (.final r.id) with
        | none => some (s, .unlock cannotSave)
        | some s => some (s, .unregister newOffset)
  | .unregister newOffset => some (s.setUpload r.id false, .register newOffset)
  | .register newOffset =>
      (s.sessions r.id).bind fun sess =>
        let registered := registerFile s r.id sess.name sess.mime (.final r.id) sess.size
        some (registered.1, .unlock (completed 200 r.id newOffset sess.size registered.2))
  | .deleteEntry => some (s.setUpload r.id false, .removeFile)
  | .removeFile =>
      (s.sessions r.id).bind fun sess =>
        some (s.remove r.faults.remove sess.path, .unlock .noContent)
  | .unlock a => some (s.setMu r.id none, .done a)
  | .done _ => none

/-- `purgeExpiredFiles` and `purgeStaleUploads`, section by section, by thread `t`. -/
def purgeStep (t : Tid) (s : Server) (r : PurgeRequest) (cutoff : Time) :
    PurgePC → Option (Server × Time × PurgePC)
  | .start => some (s, s.now - r.ttl, .files r.filesRange)
  | .files [] => some (s, cutoff, .uploads r.uploadsRange)
  | .files (visit :: rest) =>
      match s.files visit.1 with
      | some rec =>
          if rec.createdAt < cutoff then some (s, cutoff, .deleteRecord visit rec rest)
          else some (s, cutoff, .files rest)
      | none => some (s, cutoff, .files rest)
  | .deleteRecord visit rec rest =>
      some (s.setFile visit.1 none, cutoff, .removeRecord visit rec rest)
  | .removeRecord visit rec rest => some (s.remove visit.2 rec.path, cutoff, .files rest)
  | .uploads [] => some (s, cutoff, .done)
  | .uploads (visit :: rest) =>
      match s.load visit.1 with
      | some _ => some (s, cutoff, .lock visit rest)
      | none => some (s, cutoff, .uploads rest)
  | .lock visit rest =>
      (s.sessions visit.1).bind fun sess =>
        if sess.mu.isSome then none
        else some (s.setMu visit.1 (some t), cutoff, .check visit rest)
  | .check visit rest =>
      (s.sessions visit.1).bind fun sess =>
        if sess.updatedAt < cutoff then some (s, cutoff, .deleteEntry visit rest)
        else some (s, cutoff, .unlock visit rest)
  | .deleteEntry visit rest => some (s.setUpload visit.1 false, cutoff, .removeFile visit rest)
  | .removeFile visit rest =>
      (s.sessions visit.1).bind fun sess =>
        some (s.remove visit.2 sess.path, cutoff, .unlock visit rest)
  | .unlock visit rest => some (s.setMu visit.1 none, cutoff, .uploads rest)
  | .done => none

/-- The next section of a thread. -/
def Thread.step (cfg : Config) (t : Tid) (s : Server) : Thread → Option (Server × Thread)
  | .upload r pc => (uploadStep cfg s r pc).map fun x => (x.1, .upload r x.2)
  | .create r pc => (createStep cfg s r pc).map fun x => (x.1, .create r x.2)
  | .session r pc => (sessionStep t s r pc).map fun x => (x.1, .session r x.2)
  | .purge r cutoff pc => (purgeStep t s r cutoff pc).map fun x => (x.1, .purge r x.2.1 x.2.2)

/-- The **upload server** as a pool of threads; the environment lets time pass. -/
def machine (cfg : Config) : Machine Server Thread Unit ℕ where
  step t _ s th := (th.step cfg t s).map fun x => (x.1, x.2, [])
  env d s := { s with now := s.now + d }

/-- No handler starts further threads. A section of the machine is therefore a section of its thread
and nothing more. -/
theorem machine_step_iff {cfg : Config} {t : Tid} {k : Unit} {s s' : Server} {th th' : Thread}
    {fs : List Thread} : (machine cfg).step t k s th = some (s', th', fs) ↔
      th.step cfg t s = some (s', th') ∧ fs = [] := by
  show (th.step cfg t s).map (fun x => (x.1, x.2, [])) = some (s', th', fs) ↔ _
  cases th.step cfg t s with
  | none => simp
  | some x => simp [Prod.ext_iff, and_assoc, eq_comm]

/-- Where a thread comes from: it was there before the action, it has just arrived, or it has just
performed its section. -/
theorem thread_of_exec {cfg : Config} {c d : ThreadPool.Config Server Thread}
    {act : Act Thread Unit ℕ} {t : Tid} {th' : Thread} (h : (machine cfg).exec c act = some d)
    (hth' : d.threads[t]? = some th') :
    c.threads[t]? = some th' ∨ act = .spawn th' ∨
      ∃ th, act = .run t () ∧ c.threads[t]? = some th ∧
        th.step cfg t c.shared = some (d.shared, th') := by
  rcases (machine cfg).thread_of_exec h hth' with hold | hnew | ⟨k, th, fs, hact, hth, hstep⟩ |
    ⟨u, k, th, th₁, fs, -, -, hstep, hmem⟩
  · exact .inl hold
  · exact .inr (.inl hnew)
  · exact .inr (.inr ⟨th, hact, hth, (machine_step_iff.mp hstep).1⟩)
  · rw [(machine_step_iff.mp hstep).2] at hmem
    cases hmem

/-- A `run` action performs one section of one thread. All other threads stay at their program
points. -/
theorem run_of_exec {cfg : Config} {c d : ThreadPool.Config Server Thread} {t : Tid} {k : Unit}
    (h : (machine cfg).exec c (.run t k) = some d) :
    ∃ th th', c.threads[t]? = some th ∧ th.step cfg t c.shared = some (d.shared, th') ∧
      d.threads = c.threads.set t th' := by
  obtain ⟨th, s', th', fs, hth, hstep, rfl⟩ := (machine cfg).exec_run_iff.mp h
  obtain ⟨hstep', rfl⟩ := machine_step_iff.mp hstep
  exact ⟨th, th', hth, hstep', List.append_nil _⟩

/-- A step never changes the request a thread handles. What a request asked for can be read off its
thread at any time. -/
theorem Thread.step_request {cfg : Config} {t : Tid} {s s' : Server} {th th' : Thread}
    (h : th.step cfg t s = some (s', th')) : th'.request = th.request := by
  cases th <;>
    · obtain ⟨x, -, hx⟩ := Option.map_eq_some_iff.mp h
      obtain ⟨-, rfl⟩ := Prod.mk.inj hx
      rfl

/-! ## A thread running alone computes its handler -/

/-- Thread `t` alone takes the server and itself from one pair to another. -/
def Solo (cfg : Config) (t : Tid) : Server × Thread → Server × Thread → Prop :=
  ReflTransGen fun x y => x.2.step cfg t x.1 = some y

namespace Solo

variable {cfg : Config} {t : Tid} {s u : Server} {z : Server × Thread}

/-- Begin with a section of `handleUpload`. A run of the handler alone is put together from its
sections in order. -/
theorem upload {r : UploadRequest} {pc q : UploadPC} (h : uploadStep cfg s r pc = some (u, q))
    (hs : Solo cfg t (u, .upload r q) z) : Solo cfg t (s, .upload r pc) z :=
  .head (by simp [Thread.step, h]) hs

/-- Begin with a section of `handleUploadCreate`. It is the same composition for the second
handler. -/
theorem create {r : CreateRequest} {pc q : CreatePC} (h : createStep cfg s r pc = some (u, q))
    (hs : Solo cfg t (u, .create r q) z) : Solo cfg t (s, .create r pc) z :=
  .head (by simp [Thread.step, h]) hs

/-- Begin with a section of `handleUploadSession`. It is the same composition for the third handler,
which waits for the mutex in one of its sections. -/
theorem session {r : SessionRequest} {pc q : SessionPC}
    (h : sessionStep t s r pc = some (u, q)) (hs : Solo cfg t (u, .session r q) z) :
    Solo cfg t (s, .session r pc) z :=
  .head (by simp [Thread.step, h]) hs

/-- Begin with a section of the purge. The cutoff is part of the thread, since it is read once and
used in all later sections. -/
theorem purge {r : PurgeRequest} {cutoff c : Time} {pc q : PurgePC}
    (h : purgeStep t s r cutoff pc = some (u, c, q))
    (hs : Solo cfg t (u, .purge r c q) z) : Solo cfg t (s, .purge r cutoff pc) z :=
  .head (by simp [Thread.step, h]) hs

end Solo

/-- **The sections of `handleUpload` compute `handleUpload`.** It ties the concurrent model to the
handler as it reads in the source. -/
theorem solo_upload (cfg : Config) (t : Tid) (s : Server) (r : UploadRequest)
    (hfresh : ∀ rand, r.rand = some rand → s.issued (randomID rand) = false) :
    Solo cfg t (s, .upload r .start)
      ((handleUpload cfg s r).1, .upload r (.done (handleUpload cfg s r).2)) := by
  rw [handleUpload]
  split
  · exact .upload (by simp [uploadStep, *]) .refl
  · exact .upload (by simp [uploadStep, *]) .refl
  · rename_i part rand hcheck hrand
    refine .upload (u := s.issue (randomID rand)) (q := .create part (randomID rand))
      (by simp [uploadStep, hcheck, hrand, hfresh rand hrand]) ?_
    dsimp only
    split
    · exact .upload (by simp [uploadStep, *]) .refl
    · rename_i s₁ hcreate
      refine .upload (u := s₁) (q := .copy part (randomID rand)) (by simp [uploadStep, hcreate]) ?_
      split
      · refine .upload (if_pos ‹_›) ?_
        exact .upload rfl .refl
      · refine .upload (if_neg ‹_›) ?_
        exact .upload rfl .refl

/-- A rename does not touch the session objects. Its two cases are that it fails and that it moves
the bytes. -/
theorem sessions_of_rename {s s' : Server} {f : Faults} {src dst : Path}
    (h : s.rename f src dst = some s') : s'.sessions = s.sessions := by
  rw [Server.rename] at h
  split at h
  · cases h
  · obtain ⟨b, -, rfl⟩ := Option.map_eq_some_iff.mp h
    rfl

/-- **The sections of `handleUploadCreate` compute `handleUploadCreate`.** The hypothesis is that
the identifier which is drawn is a new one. -/
theorem solo_create (cfg : Config) (t : Tid) (s : Server) (r : CreateRequest)
    (hfresh : ∀ rand, r.rand = some rand → s.issued (randomID rand) = false) :
    Solo cfg t (s, .create r .start)
      ((handleUploadCreate cfg s r).1, .create r (.done (handleUploadCreate cfg s r).2)) := by
  rw [handleUploadCreate]
  -- the two refusals end in the first section
  split
  · exact .create (by simp [createStep, *]) .refl
  · exact .create (by simp [createStep, *]) .refl
  · rename_i body rand hcheck hrand
    refine .create (u := s.issue (randomID rand)) (q := .create body (randomID rand))
      (by simp [createStep, hcheck, hrand, hfresh rand hrand]) ?_
    dsimp only
    split
    · rename_i hcreate
      exact .create (by simp only [createStep, hcreate]) .refl
    · rename_i s₁ hcreate
      refine .create (by simp only [createStep, hcreate]; rfl) ?_
      set sess := newSession (s.issue (randomID rand)) (randomID rand) body
      -- an upload of no bytes is finished at once
      by_cases hsize : body.size = 0
      · rw [if_pos hsize, if_pos hsize]
        have hsess := s₁.sessions_setSession (randomID rand) sess
        cases hren : (s₁.setSession (randomID rand) sess).rename r.faults sess.path
          (.final (randomID rand)) with
        | none =>
            simp only [finishUpload, hren, Option.map_none]
            exact .create (by simp only [createStep, hsess, Option.bind_some, hren]) .refl
        | some s₂ =>
            simp only [finishUpload, hren, Option.map_some]
            -- rename, `uploads.Delete`, `files.Store`
            refine .create (by simp only [createStep, hsess, Option.bind_some, hren]; rfl) ?_
            refine .create rfl (.create ?_ .refl)
            have hsess₂ : (s₂.setUpload (randomID rand) false).sessions (randomID rand) = some sess := by
              rw [← hsess, ← sessions_of_rename hren]
              rfl
            simp only [createStep, hsess₂, Option.bind_some]
      · rw [if_neg hsize, if_neg hsize]
        exact .create rfl .refl

/-- The sections of `putChunk` from the copy on compute the rest of `putChunk`. -/
theorem solo_copy (cfg : Config) (t : Tid) (s : Server) (r : SessionRequest)
    (sess : UploadSession) (current : ℤ) (hsess : s.sessions r.id = some sess) :
    Solo cfg t (s, .session r (.copy current))
      ((copyChunk s r sess current).1, .session r (.unlock (copyChunk s r sess current).2)) := by
  have hstored : (storeChunk s r.id sess
      (ioCopy r.body (chunkLimit sess current + 1) r.faults.copyErr).1).sessions r.id =
        some { sess with updatedAt := s.now } := by
    rw [storeChunk, Server.sessions_setSession]
  rw [copyChunk]
  set copied := ioCopy r.body (chunkLimit sess current + 1) r.faults.copyErr with hcopied
  -- the section after the copy is chosen by the number of copied bytes and the error
  have hcopy : sessionStep t s r (.copy current) =
      if chunkLimit sess current < copied.1.length then
        some (storeChunk s r.id sess copied.1, .truncate current)
      else if copied.2.isSome || r.faults.close then
        some (storeChunk s r.id sess copied.1, .unlock chunkInterrupted)
      else if current + copied.1.length = sess.size then
        some (storeChunk s r.id sess copied.1, .rename (current + copied.1.length))
      else some (storeChunk s r.id sess copied.1,
        .unlock (progress 200 r.id (current + copied.1.length) sess.size)) := by
    simp only [sessionStep, hsess, Option.bind_some, ← hcopied]
  split
  · -- too long: the file is truncated to where it was
    rename_i hlong
    refine .session (hcopy.trans (if_pos hlong)) (.session ?_ .refl)
    simp only [sessionStep, hstored, Option.bind_some]
  · rename_i hlong
    rw [if_neg hlong] at hcopy
    split
    · exact .session (hcopy.trans (if_pos ‹_›)) .refl
    · rename_i herr
      rw [if_neg herr] at hcopy
      -- all bytes are there, so the upload is finished in three more sections
      by_cases hfull : current + copied.1.length = sess.size
      · rw [if_pos hfull] at hcopy ⊢
        refine .session hcopy ?_
        cases hren : (storeChunk s r.id sess copied.1).rename r.faults sess.path (.final r.id) with
        | none =>
            simp only [finishUpload, hren, Option.map_none]
            exact .session (by simp only [sessionStep, hstored, Option.bind_some, hren]) .refl
        | some s₂ =>
            simp only [finishUpload, hren, Option.map_some]
            refine .session (by simp only [sessionStep, hstored, Option.bind_some, hren]; rfl) ?_
            refine .session rfl (.session ?_ .refl)
            have hsess₂ : (s₂.setUpload r.id false).sessions r.id =
                some { sess with updatedAt := s.now } := by
              rw [← hstored, ← sessions_of_rename hren]
              rfl
            simp only [sessionStep, hsess₂, Option.bind_some]
      · rw [if_neg hfull] at hcopy ⊢
        exact .session hcopy .refl

/-- The sections of `putChunk` between locking and unlocking compute `putChunk`. -/
theorem solo_putChunk (cfg : Config) (t : Tid) (s : Server) (r : SessionRequest)
    (sess : UploadSession) (hput : r.method = .put) (hsess : s.sessions r.id = some sess) :
    Solo cfg t (s, .session r .stat)
      ((putChunk s r sess).1, .session r (.unlock (putChunk s r sess).2)) := by
  rw [putChunk]
  -- the file cannot be read: nothing else is tried
  split
  · rename_i hstat
    exact .session (by simp only [sessionStep, hsess, Option.bind_some, hstat]) .refl
  · rename_i current hstat
    have hmethod : ¬r.method = .get := by simp [hput]
    -- the offset of the request is compared before anything is opened
    by_cases hoff : Go.parseInt r.offset ≠ some current
    · rw [if_pos hoff]
      refine .session ?_ .refl
      simp only [sessionStep, hsess, Option.bind_some, hstat, if_neg hmethod, if_pos hoff]
    · rw [if_neg hoff]
      refine .session (u := s) (q := .openFile current) ?_ ?_
      · simp only [sessionStep, hsess, Option.bind_some, hstat, if_neg hmethod, if_neg hoff]
      · by_cases hopen : s.canAppend r.faults sess.path = false
        · rw [if_pos hopen]
          exact .session (by simp only [sessionStep, hsess, Option.bind_some, if_pos hopen]) .refl
        · rw [if_neg hopen]
          refine .session (u := s) (q := .copy current) ?_ (solo_copy cfg t s r sess current hsess)
          simp only [sessionStep, hsess, Option.bind_some, if_neg hopen]

/-- **The sections of `handleUploadSession` compute `handleUploadSession`**, when `sess.mu` is free.
Without the hypothesis it would wait. -/
theorem solo_session (cfg : Config) (t : Tid) (s : Server) (r : SessionRequest)
    (hfree : ∀ sess, s.load r.id = some sess → sess.mu = none) :
    Solo cfg t (s, .session r .start)
      ((handleUploadSession t s r).1, .session r (.done (handleUploadSession t s r).2)) := by
  rw [handleUploadSession]
  split
  · exact .session (by simp only [sessionStep, if_pos ‹_›]) .refl
  · rename_i hhex
    split
    · rename_i hload
      refine .session (u := s) (q := .loadFile) (by simp only [sessionStep, if_neg hhex, hload]) ?_
      split
      · split
        · exact .session (by simp [sessionStep, *]) .refl
        · exact .session (by simp_all [sessionStep]) .refl
      · exact .session (by simp [sessionStep, *]) .refl
    · rename_i sess hload
      have hsess := (s.load_eq_some.mp hload).2
      have hmu := hfree sess hload
      -- the section under the mutex, from the state where it has just been taken
      set s₁ := s.setSession r.id { sess with mu := some t } with hs₁
      have hlocked : s.setMu r.id (some t) = s₁ := by
        rw [Server.setMu, hsess, Option.map_some, hs₁, Server.setSession]
      have hsess₁ : s₁.sessions r.id = some { sess with mu := some t } := by
        rw [hs₁, Server.sessions_setSession]
      have hlock : sessionStep t s r .lock =
          some (s₁, if r.method = .delete then .deleteEntry else .stat) := by
        simp only [sessionStep, hsess, Option.bind_some, hmu, hlocked, Option.isSome_none,
          Bool.false_eq_true, if_false]
      split
      · rename_i hget
        refine .session (u := s) (q := .lock) (by simp only [sessionStep, if_neg hhex, hload, hget]) ?_
        refine .session (u := s₁) (q := .stat) (by rw [hlock, hget]; rfl) ?_
        rw [Server.locked, getOffset]
        cases hstat : s₁.fileSize r.faults sess.path with
        | none =>
            refine .session (q := .unlock uploadNotFound) ?_ (.session rfl .refl)
            simp only [sessionStep, hsess₁, Option.bind_some, hstat]
            rfl
        | some offset =>
            refine .session (q := .unlock (progress 200 r.id offset sess.size)) ?_
              (.session rfl .refl)
            simp only [sessionStep, hsess₁, Option.bind_some, hstat, hget, if_true]
            rfl
      · rename_i hput
        refine .session (u := s) (q := .lock) (by simp only [sessionStep, if_neg hhex, hload, hput]) ?_
        refine .session (u := s₁) (q := .stat) (by rw [hlock, hput]; rfl) ?_
        exact (solo_putChunk cfg t s₁ r _ hput hsess₁).trans (Solo.session rfl .refl)
      · rename_i hdel
        refine .session (u := s) (q := .lock) (by simp only [sessionStep, if_neg hhex, hload, hdel]) ?_
        refine .session (u := s₁) (q := .deleteEntry) (by rw [hlock, hdel]; rfl) ?_
        refine .session (q := .removeFile) rfl (.session (q := .unlock .noContent) ?_ (.session rfl .refl))
        have : (s₁.setUpload r.id false).sessions r.id = some { sess with mu := some t } := hsess₁
        simp only [sessionStep, this, Option.bind_some]
        rfl
      · refine .session ?_ .refl
        simp only [sessionStep, if_neg hhex, hload]

/-- The visits of `files.Range` compute the fold of `purgeFile`. -/
theorem solo_purgeFiles (cfg : Config) (t : Tid) (s : Server) (r : PurgeRequest) (cutoff : Time)
    (visits : List (FileID × Bool)) :
    Solo cfg t (s, .purge r cutoff (.files visits))
      (visits.foldl (purgeFile cutoff) s, .purge r cutoff (.uploads r.uploadsRange)) := by
  induction visits generalizing s with
  | nil => exact .purge rfl .refl
  | cons visit rest ih =>
      rw [List.foldl_cons, purgeFile]
      split
      · rename_i rec hrec
        split
        · rename_i hold
          refine .purge (u := s) (q := .deleteRecord visit rec rest) (c := cutoff) ?_
            (.purge rfl (.purge rfl (ih _)))
          simp only [purgeStep, hrec, if_pos hold]
        · refine .purge ?_ (ih s)
          simp only [purgeStep, hrec, if_neg ‹_›]
      · refine .purge ?_ (ih s)
        simp only [purgeStep, *]

/-- The visits of `uploads.Range` compute the fold of `purgeSession`, when every `sess.mu` is
free. -/
theorem solo_purgeSessions (cfg : Config) (t : Tid) (s : Server) (r : PurgeRequest) (cutoff : Time)
    (visits : List (FileID × Bool))
    (hfree : ∀ id sess, s.sessions id = some sess → sess.mu = none) :
    Solo cfg t (s, .purge r cutoff (.uploads visits))
      (visits.foldl (purgeSession t cutoff) s, .purge r cutoff .done) := by
  induction visits generalizing s with
  | nil => exact .purge rfl .refl
  | cons visit rest ih =>
      rw [List.foldl_cons, purgeSession]
      split
      · rename_i sess hload
        have hsess := (s.load_eq_some.mp hload).2
        set s₁ := s.setSession visit.1 { sess with mu := some t } with hs₁
        have hlocked : s.setMu visit.1 (some t) = s₁ := by
          rw [Server.setMu, hsess, Option.map_some, hs₁, Server.setSession]
        have hsess₁ : s₁.sessions visit.1 = some { sess with mu := some t } := by
          rw [hs₁, Server.sessions_setSession]
        refine .purge (u := s) (q := .lock visit rest) (c := cutoff)
          (by simp only [purgeStep, hload]) ?_
        refine .purge (u := s₁) (q := .check visit rest) (c := cutoff) ?_ ?_
        · simp only [purgeStep, hsess, Option.bind_some, hfree _ _ hsess, hlocked,
            Option.isSome_none, Bool.false_eq_true, if_false]
        -- unlocking leaves every mutex free again, so the remaining visits go through
        have hnext : ∀ s₂ : Server, s₂.sessions = s₁.sessions →
            ∀ id sess', (s₂.setMu visit.1 none).sessions id = some sess' → sess'.mu = none := by
          intro s₂ hs₂ id sess' hid
          by_cases hne : id = visit.1
          · subst hne
            rw [Server.sessions_setMu, hs₂, hsess₁, Option.map_some] at hid
            rw [← Option.some.inj hid]
          · rw [Server.sessions_setMu_ne _ hne, hs₂, hs₁, Server.sessions_setSession_ne _ hne] at hid
            exact hfree id sess' hid
        rw [Server.locked, dropStale]
        by_cases hstale : sess.updatedAt < cutoff
        · rw [if_pos hstale]
          refine .purge (u := s₁) (q := .deleteEntry visit rest) (c := cutoff) ?_ ?_
          · simp only [purgeStep, hsess₁, Option.bind_some, if_pos hstale]
          refine .purge (q := .removeFile visit rest) (c := cutoff) rfl ?_
          refine .purge (u := (s₁.setUpload visit.1 false).remove visit.2 sess.path)
            (q := .unlock visit rest) (c := cutoff) ?_ ?_
          · have hup : (s₁.setUpload visit.1 false).sessions visit.1 = _ := hsess₁
            simp only [purgeStep, hup, Option.bind_some]
          · refine .purge rfl (ih _ (hnext _ ?_))
            rw [Server.remove]
            split <;> rfl
        · rw [if_neg hstale]
          refine .purge (u := s₁) (q := .unlock visit rest) (c := cutoff) ?_ ?_
          · simp only [purgeStep, hsess₁, Option.bind_some, if_neg hstale]
          · exact .purge rfl (ih _ (hnext _ rfl))
      · refine .purge ?_ (ih s hfree)
        simp only [purgeStep, *]

/-- The walk over `files` does not touch the session objects. -/
theorem sessions_foldl_purgeFile (cutoff : Time) (s : Server) (visits : List (FileID × Bool)) :
    (visits.foldl (purgeFile cutoff) s).sessions = s.sessions := by
  induction visits generalizing s with
  | nil => rfl
  | cons visit rest ih =>
      rw [List.foldl_cons, ih, purgeFile]
      split
      · split
        · rw [Server.remove]
          split <;> rfl
        · rfl
      · rfl

/-- **The sections of the purge compute `purgeExpiredFiles`**, when every `sess.mu` is free. Each
visit takes and releases a mutex of its own. -/
theorem solo_purge (cfg : Config) (t : Tid) (s : Server) (r : PurgeRequest)
    (hfree : ∀ id sess, s.sessions id = some sess → sess.mu = none) :
    Solo cfg t (s, .purge r 0 .start)
      (purgeExpiredFiles t s r, .purge r (s.now - r.ttl) .done) := by
  refine .purge rfl ((solo_purgeFiles cfg t s r _ _).trans ?_)
  refine solo_purgeSessions cfg t _ r _ _ fun id sess h => hfree id sess ?_
  rwa [sessions_foldl_purgeFile] at h

end LanRoom.Upload
