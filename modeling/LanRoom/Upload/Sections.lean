import LanRoom.Upload.Assertions

/-! # What a section can do

The outcomes of every section of the handlers, as relations with one constructor per way through
the section: the condition under which it is taken, the server state after it and the next program
point. Later proofs distinguish these cases instead of unfolding the handlers. The frame lemmas say
that a section leaves every identifier but the one it works on alone. -/

namespace LanRoom.Upload

open ThreadPool (Tid)

/-! ## Outcomes -/

/-- The outcomes of a section of `handleUpload`. -/
inductive UploadSection (cfg : Config) (s : Server) (r : UploadRequest) :
    UploadPC → Server → UploadPC → Prop
  | refused {a : Answer} (hcheck : checkUpload r = .error a) :
      UploadSection cfg s r .start s (.done a)
  | noID : UploadSection cfg s r .start s (.done internalError)
  | issued {part : Part} {rand : Vector UInt8 16} (hrand : r.rand = some rand)
      (hfresh : s.issued (randomID rand) = false) :
      UploadSection cfg s r .start (s.issue (randomID rand)) (.create part (randomID rand))
  | createFails {part : Part} {fid : FileID} :
      UploadSection cfg s r (.create part fid) s (.done cannotSave)
  | created {part : Part} {fid : FileID} :
      UploadSection cfg s r (.create part fid) (s.setDisk (.final fid) (some [])) (.copy part fid)
  | refusedCopy {part : Part} {fid : FileID} (data : Bytes) (err : Option CopyErr) :
      UploadSection cfg s r (.copy part fid) (s.append (.final fid) data)
        (.discard fid data.length err)
  | copied {part : Part} {fid : FileID} (data : Bytes) (hmax : data.length ≤ cfg.maxUploadBytes) :
      UploadSection cfg s r (.copy part fid) (s.append (.final fid) data)
        (.register part fid data.length)
  | discarded {fid : FileID} {written : ℤ} {err : Option CopyErr} :
      UploadSection cfg s r (.discard fid written err) (s.remove r.faults.remove (.final fid))
        (.done (uploadRefused cfg written err))
  | registered {part : Part} {fid : FileID} {written : ℤ} :
      UploadSection cfg s r (.register part fid written)
        (s.setFile fid (some (newRecord s (sanitizeFileName part.fileName)
          (normalizeMime part.contentType) (.final fid) written)))
        (.done (.file 200 ⟨fid, sanitizeFileName part.fileName, written,
          normalizeMime part.contentType⟩))

/-- The outcomes of a section of `handleUploadCreate`. -/
inductive CreateSection (cfg : Config) (s : Server) (r : CreateRequest) :
    CreatePC → Server → CreatePC → Prop
  | refused {a : Answer} (hcheck : checkCreate cfg r = .error a) :
      CreateSection cfg s r .start s (.done a)
  | noID (hrand : r.rand = none) : CreateSection cfg s r .start s (.done internalError)
  | issued {body : CreateBody} {rand : Vector UInt8 16} (hcheck : checkCreate cfg r = .ok body)
      (hrand : r.rand = some rand) (hfresh : s.issued (randomID rand) = false) :
      CreateSection cfg s r .start (s.issue (randomID rand)) (.create body (randomID rand))
  | createFails {body : CreateBody} {fid : FileID} (hfail : r.faults.create = true) :
      CreateSection cfg s r (.create body fid) s (.done cannotSave)
  | createdEmpty {body : CreateBody} {fid : FileID} (hok : r.faults.create = false)
      (hsize : body.size = 0) :
      CreateSection cfg s r (.create body fid)
        ((s.setDisk (.part fid) (some [])).setSession fid (newSession s fid body)) (.rename body fid)
  | created {body : CreateBody} {fid : FileID} (hok : r.faults.create = false)
      (hsize : body.size ≠ 0) :
      CreateSection cfg s r (.create body fid)
        ((s.setDisk (.part fid) (some [])).setSession fid (newSession s fid body)) (.store body fid)
  | renameFails {body : CreateBody} {fid : FileID} {se : UploadSession}
      (hse : s.sessions fid = some se) (hfail : r.faults.rename = true ∨ s.disk se.path = none) :
      CreateSection cfg s r (.rename body fid) s (.done cannotSave)
  | renamed {body : CreateBody} {fid : FileID} {se : UploadSession} {b : Bytes}
      (hse : s.sessions fid = some se) (hok : r.faults.rename = false)
      (hb : s.disk se.path = some b) :
      CreateSection cfg s r (.rename body fid)
        ((s.setDisk se.path none).setDisk (.final fid) (some b)) (.unregister body fid)
  | unregistered {body : CreateBody} {fid : FileID} :
      CreateSection cfg s r (.unregister body fid) (s.setUpload fid false) (.register body fid)
  | registered {body : CreateBody} {fid : FileID} {se : UploadSession}
      (hse : s.sessions fid = some se) :
      CreateSection cfg s r (.register body fid)
        (s.setFile fid (some (newRecord s se.name se.mime (.final fid) se.size)))
        (.done (completed 201 fid 0 body.size ⟨fid, se.name, se.size, se.mime⟩))
  | stored {body : CreateBody} {fid : FileID} :
      CreateSection cfg s r (.store body fid) (s.setUpload fid true)
        (.done (progress 201 fid 0 body.size))

/-- The outcomes of a section of `handleUploadSession` or `putChunk`. -/
inductive SessionSection (t : Tid) (s : Server) (r : SessionRequest) :
    SessionPC → Server → SessionPC → Prop
  | notHex (hhex : isHexFileID r.id = false) :
      SessionSection t s r .start s (.done pageNotFound)
  | missing (hload : s.load r.id = none) : SessionSection t s r .start s .loadFile
  | loaded (hup : s.uploads r.id = true)
      (hm : r.method = .get ∨ r.method = .put ∨ r.method = .delete) :
      SessionSection t s r .start s .lock
  | wrongMethod : SessionSection t s r .start s (.done methodNotAllowed)
  | finished {rec : FileRecord} (hrec : s.files r.id = some rec) (hm : r.method ≠ .delete) :
      SessionSection t s r .loadFile s
        (.done (completed 200 r.id rec.size rec.size ⟨r.id, rec.name, rec.size, rec.mime⟩))
  | notFound (h : s.files r.id = none ∨ r.method = .delete) :
      SessionSection t s r .loadFile s (.done uploadNotFound)
  | locked {se : UploadSession} (hse : s.sessions r.id = some se) (hmu : se.mu = none)
      (hm : r.method ≠ .delete) :
      SessionSection t s r .lock (s.setMu r.id (some t)) .stat
  | lockedDelete {se : UploadSession} (hse : s.sessions r.id = some se) (hmu : se.mu = none)
      (hm : r.method = .delete) :
      SessionSection t s r .lock (s.setMu r.id (some t)) .deleteEntry
  | statFails {se : UploadSession} (hse : s.sessions r.id = some se)
      (hfail : r.faults.stat = true ∨ s.disk se.path = none) :
      SessionSection t s r .stat s (.unlock uploadNotFound)
  | offset {se : UploadSession} {b : Bytes} (hse : s.sessions r.id = some se)
      (hb : s.disk se.path = some b) (hm : r.method = .get) :
      SessionSection t s r .stat s (.unlock (progress 200 r.id b.length se.size))
  | conflict {se : UploadSession} {b : Bytes} (hse : s.sessions r.id = some se)
      (hb : s.disk se.path = some b) (hm : r.method ≠ .get) :
      SessionSection t s r .stat s (.unlock (progress 409 r.id b.length se.size))
  | continued {se : UploadSession} {b : Bytes} (hse : s.sessions r.id = some se)
      (hb : s.disk se.path = some b) (hm : r.method ≠ .get)
      (hoff : Go.parseInt r.offset = some (b.length : ℤ)) :
      SessionSection t s r .stat s (.openFile b.length)
  | openFails {current : ℤ} : SessionSection t s r (.openFile current) s (.unlock cannotSave)
  | opened {current : ℤ} : SessionSection t s r (.openFile current) s (.copy current)
  | tooLong {current : ℤ} {se : UploadSession} (data : Bytes) (hse : s.sessions r.id = some se)
      (hlong : chunkLimit se current < data.length) :
      SessionSection t s r (.copy current) (storeChunk s r.id se data) (.truncate current)
  | interrupted {current : ℤ} {se : UploadSession} (data : Bytes) (hse : s.sessions r.id = some se)
      (hdata : data <+: r.body) (hlim : data.length ≤ chunkLimit se current) :
      SessionSection t s r (.copy current) (storeChunk s r.id se data) (.unlock chunkInterrupted)
  | full {current : ℤ} {se : UploadSession} (data : Bytes) (hse : s.sessions r.id = some se)
      (hdata : data <+: r.body) (hlim : data.length ≤ chunkLimit se current)
      (hfull : current + data.length = se.size) :
      SessionSection t s r (.copy current) (storeChunk s r.id se data)
        (.rename (current + data.length))
  | stored {current : ℤ} {se : UploadSession} (data : Bytes) (hse : s.sessions r.id = some se)
      (hdata : data <+: r.body) (hlim : data.length ≤ chunkLimit se current) :
      SessionSection t s r (.copy current) (storeChunk s r.id se data)
        (.unlock (progress 200 r.id (current + data.length) se.size))
  | truncated {current : ℤ} {se : UploadSession} (hse : s.sessions r.id = some se) :
      SessionSection t s r (.truncate current) (s.truncate se.path current) (.unlock chunkExceeds)
  | renameFails {newOffset : ℤ} {se : UploadSession} (hse : s.sessions r.id = some se) :
      SessionSection t s r (.rename newOffset) s (.unlock cannotSave)
  | renamed {newOffset : ℤ} {se : UploadSession} {b : Bytes} (hse : s.sessions r.id = some se)
      (hb : s.disk se.path = some b) :
      SessionSection t s r (.rename newOffset)
        ((s.setDisk se.path none).setDisk (.final r.id) (some b)) (.unregister newOffset)
  | unregistered {newOffset : ℤ} :
      SessionSection t s r (.unregister newOffset) (s.setUpload r.id false) (.register newOffset)
  | registered {newOffset : ℤ} {se : UploadSession} (hse : s.sessions r.id = some se) :
      SessionSection t s r (.register newOffset)
        (s.setFile r.id (some (newRecord s se.name se.mime (.final r.id) se.size)))
        (.unlock (completed 200 r.id newOffset se.size ⟨r.id, se.name, se.size, se.mime⟩))
  | dropped : SessionSection t s r .deleteEntry (s.setUpload r.id false) .removeFile
  | removed {se : UploadSession} (hse : s.sessions r.id = some se) :
      SessionSection t s r .removeFile (s.remove r.faults.remove se.path) (.unlock .noContent)
  | unlocked {a : Answer} : SessionSection t s r (.unlock a) (s.setMu r.id none) (.done a)

/-- The outcomes of a section of the purge after the cutoff has been computed. -/
inductive PurgeSection (t : Tid) (s : Server) (r : PurgeRequest) (cutoff : Time) :
    PurgePC → Server → PurgePC → Prop
  | began : PurgeSection t s r cutoff .start s (.files r.filesRange)
  | filesDone : PurgeSection t s r cutoff (.files []) s (.uploads r.uploadsRange)
  | expired {visit : FileID × Bool} {rest : List (FileID × Bool)} {rec : FileRecord}
      (hrec : s.files visit.1 = some rec) (hold : rec.createdAt < cutoff) :
      PurgeSection t s r cutoff (.files (visit :: rest)) s (.deleteRecord visit rec rest)
  | fresh {visit : FileID × Bool} {rest : List (FileID × Bool)} :
      PurgeSection t s r cutoff (.files (visit :: rest)) s (.files rest)
  | recordDeleted {visit : FileID × Bool} {rec : FileRecord} {rest : List (FileID × Bool)} :
      PurgeSection t s r cutoff (.deleteRecord visit rec rest) (s.setFile visit.1 none)
        (.removeRecord visit rec rest)
  | recordRemoved {visit : FileID × Bool} {rec : FileRecord} {rest : List (FileID × Bool)} :
      PurgeSection t s r cutoff (.removeRecord visit rec rest) (s.remove visit.2 rec.path)
        (.files rest)
  | done : PurgeSection t s r cutoff (.uploads []) s .done
  | loaded {visit : FileID × Bool} {rest : List (FileID × Bool)} (hup : s.uploads visit.1 = true) :
      PurgeSection t s r cutoff (.uploads (visit :: rest)) s (.lock visit rest)
  | missing {visit : FileID × Bool} {rest : List (FileID × Bool)} :
      PurgeSection t s r cutoff (.uploads (visit :: rest)) s (.uploads rest)
  | locked {visit : FileID × Bool} {rest : List (FileID × Bool)} {se : UploadSession}
      (hse : s.sessions visit.1 = some se) (hmu : se.mu = none) :
      PurgeSection t s r cutoff (.lock visit rest) (s.setMu visit.1 (some t)) (.check visit rest)
  | stale {visit : FileID × Bool} {rest : List (FileID × Bool)} :
      PurgeSection t s r cutoff (.check visit rest) s (.deleteEntry visit rest)
  | recent {visit : FileID × Bool} {rest : List (FileID × Bool)} :
      PurgeSection t s r cutoff (.check visit rest) s (.unlock visit rest)
  | dropped {visit : FileID × Bool} {rest : List (FileID × Bool)} :
      PurgeSection t s r cutoff (.deleteEntry visit rest) (s.setUpload visit.1 false)
        (.removeFile visit rest)
  | removed {visit : FileID × Bool} {rest : List (FileID × Bool)} {se : UploadSession}
      (hse : s.sessions visit.1 = some se) :
      PurgeSection t s r cutoff (.removeFile visit rest) (s.remove visit.2 se.path)
        (.unlock visit rest)
  | unlocked {visit : FileID × Bool} {rest : List (FileID × Bool)} :
      PurgeSection t s r cutoff (.unlock visit rest) (s.setMu visit.1 none) (.uploads rest)

/-! ## Every section has one of these outcomes -/

/-- Both ways `os.Rename` can go. It fails without an effect or moves the bytes; the operating
system does not leave anything in between. -/
theorem Server.rename_cases (s : Server) (f : Faults) (src dst : Path) :
    (s.rename f src dst = none ∧ (f.rename = true ∨ s.disk src = none)) ∨
      ∃ b, f.rename = false ∧ s.disk src = some b ∧
        s.rename f src dst = some ((s.setDisk src none).setDisk dst (some b)) := by
  rw [rename]
  cases hf : f.rename with
  | true => exact .inl ⟨rfl, .inl rfl⟩
  | false =>
      cases hb : s.disk src with
      | none => exact .inl ⟨rfl, .inr rfl⟩
      | some b => exact .inr ⟨b, rfl, rfl, rfl⟩

/-- `io.Copy` writes a first piece of the body. This is so whether the limit ends the copy or the
connection breaks off. -/
theorem ioCopy_isPrefix (body : Bytes) (n : ℤ) (err : Option CopyErr) :
    (ioCopy body n err).1 <+: body := by
  cases err with
  | none => exact List.take_prefix ..
  | some e =>
      simp only [ioCopy]
      split
      · exact (List.take_prefix ..).trans (List.take_prefix ..)
      · exact List.take_prefix ..

variable {cfg : Config} {t : Tid} {s s' : Server}

/-- **Every section of `handleUpload` has one of these outcomes.** Later proofs go through them and
never unfold the handler. -/
theorem UploadSection.of_step {r : UploadRequest} {pc pc' : UploadPC}
    (h : uploadStep cfg s r pc = some (s', pc')) : UploadSection cfg s r pc s' pc' := by
  cases pc with
  | start =>
      simp only [uploadStep] at h
      -- the checks come in the order of the source, and only the last way out draws an identifier
      split at h
      · cases h
        exact .refused ‹_›
      · cases h
        exact .noID
      · split at h
        · cases h
        · cases h
          exact .issued ‹_› (Bool.eq_false_iff.mpr ‹_›)
  | create part fid =>
      simp only [uploadStep, Server.create] at h
      cases hf : r.faults.create with
      | true =>
          rw [hf] at h
          cases h
          exact .createFails
      | false =>
          rw [hf] at h
          cases h
          exact .created
  | copy part fid =>
      simp only [uploadStep] at h
      -- the copy stops at the limit or at an error of the body
      split at h
      · cases h
        exact .refusedCopy _ _
      · rename_i hfits
        cases h
        exact .copied _ (not_lt.mp (not_or.mp hfits).2)
  | discard fid written err =>
      cases h
      exact .discarded
  | register part fid written =>
      cases h
      exact .registered
  | done a => cases h

/-- **Every section of `handleUploadCreate` has one of these outcomes.** Later proofs go through
them and never unfold the handler. -/
theorem CreateSection.of_step {r : CreateRequest} {pc pc' : CreatePC}
    (h : createStep cfg s r pc = some (s', pc')) : CreateSection cfg s r pc s' pc' := by
  cases pc with
  | start =>
      simp only [createStep] at h
      split at h
      · cases h
        exact .refused ‹_›
      · cases h
        exact .noID ‹_›
      · split at h
        · cases h
        · cases h
          exact .issued ‹_› ‹_› (Bool.eq_false_iff.mpr ‹_›)
  | create body fid =>
      simp only [createStep, Server.create] at h
      cases hf : r.faults.create with
      | true =>
          rw [hf] at h
          cases h
          exact .createFails hf
      | false =>
          rw [hf] at h
          -- an empty file is finished at once, without ever being published
          by_cases hsize : body.size = 0
          · rw [if_pos hsize] at h
            cases h
            exact .createdEmpty hf hsize
          · rw [if_neg hsize] at h
            cases h
            exact .created hf hsize
  | rename body fid =>
      obtain ⟨se, hse, h⟩ := Option.bind_eq_some_iff.mp h
      rcases s.rename_cases r.faults se.path (.final fid) with ⟨hr, hfail⟩ | ⟨b, hok, hb, hr⟩
      · rw [hr] at h
        cases h
        exact .renameFails hse hfail
      · rw [hr] at h
        cases h
        exact .renamed hse hok hb
  | unregister body fid =>
      cases h
      exact .unregistered
  | register body fid =>
      obtain ⟨se, hse, h⟩ := Option.bind_eq_some_iff.mp h
      cases h
      exact .registered hse
  | store body fid =>
      cases h
      exact .stored
  | done a => cases h

namespace SessionSection

variable {r : SessionRequest} {pc' : SessionPC}

/-- **The look at `s.uploads`.** Before it only the form of the identifier is checked; whether the
session is found decides between the lock and `fileResponseFor`, and a method other than the three
of the protocol is answered at once. -/
theorem of_start (h : sessionStep t s r .start = some (s', pc')) :
    SessionSection t s r .start s' pc' := by
  simp only [sessionStep] at h
  split at h
  · cases h
    exact .notHex ‹_›
  · split at h
    · cases h
      exact .missing ‹_›
    · have hup := (Server.load_eq_some s).mp ‹_›
      split at h <;> cases h
      · exact .loaded hup.1 (.inl ‹_›)
      · exact .loaded hup.1 (.inr (.inl ‹_›))
      · exact .loaded hup.1 (.inr (.inr ‹_›))
      · exact .wrongMethod

/-- **The answer for an identifier without a session.** A registered file is reported as complete,
but not to a `DELETE`. -/
theorem of_loadFile (h : sessionStep t s r .loadFile = some (s', pc')) :
    SessionSection t s r .loadFile s' pc' := by
  simp only [sessionStep, fileResponseFor] at h
  cases hrec : s.files r.id with
  | none =>
      rw [hrec] at h
      cases h
      exact .notFound (.inl hrec)
  | some rec =>
      rw [hrec] at h
      simp only [Option.map_some] at h
      split at h <;> cases h
      · exact .finished hrec ‹_›
      · exact .notFound (.inr (not_not.mp ‹_›))

/-- **The lock of the session** is only taken when it is free; what follows depends on the method
alone. A `GET` or a `PUT` goes on to the size of the file, and a `DELETE` to the entry in
`uploads`. -/
theorem of_lock (h : sessionStep t s r .lock = some (s', pc')) :
    SessionSection t s r .lock s' pc' := by
  obtain ⟨se, hse, h⟩ := Option.bind_eq_some_iff.mp h
  split at h
  · cases h
  · rename_i hmu
    have hmu' : se.mu = none := by simpa using hmu
    by_cases hm : r.method = .delete
    · rw [if_pos hm] at h
      cases h
      exact .lockedDelete hse hmu' hm
    · rw [if_neg hm] at h
      cases h
      exact .locked hse hmu' hm

/-- **The size of the `.part` file**, and what becomes of it: the answer to a `GET`, a conflict, or
the offset at which the chunk of a `PUT` is stored. -/
theorem of_stat (h : sessionStep t s r .stat = some (s', pc')) :
    SessionSection t s r .stat s' pc' := by
  obtain ⟨se, hse, h⟩ := Option.bind_eq_some_iff.mp h
  simp only [Server.fileSize] at h
  cases hf : r.faults.stat with
  | true =>
      rw [hf] at h
      cases h
      exact .statFails hse (.inl hf)
  | false =>
      rw [hf] at h
      -- the file may be missing although the session is there
      cases hb : s.disk se.path with
      | none =>
          rw [hb] at h
          cases h
          exact .statFails hse (.inr hb)
      | some b =>
          rw [hb] at h
          simp only [Bool.false_eq_true, if_false, Option.map_some] at h
          -- a GET gets the offset; for the others it must be the one of the request
          split at h
          · cases h
            exact .offset hse hb ‹_›
          · split at h <;> cases h
            · exact .conflict hse hb ‹_›
            · exact .continued hse hb ‹_› (not_not.mp ‹_›)

/-- **The copy of a chunk.** The bytes are appended in every case; how many they are and whether the
copy ended well decide how the request goes on. -/
theorem of_copy {current : ℤ} (h : sessionStep t s r (.copy current) = some (s', pc')) :
    SessionSection t s r (.copy current) s' pc' := by
  obtain ⟨se, hse, h⟩ := Option.bind_eq_some_iff.mp h
  have hdata := ioCopy_isPrefix r.body (chunkLimit se current + 1) r.faults.copyErr
  dsimp only at h
  split at h
  · -- one byte beyond the limit has been read
    cases h
    exact .tooLong _ hse ‹_›
  · rename_i hlim
    rw [not_lt] at hlim
    split at h
    · cases h
      exact .interrupted _ hse hdata hlim
    · split at h <;> cases h
      · exact .full _ hse hdata hlim ‹_›
      · exact .stored _ hse hdata hlim

/-- **The rename in `finishUpload`** moves the `.part` file, or it fails and leaves it. Afterwards
the session is taken out of `uploads` and the record is stored, in sections of their own. -/
theorem of_rename {newOffset : ℤ} (h : sessionStep t s r (.rename newOffset) = some (s', pc')) :
    SessionSection t s r (.rename newOffset) s' pc' := by
  obtain ⟨se, hse, h⟩ := Option.bind_eq_some_iff.mp h
  rcases s.rename_cases r.faults se.path (.final r.id) with ⟨hr, -⟩ | ⟨b, -, hb, hr⟩
  · rw [hr] at h
    cases h
    exact .renameFails hse
  · rw [hr] at h
    cases h
    exact .renamed hse hb

/-- **Every section of `handleUploadSession` and `putChunk` has one of these outcomes.** Later
proofs go through them; the sections with an argument of their own are the lemmas above. -/
theorem of_step {pc : SessionPC} (h : sessionStep t s r pc = some (s', pc')) :
    SessionSection t s r pc s' pc' := by
  -- one case for each program point; those that branch have a lemma of their own
  cases pc with
  | start => exact of_start h
  | loadFile => exact of_loadFile h
  | lock => exact of_lock h
  | stat => exact of_stat h
  | copy current => exact of_copy h
  | rename newOffset => exact of_rename h
  | openFile current =>
      obtain ⟨se, hse, h⟩ := Option.bind_eq_some_iff.mp h
      split at h <;> cases h
      · exact .openFails
      · exact .opened
  | truncate current =>
      obtain ⟨se, hse, h⟩ := Option.bind_eq_some_iff.mp h
      cases h
      exact .truncated hse
  | unregister newOffset =>
      cases h
      exact .unregistered
  | register newOffset =>
      obtain ⟨se, hse, h⟩ := Option.bind_eq_some_iff.mp h
      cases h
      exact .registered hse
  | deleteEntry =>
      cases h
      exact .dropped
  | removeFile =>
      obtain ⟨se, hse, h⟩ := Option.bind_eq_some_iff.mp h
      cases h
      exact .removed hse
  | unlock a =>
      cases h
      exact .unlocked
  | done a => cases h

end SessionSection

/-- **Every section of the purge has one of these outcomes.** The cutoff is computed in the first
one and is kept from then on. -/
theorem PurgeSection.of_step {r : PurgeRequest} {cutoff cutoff' : Time} {pc pc' : PurgePC}
    (h : purgeStep t s r cutoff pc = some (s', cutoff', pc')) :
    PurgeSection t s r cutoff' pc s' pc' ∧ (pc ≠ .start → cutoff' = cutoff) := by
  cases pc with
  | start =>
      cases h
      exact ⟨.began, fun h => absurd rfl h⟩
  | files visits =>
      -- the visits of the first `Range`, then those of the second
      cases visits with
      | nil =>
          cases h
          exact ⟨.filesDone, fun _ => rfl⟩
      | cons visit rest =>
          simp only [purgeStep] at h
          split at h
          · split at h <;> cases h
            · exact ⟨.expired ‹_› ‹_›, fun _ => rfl⟩
            · exact ⟨.fresh, fun _ => rfl⟩
          · cases h
            exact ⟨.fresh, fun _ => rfl⟩
  | deleteRecord visit rec rest =>
      cases h
      exact ⟨.recordDeleted, fun _ => rfl⟩
  | removeRecord visit rec rest =>
      cases h
      exact ⟨.recordRemoved, fun _ => rfl⟩
  | uploads visits =>
      cases visits with
      | nil =>
          cases h
          exact ⟨.done, fun _ => rfl⟩
      | cons visit rest =>
          simp only [purgeStep] at h
          split at h <;> cases h
          · exact ⟨.loaded ((Server.load_eq_some s).mp ‹_›).1, fun _ => rfl⟩
          · exact ⟨.missing, fun _ => rfl⟩
  | lock visit rest =>
      obtain ⟨se, hse, h⟩ := Option.bind_eq_some_iff.mp h
      split at h
      · cases h
      · rename_i hmu
        cases h
        exact ⟨.locked hse (by simpa using hmu), fun _ => rfl⟩
  | check visit rest =>
      obtain ⟨se, hse, h⟩ := Option.bind_eq_some_iff.mp h
      split at h <;> cases h
      · exact ⟨.stale, fun _ => rfl⟩
      · exact ⟨.recent, fun _ => rfl⟩
  | deleteEntry visit rest =>
      cases h
      exact ⟨.dropped, fun _ => rfl⟩
  | removeFile visit rest =>
      obtain ⟨se, hse, h⟩ := Option.bind_eq_some_iff.mp h
      cases h
      exact ⟨.removed hse, fun _ => rfl⟩
  | unlock visit rest =>
      cases h
      exact ⟨.unlocked, fun _ => rfl⟩
  | done => cases h

/-! ## Paths and sizes -/

/-- `checkCreate` only passes sizes the server accepts. The declared size of a session is therefore
never negative. -/
theorem size_of_checkCreate {r : CreateRequest} {body : CreateBody}
    (h : checkCreate cfg r = .ok body) : 0 ≤ body.size ∧ body.size ≤ cfg.maxUploadBytes := by
  rw [checkCreate] at h
  split at h
  · cases h
  · split at h
    · cases h
    · split at h
      · cases h
      · split at h <;> cases h
        exact ⟨not_lt.mp ‹_›, not_lt.mp ‹_›⟩

namespace Server.Wf

variable {id : FileID}

/-- Only the records and the session objects are asked about. -/
theorem of_eq (h : s.Wf cfg) (hf : s'.files = s.files) (hs : s'.sessions = s.sessions) :
    s'.Wf cfg where
  file id rec hrec := h.file id rec (by rwa [hf] at hrec)
  session id se hse := h.session id se (by rwa [hs] at hse)

/-- Removing a record leaves the others as they are. The condition speaks of the records that are
there. -/
theorem setFile_none (h : s.Wf cfg) : (s.setFile id none).Wf cfg where
  file id' rec hrec := by
    by_cases hid : id' = id
    · subst hid
      simp [Server.setFile] at hrec
    · exact h.file id' rec (by simpa [Server.setFile, hid] using hrec)
  session := h.session

/-- A record names the final file of its own identifier. It is the form in which `finishUpload` and
the creation of an empty file register. -/
theorem setFile_some (h : s.Wf cfg) {rec : FileRecord} (hpath : rec.path = .final id) :
    (s.setFile id (some rec)).Wf cfg where
  file id' rec' hrec := by
    by_cases hid : id' = id
    · subst hid
      obtain rfl : rec = rec' := by simpa [Server.setFile] using hrec
      exact hpath
    · exact h.file id' rec' (by simpa [Server.setFile, hid] using hrec)
  session := h.session

/-- A session names the `.part` file of its own identifier, and its size is one the server accepts.
-/
theorem setSession (h : s.Wf cfg) {se : UploadSession} (hpath : se.path = .part id)
    (hpos : 0 ≤ se.size) (hmax : se.size ≤ cfg.maxUploadBytes) : (s.setSession id se).Wf cfg where
  file := h.file
  session id' se' hse := by
    by_cases hid : id' = id
    · subst hid
      obtain rfl : se = se' := by simpa using hse
      exact ⟨hpath, hpos, hmax⟩
    · exact h.session id' se' (by rwa [Server.sessions_setSession_ne _ hid] at hse)

/-- Locking a session does not change what it says. The path and the declared size are those from
before. -/
theorem setMu (h : s.Wf cfg) (mu : Option Tid) : (s.setMu id mu).Wf cfg where
  file := h.file
  session id' se' hse := by
    by_cases hid : id' = id
    · subst hid
      rw [Server.sessions_setMu] at hse
      obtain ⟨se, hse₀, rfl⟩ := Option.map_eq_some_iff.mp hse
      exact h.session id' se hse₀
    · exact h.session id' se' (by rwa [Server.sessions_setMu_ne _ hid] at hse)

/-- Removing a file changes neither the records nor the sessions. -/
theorem remove (h : s.Wf cfg) (fails : Bool) (p : Path) : (s.remove fails p).Wf cfg := by
  cases fails with
  | true => exact h
  | false => exact h.of_eq rfl rfl

/-- Storing a chunk changes the time of the session and nothing else in it. -/
theorem storeChunk (h : s.Wf cfg) {se : UploadSession} (hse : s.sessions id = some se)
    (data : Bytes) : (storeChunk s id se data).Wf cfg := by
  obtain ⟨hpath, hpos, hmax⟩ := h.session id se hse
  have happ : (s.append se.path data).Wf cfg := h.of_eq rfl rfl
  exact happ.setSession hpath hpos hmax

end Server.Wf

/-- Every section of `handleUpload` leaves the tables well formed. -/
theorem UploadSection.wf {r : UploadRequest} {pc pc' : UploadPC}
    (h : UploadSection cfg s r pc s' pc') (hw : s.Wf cfg) : s'.Wf cfg := by
  cases h with
  | refused | noID | createFails => exact hw
  | issued | created | refusedCopy | copied => exact hw.of_eq rfl rfl
  | discarded => exact hw.remove ..
  | registered => exact hw.setFile_some rfl

/-- Every section of `handleUploadCreate` does, because its body has been checked. -/
theorem CreateSection.wf {r : CreateRequest} {pc pc' : CreatePC}
    (h : CreateSection cfg s r pc s' pc') (hw : s.Wf cfg)
    (hmade : ∀ body fid, pc.working? = some (body, fid) → checkCreate cfg r = .ok body) :
    s'.Wf cfg := by
  cases h with
  | refused | noID | createFails | renameFails => exact hw
  | issued | renamed | unregistered | stored => exact hw.of_eq rfl rfl
  | registered => exact hw.setFile_some rfl
  | createdEmpty | created =>
      obtain ⟨hpos, hmax⟩ := size_of_checkCreate (hmade _ _ rfl)
      exact (hw.of_eq rfl rfl : Server.Wf cfg (s.setDisk _ _)).setSession rfl hpos hmax

/-- Every section of `handleUploadSession` leaves the tables well formed. -/
theorem SessionSection.wf {r : SessionRequest} {pc pc' : SessionPC}
    (h : SessionSection t s r pc s' pc') (hw : s.Wf cfg) : s'.Wf cfg := by
  cases h with
  | notHex | missing | loaded | wrongMethod | finished | notFound | statFails | offset | conflict
  | continued | openFails | opened | renameFails => exact hw
  | locked | lockedDelete | unlocked => exact hw.setMu ..
  | tooLong _ hse | interrupted _ hse | full _ hse | stored _ hse => exact hw.storeChunk hse _
  | truncated | renamed | unregistered | dropped => exact hw.of_eq rfl rfl
  | registered => exact hw.setFile_some rfl
  | removed => exact hw.remove ..

/-- Every section of the purge leaves the tables well formed. -/
theorem PurgeSection.wf {r : PurgeRequest} {cutoff : Time} {pc pc' : PurgePC}
    (h : PurgeSection t s r cutoff pc s' pc') (hw : s.Wf cfg) : s'.Wf cfg := by
  cases h with
  | began | filesDone | expired | fresh | done | loaded | missing | stale | recent => exact hw
  | recordDeleted => exact hw.setFile_none
  | recordRemoved | removed => exact hw.remove ..
  | locked | unlocked => exact hw.setMu ..
  | dropped => exact hw.of_eq rfl rfl

/-! ## Frames -/

variable {id : FileID}

/-- A chunk of another upload is not seen. It is written to the `.part` file of that upload only. -/
theorem Server.view_storeChunk_ne {id' : FileID} {se : UploadSession} (h : id' ≠ id)
    (hpath : se.path.id ≠ id) (data : Bytes) : (storeChunk s id' se data).view id = s.view id := by
  rw [storeChunk, Server.view_setSession_ne _ h, Server.append, Server.view_setDisk_ne _ hpath]

/-- `handleUpload` leaves every identifier but its own alone. -/
theorem UploadSection.frame {r : UploadRequest} {pc pc' : UploadPC}
    (h : UploadSection cfg s r pc s' pc') (hpc : pc.working? ≠ some id)
    (hpc' : pc'.working? ≠ some id) : s'.view id = s.view id := by
  have hne : ∀ {fid : FileID}, some fid ≠ some id → fid ≠ id := fun h h' => h (congrArg some h')
  cases h with
  | refused | noID | createFails => rfl
  | issued => exact Server.view_issue_ne _ (hne hpc')
  | created => exact Server.view_setDisk_ne s (p := .final _) (hne hpc) _
  | refusedCopy | copied => exact Server.view_setDisk_ne s (p := .final _) (hne hpc) _
  | discarded => exact Server.view_remove_ne s (p := .final _) (hne hpc) _
  | registered => exact Server.view_setFile_ne _ (hne hpc) _

/-- `handleUploadCreate` leaves every identifier but its own alone. -/
theorem CreateSection.frame {r : CreateRequest} {pc pc' : CreatePC}
    (h : CreateSection cfg s r pc s' pc') (hw : s.Wf cfg)
    (hpc : ∀ body, pc.working? ≠ some (body, id)) (hpc' : ∀ body, pc'.working? ≠ some (body, id)) :
    s'.view id = s.view id := by
  have hne : ∀ {body : CreateBody} {fid : FileID},
      (∀ body', some (body, fid) ≠ some (body', id)) → fid ≠ id := by
    rintro body fid h rfl
    exact h body rfl
  cases h with
  | refused | noID | createFails | renameFails => rfl
  | issued => exact Server.view_issue_ne _ (hne hpc')
  | createdEmpty | created =>
      rw [Server.view_setSession_ne _ (hne hpc), Server.view_setDisk_ne s (p := .part _) (hne hpc)]
  | renamed hse =>
      have hpath := (hw.session _ _ hse).1
      rw [Server.view_setDisk_ne _ (p := .final _) (hne hpc), hpath,
        Server.view_setDisk_ne s (p := .part _) (hne hpc)]
  | unregistered | stored => exact Server.view_setUpload_ne _ (hne hpc) _
  | registered => exact Server.view_setFile_ne _ (hne hpc) _

/-- `handleUploadSession` leaves every identifier but its own alone. -/
theorem SessionSection.frame {r : SessionRequest} {pc pc' : SessionPC}
    (h : SessionSection t s r pc s' pc') (hw : s.Wf cfg) (hid : r.id ≠ id) :
    s'.view id = s.view id := by
  have hpath : ∀ {se : UploadSession}, s.sessions r.id = some se → se.path.id ≠ id := by
    intro se hse
    rw [(hw.session _ _ hse).1]
    exact hid
  cases h with
  | notHex | missing | loaded | wrongMethod | finished | notFound | statFails | offset | conflict
  | continued | openFails | opened | renameFails => rfl
  | locked | lockedDelete | unlocked => exact Server.view_setMu_ne _ hid _
  | tooLong _ hse | interrupted _ hse | full _ hse | stored _ hse =>
      exact Server.view_storeChunk_ne hid (hpath hse) _
  | truncated hse => exact Server.view_setDisk_ne s (hpath hse) _
  | renamed hse =>
      rw [Server.view_setDisk_ne _ (p := .final _) hid, Server.view_setDisk_ne s (hpath hse)]
  | unregistered | dropped => exact Server.view_setUpload_ne _ hid _
  | registered => exact Server.view_setFile_ne _ hid _
  | removed hse => exact Server.view_remove_ne s (hpath hse) _

/-- The identifier the next section of the purge works on. -/
def PurgePC.current? : PurgePC → Option FileID
  | .deleteRecord visit _ _ => some visit.1
  | .removeRecord visit _ _ => some visit.1
  | .lock visit _ => some visit.1
  | .check visit _ => some visit.1
  | .deleteEntry visit _ => some visit.1
  | .removeFile visit _ => some visit.1
  | .unlock visit _ => some visit.1
  | _ => none

/-- A section of the purge leaves every identifier but the visited one alone. -/
theorem PurgeSection.frame {r : PurgeRequest} {cutoff : Time} {pc pc' : PurgePC}
    (h : PurgeSection t s r cutoff pc s' pc') (hw : s.Wf cfg) (hpc : pc.current? ≠ some id)
    (hpath : ∀ visit rec rest, pc = .removeRecord visit rec rest → rec.path = .final visit.1) :
    s'.view id = s.view id := by
  have hne : ∀ {fid : FileID}, some fid ≠ some id → fid ≠ id := fun h h' => h (congrArg some h')
  cases h with
  | began | filesDone | expired | fresh | done | loaded | missing | stale | recent => rfl
  | recordDeleted => exact Server.view_setFile_ne _ (hne hpc) _
  | recordRemoved =>
      rw [hpath _ _ _ rfl]
      exact Server.view_remove_ne s (p := .final _) (hne hpc) _
  | locked | unlocked => exact Server.view_setMu_ne _ (hne hpc) _
  | dropped => exact Server.view_setUpload_ne _ (hne hpc) _
  | removed hse =>
      rw [(hw.session _ _ hse).1]
      exact Server.view_remove_ne s (p := .part _) (hne hpc) _

end LanRoom.Upload
