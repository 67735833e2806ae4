import LanRoom.Upload.Sections

/-! # A rejected `PUT` changes nothing

`putChunk` writes the body into the `.part` file before it judges it. A chunk that turns out too
long is cut off again (`disk_truncate_storeChunk`), one whose copy was interrupted stays as far as
it came, and the other refusals come before the first byte: an answer 404, 409 or 413 leaves the
directory and both indexes as they were, an answer 400 has only appended a first piece of the body
(`putChunk_rejected`). -/

namespace LanRoom.Upload

open ThreadPool (Tid)
open Function (update)

variable {s : Server} {r : SessionRequest} {sess : UploadSession} {old : Bytes}

/-- The directory and the indexes `uploads` and `files` are the same. -/
structure Server.Same (s s' : Server) : Prop where
  disk : s'.disk = s.disk
  uploads : s'.uploads = s.uploads
  files : s'.files = s.files

/-- Only a first piece of `body`, of at most `limit` bytes, was appended to the file at `path`. -/
structure Server.Extended (s s' : Server) (path : Path) (body : Bytes) (old kept : Bytes)
    (limit : ℤ) : Prop where
  before : s.disk path = some old
  after : s'.disk = update s.disk path (some (old ++ kept))
  isPrefix : kept <+: body
  length_le : (kept.length : ℤ) ≤ limit
  uploads : s'.uploads = s.uploads
  files : s'.files = s.files

/-- A server that has not changed. Most refusals come before anything is written. -/
theorem Server.Same.refl (s : Server) : s.Same s := ⟨rfl, rfl, rfl⟩

/-- The size of a file that could be examined is the number of its bytes. -/
theorem disk_of_fileSize {f : Faults} {p : Path} {current : ℤ}
    (h : s.fileSize f p = some current) : ∃ old, s.disk p = some old ∧ current = old.length := by
  unfold Server.fileSize at h
  split at h
  · cases h
  · obtain ⟨old, hold, heq⟩ := Option.map_eq_some_iff.mp h
    exact ⟨old, hold, heq.symm⟩

/-- What the copy of a chunk leaves on the disk. The bytes that were there stay in front. -/
theorem disk_storeChunk (hold : s.disk sess.path = some old) (id : FileID) (data : Bytes) :
    (storeChunk s id sess data).disk = update s.disk sess.path (some (old ++ data)) := by
  show update s.disk sess.path ((s.disk sess.path).map (· ++ data)) = _
  rw [hold, Option.map_some]

/-- Truncating the file to its size before the copy takes back exactly what was written. -/
theorem disk_truncate_storeChunk (hold : s.disk sess.path = some old) (id : FileID) (data : Bytes) :
    ((storeChunk s id sess data).truncate sess.path old.length).disk = s.disk := by
  have hcut : (old ++ data).take old.length ++
      List.replicate (old.length - (old ++ data).length) 0 = old := by
    have hnone : old.length - (old ++ data).length = 0 := by
      rw [List.length_append]
      omega
    rw [hnone, List.replicate_zero, List.append_nil, List.take_left]
  show update (storeChunk s id sess data).disk sess.path
    (((storeChunk s id sess data).disk sess.path).map _) = s.disk
  rw [disk_storeChunk hold, Function.update_self, Option.map_some, Int.toNat_natCast, hcut,
    Function.update_idem, ← hold, Function.update_eq_self]

/-- An upload in progress or finished is answered with status 200, a failing rename with 500. -/
theorem status_copyChunk (hlong : ¬chunkLimit sess old.length <
      (ioCopy r.body (chunkLimit sess old.length + 1) r.faults.copyErr).1.length)
    (hclean : ((ioCopy r.body (chunkLimit sess old.length + 1) r.faults.copyErr).2.isSome ||
      r.faults.close) ≠ true) :
    (copyChunk s r sess old.length).2.status = 200 ∨
      (copyChunk s r sess old.length).2.status = 500 := by
  simp only [copyChunk, if_neg hlong, if_neg hclean]
  split
  · split
    · exact Or.inr rfl
    · exact Or.inl rfl
  · exact Or.inl rfl

/-- From the copy on: a chunk that is too long is taken back, an interrupted one is kept as far as
it fits. The length is judged first. -/
theorem copyChunk_rejected (hold : s.disk sess.path = some old) :
    ((copyChunk s r sess old.length).2.status ∈ [404, 409, 413] →
      s.Same (copyChunk s r sess old.length).1) ∧
    ((copyChunk s r sess old.length).2.status = 400 → ∃ kept,
      s.Extended (copyChunk s r sess old.length).1 sess.path r.body old kept
        (chunkLimit sess old.length)) := by
  -- too long: the file is cut back to what it was, and the answer is 413
  by_cases hlong : chunkLimit sess old.length <
      (ioCopy r.body (chunkLimit sess old.length + 1) r.faults.copyErr).1.length
  · have hcopy : copyChunk s r sess old.length =
        ((storeChunk s r.id sess
          (ioCopy r.body (chunkLimit sess old.length + 1) r.faults.copyErr).1).truncate sess.path
            old.length, chunkExceeds) := by
      simp only [copyChunk, if_pos hlong]
    rw [hcopy]
    refine ⟨fun _ => ⟨disk_truncate_storeChunk hold _ _, rfl, rfl⟩, fun hstatus => ?_⟩
    have hcode : (413 : ℕ) = 400 := hstatus
    omega
  · -- interrupted: what was copied stays behind the old bytes, and the answer is 400
    by_cases hbroken : ((ioCopy r.body (chunkLimit sess old.length + 1) r.faults.copyErr).2.isSome ||
        r.faults.close) = true
    · have hcopy : copyChunk s r sess old.length =
          (storeChunk s r.id sess
            (ioCopy r.body (chunkLimit sess old.length + 1) r.faults.copyErr).1,
            chunkInterrupted) := by
        simp only [copyChunk, if_neg hlong, if_pos hbroken]
      rw [hcopy]
      refine ⟨fun hstatus => ?_, fun _ =>
        ⟨(ioCopy r.body (chunkLimit sess old.length + 1) r.faults.copyErr).1, ?_⟩⟩
      · have hcode : (400 : ℕ) ∈ [404, 409, 413] := hstatus
        exact absurd hcode (by decide)
      · exact ⟨hold, disk_storeChunk hold _ _, ioCopy_isPrefix .., not_lt.mp hlong, rfl, rfl⟩
    · -- stored or finished: none of the rejecting answers
      have hstatus := status_copyChunk (s := s) hlong hbroken
      constructor
      · intro hrejected
        rcases hstatus with h | h <;> rw [h] at hrejected <;> exact absurd hrejected (by decide)
      · intro hrejected
        rcases hstatus with h | h <;> rw [h] at hrejected <;> exact absurd hrejected (by decide)

/-- **A rejected `PUT` changes nothing**: for every state, session and request, whatever fails.
After an answer 404, 409 or 413 the directory, `uploads` and `files` are as before. After an answer
400 the bytes of the `.part` file are the old ones followed by a first piece of the body of at most
the limit, and the upload is still in `uploads` if it was there. -/
theorem putChunk_rejected (s : Server) (r : SessionRequest) (sess : UploadSession) :
    ((putChunk s r sess).2.status ∈ [404, 409, 413] → s.Same (putChunk s r sess).1) ∧
    ((putChunk s r sess).2.status = 400 →
      (∃ old kept, s.Extended (putChunk s r sess).1 sess.path r.body old kept
        (chunkLimit sess old.length)) ∧
      (s.uploads r.id = true → (putChunk s r sess).1.uploads r.id = true)) := by
  cases hsize : s.fileSize r.faults sess.path with
  -- the file cannot be read: 404, and nothing has happened
  | none =>
      have hput : putChunk s r sess = (s, uploadNotFound) := by
        unfold putChunk
        rw [hsize]
      rw [hput]
      refine ⟨fun _ => .refl s, fun hstatus => ?_⟩
      have hcode : (404 : ℕ) = 400 := hstatus
      omega
  | some current =>
      obtain ⟨old, hold, rfl⟩ := disk_of_fileSize hsize
      have hput : putChunk s r sess =
          if Go.parseInt r.offset ≠ some (old.length : ℤ) then
            (s, progress 409 r.id old.length sess.size)
          else if s.canAppend r.faults sess.path = false then (s, cannotSave)
          else copyChunk s r sess old.length := by
        conv_lhs => unfold putChunk
        rw [hsize]
      rw [hput]
      split
      · -- the offset differs: 409, and nothing has happened
        refine ⟨fun _ => .refl s, fun hstatus => ?_⟩
        have hcode : (409 : ℕ) = 400 := hstatus
        omega
      · split
        · refine ⟨fun _ => .refl s, fun hstatus => ?_⟩
          have hcode : (500 : ℕ) = 400 := hstatus
          omega
        · obtain ⟨hsame, hextended⟩ := copyChunk_rejected (r := r) hold
          refine ⟨hsame, fun hstatus => ?_⟩
          obtain ⟨kept, hkept⟩ := hextended hstatus
          refine ⟨⟨old, kept, hkept⟩, fun hup => ?_⟩
          rw [hkept.uploads]
          exact hup

namespace Sample

/-- An upload. -/
def half : FileID := goString "00000000000000000000000000000000"

/-- Two of its four bytes are stored. -/
def halfDone : Server :=
  { Server.init 0 with
    disk := fun p => if p = .part half then some [1, 2] else none
    uploads := fun i => decide (i = half) }

/-- Its session. -/
def halfSession : UploadSession :=
  { mu := some 0, name := goString "a", mime := goString "b", size := 4, path := .part half
    updatedAt := 0 }

/-- A `PUT` of three bytes where two are missing. -/
def tooLong : SessionRequest := { method := .put, id := half, offset := goString "2", body := [3, 4, 5] }

/-- A `PUT` of the two missing bytes that breaks off after the first. -/
def brokenOff : SessionRequest :=
  { method := .put, id := half, offset := goString "2", body := [3, 4]
    faults := { copyErr := some ⟨1, false⟩ } }

end Sample

/-- A chunk that is too long, and one that breaks off. The first leaves the server as it was; the
second leaves the upload in progress. -/
theorem putChunk_rejected_sample :
    Sample.halfDone.Same (putChunk Sample.halfDone Sample.tooLong Sample.halfSession).1 ∧
    (putChunk Sample.halfDone Sample.brokenOff Sample.halfSession).1.uploads Sample.half = true :=
  ⟨(putChunk_rejected Sample.halfDone Sample.tooLong Sample.halfSession).1 (by decide +kernel),
    ((putChunk_rejected Sample.halfDone Sample.brokenOff Sample.halfSession).2
      (by decide +kernel)).2 (by decide +kernel)⟩

end LanRoom.Upload
