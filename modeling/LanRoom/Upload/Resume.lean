import LanRoom.Upload.Retention

/-! # Every interrupted upload can be completed

A client that finds an upload unfinished asks for the offset and goes on from there. `ask` is one
request that nothing disturbs, `resume` the client's loop over such requests; whatever accepted,
rejected and interrupted chunks and failed renames came before, the loop obtains the finished file
after as many chunks as the missing bytes fill, and after one empty chunk when none is missing
(`resume_completes`). -/

namespace LanRoom.Upload

open ThreadPool (Tid Outline)
open Relation (ReflTransGen)

variable {cfg : Config} {P : Request → Prop} {id : FileID} {t : Tid} {l : Life} {s : Server}
  {se : UploadSession} {source b : Bytes} {c : ThreadPool.Config Server Thread}

/-! ## The client -/

/-- One request that is handled while no other runs: the configuration after it and its answer. -/
def ask (c : ThreadPool.Config Server Thread) (r : SessionRequest) :
    ThreadPool.Config Server Thread × Answer :=
  let handled := handleUploadSession c.threads.length c.shared r
  (⟨handled.1, c.threads ++ [.session r (.done handled.2)]⟩, handled.2)

/-- `GET /api/uploads/{id}`, with no fault. -/
def getRequest (id : FileID) : SessionRequest := { method := .get, id }

/-- `PUT /api/uploads/{id}?offset=…` with the bytes `source[offset, min(offset+chunkSize, size))`,
with no fault. -/
def putRequest (source : Bytes) (id : FileID) (offset : ℕ) : SessionRequest :=
  { method := .put, id, offset := Go.formatNat offset
    body := (source.drop offset).take uploadChunkSize.toNat }

/-- The client's loop, for at most `limit` requests: send the chunk at the offset of the last
answer, as long as the answers are 200 and carry no file. -/
def resume (source : Bytes) (id : FileID) :
    ℕ → ThreadPool.Config Server Thread → ℕ → List Answer
  | 0, _, _ => []
  | limit + 1, c, offset =>
      let asked := ask c (putRequest source id offset)
      match asked.2 with
      | .state 200 ⟨id', offset', size, chunkSize, none⟩ =>
          .state 200 ⟨id', offset', size, chunkSize, none⟩ ::
            resume source id limit asked.1 offset'.toNat
      | answer => [answer]

/-- The offset of an answer. -/
def Answer.offset : Answer → ℤ
  | .state _ body => body.offset
  | _ => 0

/-- The number of chunks for `missing` bytes: at least one, the last of them possibly short. -/
def chunksFor (missing : ℕ) : ℕ :=
  max 1 ((missing + (uploadChunkSize.toNat - 1)) / uploadChunkSize.toNat)

/-! ## Undisturbed requests are runs -/

/-- A thread that runs alone gives a run of the pool in which only this thread moves. -/
theorem Solo.run {x y : Server × Thread} {threads : List Thread} (h : Solo cfg threads.length x y) :
    (machine cfg).Run (fun _ act => act = .run threads.length ()) ⟨x.1, threads ++ [x.2]⟩
      ⟨y.1, threads ++ [y.2]⟩ := by
  induction h with
  | refl => exact .refl
  | @tail y z _ hstep ih =>
      refine ih.tail rfl ((machine cfg).exec_run_iff.mpr ?_)
      refine ⟨y.2, z.1, z.2, [], ?_, machine_step_iff.mpr ⟨hstep, rfl⟩, ?_⟩
      · exact List.getElem?_concat_length
      · rw [List.append_nil, List.set_append_right _ _ (Nat.le_refl _), Nat.sub_self]
        rfl

/-- **`ask` is a run of the server** in which the request arrives and only its thread moves. The
answers computed by the handlers alone are therefore answers of the concurrent server. -/
theorem ask_run (cfg : Config) (c : ThreadPool.Config Server Thread) (r : SessionRequest)
    (hfree : ∀ sess, c.shared.load r.id = some sess → sess.mu = none) :
    (machine cfg).Run
      (fun _ act => act = .spawn (Request.session r).thread ∨ act = .run c.threads.length ())
      c (ask c r).1 := by
  have hsolo := (solo_session cfg c.threads.length c.shared r hfree).run
  refine .trans (.tail .refl (.inl rfl) rfl) (.mono (fun _ _ h => .inr h) hsolo)

/-! ## The next chunk -/

/-- The next chunk is as long as the server still accepts. The page never sends more than a chunk
nor more than what is missing. -/
theorem length_chunk (id : FileID) (hle : (b.length : ℤ) ≤ se.size) (hsize : se.size = source.length) :
    ((putRequest source id b.length).body.length : ℤ) = chunkLimit se b.length := by
  have hk : (uploadChunkSize.toNat : ℤ) = uploadChunkSize := rfl
  rw [putRequest, chunkLimit, List.length_take, List.length_drop]
  omega

/-- **`putChunk` on the next chunk**: it is stored, and the upload is finished if it was the last.
None of its checks can fail: the offset is the number of stored bytes and the body is what the limit
admits. -/
theorem putChunk_next (id : FileID) (hpart : s.disk se.path = some b)
    (hle : (b.length : ℤ) ≤ se.size) (hsize : se.size = source.length) (hmax : se.size < 2 ^ 63) :
    putChunk s (putRequest source id b.length) se =
      let data := (putRequest source id b.length).body
      let stored := storeChunk s id se data
      if (b.length : ℤ) + data.length = se.size then
        match finishUpload stored {} id se with
        | none => (stored, cannotSave)
        | some (s, file) => (s, completed 200 id (b.length + data.length) se.size file)
      else (stored, progress 200 id (b.length + data.length) se.size) := by
  have hstat : s.fileSize {} se.path = some (b.length : ℤ) := by
    rw [Server.fileSize, hpart]
    rfl
  have hopen : s.canAppend {} se.path = true := by
    rw [Server.canAppend, hpart]
    rfl
  -- the offset is read back as it was written
  have hoff : Go.parseInt (putRequest source id b.length).offset = some (b.length : ℤ) := by
    refine Go.parseInt_formatNat ?_
    omega
  have hlen := length_chunk id hle hsize
  -- the chunk is below the limit, so the copy takes all of it
  have hcopy : ioCopy (putRequest source id b.length).body (chunkLimit se b.length + 1) none =
      ((putRequest source id b.length).body, none) := by
    rw [ioCopy, List.take_of_length_le]
    omega
  have hlim : ¬chunkLimit se b.length < (putRequest source id b.length).body.length := by
    rw [hlen]
    exact lt_irrefl _
  -- none of the checks before the copy fails
  have hcopyChunk : putChunk s (putRequest source id b.length) se =
      copyChunk s (putRequest source id b.length) se b.length := by
    have hstat' : s.fileSize (putRequest source id b.length).faults se.path = some (b.length : ℤ) := hstat
    rw [putChunk, hstat']
    show (if _ then _ else if s.canAppend {} se.path = false then _ else _) = _
    rw [if_neg (not_not.mpr hoff), hopen, if_neg (by decide)]
  have hclean : ((none : Option CopyErr).isSome || (putRequest source id b.length).faults.close) =
      false := rfl
  rw [hcopyChunk, copyChunk]
  simp only [show (putRequest source id b.length).faults.copyErr = none from rfl, hcopy,
    if_neg hlim, hclean, Bool.false_eq_true, if_false]
  rfl

/-- Once the next chunk is stored, the file holds it behind the bytes before. -/
theorem part_storeChunk (hpath : se.path = .part id) (hpart : s.disk se.path = some b)
    (data : Bytes) : (storeChunk s id se data).disk (.part id) = some (b ++ data) := by
  rw [hpath] at hpart
  show Function.update s.disk se.path ((s.disk se.path).map (· ++ data)) (.part id) = _
  rw [hpath, Function.update_self, hpart, Option.map_some]

/-! ## The session between two requests -/

/-- The upload `id` **waits** with the bytes `b` stored: its session can be loaded, nobody holds its
mutex, and its `.part` file holds `b`. -/
structure Waiting (s : Server) (id : FileID) (se : UploadSession) (b : Bytes) : Prop where
  upload : s.uploads id = true
  session : s.sessions id = some se
  free : se.mu = none
  path : se.path = .part id
  part : s.disk (.part id) = some b
  le : (b.length : ℤ) ≤ se.size

namespace Waiting

/-- A session that waits is found. It is the first thing that a request for it does. -/
theorem load (h : Waiting s id se b) : s.load id = some se :=
  s.load_eq_some.mpr ⟨h.upload, h.session⟩

/-- What a handler works on once it has taken the mutex. Taking the mutex does not touch the `.part`
file. -/
theorem lock (h : Waiting s id se b) (t : Tid) :
    (s.setSession id { se with mu := some t }).disk { se with mu := some t }.path = some b := by
  show s.disk se.path = some b
  rw [h.path]
  exact h.part

/-- A section under the mutex that leaves the upload in progress with the bytes `b'`. -/
theorem unlock {s' : Server} {b' : Bytes} (se' : UploadSession) (hup : s'.uploads id = true)
    (hse : s'.sessions id = some se') (hpath : se'.path = .part id)
    (hpart : s'.disk (.part id) = some b') (hle : (b'.length : ℤ) ≤ se'.size) :
    Waiting (s'.setMu id none) id { se' with mu := none } b' where
  upload := hup
  session := by rw [Server.sessions_setMu, hse, Option.map_some]
  free := rfl
  path := hpath
  part := hpart
  le := hle

/-- **`GET` reports the number of stored bytes** and changes nothing. It is the first request of a
client that resumes. -/
theorem get (h : Waiting s id se b) (hhex : isHexFileID id = true) (t : Tid) :
    (handleUploadSession t s (getRequest id)).2 = progress 200 id b.length se.size ∧
      Waiting (handleUploadSession t s (getRequest id)).1 id { se with mu := none } b := by
  have hstat : (s.setSession id { se with mu := some t }).fileSize {}
      ({ se with mu := some t } : UploadSession).path = some (b.length : ℤ) := by
    rw [Server.fileSize, h.lock]
    rfl
  have hanswer : handleUploadSession t s (getRequest id) =
      ((s.setSession id { se with mu := some t }).setMu id none,
        progress 200 id b.length se.size) := by
    simp only [handleUploadSession, getRequest, hhex, h.load, Server.locked, getOffset, hstat,
      Bool.true_eq_false, if_false]
  rw [hanswer]
  exact ⟨rfl, unlock { se with mu := some t } h.upload (Server.sessions_setSession ..) h.path
    h.part h.le⟩

/-- A `PUT` on a waiting upload is `putChunk` under the mutex. -/
theorem put (h : Waiting s id se b) (hhex : isHexFileID id = true) (t : Tid) (offset : ℕ) :
    handleUploadSession t s (putRequest source id offset) =
      s.locked t id se fun s se => putChunk s (putRequest source id offset) se := by
  have hload : s.load (putRequest source id offset).id = some se := h.load
  have hhex' : ¬isHexFileID (putRequest source id offset).id = false := by
    rw [Bool.not_eq_false]
    exact hhex
  rw [handleUploadSession, if_neg hhex', hload]
  rfl

/-- **A chunk that is not the last** is answered with the next offset, and the upload waits with its
bytes stored. The next round of the client starts from there. -/
theorem put_more (h : Waiting s id se b) (hhex : isHexFileID id = true) (hmax : se.size < 2 ^ 63)
    (hsize : se.size = source.length) (hmore : b.length + uploadChunkSize.toNat < source.length)
    (t : Tid) :
    ∃ se' data, (handleUploadSession t s (putRequest source id b.length)).2 =
        progress 200 id (b.length + uploadChunkSize.toNat : ℕ) source.length ∧
      data.length = uploadChunkSize.toNat ∧ se'.size = se.size ∧
      Waiting (handleUploadSession t s (putRequest source id b.length)).1 id se' (b ++ data) := by
  set se₁ : UploadSession := { se with mu := some t } with hse₁
  set data := (putRequest source id b.length).body with hdata
  have hlen : data.length = uploadChunkSize.toNat := by
    rw [hdata, putRequest, List.length_take, List.length_drop]
    omega
  have hnext := putChunk_next id (h.lock t) h.le hsize hmax
  -- bytes are still missing, so the upload is not finished
  have hnot : ¬((b.length : ℤ) + data.length = se₁.size) := by
    have : se₁.size = source.length := hsize
    omega
  simp only [← hdata] at hnext
  rw [if_neg hnot] at hnext
  have hpart := part_storeChunk h.path (h.lock t) data
  -- the mutex is given back, and the stored bytes are the old ones and the chunk
  refine ⟨{ se with updatedAt := s.now, mu := none }, data, ?_, hlen, rfl, ?_⟩
  · rw [h.put hhex, Server.locked, hnext]
    show progress 200 id (b.length + data.length : ℤ) se.size = _
    rw [hlen, hsize, Nat.cast_add]
  · rw [h.put hhex, Server.locked, hnext]
    refine unlock { se₁ with updatedAt := s.now } h.upload (Server.sessions_setSession ..) h.path
      hpart ?_
    show ((b ++ data).length : ℤ) ≤ se.size
    rw [List.length_append]
    omega

/-- **The last chunk** is answered with the finished file. It reaches the declared size, so the same
request finishes the upload. -/
theorem put_last (h : Waiting s id se b) (hhex : isHexFileID id = true) (hmax : se.size < 2 ^ 63)
    (hsize : se.size = source.length) (hlast : source.length ≤ b.length + uploadChunkSize.toNat)
    (t : Tid) :
    (handleUploadSession t s (putRequest source id b.length)).2 =
      completed 200 id source.length source.length ⟨id, se.name, source.length, se.mime⟩ := by
  set se₁ : UploadSession := { se with mu := some t } with hse₁
  set data := (putRequest source id b.length).body with hdata
  have hle := h.le
  -- the chunk is all that is missing
  have hlen : (b.length : ℤ) + data.length = se.size := by
    rw [hdata, putRequest, List.length_take, List.length_drop]
    omega
  have hnext := putChunk_next id (h.lock t) h.le hsize hmax
  simp only [← hdata] at hnext
  have hpath : se₁.path = .part id := h.path
  have hpart := part_storeChunk hpath (h.lock t) data
  set stored := storeChunk (s.setSession id se₁) id se₁ data
  -- the `.part` file is there, so the rename goes through
  have hren : stored.rename {} se₁.path (.final id) =
      some ((stored.setDisk (.part id) none).setDisk (.final id) (some (b ++ data))) := by
    rw [hpath, Server.rename, hpart]
    rfl
  have hfull : (b.length : ℤ) + data.length = se₁.size := hlen
  rw [if_pos hfull, finishUpload, hren] at hnext
  rw [h.put hhex, Server.locked, hnext]
  show completed 200 id (b.length + data.length : ℤ) se.size ⟨id, se.name, se.size, se.mime⟩ = _
  rw [hlen, hsize]

end Waiting

/-! ## Which uploads wait -/

/-- `isHexFileID` accepts what `randomID` returns. A client that uses the identifier it was given is
never refused for its form. -/
theorem isHexFileID_randomID (rand : Vector UInt8 16) : isHexFileID (randomID rand) = true := by
  have hlen : (randomID rand).length = 32 := by
    rw [randomID, Go.length_hexEncode, Vector.length_toList]
  have hall : (randomID rand).all isHexByte = true := by
    rw [List.all_eq_true]
    intro c hc
    obtain ⟨k, hk, rfl⟩ := Go.mem_hexEncode hc
    have hdigits : ∀ k < 16, isHexByte (Go.hexDigit (UInt8.ofNat k)) = true := by decide
    exact hdigits k hk
  rw [isHexFileID, hlen, hall]
  rfl

/-- An upload that has been published and has not been given up has an identifier drawn by
`randomID`. -/
theorem Life.Moves.randomID_eq (h : Life.Moves cfg P id .unused l) (hp : l.published = true)
    (hne : l ≠ .gone) : ∃ rand, randomID rand = id := by
  induction h with
  | refl => cases hp
  | tail _ hmove ih =>
      cases hmove with
      | publish t hP hbody hrand hid => exact ⟨_, hid⟩
      | finishEmpty t hP hbody hrand hid => exact ⟨_, hid⟩
      | finishForm t hP hrand hid => exact ⟨_, hid⟩
      | append | complete | drop | keep | register | expire | reclaim | stray => exact ih rfl nofun
      | issue | leak | litter => cases hp
      | abandon | cancel => exact absurd rfl hne

/-- **A session in `uploads` whose mutex is free is waiting.** Its stored bytes are in the `.part`
file, and its size is one that the client can state. -/
theorem Reachable.waiting (h : Reachable cfg P c) (hup : c.shared.uploads id = true)
    (hse : c.shared.sessions id = some se) (hmu : se.mu = none) :
    ∃ b, Waiting c.shared id se b ∧ isHexFileID id = true ∧ se.size < 2 ^ 63 := by
  obtain ⟨l, hv, hmoves⟩ := h.valid id
  obtain ⟨hp, hc⟩ := hv.inv.holds.of_upload hup
  obtain ⟨rand, rfl⟩ := hmoves.randomID_eq hp (by rintro rfl; cases hc)
  obtain ⟨hpath, -, hmax⟩ := hv.inv.wf.session _ _ hse
  obtain ⟨b, -, hpart⟩ := live_of_upload hv.inv.holds hup hse hmu
  have hle := hv.inv.holds.part_le hv.inv.wf hse hmu hpart
  exact ⟨b, ⟨hup, hse, hmu, hpath, hpart, hle⟩, isHexFileID_randomID rand,
    lt_of_le_of_lt hmax cfg.int64⟩

/-! ## The loop -/

/-- What fits into one chunk takes one request. It is the base of the induction on the number of
chunks. -/
theorem chunksFor_of_le {missing : ℕ} (h : missing ≤ uploadChunkSize.toNat) :
    chunksFor missing = 1 := by
  have hk : uploadChunkSize.toNat = 8388608 := rfl
  rw [hk] at h
  rw [chunksFor, hk]
  omega

/-- What does not takes one request more than what is left after a chunk. -/
theorem chunksFor_of_lt {missing : ℕ} (h : uploadChunkSize.toNat < missing) :
    chunksFor missing = chunksFor (missing - uploadChunkSize.toNat) + 1 := by
  have hk : uploadChunkSize.toNat = 8388608 := rfl
  rw [hk] at h
  rw [chunksFor, chunksFor, hk]
  omega

/-- The **answers lead to the finished file** of `size` bytes: all are 200, there are as many as
the bytes from `offset` on fill chunks, the offsets grow while bytes are missing, and the last
answer, but none before, carries the file. -/
structure Completes (id : FileID) (size offset : ℕ) (answers : List Answer) : Prop where
  ok : ∀ a ∈ answers, a.status = 200
  count : answers.length = chunksFor (size - offset)
  growing : offset < size → List.Pairwise (· < ·) ((offset : ℤ) :: answers.map Answer.offset)
  early : ∀ a ∈ answers.dropLast, a.file? = none
  file : ∃ f, answers.getLast?.bind Answer.file? = some f ∧ f.fileID = id ∧ f.size = size

/-- A single answer with the file completes an upload whose rest fits into one chunk. -/
theorem Completes.single {size offset : ℕ} {file : FileResponse} (hid : file.fileID = id)
    (hsize : file.size = size) (hlast : size ≤ offset + uploadChunkSize.toNat) :
    Completes id size offset [completed 200 id size size file] where
  ok a ha := by
    obtain rfl := List.mem_singleton.mp ha
    rfl
  count := (chunksFor_of_le (Nat.sub_le_iff_le_add'.mpr hlast)).symm
  growing h := by
    have hlt : (offset : ℤ) < size := by exact_mod_cast h
    show List.Pairwise (· < ·) [(offset : ℤ), (size : ℤ)]
    exact List.pairwise_pair.mpr hlt
  early a ha := by cases ha
  file := ⟨file, rfl, hid, hsize⟩

/-- One more chunk in front. The answer to it states an offset that is larger by the length of a
chunk. -/
theorem Completes.cons {size offset : ℕ} {answers : List Answer}
    (hmore : offset + uploadChunkSize.toNat < size)
    (h : Completes id size (offset + uploadChunkSize.toNat) answers) :
    Completes id size offset
      (progress 200 id (offset + uploadChunkSize.toNat : ℕ) size :: answers) where
  ok a ha := by
    rcases List.mem_cons.mp ha with rfl | ha
    · rfl
    · exact h.ok a ha
  count := by
    rw [List.length_cons, h.count, chunksFor_of_lt (by omega : _ < size - offset), Nat.sub_sub]
  growing hlt := by
    have hgrow := h.growing hmore
    -- a chunk is not empty
    have hstep : (offset : ℤ) < (offset + uploadChunkSize.toNat : ℕ) := by
      have hk : 0 < uploadChunkSize.toNat := by decide
      omega
    refine List.pairwise_cons.mpr ⟨fun a ha => ?_, hgrow⟩
    rcases List.mem_cons.mp ha with rfl | ha
    · exact hstep
    · exact hstep.trans ((List.pairwise_cons.mp hgrow).1 a ha)
  early a ha := by
    cases answers with
    | nil => cases ha
    | cons a' rest =>
        rw [List.dropLast_cons_cons, List.mem_cons] at ha
        rcases ha with rfl | ha
        · rfl
        · exact h.early a ha
  file := by
    obtain ⟨f, hf, hrest⟩ := h.file
    cases answers with
    | nil => cases hf
    | cons a' rest =>
        refine ⟨f, ?_, hrest⟩
        rw [List.getLast?_cons_cons]
        exact hf

/-- **The loop completes a waiting upload**, given enough requests. The induction is on the number
of chunks that are missing. -/
theorem Waiting.resume (h : Waiting c.shared id se b) (hhex : isHexFileID id = true)
    (hmax : se.size < 2 ^ 63) (hsize : se.size = source.length) {limit : ℕ}
    (hlimit : chunksFor (source.length - b.length) ≤ limit) :
    Completes id source.length b.length (resume source id limit c b.length) := by
  -- induction on the number of requests allowed; the chunks still missing fit into it
  induction limit generalizing c se b with
  | zero =>
      have hone : 1 ≤ chunksFor (source.length - b.length) := Nat.le_max_left ..
      omega
  | succ limit ih =>
      rw [LanRoom.Upload.resume]
      -- the last chunk finishes the upload
      by_cases hlast : source.length ≤ b.length + uploadChunkSize.toNat
      · have hanswer : (ask c (putRequest source id b.length)).2 = _ :=
          h.put_last hhex hmax hsize hlast c.threads.length
        simp only [hanswer]
        exact .single rfl rfl hlast
      · -- otherwise the answer gives the next offset, and the rest follows from there
        have hmore : b.length + uploadChunkSize.toNat < source.length := not_le.mp hlast
        obtain ⟨se', data, hanswer, hlen, hsize', hwait⟩ :=
          h.put_more hhex hmax hsize hmore c.threads.length
        have hanswer' : (ask c (putRequest source id b.length)).2 = _ := hanswer
        have hoffset : (b ++ data).length = b.length + uploadChunkSize.toNat := by
          rw [List.length_append, hlen]
        have hcount := chunksFor_of_lt (by omega : _ < source.length - b.length)
        have hwait' : Waiting (ask c (putRequest source id b.length)).1.shared id se' (b ++ data) :=
          hwait
        have hnext := ih hwait' (hsize'.symm ▸ hmax) (hsize'.trans hsize)
          (by rw [hoffset, ← Nat.sub_sub]; omega)
        rw [hoffset] at hnext
        simp only [hanswer', progress]
        exact .cons hmore hnext

/-- **Every interrupted upload can be completed**: in every reachable state, a client that asks for
the offset of a session in `uploads` gets it, and sending the missing chunks of a source of the
declared size, with no other request in between, leads to the file in as many requests as the
missing bytes fill chunks. When no byte is missing, one empty chunk does it. -/
theorem resume_completes (hreach : Reachable cfg P c) (hup : c.shared.uploads id = true)
    (hse : c.shared.sessions id = some se) (hmu : se.mu = none)
    (hsize : se.size = source.length) :
    ∃ offset : ℕ, offset ≤ source.length ∧
      (ask c (getRequest id)).2 = progress 200 id offset source.length ∧
      (∀ limit, chunksFor (source.length - offset) ≤ limit →
        Completes id source.length offset
          (resume source id limit (ask c (getRequest id)).1 offset)) ∧
      (offset = source.length → (putRequest source id offset).body = [] ∧
        chunksFor (source.length - offset) = 1) := by
  obtain ⟨b, hwait, hhex, hmax⟩ := hreach.waiting hup hse hmu
  obtain ⟨hanswer, hwait'⟩ := hwait.get hhex c.threads.length
  have hle := hwait.le
  refine ⟨b.length, by omega, ?_, fun limit hlimit => ?_, fun hall => ⟨?_, ?_⟩⟩
  · rw [← hsize]
    exact hanswer
  · have hwait₁ : Waiting (ask c (getRequest id)).1.shared id { se with mu := none } b := hwait'
    exact hwait₁.resume hhex hmax hsize hlimit
  · rw [putRequest, hall, List.drop_length, List.take_nil]
  · rw [hall, Nat.sub_self]
    exact chunksFor_of_le (Nat.zero_le _)

/-- A chunk of two bytes whose `os.Rename` fails. -/
def Sample.failingPut : Request :=
  .session
    { method := .put, id := fileID, offset := [0x30], body := [1, 2]
      faults := { rename := true } }

/-- Two bytes that are all stored, but not finished. -/
def Sample.failingRename : Schedule :=
  arrive (create 2) ++ sections 0 3 ++ arrive failingPut ++ sections 1 7

/-- An upload whose first attempt to finish has failed is resumed and finished. -/
theorem resume_completes_failingRename : ∃ c,
    Reachable Sample.config (fun _ => True) c ∧ ∃ offset : ℕ, offset ≤ 2 ∧
      Completes Sample.fileID 2 offset
        (resume [1, 2] Sample.fileID 1 (ask c (getRequest Sample.fileID)).1 offset) := by
  -- all bytes are stored, and the rename of the last PUT has failed
  have hstored : ((machine Sample.config).execAll (boot 0) Sample.failingRename).any fun c =>
      c.shared.uploads Sample.fileID ∧
        (c.shared.sessions Sample.fileID).any fun se => se.mu = none ∧ se.size = 2 := by
    decide +kernel
  obtain ⟨c, hexec, hstored⟩ := Sample.exists_of_any hstored
  obtain ⟨hup, hse⟩ := of_decide_eq_true hstored
  obtain ⟨se, hse, hmu⟩ := (Option.any_eq_true _ _).mp hse
  obtain ⟨hmu, hsize⟩ := of_decide_eq_true hmu
  have hsource : se.size = ([1, 2] : Bytes).length := hsize
  have hreach : Reachable Sample.config (fun _ => True) c := by
    refine .of_execAll (fun th hth => ?_) hexec
    have hth' : th = (Sample.create 2).thread ∨ th = Sample.failingPut.thread := by
      simpa [Sample.failingRename, arrive, sections] using hth
    rcases hth' with rfl | rfl <;> exact ⟨_, rfl, trivial⟩
  obtain ⟨offset, hle, -, hcompletes, -⟩ :=
    resume_completes hreach hup hse hmu hsource
  refine ⟨c, hreach, offset, hle, hcompletes 1 ?_⟩
  rw [chunksFor_of_le]
  exact (Nat.sub_le ..).trans (by decide)

end LanRoom.Upload
