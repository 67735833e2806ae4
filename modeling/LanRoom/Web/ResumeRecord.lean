import LanRoom.Concurrency.EventLoop
import LanRoom.Upload.WebClient
import LanRoom.Web.Message

/-! # The record of an upload that can be resumed

`openUploadSession` and `uploadResumable` of `web/static/app.js` keep the ID of an upload in the local
storage of the browser until the upload has ended, so that it can be resumed when the same file is
chosen again. Here they meet any server: every answer and every error of the network may come at any
request. What a `PUT` carries is in `Upload.WebClient`. Local storage works; where it does not, nothing
is removed from it.

An error that may pass leaves the record alone while the file is uploaded. When an upload is resumed,
any answer to the first request removes it that is not what the code hopes for, also an error of the
server or a request for the PIN (`kept_iff`). -/

namespace LanRoom.Web

open EventLoop (run Along)
open LanRoom.Upload (UploadError httpError networkError uploadMaxRetries)

/-! ## Data -/

/-- The file in an answer. -/
structure StoredFile where
  fileId : Text
  name : Text
  size : ℤ
  mime : Text
  deriving DecidableEq

/-- What an answer has of the fields that are read; other JSON values, and texts that are no JSON,
have none of them. -/
structure ReplyBody where
  uploadId : Option Text := none
  offset : Option ℤ := none
  file : Option StoredFile := none
  deriving DecidableEq

/-- `{ status, data }`; reading a field of `null` throws. -/
structure Reply where
  status : ℕ
  data : Option ReplyBody := none
  deriving DecidableEq

/-- `res.data?.uploadId` is truthy. -/
def Reply.hasUploadId (r : Reply) : Bool :=
  (r.data.bind ReplyBody.uploadId).any fun id => decide (id ≠ [])

/-- What is thrown. -/
inductive Failure
  /-- A `DOMException` named `AbortError`. -/
  | abort
  | upload (err : UploadError)
  /-- A field of `null` has been read. -/
  | typeError
  deriving DecidableEq

/-- What is awaited. -/
inductive Awaiting
  /-- The `GET` for the saved upload. -/
  | openGet (savedId : Text)
  | post
  | put
  | sleep
  /-- The `GET` after a failure. -/
  | retryGet
  | returned (file : StoredFile)
  | thrown (e : Failure)
  deriving DecidableEq

/-- The variables of the two functions, and what is stored. -/
structure Resumable where
  /-- `localStorage[storeKey]`. -/
  record : Option Text
  /-- `signal.aborted`. -/
  aborted : Bool := false
  uploadId : Option Text := none
  session : ReplyBody := {}
  offset : Option ℤ := none
  failures : ℕ := 0
  pc : Awaiting
  deriving DecidableEq

/-- What can happen. -/
inductive UploadEvent
  | answer (r : Reply)
  | networkError
  /-- The user cancels. -/
  | abort
  /-- The sleep is over. -/
  | wake

namespace Resumable

/-! ## The code -/

/-- `openUploadSession`, up to its first request. -/
def start (record : Option Text) : Resumable :=
  match record with
  | some savedId =>
      if isFileID savedId then { record, pc := .openGet savedId } else { record, pc := .post }
  | none => { record, pc := .post }

/-- The condition of the loop, and what is behind the loop. -/
def head (s : Resumable) : Resumable :=
  match s.session.file with
  | some file => { s with record := none, pc := .returned file }
  | none => { s with pc := .put }

/-- `openUploadSession` returns. -/
def opened (s : Resumable) (body : ReplyBody) : Resumable :=
  { s with uploadId := body.uploadId, session := body, offset := some (body.offset.getD 0) }.head

/-- `err.name === "AbortError"`, or `!err.retryable && err.status && err.status !== 401`. -/
def discards : Failure → Bool
  | .abort => true
  | .upload err => !err.retryable && err.status ≠ 0 && err.status ≠ 401
  | .typeError => false

/-- The outer `catch`. -/
def caught (s : Resumable) (e : Failure) : Resumable :=
  { s with record := if discards e then none else s.record, pc := .thrown e }

/-- The inner `catch`, for an error that is not an `AbortError`. -/
def failed (s : Resumable) (err : UploadError) : Resumable :=
  if !err.retryable then s.caught (.upload err)
  else if uploadMaxRetries < s.failures + 1 then
    { s with failures := s.failures + 1 }.caught (.upload {})
  else { s with failures := s.failures + 1, pc := .sleep }

/-- `session = data; offset = session.offset`, and the new number of failures. -/
def progressed (s : Resumable) (data : Option ReplyBody) (failures : ℕ) : Resumable :=
  match data with
  | some body => { s with session := body, offset := body.offset, failures }.head
  | none => s.caught .typeError

/-- The answer to the request that is awaited. -/
def answered (s : Resumable) (r : Reply) : Option Resumable :=
  match s.pc with
  | .openGet _ =>
      if r.status = 200 ∧ r.hasUploadId then some (s.opened (r.data.getD {}))
      else some { s with record := none, pc := .post }
  | .post =>
      if r.status ≠ 201 then some { s with pc := .thrown (.upload (httpError r.status)) }
      else match r.data with
        | none => some { s with pc := .thrown .typeError }
        | some body =>
            -- the text of an ID that is missing is `undefined`
            let id := body.uploadId.getD "undefined".toList
            some ({ s with record := if body.file = none then some id else s.record }.opened body)
  | .put =>
      if r.status = 200 then some (s.progressed r.data 0)
      -- the server is elsewhere than the page thought, and the server is right
      else if r.status = 409 then some (s.progressed r.data s.failures)
      else some (s.failed (httpError r.status))
  | .retryGet =>
      if r.status = 200 then some (s.progressed r.data s.failures)
      else if r.status ≠ 0 then some (s.caught (.upload (httpError r.status)))
      else some s.head
  | _ => none

/-- The network reports an error. -/
def lost (s : Resumable) : Option Resumable :=
  match s.pc with
  | .openGet _ | .post => some { s with pc := .thrown (.upload networkError) }
  | .put => some (s.failed networkError)
  | .retryGet => some s.head
  | _ => none

/-- The user cancels. -/
def cancelled (s : Resumable) : Option Resumable :=
  let s := { s with aborted := true }
  match s.pc with
  | .openGet _ | .post => some { s with pc := .thrown .abort }
  | .put | .retryGet => some (s.caught .abort)
  | .sleep => some s
  | _ => none

/-- The sleep is over. -/
def woken (s : Resumable) : Option Resumable :=
  match s.pc with
  | .sleep => if s.aborted then some (s.caught .abort) else some { s with pc := .retryGet }
  | _ => none

/-- One event. -/
def step (s : Resumable) : UploadEvent → Option Resumable
  | .answer r => s.answered r
  | .networkError => s.lost
  | .abort => s.cancelled
  | .wake => s.woken

/-! ## When the record may be removed -/

/-- The server says that the upload cannot go on. -/
def Unusable (status : ℕ) : Prop := 400 < status ∧ status < 500 ∧ status ≠ 401

/-- The upload is complete, the user has cancelled it, or the server has said that it cannot go on. -/
def Justified (s : Resumable) (e : UploadEvent) (s' : Resumable) : Prop :=
  (∃ file, s'.pc = .returned file) ∨ e = .abort ∨ s.aborted = true ∨
    ∃ r, e = .answer r ∧ Unusable r.status

/-- The event does not remove the record without a reason. -/
def Kept (s : Resumable) (e : UploadEvent) : Prop :=
  ∀ s' ∈ s.step e, s.record ≠ none → s'.record = none → Justified s e s'

/-- The first `GET` is answered with the upload or with the word that it cannot go on, and the
requests of the loop are not answered with a status below 400, other than 200. -/
def Expected (s : Resumable) : UploadEvent → Prop
  | .answer r =>
      match s.pc with
      | .openGet _ => r.status = 200 ∧ r.hasUploadId = true ∨ Unusable r.status
      | .put | .retryGet => r.status = 0 ∨ r.status = 200 ∨ 400 ≤ r.status
      | _ => True
  | _ => True

/-! ## What the parts do to the record -/

variable {s s' : Resumable} {e : UploadEvent} {r : Reply}

/-- The record of a file whose upload is complete is removed. -/
theorem returned_of_head (hrecord : s.record ≠ none) (h : s.head.record = none) :
    ∃ file, s.head.pc = .returned file := by
  unfold head at h ⊢
  cases hfile : s.session.file with
  | none =>
    rw [hfile] at h
    exact absurd h hrecord
  | some file => exact ⟨file, rfl⟩

/-- What the `catch` does to the record. It is removed when the user has cancelled, and for an error
that no further attempt can mend. -/
theorem record_caught (s : Resumable) (e : Failure) :
    (s.caught e).record = if discards e then none else s.record := rfl

/-- The errors of the server after which the record is removed. -/
theorem discards_httpError (status : ℕ) : discards (.upload (httpError status)) = true ↔
    0 < status ∧ status < 500 ∧ status ≠ 400 ∧ status ≠ 401 := by
  unfold httpError
  by_cases h : status = 401
  · simp [h, discards]
  · simp [h, discards]
    omega

/-- After a failed `PUT` the record is removed at once or kept. -/
theorem record_failed (s : Resumable) (err : UploadError) :
    (s.failed err).record = if discards (.upload err) then none else s.record := by
  unfold failed
  by_cases hretry : err.retryable = true
  · have hkeep : discards (.upload err) = false := by simp [discards, hretry]
    simp only [hretry, hkeep]
    by_cases hmax : uploadMaxRetries < s.failures + 1
    · rw [if_neg (by simp), if_pos hmax]
      rfl
    · rw [if_neg (by simp), if_neg hmax]
      rfl
  · rw [if_pos (by simpa using hretry), record_caught]

/-- Data from the server removes the record only when the upload is complete. -/
theorem returned_of_progressed {data : Option ReplyBody} {n : ℕ} (hrecord : s.record ≠ none)
    (h : (s.progressed data n).record = none) : ∃ file, (s.progressed data n).pc = .returned file := by
  cases data with
  | none => exact absurd h hrecord
  | some body => exact returned_of_head hrecord h

/-! ## The record while the functions run -/

/-- There is a record whenever a session is looked for or in use, and a cancelled upload ends after
its sleep at the latest. -/
def Working (s : Resumable) : Prop :=
  match s.pc with
  | .openGet _ | .put | .retryGet => s.record ≠ none ∧ s.aborted = false
  | .sleep => s.record ≠ none
  | .post => s.aborted = false
  | .returned _ | .thrown _ => True

/-- The assertion of an upload that begins. Nothing has been asked yet. -/
theorem working_start (record : Option Text) : Working (start record) := by
  cases record with
  | none => exact rfl
  | some savedId =>
    unfold start Working
    by_cases h : isFileID savedId = true
    · simp [h]
    · simp [h]

/-- At the head of the loop the record is there. The next request is sent or the upload is
complete. -/
theorem working_head (hrecord : s.record ≠ none) (haborted : s.aborted = false) :
    Working s.head := by
  unfold head
  cases s.session.file with
  | none => exact ⟨hrecord, haborted⟩
  | some file => trivial

/-- After a failure the record is there still, or the upload has ended. -/
theorem working_failed (err : UploadError) (hrecord : s.record ≠ none) :
    Working (s.failed err) := by
  unfold failed
  split
  · trivial
  · split
    · trivial
    · exact hrecord

/-- After an answer the record is there still. A progress does not touch it. -/
theorem working_progressed {n : ℕ} (data : Option ReplyBody) (hrecord : s.record ≠ none)
    (haborted : s.aborted = false) : Working (s.progressed data n) := by
  cases data with
  | none => trivial
  | some body => exact working_head hrecord haborted

/-- A session that has been opened has a record, or its upload is complete. -/
theorem working_opened {body : ReplyBody} (hrecord : body.file = none → s.record ≠ none)
    (haborted : s.aborted = false) : Working (s.opened body) := by
  unfold opened head
  cases hfile : body.file with
  | none => exact ⟨hrecord hfile, haborted⟩
  | some file => trivial

/-- An answer. There is one case for each request that it can answer. -/
theorem working_answered (hs : Working s) (h : s.answered r = some s') : Working s' := by
  unfold answered at h
  unfold Working at hs
  cases hpc : s.pc with
  -- the first GET, for a saved upload
  | openGet savedId =>
    simp only [hpc] at h hs
    split at h
    · cases h
      exact working_opened (fun _ => hs.1) hs.2
    · cases h
      exact hs.2
  -- the POST of a new one
  | post =>
    simp only [hpc] at h hs
    split at h
    · cases h
      trivial
    · cases hdata : r.data with
      | none =>
        rw [hdata] at h
        cases h
        trivial
      | some body =>
        rw [hdata] at h
        cases h
        apply working_opened
        · intro hfile
          simp [hfile]
        · exact hs
  -- a chunk: progress on 200 and 409, otherwise the loop has failed
  | put =>
    simp only [hpc] at h hs
    split at h
    · cases h
      exact working_progressed _ hs.1 hs.2
    · split at h
      · cases h
        exact working_progressed _ hs.1 hs.2
      · cases h
        exact working_failed _ hs.1
  -- the GET after a failure
  | retryGet =>
    simp only [hpc] at h hs
    split at h
    · cases h
      exact working_progressed _ hs.1 hs.2
    · split at h
      · cases h
        trivial
      · cases h
        exact working_head hs.1 hs.2
  | sleep => simp [hpc] at h
  | returned file => simp [hpc] at h
  | thrown e => simp [hpc] at h

/-- An error of the network. It counts as a failure of the request. -/
theorem working_lost (hs : Working s) (h : s.lost = some s') : Working s' := by
  unfold lost at h
  unfold Working at hs
  cases hpc : s.pc with
  | openGet savedId =>
    simp only [hpc] at h
    cases h
    trivial
  | post =>
    simp only [hpc] at h
    cases h
    trivial
  | put =>
    simp only [hpc] at h hs
    cases h
    exact working_failed _ hs.1
  | retryGet =>
    simp only [hpc] at h hs
    cases h
    exact working_head hs.1 hs.2
  | sleep => simp [hpc] at h
  | returned file => simp [hpc] at h
  | thrown e => simp [hpc] at h

/-- The user cancels. From then on the record is of no use. -/
theorem working_cancelled (hs : Working s) (h : s.cancelled = some s') : Working s' := by
  unfold cancelled at h
  unfold Working at hs
  cases hpc : s.pc with
  | openGet savedId | post | put | retryGet =>
    simp only [hpc] at h
    cases h
    trivial
  | sleep =>
    simp only [hpc] at h hs
    cases h
    simp only [Working]
    exact hs
  | returned file => simp [hpc] at h
  | thrown e => simp [hpc] at h

/-- The sleep is over. The state of the upload is asked for. -/
theorem working_woken (hs : Working s) (h : s.woken = some s') : Working s' := by
  unfold woken at h
  unfold Working at hs
  cases hpc : s.pc with
  | sleep =>
    simp only [hpc] at h hs
    by_cases haborted : s.aborted = true
    · rw [if_pos haborted] at h
      cases h
      trivial
    · rw [if_neg haborted] at h
      cases h
      exact ⟨hs, by simpa using haborted⟩
  | openGet savedId | post | put | retryGet => simp [hpc] at h
  | returned file => simp [hpc] at h
  | thrown e => simp [hpc] at h

/-- **Every event** keeps this. It is the step lemma of the run. -/
theorem working_step (s : Resumable) (e : UploadEvent) (s' : Resumable) (hs : Working s)
    (hstep : s.step e = some s') : Working s' := by
  cases e with
  | answer r => exact working_answered hs hstep
  | networkError => exact working_lost hs hstep
  | abort => exact working_cancelled hs hstep
  | wake => exact working_woken hs hstep

/-! ## What one event does to the record -/

/-- There is only one state after an event. The condition on all states after it is one on this
state. -/
theorem kept_iff_of_step (h : s.step e = some s') :
    Kept s e ↔ (s.record ≠ none → s'.record = none → Justified s e s') := by
  constructor
  · intro hkept
    exact hkept s' h
  · intro hs' s₁ h₁
    obtain rfl := Option.some.inj (h.symm.trans h₁)
    exact hs'

/-- Nothing but a complete upload removes the record. It is the one case in which the removal needs
no further reason. -/
theorem kept_of_returned (h : s.step e = some s')
    (hret : s.record ≠ none → s'.record = none → ∃ file, s'.pc = .returned file) : Kept s e := by
  rw [kept_iff_of_step h]
  intro hrecord hnone
  exact Or.inl (hret hrecord hnone)

/-- A failed upload is not complete. It sleeps or throws. -/
theorem pc_failed (err : UploadError) (file : StoredFile) : (s.failed err).pc ≠ .returned file := by
  unfold failed
  split
  · simp [caught]
  · split
    · simp [caught]
    · simp

/-- An answer that removes the record of an upload that is not complete. -/
theorem justified_answer_iff (haborted : s.aborted = false)
    (hpc : ∀ file, s'.pc ≠ .returned file) : Justified s (.answer r) s' ↔ Unusable r.status := by
  unfold Justified
  simp [haborted, hpc]

/-- An answer of the loop that is an error: the record goes with the status, and only the statuses
below 400 give no reason for that. -/
theorem kept_httpError_iff (hrecord : s.record ≠ none) (haborted : s.aborted = false)
    (h : s.step (.answer r) = some s') (hpc : ∀ file, s'.pc ≠ .returned file)
    (hs' : s'.record = if discards (.upload (httpError r.status)) then none else s.record)
    (hok : r.status ≠ 200) :
    Kept s (.answer r) ↔ r.status = 0 ∨ r.status = 200 ∨ 400 ≤ r.status := by
  rw [kept_iff_of_step h, justified_answer_iff haborted hpc]
  have hgone : s'.record = none ↔
      0 < r.status ∧ r.status < 500 ∧ r.status ≠ 400 ∧ r.status ≠ 401 := by
    rw [← discards_httpError, hs']
    by_cases hdiscards : discards (.upload (httpError r.status)) = true
    · simp [hdiscards]
    · simp [hdiscards, hrecord]
  simp only [hgone, Unusable]
  constructor
  · intro hkept
    have := hkept hrecord
    omega
  · intro hexpected _ _
    omega

/-- The answer to the first `GET`: everything but the upload makes the page start again. -/
theorem kept_openGet_iff {savedId : Text} (hpc : s.pc = .openGet savedId) (hrecord : s.record ≠ none)
    (haborted : s.aborted = false) :
    Kept s (.answer r) ↔ r.status = 200 ∧ r.hasUploadId = true ∨ Unusable r.status := by
  by_cases hok : r.status = 200 ∧ r.hasUploadId = true
  · have hstep : s.step (.answer r) = some (s.opened (r.data.getD {})) := by
      simp only [step, answered, hpc, if_pos hok]
    have hkept : Kept s (.answer r) := kept_of_returned hstep fun _ => returned_of_head hrecord
    exact iff_of_true hkept (Or.inl hok)
  · have hstep : s.step (.answer r) = some { s with record := none, pc := .post } := by
      simp only [step, answered, hpc, if_neg hok]
    rw [kept_iff_of_step hstep, justified_answer_iff haborted (by simp)]
    simp [hrecord, hok]

/-- The answer to the `POST` removes only the record of an upload that is complete at once. -/
theorem kept_post (hpc : s.pc = .post) : Kept s (.answer r) := by
  intro s' h hrecord hnone
  apply Or.inl
  unfold step answered at h
  simp only [hpc] at h
  split at h
  · cases h
    exact absurd hnone hrecord
  · cases hdata : r.data with
    | none =>
      rw [hdata] at h
      cases h
      exact absurd hnone hrecord
    | some body =>
      rw [hdata] at h
      cases h
      refine returned_of_head ?_ hnone
      by_cases hfile : body.file = none
      · simp [hfile]
      · simp [hfile, hrecord]

/-- The answer to a `PUT`. The other statuses are those on which the record is lost. -/
theorem kept_put_iff (hpc : s.pc = .put) (hrecord : s.record ≠ none) (haborted : s.aborted = false) :
    Kept s (.answer r) ↔ r.status = 0 ∨ r.status = 200 ∨ 400 ≤ r.status := by
  by_cases hok : r.status = 200
  · have hstep : s.step (.answer r) = some (s.progressed r.data 0) := by
      simp only [step, answered, hpc, if_pos hok]
    have hkept := kept_of_returned hstep fun _ => returned_of_progressed hrecord
    exact iff_of_true hkept (Or.inr (Or.inl hok))
  · by_cases hconflict : r.status = 409
    · have hstep : s.step (.answer r) = some (s.progressed r.data s.failures) := by
        simp only [step, answered, hpc, if_neg hok, if_pos hconflict]
      have hkept := kept_of_returned hstep fun _ => returned_of_progressed hrecord
      exact iff_of_true hkept (by omega)
    · have hstep : s.step (.answer r) = some (s.failed (httpError r.status)) := by
        simp only [step, answered, hpc, if_neg hok, if_neg hconflict]
      exact kept_httpError_iff hrecord haborted hstep (pc_failed _) (record_failed _ _) hok

/-- The answer to a `GET` after a failure. The condition is the one for a `PUT`. -/
theorem kept_retryGet_iff (hpc : s.pc = .retryGet) (hrecord : s.record ≠ none)
    (haborted : s.aborted = false) :
    Kept s (.answer r) ↔ r.status = 0 ∨ r.status = 200 ∨ 400 ≤ r.status := by
  by_cases hok : r.status = 200
  · have hstep : s.step (.answer r) = some (s.progressed r.data s.failures) := by
      simp only [step, answered, hpc, if_pos hok]
    have hkept := kept_of_returned hstep fun _ => returned_of_progressed hrecord
    exact iff_of_true hkept (Or.inr (Or.inl hok))
  · by_cases hzero : r.status = 0
    · have hstep : s.step (.answer r) = some s.head := by
        simp only [step, answered, hpc, if_neg hok, if_neg (not_not.mpr hzero)]
      exact iff_of_true (kept_of_returned hstep returned_of_head) (Or.inl hzero)
    · have hstep : s.step (.answer r) = some (s.caught (.upload (httpError r.status))) := by
        simp only [step, answered, hpc, if_neg hok, if_pos hzero]
      exact kept_httpError_iff hrecord haborted hstep (by simp [caught]) (record_caught _ _) hok

/-- An answer. It is put together from the three requests that an answer can belong to. -/
theorem kept_answer_iff (hs : Working s) : Kept s (.answer r) ↔ Expected s (.answer r) := by
  unfold Working at hs
  unfold Expected
  cases hpc : s.pc with
  | openGet savedId =>
    simp only [hpc] at hs ⊢
    exact kept_openGet_iff hpc hs.1 hs.2
  | post => exact iff_of_true (kept_post hpc) trivial
  | put =>
    simp only [hpc] at hs ⊢
    exact kept_put_iff hpc hs.1 hs.2
  | retryGet =>
    simp only [hpc] at hs ⊢
    exact kept_retryGet_iff hpc hs.1 hs.2
  | sleep | returned file | thrown e =>
    have hstep : s.step (.answer r) = none := by simp only [step, answered, hpc]
    simp [Kept, hstep]

/-- **An error of the network** leaves the record alone, at every request. A request that has failed
without an answer is tried again or gives up, and the record stays for the next visit. -/
theorem record_lost (h : s.lost = some s') (hrecord : s.record ≠ none) (hnone : s'.record = none) :
    ∃ file, s'.pc = .returned file := by
  unfold lost at h
  cases hpc : s.pc with
  | openGet savedId | post =>
    simp only [hpc] at h
    cases h
    exact absurd hnone hrecord
  | put =>
    simp only [hpc] at h
    cases h
    rw [record_failed] at hnone
    exact absurd hnone hrecord
  | retryGet =>
    simp only [hpc] at h
    cases h
    exact returned_of_head hrecord hnone
  | sleep | returned file | thrown e => simp [hpc] at h

/-- When the sleep is over, the record is removed only for an upload that has been cancelled. -/
theorem record_woken (h : s.woken = some s') (hrecord : s.record ≠ none) (hnone : s'.record = none) :
    s.aborted = true := by
  unfold woken at h
  cases hpc : s.pc with
  | sleep =>
    simp only [hpc] at h
    by_contra haborted
    rw [if_neg haborted] at h
    cases h
    exact hrecord hnone
  | openGet savedId | post | put | retryGet | returned file | thrown e => simp [hpc] at h

/-- **One event**: the record is removed without a reason exactly by the answers that are not
expected. The cases are the kinds of events; only the answers to requests can be unexpected. -/
theorem keeps_iff (s : Resumable) (e : UploadEvent) (hs : Working s) : Kept s e ↔ Expected s e := by
  cases e with
  | answer r => exact kept_answer_iff hs
  | networkError =>
    have hkept : Kept s .networkError := by
      intro s' h hrecord hnone
      exact Or.inl (record_lost h hrecord hnone)
    exact iff_of_true hkept trivial
  | abort =>
    have hkept : Kept s .abort := by
      intro s' _ _ _
      exact Or.inr (Or.inl rfl)
    exact iff_of_true hkept trivial
  | wake =>
    have hkept : Kept s .wake := by
      intro s' h hrecord hnone
      exact Or.inr (Or.inr (Or.inl (record_woken h hrecord hnone)))
    exact iff_of_true hkept trivial

/-! ## Whole uploads -/

/-- **The record survives** every event that is no reason to remove it, in exactly the runs in which
every answer is expected. Reasons are the completed upload, the user who cancels, and a status that
says the upload cannot go on. -/
theorem kept_iff (record : Option Text) (es : List UploadEvent) :
    Along step Kept (start record) es ↔ Along step Expected (start record) es :=
  EventLoop.along_congr working_step keeps_iff (working_start record) es

/-- The room asks for its PIN when an upload is resumed: the page forgets the upload. -/
theorem forgotten_at_pin :
    ¬ ∀ (record : Option Text) (es : List UploadEvent), Along step Kept (start record) es := by
  intro h
  let savedId : Text := List.replicate 32 'a'
  have hkept := (h (some savedId) [.answer { status := 401 }]).1
  have hopen : (start (some savedId)).pc = .openGet savedId := by decide +kernel
  rw [keeps_iff _ _ (working_start _), Expected, hopen] at hkept
  simp [Unusable] at hkept

end Resumable

end LanRoom.Web
