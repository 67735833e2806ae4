import LanRoom.Upload.Resume

/-! # Requests that come too late

`handleUploadSession` looks the session up before it takes `sess.mu`. By the time it holds the
mutex another request may have finished the upload, and the session it works on is a thing of the
past. Two promises break on that window, and this file says exactly when they are kept.

* A `DELETE` answered with 204 has removed the upload for good, if it took the mutex before the
  upload was finished (`cancel_effective`); else the finished file stays
  (`cancel_ineffective_lateDelete`).
* A `GET` or `PUT` on an upload that is live or finished is never answered with 404, if it took the
  mutex while the session was still in `uploads` and did not look into `files` between the
  `uploads.Delete` and the `files.Store` of `finishUpload` (`never_notFound`); else it is
  (`notFound_lateGet`). -/

namespace LanRoom.Upload

open ThreadPool (Tid Outline)
open ThreadPool.Machine (allowed)
open Relation (ReflTransGen)

variable {cfg : Config} {P : Request → Prop} {id : FileID} {t u : Tid} {l l' : Life} {v : View}
  {s s' : Server} {c d : ThreadPool.Config Server Thread}

/-! ## Assertions about the requests on one upload -/

/-- An assertion `A` of the requests on `id` is kept by an action if arriving requests start with
it, the request that moves reaches it again, and the others keep it. -/
theorem session_threads {A : Life → Server → SessionRequest → SessionPC → Prop}
    {act : ThreadPool.Act Thread Unit ℕ} (hok : Arrivals P c act)
    (hexec : (machine cfg).exec c act = some d) (hm : (outline cfg P id).Matched l l' c d act)
    (hall : ∀ (t : Tid) (r : SessionRequest) (pc : SessionPC),
      c.threads[t]? = some (.session r pc) → r.id = id → A l c.shared r pc)
    (hstart : ∀ r, P (.session r) → A l c.shared r .start)
    (henv : ∀ e r pc, A l c.shared r pc → A l ((machine cfg).env e c.shared) r pc)
    (hself : ∀ t r pc pc', act = .run t () → c.threads[t]? = some (.session r pc) →
      d.threads[t]? = some (.session r pc') → r.id = id →
        SessionSection t c.shared r pc d.shared pc' → A l c.shared r pc → A l' d.shared r pc')
    (hother : ∀ t u r pc, t ≠ u →
      Guar cfg P id t l (c.shared.view id) l' (d.shared.view id) →
        c.threads[u]? = some (.session r pc) → r.id = id → A l c.shared r pc →
          A l' d.shared r pc) :
    ∀ (t : Tid) (r : SessionRequest) (pc : SessionPC), d.threads[t]? = some (.session r pc) →
      r.id = id → A l' d.shared r pc := by
  have hthreads := hm.threads
    (E := fun _ l s th => ∀ (r : SessionRequest) (pc : SessionPC), th = Thread.session r pc →
      r.id = id → A l s r pc) hexec ?_ ?_ ?_ ?_ ?_
  · intro t r pc hth hid
    exact hthreads t _ hth r pc rfl hid
  · -- the assertion holds of the threads that were there, of one that arrives, after an event, of
    -- the thread that runs, and of the others
    rintro t th hth r pc rfl hid
    exact hall t r pc hth hid
  · rintro t th rfl r pc rfl -
    obtain ⟨req, hreq, hP⟩ := hok _ rfl
    cases req <;> cases hreq
    exact hstart r hP
  · rintro e t th - h r pc rfl hid
    exact henv e r pc (h r pc rfl hid)
  · intro t k th th' fs hact hth hstep hth'
    obtain ⟨hthread, rfl⟩ := machine_step_iff.mp hstep
    refine ⟨?_, by simp⟩
    rintro r pc' rfl hid
    -- only a thread of `handleUploadSession` steps to one
    cases th with
    | session r₀ pc =>
        obtain rfl : r = r₀ := Request.session.inj (Thread.step_request hthread)
        obtain ⟨x, hsection, heq⟩ := Option.map_eq_some_iff.mp hthread
        obtain ⟨hs, hpc⟩ := Prod.mk.inj heq
        obtain ⟨-, rfl⟩ := Thread.session.inj hpc
        have hsec : SessionSection t c.shared r pc x.1 x.2 := .of_step hsection
        rw [hs] at hsec
        exact hself t r pc x.2 hact hth hth' hid hsec (hall t r pc hth hid)
    | upload | create | purge => cases Thread.step_request hthread
  · rintro t k u th hact htu hth h r pc rfl hid
    exact hother t u r pc htu (hm.guar t k hact) hth hid (h r pc rfl hid)

/-! ## Cancelled uploads -/

/-- Nothing is left of the upload. -/
def Life.void : Life → Bool
  | reclaimed | gone => true
  | _ => false

/-- Nothing comes back of an upload of which nothing is left. -/
theorem Life.Moves.void (h : Life.Moves cfg P id l l') (hl : l.void = true) : l'.void = true := by
  induction h with
  | refl => exact hl
  | tail _ hmove ih => cases hmove <;> first | rfl | cases ih

/-- A closed upload without a finished file is void. Registered and expiring lives have their final
file. -/
theorem Life.Holds.void_of_closed (h : l.Holds cfg P v) (hc : l.closed = true)
    (hfin : v.final = none) : l.void = true := by
  cases l with
  | registered rec b => cases hfin.symm.trans h.2.2.2.1
  | expiring reaper =>
      obtain ⟨b, hb⟩ := h.2.2.2.2.1
      cases hfin.symm.trans hb
  | reclaimed | gone => rfl
  | unused | building | live | dropped | sealed | orphan => cases hc

/-- Of a void upload there is neither a record nor a file. Late requests for it therefore find
nothing to write to or to remove. -/
theorem Life.Holds.of_void (h : l.Holds cfg P v) (hl : l.void = true) :
    v.file = none ∧ v.final = none ∧ v.part = none := by
  cases l with
  | reclaimed | gone => exact ⟨h.2.2.2.2, h.2.2.2.1, h.2.2.1⟩
  | unused | building | live | dropped | sealed | registered | expiring | orphan => cases hl

/-- The section the thread is about to perform is not that of a `DELETE` on `id` taking the mutex
of an upload whose finished file exists. -/
def Thread.cancelsInTime (id : FileID) (s : Server) : Thread → Bool
  | .session r .lock => decide (r.id = id ∧ r.method = .delete → s.disk (.final id) = none)
  | _ => true

/-- How far a request on the upload has cancelled it. -/
def CancelAt (l : Life) : SessionPC → Prop
  | .deleteEntry => (∃ size b, l = .live size b) ∨ l.void = true
  | .removeFile => (∃ t size b, l = .dropped t size b) ∨ l.void = true
  | .unlock a | .done a => a = .noContent → l.void = true
  | _ => True

/-- The sections of other threads do not bring a cancelled upload back. -/
theorem CancelAt.stable {r : SessionRequest} {pc : SessionPC} {v' : View}
    (hg : Guar cfg P id t l v l' v') (htu : t ≠ u) (hat : SessionAt u l v r pc)
    (h : CancelAt l pc) : CancelAt l' pc := by
  have hmoves := hg.moves
  cases pc with
  | deleteEntry =>
      rcases h with ⟨size, b, hl⟩ | hvoid
      · -- the holder of the mutex is the only one that could end a live upload
        obtain ⟨-, se, hh⟩ := hat
        have heq := hg.life_eq htu hh.session hh.mu (by rw [hl]; rfl)
        exact .inl ⟨size, b, heq.trans hl⟩
      · exact .inr (hmoves.void hvoid)
  | removeFile =>
      rcases h with ⟨w, size, b, hl⟩ | hvoid
      · obtain ⟨-, se, hse, hmu, -⟩ := hat
        have heq := hg.life_eq htu hse hmu (by rw [hl]; rfl)
        exact .inl ⟨w, size, b, heq.trans hl⟩
      · exact .inr (hmoves.void hvoid)
  | unlock a => exact fun ha => hmoves.void (h ha)
  | done a => exact fun ha => hmoves.void (h ha)
  | start | loadFile | lock | stat | openFile | copy | truncate | rename | unregister
  | register => trivial

/-- **A section of a `DELETE` that is in time** cancels the upload. It has the mutex of a session
that is live, drops it from `uploads` and removes its file, and nothing is left then. -/
theorem SessionSection.cancelAt {r : SessionRequest} {pc pc' : SessionPC}
    (h : SessionSection t s r pc s' pc') (hinv : Inv cfg P r.id l s) (hinv' : Inv cfg P r.id l' s')
    (hmoves : Life.Moves cfg P r.id l l') (hat : SessionAt t l (s.view r.id) r pc)
    (hat' : SessionAt t l' (s'.view r.id) r pc')
    (hintime : (Thread.session r pc).cancelsInTime r.id s = true)
    (hremove : r.method = .delete → r.faults.remove = false) (hpc : CancelAt l pc) :
    CancelAt l' pc' := by
  have hholds' := hinv'.holds
  cases h with
  | missing | loaded | locked | continued | opened | tooLong | full | renamed
  | unregistered => trivial
  | notHex | wrongMethod | finished | notFound | statFails | offset | conflict | openFails
  | interrupted | stored | truncated | renameFails | registered => exact nofun
  | lockedDelete hse hmu hm =>
      obtain ⟨-, se, hh⟩ := hat'
      rcases hh.settled hholds' with ⟨b, hl⟩ | hc
      · exact .inl ⟨_, b, hl⟩
      · have hfin : s.disk (.final r.id) = none := of_decide_eq_true hintime ⟨rfl, hm⟩
        exact .inr (hholds'.void_of_closed hc hfin)
  | dropped =>
      rcases hpc with ⟨size, b, rfl⟩ | hvoid
      · obtain ⟨-, se, hh⟩ := hat
        obtain ⟨-, se', -, -, ⟨size', b', hl⟩ | ⟨hc, -⟩⟩ := hat'
        · exact .inl ⟨t, size', b', hl⟩
        · -- a closed upload has no `.part` file, but this one still has its bytes
          have hpart : s.disk (.part r.id) = some b := hh.quiet size b rfl
          have hnone : s.disk (.part r.id) = none := (hholds'.of_closed hc).1
          rw [hnone] at hpart
          cases hpart
      · exact .inr (hmoves.void hvoid)
  | removed hse =>
      rcases hpc with ⟨w, size, b, rfl⟩ | hvoid
      · obtain ⟨⟨se', hh⟩, -⟩ := hat'
        rw [hremove hat.1, (hinv.wf.session _ _ hse).1] at hholds' hh
        have hview := s.view_setDisk_part r.id none
        intro _
        rcases hh.settled hholds' with ⟨b', rfl⟩ | hc
        · have hpart := hh.quiet _ _ rfl
          rw [show s.remove false (.part r.id) = s.setDisk (.part r.id) none from rfl, hview] at hpart
          cases hpart
        · refine hholds'.void_of_closed hc ?_
          rw [show s.remove false (.part r.id) = s.setDisk (.part r.id) none from rfl, hview]
          exact hinv.holds.2.1
      · exact fun _ => hmoves.void hvoid
  | unlocked => exact fun ha => hmoves.void (hpc ha)

/-- `CancelAt` holds of every request on `id`. -/
def Cancels (id : FileID) (l : Life) (c : ThreadPool.Config Server Thread) : Prop :=
  ∀ (t : Tid) (r : SessionRequest) (pc : SessionPC),
    c.threads[t]? = some (.session r pc) → r.id = id → CancelAt l pc

/-- **The run theorem for cancelled uploads**: along a run whose `DELETE`s are in time, every
request on `id` keeps `CancelAt`. -/
theorem cancelAt_run {now : Time}
    (hremove : ∀ r, P (.session r) → r.id = id → r.method = .delete → r.faults.remove = false)
    (hrun : (machine cfg).Run
      (fun c act => Arrivals P c act ∧ allowed (Thread.cancelsInTime id) c act = true) (boot now) c) :
    ∃ l, (outline cfg P id).Valid l c ∧ Life.Moves cfg P id .unused l ∧ Cancels id l c := by
  have hboot : Cancels id .unused (boot now) := by simp [Cancels, boot]
  refine Outline.run_invariant (I := Cancels id) (fun _ _ h => h.1) (valid_boot cfg P id now) hboot ?_ hrun
  intro l c l' d act hv hall hok hexec hm
  refine session_threads (A := fun l _ _ pc => CancelAt l pc) hok.1 hexec hm hall ?_ ?_ ?_ ?_
  · exact fun _ _ => trivial
  · exact fun _ _ _ h => h
  · rintro t r pc pc' rfl hth hth' rfl hsection hpc
    have hloc := hv.loc t _ hth
    have hloc' := hm.valid.loc t _ hth'
    have hintime := ThreadPool.Machine.allowed_run hth hok.2
    exact hsection.cancelAt hv.inv hm.valid.inv hm.moves (hloc.2.here rfl) (hloc'.2.here rfl)
      hintime (hremove r hloc.1 rfl) hpc
  · rintro t u r pc htu hg hth rfl hpc
    exact hpc.stable hg htu ((hv.loc u _ hth).2.here rfl)

/-- **A cancelled upload is gone for good**: if every `DELETE` on `id` takes the mutex before the
upload is finished and its `os.Remove` does not fail, then once one of them has been answered with
204 there is no record and no file of `id`, now and in every later state. -/
theorem cancel_effective {now : Time}
    (hremove : ∀ r, P (.session r) → r.id = id → r.method = .delete → r.faults.remove = false)
    (hrun : (machine cfg).Run
      (fun c act => Arrivals P c act ∧ allowed (Thread.cancelsInTime id) c act = true) (boot now) c)
    {r : SessionRequest} (hth : c.threads[t]? = some (.session r (.done .noContent)))
    (hid : r.id = id) (hlater : (machine cfg).Run (Arrivals P) c d) :
    d.shared.files id = none ∧ d.shared.disk (.final id) = none ∧
      d.shared.disk (.part id) = none := by
  obtain ⟨l, hv, -, hall⟩ := cancelAt_run hremove hrun
  have hvoid : l.void = true := hall t r _ hth hid rfl
  obtain ⟨l', hv', hmoves⟩ := Outline.valid_run (fun _ _ h => h) hv hlater
  exact hv'.inv.holds.of_void (Life.Moves.void hmoves hvoid)

/-- The request on an upload that the thread has answered, and the answer. -/
def Thread.answered? : Thread → Option (SessionRequest × Answer)
  | .session r (.done a) => some (r, a)
  | _ => none

/-- A request that has been answered is at its end. It is how an answer is looked up in a
configuration by evaluation. -/
theorem Thread.answered?_eq_some {th : Thread} {r : SessionRequest} {a : Answer} :
    th.answered? = some (r, a) ↔ th = .session r (.done a) := by
  constructor
  · intro h
    unfold Thread.answered? at h
    split at h
    · obtain ⟨rfl, rfl⟩ := Prod.mk.inj (Option.some.inj h)
      rfl
    · cases h
  · rintro rfl
    rfl

/-- A thread found by its answer. The test is evaluated on the concrete run, and this gives the
thread. -/
theorem exists_of_answered {q : SessionRequest × Answer → Bool}
    (h : (c.threads[t]?.bind Thread.answered?).any q = true) :
    ∃ r a, c.threads[t]? = some (.session r (.done a)) ∧ q (r, a) = true := by
  obtain ⟨⟨r, a⟩, hra, hq⟩ := (Option.any_eq_true _ _).mp h
  obtain ⟨th, hth, hth'⟩ := Option.bind_eq_some_iff.mp hra
  obtain rfl := Thread.answered?_eq_some.mp hth'
  exact ⟨r, a, hth, hq⟩

/-- Two of three bytes are stored before the upload is cancelled. -/
def Sample.cancelled : Schedule :=
  arrive (create 3) ++ sections 0 3 ++ arrive (session .put [0x30] [1, 2]) ++ sections 1 6 ++
    arrive (session .delete) ++ sections 2 5

/-- A run in which an upload is cancelled and is gone. The request is answered with 204, and nothing
of the upload is left on the disk. -/
theorem cancel_effective_cancelled : ∃ (c : ThreadPool.Config Server Thread) (r : SessionRequest),
    c.threads[2]? = some (.session r (.done .noContent)) ∧ r.id = Sample.fileID ∧
      c.shared.files Sample.fileID = none ∧ c.shared.disk (.final Sample.fileID) = none ∧
        c.shared.disk (.part Sample.fileID) = none := by
  have hrun : ((machine Sample.config).execAllIf (allowed (Thread.cancelsInTime Sample.fileID)) (boot 0)
      Sample.cancelled).any fun c => (c.threads[2]?.bind Thread.answered?).any fun x =>
        x.1.id = Sample.fileID ∧ x.2 = .noContent := by
    decide +kernel
  obtain ⟨c, hexec, hanswer⟩ := (Option.any_eq_true _ _).mp hrun
  obtain ⟨r, a, hth, hra⟩ := exists_of_answered hanswer
  obtain ⟨hid, rfl⟩ := of_decide_eq_true hra
  -- the requests of the run are a creation, one chunk and the cancellation
  have hrun : (machine Sample.config).Run (fun c act => Arrivals (fun r => ¬r.removeFails) c act ∧
      allowed (Thread.cancelsInTime Sample.fileID) c act = true) (boot 0) c := by
    refine .of_execAllIf (fun c act hact hallowed => ⟨?_, hallowed⟩) hexec
    rintro th rfl
    have hth : th = (Sample.create 3).thread ∨ th = (Sample.session .put [0x30] [1, 2]).thread ∨
        th = (Sample.session .delete).thread := by
      simpa [Sample.cancelled, arrive, sections] using hact
    rcases hth with rfl | rfl | rfl <;> exact ⟨_, rfl, by rintro ⟨⟩⟩
  -- in this world no `os.Remove` fails
  have hremove : ∀ r, ¬(Request.session r).removeFails → r.id = Sample.fileID →
      r.method = .delete → r.faults.remove = false := by
    intro r hr _ _
    simpa [Request.removeFails] using hr
  exact ⟨c, r, hth, hid, cancel_effective hremove hrun hth hid .refl⟩

/-- The last chunk is stored and the upload finished while a `DELETE` that has already looked the
session up waits for the mutex. -/
def Sample.lateDelete : Schedule :=
  arrive (create 3) ++ sections 0 3 ++ arrive (session .delete) ++ sections 1 1 ++
    arrive (session .put [0x30] [1, 2, 3]) ++ sections 2 9 ++ sections 1 4

/-- A `DELETE` that takes the mutex of a finished upload is answered with 204, but the file stays
registered. -/
theorem cancel_ineffective_lateDelete :
    ∃ (c : ThreadPool.Config Server Thread) (r : SessionRequest),
    Reachable Sample.config (fun r => ¬r.removeFails) c ∧
      c.threads[1]? = some (.session r (.done .noContent)) ∧ r.method = .delete ∧
        (∃ rec, c.shared.files r.id = some rec) ∧ c.shared.disk (.final r.id) = some [1, 2, 3] := by
  have hrun : ((machine Sample.config).execAll (boot 0) Sample.lateDelete).any fun c =>
      (c.threads[1]?.bind Thread.answered?).any fun x => x.2 = .noContent ∧ x.1.method = .delete ∧
        (c.shared.files x.1.id).isSome ∧ c.shared.disk (.final x.1.id) = some [1, 2, 3] := by
    decide +kernel
  obtain ⟨c, hexec, hanswer⟩ := Sample.exists_of_any hrun
  obtain ⟨r, a, hth, hra⟩ := exists_of_answered hanswer
  obtain ⟨rfl, hmethod, hfile, hdisk⟩ := of_decide_eq_true hra
  have hreach : Reachable Sample.config (fun r => ¬r.removeFails) c := by
    refine .of_execAll (fun th hth => ?_) hexec
    have hth' : th = (Sample.create 3).thread ∨ th = (Sample.session .delete).thread ∨
        th = (Sample.session .put [0x30] [1, 2, 3]).thread := by
      simpa [Sample.lateDelete, arrive, sections] using hth
    rcases hth' with rfl | rfl | rfl <;> exact ⟨_, rfl, by rintro ⟨⟩⟩
  exact ⟨c, r, hreach, hth, hmethod, Option.isSome_iff_exists.mp hfile, hdisk⟩

/-! ## Uploads that are live or finished -/

/-- The section the thread is about to perform does not purge the upload. -/
def Thread.spares (id : FileID) (_ : Server) : Thread → Bool
  | .purge _ _ (.deleteRecord visit _ _) => decide (visit.1 ≠ id)
  | .purge _ _ (.deleteEntry visit _) => decide (visit.1 ≠ id)
  | _ => true

/-- The section the thread is about to perform is not that of a request on `id` taking the mutex of
a session that has left `uploads`, or looking into `files` while the finished file is not registered
yet. -/
def Thread.calm (id : FileID) (s : Server) : Thread → Bool
  | .session r .lock => decide (r.id = id → s.uploads id = true)
  | .session r .loadFile =>
      decide (r.id = id → s.disk (.final id) = none ∨ (s.files id).isSome = true)
  | _ => true

/-- How a section changes whether `id` can be loaded: `handleUploadCreate` publishes it, and
`finishUpload`, `DELETE` and the purge take it out. -/
theorem uploads_of_step {th th' : Thread} (h : th.step cfg t s = some (s', th')) (id : FileID) :
    s'.uploads id = s.uploads id ∨
      (∃ r body, th = .create r (.store body id)) ∨ s'.uploads id = false ∧
        ((∃ r body, th = .create r (.unregister body id)) ∨
          (∃ r newOffset, th = .session r (.unregister newOffset) ∧ r.id = id) ∨
          (∃ r, th = .session r .deleteEntry ∧ r.id = id) ∨
          ∃ r cutoff visit rest, th = .purge r cutoff (.deleteEntry visit rest) ∧ visit.1 = id) := by
  -- a file operation leaves the table alone, and an entry is set under its own identifier only
  have hremove : ∀ fails p, (s.remove fails p).uploads id = s.uploads id := by
    intro fails p
    cases fails <;> rfl
  have hset : ∀ {fid : FileID} {present : Bool}, fid ≠ id →
      (s.setUpload fid present).uploads id = s.uploads id := by
    intro fid present hne
    exact Function.update_of_ne (Ne.symm hne) ..
  have hself : (s.setUpload id false).uploads id = false := Function.update_self ..
  cases th with
  | upload r pc =>
      obtain ⟨⟨s₁, pc'⟩, hsection, heq⟩ := Option.map_eq_some_iff.mp h
      cases heq
      cases UploadSection.of_step hsection with
      | refused | noID | issued | createFails | created | refusedCopy | copied | registered =>
          exact .inl rfl
      -- `handleUpload` knows no uploads; it touches the table nowhere
      | discarded => exact .inl (hremove ..)
  | create r pc =>
      obtain ⟨⟨s₁, pc'⟩, hsection, heq⟩ := Option.map_eq_some_iff.mp h
      cases heq
      cases CreateSection.of_step hsection with
      | refused | noID | issued | createFails | createdEmpty | created | renameFails | renamed
      | registered => exact .inl rfl
      | @unregistered body fid =>
          by_cases hid : fid = id
          · subst hid
            exact .inr (.inr ⟨hself, .inl ⟨r, body, rfl⟩⟩)
          · exact .inl (hset hid)
      | @stored body fid =>
          by_cases hid : fid = id
          · subst hid
            exact .inr (.inl ⟨r, body, rfl⟩)
          · exact .inl (hset hid)
  | session r pc =>
      obtain ⟨⟨s₁, pc'⟩, hsection, heq⟩ := Option.map_eq_some_iff.mp h
      cases heq
      cases SessionSection.of_step hsection with
      | notHex | missing | loaded | wrongMethod | finished | notFound | locked | lockedDelete
      | statFails | offset | conflict | continued | openFails | opened | tooLong | interrupted
      | full | stored | truncated | renameFails | renamed | registered | unlocked => exact .inl rfl
      | @unregistered newOffset =>
          by_cases hid : r.id = id
          · subst hid
            exact .inr (.inr ⟨hself, .inr (.inl ⟨r, newOffset, rfl, rfl⟩)⟩)
          · exact .inl (hset hid)
      | dropped =>
          by_cases hid : r.id = id
          · subst hid
            exact .inr (.inr ⟨hself, .inr (.inr (.inl ⟨r, rfl, rfl⟩))⟩)
          · exact .inl (hset hid)
      | removed => exact .inl (hremove ..)
  | purge r cutoff pc =>
      obtain ⟨⟨s₁, cutoff', pc'⟩, hsection, heq⟩ := Option.map_eq_some_iff.mp h
      cases heq
      cases (PurgeSection.of_step hsection).1 with
      | began | filesDone | expired | fresh | recordDeleted | done | loaded | missing | locked
      | stale | recent | unlocked => exact .inl rfl
      | recordRemoved | removed => exact .inl (hremove ..)
      | @dropped visit rest =>
          by_cases hid : visit.1 = id
          · subst hid
            exact .inr (.inr ⟨hself, .inr (.inr (.inr ⟨r, cutoff, visit, rest, rfl, rfl⟩))⟩)
          · exact .inl (hset hid)

/-- An upload that can be loaded has a session object. The two indexes agree in this direction in
every reachable state. -/
theorem Life.Holds.session_of_upload (h : l.Holds cfg P v) (hup : v.upload = true) :
    ∃ se, v.session = some se := by
  obtain ⟨hp, hc⟩ := h.of_upload hup
  cases l with
  | live size b =>
      obtain ⟨-, -, -, -, -, -, se, x, hse, -⟩ := h
      exact ⟨se, hse⟩
  | dropped w size b =>
      obtain ⟨-, -, -, -, -, -, -, se, hse, -⟩ := h
      exact ⟨se, hse⟩
  | sealed w b =>
      obtain ⟨-, -, -, -, se, hse, -⟩ := h
      exact ⟨se, hse⟩
  | unused | building | orphan => cases hp
  | registered | expiring | reclaimed | gone => cases hc

/-- The upload is **kept**: it can be loaded, its file has been renamed and is about to be
registered, or it is registered. -/
def Kept (id : FileID) (l : Life) (s : Server) : Prop :=
  s.uploads id = true ∨ (∃ t b, l = .sealed t b) ∨ s.files id ≠ none

/-- A kept upload has been published and has not been given up. -/
theorem Kept.published (hinv : Inv cfg P id l s) (h : Kept id l s) :
    l.published = true ∧ l ≠ .gone := by
  rcases h with hup | ⟨t, b, rfl⟩ | hfile
  · obtain ⟨hp, hc⟩ := hinv.holds.of_upload hup
    refine ⟨hp, ?_⟩
    rintro rfl
    cases hc
  · exact ⟨rfl, nofun⟩
  · obtain ⟨rec, hrec⟩ := Option.ne_none_iff_exists'.mp hfile
    obtain ⟨b, rfl⟩ := hinv.holds.of_file hrec
    exact ⟨rfl, nofun⟩

/-- The thread that has renamed the file of an upload is on its way to register it. -/
theorem Loc.of_sealed {b : Bytes} {th : Thread} (h : Loc cfg P id t (.sealed t b) v th) :
    ∃ r newOffset, (th = .session r (.unregister newOffset) ∨
      th = .session r (.register newOffset)) ∧ r.id = id := by
  obtain ⟨-, hloc⟩ := h
  -- the finisher owns the life of the upload, so its thread is neither idle nor an ordinary holder
  have hidle : ¬Idle t (.sealed t b) v := fun hi => hi.1 rfl
  have hheld : ∀ se, ¬Held t (.sealed t b) v se := fun se hh => hh.free rfl
  cases th with
  -- a simple upload works on a life that is still being built
  | upload r pc =>
      by_cases hw : pc.working? = some id
      · cases (hloc.here hw).1
      · exact absurd (hloc.elsewhere hw) hidle
  | create r pc =>
      by_cases hw : ∃ body, pc.working? = some (body, id)
      · obtain ⟨body, hw⟩ := hw
        cases (hloc.here body hw).1
      · exact absurd (hloc.elsewhere fun body h => hw ⟨body, h⟩) hidle
  | session r pc =>
      by_cases hid : r.id = id
      · have hat := hloc.here hid
        cases pc with
        | start | loadFile => exact absurd hat hidle
        | lock => exact absurd hat.1 hidle
        | stat =>
            obtain ⟨se, hh, -⟩ := hat
            exact absurd hh (hheld se)
        | openFile | copy | rename =>
            obtain ⟨se, b', hh, -⟩ := hat
            exact absurd hh (hheld se)
        | truncate =>
            obtain ⟨se, b', x, -, -, hl, -⟩ := hat
            cases hl
        | unregister newOffset => exact ⟨r, newOffset, .inl rfl, hid⟩
        | register newOffset => exact ⟨r, newOffset, .inr rfl, hid⟩
        | deleteEntry =>
            obtain ⟨-, se, hh⟩ := hat
            exact absurd hh (hheld se)
        | removeFile =>
            obtain ⟨-, se, -, -, ⟨size, b', hl⟩ | ⟨hc, -⟩⟩ := hat
            · cases hl
            · cases hc
        | unlock a =>
            obtain ⟨⟨se, hh⟩, -⟩ := hat
            exact absurd hh (hheld se)
        | done a => exact absurd hat.1 hidle
      · exact absurd (hloc.elsewhere hid) hidle
  | purge r cutoff pc =>
      by_cases hw : pc.working? = some id
      · have hat := hloc.here
        cases pc with
        -- a purge takes records whose upload has finished for good
        | removeRecord visit rec rest =>
            have he := (hat.2 (Option.some.inj hw)).1
            cases he
        -- a purge that holds the mutex would be an ordinary holder
        | check visit rest | deleteEntry visit rest | unlock visit rest =>
            obtain ⟨se, hh⟩ := hat (Option.some.inj hw)
            exact absurd hh (hheld se)
        | removeFile visit rest =>
            obtain ⟨se, -, -, ⟨size, b', hl⟩ | ⟨hc, -⟩⟩ := hat (Option.some.inj hw)
            · cases hl
            · cases hc
        | start | files | deleteRecord | uploads | lock | done => cases hw
      · exact absurd (hloc.elsewhere hw) hidle

/-- The requests on `id` neither delete it nor meet a failing `os.Stat`. -/
def Retries (P : Request → Prop) (id : FileID) : Prop :=
  ∀ r, P (.session r) → r.id = id → r.method ≠ .delete ∧ r.faults.stat = false

/-- **An action that neither deletes nor purges the upload keeps it.** The upload stays live, is
being finished or has its record. -/
theorem kept_exec {act : ThreadPool.Act Thread Unit ℕ} (hv : (outline cfg P id).Valid l c)
    (hretries : Retries P id) (hspares : allowed (Thread.spares id) c act = true)
    (hexec : (machine cfg).exec c act = some d) (hm : (outline cfg P id).Matched l l' c d act)
    (h : Kept id l c.shared) : Kept id l' d.shared := by
  cases act with
  | spawn th =>
      obtain rfl := hm.idle nofun
      obtain rfl := Option.some.inj hexec
      exact h
  | env e =>
      obtain rfl := hm.idle nofun
      obtain rfl := Option.some.inj hexec
      exact h
  | run t k =>
      obtain ⟨th, th', hth, hstep, hthreads⟩ := run_of_exec hexec
      have hspare := ThreadPool.Machine.allowed_run hth hspares
      have hloc := hv.loc t _ hth
      have hth' : d.threads[t]? = some th' := by
        rw [hthreads]
        exact List.getElem?_set_self (List.getElem?_eq_some_iff.mp hth).1
      have hloc' := hm.valid.loc t _ hth'
      -- after its `uploads.Delete`, a thread in `finishUpload` is about to register the file
      have hseal : ∀ {r newOffset}, th = .session r (.unregister newOffset) → r.id = id →
          Kept id l' d.shared := by
        rintro r newOffset rfl hid
        obtain ⟨-, rfl⟩ := Prod.mk.inj (Option.some.inj hstep)
        obtain ⟨se, b, -, -, hl, -⟩ := hloc'.2.here hid
        exact .inr (.inl ⟨t, b, hl⟩)
      rcases h with hup | ⟨w, b, rfl⟩ | hfile
      · obtain ⟨hp, -⟩ := hv.inv.holds.of_upload hup
        rcases uploads_of_step hstep id with heq | ⟨r, body, rfl⟩ |
          ⟨-, ⟨r, body, rfl⟩ | ⟨r, newOffset, hth₀, hid⟩ | ⟨r, rfl, hid⟩ |
            ⟨r, cutoff, visit, rest, rfl, hid⟩⟩
        · exact .inl (heq.trans hup)
        · rw [(hloc.2.here body rfl).1] at hp
          cases hp
        · rw [(hloc.2.here body rfl).1] at hp
          cases hp
        · exact hseal hth₀ hid
        · exact absurd (hloc.2.here hid).1 (hretries r hloc.1 hid).1
        · exact absurd hid (of_decide_eq_true hspare)
      · by_cases htw : t = w
        · subst htw
          obtain ⟨r, newOffset, hth₀ | rfl, hid⟩ := hloc.of_sealed
          · exact hseal hth₀ hid
          · obtain ⟨⟨s₁, pc'⟩, hsection, heq⟩ := Option.map_eq_some_iff.mp hstep
            obtain ⟨hs₁, -⟩ := Prod.mk.inj heq
            refine .inr (.inr ?_)
            rw [← hs₁, ← hid]
            cases SessionSection.of_step hsection with
            | registered hse => simp [Server.setFile]
        · obtain ⟨-, -, -, -, se, hse, -, hmu⟩ := hv.inv.holds
          have hl' := (hm.guar t k rfl).life_eq htw hse hmu rfl
          exact .inr (.inl ⟨w, b, hl'⟩)
      · right
        right
        intro hnone
        obtain ⟨r, cutoff, visit, rec, rest, rfl, hid⟩ := dropped_by_purge hstep hfile hnone
        exact absurd hid (of_decide_eq_true hspare)

/-- What a request on a kept upload relies on. -/
def AnswerAt (l : Life) (s : Server) (r : SessionRequest) : SessionPC → Prop
  | .loadFile => s.uploads r.id = false
  | .stat => ∃ size b, l = .live size b
  | .unlock a | .done a => a.status ≠ 404
  | _ => True

/-- **A section of a calm request on a kept upload** does not lead to a 404. In the one case that
reports the upload as gone, neither index knows it, which a kept upload excludes. -/
theorem SessionSection.answerAt {r : SessionRequest} {pc pc' : SessionPC}
    (h : SessionSection t s r pc s' pc') (hinv : Inv cfg P r.id l s) (hinv' : Inv cfg P r.id l' s')
    (hat : SessionAt t l (s.view r.id) r pc) (hat' : SessionAt t l' (s'.view r.id) r pc')
    (hkept : Kept r.id l s) (hhex : isHexFileID r.id = true)
    (hcalm : (Thread.session r pc).calm r.id s = true) (hm : r.method ≠ .delete)
    (hstat : r.faults.stat = false) (hpc : AnswerAt l s r pc) : AnswerAt l' s' r pc' := by
  cases h with
  | loaded | lockedDelete | continued | opened | tooLong | full | renamed | unregistered
  | dropped => trivial
  | wrongMethod | finished | offset | conflict | openFails | interrupted | stored | truncated
  | renameFails | registered => simp [AnswerAt, Answer.status, progress, completed,
      methodNotAllowed, cannotSave, chunkInterrupted, chunkExceeds]
  | notHex hno => simp [hno] at hhex
  | missing hload =>
      show s.uploads r.id = false
      by_contra hup
      rw [Bool.not_eq_false] at hup
      obtain ⟨se, hse⟩ := hinv.holds.session_of_upload hup
      have hsome : s.load r.id = some se := s.load_eq_some.mpr ⟨hup, hse⟩
      rw [hload] at hsome
      cases hsome
  | notFound h =>
      exfalso
      have hnone : s.files r.id = none := h.resolve_right hm
      rcases hkept with hup | ⟨w, b, rfl⟩ | hfile
      · cases hup.symm.trans hpc
      · -- the finished file is there and not registered: the window of `finishUpload`
        have hfin : s.disk (.final r.id) = some b := hinv.holds.2.2.1
        have hor := of_decide_eq_true hcalm rfl
        rw [hfin, hnone] at hor
        simp at hor
      · exact hfile hnone
  | locked hse hmu =>
      have hup : (s.setMu r.id (some t)).uploads r.id = true := of_decide_eq_true hcalm rfl
      obtain ⟨se, hh, -⟩ := hat'
      rcases hh.settled hinv'.holds with ⟨b, hl⟩ | hc
      · exact ⟨_, b, hl⟩
      · cases (hinv'.holds.of_closed hc).2.symm.trans hup
  | statFails hse hfail =>
      exfalso
      obtain ⟨size, b, rfl⟩ := hpc
      obtain ⟨se, hh, -⟩ := hat
      have hpart : s.disk (.part r.id) = some b := hh.quiet size b rfl
      rw [(hinv.wf.session _ _ hse).1, hstat, hpart] at hfail
      simp at hfail
  | removed => exact absurd hat.1 hm
  | unlocked => exact hpc

/-- The entry of a published upload never comes back to `uploads`. -/
theorem uploads_exec {act : ThreadPool.Act Thread Unit ℕ} (hv : (outline cfg P id).Valid l c)
    (hp : l.published = true) (hexec : (machine cfg).exec c act = some d)
    (h : c.shared.uploads id = false) : d.shared.uploads id = false := by
  cases act with
  | spawn th =>
      obtain rfl := Option.some.inj hexec
      exact h
  | env e =>
      obtain rfl := Option.some.inj hexec
      exact h
  | run t k =>
      obtain ⟨th, th', hth, hstep, -⟩ := run_of_exec hexec
      rcases uploads_of_step hstep id with heq | ⟨r, body, rfl⟩ | ⟨hfalse, -⟩
      · exact heq.trans h
      · rw [((hv.loc t _ hth).2.here body rfl).1] at hp
        cases hp
      · exact hfalse

/-- The upload is kept and every request on it can rely on that. -/
def Answers (id : FileID) (l : Life) (c : ThreadPool.Config Server Thread) : Prop :=
  Kept id l c.shared ∧ ∀ (t : Tid) (r : SessionRequest) (pc : SessionPC),
    c.threads[t]? = some (.session r pc) → r.id = id → AnswerAt l c.shared r pc

/-- **The run theorem for kept uploads**: along a calm run that neither deletes nor purges the
upload, every request on it keeps `AnswerAt`. -/
theorem answers_run (hv : (outline cfg P id).Valid l c) (hhex : isHexFileID id = true)
    (hretries : Retries P id) (h : Answers id l c)
    (hrun : (machine cfg).Run (fun c act => Arrivals P c act ∧
      allowed (Thread.spares id) c act = true ∧ allowed (Thread.calm id) c act = true) c d) :
    ∃ l', (outline cfg P id).Valid l' d ∧ Life.Moves cfg P id l l' ∧ Answers id l' d := by
  refine Outline.run_invariant (I := Answers id) (fun _ _ h => h.1) hv h ?_ hrun
  -- one step; `hm` says how the life has moved and who has moved it
  rintro l c l' d act hv ⟨hkept, hall⟩ ⟨harrive, hspares, hcalm⟩ hexec hm
  have hp := (hkept.published hv.inv).1
  refine ⟨kept_exec hv hretries hspares hexec hm hkept, ?_⟩
  refine session_threads (A := AnswerAt) harrive hexec hm hall ?_ ?_ ?_ ?_
  · exact fun _ _ => trivial
  · intro e r pc hpc
    cases pc <;> exact hpc
  · rintro t r pc pc' rfl hth hth' rfl hsection hpc
    have hloc := hv.loc t _ hth
    have hloc' := hm.valid.loc t _ hth'
    obtain ⟨hmethod, hstat⟩ := hretries r hloc.1 rfl
    exact hsection.answerAt hv.inv hm.valid.inv (hloc.2.here rfl) (hloc'.2.here rfl) hkept hhex
      (ThreadPool.Machine.allowed_run hth hcalm) hmethod hstat hpc
  · rintro t u r pc htu hg hth rfl hpc
    -- for the other threads: `loadFile` has seen an entry, and the holder of the mutex a live
    -- upload
    cases pc with
    | loadFile => exact uploads_exec hv hp hexec hpc
    | stat =>
        obtain ⟨size, b, hl⟩ := hpc
        obtain ⟨se, hh, -⟩ := (hv.loc u _ hth).2.here rfl
        exact ⟨size, b, (hg.life_eq htu hh.session hh.mu (by rw [hl]; rfl)).trans hl⟩
    | unlock a => exact hpc
    | done a => exact hpc
    | start | lock | openFile | copy | truncate | rename | unregister | register | deleteEntry
    | removeFile => trivial

/-- **A live or finished upload is never reported as gone**, in every run from a state where it is
live or finished and has not been asked for yet, if no request deletes it, no purge drops it, no
`os.Stat` fails on it, and every `GET` and `PUT` on it is calm: it takes the mutex only while the
session is in `uploads`, and looks into `files` only while no renamed file waits to be
registered. -/
theorem never_notFound (hreach : Reachable cfg P c)
    (hnew : ∀ th ∈ c.threads, ∀ r, th.request = .session r → r.id ≠ id)
    (hthere : c.shared.uploads id = true ∨ ∃ rec, c.shared.files id = some rec)
    (hretries : Retries P id)
    (hrun : (machine cfg).Run (fun c act => Arrivals P c act ∧
      allowed (Thread.spares id) c act = true ∧ allowed (Thread.calm id) c act = true) c d)
    {r : SessionRequest} {a : Answer} (hth : d.threads[t]? = some (.session r (.done a)))
    (hid : r.id = id) : a.status ≠ 404 := by
  obtain ⟨l, hv, hmoves⟩ := hreach.valid id
  have hkept : Kept id l c.shared := by
    rcases hthere with hup | ⟨rec, hrec⟩
    · exact .inl hup
    · exact .inr (.inr (by rw [hrec]; nofun))
  obtain ⟨hp, hne⟩ := hkept.published hv.inv
  obtain ⟨rand, rfl⟩ := hmoves.randomID_eq hp hne
  have hall : Answers (randomID rand) l c := by
    refine ⟨hkept, fun t r pc hth hid => ?_⟩
    exact absurd hid (hnew _ (List.mem_of_getElem? hth) r rfl)
  obtain ⟨l', -, -, -, hall'⟩ :=
    answers_run hv (isHexFileID_randomID rand) hretries hall hrun
  exact hall' t r _ hth hid

/-- Creations, and `GET` and `PUT` requests that meet no fault. -/
def Sample.plain : Request → Prop
  | .create _ => True
  | .session r => (r.method = .get ∨ r.method = .put) ∧ r.faults = {}
  | _ => False

/-- None of the plain requests deletes the upload or meets a failing `os.Stat`. -/
theorem Sample.retries_plain : Retries plain id := by
  rintro r ⟨hm, hf⟩ -
  constructor
  · rcases hm with hm | hm <;> simp [hm]
  · rw [hf]

/-- The upload has just been created. -/
def Sample.opened : Schedule := arrive (create 3) ++ sections 0 3

/-- What a schedule does to the upload that has just been created. -/
theorem Sample.exists_of_opened {q : SessionRequest → Answer → Bool}
    (acts : ThreadPool.Config Server Thread → Option (ThreadPool.Config Server Thread))
    (h : ((machine config).execAll (boot 0) opened).any fun c =>
      c.shared.uploads fileID && (c.threads.all fun th => th.answered?.isNone &&
        th.answer?.isSome) && (acts c).any fun d =>
          (d.threads[1]?.bind Thread.answered?).any fun x => x.1.id = fileID ∧ q x.1 x.2) :
    ∃ (c d : ThreadPool.Config Server Thread) (r : SessionRequest) (a : Answer),
      Reachable config plain c ∧ (∀ th ∈ c.threads, ∀ r, th.request = .session r → r.id ≠ fileID) ∧
        c.shared.uploads fileID = true ∧ acts c = some d ∧
          d.threads[1]? = some (.session r (.done a)) ∧ r.id = fileID ∧ q r a = true := by
  obtain ⟨c, hexec, hall⟩ := exists_of_any h
  obtain ⟨hall, hacts⟩ := Bool.and_eq_true_iff.mp hall
  obtain ⟨hup, hthreads⟩ := Bool.and_eq_true_iff.mp hall
  obtain ⟨d, hd, hanswer⟩ := (Option.any_eq_true _ _).mp hacts
  obtain ⟨r, a, hth, hra⟩ := exists_of_answered hanswer
  obtain ⟨hid, hq⟩ := of_decide_eq_true hra
  refine ⟨c, d, r, a, ?_, fun th hmem r hr => ?_, hup, hd, hth, hid, hq⟩
  · refine .of_execAll (fun th hth => ?_) hexec
    obtain rfl : th = (create 3).thread := by simpa [opened, arrive, sections] using hth
    exact ⟨_, rfl, trivial⟩
  · -- the only request so far is the creation, which has been answered
    obtain ⟨hnone, hsome⟩ := Bool.and_eq_true_iff.mp (List.all_eq_true.mp hthreads th hmem)
    cases th with
    | session r' pc => cases pc <;> simp [Thread.answered?, Thread.answer?] at hnone hsome
    | upload | create | purge => cases hr

/-- The requests of a schedule on the upload that has just been created. -/
theorem Sample.arrivals_plain {acts : Schedule} {act : ThreadPool.Act Thread Unit ℕ}
    (hacts : ∀ th, .spawn th ∈ acts → th = (session .get).thread ∨
      th = (session .put [0x30] [1, 2, 3]).thread) (hact : act ∈ acts) : Arrivals plain c act := by
  rintro th rfl
  rcases hacts th hact with rfl | rfl
  · exact ⟨_, rfl, .inl rfl, rfl⟩
  · exact ⟨_, rfl, .inr rfl, rfl⟩

/-- A `GET` that arrives before the last chunk and is handled after it. -/
def Sample.calmGet : Schedule :=
  arrive (session .get) ++ arrive (session .put [0x30] [1, 2, 3]) ++ sections 2 9 ++ sections 1 2

/-- A `GET` that arrives before the last chunk and is handled after it, and is not answered 404. -/
theorem never_notFound_calmGet : ∃ (d : ThreadPool.Config Server Thread) (r : SessionRequest)
    (a : Answer), d.threads[1]? = some (.session r (.done a)) ∧ r.id = Sample.fileID ∧
      a.status ≠ 404 := by
  obtain ⟨c, d, r, a, hreach, hnew, hup, hexec, hth, hid, -⟩ := Sample.exists_of_opened
    (q := fun _ _ => true)
    (fun c => (machine Sample.config).execAllIf (fun c act =>
      allowed (Thread.spares Sample.fileID) c act && allowed (Thread.calm Sample.fileID) c act) c
        Sample.calmGet)
    (by decide +kernel)
  refine ⟨d, r, a, hth, hid, never_notFound hreach hnew (.inl hup) Sample.retries_plain ?_ hth hid⟩
  refine .of_execAllIf (fun c act hact hallowed => ?_) hexec
  refine ⟨Sample.arrivals_plain (fun th h => ?_) hact, Bool.and_eq_true_iff.mp hallowed⟩
  simpa [Sample.calmGet, arrive, sections] using h

/-- A `GET` that has looked the session up waits for the mutex while the last chunk is stored and
the upload finished. -/
def Sample.lateGet : Schedule :=
  arrive (session .get) ++ sections 1 1 ++ arrive (session .put [0x30] [1, 2, 3]) ++
    sections 2 9 ++ sections 1 3

/-- A `GET` that takes the mutex of an upload that has just been finished is answered with 404. -/
theorem notFound_lateGet :
    ∃ (c d : ThreadPool.Config Server Thread) (r : SessionRequest) (a : Answer),
      Reachable Sample.config Sample.plain c ∧
        (∀ th ∈ c.threads, ∀ r, th.request = .session r → r.id ≠ Sample.fileID) ∧
        c.shared.uploads Sample.fileID = true ∧
        (machine Sample.config).Run (Arrivals Sample.plain) c d ∧
        d.threads[1]? = some (.session r (.done a)) ∧ r.id = Sample.fileID ∧ r.method = .get ∧
        (∃ rec, d.shared.files Sample.fileID = some rec) ∧ a.status = 404 := by
  obtain ⟨c, d, r, a, hreach, hnew, hup, hexec, hth, hid, hra⟩ := Sample.exists_of_opened
    (q := fun r a => r.method = .get ∧ a.status = 404)
    (fun c => ((machine Sample.config).execAll c Sample.lateGet).filter fun d =>
      (d.shared.files Sample.fileID).isSome)
    (by decide +kernel)
  obtain ⟨hexec, hfile⟩ := Option.filter_eq_some_iff.mp hexec
  obtain ⟨hmethod, hstatus⟩ := of_decide_eq_true hra
  refine ⟨c, d, r, a, hreach, hnew, hup, ?_, hth, hid, hmethod, Option.isSome_iff_exists.mp hfile,
    hstatus⟩
  refine .of_execAll (fun c act hact => Sample.arrivals_plain (fun th h => ?_) hact) hexec
  simpa [Sample.lateGet, arrive, sections] using h

end LanRoom.Upload
