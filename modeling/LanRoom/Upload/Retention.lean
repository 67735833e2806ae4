import LanRoom.Upload.Integrity

/-! # What stays and what is left behind

A finished file stays as it is until a purge with a later cutoff drops it, whatever handlers that
still hold its old session do (`finished_file_kept`). When no request is executing, the directory
and the two indexes agree, except for the `.part` file that `handleUploadCreate` leaves behind when
finishing an empty upload fails (`tidy_iff`). -/

namespace LanRoom.Upload

open ThreadPool (Tid Outline)
open Relation (ReflTransGen)

variable {cfg : Config} {P Q : Request → Prop} {id : FileID} {t : Tid} {l l' : Life} {v : View}
  {s s' : Server} {c d : ThreadPool.Config Server Thread} {act : ThreadPool.Act Thread Unit ℕ}

/-! ## Requests of a run -/

/-- The requests of a pool stay in it. A thread keeps its request from its arrival to its end and
longer. -/
theorem requests_mono (h : (machine cfg).exec c act = some d) {th : Thread} (hth : th ∈ c.threads) :
    ∃ th' ∈ d.threads, th'.request = th.request := by
  cases act with
  | spawn th₁ =>
      obtain rfl := Option.some.inj h
      exact ⟨th, List.mem_append_left _ hth, rfl⟩
  | env e =>
      obtain rfl := Option.some.inj h
      exact ⟨th, hth, rfl⟩
  | run u k =>
      obtain ⟨th₀, th₁, hth₀, hstep, hd⟩ := run_of_exec h
      obtain ⟨i, hi⟩ := List.mem_iff_getElem?.mp hth
      rw [hd]
      by_cases hui : u = i
      · subst hui
        obtain rfl := Option.some.inj (hi.symm.trans hth₀)
        refine ⟨th₁, List.mem_of_getElem? (i := u) ?_, Thread.step_request hstep⟩
        exact List.getElem?_set_self (List.getElem?_eq_some_iff.mp hi).1
      · refine ⟨th, List.mem_of_getElem? (i := i) ?_, rfl⟩
        rw [List.getElem?_set_ne hui]
        exact hi

/-- A run only has the requests that are in the pool at its end. -/
theorem Run.of_pool (hrun : (machine cfg).Run (Arrivals P) c d)
    (hQ : ∀ th ∈ d.threads, Q th.request) :
    (machine cfg).Run (Arrivals fun r => P r ∧ Q r) c d := by
  induction hrun with
  | refl => exact .refl
  | tail hrun hok hexec ih =>
      refine .tail (ih fun th hth => ?_) ?_ hexec
      · obtain ⟨th', hth', heq⟩ := requests_mono hexec hth
        rw [← heq]
        exact hQ th' hth'
      · rintro th rfl
        obtain ⟨r, rfl, hP⟩ := hok th rfl
        obtain rfl := Option.some.inj hexec
        have hr := hQ r.thread (List.mem_append_right _ (List.mem_singleton_self _))
        refine ⟨r, rfl, hP, ?_⟩
        cases r <;> exact hr

/-- A reachable configuration is reachable by the requests in its pool. -/
theorem Reachable.of_pool (h : Reachable cfg P c) :
    Reachable cfg (fun r => P r ∧ ∃ th ∈ c.threads, th.request = r) c := by
  obtain ⟨now, hrun⟩ := h
  exact ⟨now, Run.of_pool hrun fun th hth => ⟨th, hth, rfl⟩⟩

/-! ## Finished files are immutable -/

/-- Removing a file leaves the indexes alone. The record of a file and the file itself are removed
in two sections. -/
theorem Server.files_remove (s : Server) (fails : Bool) (p : Path) :
    (s.remove fails p).files = s.files := by
  cases fails <;> rfl

/-- A record that is stored does not make another one disappear. -/
theorem Server.files_setFile_some (s : Server) {fid : FileID} {rec : FileRecord}
    (h : s.files id ≠ none) : (s.setFile fid (some rec)).files id ≠ none := by
  by_cases hid : id = fid
  · subst hid
    simp [Server.setFile]
  · simpa [Server.setFile, hid] using h

/-- **Only the purge drops a record.** Neither a late `DELETE` nor a late `PUT` does, although they
may come after the upload is finished. -/
theorem dropped_by_purge {th th' : Thread} (h : th.step cfg t s = some (s', th'))
    (hs : s.files id ≠ none) (hs' : s'.files id = none) :
    ∃ r cutoff visit rec rest, th = .purge r cutoff (.deleteRecord visit rec rest) ∧
      visit.1 = id := by
  cases th with
  | upload r pc =>
      obtain ⟨⟨s₁, pc'⟩, hsection, heq⟩ := Option.map_eq_some_iff.mp h
      cases heq
      cases UploadSection.of_step hsection with
      -- `handleUpload` and the other two handlers only ever store records
      | refused | noID | issued | createFails | created | refusedCopy | copied => exact absurd hs' hs
      | discarded =>
          rw [Server.files_remove] at hs'
          exact absurd hs' hs
      | registered => exact absurd hs' (s.files_setFile_some hs)
  | create r pc =>
      obtain ⟨⟨s₁, pc'⟩, hsection, heq⟩ := Option.map_eq_some_iff.mp h
      cases heq
      cases CreateSection.of_step hsection with
      | refused | noID | issued | createFails | createdEmpty | created | renameFails | renamed
      | unregistered | stored => exact absurd hs' hs
      | registered => exact absurd hs' (s.files_setFile_some hs)
  | session r pc =>
      obtain ⟨⟨s₁, pc'⟩, hsection, heq⟩ := Option.map_eq_some_iff.mp h
      cases heq
      cases SessionSection.of_step hsection with
      | notHex | missing | loaded | wrongMethod | finished | notFound | locked | lockedDelete
      | statFails | offset | conflict | continued | openFails | opened | tooLong | interrupted
      | full | stored | truncated | renameFails | renamed | unregistered | dropped
      | unlocked => exact absurd hs' hs
      | registered => exact absurd hs' (s.files_setFile_some hs)
      | removed =>
          rw [Server.files_remove] at hs'
          exact absurd hs' hs
  | purge r cutoff pc =>
      obtain ⟨⟨s₁, cutoff', pc'⟩, hsection, heq⟩ := Option.map_eq_some_iff.mp h
      cases heq
      cases (PurgeSection.of_step hsection).1 with
      | began | filesDone | expired | fresh | done | loaded | missing | locked | stale | recent
      | dropped | unlocked => exact absurd hs' hs
      | recordRemoved | removed =>
          rw [Server.files_remove] at hs'
          exact absurd hs' hs
      -- `files.Delete` of a purge takes away the record it visits
      | @recordDeleted visit rec rest =>
          refine ⟨r, cutoff, visit, rec, rest, rfl, ?_⟩
          by_contra hne
          simp [Server.setFile, Ne.symm hne] at hs'
          exact hs hs'

/-- The action is not a section of a purge whose cutoff is after the creation of the record of `id`.
(Before its first section a purge has no cutoff yet.) -/
def Spares (id : FileID) (c : ThreadPool.Config Server Thread)
    (act : ThreadPool.Act Thread Unit ℕ) : Prop :=
  ∀ rec t k r cutoff pc, c.shared.files id = some rec → act = .run t k →
    c.threads[t]? = some (.purge r cutoff pc) → pc ≠ .start → cutoff ≤ rec.createdAt

/-- One action that spares `id` keeps its record and the bytes. -/
theorem exec_keeps_file {rec : FileRecord} {b : Bytes}
    (hv : (outline cfg P id).Valid (.registered rec b) c) (hok : Arrivals P c act)
    (hspare : Spares id c act) (hexec : (machine cfg).exec c act = some d) :
    (outline cfg P id).Valid (.registered rec b) d := by
  obtain ⟨l', hm⟩ := Outline.valid_exec hv hok hexec
  rcases Life.Moves.registered hm.moves with rfl | hexp
  · exact hm.valid
  · -- the record has been dropped, which only a purge with a later cutoff does
    exfalso
    have hgone : d.shared.files id = none := by
      cases hrec : d.shared.files id with
      | none => rfl
      | some rec' =>
          obtain ⟨b', rfl⟩ := hm.valid.inv.holds.of_file hrec
          cases hexp
    have hfile : c.shared.files id = some rec := hv.inv.holds.2.2.2.2.1
    cases act with
    | spawn th =>
        obtain rfl := Option.some.inj hexec
        cases hfile.symm.trans hgone
    | env e =>
        obtain rfl := Option.some.inj hexec
        cases hfile.symm.trans hgone
    | run u k =>
        obtain ⟨th, th', hth, hstep, -⟩ := run_of_exec hexec
        obtain ⟨r, cutoff, visit, rec', rest, rfl, hid⟩ :=
          dropped_by_purge hstep (by rw [hfile]; nofun) hgone
        obtain ⟨-, hold, hsame⟩ := (hv.loc u _ hth).2.here
        obtain rfl := (hsame hid).2 rec b rfl
        have hcut := hspare rec u k r cutoff _ hfile rfl hth nofun
        exact absurd hold (not_lt.mpr hcut)

/-- A run that spares `id` keeps its record and the bytes. The induction is on the run, and the life
stays at `registered` in each step. -/
theorem run_keeps_file {rec : FileRecord} {b : Bytes}
    (hv : (outline cfg P id).Valid (.registered rec b) c)
    (hrun : (machine cfg).Run (fun c act => Arrivals P c act ∧ Spares id c act) c d) :
    (outline cfg P id).Valid (.registered rec b) d := by
  induction hrun with
  | refl => exact hv
  | tail _ hok hexec ih => exact exec_keeps_file ih hok.1 hok.2 hexec

/-- A file only expires by a purge. A server that is never purged keeps every finished file. -/
theorem Life.Moves.cause_of_expired (h : Life.Moves cfg P id .unused l) (hl : l.expired = true) :
    ∃ r, P (.purge r) := by
  induction h with
  | refl => cases hl
  | tail _ hmove ih =>
      cases hmove with
      | expire t hP => exact ⟨_, hP⟩
      | reclaim | stray => exact ih rfl
      | issue | publish | finishEmpty | finishForm | abandon | leak | litter | append | complete
      | register | drop | cancel | keep => cases hl

/-- The upload an ended request has answered about with a file is finished. -/
theorem finished_of_answer (hv : (outline cfg P id).Valid l c) {th : Thread} {a : Answer}
    {f : FileResponse} (hth : c.threads[t]? = some th) (ha : th.answer? = some a)
    (hf : a.file? = some f) (hid : f.fileID = id) : l.finished = true := by
  have hloc := (hv.loc t th hth).2
  cases th with
  | upload r pc =>
      cases pc with
      | done a' =>
          obtain rfl := Option.some.inj ha
          exact hloc.answered _ rfl f hf hid
      | start | create | copy | discard | register => cases ha
  | create r pc =>
      cases pc with
      | done a' =>
          obtain rfl := Option.some.inj ha
          exact hloc.answered _ rfl f hf hid
      | start | create | rename | unregister | register | store => cases ha
  | session r pc =>
      cases pc with
      | done a' =>
          -- the identifier in the answer is the one of the request
          obtain rfl := Option.some.inj ha
          have hr : r.id = id := (hloc.about _ rfl f hf).symm.trans hid
          exact (hloc.here hr).2 (by rw [hf]; rfl)
      | start | loadFile | lock | stat | openFile | copy | truncate | rename | unregister
      | register | deleteEntry | removeFile | unlock => cases ha
  | purge r cutoff pc => cases ha

/-- A finished upload is registered or expired. There is no third state after finishing. -/
theorem Life.registered_or_expired (h : l.finished = true) :
    (∃ rec b, l = .registered rec b) ∨ l.expired = true := by
  cases l with
  | registered rec b => exact .inl ⟨rec, b, rfl⟩
  | expiring | reclaimed => exact .inr rfl
  | unused | building | live | dropped | sealed | gone | orphan => cases h

/-- An expired file has no record. The record goes first and the file after it. -/
theorem Life.Holds.file_of_expired (h : l.Holds cfg P v) (he : l.expired = true) :
    v.file = none := by
  cases hfile : v.file with
  | none => rfl
  | some rec =>
      obtain ⟨b, rfl⟩ := h.of_file hfile
      cases he

/-- **Completed files are immutable until they expire**: once a request has been answered with the
file of `id`, no step but those of a purge with a later cutoff changes its entry in `files` or the
bytes at its path; and the entry is only missing if some purge was there before. -/
theorem finished_file_kept (hreach : Reachable cfg P c) {th : Thread} {a : Answer}
    {f : FileResponse} (hth : c.threads[t]? = some th) (ha : th.answer? = some a)
    (hf : a.file? = some f) :
    (∀ d, (machine cfg).Run (fun c act => Arrivals P c act ∧ Spares f.fileID c act) c d →
      d.shared.files f.fileID = c.shared.files f.fileID ∧
        ∀ rec, c.shared.files f.fileID = some rec →
          d.shared.disk rec.path = c.shared.disk rec.path ∧ ∃ b, c.shared.disk rec.path = some b) ∧
      (c.shared.files f.fileID = none → ∃ th ∈ c.threads, ∃ r, th.request = .purge r) := by
  refine ⟨fun d hrun => ?_, fun hnone => ?_⟩
  · obtain ⟨l, hv, -⟩ := hreach.valid f.fileID
    -- the answer names a finished upload: its record is there or was purged before
    rcases Life.registered_or_expired (finished_of_answer hv hth ha hf rfl) with ⟨rec, b, rfl⟩ | he
    · have hv' := run_keeps_file hv hrun
      obtain ⟨-, -, -, hfin, hfile, -⟩ := hv.inv.holds
      obtain ⟨-, -, -, hfin', hfile', -⟩ := hv'.inv.holds
      have hpath := hv.inv.wf.file _ _ hfile
      refine ⟨hfile'.trans hfile.symm, fun rec' hrec => ?_⟩
      obtain rfl := Option.some.inj (hrec.symm.trans hfile)
      rw [hpath]
      exact ⟨hfin'.trans hfin.symm, b, hfin⟩
    · obtain ⟨l', hv', hmoves⟩ := Outline.valid_run (fun _ _ h => h.1) hv hrun
      have hnone : c.shared.files f.fileID = none := hv.inv.holds.file_of_expired he
      have hnone' : d.shared.files f.fileID = none :=
        hv'.inv.holds.file_of_expired (Life.Moves.expired hmoves he)
      refine ⟨hnone'.trans hnone.symm, fun rec hrec => ?_⟩
      rw [hnone] at hrec
      cases hrec
  · -- a record that is missing was expired, and only a purge expires
    obtain ⟨l, hv, hmoves⟩ := hreach.of_pool.valid f.fileID
    rcases Life.registered_or_expired (finished_of_answer hv hth ha hf rfl) with ⟨rec, b, rfl⟩ | he
    · cases (hv.inv.holds.2.2.2.2.1 : c.shared.files f.fileID = some rec).symm.trans hnone
    · obtain ⟨r, -, th', hmem, hr⟩ := hmoves.cause_of_expired he
      exact ⟨th', hmem, r, hr⟩

/-- The file of the run stays in every run from there that spares it. -/
theorem finished_file_kept_twoChunks : ∃ c, Reachable Sample.config (fun _ => True) c ∧
    (c.shared.files Sample.fileID).isSome = true ∧
      ∀ d, (machine Sample.config).Run
        (fun c act => Arrivals (fun _ => True) c act ∧ Spares Sample.fileID c act) c d →
        d.shared.files Sample.fileID = c.shared.files Sample.fileID := by
  have hanswer : ((machine Sample.config).execAll (boot 0) Sample.twoChunks).any fun c =>
      ((c.threads[2]?.bind Thread.answer?).bind Answer.file?).map FileResponse.fileID =
        some Sample.fileID ∧ (c.shared.files Sample.fileID).isSome := by
    decide +kernel
  obtain ⟨c, hexec, hanswer⟩ := Sample.exists_of_any hanswer
  obtain ⟨hf, hfile⟩ := of_decide_eq_true hanswer
  obtain ⟨f, hf, hid⟩ := Option.map_eq_some_iff.mp hf
  obtain ⟨a, ha, hf⟩ := Option.bind_eq_some_iff.mp hf
  obtain ⟨th, hth, ha⟩ := Option.bind_eq_some_iff.mp ha
  have hreach := Sample.reachable_twoChunks hexec
  refine ⟨c, hreach, hfile, fun d hrun => ?_⟩
  rw [← hid] at hrun ⊢
  exact ((finished_file_kept hreach hth ha hf).1 d hrun).1

/-! ## What is left behind -/

/-- **The directory and the indexes agree.** -/
structure Tidy (s : Server) : Prop where
  /-- Every file is the path of a record or of a session in `uploads`. -/
  indexed : ∀ p b, s.disk p = some b → (∃ id rec, s.files id = some rec ∧ rec.path = p) ∨
    ∃ id se, s.uploads id = true ∧ s.sessions id = some se ∧ se.path = p
  /-- Every record has its file. -/
  record : ∀ id rec, s.files id = some rec → ∃ b, s.disk rec.path = some b
  /-- Every session in `uploads` has its file. -/
  session : ∀ id, s.uploads id = true → ∃ se b, s.sessions id = some se ∧ s.disk se.path = some b

/-- No request is executing. -/
def Quiet (c : ThreadPool.Config Server Thread) : Prop := ∀ th ∈ c.threads, th.ended = true

/-- A request that has been handled has no part in any upload. -/
theorem Loc.idle_of_ended {th : Thread} (h : Loc cfg P id t l v th) (hend : th.ended = true) :
    Idle t l v := by
  obtain ⟨-, hloc⟩ := h
  cases th with
  | upload r pc =>
      cases pc with
      | done a => exact hloc.elsewhere nofun
      | start | create | copy | discard | register => cases hend
  | create r pc =>
      cases pc with
      | done a => exact hloc.elsewhere nofun
      | start | create | rename | unregister | register | store => cases hend
  | session r pc =>
      cases pc with
      | done a =>
          by_cases hid : r.id = id
          · exact (hloc.here hid).1
          · exact hloc.elsewhere hid
      | start | loadFile | lock | stat | openFile | copy | truncate | rename | unregister
      | register | deleteEntry | removeFile | unlock => cases hend
  -- a purge that has ended visits nothing
  | purge r cutoff pc =>
      cases pc with
      | done => exact hloc.elsewhere nofun
      | start | files | deleteRecord | removeRecord | uploads | lock | check | deleteEntry
      | removeFile | unlock => cases hend

/-- When no request is executing, nobody owns an upload or holds a mutex. -/
theorem Quiet.idle (hquiet : Quiet c) (hv : (outline cfg P id).Valid l c) :
    l.owner = none ∧ (c.shared.view id).mu = none := by
  have hidle : ∀ t, Idle t l (c.shared.view id) := by
    intro t
    cases hth : c.threads[t]? with
    | none => exact hv.fresh t (List.getElem?_eq_none_iff.mp hth)
    | some th => exact (hv.loc t th hth).idle_of_ended (hquiet th (List.mem_of_getElem? hth))
  constructor
  · by_contra hne
    obtain ⟨t, ht⟩ := Option.ne_none_iff_exists'.mp hne
    exact (hidle t).1 ht
  · by_contra hne
    obtain ⟨t, ht⟩ := Option.ne_none_iff_exists'.mp hne
    exact (hidle t).2 ht

/-- Only a failing creation or a failing `os.Remove` leaves an orphan. -/
theorem Life.Moves.cause_of_orphan (h : Life.Moves cfg P id .unused .orphan) :
    (∃ r, P (.create r) ∧ r.leaks cfg id) ∨ Strays P := by
  rcases Relation.ReflTransGen.cases_tail h with heq | ⟨l, -, hmove⟩
  · cases heq
  · cases hmove with
    | leak t hP hleak => exact .inl ⟨_, hP, hleak⟩
    | litter t hP hfail => exact .inr ⟨_, hP, hfail⟩

/-- The lives an upload can be in when no request is executing and `os.Remove` never fails. -/
theorem Quiet.life (hquiet : Quiet c) (hv : (outline cfg P id).Valid l c) (hstray : ¬Strays P) :
    l = .orphan ∨
      (c.shared.uploads id = false ∧ c.shared.files id = none ∧
        c.shared.disk (.part id) = none ∧ c.shared.disk (.final id) = none) ∨
      (∃ se b, c.shared.uploads id = true ∧ c.shared.sessions id = some se ∧
        c.shared.disk (.part id) = some b ∧ c.shared.disk (.final id) = none ∧
          c.shared.files id = none) ∨
      ∃ rec b, c.shared.files id = some rec ∧ c.shared.uploads id = false ∧
        c.shared.disk (.part id) = none ∧ c.shared.disk (.final id) = some b := by
  obtain ⟨hown, hmu⟩ := hquiet.idle hv
  have hholds := hv.inv.holds
  -- at rest no thread owns the life, so the lives under construction or removal are excluded
  cases l with
  | unused =>
      have hview : c.shared.view id = View.empty := hholds
      refine .inr (.inl ⟨?_, ?_, ?_, ?_⟩)
      · exact congrArg View.upload hview
      · exact congrArg View.file hview
      · exact congrArg View.part hview
      · exact congrArg View.final hview
  | live size b =>
      obtain ⟨-, hfin, hfile, -, -, hup, se, x, hse, -, hpart, -⟩ := hholds
      exact .inr (.inr (.inl ⟨se, _, hup.resolve_right hstray, hse, hpart, hfin, hfile⟩))
  | registered rec b =>
      obtain ⟨-, hup, hpart, hfin, hfile, -⟩ := hholds
      exact .inr (.inr (.inr ⟨rec, b, hfile, hup, hpart, hfin⟩))
  | expiring reaper => exact absurd (hholds.2.2.2.2.2 hown) hstray
  | reclaimed | gone =>
      obtain ⟨-, hup, hpart, hfin, hfile⟩ := hholds
      exact .inr (.inl ⟨hup, hfile, hpart, hfin⟩)
  | orphan => exact .inl rfl
  | building | dropped | sealed => cases hown

/-- A tidy server has no orphan. An orphan is a file that no index mentions, which is what tidiness
excludes. -/
theorem Tidy.not_orphan (htidy : Tidy s) (hw : s.Wf cfg) :
    ¬Life.Holds cfg P (s.view id) .orphan := by
  rintro ⟨-, hup, hfile, -, hdisk, -⟩
  have hnone : ∀ p : Path, p.id = id → s.disk p = none := by
    rintro p rfl
    by_contra hne
    obtain ⟨b, hb⟩ := Option.ne_none_iff_exists'.mp hne
    rcases htidy.indexed p b hb with ⟨id', rec, hrec, rfl⟩ | ⟨id', se, hup', hse, rfl⟩
    · rw [hw.file _ _ hrec] at hfile
      cases (hfile : s.files id' = none).symm.trans hrec
    · rw [(hw.session _ _ hse).1] at hup
      cases (hup : s.uploads id' = false).symm.trans hup'
  exact hdisk.elim (fun h => h (hnone (.part id) rfl)) fun h => h (hnone (.final id) rfl)

/-- A creation that leaks and has ended leaves an orphan. Its request has ended without an answer
that would name the file. -/
theorem orphan_of_leaks (hv : (outline cfg P id).Valid l c) {th : Thread} {r : CreateRequest}
    (hth : c.threads[t]? = some th) (hend : th.ended = true) (hr : th.request = .create r)
    (hleak : r.leaks cfg id) : l = .orphan := by
  have hloc := (hv.loc t th hth).2
  cases th with
  | create r' pc =>
      obtain rfl := Request.create.inj hr
      cases pc with
      | done a => exact hloc.leaked a rfl hleak
      | start | create | rename | unregister | register | store => cases hend
  | upload | session | purge => cases hr

/-- Without orphans, the directory and the indexes agree. When no request is under way, all other
lives have their files where the indexes say. -/
theorem tidy_of_not_orphan (hreach : Reachable cfg P c) (hquiet : Quiet c) (hstray : ¬Strays P)
    (horphan : ∀ id, ¬Life.Moves cfg P id .unused .orphan) : Tidy c.shared := by
  have hlife : ∀ id, c.shared.Wf cfg ∧ _ := fun id => by
    obtain ⟨l, hv, hmoves⟩ := hreach.valid id
    refine ⟨hv.inv.wf, (hquiet.life hv hstray).resolve_left ?_⟩
    rintro rfl
    exact horphan id hmoves
  refine ⟨fun p b hb => ?_, fun id rec hrec => ?_, fun id hup => ?_⟩
  · -- a file on the disk belongs to a live upload as its `.part`, or to a record
    obtain ⟨hw, hcases⟩ := hlife p.id
    rcases hcases with ⟨-, -, hpart, hfin⟩ | ⟨se, b', hup, hse, hpart, hfin, -⟩ |
      ⟨rec, b', hrec, -, hpart, hfin⟩
    · cases p with
      | part id => cases hpart.symm.trans hb
      | final id => cases hfin.symm.trans hb
    · cases p with
      | part id => exact .inr ⟨id, se, hup, hse, (hw.session _ _ hse).1⟩
      | final id => cases hfin.symm.trans hb
    · cases p with
      | part id => cases hpart.symm.trans hb
      | final id => exact .inl ⟨id, rec, hrec, hw.file _ _ hrec⟩
  · -- a record has its file
    obtain ⟨hw, hcases⟩ := hlife id
    rw [hw.file _ _ hrec]
    rcases hcases with ⟨-, hfile, -⟩ | ⟨-, -, -, -, -, -, hfile⟩ | ⟨-, b, -, -, -, hfin⟩
    · cases hfile.symm.trans hrec
    · cases hfile.symm.trans hrec
    · exact ⟨b, hfin⟩
  · -- an entry has its `.part` file
    obtain ⟨hw, hcases⟩ := hlife id
    rcases hcases with ⟨hup', -⟩ | ⟨se, b, -, hse, hpart, -⟩ | ⟨-, -, -, hup', -⟩
    · cases hup'.symm.trans hup
    · refine ⟨se, b, hse, ?_⟩
      rw [(hw.session _ _ hse).1]
      exact hpart
    · cases hup'.symm.trans hup

/-- **No file leaks and no dangling index, exactly when no creation leaks**: with a working
`os.Remove`, whenever no request is executing, the directory and the indexes agree if and only if
no request has created an empty file whose `os.Rename` failed after its `os.Create` succeeded. -/
theorem tidy_iff (hreach : Reachable cfg (fun r => ¬r.removeFails) c) (hquiet : Quiet c) :
    Tidy c.shared ↔ ∀ th ∈ c.threads, ∀ r id, th.request = .create r → ¬r.leaks cfg id := by
  constructor
  · rintro htidy th hth r id hr hleak
    obtain ⟨t, hth⟩ := List.mem_iff_getElem?.mp hth
    obtain ⟨l, hv, -⟩ := hreach.valid id
    obtain rfl := orphan_of_leaks hv hth (hquiet th (List.mem_of_getElem? hth)) hr hleak
    exact htidy.not_orphan hv.inv.wf hv.inv.holds
  · intro hnone
    have hstray : ¬Strays fun r => ¬r.removeFails ∧ ∃ th ∈ c.threads, th.request = r :=
      fun ⟨_, hP, hfail⟩ => hP.1 hfail
    refine tidy_of_not_orphan hreach.of_pool hquiet hstray fun id hmoves => ?_
    rcases hmoves.cause_of_orphan with ⟨r, ⟨-, th, hth, hr⟩, hleak⟩ | h
    · exact hnone th hth r id hr hleak
    · exact hstray h

/-- A quiet state at the end of the run, in which the directory is tidy. -/
theorem tidy_iff_twoChunks : ∃ c, Reachable Sample.config (fun r => ¬r.removeFails) c ∧ Quiet c ∧
    (Tidy c.shared ↔
      ∀ th ∈ c.threads, ∀ r id, th.request = .create r → ¬r.leaks Sample.config id) := by
  have hended : ((machine Sample.config).execAll (boot 0) Sample.twoChunks).any fun c =>
      c.threads.all Thread.ended := by
    decide +kernel
  obtain ⟨c, hexec, hall⟩ := Sample.exists_of_any hended
  have hquiet : Quiet c := List.all_eq_true.mp hall
  have hreach : Reachable Sample.config (fun r => ¬r.removeFails) c := by
    refine .of_execAll (fun th hth => ?_) hexec
    rcases Sample.twoChunks_requests hth with rfl | rfl | rfl
    · exact ⟨_, rfl, by rintro ⟨⟩⟩
    · exact ⟨_, rfl, by rintro ⟨⟩⟩
    · exact ⟨_, rfl, by rintro ⟨⟩⟩
  exact ⟨c, hreach, hquiet, tidy_iff hreach hquiet⟩

/-- An empty upload whose `os.Rename` fails. -/
def Sample.failingCreate : Schedule := arrive (create 0 { rename := true }) ++ sections 0 3

/-- After a failing creation of an empty upload, `UploadDir` holds a file no index mentions. -/
theorem not_tidy_failingCreate : ∃ c, Reachable Sample.config (fun r => ¬r.removeFails) c ∧
    Quiet c ∧ ¬Tidy c.shared := by
  have hleft : ((machine Sample.config).execAll (boot 0) Sample.failingCreate).any fun c =>
      c.threads.all Thread.ended ∧ c.shared.disk (.part Sample.fileID) = some [] ∧
        c.shared.uploads Sample.fileID = false := by
    decide +kernel
  obtain ⟨c, hexec, hleft⟩ := Sample.exists_of_any hleft
  obtain ⟨hall, hpart, hup⟩ := of_decide_eq_true hleft
  have hreach : Reachable Sample.config (fun r => ¬r.removeFails) c := by
    refine .of_execAll (fun th hth => ?_) hexec
    obtain rfl : th = (Sample.create 0 { rename := true }).thread := by
      simpa [Sample.failingCreate, arrive, sections] using hth
    exact ⟨_, rfl, by rintro ⟨⟩⟩
  refine ⟨c, hreach, List.all_eq_true.mp hall, fun htidy => ?_⟩
  obtain ⟨l, hv, -⟩ := hreach.valid Sample.fileID
  rcases htidy.indexed _ _ hpart with ⟨id, rec, hrec, hpath⟩ | ⟨id, se, hup', hse, hpath⟩
  · rw [hv.inv.wf.file _ _ hrec] at hpath
    cases hpath
  · rw [(hv.inv.wf.session _ _ hse).1] at hpath
    obtain rfl := Path.part.inj hpath
    cases hup.symm.trans hup'

end LanRoom.Upload
