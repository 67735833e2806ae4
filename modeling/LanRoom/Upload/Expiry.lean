import LanRoom.Upload.LateRequests

/-! # What a purge leaves behind

`purgeExpiredFiles` walks over two maps while uploads, downloads and other purges go on. The keys
are visited in no fixed order, a record is dropped in one section and its file removed in another,
and a session is checked only after its mutex has been waited for. `purge_complete` says that
nothing slips through: when a purge has ended, no file it has visited is left that was older than
the retention time when the purge began, and no session that has been idle for longer. -/

namespace LanRoom.Upload

open ThreadPool (Tid Outline)
open Function (update)

variable {cfg : Config} {P : Request → Prop} {id : FileID} {t : Tid} {l l' : Life} {s s' : Server}
  {c d : ThreadPool.Config Server Thread} {r : PurgeRequest} {bound : Time}

/-! ## What is still to be visited -/

/-- The keys of `files` that a purge has still to visit. -/
def PurgePC.filesLeft (r : PurgeRequest) : PurgePC → List (FileID × Bool)
  | .start => r.filesRange
  | .files rest => rest
  | .deleteRecord visit _ rest => visit :: rest
  | .removeRecord _ _ rest => rest
  | _ => []

/-- The keys of `uploads` that a purge has still to visit. -/
def PurgePC.uploadsLeft (r : PurgeRequest) : PurgePC → List (FileID × Bool)
  | .start | .files _ | .deleteRecord _ _ _ | .removeRecord _ _ _ => r.uploadsRange
  | .uploads rest => rest
  | .lock visit rest => visit :: rest
  | .check visit rest => visit :: rest
  | .deleteEntry visit rest => visit :: rest
  | .removeFile _ rest => rest
  | .unlock _ rest => rest
  | .done => []

/-- The first key is done with. What is still to be visited of an identifier lies behind it. -/
theorem mem_keys_of_ne {visit : FileID × Bool} {rest : List (FileID × Bool)}
    (h : id ∈ (visit :: rest).map Prod.fst) (hne : visit.1 ≠ id) : id ∈ rest.map Prod.fst := by
  rcases List.mem_cons.mp h with heq | h
  · exact absurd heq.symm hne
  · exact h

/-! ## The clock and the sessions -/

/-- A section does not turn the clock, and sets `updatedAt` of a session to its reading if at
all. -/
structure Touches (id : FileID) (s s' : Server) : Prop where
  now : s'.now = s.now
  session : ∀ se, s.sessions id = some se → ∃ se', s'.sessions id = some se' ∧
    (se'.updatedAt = se.updatedAt ∨ se'.updatedAt = s.now)

/-- A section that touches neither the clock nor a session. Most sections of the handlers are of
this kind. -/
theorem Touches.of_eq (hnow : s'.now = s.now) (hs : s'.sessions = s.sessions) :
    Touches id s s' where
  now := hnow
  session se hse := ⟨se, (congrFun hs id).trans hse, Or.inl rfl⟩

/-- A session that is filled in bears the time of the clock. It is the session of a new upload,
which counts as active from then on. -/
theorem touches_setSession (s : Server) (fid : FileID) {se' : UploadSession}
    (h : se'.updatedAt = s.now) : Touches id s (s.setSession fid se') where
  now := rfl
  session se hse := by
    by_cases hid : id = fid
    · subst hid
      exact ⟨se', s.sessions_setSession id se', Or.inr h⟩
    · exact ⟨se, (s.sessions_setSession_ne hid se').trans hse, Or.inl rfl⟩

/-- Locking a session does not change its time. Waiting for the lock is no activity. -/
theorem touches_setMu (s : Server) (fid : FileID) (mu : Option Tid) :
    Touches id s (s.setMu fid mu) where
  now := rfl
  session se hse := by
    by_cases hid : id = fid
    · subst hid
      refine ⟨{ se with mu }, ?_, Or.inl rfl⟩
      rw [Server.sessions_setMu, hse]
      rfl
    · exact ⟨se, (s.sessions_setMu_ne hid mu).trans hse, Or.inl rfl⟩

/-- Removing a file changes neither the clock nor a session. It is a change on the disk alone. -/
theorem touches_remove (s : Server) (fails : Bool) (p : Path) :
    Touches id s (s.remove fails p) := by
  cases fails with
  | true => exact .of_eq rfl rfl
  | false => exact .of_eq rfl rfl

/-- Storing a chunk renews the time of the session. The chunk bears the reading of the clock at
which it was stored. -/
theorem touches_storeChunk (s : Server) (fid : FileID) (se : UploadSession) (data : Bytes) :
    Touches id s (storeChunk s fid se data) :=
  ⟨rfl, (touches_setSession (s.append se.path data) fid rfl).session⟩

/-- Every section touches a session at most. The cases are those of the four handlers. -/
theorem touches_of_step {th th' : Thread} (h : th.step cfg t s = some (s', th')) :
    Touches id s s' := by
  cases th with
  | upload r pc =>
      obtain ⟨⟨s₁, pc'⟩, hsection, heq⟩ := Option.map_eq_some_iff.mp h
      cases heq
      cases UploadSection.of_step hsection with
      | refused | noID | issued | createFails | created | refusedCopy | copied | registered =>
          exact .of_eq rfl rfl
      -- the removal of a file does not touch a session
      | discarded => exact touches_remove ..
  | create r pc =>
      obtain ⟨⟨s₁, pc'⟩, hsection, heq⟩ := Option.map_eq_some_iff.mp h
      cases heq
      cases CreateSection.of_step hsection with
      | refused | noID | issued | createFails | renameFails | renamed | unregistered | registered
      | stored => exact .of_eq rfl rfl
      | createdEmpty | created => exact ⟨rfl, (touches_setSession (s.setDisk _ _) _ rfl).session⟩
  | session r pc =>
      obtain ⟨⟨s₁, pc'⟩, hsection, heq⟩ := Option.map_eq_some_iff.mp h
      cases heq
      cases SessionSection.of_step hsection with
      | notHex | missing | loaded | wrongMethod | finished | notFound | statFails | offset
      | conflict | continued | openFails | opened | truncated | renameFails | renamed
      | unregistered | registered | dropped => exact .of_eq rfl rfl
      | locked | lockedDelete | unlocked => exact touches_setMu ..
      -- a chunk renews `updatedAt`
      | tooLong | interrupted | full | stored => exact touches_storeChunk ..
      | removed => exact touches_remove ..
  | purge r cutoff pc =>
      obtain ⟨⟨s₁, cutoff', pc'⟩, hsection, heq⟩ := Option.map_eq_some_iff.mp h
      cases heq
      cases (PurgeSection.of_step hsection).1 with
      | began | filesDone | expired | fresh | recordDeleted | done | loaded | missing | stale
      | recent | dropped => exact .of_eq rfl rfl
      | locked | unlocked => exact touches_setMu ..
      | recordRemoved | removed => exact touches_remove ..

/-- Time does not go back. Sections do not turn the clock, and ticks only turn it forward. -/
theorem now_of_exec {act : ThreadPool.Act Thread Unit ℕ}
    (hexec : (machine cfg).exec c act = some d) :
    c.shared.now ≤ d.shared.now := by
  cases act with
  | spawn th =>
      obtain rfl := Option.some.inj hexec
      exact le_refl _
  | env e =>
      obtain rfl := Option.some.inj hexec
      exact le_add_of_nonneg_right (Int.natCast_nonneg e)
  | run u k =>
      obtain ⟨th, th', -, hstep, -⟩ := run_of_exec hexec
      have htouches : Touches [] c.shared d.shared := touches_of_step hstep
      exact htouches.now.ge

/-! ## The walk -/

/-- **A walk misses no key.** Let `left` be what a purge has still to visit and `S` what is to hold
of every key it has visited. If nothing breaks `S` and each section of the purge either leaves the
key for later or establishes `S`, then at every point of the run one of the two is so. -/
theorem purge_run (left : PurgePC → List (FileID × Bool)) {S : Server → Prop} {cutoff₀ : Time}
    (hv : (outline cfg P id).Valid l c) (hstart : c.threads[t]? = some (.purge r cutoff₀ .start))
    (hleft : id ∈ (left .start).map Prod.fst)
    (hstable : ∀ l' d e act, (outline cfg P id).Valid l' d → Life.Moves cfg P id l l' →
      c.shared.now ≤ d.shared.now → Arrivals P d act → (machine cfg).exec d act = some e →
      S d.shared → S e.shared)
    (hvisit : ∀ l' d s' cutoff cutoff' pc pc', (outline cfg P id).Valid l' d →
      Life.Moves cfg P id l l' → (pc ≠ .start → c.shared.now - r.ttl ≤ cutoff) →
      purgeStep t d.shared r cutoff pc = some (s', cutoff', pc') →
      id ∈ (left pc).map Prod.fst → id ∈ (left pc').map Prod.fst ∨ S s')
    (hrun : (machine cfg).Run (Arrivals P) c d) :
    c.shared.now ≤ d.shared.now ∧ ∃ cutoff pc, d.threads[t]? = some (.purge r cutoff pc) ∧
      (pc ≠ .start → c.shared.now - r.ttl ≤ cutoff) ∧
      (id ∈ (left pc).map Prod.fst ∨ S d.shared) := by
  induction hrun with
  | refl => exact ⟨le_refl _, cutoff₀, .start, hstart, fun h => absurd rfl h, Or.inl hleft⟩
  | @tail d e act hrun hok hexec ih =>
      obtain ⟨hnow, cutoff, pc, hth, hcut, hone⟩ := ih
      obtain ⟨l', hv', hmoves⟩ := Outline.valid_run (fun _ _ h => h) hv hrun
      refine ⟨hnow.trans (now_of_exec hexec), ?_⟩
      have hkept : S d.shared → S e.shared := hstable l' d e act hv' hmoves hnow hok hexec
      rcases (machine cfg).thread_after_exec hexec hth with hsame | ⟨k, th', fs, -, hstep, hth'⟩
      · exact ⟨cutoff, pc, hsame, hcut, hone.imp_right hkept⟩
      · obtain ⟨hstep, -⟩ := machine_step_iff.mp hstep
        obtain ⟨⟨s₁, cutoff', pc'⟩, hsection, heq⟩ := Option.map_eq_some_iff.mp hstep
        obtain ⟨hshared, rfl⟩ := Prod.mk.inj heq
        obtain rfl : s₁ = e.shared := hshared
        refine ⟨cutoff', pc', hth', fun _ => ?_, ?_⟩
        · -- the cutoff is computed by the first section, and kept by the others
          by_cases hpc : pc = .start
          · subst hpc
            obtain ⟨-, hcutoff⟩ := Prod.mk.inj (Option.some.inj hsection)
            rw [← (Prod.mk.inj hcutoff).1]
            exact sub_le_sub_right hnow r.ttl
          · rw [(PurgeSection.of_step hsection).2 hpc]
            exact hcut hpc
        · rcases hone with hmem | hS
          · exact hvisit l' d _ cutoff cutoff' pc pc' hv' hmoves hcut hsection hmem
          · exact Or.inr (hkept hS)

/-! ## Files -/

/-- A section of the purge leaves the record for later, or has dropped it. -/
theorem purgeStep_files {rec : FileRecord} {cutoff cutoff' : Time} {pc pc' : PurgePC}
    (h : purgeStep t s r cutoff pc = some (s', cutoff', pc'))
    (hfile : s.files id = none ∨ s.files id = some rec)
    (hcut : pc ≠ .start → rec.createdAt < cutoff)
    (hmem : id ∈ (pc.filesLeft r).map Prod.fst) :
    id ∈ (pc'.filesLeft r).map Prod.fst ∨ s'.files id = none := by
  cases pc with
  | start =>
      cases h
      exact Or.inl hmem
  | files visits =>
      cases visits with
      | nil => cases hmem
      | cons visit rest =>
          simp only [purgeStep] at h
          by_cases hid : visit.1 = id
          · -- the record of `id` is there or has been removed by another purge
            rcases hfile with hnone | hrec
            · rw [hid, hnone] at h
              cases h
              exact Or.inr hnone
            · rw [hid, hrec] at h
              simp only at h
              -- the cutoff was read after the record was created, so the record is judged expired
              rw [if_pos (hcut fun heq => by cases heq)] at h
              cases h
              exact Or.inl hmem
          · -- another entry is looked at, and `id` is still in the list
            have hrest : id ∈ rest.map Prod.fst := mem_keys_of_ne hmem hid
            cases hrec : s.files visit.1 with
            | none =>
                rw [hrec] at h
                cases h
                exact Or.inl hrest
            | some rec' =>
                rw [hrec] at h
                dsimp only at h
                split at h
                · cases h
                  exact Or.inl hmem
                · cases h
                  exact Or.inl hrest
  | deleteRecord visit rec' rest =>
      cases h
      by_cases hid : visit.1 = id
      · apply Or.inr
        subst hid
        exact Function.update_self ..
      · exact Or.inl (mem_keys_of_ne hmem hid)
  | removeRecord visit rec' rest =>
      cases h
      exact Or.inl hmem
  | uploads | lock | check | deleteEntry | removeFile | unlock | done => cases hmem

/-- A record that is gone does not come back. Its life has reached a state in which nothing is
registered again. -/
theorem files_none_exec {rec : FileRecord} {b : Bytes} {act : ThreadPool.Act Thread Unit ℕ}
    (hv : (outline cfg P id).Valid l' c) (hmoves : Life.Moves cfg P id (.registered rec b) l')
    (hok : Arrivals P c act) (hexec : (machine cfg).exec c act = some d)
    (h : c.shared.files id = none) : d.shared.files id = none := by
  rcases Life.Moves.registered hmoves with rfl | hexpired
  · cases (hv.inv.holds.2.2.2.2.1 : c.shared.files id = some rec).symm.trans h
  · obtain ⟨l'', hm⟩ := Outline.valid_exec hv hok hexec
    exact hm.valid.inv.holds.file_of_expired (Life.Moves.expired hm.moves hexpired)

/-! ## Sessions -/

/-- The session is not loadable any more, or has not been idle since `bound`. -/
def Active (id : FileID) (bound : Time) (s : Server) : Prop :=
  s.uploads id = false ∨ ∃ se, s.sessions id = some se ∧ bound ≤ se.updatedAt

/-- A section of the purge leaves the session for later, or has dropped it if it was idle. -/
theorem purgeStep_uploads {cutoff cutoff' : Time} {pc pc' : PurgePC}
    (h : purgeStep t s r cutoff pc = some (s', cutoff', pc'))
    (hsession : s.uploads id = true → ∃ se, s.sessions id = some se)
    (hcut : pc ≠ .start → bound ≤ cutoff)
    (hmem : id ∈ (pc.uploadsLeft r).map Prod.fst) :
    id ∈ (pc'.uploadsLeft r).map Prod.fst ∨ Active id bound s' := by
  cases pc with
  | start =>
      cases h
      exact Or.inl hmem
  | files visits =>
      cases visits with
      | nil =>
          cases h
          exact Or.inl hmem
      | cons visit rest =>
          simp only [purgeStep] at h
          cases hrec : s.files visit.1 with
          | none =>
              rw [hrec] at h
              cases h
              exact Or.inl hmem
          | some rec =>
              rw [hrec] at h
              dsimp only at h
              split at h
              · cases h
                exact Or.inl hmem
              · cases h
                exact Or.inl hmem
  | deleteRecord | removeRecord =>
      cases h
      exact Or.inl hmem
  | uploads visits =>
      cases visits with
      | nil => cases hmem
      | cons visit rest =>
          simp only [purgeStep] at h
          cases hload : s.load visit.1 with
          | some se =>
              rw [hload] at h
              cases h
              exact Or.inl hmem
          -- no entry any more: the upload was finished, cancelled or purged meanwhile
          | none =>
              rw [hload] at h
              cases h
              by_cases hid : visit.1 = id
              · subst hid
                apply Or.inr
                apply Or.inl
                cases hup : s.uploads visit.1 with
                | false => rfl
                | true =>
                    obtain ⟨se, hse⟩ := hsession hup
                    cases hload.symm.trans (Server.load_eq_some s |>.mpr ⟨hup, hse⟩)
              · exact Or.inl (mem_keys_of_ne hmem hid)
  | lock visit rest =>
      obtain ⟨se, -, h⟩ := Option.bind_eq_some_iff.mp h
      split at h
      · cases h
      · cases h
        exact Or.inl hmem
  | check visit rest =>
      obtain ⟨se, hse, h⟩ := Option.bind_eq_some_iff.mp h
      split at h
      · cases h
        exact Or.inl hmem
      · -- not expired: it was used after the bound
        rename_i hrecent
        cases h
        by_cases hid : visit.1 = id
        · subst hid
          exact Or.inr (Or.inr ⟨se, hse, (hcut fun heq => by cases heq).trans (not_lt.mp hrecent)⟩)
        · exact Or.inl (mem_keys_of_ne hmem hid)
  -- this purge drops the entry
  | deleteEntry visit rest =>
      cases h
      by_cases hid : visit.1 = id
      · subst hid
        exact Or.inr (Or.inl (Function.update_self ..))
      · exact Or.inl (mem_keys_of_ne hmem hid)
  | removeFile visit rest =>
      obtain ⟨se, -, h⟩ := Option.bind_eq_some_iff.mp h
      cases h
      exact Or.inl hmem
  | unlock visit rest =>
      cases h
      exact Or.inl hmem
  | done => cases hmem

/-- Nothing makes an active session idle. Its time only grows, and a session that is not loadable
any more does not become so again. -/
theorem active_exec {act : ThreadPool.Act Thread Unit ℕ} (hv : (outline cfg P id).Valid l c)
    (hp : l.published = true) (hbound : bound ≤ c.shared.now)
    (hexec : (machine cfg).exec c act = some d) (h : Active id bound c.shared) :
    Active id bound d.shared := by
  rcases h with hup | ⟨se, hse, hle⟩
  · exact Or.inl (uploads_exec hv hp hexec hup)
  · apply Or.inr
    cases act with
    | spawn th =>
        obtain rfl := Option.some.inj hexec
        exact ⟨se, hse, hle⟩
    | env e =>
        obtain rfl := Option.some.inj hexec
        exact ⟨se, hse, hle⟩
    | run u k =>
        obtain ⟨th, th', -, hstep, -⟩ := run_of_exec hexec
        obtain ⟨se', hse', hkept | hset⟩ := (touches_of_step hstep).session se hse
        · exact ⟨se', hse', hle.trans hkept.ge⟩
        · exact ⟨se', hse', hbound.trans hset.ge⟩

/-! ## The whole purge -/

/-- A purge that has ended is at its end. What it has visited by then is everything it was going to
visit. -/
theorem PurgePC.eq_done {cutoff : Time} {pc : PurgePC}
    (h : (Thread.purge r cutoff pc).ended = true) : pc = .done := by
  cases pc with
  | done => rfl
  | start | files | deleteRecord | removeRecord | uploads | lock | check | deleteEntry | removeFile
  | unlock => cases h

/-- **A purge misses nothing that has expired.** Let a purge begin in `c` and have ended in `d`,
with any other requests and purges in between. Every file it has visited that was older than the
retention time when it began is gone from `files`; and every upload that it has visited is gone from
`uploads`, unless its session has been used within the retention time before the purge began, or
since. (`config.Retention` is never negative.) -/
theorem purge_complete {th : Thread} (hreach : Reachable cfg P c) (httl : 0 ≤ r.ttl)
    (hstart : c.threads[t]? = some (Request.purge r).thread)
    (hrun : (machine cfg).Run (Arrivals P) c d) (hth : d.threads[t]? = some th)
    (hended : th.ended = true) :
    (∀ id ∈ r.filesRange.map Prod.fst, ∀ rec, c.shared.files id = some rec →
      rec.createdAt + r.ttl < c.shared.now → d.shared.files id = none) ∧
    ∀ id ∈ r.uploadsRange.map Prod.fst, c.shared.uploads id = true → d.shared.uploads id = false ∨
      ∃ se, d.shared.sessions id = some se ∧ c.shared.now ≤ se.updatedAt + r.ttl := by
  constructor
  · intro id hid rec hrec hold
    obtain ⟨b, hv, -⟩ := hreach.of_file hrec
    -- a record that is gone stays gone
    have hstable : ∀ l' d e act, (outline cfg P id).Valid l' d →
        Life.Moves cfg P id (.registered rec b) l' → c.shared.now ≤ d.shared.now →
        Arrivals P d act → (machine cfg).exec d act = some e →
        d.shared.files id = none → e.shared.files id = none :=
      fun l' d e act hv' hmoves _ hok hexec => files_none_exec hv' hmoves hok hexec
    -- as long as the record is there it is the one that was expired at the start
    have hvisit : ∀ l' d s' cutoff cutoff' pc pc', (outline cfg P id).Valid l' d →
        Life.Moves cfg P id (.registered rec b) l' →
        (pc ≠ .start → c.shared.now - r.ttl ≤ cutoff) →
        purgeStep t d.shared r cutoff pc = some (s', cutoff', pc') →
        id ∈ (pc.filesLeft r).map Prod.fst →
          id ∈ (pc'.filesLeft r).map Prod.fst ∨ s'.files id = none := by
      intro l' d s' cutoff cutoff' pc pc' hv' hmoves hcut hstep hmem
      have hfile : d.shared.files id = none ∨ d.shared.files id = some rec := by
        rcases Life.Moves.registered hmoves with rfl | hexpired
        · exact Or.inr hv'.inv.holds.2.2.2.2.1
        · exact Or.inl (hv'.inv.holds.file_of_expired hexpired)
      exact purgeStep_files hstep hfile
        (fun hpc => (lt_sub_iff_add_lt.mpr hold).trans_le (hcut hpc)) hmem
    obtain ⟨-, cutoff, pc, hpurge, -, hone⟩ :=
      purge_run (PurgePC.filesLeft r) hv hstart hid hstable hvisit hrun
    obtain rfl := Option.some.inj (hpurge.symm.trans hth)
    obtain rfl := PurgePC.eq_done hended
    rcases hone with hmem | hnone
    · cases hmem
    · exact hnone
  · intro id hid hup
    obtain ⟨l, hv, -⟩ := hreach.valid id
    have hp : l.published = true := (hv.inv.holds.of_upload hup).1
    -- an upload that is no longer listed stays so, and `updatedAt` only grows
    have hstable : ∀ l' d e act, (outline cfg P id).Valid l' d → Life.Moves cfg P id l l' →
        c.shared.now ≤ d.shared.now → Arrivals P d act → (machine cfg).exec d act = some e →
        Active id (c.shared.now - r.ttl) d.shared → Active id (c.shared.now - r.ttl) e.shared :=
      fun l' d e act hv' hmoves hnow _ hexec =>
        active_exec hv' (Life.Moves.published hmoves hp) ((sub_le_self _ httl).trans hnow) hexec
    obtain ⟨-, cutoff, pc, hpurge, -, hone⟩ :=
      purge_run (PurgePC.uploadsLeft r) hv hstart hid hstable
        (fun l' d s' x x' pc pc' hv' _ hcut hstep hmem =>
          purgeStep_uploads hstep (fun hup' => hv'.inv.holds.session_of_upload hup') hcut hmem) hrun
    obtain rfl := Option.some.inj (hpurge.symm.trans hth)
    obtain rfl := PurgePC.eq_done hended
    rcases hone with hmem | hnone | ⟨se, hse, hle⟩
    · cases hmem
    · exact Or.inl hnone
    · exact Or.inr ⟨se, hse, sub_le_iff_le_add.mp hle⟩

/-- A purge of what is older than ten nanoseconds. -/
def Sample.purge : PurgeRequest :=
  { ttl := 10, filesRange := [(fileID, false)], uploadsRange := [] }

/-- The sample upload is finished, and time passes. -/
def Sample.aged : Schedule := twoChunks ++ [.env 20]

/-- A file that has expired is purged by a tick of the timer. -/
theorem Sample.aged_purged : ((machine config).execAll (boot 0) aged).any fun c =>
    c.threads.length = 4 ∧ c.shared.now = 20 ∧
      (c.shared.files fileID).map FileRecord.createdAt = some 0 ∧
      (((machine config).execAll c (arrive (.purge purge) ++ sections 4 6)).bind fun d =>
        d.threads[4]?.map Thread.ended) = some true := by
  decide +kernel

/-- The run up to the tick is one of those the theorem speaks of. -/
theorem Sample.reachable_aged {c : ThreadPool.Config Server Thread}
    (h : (machine config).execAll (boot 0) aged = some c) :
    Reachable config (fun _ => True) c := by
  refine .of_execAll (fun th hth => ?_) h
  have hth : .spawn th ∈ twoChunks := by simpa [aged] using hth
  rcases twoChunks_requests hth with rfl | rfl | rfl
  · exact ⟨_, rfl, trivial⟩
  · exact ⟨_, rfl, trivial⟩
  · exact ⟨_, rfl, trivial⟩

/-- The record of the expired file is gone when the purge has ended. -/
theorem purge_complete_aged : ∃ c d : ThreadPool.Config Server Thread,
    Reachable Sample.config (fun _ => True) c ∧
    (machine Sample.config).Run (Arrivals fun _ => True) c d ∧
    (c.shared.files Sample.fileID).isSome = true ∧ d.shared.files Sample.fileID = none := by
  obtain ⟨c, hexec, h⟩ := Sample.exists_of_any Sample.aged_purged
  obtain ⟨hlength, hnow, hcreated, hended⟩ := of_decide_eq_true h
  obtain ⟨rec, hrec, hzero⟩ := Option.map_eq_some_iff.mp hcreated
  obtain ⟨d, hpurged, hth⟩ := Option.bind_eq_some_iff.mp hended
  obtain ⟨th, hth, hended⟩ := Option.map_eq_some_iff.mp hth
  -- the purge arrives
  let c' : ThreadPool.Config Server Thread :=
    ⟨c.shared, c.threads ++ [(Request.purge Sample.purge).thread]⟩
  have hpurged : (machine Sample.config).execAll c' (sections 4 6) = some d := hpurged
  have hreach : Reachable Sample.config (fun _ => True) c' := by
    obtain ⟨now, hrun⟩ := Sample.reachable_aged hexec
    refine ⟨now, .tail hrun (a := .spawn (Request.purge Sample.purge).thread) ?_ rfl⟩
    rintro th ⟨⟩
    exact ⟨_, rfl, trivial⟩
  have hstart : c'.threads[4]? = some (Request.purge Sample.purge).thread := by
    rw [← hlength]
    exact List.getElem?_concat_length
  have hrun : (machine Sample.config).Run (Arrivals fun _ => True) c' d := by
    refine ThreadPool.Machine.Run.of_execAll (fun _ act hact => ?_) hpurged
    rintro th rfl
    cases List.eq_of_mem_replicate hact
  have hold : rec.createdAt + Sample.purge.ttl < c'.shared.now := by
    show rec.createdAt + 10 < c.shared.now
    rw [hzero, hnow]
    decide
  refine ⟨c', d, hreach, hrun, ?_, ?_⟩
  · show (c.shared.files Sample.fileID).isSome = true
    rw [hrec]
    rfl
  · exact (purge_complete hreach (by decide) hstart hrun hth hended).1 _ List.mem_cons_self rec hrec
      hold

end LanRoom.Upload
