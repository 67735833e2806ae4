import LanRoom.Upload.Outline

/-! # What is stored is what was sent

Two consequences of the outline about the stored bytes. If every `PUT` of a session carries a piece
of one source at its declared offset, the finished file is that source, whatever is duplicated,
reordered, cut off or rejected on the way (`file_eq_source`). And in every reachable state the
sizes, offsets and indexes of the server agree with the bytes on disk (`stored_bytes_consistent`). -/

namespace LanRoom.Upload

open ThreadPool (Tid Outline)
open Relation (ReflTransGen)

variable {cfg : Config} {P : Request → Prop} {id : FileID} {l l' : Life}
  {c d : ThreadPool.Config Server Thread}

/-! ## The finished file is the source -/

/-- The request, as far as it concerns `id`, belongs to the resumable upload of `source`: `id` is
created with the size of `source`, and a `PUT` that declares an offset carries the bytes of
`source` from there on, as many as it likes. -/
def Request.carries (source : Bytes) (id : FileID) : Request → Prop
  | .upload r => ∀ rand, r.rand = some rand → randomID rand ≠ id
  | .create r => ∀ body rand, r.body = some body → r.rand = some rand → randomID rand = id →
      body.size = source.length
  | .session r => r.id = id → r.method = .put → ∀ offset : ℕ,
      Go.parseInt r.offset = some (offset : ℤ) → ∃ k, r.body = (source.drop offset).take k
  | .purge _ => True

/-- The bytes stored so far are the beginning of `source`, and all of it once they are complete. -/
def Life.Stores (source : Bytes) : Life → Prop
  | .live size b => size = source.length ∧ b <+: source
  | .dropped _ size b => size = source.length ∧ b <+: source
  | .sealed _ b => b = source
  | .registered _ b => b = source
  | _ => True

/-- The body `checkCreate` passes is the one of the request. The checks accept or refuse, they do
not change what was sent. -/
theorem body_of_checkCreate {r : CreateRequest} {body : CreateBody}
    (h : checkCreate cfg r = .ok body) : r.body = some body := by
  rw [checkCreate] at h
  split at h
  · cases h
  · cases hbody : r.body with
    | none =>
        rw [hbody] at h
        cases h
    | some body' =>
        rw [hbody] at h
        dsimp only at h
        split at h
        · cases h
        · split at h <;> cases h
          rfl

/-- Appending a first piece of the source's rest to a beginning of the source. -/
theorem append_isPrefix {source b x : Bytes} {k : ℕ} (hb : b <+: source)
    (hx : x <+: (source.drop b.length).take k) : b ++ x <+: source := by
  obtain ⟨rest, rfl⟩ := hb
  rw [List.drop_left] at hx
  exact (List.prefix_append_right_inj b).mpr (hx.trans (List.take_prefix k rest))

/-- A beginning of the source as long as the source is the source. -/
theorem eq_of_isPrefix_of_length {source b : Bytes} (hb : b <+: source)
    (hlen : (b.length : ℤ) = source.length) : b = source :=
  hb.eq_of_length (by exact_mod_cast hlen)

/-- One move of an upload of `source` keeps `Life.Stores`. The case that matters is a chunk: it is
appended where the source goes on. -/
theorem Life.Move.stores {source : Bytes} (h : Life.Move cfg (Request.carries source id) id l l')
    (hl : l.Stores source) : l'.Stores source := by
  cases h with
  | issue | abandon | leak | litter | cancel | expire | reclaim | stray => trivial
  | publish t hP hbody hrand hid hpos hmax =>
      exact ⟨hP _ _ (body_of_checkCreate hbody) hrand hid, List.nil_prefix⟩
  | finishEmpty t hP hbody hrand hid hsize hrec =>
      have hlen := hP _ _ (body_of_checkCreate hbody) hrand hid
      rw [hsize] at hlen
      exact (List.eq_nil_of_length_eq_zero (by exact_mod_cast hlen.symm)).symm
  | finishForm t hP hrand hid hrec => exact absurd hid (hP _ hrand)
  | append hP hid hput hoff hx hsize =>
      obtain ⟨k, hbody⟩ := hP hid hput _ hoff
      rw [hbody] at hx
      exact ⟨hl.1, append_isPrefix hl.2 hx⟩
  | complete t hfull => exact eq_of_isPrefix_of_length hl.2 (hfull.trans hl.1)
  | register hrec => exact hl
  | drop t => exact hl
  | keep => exact hl

/-- Any number of moves of an upload of `source` keeps `Life.Stores`. -/
theorem Life.Moves.stores {source : Bytes} (h : Life.Moves cfg (Request.carries source id) id l l')
    (hl : l.Stores source) : l'.Stores source := by
  induction h with
  | refl => exact hl
  | tail _ hmove ih => exact hmove.stores ih

/-- A registered file is on disk with the size of its record. -/
theorem Reachable.of_file (h : Reachable cfg P c) {rec : FileRecord}
    (hrec : c.shared.files id = some rec) :
    ∃ b, (outline cfg P id).Valid (.registered rec b) c ∧
      Life.Moves cfg P id .unused (.registered rec b) ∧ rec.path = .final id ∧
      c.shared.disk rec.path = some b := by
  obtain ⟨l, hv, hmoves⟩ := h.valid id
  obtain ⟨b, rfl⟩ := hv.inv.holds.of_file hrec
  have hpath := hv.inv.wf.file _ _ hrec
  refine ⟨b, hv, hmoves, hpath, ?_⟩
  rw [hpath]
  exact hv.inv.holds.2.2.2.1

/-- **Resumable uploads are faithful**: if the requests on `id` upload `source`, in any order, with
any duplicates and with every copy cut off anywhere, then the file registered under `id` holds
exactly `source`. -/
theorem file_eq_source {source : Bytes} (hreach : Reachable cfg (Request.carries source id) c)
    {rec : FileRecord} (hrec : c.shared.files id = some rec) :
    rec.size = source.length ∧ c.shared.disk rec.path = some source := by
  obtain ⟨b, hv, hmoves, -, hdisk⟩ := hreach.of_file hrec
  obtain rfl : b = source := hmoves.stores trivial
  exact ⟨hv.inv.holds.2.2.2.2.2.1, hdisk⟩

/-- Three bytes sent as a chunk of two and a chunk of one, which arrives twice. -/
def Sample.twoChunks : Schedule :=
  arrive (create 3) ++ sections 0 3 ++ arrive (session .put [0x30] [1, 2]) ++ sections 1 6 ++
    arrive (session .put [0x32] [3]) ++ arrive (session .put [0x32] [3]) ++ sections 2 9 ++
    sections 3 2

/-- The requests of the run, which all carry parts of one source. -/
theorem Sample.twoChunks_requests {th : Thread} (h : .spawn th ∈ twoChunks) :
    th = (create 3).thread ∨ th = (session .put [0x30] [1, 2]).thread ∨
      th = (session .put [0x32] [3]).thread := by
  simpa [twoChunks, arrive, sections] using h

/-- The run ends with the file registered. It is run by evaluation. -/
theorem Sample.twoChunks_finished :
    ((machine config).execAll (boot 0) twoChunks).any fun c => (c.shared.files fileID).isSome := by
  decide

/-- The file of the run has the three bytes of its source. They arrived in two chunks of different
lengths. -/
theorem file_eq_source_twoChunks : ∃ c rec,
    Reachable Sample.config (Request.carries [1, 2, 3] Sample.fileID) c ∧
      c.shared.files Sample.fileID = some rec ∧ c.shared.disk rec.path = some [1, 2, 3] := by
  obtain ⟨c, hexec, hfile⟩ := Sample.exists_of_any Sample.twoChunks_finished
  obtain ⟨rec, hrec⟩ := Option.isSome_iff_exists.mp hfile
  have hreach : Reachable Sample.config (Request.carries [1, 2, 3] Sample.fileID) c := by
    refine .of_execAll (fun th hth => ?_) hexec
    have hzero : Go.parseInt [0x30] = some 0 := by decide
    have htwo : Go.parseInt [0x32] = some 2 := by decide
    rcases Sample.twoChunks_requests hth with rfl | rfl | rfl
    · refine ⟨_, rfl, ?_⟩
      rintro body rand ⟨⟩ - -
      rfl
    · refine ⟨_, rfl, fun _ _ offset hoff => ⟨2, ?_⟩⟩
      obtain rfl : 0 = offset := by exact_mod_cast Option.some.inj (hzero.symm.trans hoff)
      rfl
    · refine ⟨_, rfl, fun _ _ offset hoff => ⟨1, ?_⟩⟩
      obtain rfl : 2 = offset := by exact_mod_cast Option.some.inj (htwo.symm.trans hoff)
      rfl
  exact ⟨c, rec, hreach, hrec, (file_eq_source hreach hrec).2⟩

/-- The sample upload is reachable without a condition on the requests. -/
theorem Sample.reachable_twoChunks {c : ThreadPool.Config Server Thread}
    (h : (machine config).execAll (boot 0) twoChunks = some c) :
    Reachable config (fun _ => True) c := by
  refine .of_execAll (fun th hth => ?_) h
  rcases twoChunks_requests hth with rfl | rfl | rfl <;> exact ⟨_, rfl, trivial⟩

/-! ## Sizes, offsets and indexes agree with the disk -/

/-- **The state of the server agrees with the bytes on disk.** -/
structure Consistent (cfg : Config) (c : ThreadPool.Config Server Thread) : Prop where
  /-- While `sess.mu` is free, a `.part` file is no longer than declared and allowed. -/
  part_le : ∀ id se b, c.shared.sessions id = some se → se.mu = none →
    c.shared.disk se.path = some b →
      (b.length : ℤ) ≤ se.size ∧ (b.length : ℤ) ≤ cfg.maxUploadBytes ∧ 0 ≤ chunkLimit se b.length
  /-- The limit `putChunk` works with is never negative. -/
  limit_nonneg : ∀ (t : Tid) (r : SessionRequest) (pc : SessionPC) current se,
    c.threads[t]? = some (.session r pc) → (pc = .openFile current ∨ pc = .copy current) →
      c.shared.sessions r.id = some se → 0 ≤ chunkLimit se current
  /-- No identifier is at once an upload in progress and a finished file. -/
  exclusive : ∀ id, c.shared.uploads id = true → c.shared.files id = none
  /-- The size of every record is the length of its file. -/
  record : ∀ id rec, c.shared.files id = some rec →
    ∃ b, c.shared.disk rec.path = some b ∧ rec.size = b.length ∧ rec.size ≤ cfg.maxUploadBytes

/-- The offset is the number of bytes stored for `id` while thread `t` holds `sess.mu`, or the
size of the finished file. -/
def OffsetAt (s : Server) (t : Tid) (id : FileID) (offset : ℤ) : Prop :=
  (∃ se b, s.sessions id = some se ∧ se.mu = some t ∧ s.disk se.path = some b ∧
      offset = b.length) ∨
    ∃ rec, s.files id = some rec ∧ offset = rec.size

/-- What may be stored while `sess.mu` is free. It is the declared size of the session, and while it
is free no chunk is half written. -/
theorem Life.Holds.part_le {s : Server} {se : UploadSession} {b : Bytes} (hw : s.Wf cfg)
    (h : l.Holds cfg P (s.view id)) (hse : s.sessions id = some se) (hmu : se.mu = none)
    (hb : s.disk (.part id) = some b) : (b.length : ℤ) ≤ se.size := by
  have hpos := (hw.session _ _ hse).2.1
  have hpart : (s.view id).part = some b := hb
  have hempty : (∀ b', (s.view id).part = some b' → b' = []) → (b.length : ℤ) ≤ se.size := by
    intro hnil
    rw [hnil b hb]
    exact hpos
  cases l with
  | unused =>
      rw [show s.view id = View.empty from h] at hpart
      cases hpart
  -- before the entry is published the file is empty
  | building => exact hempty h.2.2.2.1
  | orphan => exact hempty h.2.2.2.1
  -- a live upload nobody writes to has exactly the accepted bytes in its file
  | live size b' =>
      obtain ⟨-, -, -, -, hlen, -, se', x, hse', rfl, hpart', hx⟩ := h
      obtain rfl := Option.some.inj (hse.symm.trans hse')
      rw [hx hmu, List.append_nil] at hpart'
      obtain rfl := Option.some.inj (hpart.symm.trans hpart')
      exact hlen
  -- a thread still holds the mutex of these two
  | dropped u size b' =>
      obtain ⟨-, -, -, -, -, -, -, se', hse', -, hmu'⟩ := h
      obtain rfl := Option.some.inj (hse.symm.trans hse')
      cases hmu.symm.trans hmu'
  | sealed u b' => cases hpart.symm.trans h.2.1
  | registered | expiring | reclaimed | gone => cases hpart.symm.trans h.2.2.1

/-- A chunk limit computed from at most the declared size is not negative. -/
theorem chunkLimit_nonneg {se : UploadSession} {current : ℤ} (h : current ≤ se.size) :
    0 ≤ chunkLimit se current := by
  rw [chunkLimit, uploadChunkSize]
  omega

/-- Every reachable configuration is consistent. Each field is read off the invariant for one
identifier. -/
theorem Reachable.consistent (h : Reachable cfg P c) : Consistent cfg c where
  part_le id se b hse hmu hb := by
    obtain ⟨l, hv, -⟩ := h.valid id
    obtain ⟨hpath, -, hmax⟩ := hv.inv.wf.session _ _ hse
    rw [hpath] at hb
    have hle := hv.inv.holds.part_le hv.inv.wf hse hmu hb
    exact ⟨hle, hle.trans hmax, chunkLimit_nonneg hle⟩
  -- between opening and copying the thread holds the mutex of a live upload
  limit_nonneg t r pc current se hth hpc hse := by
    obtain ⟨l, hv, -⟩ := h.valid r.id
    have hat := (hv.loc t _ hth).2.here rfl
    obtain ⟨se', b, hh, rfl, rfl, -⟩ : ∃ se b, Held t l (c.shared.view r.id) se ∧
        l = .live se.size b ∧ current = b.length ∧ Go.parseInt r.offset = some current ∧
          r.method = .put := by
      rcases hpc with rfl | rfl <;> exact hat
    obtain rfl := Option.some.inj (hse.symm.trans hh.session)
    exact chunkLimit_nonneg hv.inv.holds.2.2.2.2.1
  -- an identifier with a record is no longer listed
  exclusive id hup := by
    obtain ⟨l, hv, -⟩ := h.valid id
    cases hrec : c.shared.files id with
    | none => rfl
    | some rec =>
        obtain ⟨b, rfl⟩ := hv.inv.holds.of_file hrec
        cases (hv.inv.holds.of_upload hup).2
  record id rec hrec := by
    obtain ⟨b, hv, -, -, hdisk⟩ := h.of_file hrec
    obtain ⟨-, -, -, -, -, hsize, hmax⟩ := hv.inv.holds
    exact ⟨b, hdisk, hsize, hmax⟩

/-- A session that can be loaded while its mutex is free is live, with all its bytes accepted. -/
theorem live_of_upload {s : Server} {se : UploadSession} (h : l.Holds cfg P (s.view id))
    (hup : s.uploads id = true) (hse : s.sessions id = some se) (hmu : se.mu = none) :
    ∃ b, l = .live se.size b ∧ s.disk (.part id) = some b := by
  obtain ⟨hp, hc⟩ := h.of_upload hup
  rcases h.settled hp hse (by simp [hmu]) with ⟨b, rfl⟩ | hc'
  · obtain ⟨-, -, -, -, -, -, se', x, hse', -, hpart, hx⟩ := h
    obtain rfl := Option.some.inj (hse.symm.trans hse')
    rw [hx hmu, List.append_nil] at hpart
    exact ⟨b, rfl, hpart⟩
  · cases hc.symm.trans hc'

/-- The bytes of a session only grow, as seen while its mutex is free. -/
theorem Reachable.part_mono (h : Reachable cfg P c) (hrun : (machine cfg).Run (Arrivals P) c d)
    {se se' : UploadSession} {b b' : Bytes} (hup : c.shared.uploads id = true)
    (hse : c.shared.sessions id = some se) (hmu : se.mu = none)
    (hb : c.shared.disk se.path = some b) (hup' : d.shared.uploads id = true)
    (hse' : d.shared.sessions id = some se') (hmu' : se'.mu = none)
    (hb' : d.shared.disk se'.path = some b') : b <+: b' := by
  obtain ⟨l, hv, -⟩ := h.valid id
  obtain ⟨l', hv', hmoves⟩ := Outline.valid_run (fun _ _ h => h) hv hrun
  rw [(hv.inv.wf.session _ _ hse).1] at hb
  rw [(hv'.inv.wf.session _ _ hse').1] at hb'
  obtain ⟨b₁, rfl, hb₁⟩ := live_of_upload hv.inv.holds hup hse hmu
  obtain ⟨b₂, rfl, hb₂⟩ := live_of_upload hv'.inv.holds hup' hse' hmu'
  obtain rfl := Option.some.inj (hb.symm.trans hb₁)
  obtain rfl := Option.some.inj (hb'.symm.trans hb₂)
  rcases Life.Moves.live hmoves with ⟨b₃, hpre, heq | ⟨_, heq⟩⟩ | ⟨_, _, heq⟩ | hc
  · obtain ⟨-, rfl⟩ := Life.live.inj heq
    exact hpre
  · cases heq
  · cases heq
  · cases hc

/-- The section that decides on an answer computes its offset from what is stored. -/
theorem SessionSection.offsetAt {t : Tid} {s s' : Server} {r : SessionRequest} {pc pc' : SessionPC}
    {status : ℕ} {body : UploadStateResponse} (h : SessionSection t s r pc s' pc')
    (hinv : Inv cfg P r.id l s) (hat : SessionAt t l (s.view r.id) r pc)
    (hnew : pc.answer? = none) (ha : pc'.answer? = some (.state status body)) :
    OffsetAt s' t r.id body.offset := by
  cases h with
  | missing | loaded | locked | lockedDelete | continued | opened | tooLong | full | renamed
  | unregistered | dropped | notHex | wrongMethod | notFound | statFails | openFails | interrupted
  | truncated | renameFails | removed => cases ha
  | unlocked => cases hnew
  -- the size in the record is that of the finished file
  | finished hrec =>
      cases ha
      exact .inr ⟨_, hrec, rfl⟩
  -- the file is measured under the mutex
  | offset hse hb | conflict hse hb =>
      cases ha
      obtain ⟨se, hh, -⟩ := hat
      obtain rfl := Option.some.inj (hh.session.symm.trans hse)
      exact .inl ⟨se, _, hse, hh.mu, hb, rfl⟩
  -- the offset after a chunk counts the bytes before it and those copied
  | stored data hse =>
      cases ha
      obtain ⟨se, b, hh, rfl, rfl, -⟩ := hat
      obtain rfl := Option.some.inj (hh.session.symm.trans hse)
      have hpath := (hinv.wf.session _ _ hse).1
      obtain ⟨-, hpart⟩ := storeChunk_sound data hinv hh
      refine .inl ⟨_, b ++ data, Server.sessions_setSession .., hh.mu, ?_, ?_⟩
      · rw [hpath]
        exact hpart
      · rw [List.length_append, Nat.cast_add]
  -- the last chunk: the record is stored in the same section as the answer is fixed
  | @registered newOffset se hse =>
      cases ha
      obtain ⟨se', b, hse', -, -, -, hsize, -⟩ := hat
      obtain rfl := Option.some.inj (hse'.symm.trans hse)
      exact .inr ⟨_, Function.update_self .., hsize⟩

/-- An answer that has been decided on is given. The sections after the decision unlock and
return. -/
theorem SessionSection.answer?_eq {t : Tid} {s s' : Server} {r : SessionRequest}
    {pc pc' : SessionPC} {a : Answer} (h : SessionSection t s r pc s' pc')
    (ha : pc.answer? = some a) : pc'.answer? = some a := by
  cases h with
  | unlocked => exact ha
  | notHex | missing | loaded | wrongMethod | finished | notFound | locked | lockedDelete
  | statFails | offset | conflict | continued | openFails | opened | tooLong | interrupted | full
  | stored | truncated | renameFails | renamed | unregistered | registered | dropped
  | removed => cases ha

/-- **Every reported offset was right at the moment it was computed.** The moment is the section in
which the answer was decided on; the run is cut there. -/
theorem Reachable.offset_of_answer (h : Reachable cfg P d) {t : Tid} {r : SessionRequest}
    {pc : SessionPC} {status : ℕ} {body : UploadStateResponse}
    (hth : d.threads[t]? = some (.session r pc)) (ha : pc.answer? = some (.state status body)) :
    ∃ c, Reachable cfg P c ∧ (machine cfg).Run (Arrivals P) c d ∧
      OffsetAt c.shared t r.id body.offset := by
  obtain ⟨now, hrun⟩ := h
  induction hrun generalizing pc with
  | refl => simp [boot] at hth
  | @tail c d act hrun hok hexec ih =>
      have hstep : (machine cfg).Run (Arrivals P) c d := .tail .refl hok hexec
      -- an answer that was decided earlier was right then
      have hold : ∀ {pc₀ : SessionPC}, c.threads[t]? = some (.session r pc₀) →
          pc₀.answer? = some (.state status body) → ∃ c₀, Reachable cfg P c₀ ∧
            (machine cfg).Run (Arrivals P) c₀ d ∧ OffsetAt c₀.shared t r.id body.offset := by
        intro pc₀ hth₀ ha₀
        obtain ⟨c₀, hreach, hrun₀, hoff⟩ := ih hth₀ ha₀
        exact ⟨c₀, hreach, hrun₀.trans hstep, hoff⟩
      rcases thread_of_exec hexec hth with hth₀ | rfl | ⟨th, rfl, hth₀, hthread⟩
      · exact hold hth₀ ha
      · obtain ⟨req, hreq, -⟩ := hok _ rfl
        cases req <;> cases hreq
        cases ha
      · cases th <;> obtain ⟨⟨s', pc'⟩, hsection, heq⟩ := Option.map_eq_some_iff.mp hthread <;>
          cases heq
        rename_i pc₀
        have hreach : Reachable cfg P c := ⟨now, hrun⟩
        cases ha₀ : pc₀.answer? with
        | none =>
            obtain ⟨l, hv, -⟩ := hreach.valid r.id
            have hat := (hv.loc t _ hth₀).2.here rfl
            exact ⟨d, ⟨now, hrun.tail hok hexec⟩, .refl,
              (SessionSection.of_step hsection).offsetAt hv.inv hat ha₀ ha⟩
        | some a =>
            have hkept := (SessionSection.of_step hsection).answer?_eq ha₀
            exact hold hth₀ (ha₀.trans (hkept.symm.trans ha))

/-- **Sizes, offsets and indexes agree with the disk** in every reachable state and along every run:
the state is consistent, the bytes of a session that stays in `uploads` only grow, and the offset of
every answer was the number of stored bytes when it was computed. -/
theorem stored_bytes_consistent (hreach : Reachable cfg P c) :
    Consistent cfg c ∧
      (∀ d id se se' b b', (machine cfg).Run (Arrivals P) c d →
        c.shared.uploads id = true → c.shared.sessions id = some se → se.mu = none →
        c.shared.disk se.path = some b →
        d.shared.uploads id = true → d.shared.sessions id = some se' → se'.mu = none →
        d.shared.disk se'.path = some b' → b <+: b' ∧ b.length ≤ b'.length) ∧
      ∀ (t : Tid) (r : SessionRequest) (status : ℕ) (body : UploadStateResponse),
        c.threads[t]? = some (.session r (.done (.state status body))) →
        ∃ c₀, Reachable cfg P c₀ ∧ (machine cfg).Run (Arrivals P) c₀ c ∧
          OffsetAt c₀.shared t r.id body.offset := by
  refine ⟨hreach.consistent, ?_, ?_⟩
  · intro d id se se' b b' hrun hup hse hmu hb hup' hse' hmu' hb'
    have hpre := hreach.part_mono hrun hup hse hmu hb hup' hse' hmu' hb'
    exact ⟨hpre, hpre.length_le⟩
  · intro t r status body hth
    exact hreach.offset_of_answer hth rfl

/-- The run ends in a consistent state. It has a finished file, so the statement is not about an
empty server. -/
theorem stored_bytes_consistent_twoChunks : ∃ c,
    Reachable Sample.config (fun _ => True) c ∧ (c.shared.files Sample.fileID).isSome = true ∧
      Consistent Sample.config c := by
  obtain ⟨c, hexec, hfile⟩ := Sample.exists_of_any Sample.twoChunks_finished
  have hreach := Sample.reachable_twoChunks hexec
  exact ⟨c, hreach, hfile, (stored_bytes_consistent hreach).1⟩

end LanRoom.Upload
