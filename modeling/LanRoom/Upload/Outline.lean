import LanRoom.Upload.Sections

/-! # The proof outline of the upload server

Every section of every handler keeps the invariant, guarantees the other threads what they rely on
and leads to the assertion of its next program point; so the real server, under every
interleaving, is simulated by `Life.Move` on each identifier (`outline`). The sections under
`sess.mu` that several handlers share (taking and giving back the mutex, dropping the entry,
removing the file) are treated once. -/

namespace LanRoom.Upload

open ThreadPool (Tid Outline)
open Relation (ReflTransGen)

variable {cfg : Config} {P : Request → Prop} {id : FileID} {t : Tid} {l l' : Life} {v : View}
  {s s' : Server} {se se' : UploadSession}

/-! ## Sections that change nothing about the identifier -/

/-- A section that changes nothing is sound. Refusals and reads are of this kind, and the life stays
where it is. -/
theorem Sound.refl (hinv : Inv cfg P id l s) : Sound cfg P id t l s l s := ⟨hinv, .same⟩

/-- A section that leaves the view of `id` alone is sound for `id`. -/
theorem Sound.frame (hinv : Inv cfg P id l s) (hw : s'.Wf cfg) (hview : s'.view id = s.view id) :
    Sound cfg P id t l s l s' := by
  refine ⟨⟨hw, ?_⟩, ?_⟩
  · rw [hview]
    exact hinv.holds
  · rw [hview]
    exact .same

/-! ## Sections under the mutex -/

/-- A published upload nobody is about to finish or to remove is live or closed. -/
theorem Life.Holds.settled (h : l.Holds cfg P v) (hp : l.published = true)
    (hse : v.session = some se) (hfree : ∀ u, se.mu = some u → l.owner ≠ some u) :
    (∃ b, l = .live se.size b) ∨ l.closed = true := by
  cases l with
  | live size b =>
      obtain ⟨-, -, -, -, -, -, se', x, hse', rfl, -⟩ := h
      obtain rfl := Option.some.inj (hse.symm.trans hse')
      exact .inl ⟨b, rfl⟩
  | dropped u size b =>
      obtain ⟨-, -, -, -, -, -, -, se', hse', -, hmu⟩ := h
      obtain rfl := Option.some.inj (hse.symm.trans hse')
      exact absurd rfl (hfree u hmu)
  | sealed u b =>
      obtain ⟨-, -, -, -, se', hse', -, hmu⟩ := h
      obtain rfl := Option.some.inj (hse.symm.trans hse')
      exact absurd rfl (hfree u hmu)
  | registered | expiring | reclaimed | gone => exact .inr rfl
  | unused | building | orphan => cases hp

/-- The upload whose mutex a thread holds is live or closed. It cannot be dropped or sealed, since
in these states the mutex belongs to their owner. -/
theorem Held.settled (hh : Held t l v se) (h : l.Holds cfg P v) :
    (∃ b, l = .live se.size b) ∨ l.closed = true := by
  refine h.settled hh.published hh.session fun u hu => ?_
  obtain rfl := Option.some.inj (hh.mu.symm.trans hu)
  exact hh.free

/-- Replacing the session object of an upload whose stored bytes are all accepted. -/
theorem Life.Holds.setSession (h : l.Holds cfg P v)
    (hset : (∃ b, l = .live se'.size b) ∨ l.closed = true)
    (hquiet : ∀ size b, l = .live size b → v.part = some b) :
    l.Holds cfg P { v with session := some se' } := by
  rcases hset with ⟨b, rfl⟩ | hc
  · obtain ⟨hiss, hfin, hfile, hpos, hlen, hup, -⟩ := h
    refine ⟨hiss, hfin, hfile, hpos, hlen, hup, se', [], rfl, rfl, ?_, fun _ => rfl⟩
    rw [List.append_nil]
    exact hquiet _ _ rfl
  · cases l with
    | registered | expiring | reclaimed | gone => exact h
    | unused | building | live | dropped | sealed | orphan => cases hc

/-- Locking a session, as the view of its identifier shows it. -/
theorem Server.view_setMu_of (hse : s.sessions id = some se) (mu : Option Tid) :
    (s.setMu id mu).view id = { s.view id with session := some { se with mu } } := by
  have hview : (s.view id).session = some se := hse
  rw [Server.view_setMu, hview, Option.map_some]

/-- The guarantee of a thread that holds `sess.mu`, or takes it while it is free. -/
theorem Guar.of_mu (hp : l.published = true) (hse : v.session = some se)
    (hmu : ∀ u, se.mu = some u → u = t) {v' : View} (hmoves : Life.Moves cfg P id l l')
    (hown : ∀ u, l'.owner = some u → u = t ∨ l.owner = some u) (hse' : v'.session = some se')
    (hmu' : ∀ u, se'.mu = some u → u = t) : Guar cfg P id t l v l' v' := by
  refine .of_part (fun u h => ?_) (fun u h => ?_) hmoves hown fun u h => ?_
  · subst h
    cases hp
  · exact hmu u (by rwa [View.mu_of_session hse] at h)
  · exact hmu' u (by rwa [View.mu_of_session hse'] at h)

/-- `sess.mu.Lock()` of a free mutex. The disk and the stored bytes agree at this moment, which is
what holding it then says. -/
theorem acquire_sound (hinv : Inv cfg P id l s) (hidle : Idle t l (s.view id))
    (hp : l.published = true) (hse : s.sessions id = some se) (hmu : se.mu = none) :
    Sound cfg P id t l s l (s.setMu id (some t)) ∧
      Held t l ((s.setMu id (some t)).view id) { se with mu := some t } := by
  have hview := Server.view_setMu_of hse (some t)
  have hset : (∃ b, l = .live se.size b) ∨ l.closed = true :=
    hinv.holds.settled hp hse (by simp [hmu])
  have hquiet : ∀ size b, l = .live size b → (s.view id).part = some b := by
    rintro size b rfl
    obtain ⟨-, -, -, -, -, -, se', x, hse', -, hpart, hx⟩ := hinv.holds
    obtain rfl := Option.some.inj (hse.symm.trans hse')
    rw [hx hmu, List.append_nil] at hpart
    exact hpart
  rw [hview]
  refine ⟨⟨⟨hinv.wf.setMu _, ?_⟩, ?_⟩, rfl, rfl, hp, hidle.1, hquiet⟩
  · rw [hview]
    exact hinv.holds.setSession hset hquiet
  · rw [hview]
    exact .of_mu hp hse (by simp [hmu]) .refl (fun u h => .inr h) rfl fun u h =>
      (Option.some.inj h).symm

/-- `sess.mu.Unlock()`. By then the bytes in the `.part` file are those of the life again. -/
theorem release_sound (hinv : Inv cfg P id l s) (hh : Held t l (s.view id) se) :
    Sound cfg P id t l s l (s.setMu id none) ∧ Idle t l ((s.setMu id none).view id) := by
  have hview := Server.view_setMu_of hh.session none
  have hmu : ∀ u, se.mu = some u → u = t := fun u h => Option.some.inj (h.symm.trans hh.mu)
  rw [hview]
  refine ⟨⟨⟨hinv.wf.setMu _, ?_⟩, ?_⟩, hh.free, ?_⟩
  · rw [hview]
    exact hinv.holds.setSession (hh.settled hinv.holds) hh.quiet
  · rw [hview]
    exact .of_mu hh.published hh.session hmu .refl (fun u h => .inr h) rfl (by simp)
  · simp [View.mu]

/-- `s.uploads.Delete(id)` of `DELETE` and of the purge. A live upload becomes one that its thread
is dropping; a closed one stays closed. -/
theorem drop_sound (hinv : Inv cfg P id l s) (hh : Held t l (s.view id) se) :
    ∃ l', Sound cfg P id t l s l' (s.setUpload id false) ∧
      Dropping t l' ((s.setUpload id false).view id) := by
  have hw : (s.setUpload id false).Wf cfg := hinv.wf.of_eq rfl rfl
  have hview := s.view_setUpload id false
  have hmu : ∀ u, se.mu = some u → u = t := fun u h => Option.some.inj (h.symm.trans hh.mu)
  have hholds := hinv.holds
  rcases hh.settled hinv.holds with ⟨b, rfl⟩ | hc
  · refine ⟨.dropped t se.size b, ⟨⟨hw, ?_⟩, ?_⟩, ?_⟩
    · rw [hview]
      obtain ⟨hiss, hfin, hfile, hpos, hlen, -⟩ := hholds
      exact ⟨hiss, hfin, hfile, hpos, hlen, rfl, hh.quiet _ _ rfl, se, hh.session, rfl, hh.mu⟩
    · rw [hview]
      exact .of_mu hh.published hh.session hmu (.single (.drop t))
        (fun u h => .inl (Option.some.inj h).symm) hh.session hmu
    · rw [hview]
      exact ⟨se, hh.session, hh.mu, .inl ⟨_, _, rfl⟩⟩
  · refine ⟨l, .frame hinv hw ?_, ?_⟩
    · rw [hview, ← (hholds.of_closed hc).2]
    · rw [hview]
      exact ⟨se, hh.session, hh.mu, .inr ⟨hc, hh.free⟩⟩

/-- `os.Remove(sess.path)` of `DELETE` and of the purge. The upload is gone then; if the remove
fails, the file is left to the next start. -/
theorem remove_sound (hinv : Inv cfg P id l s) (hd : Dropping t l (s.view id)) (fails : Bool)
    (hfails : fails = true → Strays P) :
    ∃ l', Sound cfg P id t l s l' (s.remove fails (.part id)) ∧
      ∃ se, Held t l' ((s.remove fails (.part id)).view id) se := by
  obtain ⟨se, hse, hmu, hl⟩ := hd
  have hmu' : ∀ u, se.mu = some u → u = t := fun u h => Option.some.inj (h.symm.trans hmu)
  have hholds := hinv.holds
  rcases hl with ⟨size, b, rfl⟩ | ⟨hc, hfree⟩
  · obtain ⟨hiss, hfin, hfile, hpos, hlen, hup, hpart, se', hse', hsize, -⟩ := hholds
    obtain rfl := Option.some.inj (hse.symm.trans hse')
    cases fails with
    | true =>
        -- the file stays, so a handler that still has the session can go on with it
        obtain ⟨r, hP, hr⟩ := hfails rfl
        refine ⟨.live size b, ⟨⟨hinv.wf, ?_⟩, ?_⟩, se, hse, hmu, rfl, nofun, ?_⟩
        · refine ⟨hiss, hfin, hfile, hpos, hlen, .inr ⟨r, hP, hr⟩, se, [], hse, hsize, ?_, ?_⟩
          · rw [List.append_nil]
            exact hpart
          · exact fun _ => rfl
        · exact .of_mu rfl hse hmu' (.single (.keep hP hr)) nofun hse hmu'
        · rintro _ _ ⟨⟩
          exact hpart
    | false =>
        have hview : (s.remove false (.part id)).view id = { s.view id with part := none } :=
          s.view_setDisk_part id none
        refine ⟨.gone, ⟨⟨hinv.wf.remove .., ?_⟩, ?_⟩, se, ?_⟩
        · rw [hview]
          exact ⟨hiss, hup, rfl, hfin, hfile⟩
        · rw [hview]
          exact .of_mu rfl hse hmu' (.single .cancel) nofun hse hmu'
        · rw [hview]
          exact ⟨hse, hmu, rfl, nofun, nofun⟩
  · have hview : (s.remove fails (.part id)).view id = s.view id := by
      cases fails with
      | true => rfl
      | false =>
          refine (s.view_setDisk_part id none).trans ?_
          rw [← (hholds.of_closed hc).1]
    refine ⟨l, .frame hinv (hinv.wf.remove ..) hview, se, ?_⟩
    rw [hview]
    exact ⟨hse, hmu, Life.published_of_closed hc, hfree,
      fun size b h => absurd h (Life.ne_live_of_closed hc size b)⟩

/-! ## `handleUploadSession` -/

/-- An answer without a file is sound in every life. These are the errors and the states of an
upload in progress. -/
theorem Answer.sound_of_none {a : Answer} (h : a.file? = none) : a.sound l := fun hf => by
  rw [h] at hf
  cases hf

/-- The thread in the middle of `putChunk` or `finishUpload` is the holder of the mutex. -/
theorem mu_unique (hmu : se.mu = some t) : ∀ u, se.mu = some u → u = t := fun _ h =>
  Option.some.inj (h.symm.trans hmu)

/-- Storing a chunk, as the view of its identifier shows it. The `.part` file is longer by the data,
and the session bears a new time. -/
theorem Server.view_storeChunk (hpath : se.path = .part id) (data : Bytes) :
    (storeChunk s id se data).view id =
      { s.view id with
        part := (s.view id).part.map (· ++ data)
        session := some { se with updatedAt := s.now } } := by
  rw [storeChunk, Server.view_setSession, hpath, Server.view_append_part]

/-- The bytes of a chunk are in the file but not accepted yet. -/
theorem storeChunk_sound {b : Bytes} (data : Bytes) (hinv : Inv cfg P id (.live se.size b) s)
    (hh : Held t (.live se.size b) (s.view id) se) :
    Sound cfg P id t (.live se.size b) s (.live se.size b) (storeChunk s id se data) ∧
      ((storeChunk s id se data).view id).part = some (b ++ data) := by
  have hview := Server.view_storeChunk (s := s) (hinv.wf.session _ _ hh.session).1 data
  have hpart : (s.view id).part = some b := hh.quiet _ _ rfl
  obtain ⟨hiss, hfin, hfile, hpos, hlen, hup, -⟩ := hinv.holds
  rw [hview, hpart]
  refine ⟨⟨⟨hinv.wf.storeChunk hh.session data, ?_⟩, ?_⟩, rfl⟩
  · rw [hview, hpart]
    refine ⟨hiss, hfin, hfile, hpos, hlen, hup, _, data, rfl, rfl, rfl, fun h => ?_⟩
    have hmu := hh.mu
    rw [show se.mu = none from h] at hmu
    cases hmu
  · rw [hview]
    exact .of_mu rfl hh.session (mu_unique hh.mu) .refl nofun rfl (mu_unique hh.mu)

/-- The bytes of a chunk that fits are accepted. The offset of the request is the length of what is
stored, so the life makes the move of a chunk. -/
theorem acceptChunk_sound {r : SessionRequest} {b data : Bytes} (hinv : Inv cfg P r.id (.live se.size b) s)
    (hh : Held t (.live se.size b) (s.view r.id) se) (hP : P (.session r)) (hput : r.method = .put)
    (hoff : Go.parseInt r.offset = some (b.length : ℤ)) (hdata : data <+: r.body)
    (hlim : data.length ≤ chunkLimit se b.length) :
    Sound cfg P r.id t (.live se.size b) s (.live se.size (b ++ data))
        (storeChunk s r.id se data) ∧
      Held t (.live se.size (b ++ data)) ((storeChunk s r.id se data).view r.id)
        { se with updatedAt := s.now } := by
  have hview := Server.view_storeChunk (s := s) (hinv.wf.session _ _ hh.session).1 data
  have hpart : (s.view r.id).part = some b := hh.quiet _ _ rfl
  obtain ⟨hiss, hfin, hfile, hpos, hlen, hup, -⟩ := hinv.holds
  -- the limit of `io.CopyN` keeps the bytes within the declared size
  have hsize : ((b ++ data).length : ℤ) ≤ se.size := by
    have := (le_min_iff.mp hlim).2
    simp only [List.length_append, Nat.cast_add]
    omega
  rw [hview, hpart]
  refine ⟨⟨⟨hinv.wf.storeChunk hh.session data, ?_⟩, ?_⟩, rfl, hh.mu, rfl, nofun, ?_⟩
  · rw [hview, hpart]
    refine ⟨hiss, hfin, hfile, hpos, hsize, hup, _, [], rfl, rfl, ?_, fun _ => rfl⟩
    rw [List.append_nil]
    rfl
  · -- to the other threads this is one appended chunk, under a mutex that stays with this one
    rw [hview]
    exact .of_mu rfl hh.session (mu_unique hh.mu)
      (.single (.append hP rfl hput hoff hdata hsize)) nofun rfl (mu_unique hh.mu)
  · rintro _ _ ⟨⟩
    rfl

/-- `os.Truncate` takes the bytes of a chunk that was too long back. -/
theorem truncate_sound {b x : Bytes} (hinv : Inv cfg P id (.live se.size b) s)
    (hse : (s.view id).session = some se) (hmu : se.mu = some t)
    (hpart : (s.view id).part = some (b ++ x)) :
    Sound cfg P id t (.live se.size b) s (.live se.size b) (s.truncate se.path b.length) ∧
      Held t (.live se.size b) ((s.truncate se.path b.length).view id) se := by
  have hdisk : s.disk (.part id) = some (b ++ x) := hpart
  have hview : (s.truncate se.path b.length).view id = { s.view id with part := some b } := by
    rw [(hinv.wf.session _ _ hse).1, Server.truncate, Server.view_setDisk_part, hdisk]
    simp
  obtain ⟨hiss, hfin, hfile, hpos, hlen, hup, -⟩ := hinv.holds
  rw [hview]
  refine ⟨⟨⟨hinv.wf.of_eq rfl rfl, ?_⟩, ?_⟩, hse, hmu, rfl, nofun, ?_⟩
  · rw [hview]
    refine ⟨hiss, hfin, hfile, hpos, hlen, hup, se, [], hse, rfl, ?_, fun _ => rfl⟩
    rw [List.append_nil]
  · rw [hview]
    exact .of_mu rfl hse (mu_unique hmu) .refl nofun hse (mu_unique hmu)
  · rintro _ _ ⟨⟩
    rfl

/-- `os.Rename` of a complete `.part` file. The path `.part` is free afterwards, and the final file
has the declared number of bytes. -/
theorem rename_sound {b b' : Bytes} (hinv : Inv cfg P id (.live se.size b) s)
    (hh : Held t (.live se.size b) (s.view id) se) (hfull : (b.length : ℤ) = se.size)
    (hb : s.disk se.path = some b') :
    Sound cfg P id t (.live se.size b) s (.sealed t b)
        ((s.setDisk se.path none).setDisk (.final id) (some b')) ∧
      (((s.setDisk se.path none).setDisk (.final id) (some b')).view id).session = some se := by
  have hpath := (hinv.wf.session _ _ hh.session).1
  obtain rfl : b = b' := by
    rw [hpath] at hb
    exact Option.some.inj ((hh.quiet _ _ rfl).symm.trans hb)
  have hview : ((s.setDisk se.path none).setDisk (.final id) (some b)).view id =
      { s.view id with part := none, final := some b } := by
    rw [Server.view_setDisk_final, hpath, Server.view_setDisk_part]
  obtain ⟨hiss, hfin, hfile, hpos, hlen, hup, -⟩ := hinv.holds
  rw [hview]
  refine ⟨⟨⟨hinv.wf.of_eq rfl rfl, ?_⟩, ?_⟩, hh.session⟩
  · rw [hview]
    exact ⟨hiss, rfl, rfl, hfile, se, hh.session, hfull.symm, hh.mu⟩
  · rw [hview]
    exact .of_mu rfl hh.session (mu_unique hh.mu) (.single (.complete t hfull))
      (fun u h => .inl (Option.some.inj h).symm) hh.session (mu_unique hh.mu)

/-- `s.uploads.Delete(id)` of `finishUpload`. Between this section and the next neither index knows
the upload, and only its owner moves it on. -/
theorem unregister_sound {b : Bytes} (hinv : Inv cfg P id (.sealed t b) s)
    (hse : (s.view id).session = some se) (hmu : se.mu = some t) :
    Sound cfg P id t (.sealed t b) s (.sealed t b) (s.setUpload id false) := by
  refine ⟨⟨hinv.wf.of_eq rfl rfl, ?_⟩, ?_⟩
  · rw [Server.view_setUpload]
    exact hinv.holds
  · rw [Server.view_setUpload]
    exact .of_mu rfl hse (mu_unique hmu) .refl (fun u h => .inr h) hse (mu_unique hmu)

/-- `registerFile` of `finishUpload`. The record is stored under the identifier, and the upload is
finished from then on. -/
theorem register_sound {b : Bytes} (hinv : Inv cfg P id (.sealed t b) s)
    (hse : (s.view id).session = some se) (hmu : se.mu = some t) (hfull : (b.length : ℤ) = se.size)
    (hup : (s.view id).upload = false) :
    ∃ l', Sound cfg P id t (.sealed t b) s l'
        (s.setFile id (some (newRecord s se.name se.mime (.final id) se.size))) ∧
      Held t l' ((s.setFile id (some (newRecord s se.name se.mime (.final id) se.size))).view id) se
      ∧ l'.finished = true := by
  set rec := newRecord s se.name se.mime (.final id) se.size with hrec
  obtain ⟨hiss, hpart, hfin, -, -⟩ := hinv.holds
  refine ⟨.registered rec b, ⟨⟨hinv.wf.setFile_some rfl, ?_⟩, ?_⟩, ?_, rfl⟩
  · rw [Server.view_setFile]
    exact ⟨hiss, hup, hpart, hfin, rfl, hfull.symm, (hinv.wf.session _ _ hse).2.2⟩
  · rw [Server.view_setFile]
    exact .of_mu rfl hse (mu_unique hmu) (.single (.register hfull.symm)) nofun hse (mu_unique hmu)
  · rw [Server.view_setFile]
    exact ⟨hse, hmu, rfl, nofun, nofun⟩

/-- **Every section of `handleUploadSession` for a request on `id` is sound.** Each case is one
outcome of a section and has a lemma of its own above: the mutex, the chunk, the rename, the two
indexes, the removal. -/
theorem SessionSection.sound {r : SessionRequest} {pc pc' : SessionPC}
    (h : SessionSection t s r pc s' pc') (hinv : Inv cfg P r.id l s) (hP : P (.session r))
    (hat : SessionAt t l (s.view r.id) r pc) :
    ∃ l', Sound cfg P r.id t l s l' s' ∧ SessionAt t l' (s'.view r.id) r pc' := by
  cases h with
  | notHex | wrongMethod => exact ⟨l, .refl hinv, hat, Answer.sound_of_none rfl⟩
  | missing => exact ⟨l, .refl hinv, hat⟩
  | loaded hup hm => exact ⟨l, .refl hinv, hat, (hinv.holds.of_upload hup).1, hm⟩
  | finished hrec =>
      obtain ⟨b, rfl⟩ := hinv.holds.of_file hrec
      exact ⟨_, .refl hinv, hat, fun _ => rfl⟩
  | notFound => exact ⟨l, .refl hinv, hat, Answer.sound_of_none rfl⟩
  | locked hse hmu hm =>
      obtain ⟨hidle, hp, hmethod⟩ := hat
      obtain ⟨hsound, hh⟩ := acquire_sound hinv hidle hp hse hmu
      exact ⟨l, hsound, _, hh, hmethod.elim .inr fun h => .inl (h.resolve_right hm)⟩
  | lockedDelete hse hmu hm =>
      obtain ⟨hsound, hh⟩ := acquire_sound hinv hat.1 hat.2.1 hse hmu
      exact ⟨l, hsound, hm, _, hh⟩
  | statFails | offset | conflict =>
      obtain ⟨se, hh, -⟩ := hat
      exact ⟨l, .refl hinv, ⟨se, hh⟩, Answer.sound_of_none rfl⟩
  | continued hse hb hm hoff =>
      obtain ⟨se, hh, hmethod⟩ := hat
      obtain rfl := Option.some.inj (hh.session.symm.trans hse)
      rw [(hinv.wf.session _ _ hse).1] at hb
      rcases hh.settled hinv.holds with ⟨b', rfl⟩ | hc
      · obtain rfl := Option.some.inj ((hh.quiet _ _ rfl).symm.trans hb)
        exact ⟨_, .refl hinv, se, b', hh, rfl, rfl, hoff, hmethod.resolve_right hm⟩
      · -- a closed upload has no `.part` file whose size could be read
        have hnone : s.disk (.part r.id) = none := (hinv.holds.of_closed hc).1
        rw [hnone] at hb
        cases hb
  | openFails =>
      obtain ⟨se, b, hh, -⟩ := hat
      exact ⟨l, .refl hinv, ⟨se, hh⟩, Answer.sound_of_none rfl⟩
  | opened => exact ⟨l, .refl hinv, hat⟩
  | tooLong data hse hlong =>
      obtain ⟨se, b, hh, rfl, rfl, -⟩ := hat
      obtain rfl := Option.some.inj (hh.session.symm.trans hse)
      obtain ⟨hsound, hpart⟩ := storeChunk_sound data hinv hh
      refine ⟨_, hsound, { se with updatedAt := s.now }, b, data, ?_, hh.mu, rfl, hpart, rfl⟩
      rw [Server.view_storeChunk (hinv.wf.session _ _ hse).1]
  | interrupted data hse hdata hlim =>
      obtain ⟨se, b, hh, rfl, rfl, hoff, hput⟩ := hat
      obtain rfl := Option.some.inj (hh.session.symm.trans hse)
      obtain ⟨hsound, hh'⟩ := acceptChunk_sound hinv hh hP hput hoff hdata hlim
      exact ⟨_, hsound, ⟨_, hh'⟩, Answer.sound_of_none rfl⟩
  | full data hse hdata hlim hfull =>
      obtain ⟨se, b, hh, rfl, rfl, hoff, hput⟩ := hat
      obtain rfl := Option.some.inj (hh.session.symm.trans hse)
      obtain ⟨hsound, hh'⟩ := acceptChunk_sound hinv hh hP hput hoff hdata hlim
      refine ⟨_, hsound, _, b ++ data, hh', rfl, ?_, hfull⟩
      rw [List.length_append, Nat.cast_add]
  | stored data hse hdata hlim =>
      obtain ⟨se, b, hh, rfl, rfl, hoff, hput⟩ := hat
      obtain rfl := Option.some.inj (hh.session.symm.trans hse)
      obtain ⟨hsound, hh'⟩ := acceptChunk_sound hinv hh hP hput hoff hdata hlim
      exact ⟨_, hsound, ⟨_, hh'⟩, Answer.sound_of_none rfl⟩
  | truncated hse =>
      obtain ⟨se, b, x, hse', hmu, rfl, hpart, rfl⟩ := hat
      obtain rfl := Option.some.inj (hse'.symm.trans hse)
      obtain ⟨hsound, hh⟩ := truncate_sound hinv hse' hmu hpart
      exact ⟨_, hsound, ⟨se, hh⟩, Answer.sound_of_none rfl⟩
  | renameFails hse =>
      obtain ⟨se, b, hh, -⟩ := hat
      exact ⟨l, .refl hinv, ⟨se, hh⟩, Answer.sound_of_none rfl⟩
  | renamed hse hb =>
      obtain ⟨se, b, hh, rfl, rfl, hfull⟩ := hat
      obtain rfl := Option.some.inj (hh.session.symm.trans hse)
      obtain ⟨hsound, hse'⟩ := rename_sound hinv hh hfull hb
      exact ⟨_, hsound, se, b, hse', hh.mu, rfl, rfl, hfull⟩
  | unregistered =>
      obtain ⟨se, b, hse, hmu, rfl, rfl, hfull⟩ := hat
      refine ⟨_, unregister_sound hinv hse hmu, se, b, ?_⟩
      rw [Server.view_setUpload]
      exact ⟨hse, hmu, rfl, rfl, hfull, rfl⟩
  | registered hse =>
      obtain ⟨se, b, hse', hmu, rfl, rfl, hfull, hup⟩ := hat
      obtain rfl := Option.some.inj (hse'.symm.trans hse)
      obtain ⟨l', hsound, hh, hc⟩ := register_sound hinv hse' hmu hfull hup
      exact ⟨l', hsound, ⟨se, hh⟩, fun _ => hc⟩
  | dropped =>
      obtain ⟨hm, se, hh⟩ := hat
      obtain ⟨l', hsound, hd⟩ := drop_sound hinv hh
      exact ⟨l', hsound, hm, hd⟩
  | removed hse =>
      obtain ⟨hm, hd⟩ := hat
      rw [(hinv.wf.session _ _ hse).1]
      obtain ⟨l', hsound, hh⟩ := remove_sound hinv hd r.faults.remove fun h => ⟨_, hP, h⟩
      exact ⟨l', hsound, hh, Answer.sound_of_none rfl⟩
  | unlocked =>
      obtain ⟨⟨se, hh⟩, ha⟩ := hat
      obtain ⟨hsound, hidle⟩ := release_sound hinv hh
      exact ⟨l, hsound, hidle, ha⟩

/-- A section of `handleUploadSession` only decides on answers about its own identifier. -/
theorem SessionSection.about {r : SessionRequest} {pc pc' : SessionPC}
    (h : SessionSection t s r pc s' pc') (hpc : ∀ a, pc.answer? = some a → a.about r.id) :
    ∀ a, pc'.answer? = some a → a.about r.id := by
  intro a ha
  cases h with
  | missing | loaded | locked | lockedDelete | continued | opened | tooLong | full | renamed
  | unregistered | dropped => cases ha
  | unlocked => exact hpc a ha
  | notHex | wrongMethod | notFound | statFails | offset | conflict | openFails | interrupted
  | stored | truncated | renameFails | removed =>
      cases ha
      exact nofun
  | finished | registered =>
      cases ha
      rintro f ⟨⟩
      rfl

/-- The sections of `handleUploadSession` are sound for every identifier. -/
theorem session_sound {r : SessionRequest} {pc pc' : SessionPC}
    (h : SessionSection t s r pc s' pc') (hinv : Inv cfg P id l s) (hP : P (.session r))
    (hloc : SessionLoc id t l (s.view id) r pc) :
    ∃ l', Sound cfg P id t l s l' s' ∧ SessionLoc id t l' (s'.view id) r pc' := by
  by_cases hid : r.id = id
  · subst hid
    obtain ⟨l', hsound, hat⟩ := h.sound hinv hP (hloc.here rfl)
    exact ⟨l', hsound, h.about hloc.about, fun _ => hat, fun hne => absurd rfl hne⟩
  · have hview := h.frame hinv.wf hid
    refine ⟨l, .frame hinv (h.wf hinv.wf) hview, h.about hloc.about, fun h => absurd h hid, ?_⟩
    rw [hview]
    exact hloc.elsewhere

/-! ## `handleUploadCreate` and `handleUpload` -/

/-- Only an identifier that was never issued is fresh. In every other state the identifier has been
issued. -/
theorem Life.Holds.unused (h : l.Holds cfg P v) (hiss : v.issued = false) :
    l = .unused ∧ v = View.empty := by
  cases l with
  | unused => exact ⟨rfl, h⟩
  | building | live | dropped | sealed | registered | expiring | reclaimed | gone | orphan =>
      rw [h.1] at hiss
      cases hiss

/-- The guarantee of the creator. Nobody else owns the life or holds the mutex, so there is little
to keep for the others. -/
theorem Guar.of_creator {v' : View} (hmu : v.mu = none)
    (hmoves : Life.Moves cfg P id (.building t) l') (hown : ∀ u, l'.owner = some u → u = t)
    (hmu' : v'.mu = none) : Guar cfg P id t (.building t) v l' v' :=
  .of_part (fun _ h => (Life.building.inj h).symm) (by simp [hmu]) hmoves
    (fun _ h => .inl (hown _ h)) (by simp [hmu'])

/-- `randomID` draws the identifier. The identifier belongs to the thread that has drawn it until
its creation ends. -/
theorem issue_sound (hinv : Inv cfg P id l s) (hfresh : s.issued id = false) :
    Sound cfg P id t l s (.building t) (s.issue id) ∧
      (s.issue id).view id = { View.empty with issued := true } := by
  obtain ⟨rfl, hv⟩ := hinv.holds.unused hfresh
  have hview : (s.issue id).view id = { View.empty with issued := true } := by
    rw [Server.view_issue, hv]
  refine ⟨⟨⟨hinv.wf.of_eq rfl rfl, ?_⟩, ?_⟩, hview⟩
  · rw [hview]
    exact ⟨rfl, rfl, rfl, nofun, rfl⟩
  · rw [hview, hv]
    exact .of_part nofun nofun (.single (.issue t)) (fun _ h => .inl (Option.some.inj h).symm) nofun

/-- A section of the creator that does not end the creation. The others do not see anything of the
upload before it is published. -/
theorem creator_sound (hinv : Inv cfg P id (.building t) s) (hw : s'.Wf cfg)
    (hholds : Life.Holds cfg P (s'.view id) (.building t)) :
    Sound cfg P id t (.building t) s (.building t) s' :=
  ⟨⟨hw, hholds⟩, .of_creator hinv.holds.2.2.2.2 .refl (fun _ h => (Option.some.inj h).symm)
    hholds.2.2.2.2⟩

/-- The section that ends the creation: nobody owns or has locked the upload after it. -/
theorem publish_sound (hinv : Inv cfg P id (.building t) s) (hw : s'.Wf cfg)
    (hmove : Life.Move cfg P id (.building t) l') (hholds : l'.Holds cfg P (s'.view id))
    (hown : l'.owner = none) (hmu : (s'.view id).mu = none) :
    Sound cfg P id t (.building t) s l' s' ∧ Idle t l' (s'.view id) := by
  refine ⟨⟨⟨hw, hholds⟩, .of_creator hinv.holds.2.2.2.2 (.single hmove) (by simp [hown]) hmu⟩, ?_, ?_⟩
  · simp [hown]
  · simp [hmu]

/-- What the sections of the creator on `id` lead to: the next program point of the creation, or
an answer. -/
def CreateSection.Next (cfg : Config) (id : FileID) (t : Tid) (r : CreateRequest) (body : CreateBody)
    (l' : Life) (v' : View) (pc' : CreatePC) : Prop :=
  (pc'.working? = some (body, id) ∧ l' = .building t ∧ CreateAt v' r pc') ∨
    ∃ a, pc' = .done a ∧ Idle t l' v' ∧ a.sound l' ∧ (r.leaks cfg id → l' = .orphan)

/-- **The `.part` file is created** and the session filled in: an empty upload under construction.
The view of the identifier changes, but the life does not move before the session is published. -/
theorem createPart_sound {body : CreateBody} (hinv : Inv cfg P id (.building t) s)
    (hw : ((s.setDisk (.part id) (some [])).setSession id (newSession s id body)).Wf cfg) :
    Sound cfg P id t (.building t) s (.building t)
      ((s.setDisk (.part id) (some [])).setSession id (newSession s id body)) := by
  obtain ⟨hiss, hup, hfile, -⟩ := hinv.holds
  refine creator_sound hinv hw ?_
  rw [Server.view_setSession, Server.view_setDisk_part]
  refine ⟨hiss, hup, hfile, ?_, rfl⟩
  rintro b ⟨⟩
  rfl

/-- **The rename of an empty upload fails**: the request is answered, and its `.part` file stays behind
without a session that could remove it. -/
theorem leak_sound {r : CreateRequest} {body : CreateBody} {rand : Vector UInt8 16}
    {se : UploadSession} (hinv : Inv cfg P id (.building t) s) (hP : P (.create r))
    (hcheck : checkCreate cfg r = .ok body) (hrand : r.rand = some rand) (hid : randomID rand = id)
    (hat : CreateAt (s.view id) r (.rename body id)) (hse : s.sessions id = some se)
    (hfail : r.faults.rename = true ∨ s.disk se.path = none) :
    Sound cfg P id t (.building t) s .orphan s ∧ Idle t .orphan (s.view id) := by
  obtain ⟨hiss, hup, hfile, hempty, hmu⟩ := hinv.holds
  obtain ⟨hpart, hfin, hsize, hok, -⟩ := hat
  -- the `.part` file exists, so it is the rename itself that fails
  have hren : r.faults.rename = true := by
    refine hfail.resolve_right fun hnone => ?_
    rw [(hinv.wf.session _ _ hse).1] at hnone
    cases hnone.symm.trans hpart
  have hleaks : r.leaks cfg id := ⟨body, rand, hcheck, hrand, hid, hsize, hok, hren⟩
  have hholds : Life.Holds cfg P (s.view id) .orphan := by
    refine ⟨hiss, hup, hfile, hempty, .inl ?_, hmu⟩
    rw [hpart]
    nofun
  exact publish_sound hinv hinv.wf (.leak t hP hleaks) hholds rfl hmu

/-- **An empty file is registered**: the creation ends with a record of size zero. The identifier is
finished at once and has never been in `uploads`. -/
theorem registerEmpty_sound {r : CreateRequest} {body : CreateBody} {rand : Vector UInt8 16}
    {se : UploadSession} (hinv : Inv cfg P id (.building t) s) (hP : P (.create r))
    (hcheck : checkCreate cfg r = .ok body) (hrand : r.rand = some rand) (hid : randomID rand = id)
    (hat : CreateAt (s.view id) r (.register body id)) (hse : s.sessions id = some se)
    (hw : (s.setFile id (some (newRecord s se.name se.mime (.final id) se.size))).Wf cfg) :
    Sound cfg P id t (.building t) s
        (.registered (newRecord s se.name se.mime (.final id) se.size) [])
        (s.setFile id (some (newRecord s se.name se.mime (.final id) se.size))) ∧
      Idle t (.registered (newRecord s se.name se.mime (.final id) se.size) [])
        ((s.setFile id (some (newRecord s se.name se.mime (.final id) se.size))).view id) := by
  obtain ⟨hiss, hup, -, -, hmu⟩ := hinv.holds
  obtain ⟨hpart, hfin, hsize, -, se', hse', hzero⟩ := hat
  obtain rfl := Option.some.inj (hse'.symm.trans hse)
  refine publish_sound hinv hw (.finishEmpty t hP hcheck hrand hid hsize hzero) ?_ rfl
    (by rwa [Server.view_setFile])
  rw [Server.view_setFile]
  exact ⟨hiss, hup, hpart, hfin, rfl, hzero, (hinv.wf.session _ _ hse).2.2⟩

/-- **The session is published**: from here on other requests find the upload, live and empty. The
creator gives up what it had for itself alone. -/
theorem store_sound {r : CreateRequest} {body : CreateBody} {rand : Vector UInt8 16}
    (hinv : Inv cfg P id (.building t) s) (hP : P (.create r))
    (hcheck : checkCreate cfg r = .ok body) (hrand : r.rand = some rand) (hid : randomID rand = id)
    (hat : CreateAt (s.view id) r (.store body id)) (hw : (s.setUpload id true).Wf cfg) :
    Sound cfg P id t (.building t) s (.live body.size []) (s.setUpload id true) ∧
      Idle t (.live body.size []) ((s.setUpload id true).view id) := by
  obtain ⟨hiss, -, hfile, -, hmu⟩ := hinv.holds
  obtain ⟨hpart, hfin, hsize, se, hse, hsize'⟩ := hat
  obtain ⟨hnonneg, hmax⟩ := size_of_checkCreate hcheck
  have hpos : 0 < body.size := lt_of_le_of_ne hnonneg (Ne.symm hsize)
  refine publish_sound hinv hw (.publish t hP hcheck hrand hid hpos hmax) ?_ rfl
    (by rwa [Server.view_setUpload])
  rw [Server.view_setUpload]
  exact ⟨hiss, hfin, hfile, hpos, hnonneg, .inl rfl, se, [], hse, hsize', hpart, fun _ => rfl⟩

/-- **Every section of `handleUploadCreate` on its own identifier is sound.** Where the next section
goes on with the creation it is the creator's still; otherwise the creation has ended. -/
theorem CreateSection.sound {r : CreateRequest} {body : CreateBody} {pc pc' : CreatePC}
    (h : CreateSection cfg s r pc s' pc') (hinv : Inv cfg P id (.building t) s)
    (hP : P (.create r)) (hcheck : checkCreate cfg r = .ok body)
    (hmade : ∃ rand, r.rand = some rand ∧ randomID rand = id)
    (hpc : pc.working? = some (body, id)) (hat : CreateAt (s.view id) r pc) :
    ∃ l', Sound cfg P id t (.building t) s l' s' ∧
      CreateSection.Next cfg id t r body l' (s'.view id) pc' := by
  obtain ⟨rand, hrand, hid⟩ := hmade
  -- the identifier this creator works on is the one it has drawn
  have hbody : ∀ {fid : FileID} {body' : CreateBody}, some (body', fid) = some (body, id) →
      body = body' ∧ id = fid := fun h => Prod.mk.inj (Option.some.inj h.symm)
  -- a leak can only come from the branch of an empty upload whose rename fails
  have hleak : r.leaks cfg id → body.size = 0 ∧ r.faults.create = false ∧
      r.faults.rename = true := by
    rintro ⟨body', -, hcheck', -, -, hrest⟩
    obtain rfl := Except.ok.inj (hcheck.symm.trans hcheck')
    exact hrest
  have hw := h.wf hinv.wf fun body' fid hw => by
    obtain ⟨rfl, -⟩ := Prod.mk.inj (Option.some.inj (hw.symm.trans hpc))
    exact hcheck
  obtain ⟨hiss, hup, hfile, hempty, hmu⟩ := hinv.holds
  cases h with
  -- before the draw the thread does not work on `id`
  | refused | noID | issued => cases hpc
  | createFails hfail =>
      obtain ⟨rfl, rfl⟩ := hbody hpc
      obtain ⟨hpart, hfin, -⟩ := hat
      obtain ⟨hsound, hidle⟩ :=
        publish_sound hinv hw (.abandon t) ⟨hiss, hup, hpart, hfin, hfile⟩ rfl hmu
      refine ⟨_, hsound, .inr ⟨_, rfl, hidle, Answer.sound_of_none rfl, fun hl => ?_⟩⟩
      rw [hfail] at hleak
      cases (hleak hl).2.1
  | createdEmpty hok hsize =>
      obtain ⟨rfl, rfl⟩ := hbody hpc
      refine ⟨_, createPart_sound hinv hw, .inl ⟨rfl, rfl, ?_⟩⟩
      rw [Server.view_setSession, Server.view_setDisk_part]
      exact ⟨rfl, hat.2.1, hsize, hok, _, rfl, hsize⟩
  | created hok hsize =>
      obtain ⟨rfl, rfl⟩ := hbody hpc
      refine ⟨_, createPart_sound hinv hw, .inl ⟨rfl, rfl, ?_⟩⟩
      rw [Server.view_setSession, Server.view_setDisk_part]
      exact ⟨rfl, hat.2.1, hsize, _, rfl, rfl⟩
  -- the empty file stays behind as `.part`; the answer is an error
  | renameFails hse hfail =>
      obtain ⟨rfl, rfl⟩ := hbody hpc
      obtain ⟨hsound, hidle⟩ := leak_sound hinv hP hcheck hrand hid hat hse hfail
      exact ⟨_, hsound, .inr ⟨_, rfl, hidle, Answer.sound_of_none rfl, fun _ => rfl⟩⟩
  | renamed hse hok hb =>
      obtain ⟨rfl, rfl⟩ := hbody hpc
      obtain ⟨hpart, hfin, hsize, -, hsess⟩ := hat
      have hpath := (hinv.wf.session _ _ hse).1
      rw [hpath] at hb hw ⊢
      obtain rfl := Option.some.inj (hpart.symm.trans hb)
      refine ⟨_, creator_sound hinv hw ?_, .inl ⟨rfl, rfl, ?_⟩⟩
      · rw [Server.view_setDisk_final, Server.view_setDisk_part]
        exact ⟨hiss, hup, hfile, nofun, hmu⟩
      · rw [Server.view_setDisk_final, Server.view_setDisk_part]
        exact ⟨rfl, rfl, hsize, hok, hsess⟩
  -- until `files.Store` the upload is still the creator's own
  | unregistered =>
      obtain ⟨rfl, rfl⟩ := hbody hpc
      refine ⟨_, creator_sound hinv hw ?_, .inl ⟨rfl, rfl, ?_⟩⟩
      · rw [Server.view_setUpload]
        exact ⟨hiss, rfl, hfile, hempty, hmu⟩
      · rw [Server.view_setUpload]
        exact hat
  | registered hse =>
      obtain ⟨rfl, rfl⟩ := hbody hpc
      obtain ⟨hsound, hidle⟩ := registerEmpty_sound hinv hP hcheck hrand hid hat hse hw
      refine ⟨_, hsound, .inr ⟨_, rfl, hidle, fun _ => rfl, fun hl => ?_⟩⟩
      obtain ⟨-, -, -, hok, -⟩ := hat
      rw [hok] at hleak
      cases (hleak hl).2.2
  | stored =>
      obtain ⟨rfl, rfl⟩ := hbody hpc
      obtain ⟨hsound, hidle⟩ := store_sound hinv hP hcheck hrand hid hat hw
      refine ⟨_, hsound, .inr ⟨_, rfl, hidle, Answer.sound_of_none rfl, fun hl => ?_⟩⟩
      exact absurd (hleak hl).1 hat.2.2.1

/-- A refusal of `handleUploadCreate` carries no file. It is one of the fixed error answers. -/
theorem file_of_checkCreate {r : CreateRequest} {a : Answer} (h : checkCreate cfg r = .error a) :
    a.file? = none := by
  rw [checkCreate] at h
  split at h
  · cases h
    rfl
  · split at h
    · cases h
      rfl
    · split at h
      · cases h
        rfl
      · split at h <;> cases h
        rfl

/-- The program points of `handleUploadCreate` only work on an identifier drawn for a checked
request. -/
theorem CreateSection.made {r : CreateRequest} {pc pc' : CreatePC}
    (h : CreateSection cfg s r pc s' pc')
    (hmade : ∀ body fid, pc.working? = some (body, fid) → checkCreate cfg r = .ok body ∧
      ∃ rand, r.rand = some rand ∧ randomID rand = fid) :
    ∀ body fid, pc'.working? = some (body, fid) → checkCreate cfg r = .ok body ∧
      ∃ rand, r.rand = some rand ∧ randomID rand = fid := by
  intro body fid hpc'
  cases h with
  | refused | noID | createFails | renameFails | registered | stored => cases hpc'
  | issued hcheck hrand =>
      cases hpc'
      exact ⟨hcheck, _, hrand, rfl⟩
  | createdEmpty | created | renamed | unregistered => exact hmade body fid hpc'

/-- Away from `id`, `handleUploadCreate` neither answers with a file for `id` nor leaks one. -/
theorem CreateSection.answered_elsewhere {r : CreateRequest} {pc : CreatePC} {a : Answer}
    (h : CreateSection cfg s r pc s' (.done a))
    (hmade : ∀ body fid, pc.working? = some (body, fid) → checkCreate cfg r = .ok body ∧
      ∃ rand, r.rand = some rand ∧ randomID rand = fid)
    (hpc : ∀ body, pc.working? ≠ some (body, id)) :
    (∀ f, a.file? = some f → f.fileID ≠ id) ∧ ¬r.leaks cfg id := by
  -- a leak of `id` would be by the creator that has drawn `id`, which this thread is not
  have hne : ∀ body fid, pc.working? = some (body, fid) → ¬r.leaks cfg id := by
    rintro body fid hw ⟨-, rand, -, hrand, hid, -⟩
    obtain ⟨-, rand', hrand', rfl⟩ := hmade body fid hw
    obtain rfl := Option.some.inj (hrand.symm.trans hrand')
    rw [hid] at hw
    exact hpc body hw
  cases h with
  | refused hcheck =>
      refine ⟨fun f hf => ?_, ?_⟩
      · rw [file_of_checkCreate hcheck] at hf
        cases hf
      · rintro ⟨body, -, hok, -⟩
        rw [hcheck] at hok
        cases hok
  | noID hrand =>
      refine ⟨nofun, ?_⟩
      rintro ⟨-, rand, -, hrand', -⟩
      rw [hrand] at hrand'
      cases hrand'
  | createFails => exact ⟨nofun, hne _ _ rfl⟩
  | renameFails => exact ⟨nofun, hne _ _ rfl⟩
  | stored => exact ⟨nofun, hne _ _ rfl⟩
  | registered =>
      refine ⟨?_, hne _ _ rfl⟩
      rintro f ⟨⟩ rfl
      exact hpc _ rfl

/-- The sections of `handleUploadCreate` are sound for every identifier. -/
theorem create_sound {r : CreateRequest} {pc pc' : CreatePC} (h : CreateSection cfg s r pc s' pc')
    (hinv : Inv cfg P id l s) (hP : P (.create r)) (hloc : CreateLoc cfg id t l (s.view id) r pc) :
    ∃ l', Sound cfg P id t l s l' s' ∧ CreateLoc cfg id t l' (s'.view id) r pc' := by
  have hmade := h.made hloc.made
  by_cases hpc : ∃ body, pc.working? = some (body, id)
  · obtain ⟨body, hpc⟩ := hpc
    obtain ⟨rfl, hat⟩ := hloc.here body hpc
    obtain ⟨hcheck, hrand⟩ := hloc.made body id hpc
    obtain ⟨l', hsound, hnext⟩ := h.sound hinv hP hcheck hrand hpc hat
    refine ⟨l', hsound, ?_⟩
    rcases hnext with ⟨hpc', rfl, hat'⟩ | ⟨a, rfl, hidle, ha, hleak⟩
    · refine ⟨hmade, fun _ _ => ⟨rfl, hat'⟩, fun hne => absurd hpc' (hne body), ?_, ?_⟩
      · rintro a rfl
        cases hpc'
      · rintro a rfl
        cases hpc'
    · refine ⟨hmade, nofun, fun _ => hidle, ?_, ?_⟩
      · rintro _ ⟨⟩ f hf -
        exact ha (by rw [hf]; rfl)
      · rintro _ ⟨⟩
        exact hleak
  · have hpc : ∀ body, pc.working? ≠ some (body, id) := fun body hw => hpc ⟨body, hw⟩
    have hidle := hloc.elsewhere hpc
    by_cases hpc' : ∃ body, pc'.working? = some (body, id)
    · -- the only way to begin working on `id` is to draw it
      obtain ⟨body, hpc'⟩ := hpc'
      cases h with
      | refused | noID | createFails | renameFails | registered | stored => cases hpc'
      | createdEmpty | created | renamed | unregistered => exact absurd hpc' (hpc body)
      | issued hcheck hrand hfresh =>
          obtain ⟨rfl, rfl⟩ := Prod.mk.inj (Option.some.inj hpc')
          obtain ⟨hsound, hview⟩ := issue_sound hinv hfresh
          refine ⟨_, hsound, hmade, fun _ _ => ⟨rfl, ?_⟩, fun hne => absurd rfl (hne _), nofun, nofun⟩
          rw [hview]
          exact ⟨rfl, rfl, rfl⟩
    · have hpc' : ∀ body, pc'.working? ≠ some (body, id) := fun body hw => hpc' ⟨body, hw⟩
      have hview := h.frame hinv.wf hpc hpc'
      have hw := h.wf hinv.wf fun body fid hw => (hloc.made body fid hw).1
      refine ⟨l, .frame hinv hw hview, hmade, fun body hw => absurd hw (hpc' body), fun _ => ?_,
        ?_, ?_⟩
      · rw [hview]
        exact hidle
      · rintro a rfl f hf hid
        exact absurd hid ((h.answered_elsewhere hloc.made hpc).1 f hf)
      · rintro a rfl hleak
        exact absurd hleak (h.answered_elsewhere hloc.made hpc).2

/-- Every section of `handleUpload` on its own identifier leads on or to an answer, soundly. -/
theorem UploadSection.sound {r : UploadRequest} {pc pc' : UploadPC}
    (h : UploadSection cfg s r pc s' pc') (hinv : Inv cfg P id (.building t) s)
    (hP : P (.upload r)) (hmade : ∃ rand, r.rand = some rand ∧ randomID rand = id)
    (hpc : pc.working? = some id) (hpart : (s.view id).part = none)
    (hsess : (s.view id).session = none) (hat : UploadAt cfg (s.view id) pc) :
    ∃ l', Sound cfg P id t (.building t) s l' s' ∧
      ((pc'.working? = some id ∧ l' = .building t ∧ (s'.view id).part = none ∧
          (s'.view id).session = none ∧ UploadAt cfg (s'.view id) pc') ∨
        ∃ a, pc' = .done a ∧ Idle t l' (s'.view id) ∧ a.sound l') := by
  obtain ⟨rand, hrand, hid⟩ := hmade
  have hw := h.wf hinv.wf
  obtain ⟨hiss, hup, hfile, hempty, hmu⟩ := hinv.holds
  cases h with
  -- before the draw the thread does not work on `id`
  | refused | noID | issued => cases hpc
  | createFails =>
      cases hpc
      obtain ⟨hsound, hidle⟩ :=
        publish_sound hinv hw (.abandon t) ⟨hiss, hup, hpart, hat, hfile⟩ rfl hmu
      exact ⟨_, hsound, .inr ⟨_, rfl, hidle, Answer.sound_of_none rfl⟩⟩
  | created =>
      cases hpc
      refine ⟨_, creator_sound hinv hw ?_, .inl ⟨rfl, rfl, ?_⟩⟩
      · rw [Server.view_setDisk_final]
        exact ⟨hiss, hup, hfile, hempty, hmu⟩
      · rw [Server.view_setDisk_final]
        exact ⟨hpart, hsess, rfl⟩
  | refusedCopy data err =>
      cases hpc
      refine ⟨_, creator_sound hinv hw ?_, .inl ⟨rfl, rfl, ?_⟩⟩
      · rw [Server.view_append_final]
        exact ⟨hiss, hup, hfile, hempty, hmu⟩
      · rw [Server.view_append_final, show (s.view id).final = some [] from hat]
        exact ⟨hpart, hsess, _, rfl⟩
  | copied data hmax =>
      cases hpc
      refine ⟨_, creator_sound hinv hw ?_, .inl ⟨rfl, rfl, ?_⟩⟩
      · rw [Server.view_append_final]
        exact ⟨hiss, hup, hfile, hempty, hmu⟩
      · rw [Server.view_append_final, show (s.view id).final = some [] from hat]
        exact ⟨hpart, hsess, _, rfl, rfl, hmax⟩
  -- `os.Remove` may fail as well, which leaves a file that no record names
  | @discarded _ written err =>
      cases hpc
      obtain ⟨b, hfin⟩ := hat
      have ha : (uploadRefused cfg written err).file? = none := by
        rw [uploadRefused]
        split <;> rfl
      cases hfail : r.faults.remove with
      | true =>
          have hholds : Life.Holds cfg P (s.view id) .orphan := by
            refine ⟨hiss, hup, hfile, hempty, .inr ?_, hmu⟩
            rw [hfin]
            nofun
          rw [hfail] at hw
          obtain ⟨hsound, hidle⟩ := publish_sound hinv hw (.litter t hP hfail) hholds rfl hmu
          exact ⟨_, hsound, .inr ⟨_, rfl, hidle, Answer.sound_of_none ha⟩⟩
      | false =>
          rw [hfail] at hw
          have hview : (s.remove false (.final id)).view id = { s.view id with final := none } :=
            s.view_setDisk_final id none
          have hholds : Life.Holds cfg P ((s.remove false (.final id)).view id) .gone := by
            rw [hview]
            exact ⟨hiss, hup, hpart, rfl, hfile⟩
          obtain ⟨hsound, hidle⟩ := publish_sound hinv hw (.abandon t) hholds rfl (by rwa [hview])
          exact ⟨_, hsound, .inr ⟨_, rfl, hidle, Answer.sound_of_none ha⟩⟩
  | @registered part _ written =>
      cases hpc
      obtain ⟨b, hfin, hsize, hmax⟩ := hat
      set rec := newRecord s (sanitizeFileName part.fileName) (normalizeMime part.contentType)
        (.final id) written with hrec
      -- the file closed with all the bytes that were counted, so the record tells the truth
      have hholds : Life.Holds cfg P ((s.setFile id (some rec)).view id) (.registered rec b) := by
        rw [Server.view_setFile]
        exact ⟨hiss, hup, hpart, hfin, rfl, hsize, hmax⟩
      obtain ⟨hsound, hidle⟩ := publish_sound hinv hw (.finishForm t hP hrand hid hsize) hholds rfl
        (by rwa [Server.view_setFile])
      exact ⟨_, hsound, .inr ⟨_, rfl, hidle, fun _ => rfl⟩⟩

/-- A refusal of `handleUpload` carries no file. It is one of the fixed error answers. -/
theorem file_of_checkUpload {r : UploadRequest} {a : Answer} (h : checkUpload r = .error a) :
    a.file? = none := by
  -- induction on the parts that are skipped before the first file
  have hfirst : ∀ parts, firstFile parts r.ending = .error a → a.file? = none := by
    intro parts
    induction parts with
    | nil =>
        intro h
        cases hend : r.ending <;> rw [hend] at h <;> cases h <;> rfl
    | cons p ps ih =>
        intro h
        rw [firstFile] at h
        split at h
        · cases h
        · exact ih h
  rw [checkUpload] at h
  split at h
  · cases h
    rfl
  · split at h
    · cases h
      rfl
    · exact hfirst _ h

/-- The program points of `handleUpload` only work on an identifier drawn for the request. -/
theorem UploadSection.made {r : UploadRequest} {pc pc' : UploadPC}
    (h : UploadSection cfg s r pc s' pc')
    (hmade : ∀ fid, pc.working? = some fid → ∃ rand, r.rand = some rand ∧ randomID rand = fid) :
    ∀ fid, pc'.working? = some fid → ∃ rand, r.rand = some rand ∧ randomID rand = fid := by
  intro fid hpc'
  cases h with
  | refused | noID | createFails | discarded | registered => cases hpc'
  | issued hrand =>
      cases hpc'
      exact ⟨_, hrand, rfl⟩
  | created | refusedCopy | copied => exact hmade fid hpc'

/-- Away from `id`, `handleUpload` does not answer with a file for `id`. -/
theorem UploadSection.answered_elsewhere {r : UploadRequest} {pc : UploadPC} {a : Answer}
    (h : UploadSection cfg s r pc s' (.done a)) (hpc : pc.working? ≠ some id) :
    ∀ f, a.file? = some f → f.fileID ≠ id := by
  intro f hf
  cases h with
  | refused hcheck =>
      rw [file_of_checkUpload hcheck] at hf
      cases hf
  | noID | createFails => cases hf
  | discarded =>
      rw [uploadRefused] at hf
      split at hf <;> cases hf
  | registered =>
      cases hf
      rintro rfl
      exact hpc rfl

/-- The sections of `handleUpload` are sound for every identifier. -/
theorem upload_sound {r : UploadRequest} {pc pc' : UploadPC} (h : UploadSection cfg s r pc s' pc')
    (hinv : Inv cfg P id l s) (hP : P (.upload r)) (hloc : UploadLoc cfg id t l (s.view id) r pc) :
    ∃ l', Sound cfg P id t l s l' s' ∧ UploadLoc cfg id t l' (s'.view id) r pc' := by
  have hmade := h.made hloc.made
  by_cases hpc : pc.working? = some id
  · obtain ⟨rfl, hpart, hsess, hat⟩ := hloc.here hpc
    obtain ⟨l', hsound, hnext⟩ := h.sound hinv hP (hloc.made id hpc) hpc hpart hsess hat
    refine ⟨l', hsound, ?_⟩
    rcases hnext with ⟨hpc', hhere⟩ | ⟨a, rfl, hidle, ha⟩
    · refine ⟨hmade, fun _ => hhere, fun hne => absurd hpc' hne, ?_⟩
      rintro a rfl
      cases hpc'
    · refine ⟨hmade, nofun, fun _ => hidle, ?_⟩
      rintro _ ⟨⟩ f hf -
      exact ha (by rw [hf]; rfl)
  · have hidle := hloc.elsewhere hpc
    by_cases hpc' : pc'.working? = some id
    · -- the only way to begin working on `id` is to draw it
      cases h with
      | refused | noID | createFails | discarded | registered => cases hpc'
      | created | refusedCopy | copied => exact absurd hpc' hpc
      | issued hrand hfresh =>
          obtain rfl := Option.some.inj hpc'
          obtain ⟨hsound, hview⟩ := issue_sound hinv hfresh
          refine ⟨_, hsound, hmade, fun _ => ⟨rfl, ?_⟩, fun hne => absurd rfl hne, nofun⟩
          rw [hview]
          exact ⟨rfl, rfl, rfl⟩
    · have hview := h.frame hpc hpc'
      refine ⟨l, .frame hinv (h.wf hinv.wf) hview, hmade, fun hw => absurd hw hpc', fun _ => ?_, ?_⟩
      · rw [hview]
        exact hidle
      · rintro a rfl f hf hid
        exact absurd hid (h.answered_elsewhere hpc f hf)

/-! ## The purge -/

/-- `s.files.Delete(key)` of an expired record. A finished file expires by it, and one whose record
is gone stays expired. -/
theorem deleteRecord_sound {r : PurgeRequest} (hinv : Inv cfg P id l s)
    (hidle : Idle t l (s.view id)) (hP : P (.purge r)) (hc : l.finished = true) :
    ∃ l', Sound cfg P id t l s l' (s.setFile id none) ∧ l'.expired = true ∧
      ((s.setFile id none).view id).mu ≠ some t := by
  have hw : (s.setFile id none).Wf cfg := hinv.wf.setFile_none
  have hview := s.view_setFile id none
  have hholds := hinv.holds
  cases l with
  | registered rec b =>
      obtain ⟨hiss, hup, hpart, hfin, -⟩ := hholds
      refine ⟨.expiring (some t), ⟨⟨hw, ?_⟩, ?_⟩, rfl, ?_⟩
      · rw [hview]
        exact ⟨hiss, hup, hpart, rfl, ⟨b, hfin⟩, nofun⟩
      · rw [hview]
        exact .of_expire rfl (.single (.expire t hP)) (fun u h => .inl (Option.some.inj h).symm)
          rfl rfl rfl
      · rw [hview]
        exact hidle.2
  -- the record is gone already: a second purge has the same file in its list
  | expiring reaper =>
      have hsame : (s.setFile id none).view id = s.view id := by
        rw [hview, ← hholds.2.2.2.1]
      refine ⟨_, .frame hinv hw hsame, rfl, ?_⟩
      rw [hsame]
      exact hidle.2
  | reclaimed =>
      have hsame : (s.setFile id none).view id = s.view id := by
        rw [hview, ← hholds.2.2.2.2]
      refine ⟨_, .frame hinv hw hsame, rfl, ?_⟩
      rw [hsame]
      exact hidle.2
  | unused | building | live | dropped | sealed | gone | orphan => cases hc

/-- `os.Remove(record.Path)` of an expired record. The bytes of the file are not in any index any
more; if the remove fails they stay on the disk. -/
theorem removeRecord_sound (hinv : Inv cfg P id l s) (he : l.expired = true)
    (hmu : (s.view id).mu ≠ some t) (fails : Bool)
    (hfails : fails = true → ∃ r, P r ∧ r.removeFails) :
    ∃ l', Sound cfg P id t l s l' (s.remove fails (.final id)) ∧
      Idle t l' ((s.remove fails (.final id)).view id) := by
  have hw := hinv.wf.remove fails (.final id)
  have hholds := hinv.holds
  cases fails with
  | false =>
      have hview : (s.remove false (.final id)).view id = { s.view id with final := none } :=
        s.view_setDisk_final id none
      cases l with
      | expiring reaper =>
          obtain ⟨hiss, hup, hpart, hfile, -⟩ := hholds
          refine ⟨.reclaimed, ⟨⟨hw, ?_⟩, ?_⟩, nofun, ?_⟩
          · rw [hview]
            exact ⟨hiss, hup, hpart, rfl, hfile⟩
          · rw [hview]
            exact .of_expire rfl (.single .reclaim) nofun rfl rfl rfl
          · rw [hview]
            exact hmu
      | reclaimed =>
          have hsame : (s.remove false (.final id)).view id = s.view id := by
            rw [hview, ← hholds.2.2.2.1]
          refine ⟨_, .frame hinv hw hsame, nofun, ?_⟩
          rw [hsame]
          exact hmu
      | unused | building | live | dropped | sealed | registered | gone | orphan => cases he
  | true =>
      obtain ⟨r, hP, hr⟩ := hfails rfl
      -- a failing `os.Remove` leaves the file for good if this purge is the one that had to remove
      -- it
      by_cases hown : l.owner = some t
      · cases l with
        | expiring reaper =>
            obtain rfl : reaper = some t := hown
            obtain ⟨hiss, hup, hpart, hfile, hfin, -⟩ := hholds
            have hholds' : Life.Holds cfg P (s.view id) (.expiring none) :=
              ⟨hiss, hup, hpart, hfile, hfin, fun _ => ⟨r, hP, hr⟩⟩
            refine ⟨.expiring none, ⟨⟨hinv.wf, hholds'⟩, ?_⟩, nofun, hmu⟩
            exact .of_expire rfl (.single (.stray hP hr)) nofun rfl rfl rfl
        | reclaimed => cases hown
        | unused | building | live | dropped | sealed | registered | gone | orphan => cases he
      · exact ⟨l, .refl hinv, hown, hmu⟩

/-- The purge only visits the keys of its walks. So what a purge may remove is fixed when it
arrives. -/
theorem PurgeSection.visits {r : PurgeRequest} {cutoff : Time} {pc pc' : PurgePC}
    (h : PurgeSection t s r cutoff pc s' pc')
    (hv : ∀ visit ∈ pc.visits, visit ∈ r.filesRange ∨ visit ∈ r.uploadsRange) :
    ∀ visit ∈ pc'.visits, visit ∈ r.filesRange ∨ visit ∈ r.uploadsRange := by
  cases h with
  | began => exact fun _ h => .inl h
  | filesDone => exact fun _ h => .inr h
  | done => nofun
  | expired | recordDeleted | loaded | locked | stale | recent | dropped | removed => exact hv
  | fresh | recordRemoved | missing | unlocked => exact fun v h => hv v (List.mem_cons_of_mem _ h)

/-- A section of the purge that visits another identifier. The view of `id` does not show it. -/
theorem PurgeSection.sound_elsewhere {r : PurgeRequest} {cutoff : Time} {pc pc' : PurgePC}
    (h : PurgeSection t s r cutoff pc s' pc') (hinv : Inv cfg P id l s)
    (hat : PurgeAt id t l (s.view id) cutoff pc) (hpc : pc.current? ≠ some id)
    (hpc' : pc'.current? ≠ some id) (hidle : Idle t l (s.view id)) :
    Sound cfg P id t l s l s' ∧ PurgeAt id t l (s'.view id) cutoff pc' ∧ Idle t l (s'.view id) := by
  have hview : s'.view id = s.view id := by
    refine h.frame hinv.wf hpc ?_
    rintro visit rec rest rfl
    exact hat.1
  rw [hview]
  refine ⟨.frame hinv (h.wf hinv.wf) hview, ?_, hidle⟩
  have hne : ∀ {fid : FileID} {p : Prop}, some fid ≠ some id → fid = id → p := fun h h' =>
    absurd (congrArg some h') h
  cases h with
  | began | filesDone | fresh | recordRemoved | done | missing | unlocked => trivial
  | expired hrec hold => exact ⟨hinv.wf.file _ _ hrec, hold, hne hpc'⟩
  | recordDeleted => exact ⟨hat.1, hne hpc'⟩
  | loaded | locked | stale | recent | dropped | removed => exact hne hpc'

/-- A section of the purge that visits `id`. The cases are those of the walk over the files and of
the walk over the uploads. -/
theorem PurgeSection.sound {r : PurgeRequest} {cutoff : Time} {pc pc' : PurgePC}
    (h : PurgeSection t s r cutoff pc s' pc') (hinv : Inv cfg P id l s) (hP : P (.purge r))
    (hvisits : ∀ visit ∈ pc.visits, visit ∈ r.filesRange ∨ visit ∈ r.uploadsRange)
    (hat : PurgeAt id t l (s.view id) cutoff pc) (hidle : pc.working? ≠ some id → Idle t l (s.view id))
    (hpc : pc.current? = some id ∨ pc'.current? = some id) :
    ∃ l', Sound cfg P id t l s l' s' ∧ PurgeAt id t l' (s'.view id) cutoff pc' ∧
      (pc'.working? ≠ some id → Idle t l' (s'.view id)) := by
  cases h with
  -- sections between two entries: no identifier is being worked on
  | began | filesDone | fresh | done | missing => exact hpc.elim nofun nofun
  -- the record the purge judges is the one it read, and what it read never changes
  | expired hrec hold =>
      obtain rfl := Option.some.inj (hpc.resolve_left nofun)
      obtain ⟨b, rfl⟩ := hinv.holds.of_file hrec
      refine ⟨_, .refl hinv, ⟨hinv.wf.file _ _ hrec, hold, fun _ => ⟨rfl, ?_⟩⟩, fun _ => hidle nofun⟩
      rintro _ _ ⟨⟩
      rfl
  | recordDeleted =>
      obtain rfl := Option.some.inj (hpc.elim (fun h => h) fun h => h)
      -- from `Range` to `Delete` nobody but a purge takes the record away
      obtain ⟨l', hsound, he, hmu⟩ := deleteRecord_sound hinv (hidle nofun) hP (hat.2.2 rfl).1
      exact ⟨l', hsound, ⟨hat.1, fun _ => ⟨he, hmu⟩⟩, fun hne => absurd rfl hne⟩
  | @recordRemoved visit rec rest =>
      obtain rfl := Option.some.inj (hpc.resolve_right nofun)
      obtain ⟨he, hmu⟩ := hat.2 rfl
      rw [hat.1]
      obtain ⟨l', hsound, hidle'⟩ := removeRecord_sound hinv he hmu visit.2 fun h =>
        ⟨_, hP, visit, hvisits _ List.mem_cons_self, h⟩
      exact ⟨l', hsound, trivial, fun _ => hidle'⟩
  | loaded hup =>
      exact ⟨l, .refl hinv, fun hid => (hinv.holds.of_upload (hid ▸ hup)).1, fun _ => hidle nofun⟩
  | locked hse hmu =>
      obtain rfl := Option.some.inj (hpc.elim (fun h => h) fun h => h)
      obtain ⟨hsound, hh⟩ := acquire_sound hinv (hidle nofun) (hat rfl) hse hmu
      exact ⟨l, hsound, fun _ => ⟨_, hh⟩, fun hne => absurd rfl hne⟩
  -- the check only reads `updatedAt`, whichever way it goes
  | stale => exact ⟨l, .refl hinv, hat, hidle⟩
  | recent => exact ⟨l, .refl hinv, hat, hidle⟩
  | dropped =>
      obtain rfl := Option.some.inj (hpc.elim (fun h => h) fun h => h)
      obtain ⟨se, hh⟩ := hat rfl
      obtain ⟨l', hsound, hd⟩ := drop_sound hinv hh
      exact ⟨l', hsound, fun _ => hd, fun hne => absurd rfl hne⟩
  | @removed visit rest se hse =>
      obtain rfl := Option.some.inj (hpc.elim (fun h => h) fun h => h)
      rw [(hinv.wf.session _ _ hse).1]
      obtain ⟨l', hsound, hh⟩ := remove_sound hinv (hat rfl) visit.2 fun h =>
        ⟨_, hP, visit, hvisits _ List.mem_cons_self, h⟩
      exact ⟨l', hsound, fun _ => hh, fun hne => absurd rfl hne⟩
  | unlocked =>
      obtain rfl := Option.some.inj (hpc.resolve_right nofun)
      obtain ⟨se, hh⟩ := hat rfl
      obtain ⟨hsound, hidle'⟩ := release_sound hinv hh
      exact ⟨l, hsound, trivial, fun _ => hidle'⟩

/-- A program point of the purge works on the identifier it is visiting. -/
theorem PurgePC.current?_of_working? {pc : PurgePC} (h : pc.working? = some id) :
    pc.current? = some id := by
  cases pc <;> first | exact h | cases h

/-- The sections of the purge are sound for every identifier. -/
theorem purge_sound {r : PurgeRequest} {cutoff cutoff' : Time} {pc pc' : PurgePC}
    (h : PurgeSection t s r cutoff' pc s' pc') (hcut : pc ≠ .start → cutoff' = cutoff)
    (hinv : Inv cfg P id l s) (hP : P (.purge r))
    (hloc : PurgeLoc id t l (s.view id) r cutoff pc) :
    ∃ l', Sound cfg P id t l s l' s' ∧ PurgeLoc id t l' (s'.view id) r cutoff' pc' := by
  have hvisits := h.visits hloc.visits
  have hat : PurgeAt id t l (s.view id) cutoff' pc := by
    by_cases hstart : pc = .start
    · subst hstart
      trivial
    · rw [hcut hstart]
      exact hloc.here
  by_cases hpc : pc.current? = some id ∨ pc'.current? = some id
  · obtain ⟨l', hsound, hat', hidle⟩ := h.sound hinv hP hloc.visits hat hloc.elsewhere hpc
    exact ⟨l', hsound, hvisits, hat', hidle⟩
  · obtain ⟨hne, hne'⟩ := not_or.mp hpc
    have hidle := hloc.elsewhere fun hw => hne (PurgePC.current?_of_working? hw)
    obtain ⟨hsound, hat', hidle'⟩ := h.sound_elsewhere hinv hat hne hne' hidle
    exact ⟨l, hsound, hvisits, hat', fun _ => hidle'⟩

/-! ## The outline -/

/-- A request that has just arrived. It holds no mutex and owns no life. -/
theorem loc_start {r : Request} (hidle : Idle t l v) (hP : P r) : Loc cfg P id t l v r.thread := by
  cases r with
  | upload r => exact ⟨hP, nofun, nofun, fun _ => hidle, nofun⟩
  | create r => exact ⟨hP, nofun, nofun, fun _ => hidle, nofun, nofun⟩
  | session r => exact ⟨hP, nofun, fun _ => hidle, fun _ => hidle⟩
  | purge r => exact ⟨hP, nofun, trivial, fun _ => hidle⟩

/-- The sections of every handler are sound. It is the step theorem of the outline, put together
from those of the four handlers. -/
theorem step_sound {th th' : Thread} (hinv : Inv cfg P id l s)
    (hloc : Loc cfg P id t l (s.view id) th) (hstep : th.step cfg t s = some (s', th')) :
    ∃ l', Sound cfg P id t l s l' s' ∧ Loc cfg P id t l' (s'.view id) th' := by
  obtain ⟨hP, hloc⟩ := hloc
  cases th with
  | upload r pc =>
      obtain ⟨⟨s₁, pc'⟩, h, heq⟩ := Option.map_eq_some_iff.mp hstep
      obtain ⟨rfl, rfl⟩ := Prod.mk.inj heq
      obtain ⟨l', hsound, hloc'⟩ := upload_sound (.of_step h) hinv hP hloc
      exact ⟨l', hsound, hP, hloc'⟩
  | create r pc =>
      obtain ⟨⟨s₁, pc'⟩, h, heq⟩ := Option.map_eq_some_iff.mp hstep
      obtain ⟨rfl, rfl⟩ := Prod.mk.inj heq
      obtain ⟨l', hsound, hloc'⟩ := create_sound (.of_step h) hinv hP hloc
      exact ⟨l', hsound, hP, hloc'⟩
  | session r pc =>
      obtain ⟨⟨s₁, pc'⟩, h, heq⟩ := Option.map_eq_some_iff.mp hstep
      obtain ⟨rfl, rfl⟩ := Prod.mk.inj heq
      obtain ⟨l', hsound, hloc'⟩ := session_sound (.of_step h) hinv hP hloc
      exact ⟨l', hsound, hP, hloc'⟩
  | purge r cutoff pc =>
      obtain ⟨⟨s₁, cutoff', pc'⟩, h, heq⟩ := Option.map_eq_some_iff.mp hstep
      obtain ⟨rfl, rfl⟩ := Prod.mk.inj heq
      obtain ⟨hsection, hcut⟩ := PurgeSection.of_step h
      obtain ⟨l', hsound, hloc'⟩ := purge_sound hsection hcut hinv hP hloc
      exact ⟨l', hsound, hP, hloc'⟩

/-- The passing of time changes nothing an assertion speaks about. -/
theorem tick_sound (hinv : Inv cfg P id l s) (now : Time) :
    Inv cfg P id l { s with now } ∧ ({ s with now } : Server).view id = s.view id :=
  ⟨⟨⟨hinv.wf.file, hinv.wf.session⟩, hinv.holds⟩, rfl⟩

/-- **The proof outline of the upload server for the identifier `id`**, in runs whose requests
satisfy `P`. -/
def outline (cfg : Config) (P : Request → Prop) (id : FileID) : Outline (machine cfg) Life where
  starts th := ∃ r : Request, th = r.thread ∧ P r
  inv := Inv cfg P id
  loc t l s th := Loc cfg P id t l (s.view id) th
  fresh t l s := Idle t l (s.view id)
  guar t l s l' s' := Guar cfg P id t l (s.view id) l' (s'.view id)
  move := Life.Move cfg P id
  starts_loc _ hidle hstart := by
    obtain ⟨r, rfl, hP⟩ := hstart
    exact loc_start hidle hP
  env_inv _ hinv := (tick_sound hinv _).1
  env_loc _ _ hloc := hloc
  env_fresh _ hidle := hidle
  step_sound hinv hloc hstep := by
    obtain ⟨h, rfl⟩ := machine_step_iff.mp hstep
    obtain ⟨l', hsound, hloc'⟩ := LanRoom.Upload.step_sound hinv hloc h
    exact ⟨l', hsound.inv, hloc', hsound.guar, hsound.guar.moves, by simp⟩
  stable htu _ _ hguar hloc := hloc.stable hguar htu
  fresh_stable htu hguar hidle := hguar.idle htu hidle

/-- The server after start-up, before any request. -/
def boot (now : Time) : ThreadPool.Config Server Thread := ⟨Server.init now, []⟩

/-- The outline holds after start-up. No identifier has been issued, so every life is unused. -/
theorem valid_boot (cfg : Config) (P : Request → Prop) (id : FileID) (now : Time) :
    (outline cfg P id).Valid .unused (boot now) where
  inv := by
    refine ⟨⟨?_, ?_⟩, rfl⟩
    · intro fid rec hrec
      cases hrec
    · intro fid se hse
      cases hse
  loc t th h := by simp [boot] at h
  fresh _ _ := ⟨nofun, nofun⟩

/-- Every request that arrives satisfies `P`. -/
def Arrivals (P : Request → Prop) (_ : ThreadPool.Config Server Thread) (act : ThreadPool.Act Thread Unit ℕ) :
    Prop := ∀ th, act = .spawn th → ∃ r : Request, th = r.thread ∧ P r

/-- A configuration the server can get into when all requests satisfy `P`. -/
def Reachable (cfg : Config) (P : Request → Prop) (c : ThreadPool.Config Server Thread) : Prop :=
  ∃ now, (machine cfg).Run (Arrivals P) (boot now) c

/-- **Every reachable configuration satisfies the outline of every identifier.** The moves from
`unused` record everything that has happened to the identifier in the run. -/
theorem Reachable.valid {c : ThreadPool.Config Server Thread} (h : Reachable cfg P c)
    (id : FileID) :
    ∃ l, (outline cfg P id).Valid l c ∧ Life.Moves cfg P id .unused l := by
  obtain ⟨now, hrun⟩ := h
  exact Outline.valid_run (fun _ _ h => h) (valid_boot cfg P id now) hrun

/-! ### Schedules -/

/-- A schedule of the upload server. -/
abbrev Schedule := List (ThreadPool.Act Thread Unit ℕ)

/-- The request `r` arrives. -/
def arrive (r : Request) : Schedule := [.spawn r.thread]

/-- Thread `t` performs its next `n` sections. -/
def sections (t : Tid) (n : ℕ) : Schedule := List.replicate n (.run t ())

/-- A schedule that executes from the start leads to a reachable configuration. -/
theorem Reachable.of_execAll {c : ThreadPool.Config Server Thread} {now : Time} {acts : Schedule}
    (hreq : ∀ th, .spawn th ∈ acts → ∃ r : Request, th = r.thread ∧ P r)
    (h : (machine cfg).execAll (boot now) acts = some c) : Reachable cfg P c := by
  refine ⟨now, ThreadPool.Machine.Run.of_execAll (fun _ act hact => ?_) h⟩
  rintro th rfl
  exact hreq th hact

/-! ### A server for examples -/

namespace Sample

/-- A server that accepts files of up to 100 bytes. -/
def config : Config := ⟨100, by norm_num⟩

/-- The random bytes drawn for the upload. -/
def rand : Vector UInt8 16 := Vector.replicate 16 0

/-- The identifier of the upload. -/
def fileID : FileID := randomID rand

/-- The creation of an upload of `size` bytes. -/
def create (size : ℤ) (faults : Faults := {}) : Request :=
  .create { method := .post, body := some ⟨[], size, []⟩, rand := some rand, faults }

/-- A request on the upload. -/
def session (method : Method) (offset : GoString := []) (body : Bytes := []) : Request :=
  .session { method, id := fileID, offset, body }

/-- A schedule that leads to a configuration with the property `q`. -/
theorem exists_of_any {acts : Schedule} {q : ThreadPool.Config Server Thread → Bool}
    (h : ((machine config).execAll (boot 0) acts).any q = true) :
    ∃ c, (machine config).execAll (boot 0) acts = some c ∧ q c = true :=
  (Option.any_eq_true _ _).mp h

end Sample

end LanRoom.Upload
