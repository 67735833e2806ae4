import LanRoom.Upload.LifeCycle
import LanRoom.Concurrency.ProofOutline

/-! # Assertions about one identifier

The vocabulary of the proof outline of the upload server, for one identifier `id`: the invariant
says which `Life` the shared state is in, every program point of every handler carries an assertion
about `id`, and `Guar` bounds what the section of one thread can change under the feet of the
others. A thread has a part in an upload in one of two ways: it owns its life (the creator, and
whoever has a file still to remove), or it holds `sess.mu` (`Held`); otherwise it is `Idle`. The
only change made without a part is the expiry of a finished file, and every assertion survives it
(`Loc.stable`). -/

namespace LanRoom.Upload

open ThreadPool (Tid Outline)
open Relation (ReflTransGen)

/-! ## Assertions -/

section Assertions

variable (cfg : Config) (P : Request → Prop) (id : FileID) (t : Tid) (l : Life) (v : View)

/-- The invariant of the shared state. -/
structure Inv (s : Server) : Prop where
  wf : s.Wf cfg
  holds : l.Holds cfg P (s.view id)

/-- Thread `t` has no part in the upload. -/
def Idle : Prop := l.owner ≠ some t ∧ v.mu ≠ some t

/-- What a section of thread `t` guarantees to the other threads. -/
structure Guar (l' : Life) (v' : View) : Prop where
  moves : Life.Moves cfg P id l l'
  /-- A life is only made one's own. -/
  owner : ∀ u, u ≠ t → l'.owner = some u → l.owner = some u
  /-- `sess.mu` is only taken for oneself. -/
  mu : ∀ u, u ≠ t → v'.mu = some u → v.mu = some u
  /-- An upload another thread is creating is left alone. -/
  building : ∀ u, u ≠ t → l = .building u → l' = l ∧ v' = v
  /-- While another thread holds `sess.mu`, a file can at most expire. -/
  locked : ∀ u se, u ≠ t → v.session = some se → se.mu = some u →
    v'.session = some se ∧ v'.part = v.part ∧ v'.upload = v.upload ∧ (l' = l ∨ l.closed = true)

/-- Thread `t` **holds** `sess.mu` and every stored byte of a live upload is accepted. -/
structure Held (se : UploadSession) : Prop where
  session : v.session = some se
  mu : se.mu = some t
  published : l.published = true
  free : l.owner ≠ some t
  quiet : ∀ size b, l = .live size b → v.part = some b

/-- An answer that carries a file is about `id`. -/
def Answer.about (a : Answer) : Prop := ∀ f, a.file? = some f → f.fileID = id

/-- An answer carries a file only when the upload is finished. -/
def Answer.sound (a : Answer) : Prop := a.file?.isSome → l.finished = true

/-- The answer a program point of `handleUploadSession` has decided on. -/
def SessionPC.answer? : SessionPC → Option Answer
  | .unlock a => some a
  | .done a => some a
  | _ => none

/-- Thread `t` holds `sess.mu` of an upload that has just left `uploads`. -/
def Dropping : Prop :=
  ∃ se, v.session = some se ∧ se.mu = some t ∧
    ((∃ size b, l = .dropped t size b) ∨ (l.closed = true ∧ l.owner ≠ some t))

/-- The assertion at a program point of `handleUploadSession` for a request on `id`. -/
def SessionAt (r : SessionRequest) : SessionPC → Prop
  | .start | .loadFile => Idle t l v
  | .lock =>
      Idle t l v ∧ l.published = true ∧ (r.method = .get ∨ r.method = .put ∨ r.method = .delete)
  | .stat => ∃ se, Held t l v se ∧ (r.method = .put ∨ r.method = .get)
  | .openFile current | .copy current =>
      ∃ se b, Held t l v se ∧ l = .live se.size b ∧ current = b.length ∧
        Go.parseInt r.offset = some current ∧ r.method = .put
  | .truncate current =>
      ∃ se b x, v.session = some se ∧ se.mu = some t ∧ l = .live se.size b ∧
        v.part = some (b ++ x) ∧ current = b.length
  | .rename newOffset =>
      ∃ se b, Held t l v se ∧ l = .live se.size b ∧ newOffset = b.length ∧ newOffset = se.size
  | .unregister newOffset =>
      ∃ se b, v.session = some se ∧ se.mu = some t ∧ l = .sealed t b ∧ newOffset = b.length ∧
        newOffset = se.size
  | .register newOffset =>
      ∃ se b, v.session = some se ∧ se.mu = some t ∧ l = .sealed t b ∧ newOffset = b.length ∧
        newOffset = se.size ∧ v.upload = false
  | .deleteEntry => r.method = .delete ∧ ∃ se, Held t l v se
  | .removeFile => r.method = .delete ∧ Dropping t l v
  | .unlock a => (∃ se, Held t l v se) ∧ a.sound l
  | .done a => Idle t l v ∧ a.sound l

/-- The assertion at a program point of `handleUploadSession`. -/
structure SessionLoc (r : SessionRequest) (pc : SessionPC) : Prop where
  about : ∀ a, pc.answer? = some a → a.about r.id
  here : r.id = id → SessionAt t l v r pc
  elsewhere : r.id ≠ id → Idle t l v

/-- The identifier a program point of `handleUploadCreate` works on, with the request's body. -/
def CreatePC.working? : CreatePC → Option (CreateBody × FileID)
  | .start => none
  | .create body fid => some (body, fid)
  | .rename body fid => some (body, fid)
  | .unregister body fid => some (body, fid)
  | .register body fid => some (body, fid)
  | .store body fid => some (body, fid)
  | .done _ => none

/-- The assertion at a program point of `handleUploadCreate` working on `id`. -/
def CreateAt (r : CreateRequest) : CreatePC → Prop
  | .start | .done _ => True
  | .create _ _ => v.part = none ∧ v.final = none ∧ v.session = none
  | .rename body _ =>
      v.part = some [] ∧ v.final = none ∧ body.size = 0 ∧ r.faults.create = false ∧
        ∃ se, v.session = some se ∧ se.size = 0
  | .unregister body _ | .register body _ =>
      v.part = none ∧ v.final = some [] ∧ body.size = 0 ∧ r.faults.rename = false ∧
        ∃ se, v.session = some se ∧ se.size = 0
  | .store body _ =>
      v.part = some [] ∧ v.final = none ∧ body.size ≠ 0 ∧
        ∃ se, v.session = some se ∧ se.size = body.size

/-- The assertion at a program point of `handleUploadCreate`. -/
structure CreateLoc (r : CreateRequest) (pc : CreatePC) : Prop where
  /-- The body has passed the checks and the identifier comes from `randomID`. -/
  made : ∀ body fid, pc.working? = some (body, fid) → checkCreate cfg r = .ok body ∧
    ∃ rand, r.rand = some rand ∧ randomID rand = fid
  here : ∀ body, pc.working? = some (body, id) → l = .building t ∧ CreateAt v r pc
  elsewhere : (∀ body, pc.working? ≠ some (body, id)) → Idle t l v
  answered : ∀ a, pc = .done a → ∀ f, a.file? = some f → f.fileID = id → l.finished = true
  leaked : ∀ a, pc = .done a → r.leaks cfg id → l = .orphan

/-- The identifier a program point of `handleUpload` works on. -/
def UploadPC.working? : UploadPC → Option FileID
  | .create _ fid => some fid
  | .copy _ fid => some fid
  | .discard fid _ _ => some fid
  | .register _ fid _ => some fid
  | _ => none

/-- The assertion at a program point of `handleUpload` working on `id`. -/
def UploadAt : UploadPC → Prop
  | .start | .done _ => True
  | .create _ _ => v.final = none
  | .copy _ _ => v.final = some []
  | .discard _ _ _ => ∃ b, v.final = some b
  | .register _ _ written =>
      ∃ b, v.final = some b ∧ written = b.length ∧ written ≤ cfg.maxUploadBytes

/-- The assertion at a program point of `handleUpload`. -/
structure UploadLoc (r : UploadRequest) (pc : UploadPC) : Prop where
  made : ∀ fid, pc.working? = some fid → ∃ rand, r.rand = some rand ∧ randomID rand = fid
  here : pc.working? = some id →
    l = .building t ∧ v.part = none ∧ v.session = none ∧ UploadAt cfg v pc
  elsewhere : pc.working? ≠ some id → Idle t l v
  answered : ∀ a, pc = .done a → ∀ f, a.file? = some f → f.fileID = id → l.finished = true

/-- The identifier a program point of the purge has a part in. -/
def PurgePC.working? : PurgePC → Option FileID
  | .removeRecord visit _ _ => some visit.1
  | .check visit _ => some visit.1
  | .deleteEntry visit _ => some visit.1
  | .removeFile visit _ => some visit.1
  | .unlock visit _ => some visit.1
  | _ => none

/-- The visits of a walk that a program point of the purge has still to finish. -/
def PurgePC.visits : PurgePC → List (FileID × Bool)
  | .files rest => rest
  | .deleteRecord visit _ rest => visit :: rest
  | .removeRecord visit _ rest => visit :: rest
  | .uploads rest => rest
  | .lock visit rest => visit :: rest
  | .check visit rest => visit :: rest
  | .deleteEntry visit rest => visit :: rest
  | .removeFile visit rest => visit :: rest
  | .unlock visit rest => visit :: rest
  | _ => []

/-- The assertion at a program point of the purge, apart from idleness. -/
def PurgeAt (cutoff : Time) : PurgePC → Prop
  | .deleteRecord visit rec _ =>
      rec.path = .final visit.1 ∧ rec.createdAt < cutoff ∧
        (visit.1 = id → l.finished = true ∧ ∀ rec' b, l = .registered rec' b → rec' = rec)
  | .removeRecord visit rec _ =>
      rec.path = .final visit.1 ∧ (visit.1 = id → l.expired = true ∧ v.mu ≠ some t)
  | .lock visit _ => visit.1 = id → l.published = true
  | .check visit _ | .deleteEntry visit _ | .unlock visit _ => visit.1 = id → ∃ se, Held t l v se
  | .removeFile visit _ => visit.1 = id → Dropping t l v
  | .start | .files _ | .uploads _ | .done => True

/-- The assertion at a program point of the purge. -/
structure PurgeLoc (r : PurgeRequest) (cutoff : Time) (pc : PurgePC) : Prop where
  visits : ∀ visit ∈ pc.visits, visit ∈ r.filesRange ∨ visit ∈ r.uploadsRange
  here : PurgeAt id t l v cutoff pc
  elsewhere : pc.working? ≠ some id → Idle t l v

/-- The assertion of thread `t`. -/
def Loc (th : Thread) : Prop :=
  P th.request ∧ match th with
    | .upload r pc => UploadLoc cfg id t l v r pc
    | .create r pc => CreateLoc cfg id t l v r pc
    | .session r pc => SessionLoc id t l v r pc
    | .purge r cutoff pc => PurgeLoc id t l v r cutoff pc

/-- A section of thread `t` keeps the invariant and its guarantee. -/
structure Sound (s : Server) (l' : Life) (s' : Server) : Prop where
  inv : Inv cfg P id l' s'
  guar : Guar cfg P id t l (s.view id) l' (s'.view id)

end Assertions

variable {cfg : Config} {P : Request → Prop} {id : FileID} {t u : Tid} {l l' : Life} {v v' : View}
  {s s' : Server} {se se' : UploadSession}

/-! ## Lives -/

namespace Life

/-- A closed upload takes no more chunks. It is finished, expired or gone, and there is no way back
from these. -/
theorem ne_live_of_closed (h : l.closed = true) (size : ℤ) (b : Bytes) : l ≠ .live size b := by
  rintro rfl
  cases h

/-- What is closed has been published before. The identifier had been given to a client, or its file
was made at once. -/
theorem published_of_closed (h : l.closed = true) : l.published = true := by
  cases l <;> first | rfl | cases h

/-- An identifier with an entry in `uploads` is published and not yet closed. -/
theorem Holds.of_upload (h : l.Holds cfg P v) (hup : v.upload = true) :
    l.published = true ∧ l.closed = false := by
  cases l with
  | unused =>
      subst h
      cases hup
  | live | sealed | dropped => exact ⟨rfl, rfl⟩
  | building | registered | expiring | reclaimed | gone | orphan =>
      rw [h.2.1] at hup
      cases hup

/-- An identifier with an entry in `files` is registered. In every other state of its life the index
has no entry for it. -/
theorem Holds.of_file {rec : FileRecord} (h : l.Holds cfg P v) (hf : v.file = some rec) :
    ∃ b, l = .registered rec b := by
  cases l with
  | unused =>
      subst h
      cases hf
  | registered rec' b =>
      obtain rfl := Option.some.inj (h.2.2.2.2.1.symm.trans hf)
      exact ⟨b, rfl⟩
  | building => rw [h.2.2.1] at hf; cases hf
  | live => rw [h.2.2.1] at hf; cases hf
  | dropped => rw [h.2.2.1] at hf; cases hf
  | sealed => rw [h.2.2.2.1] at hf; cases hf
  | expiring => rw [h.2.2.2.1] at hf; cases hf
  | reclaimed | gone => rw [h.2.2.2.2] at hf; cases hf
  | orphan => rw [h.2.2.1] at hf; cases hf

/-- A closed upload has neither a `.part` file nor an entry in `uploads`. -/
theorem Holds.of_closed (h : l.Holds cfg P v) (hc : l.closed = true) :
    v.part = none ∧ v.upload = false := by
  cases l with
  | registered | expiring | reclaimed | gone => exact ⟨h.2.2.1, h.2.1⟩
  | unused | building | live | dropped | sealed | orphan => cases hc

end Life

/-! ## Guarantees -/

/-- The holder of `sess.mu` in a view. It is nobody when there is no session object. -/
theorem View.mu_of_session (h : v.session = some se) : v.mu = se.mu := by
  rw [View.mu, h, Option.bind_some]

namespace Guar

/-- A section that changes nothing about `id` guarantees everything. -/
theorem same : Guar cfg P id t l v l v where
  moves := .refl
  owner _ _ h := h
  mu _ _ h := h
  building _ _ _ := ⟨rfl, rfl⟩
  locked _ _ _ hs _ := ⟨hs, rfl, rfl, .inl rfl⟩

/-- A section of a thread that has a part in the upload, where no other thread has one. -/
theorem of_part (hb : ∀ u, l = .building u → u = t) (hmu : ∀ u, v.mu = some u → u = t)
    (hmoves : Life.Moves cfg P id l l')
    (hown : ∀ u, l'.owner = some u → u = t ∨ l.owner = some u)
    (hmu' : ∀ u, v'.mu = some u → u = t) : Guar cfg P id t l v l' v' where
  moves := hmoves
  owner u hu h := (hown u h).resolve_left hu
  mu u hu h := absurd (hmu' u h) hu
  building u hu h := absurd (hb u h) hu
  locked u se hu hs hm := by
    have : v.mu = some u := (View.mu_of_session hs).trans hm
    exact absurd (hmu u this) hu

/-- The expiry of a finished file, which needs no part in the upload. -/
theorem of_expire (hc : l.closed = true) (hmoves : Life.Moves cfg P id l l')
    (hown : ∀ u, l'.owner = some u → u = t ∨ l.owner = some u)
    (hs : v'.session = v.session) (hp : v'.part = v.part) (hu : v'.upload = v.upload) :
    Guar cfg P id t l v l' v' where
  moves := hmoves
  owner u hu h := (hown u h).resolve_left hu
  mu u _ h := by rwa [View.mu, hs] at h
  building u _ h := by
    subst h
    cases hc
  locked u se _ h _ := ⟨hs.trans h, hp, hu, .inr hc⟩

/-- A thread without a part in the upload is not given one. Ownership and `sess.mu` are only ever
taken for oneself. -/
theorem idle (h : Guar cfg P id t l v l' v') (htu : t ≠ u) (hi : Idle u l v) : Idle u l' v' :=
  ⟨fun h' => hi.1 (h.owner u htu.symm h'), fun h' => hi.2 (h.mu u htu.symm h')⟩

/-- While another thread holds `sess.mu` of an upload in progress, its life stands still. -/
theorem life_eq (h : Guar cfg P id t l v l' v') (htu : t ≠ u) (hs : v.session = some se)
    (hmu : se.mu = some u) (hc : l.closed = false) : l' = l := by
  obtain ⟨-, -, -, hl⟩ := h.locked u se htu.symm hs hmu
  exact hl.resolve_right (by simp [hc])

end Guar

/-! ## Stability -/

/-- Another thread keeps holding `sess.mu`. The session object, its offset and the `.part` file stay
as they are as long as it does. -/
theorem Held.stable (hg : Guar cfg P id t l v l' v') (htu : t ≠ u) (h : Held u l v se) :
    Held u l' v' se := by
  obtain ⟨hs, hp, -, hl⟩ := hg.locked u se htu.symm h.session h.mu
  refine ⟨hs, h.mu, hg.moves.published h.published,
    fun h' => h.free (hg.owner u htu.symm h'), fun size b hlive => ?_⟩
  rcases hl with rfl | hc
  · exact hp.trans (h.quiet size b hlive)
  · exact absurd hlive (Life.ne_live_of_closed (hg.moves.closed hc) size b)

/-- A sound answer stays sound. Finished is a property that a life never loses. -/
theorem Answer.sound.stable {a : Answer} (hg : Guar cfg P id t l v l' v') (h : a.sound l) :
    a.sound l' := fun hf => hg.moves.finished (h hf)

/-- Who is dropping an upload is not disturbed: it holds the lock, and nobody publishes the upload
again. -/
theorem Dropping.stable (hg : Guar cfg P id t l v l' v') (htu : t ≠ u) (h : Dropping u l v) :
    Dropping u l' v' := by
  obtain ⟨se, hs, hmu, ⟨size, b, hl⟩ | ⟨hc, ho⟩⟩ := h
  · have hl' := hg.life_eq htu hs hmu (by rw [hl]; rfl)
    exact ⟨se, (hg.locked u se htu.symm hs hmu).1, hmu, .inl ⟨size, b, hl'.trans hl⟩⟩
  · exact ⟨se, (hg.locked u se htu.symm hs hmu).1, hmu,
      .inr ⟨hg.moves.closed hc, fun h' => ho (hg.owner u htu.symm h')⟩⟩

/-- **The assertions of `handleUploadSession` survive the sections of the others.** They speak of
what the lock protects, and of what only ever happens once. -/
theorem SessionAt.stable {r : SessionRequest} {pc : SessionPC} (hg : Guar cfg P id t l v l' v')
    (htu : t ≠ u) (h : SessionAt u l v r pc) : SessionAt u l' v' r pc := by
  cases pc with
  | start => exact hg.idle htu h
  | loadFile => exact hg.idle htu h
  | lock => exact ⟨hg.idle htu h.1, hg.moves.published h.2.1, h.2.2⟩
  | stat =>
      obtain ⟨se, hheld, hm⟩ := h
      exact ⟨se, hheld.stable hg htu, hm⟩
  | openFile current | copy current =>
      obtain ⟨se, b, hheld, hl, hrest⟩ := h
      have hl' := hg.life_eq htu hheld.session hheld.mu (by rw [hl]; rfl)
      exact ⟨se, b, hheld.stable hg htu, hl'.trans hl, hrest⟩
  | truncate current =>
      obtain ⟨se, b, x, hs, hmu, hl, hp, hcur⟩ := h
      have hl' := hg.life_eq htu hs hmu (by rw [hl]; rfl)
      obtain ⟨hs', hp', -, -⟩ := hg.locked u se htu.symm hs hmu
      exact ⟨se, b, x, hs', hmu, hl'.trans hl, hp'.trans hp, hcur⟩
  | rename newOffset =>
      obtain ⟨se, b, hheld, hl, hrest⟩ := h
      have hl' := hg.life_eq htu hheld.session hheld.mu (by rw [hl]; rfl)
      exact ⟨se, b, hheld.stable hg htu, hl'.trans hl, hrest⟩
  | unregister newOffset =>
      obtain ⟨se, b, hs, hmu, hl, hrest⟩ := h
      have hl' := hg.life_eq htu hs hmu (by rw [hl]; rfl)
      exact ⟨se, b, (hg.locked u se htu.symm hs hmu).1, hmu, hl'.trans hl, hrest⟩
  | register newOffset =>
      obtain ⟨se, b, hs, hmu, hl, hn, hsize, hup⟩ := h
      have hl' := hg.life_eq htu hs hmu (by rw [hl]; rfl)
      obtain ⟨hs', -, hup', -⟩ := hg.locked u se htu.symm hs hmu
      exact ⟨se, b, hs', hmu, hl'.trans hl, hn, hsize, hup'.trans hup⟩
  | deleteEntry =>
      obtain ⟨hm, se, hheld⟩ := h
      exact ⟨hm, se, hheld.stable hg htu⟩
  | removeFile => exact ⟨h.1, h.2.stable hg htu⟩
  | unlock a =>
      obtain ⟨⟨se, hheld⟩, ha⟩ := h
      exact ⟨⟨se, hheld.stable hg htu⟩, ha.stable hg⟩
  | done a => exact ⟨hg.idle htu h.1, h.2.stable hg⟩

/-- **The assertions of the purge survive the sections of the others.** What has expired stays
expired, and a mutex that it holds is not taken from it. -/
theorem PurgeAt.stable {cutoff : Time} {pc : PurgePC} (hg : Guar cfg P id t l v l' v')
    (htu : t ≠ u) (h : PurgeAt id u l v cutoff pc) : PurgeAt id u l' v' cutoff pc := by
  cases pc with
  | start | files | uploads | done => trivial
  | deleteRecord visit rec rest =>
      refine ⟨h.1, h.2.1, fun hid => ?_⟩
      obtain ⟨hc, hrec⟩ := h.2.2 hid
      refine ⟨hg.moves.finished hc, fun rec' b hl' => ?_⟩
      -- a finished upload that is registered now was registered with the same record before
      cases l with
      | registered rec₀ b₀ =>
          rcases Life.Moves.registered hg.moves with h₀ | h₀
          · obtain ⟨rfl, rfl⟩ := Life.registered.inj (h₀.symm.trans hl')
            exact hrec _ _ rfl
          · subst hl'
            cases h₀
      | expiring | reclaimed =>
          have := hg.moves.expired rfl
          subst hl'
          cases this
      | unused | building | live | dropped | sealed | gone | orphan => cases hc
  | removeRecord visit rec rest =>
      refine ⟨h.1, fun hid => ?_⟩
      obtain ⟨he, hmu⟩ := h.2 hid
      exact ⟨hg.moves.expired he, fun h' => hmu (hg.mu u htu.symm h')⟩
  | lock visit rest => exact fun hid => hg.moves.published (h hid)
  | check visit rest | deleteEntry visit rest | unlock visit rest =>
      intro hid
      obtain ⟨se, hheld⟩ := h hid
      exact ⟨se, hheld.stable hg htu⟩
  | removeFile visit rest => exact fun hid => (h hid).stable hg htu

/-- **Every assertion of one thread survives the sections of the others.** There is one case for
each kind of handler, each of which has a lemma above. -/
theorem Loc.stable {th : Thread} (hg : Guar cfg P id t l v l' v') (htu : t ≠ u)
    (h : Loc cfg P id u l v th) : Loc cfg P id u l' v' th := by
  refine ⟨h.1, ?_⟩
  cases th with
  | upload r pc =>
      obtain ⟨hmade, hhere, helse, hans⟩ := h.2
      refine ⟨hmade, fun hw => ?_, fun hw => hg.idle htu (helse hw),
        fun a ha f hf hid => hg.moves.finished (hans a ha f hf hid)⟩
      obtain ⟨rfl, rfl⟩ := hg.building u htu.symm (hhere hw).1
      exact hhere hw
  | create r pc =>
      obtain ⟨hmade, hhere, helse, hans, hleak⟩ := h.2
      refine ⟨hmade, fun body hw => ?_, fun hw => hg.idle htu (helse hw),
        fun a ha f hf hid => hg.moves.finished (hans a ha f hf hid), fun a ha hr => ?_⟩
      · obtain ⟨rfl, rfl⟩ := hg.building u htu.symm (hhere body hw).1
        exact hhere body hw
      · have hmoves := hg.moves
        rw [hleak a ha hr] at hmoves
        exact hmoves.orphan
  | session r pc =>
      exact ⟨h.2.about, fun hr => (h.2.here hr).stable hg htu, fun hr => hg.idle htu (h.2.elsewhere hr)⟩
  | purge r cutoff pc =>
      exact ⟨h.2.visits, h.2.here.stable hg htu, fun hw => hg.idle htu (h.2.elsewhere hw)⟩

end LanRoom.Upload
