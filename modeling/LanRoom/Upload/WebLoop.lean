import LanRoom.Upload.WebClient

/-! # The upload loop of the web client ends

The offset of the client never runs ahead of what the server has stored (`Life.Reached`), so a `PUT`
that is answered with a progress has moved it on; and between two such answers the client fails at
most `uploadMaxRetries` times. Both bound the requests it sends (`uploadResumable_ends`). -/

namespace LanRoom.Upload

open ThreadPool (Tid Outline)

variable {cfg : Config} {P : Request → Prop} {id : FileID} {t u : Tid} {l l' : Life} {v : View}
  {s s' : Server} {c d : ThreadPool.Config Server Thread} {offset size : ℤ}

/-! ## How far an upload has come -/

/-- The upload is one of `size` bytes, and at least `offset` of them have been stored. -/
def Life.Reached (offset size : ℤ) (l : Life) : Prop :=
  0 ≤ offset ∧ offset ≤ size ∧ match l with
    | .unused | .building _ | .orphan => False
    | .live declared b | .dropped _ declared b => declared = size ∧ offset ≤ b.length
    | .sealed _ b => (b.length : ℤ) = size
    | .registered rec _ => rec.size = size
    | .expiring _ | .reclaimed | .gone => True

/-- One move does not lose bytes. There is one case for each move, and appending a chunk is the only
one that changes the length. -/
theorem Life.Move.reached (h : Life.Move cfg P id l l') (hl : l.Reached offset size) :
    l'.Reached offset size := by
  obtain ⟨hpos, hle, hl⟩ := hl
  refine ⟨hpos, hle, ?_⟩
  cases h with
  | append hP hid hput hoff hx hsize =>
      obtain ⟨hdeclared, hstored⟩ := hl
      refine ⟨hdeclared, hstored.trans ?_⟩
      simp
  | complete t hfull => exact hfull.trans hl.1
  | register hrec => exact hrec.trans hl
  | drop t | keep hP hfail => exact hl
  | expire t hP | reclaim | stray hP hfail | cancel => trivial
  | issue t | publish t hP hbody hrand hid hpos hmax | finishEmpty t hP hbody hrand hid hsize hrec
  | finishForm t hP hrand hid hrec | abandon t | leak t hP hleak | litter t hP hfail =>
      exact hl.elim

/-- Stored bytes stay stored. An offset that was true when it was answered is thus never too large
later. -/
theorem Life.Moves.reached (h : Life.Moves cfg P id l l') (hl : l.Reached offset size) :
    l'.Reached offset size := by
  induction h with
  | refl => exact hl
  | tail _ hmove ih => exact hmove.reached ih

/-- The holder of `sess.mu` sees how far the upload has come. -/
theorem Held.reached {se : UploadSession} {b : Bytes} (hh : Held t l v se) (hl : l.Holds cfg P v)
    (hpart : v.part = some b) : l.Reached b.length se.size := by
  rcases hh.settled hl with ⟨b', rfl⟩ | hc
  · obtain rfl : b' = b := Option.some.inj ((hh.quiet _ _ rfl).symm.trans hpart)
    obtain ⟨-, -, -, -, hle, -⟩ := hl
    exact ⟨Int.natCast_nonneg _, hle, rfl, le_refl _⟩
  · rw [(hl.of_closed hc).1] at hpart
    cases hpart

/-! ## What answers tell -/

/-- What an answer about `id` says of the upload is true. -/
structure UploadStateResponse.Holds (body : UploadStateResponse) (l : Life) : Prop where
  chunkSize : body.chunkSize = uploadChunkSize
  reached : body.file = none → l.Reached body.offset body.size

/-- The answers of a thread are about its upload, and true. -/
def Thread.Truthful (id : FileID) (l : Life) : Thread → Prop
  | .session r pc => ∀ status body, pc.answer? = some (.state status body) →
      body.uploadID = r.id ∧ (r.id = id → body.Holds l)
  | .create _ (.done (.state _ body)) => body.uploadID = id → body.Holds l
  | _ => True

/-- What an answer says of an upload stays true. It says at least how many bytes are stored, and
these only become more. -/
theorem UploadStateResponse.Holds.mono {body : UploadStateResponse} (h : body.Holds l)
    (hmoves : Life.Moves cfg P id l l') : body.Holds l' :=
  ⟨h.chunkSize, fun hfile => hmoves.reached (h.reached hfile)⟩

/-- A thread that has decided on a true answer keeps it. Until it is received the life may go on,
and the answer goes on being true. -/
theorem Thread.Truthful.mono {th : Thread} (h : th.Truthful id l)
    (hmoves : Life.Moves cfg P id l l') : th.Truthful id l' := by
  unfold Thread.Truthful at h ⊢
  split
  · intro status body hanswer
    obtain ⟨hid, hholds⟩ := h status body hanswer
    exact ⟨hid, fun heq => (hholds heq).mono hmoves⟩
  · exact fun hid => (h hid).mono hmoves
  · trivial

/-- An answer with a file says nothing of how far the upload has come. -/
theorem UploadStateResponse.Holds.of_file {body : UploadStateResponse}
    (hchunk : body.chunkSize = uploadChunkSize) (hfile : body.file ≠ none) : body.Holds l :=
  ⟨hchunk, fun hnone => absurd hnone hfile⟩

/-- The holder of `sess.mu` reports the number of stored bytes. -/
theorem holds_progress {se : UploadSession} {b : Bytes} {n : ℤ}
    (hinv : Inv cfg P id l s) (hheld : ∃ se, Held t l (s.view id) se)
    (hse : s.sessions id = some se) (hb : s.disk (.part id) = some b) (hn : n = b.length) :
    (⟨id, n, se.size, uploadChunkSize, none⟩ : UploadStateResponse).Holds l := by
  obtain ⟨se', hh⟩ := hheld
  obtain rfl := Option.some.inj (hh.session.symm.trans hse)
  refine ⟨rfl, fun _ => ?_⟩
  rw [hn]
  exact hh.reached hinv.holds hb

/-- **A section of `handleUploadSession` decides on true answers only.** The offset it names is the
length of the `.part` file at that moment, and a file it names is registered. -/
theorem SessionSection.truthful {r : SessionRequest} {pc pc' : SessionPC}
    (h : SessionSection t s r pc s' pc') (hinv : Inv cfg P id l s) (hinv' : Inv cfg P id l' s')
    (hloc : SessionLoc id t l (s.view id) r pc) (hloc' : SessionLoc id t l' (s'.view id) r pc')
    (hmoves : Life.Moves cfg P id l l') (hold : (Thread.session r pc).Truthful id l) :
    (Thread.session r pc').Truthful id l' := by
  intro status body hanswer
  cases h with
  | missing | loaded | locked | lockedDelete | continued | opened | tooLong | full | renamed
  | unregistered | dropped => cases hanswer
  | notHex | wrongMethod | notFound | statFails | openFails | interrupted | truncated
  | renameFails | removed => cases hanswer
  | unlocked =>
      obtain ⟨hid, hholds⟩ := hold status body hanswer
      exact ⟨hid, fun heq => (hholds heq).mono hmoves⟩
  | finished hrec hm =>
      cases hanswer
      exact ⟨rfl, fun _ => .of_file rfl nofun⟩
  | registered hse =>
      cases hanswer
      exact ⟨rfl, fun _ => .of_file rfl nofun⟩
  | offset hse hb | conflict hse hb =>
      cases hanswer
      refine ⟨rfl, fun heq => ?_⟩
      subst heq
      rw [(hinv'.wf.session _ _ hse).1] at hb
      exact holds_progress hinv' (hloc'.here rfl).1 hse hb rfl
  | @stored current se data hse hdata hlim =>
      cases hanswer
      refine ⟨rfl, fun heq => ?_⟩
      subst heq
      -- the chunk has been appended to the bytes stored before
      obtain ⟨se', b, hh, hl, hcurrent, -⟩ := hloc.here rfl
      obtain rfl : se = se' := Option.some.inj (hse.symm.trans hh.session)
      have hview := Server.view_storeChunk (s := s) (hinv.wf.session _ _ hse).1 data
      have hpart : ((storeChunk s r.id se data).view r.id).part = some (b ++ data) := by
        rw [hview]
        show ((s.view r.id).part.map (· ++ data)) = _
        rw [hh.quiet _ _ hl, Option.map_some]
      have hsession : ((storeChunk s r.id se data).view r.id).session =
          some { se with updatedAt := s.now } := by
        rw [hview]
      have hlength : current + (data.length : ℤ) = ((b ++ data).length : ℤ) := by
        rw [hcurrent, List.length_append, Nat.cast_add]
      have hholds := holds_progress hinv' (hloc'.here rfl).1 hsession hpart hlength
      exact hholds

/-- A refusal of `handleUploadCreate` is an error. It tells the client nothing about an upload. -/
theorem error_of_checkCreate {r : CreateRequest} {a : Answer} (h : checkCreate cfg r = .error a) :
    ∃ status text, a = .error status text := by
  unfold checkCreate at h
  split at h
  · obtain rfl := Except.error.inj h
    exact ⟨_, _, rfl⟩
  · split at h
    · obtain rfl := Except.error.inj h
      exact ⟨_, _, rfl⟩
    · split at h
      · obtain rfl := Except.error.inj h
        exact ⟨_, _, rfl⟩
      · split at h
        · obtain rfl := Except.error.inj h
          exact ⟨_, _, rfl⟩
        · cases h

/-- A new session is answered truly. Its offset is zero, and its size is the one that was asked
for. -/
theorem CreateSection.truthful {r : CreateRequest} {pc pc' : CreatePC}
    (h : CreateSection cfg s r pc s' pc') (hinv' : Inv cfg P id l' s')
    (hloc : CreateLoc cfg id t l (s.view id) r pc) : (Thread.create r pc').Truthful id l' := by
  cases h with
  | refused hcheck =>
      obtain ⟨status, text, rfl⟩ := error_of_checkCreate hcheck
      trivial
  | noID | issued | createFails | createdEmpty | created | renameFails | renamed | unregistered =>
      trivial
  | registered hse =>
      intro hid
      exact .of_file rfl nofun
  | @stored body fid =>
      intro hid
      obtain rfl : fid = id := hid
      obtain ⟨-, hpart, -, hsize, se, hse, hsize'⟩ := hloc.here body rfl
      have hholds := hinv'.holds
      rw [Server.view_setUpload] at hholds
      refine ⟨rfl, fun _ => ?_⟩
      -- among the lives with an entry in `uploads`, only that of a new session has an empty file
      obtain ⟨hpub, hopen⟩ := hholds.of_upload rfl
      cases l' with
      | live declared b =>
          obtain ⟨-, -, -, hpos, -, -, se', x, hse', hdeclared, -⟩ := hholds
          obtain rfl := Option.some.inj (hse.symm.trans hse')
          have heq : declared = body.size := hdeclared.symm.trans hsize'
          exact ⟨le_refl _, heq ▸ hpos.le, heq, Int.natCast_nonneg _⟩
      | dropped u declared b =>
          obtain ⟨-, -, -, -, -, hno, -⟩ := hholds
          cases hno
      | sealed u b =>
          obtain ⟨-, hno, -⟩ := hholds
          rw [show (s.view fid).part = none from hno] at hpart
          cases hpart
      | unused | building | orphan => cases hpub
      | registered | expiring | reclaimed | gone => cases hopen

/-- All answers given so far about `id` are true. -/
def Truthful (id : FileID) (l : Life) (c : ThreadPool.Config Server Thread) : Prop :=
  ∀ (t : Tid) (th : Thread), c.threads[t]? = some th → th.Truthful id l

/-- **The step theorem**: no action makes an answer untrue. The thread that moves may decide on an
answer, and the others keep theirs. -/
theorem truthful_exec {act : ThreadPool.Act Thread Unit ℕ}
    (hvalid : (outline cfg P id).Valid l c) (harrive : Arrivals P c act)
    (hexec : (machine cfg).exec c act = some d) (hm : (outline cfg P id).Matched l l' c d act)
    (htruthful : Truthful id l c) : Truthful id l' d := by
  refine hm.threads (E := fun _ l _ th => th.Truthful id l) hexec (fun t th hth => htruthful t th hth)
    ?_ ?_ ?_ ?_
  · rintro t th rfl
    obtain ⟨r, rfl, -⟩ := harrive _ rfl
    -- a request that arrives has no answer yet
    cases r with
    | session r => exact fun _ _ hanswer => by cases hanswer
    | upload r | create r | purge r => trivial
  · intro e t th _ hold
    exact hold
  · intro t k th th' fs hact hth hstep hth'
    obtain ⟨hthread, rfl⟩ := machine_step_iff.mp hstep
    refine ⟨?_, fun _ hf => absurd hf List.not_mem_nil⟩
    cases th with
    | upload r pc =>
        obtain ⟨x, -, heq⟩ := Option.map_eq_some_iff.mp hthread
        obtain ⟨-, rfl⟩ := Prod.mk.inj heq
        trivial
    | purge r cutoff pc =>
        obtain ⟨x, -, heq⟩ := Option.map_eq_some_iff.mp hthread
        obtain ⟨-, rfl⟩ := Prod.mk.inj heq
        trivial
    | create r pc =>
        obtain ⟨x, hsection, heq⟩ := Option.map_eq_some_iff.mp hthread
        obtain ⟨hs, rfl⟩ := Prod.mk.inj heq
        have hsec : CreateSection cfg c.shared r pc d.shared x.2 := by
          rw [← hs]
          exact .of_step hsection
        -- a created session is of offset 0, which the upload has certainly reached
        exact hsec.truthful hm.valid.inv (hvalid.loc t _ hth).2
    | session r pc =>
        obtain ⟨x, hsection, heq⟩ := Option.map_eq_some_iff.mp hthread
        obtain ⟨hs, rfl⟩ := Prod.mk.inj heq
        have hsec : SessionSection t c.shared r pc d.shared x.2 := by
          rw [← hs]
          exact .of_step hsection
        exact hsec.truthful hvalid.inv hm.valid.inv (hvalid.loc t _ hth).2
          (hm.valid.loc t _ hth').2 hm.moves (htruthful t _ hth)
  · -- the offsets in earlier answers stay reached, as stored bytes only grow
    intro t k u th _ _ _ hold
    exact hold.mono hm.moves

/-- **In every reachable configuration all answers are true.** It is the induction on the run by the
step theorem above. -/
theorem Reachable.truthful (h : Reachable cfg P c) (id : FileID) :
    ∃ l, (outline cfg P id).Valid l c ∧ Truthful id l c := by
  obtain ⟨now, hrun⟩ := h
  have hboot : Truthful id .unused (boot now) := by
    intro t th hth
    cases hth
  obtain ⟨l, hvalid, -, htruthful⟩ := Outline.run_invariant (fun _ _ hok => hok)
    (valid_boot cfg P id now) hboot
    (fun _ _ _ _ _ hvalid htruthful hok hexec hm => truthful_exec hvalid hok hexec hm htruthful)
    hrun
  exact ⟨l, hvalid, htruthful⟩

/-! ## What the server owes the client -/

/-- The client has sent `r` when it was at `offset` in a file of `size` bytes. -/
inductive Sends (offset size : ℤ) (r : SessionRequest) : Prop
  | get (hmethod : r.method = .get)
  | put (hmethod : r.method = .put) (hoffset : r.offset = Go.formatInt offset)
      (hbody : (r.body.length : ℤ) = min uploadChunkSize (size - offset))

/-- An answer that does the client some good: its offset is not behind, and beyond for a `PUT`. -/
def Settles (offset size : ℤ) (l : Life) (r : SessionRequest) : Answer → Prop
  | .state status body => status ≠ 413 ∧ offset ≤ body.offset ∧
      (body.file = none → l.Reached body.offset size) ∧
      (r.method = .put → body.file = none → offset < body.offset)
  | .error status _ => status ≠ 200 ∧ status ≠ 409 ∧ status ≠ 413
  | .file _ _ => False
  | .noContent => True

/-- What holds at a program point of a request sent at `offset`. -/
def Owed (offset size : ℤ) (l : Life) (r : SessionRequest) : SessionPC → Prop
  | .truncate _ => False
  | .unlock a | .done a => Settles offset size l r a
  | _ => l.Reached offset size

/-- An answer that does the client some good keeps doing so. The bound it states on the stored bytes
holds for good. -/
theorem Settles.mono {r : SessionRequest} {a : Answer} (h : Settles offset size l r a)
    (hmoves : Life.Moves cfg P id l l') : Settles offset size l' r a := by
  cases a with
  | state status body =>
      obtain ⟨hstatus, hle, hreached, hmore⟩ := h
      exact ⟨hstatus, hle, fun hfile => hmoves.reached (hreached hfile), hmore⟩
  | error status text | file status body | noContent => exact h

/-- What is owed to the client stays owed when the upload moves on. -/
theorem Owed.mono {r : SessionRequest} {pc : SessionPC} (h : Owed offset size l r pc)
    (hmoves : Life.Moves cfg P id l l') : Owed offset size l' r pc := by
  cases pc with
  | truncate current => exact h
  | unlock a | done a => exact Settles.mono h hmoves
  | start | loadFile | lock | stat | openFile | copy | rename | unregister | register | deleteEntry
  | removeFile => exact hmoves.reached h

/-- The holder of `sess.mu` of an upload that has come as far as `offset` finds more bytes. -/
theorem Life.Reached.le_of_held {se : UploadSession} {b : Bytes} (h : l.Reached offset size)
    (hh : Held t l v se) (hl : l.Holds cfg P v) (hpart : v.part = some b) :
    se.size = size ∧ offset ≤ b.length := by
  rcases hh.settled hl with ⟨b', rfl⟩ | hc
  · obtain rfl : b' = b := Option.some.inj ((hh.quiet _ _ rfl).symm.trans hpart)
    exact h.2.2
  · rw [(hl.of_closed hc).1] at hpart
    cases hpart

/-- A `PUT` is only answered with a conflict when its offset is another. -/
theorem ne_of_conflict {r : SessionRequest} {n k : ℤ} (hput : r.method = .put)
    (h : sessionStep t s r .stat = some (s', .unlock (progress 409 r.id n k))) :
    Go.parseInt r.offset ≠ some n := by
  have hmethod : ¬r.method = .get := by simp [hput]
  obtain ⟨se, -, h⟩ := Option.bind_eq_some_iff.mp h
  split at h
  · cases h
  · rw [if_neg hmethod] at h
    split at h
    · rename_i hne
      cases h
      exact hne
    · cases h

/-- A body that the limit admits is copied completely, or the copy fails. -/
theorem ioCopy_fits {body : Bytes} {n : ℤ} (hlimit : (body.length : ℤ) ≤ n) (err : Option CopyErr) :
    (ioCopy body n err).1.length ≤ body.length ∧
      ((ioCopy body n err).2 = none → (ioCopy body n err).1 = body) := by
  have hlimited : body.take n.toNat = body := by
    apply List.take_of_length_le
    omega
  unfold ioCopy
  rw [hlimited]
  cases err with
  | none => exact ⟨le_refl _, fun _ => rfl⟩
  | some e =>
      by_cases hafter : e.after ≤ body.length
      · simp only [if_pos hafter]
        exact ⟨List.length_take_le' .., fun hnone => by cases hnone⟩
      · simp only [if_neg hafter]
        exact ⟨le_refl _, fun _ => trivial⟩

/-- A body that is just as long as the server accepts is never too long, and stored completely
unless the copy fails. -/
theorem copy_of_fits {r : SessionRequest} {current : ℤ} {se : UploadSession} {pc' : SessionPC}
    (hse : s.sessions r.id = some se) (hfits : (r.body.length : ℤ) = chunkLimit se current)
    (h : sessionStep t s r (.copy current) = some (s', pc')) :
    pc' = .unlock chunkInterrupted ∨ pc' = .rename (current + r.body.length) ∨
      current + r.body.length ≠ se.size ∧
        pc' = .unlock (progress 200 r.id (current + r.body.length) se.size) := by
  -- the server copies at most one byte beyond the limit, which is enough to see that a chunk is too
  -- long
  have hlimit : (r.body.length : ℤ) ≤ chunkLimit se current + 1 := by omega
  obtain ⟨hle, hall⟩ := ioCopy_fits hlimit r.faults.copyErr
  simp only [sessionStep, hse, Option.bind_some] at h
  generalize ioCopy r.body (chunkLimit se current + 1) r.faults.copyErr = copied at h hle hall
  -- the whole chunk fits, so it is not refused as too long
  have hshort : ¬chunkLimit se current < (copied.1.length : ℤ) := by omega
  rw [if_neg hshort] at h
  split at h
  · obtain ⟨-, rfl⟩ := Prod.mk.inj (Option.some.inj h)
    exact .inl rfl
  · rename_i hclean
    -- a copy without an error has read the whole body
    have hnone : copied.2 = none := by
      cases hcopied : copied.2 with
      | none => rfl
      | some e => simp [hcopied] at hclean
    rw [hall hnone] at h
    split at h
    · obtain ⟨-, rfl⟩ := Prod.mk.inj (Option.some.inj h)
      exact .inr (.inl rfl)
    · rename_i hmore
      obtain ⟨-, rfl⟩ := Prod.mk.inj (Option.some.inj h)
      exact .inr (.inr ⟨hmore, rfl⟩)

/-- The offset of a request the client has sent is the one the server reads. -/
theorem parseInt_of_put {r : SessionRequest} {se : UploadSession} (hinv : Inv cfg P id l s)
    (hse : s.sessions id = some se) (hsize : se.size = size) (hreached : l.Reached offset size)
    (hoffset : r.offset = Go.formatInt offset) : Go.parseInt r.offset = some offset := by
  have hmax := (hinv.wf.session _ _ hse).2.2
  have hint := cfg.int64
  have hle := hreached.2.1
  rw [hoffset]
  exact Go.parseInt_formatInt hreached.1 (by omega)

/-- What the client sends is what the server accepts. In the section that copies, the offset agrees,
so the body is exactly what the server still accepts. -/
theorem Sends.fits {r : SessionRequest} {se : UploadSession} {current : ℤ}
    (hsends : Sends offset size r) (hinv : Inv cfg P r.id l s) (hse : s.sessions r.id = some se)
    (hat : SessionAt t l (s.view r.id) r (.copy current)) (hreached : l.Reached offset size) :
    offset = current ∧ se.size = size ∧ (r.body.length : ℤ) = chunkLimit se current := by
  obtain ⟨se', b, hh, hl, -, hparse, hput⟩ := hat
  obtain rfl : se = se' := Option.some.inj (hse.symm.trans hh.session)
  obtain ⟨hsize, -⟩ := hreached.le_of_held hh hinv.holds (hh.quiet _ _ hl)
  cases hsends with
  | get hmethod =>
      rw [hmethod] at hput
      cases hput
  | put hmethod hoffset hbody =>
      have hread := parseInt_of_put hinv hse hsize hreached hoffset
      obtain rfl := Option.some.inj (hread.symm.trans hparse)
      refine ⟨rfl, hsize, ?_⟩
      rw [hbody, chunkLimit, hsize]

/-- **One section** of a request the client has sent leads on to an answer that does it some good.
The first answer that would do it no good, an offset that is behind, is excluded by the stored bytes
that the client has been told of. -/
theorem Owed.section {r : SessionRequest} {pc pc' : SessionPC}
    (h : sessionStep t s r pc = some (s', pc')) (hinv : Inv cfg P r.id l s)
    (hloc : SessionLoc r.id t l (s.view r.id) r pc) (hmoves : Life.Moves cfg P r.id l l')
    (htruthful : (Thread.session r pc').Truthful r.id l') (hsends : Sends offset size r)
    (howed : Owed offset size l r pc) : Owed offset size l' r pc' := by
  have hreached : l.Reached offset size → l'.Reached offset size := hmoves.reached
  have hat := hloc.here rfl
  have hsection : SessionSection t s r pc s' pc' := .of_step h
  cases hsection with
  | notHex | wrongMethod | notFound | statFails | openFails | renameFails | interrupted =>
      show _ ≠ 200 ∧ _ ≠ 409 ∧ _ ≠ 413
      decide
  | missing | loaded | locked | lockedDelete | continued | opened | full | renamed | unregistered
  | dropped => exact hreached howed
  | removed => trivial
  | unlocked => exact howed.mono hmoves
  | truncated => exact howed.elim
  -- the upload is registered: the answer names the file
  | @finished rec hrec =>
      obtain ⟨b, rfl⟩ := hinv.holds.of_file hrec
      obtain ⟨-, hle, hsize⟩ := howed
      exact ⟨by decide, hle.trans (le_of_eq hsize.symm), nofun, fun _ => nofun⟩
  | registered hse =>
      obtain ⟨se', b, -, -, rfl, hnew, -⟩ := hat
      obtain ⟨-, hle, hsize⟩ := howed
      refine ⟨by decide, ?_, nofun, fun _ => nofun⟩
      rw [hnew]
      exact hle.trans (le_of_eq hsize.symm)
  | @offset se b hse hb hm =>
      obtain ⟨se', hh, -⟩ := hat
      obtain rfl : se = se' := Option.some.inj (hse.symm.trans hh.session)
      rw [(hinv.wf.session _ _ hse).1] at hb
      obtain ⟨hsize, hle⟩ := Life.Reached.le_of_held howed hh hinv.holds hb
      -- the answer to a `GET`, which brings the client up to date
      refine ⟨by decide, hle, fun _ => ?_, fun hput => ?_⟩
      · rw [← hsize]
        exact hmoves.reached (hh.reached hinv.holds hb)
      · rw [hm] at hput
        cases hput
  | @conflict se b hse hb hm =>
      obtain ⟨se', hh, -⟩ := hat
      obtain rfl : se = se' := Option.some.inj (hse.symm.trans hh.session)
      rw [(hinv.wf.session _ _ hse).1] at hb
      obtain ⟨hsize, hle⟩ := Life.Reached.le_of_held howed hh hinv.holds hb
      refine ⟨by decide, hle, fun _ => ?_, fun hput _ => ?_⟩
      · rw [← hsize]
        exact hmoves.reached (hh.reached hinv.holds hb)
      · -- the client is not ahead of the server, and not where it is
        have hne := ne_of_conflict hput h
        cases hsends with
        | get hmethod => exact absurd hmethod hm
        | put hmethod hoffset hbody =>
            rw [parseInt_of_put hinv hse hsize howed hoffset] at hne
            exact lt_of_le_of_ne hle fun heq => hne (congrArg some heq)
  -- the client never sends more than is missing
  | tooLong data hse hlong =>
      obtain ⟨-, -, hfits⟩ := hsends.fits hinv hse hat howed
      rcases copy_of_fits hse hfits h with heq | heq | ⟨-, heq⟩ <;> cases heq
  | @stored current se data hse hdata hlim =>
      obtain ⟨rfl, hsize, hfits⟩ := hsends.fits hinv hse hat howed
      have hstored : offset + (r.body.length : ℤ) ≠ se.size ∧
          offset + (data.length : ℤ) = offset + r.body.length := by
        rcases copy_of_fits hse hfits h with heq | heq | ⟨hmore, heq⟩
        · cases heq
        · cases heq
        · have hbody := (Answer.state.inj (SessionPC.unlock.inj heq)).2
          exact ⟨hmore, (UploadStateResponse.mk.inj hbody).2.1⟩
      obtain ⟨hmore, hlength⟩ := hstored
      have hle := howed.2.1
      have hbody := hfits
      rw [chunkLimit, hsize] at hbody
      -- an empty body is sent only when nothing is missing, and then the upload is finished
      have hpos : 0 < (r.body.length : ℤ) := by
        have hchunk : (0 : ℤ) < uploadChunkSize := by decide
        have hmissing : offset ≠ size := by
          rintro rfl
          refine hmore ?_
          rw [hbody, hsize, sub_self]
          omega
        omega
      obtain ⟨-, hholds⟩ := htruthful 200 _ rfl
      refine ⟨by decide, ?_, fun _ => ?_, fun _ _ => ?_⟩
      · show offset ≤ offset + (data.length : ℤ)
        omega
      · rw [← hsize]
        exact (hholds rfl).reached rfl
      · show offset < offset + (data.length : ℤ)
        omega

/-! ## Requests of the client at the server -/

/-- Thread `t` handles a request the client has sent at `offset`. -/
def Handles (method : Method) (id : FileID) (offset size : ℤ) (l : Life)
    (c : ThreadPool.Config Server Thread) (t : Tid) : Prop :=
  ∃ r pc, c.threads[t]? = some (.session r pc) ∧ r.id = id ∧ r.method = method ∧
    Sends offset size r ∧ Owed offset size l r pc

/-- **The step theorem** for the requests of the client: no action of the server takes anything away
from them. Sections of other threads only move the life on, and its own section is the case of
`Owed.section`. -/
theorem Handles.exec {method : Method} {act : ThreadPool.Act Thread Unit ℕ}
    (hvalid : (outline cfg P id).Valid l c) (hexec : (machine cfg).exec c act = some d)
    (hm : (outline cfg P id).Matched l l' c d act) (htruthful : Truthful id l' d)
    (h : Handles method id offset size l c t) : Handles method id offset size l' d t := by
  obtain ⟨r, pc, hth, rfl, hmethod, hsends, howed⟩ := h
  rcases (machine cfg).thread_after_exec hexec hth with hkept | ⟨k, th', fs, rfl, hstep, hth'⟩
  · exact ⟨r, pc, hkept, rfl, hmethod, hsends, howed.mono hm.moves⟩
  · obtain ⟨hthread, rfl⟩ := machine_step_iff.mp hstep
    obtain ⟨⟨s₁, pc'⟩, hsection, heq⟩ := Option.map_eq_some_iff.mp hthread
    obtain ⟨-, rfl⟩ := Prod.mk.inj heq
    have hloc := (hvalid.loc t _ hth).2
    exact ⟨r, pc', hth', rfl, hmethod, hsends,
      Owed.section hsection hvalid.inv hloc hm.moves (htruthful t _ hth') hsends howed⟩

/-- A thread that has ended moves no more. Its answer is there to be received or lost. -/
theorem Thread.step_of_answer {th : Thread} {a : Answer} (h : th.answer? = some a) :
    th.step cfg t s = none := by
  unfold Thread.answer? at h
  split at h
  · rfl
  · rfl
  · rfl
  · cases h

/-- Answers are not withdrawn. They can be received late or a second time. -/
theorem answered_exec {act : ThreadPool.Act Thread Unit ℕ} {th : Thread} {a : Answer}
    (hexec : (machine cfg).exec c act = some d) (hth : c.threads[t]? = some th)
    (hanswer : th.answer? = some a) : d.threads[t]? = some th := by
  rcases (machine cfg).thread_after_exec hexec hth with hkept | ⟨k, th', fs, rfl, hstep, -⟩
  · exact hkept
  · have hthread := (machine_step_iff.mp hstep).1
    rw [Thread.step_of_answer hanswer] at hthread
    cases hthread

/-! ## The invariant of client and server -/

variable {file : Bytes} {S S' : System}

/-- What holds of the client at its program points. -/
def Client.At (file : Bytes) (id : FileID) (l : Life) (server : ThreadPool.Config Server Thread)
    (c : Client) : Prop :=
  match c.pc with
  | .head => c.failures ≤ uploadMaxRetries
  | .sleep => c.session.file = none ∧ c.failures ≤ uploadMaxRetries
  | .put r handler => c.session.file = none ∧ c.failures ≤ uploadMaxRetries ∧ r.id = id ∧
      r.method = .put ∧ Sends c.offset file.length r ∧
      ∀ t, handler = some t → Handles .put id c.offset file.length l server t
  | .get r handler => c.session.file = none ∧ c.failures ≤ uploadMaxRetries ∧ r.id = id ∧
      r.method = .get ∧ Sends c.offset file.length r ∧
      ∀ t, handler = some t → Handles .get id c.offset file.length l server t
  | .returned f => c.session.file = some f
  | .thrown _ => True

/-- The **invariant**: the client believes nothing of the server that is not so. -/
structure InStep (cfg : Config) (file : Bytes) (id : FileID) (l : Life) (S : System) : Prop where
  valid : (outline cfg (fun _ => True) id).Valid l S.server
  truthful : Truthful id l S.server
  uploadId : S.client.uploadId = id
  answered : S.client.session.uploadID = id ∧ ∃ (t : Tid) (th : Thread) (status : ℕ),
    S.server.threads[t]? = some th ∧ th.answer? = some (.state status S.client.session)
  believed : S.client.session.file = none →
    S.client.chunkSize = uploadChunkSize ∧ l.Reached S.client.offset file.length
  sent : ∀ r ∈ S.client.sent, r.id = id ∧ ∃ offset, Sends offset file.length r ∧
    l.Reached offset file.length
  handlers : ∀ t ∈ S.handlers, ∃ offset, Handles .put id offset file.length l S.server t
  at_ : S.client.At file id l S.server

/-- What the server owes the client is all that depends on the server. -/
theorem Client.At.mono {client : Client} (h : client.At file id l c)
    (hhandles : ∀ {method : Method} {t : Tid}, Handles method id client.offset file.length l c t →
      Handles method id client.offset file.length l' d t) : client.At file id l' d := by
  unfold Client.At at h ⊢
  cases hpc : client.pc with
  | put r handler | get r handler =>
      rw [hpc] at h
      obtain ⟨hfile, hfailures, hid, hmethod, hsends, hhandler⟩ := h
      exact ⟨hfile, hfailures, hid, hmethod, hsends, fun t ht => hhandles (hhandler t ht)⟩
  | head | sleep | returned f | thrown e =>
      rw [hpc] at h
      exact h

/-- The server acts. It may handle requests of the client and of anybody else; the client itself
does not move. -/
theorem InStep.server {act : ThreadPool.Act Thread Unit ℕ} (h : InStep cfg file id l S)
    (harrive : Arrivals (fun _ => True) S.server act)
    (hexec : (machine cfg).exec S.server act = some d) :
    ∃ l', InStep cfg file id l' { S with server := d } ∧
      ((∀ t k, act ≠ .run t k) → l' = l) := by
  obtain ⟨l', hm⟩ := Outline.valid_exec h.valid harrive hexec
  have hmoves : Life.Moves cfg (fun _ => True) id l l' := hm.moves
  have htruthful := truthful_exec h.valid harrive hexec hm h.truthful
  -- a handler of the client stays one, whoever runs
  have hhandles : ∀ {method : Method} {offset : ℤ} {t : Tid},
      Handles method id offset file.length l S.server t →
        Handles method id offset file.length l' d t :=
    fun hh => hh.exec h.valid hexec hm htruthful
  refine ⟨l', ⟨hm.valid, htruthful, h.uploadId, ?_, fun hfile => ?_, fun r hr => ?_, fun t ht => ?_,
    h.at_.mono hhandles⟩, hm.idle⟩
  · obtain ⟨hid, t, th, status, hth, hanswer⟩ := h.answered
    exact ⟨hid, t, th, status, answered_exec hexec hth hanswer, hanswer⟩
  · obtain ⟨hchunk, hreached⟩ := h.believed hfile
    exact ⟨hchunk, hmoves.reached hreached⟩
  · obtain ⟨hid, offset, hsends, hreached⟩ := h.sent r hr
    exact ⟨hid, offset, hsends, hmoves.reached hreached⟩
  · obtain ⟨offset, hh⟩ := h.handlers t ht
    exact ⟨offset, hhandles hh⟩

/-- The faults a request meets are not the client's doing. They are drawn when it arrives. -/
theorem Sends.withFaults {r : SessionRequest} (h : Sends offset size r) (faults : Faults) :
    Sends offset size { r with faults } := by
  cases h with
  | get hmethod => exact .get hmethod
  | put hmethod hoffset hbody => exact .put hmethod hoffset hbody

/-- A request of the client arrives, and a thread handles it. -/
theorem InStep.arrive {r : SessionRequest} {method : Method} (h : InStep cfg file id l S)
    (faults : Faults) (hid : r.id = id) (hmethod : r.method = method) (hsends : Sends offset file.length r)
    (hreached : l.Reached offset file.length) :
    InStep cfg file id l { S with server := S.arrive { r with faults } } ∧
      Handles method id offset file.length l (S.arrive { r with faults }) S.newTid := by
  have hexec : (machine cfg).exec S.server (.spawn (.session { r with faults } .start)) =
      some (S.arrive { r with faults }) := rfl
  have harrive : Arrivals (fun _ => True) S.server (.spawn (.session { r with faults } .start)) := by
    rintro th ⟨⟩
    exact ⟨.session { r with faults }, rfl, trivial⟩
  obtain ⟨l', hinstep, hidle⟩ := h.server harrive hexec
  obtain rfl := hidle fun t k heq => by cases heq
  refine ⟨hinstep, { r with faults }, .start, ?_, hid, hmethod, hsends.withFaults faults, hreached⟩
  exact List.getElem?_concat_length

/-- The request under way arrives. It becomes a thread of the server, from which the client waits
for an answer. -/
theorem InStep.deliver {faults : Faults} (h : InStep cfg file id l S)
    (hexec : S.deliver faults = some S') : InStep cfg file id l S' := by
  have hat := h.at_
  unfold Client.At at hat
  unfold System.deliver at hexec
  split at hexec
  · -- a PUT: its handler may also be the one that is recorded as answering the chunk
    rename_i r hpc
    rw [hpc] at hat
    obtain ⟨hfile, hfailures, hid, hmethod, hsends, -⟩ := hat
    obtain ⟨harrived, hhandles⟩ := h.arrive faults hid hmethod hsends (h.believed hfile).2
    obtain rfl := Option.some.inj hexec
    refine ⟨harrived.valid, harrived.truthful, h.uploadId, harrived.answered, h.believed, h.sent,
      fun t ht => ?_, hfile, hfailures, hid, hmethod, hsends, ?_⟩
    · rcases List.mem_append.mp ht with hold | hnew
      · exact harrived.handlers t hold
      · obtain rfl := List.mem_singleton.mp hnew
        exact ⟨_, hhandles⟩
    · rintro t ⟨⟩
      exact hhandles
  · -- a GET
    rename_i r hpc
    rw [hpc] at hat
    obtain ⟨hfile, hfailures, hid, hmethod, hsends, -⟩ := hat
    obtain ⟨harrived, hhandles⟩ := h.arrive faults hid hmethod hsends (h.believed hfile).2
    obtain rfl := Option.some.inj hexec
    refine ⟨harrived.valid, harrived.truthful, h.uploadId, harrived.answered, h.believed, h.sent,
      harrived.handlers, hfile, hfailures, hid, hmethod, hsends, ?_⟩
    rintro t ⟨⟩
    exact hhandles
  · cases hexec

/-- A request sent before arrives. The client does not wait for its answer any more, but its bytes
may be stored. -/
theorem InStep.late {i : ℕ} {faults : Faults} (h : InStep cfg file id l S)
    (hexec : S.late i faults = some S') : InStep cfg file id l S' := by
  obtain ⟨r, hr, rfl⟩ := Option.map_eq_some_iff.mp hexec
  obtain ⟨hid, offset, hsends, hreached⟩ := h.sent r (List.mem_of_getElem? hr)
  obtain ⟨harrived, -⟩ := h.arrive faults hid rfl hsends hreached
  refine ⟨harrived.valid, harrived.truthful, h.uploadId, harrived.answered, h.believed, h.sent,
    fun t ht => ?_, harrived.at_⟩
  by_cases hmethod : r.method = .put
  · simp only [if_pos hmethod] at ht
    rcases List.mem_append.mp ht with hold | hnew
    · exact harrived.handlers t hold
    · obtain rfl := List.mem_singleton.mp hnew
      exact ⟨offset, (h.arrive faults hid hmethod hsends hreached).2⟩
  · simp only [if_neg hmethod] at ht
    exact harrived.handlers t ht

/-! ## What the client still has to do -/

/-- The requests left at the condition of the loop: a `PUT` for each missing byte with the failures
it forgives, and what the failures so far leave. -/
def Client.budget (size : ℕ) (c : Client) : ℕ :=
  (2 * uploadMaxRetries + 1) * ((size : ℤ) - c.offset).toNat +
    2 * (uploadMaxRetries + 1 - c.failures)

/-- The requests the client can still send. -/
def Client.left (size : ℕ) (c : Client) : ℕ :=
  match c.pc with
  | .head => if c.session.file = none then c.budget size else 0
  | .put _ _ => c.budget size - 1
  | .sleep => c.budget size + 1
  | .get _ _ => c.budget size
  | .returned _ | .thrown _ => 0

/-- The moves the client can still make. -/
def Client.rank (size : ℕ) (c : Client) : ℕ :=
  2 * c.left size + match c.pc with
    | .head | .sleep => 1
    | .put _ _ | .get _ _ => 2
    | .returned _ | .thrown _ => 0

/-- The client has come closer to the end by `n` moves, and has not gone back. -/
structure Advances (size n : ℕ) (c c' : Client) : Prop where
  offset : c.offset ≤ c'.offset
  requests : c'.sent.length + c'.left size ≤ c.sent.length + c.left size
  moves : c'.rank size + n ≤ c.rank size

/-- A client that does nothing sends nothing. It is the case of the moves of the server and of the
network. -/
theorem Advances.refl (size : ℕ) (c : Client) : Advances size 0 c c :=
  ⟨le_refl _, le_refl _, le_refl _⟩

/-- Two stretches of a run make one, and their moves add up. The induction on a run uses it once for
each move. -/
theorem Advances.trans {size m n : ℕ} {c₁ c₂ c₃ : Client} (h : Advances size m c₁ c₂)
    (h' : Advances size n c₂ c₃) : Advances size (m + n) c₁ c₃ := by
  refine ⟨h.offset.trans h'.offset, h'.requests.trans h.requests, ?_⟩
  have hfirst := h.moves
  have hsecond := h'.moves
  omega

/-- A client that has not failed too often has requests left. -/
theorem Client.two_le_budget {client : Client} (h : client.failures ≤ uploadMaxRetries) (size : ℕ) :
    2 ≤ client.budget size := by
  unfold Client.budget
  omega

/-- A client that stops is at the end. Nothing is left that it could send. -/
theorem Advances.of_stop {size : ℕ} {client : Client} {e : Thrown} {failures : ℕ}
    (hmoves : 0 < client.rank size) :
    Advances size 1 client { client with failures, pc := .thrown e } := by
  refine ⟨le_refl _, ?_, hmoves⟩
  show client.sent.length + 0 ≤ _
  omega

/-- The body of a `PUT` is the rest of the file, or a chunk of it. -/
theorem Client.sends_putRequest {client : Client} (hchunk : client.chunkSize = uploadChunkSize)
    (hpos : 0 ≤ client.offset) (hle : client.offset ≤ file.length) :
    Sends client.offset file.length (client.putRequest file) := by
  refine .put rfl rfl ?_
  have hvalue : uploadChunkSize = 8388608 := rfl
  unfold Client.putRequest
  simp only [List.length_take, List.length_drop, hchunk]
  omega

/-- **The client runs on.** In both branches it has sent one request more at most, and its rank has
fallen. -/
theorem InStep.go {client' : Client} (h : InStep cfg file id l S)
    (hexec : S.client.go file = some client') :
    InStep cfg file id l { S with client := client' } ∧
      Advances file.length 1 S.client client' := by
  have hat := h.at_
  unfold Client.At at hat
  unfold Client.go at hexec
  split at hexec
  · -- at the top of the loop: the file is returned, or the next chunk is sent
    rename_i hpc
    rw [hpc] at hat
    have hleft : S.client.left file.length =
        if S.client.session.file = none then S.client.budget file.length else 0 := by
      unfold Client.left
      rw [hpc]
    have hrank : S.client.rank file.length = 2 * S.client.left file.length + 1 := by
      unfold Client.rank
      rw [hpc]
    split at hexec
    · rename_i f hfile
      obtain rfl := Option.some.inj hexec
      refine ⟨⟨h.valid, h.truthful, h.uploadId, h.answered, h.believed, h.sent, h.handlers, hfile⟩,
        le_refl _, ?_, ?_⟩
      · show S.client.sent.length + 0 ≤ _
        omega
      · show 0 < S.client.rank file.length
        omega
    · rename_i hfile
      obtain rfl := Option.some.inj hexec
      obtain ⟨hchunk, hreached⟩ := h.believed hfile
      have hsends := Client.sends_putRequest hchunk hreached.1 hreached.2.1
      have hbudget := Client.two_le_budget hat file.length
      rw [if_pos hfile] at hleft
      refine ⟨⟨h.valid, h.truthful, h.uploadId, h.answered, h.believed, fun r hr => ?_, h.handlers,
        hfile, hat, h.uploadId, rfl, hsends, nofun⟩, le_refl _, ?_, ?_⟩
      · rcases List.mem_append.mp hr with hold | hnew
        · exact h.sent r hold
        · obtain rfl := List.mem_singleton.mp hnew
          exact ⟨h.uploadId, _, hsends, hreached⟩
      · show (S.client.sent ++ [_]).length + (S.client.budget file.length - 1) ≤ _
        rw [List.length_append, hleft]
        show S.client.sent.length + 1 + _ ≤ _
        omega
      · show 2 * (S.client.budget file.length - 1) + 2 < S.client.rank file.length
        omega
  · -- after the wait: the server is asked for the real offset
    rename_i hpc
    rw [hpc] at hat
    obtain ⟨hfile, hfailures⟩ := hat
    obtain rfl := Option.some.inj hexec
    obtain ⟨-, hreached⟩ := h.believed hfile
    have hsends : Sends S.client.offset file.length S.client.getRequest := .get rfl
    have hleft : S.client.left file.length = S.client.budget file.length + 1 := by
      unfold Client.left
      rw [hpc]
    have hrank : S.client.rank file.length = 2 * S.client.left file.length + 1 := by
      unfold Client.rank
      rw [hpc]
    refine ⟨⟨h.valid, h.truthful, h.uploadId, h.answered, h.believed, fun r hr => ?_, h.handlers,
      hfile, hfailures, h.uploadId, rfl, hsends, nofun⟩, le_refl _, ?_, ?_⟩
    · rcases List.mem_append.mp hr with hold | hnew
      · exact h.sent r hold
      · obtain rfl := List.mem_singleton.mp hnew
        exact ⟨h.uploadId, _, hsends, hreached⟩
    · show (S.client.sent ++ [_]).length + S.client.budget file.length ≤ _
      rw [List.length_append, hleft]
      show S.client.sent.length + 1 + _ ≤ _
      omega
    · show 2 * S.client.budget file.length + 2 < S.client.rank file.length
      omega
  · cases hexec

/-! ## Errors and answers -/

/-- More bytes are worth more than the failures they forgive. -/
theorem Client.budget_of_lt {size : ℕ} {client client' : Client}
    (hlt : client.offset < client'.offset) (hle : client'.offset ≤ size)
    (hfailures : client.failures ≤ uploadMaxRetries) :
    client'.budget size + 1 ≤ client.budget size := by
  have hmissing : ((size : ℤ) - client'.offset).toNat + 1 ≤ ((size : ℤ) - client.offset).toNat := by
    omega
  have hmul := Nat.mul_le_mul_left (2 * uploadMaxRetries + 1) hmissing
  rw [Nat.mul_succ] at hmul
  unfold Client.budget
  omega

/-- A client whose offset has not gone back has no more requests before it. -/
theorem Client.budget_of_le {size : ℕ} {client client' : Client}
    (hle : client.offset ≤ client'.offset) (hsame : client'.failures = client.failures) :
    client'.budget size ≤ client.budget size := by
  have hmissing : ((size : ℤ) - client'.offset).toNat ≤ ((size : ℤ) - client.offset).toNat := by
    omega
  have hmul := Nat.mul_le_mul_left (2 * uploadMaxRetries + 1) hmissing
  unfold Client.budget
  rw [hsame]
  omega

/-- One more failure costs two requests: the `PUT` that failed and the `GET` to come. -/
theorem Client.budget_of_failure {client : Client} (hagain : client.failures + 1 ≤ uploadMaxRetries)
    (size : ℕ) : Client.budget size { client with failures := client.failures + 1, pc := .sleep } + 2 =
      client.budget size := by
  unfold Client.budget
  show _ * ((size : ℤ) - client.offset).toNat + 2 * (uploadMaxRetries + 1 - (client.failures + 1)) +
    2 = _
  omega

/-- While a `PUT` is under way, one request of the budget has been spent. -/
theorem Client.left_of_put {client : Client} {r : SessionRequest} {handler : Option Tid}
    (hpc : client.pc = .put r handler) (hfailures : client.failures ≤ uploadMaxRetries) (size : ℕ) :
    client.left size + 1 = client.budget size := by
  have hbudget := Client.two_le_budget hfailures size
  unfold Client.left
  rw [hpc]
  exact Nat.sub_add_cancel (by omega)

/-- While a `GET` is under way, the budget is that of the next `PUT`. -/
theorem Client.left_of_get {client : Client} {r : SessionRequest} {handler : Option Tid}
    (hpc : client.pc = .get r handler) (size : ℕ) : client.left size = client.budget size := by
  unfold Client.left
  rw [hpc]

/-- A `PUT` has failed. The client counts one failure more, or gives up when there have been too
many. -/
theorem InStep.failed {r : SessionRequest} {handler : Option Tid} (h : InStep cfg file id l S)
    (hpc : S.client.pc = .put r handler) (err : UploadError) :
    InStep cfg file id l { S with client := S.client.failed err } ∧
      Advances file.length 1 S.client (S.client.failed err) := by
  have hat := h.at_
  unfold Client.At at hat
  rw [hpc] at hat
  obtain ⟨hfile, hfailures, -⟩ := hat
  have hleft := Client.left_of_put hpc hfailures file.length
  have hrank : S.client.rank file.length = 2 * S.client.left file.length + 2 := by
    unfold Client.rank
    rw [hpc]
  have hmoves : 0 < S.client.rank file.length := by omega
  unfold Client.failed
  split
  · -- the error is not retryable: the upload ends
    exact ⟨⟨h.valid, h.truthful, h.uploadId, h.answered, h.believed, h.sent, h.handlers, trivial⟩,
      Advances.of_stop hmoves⟩
  · split
    · -- the retries are used up
      exact ⟨⟨h.valid, h.truthful, h.uploadId, h.answered, h.believed, h.sent, h.handlers, trivial⟩,
        Advances.of_stop hmoves⟩
    · -- the wait and one GET follow, which the budget of a failure has paid for
      rename_i hmore
      have hagain : S.client.failures + 1 ≤ uploadMaxRetries := Nat.not_lt.mp hmore
      have hcost := Client.budget_of_failure hagain file.length
      refine ⟨⟨h.valid, h.truthful, h.uploadId, h.answered, h.believed, h.sent, h.handlers, hfile,
        hagain⟩, le_refl _, ?_, ?_⟩
      · show S.client.sent.length + (Client.budget file.length _ + 1) ≤ _
        omega
      · show 2 * (Client.budget file.length _ + 1) + 1 < _
        omega

/-- The answer to a request of the client does it some good. Its thread is at its end with this
answer. -/
theorem Handles.settles {method : Method} {a : Answer}
    (h : Handles method id offset size l S.server t) (ha : S.answerOf t = some a) :
    ∃ r : SessionRequest, S.server.threads[t]? = some (.session r (.done a)) ∧ r.id = id ∧
      r.method = method ∧ Settles offset size l r a := by
  obtain ⟨r, pc, hth, hid, hmethod, -, howed⟩ := h
  unfold System.answerOf at ha
  rw [hth] at ha
  have hanswer : (Thread.session r pc).answer? = some a := ha
  unfold Thread.answer? at hanswer
  split at hanswer
  · cases ‹Thread.session r pc = _›
  · cases ‹Thread.session r pc = _›
  · rename_i heq
    obtain ⟨-, rfl⟩ := Thread.session.inj heq
    obtain rfl := Option.some.inj hanswer
    exact ⟨r, hth, hid, hmethod, howed⟩
  · cases hanswer

/-- The progress of the server replaces that of the client. By truthfulness the offset in it is
backed by stored bytes. -/
theorem InStep.progressed {r : SessionRequest} {status failures : ℕ} {body : UploadStateResponse}
    (h : InStep cfg file id l S)
    (hth : S.server.threads[t]? = some (.session r (.done (.state status body)))) (hid : r.id = id)
    (hfile : S.client.session.file = none)
    (hreached : body.file = none → l.Reached body.offset file.length)
    (hfailures : failures ≤ uploadMaxRetries) :
    InStep cfg file id l { S with client := { S.client.progressed body with failures } } := by
  obtain ⟨hbody, -⟩ := h.truthful t _ hth status body rfl
  exact ⟨h.valid, h.truthful, h.uploadId, ⟨hbody.trans hid, t, _, status, hth, rfl⟩,
    fun hnone => ⟨(h.believed hfile).1, hreached hnone⟩, h.sent, h.handlers, hfailures⟩

/-- A client that has received a progress has come closer to the end. -/
theorem Advances.of_progressed {size failures : ℕ} {client : Client} {body : UploadStateResponse}
    (hle : client.offset ≤ body.offset) (hrank : client.rank size = 2 * client.left size + 2)
    (hless : body.file = none →
      Client.budget size { client.progressed body with failures } ≤ client.left size) :
    Advances size 1 client { client.progressed body with failures } := by
  have hleft : Client.left size { client.progressed body with failures } ≤ client.left size := by
    show (if body.file = none then Client.budget size _ else 0) ≤ _
    split
    · exact hless ‹_›
    · exact Nat.zero_le _
  refine ⟨hle, Nat.add_le_add_left hleft _, ?_⟩
  show 2 * Client.left size { client.progressed body with failures } + 1 < _
  omega

/-- The client has received the answer to a `PUT`. It makes progress, asks again or gives up, and
has fewer requests left in each case. -/
theorem InStep.putAnswered {r : SessionRequest} {a : Answer} (h : InStep cfg file id l S)
    (hpc : S.client.pc = .put r (some t)) (ha : S.answerOf t = some a) :
    InStep cfg file id l { S with client := S.client.putAnswered a } ∧
      Advances file.length 1 S.client (S.client.putAnswered a) ∧
      (a.status = 200 ∨ a.status = 409 → a.file? = none →
        S.client.offset < (S.client.putAnswered a).offset) := by
  have hat := h.at_
  unfold Client.At at hat
  rw [hpc] at hat
  obtain ⟨hfile, hfailures, -, -, -, hhandler⟩ := hat
  obtain ⟨r', hth, hid, hmethod, hsettles⟩ := (hhandler t rfl).settles ha
  cases a with
  -- an error is never a 200 or a 409
  | error status text =>
      obtain ⟨hinstep, hadvances⟩ := h.failed hpc (httpError status)
      obtain ⟨hok, hconflict, -⟩ := hsettles
      exact ⟨hinstep, hadvances, fun hgood => (hgood.elim hok hconflict).elim⟩
  | file status body => exact hsettles.elim
  | noContent =>
      obtain ⟨hinstep, hadvances⟩ := h.failed hpc (httpError 204)
      exact ⟨hinstep, hadvances, fun hgood => by simp [Answer.status] at hgood⟩
  | state status body =>
      obtain ⟨-, hle, hreached, hmore⟩ := hsettles
      have hleft := Client.left_of_put hpc hfailures file.length
      have hrank : S.client.rank file.length = 2 * S.client.left file.length + 2 := by
        unfold Client.rank
        rw [hpc]
      -- the answered offset is ahead of the one sent, so the budget falls by more than a reset of
      -- `failures` gives back
      have hless : ∀ failures : ℕ, body.file = none →
          Client.budget file.length { S.client.progressed body with failures } ≤
            S.client.left file.length := by
        intro failures hnone
        have hle := (hreached hnone).2.1
        have hfewer : Client.budget file.length { S.client.progressed body with failures } + 1 ≤
            S.client.budget file.length := Client.budget_of_lt (hmore hmethod hnone) hle hfailures
        omega
      -- `failures` starts from 0 again
      by_cases hok : status = 200
      · have heq : S.client.putAnswered (.state status body) =
            { S.client.progressed body with failures := 0 } := if_pos hok
        rw [heq]
        exact ⟨h.progressed hth hid hfile hreached (Nat.zero_le _),
          .of_progressed hle hrank (hless 0), fun _ hnone => hmore hmethod hnone⟩
      · -- after a 409 `failures` stays as it is, and the offset is the server's
        by_cases hconflict : status = 409
        · have heq : S.client.putAnswered (.state status body) = S.client.progressed body :=
            (if_neg hok).trans (if_pos hconflict)
          rw [heq]
          exact ⟨h.progressed hth hid hfile hreached hfailures,
            .of_progressed hle hrank (hless S.client.failures), fun _ hnone => hmore hmethod hnone⟩
        · have heq : S.client.putAnswered (.state status body) =
              S.client.failed (httpError status) := (if_neg hok).trans (if_neg hconflict)
          rw [heq]
          obtain ⟨hinstep, hadvances⟩ := h.failed hpc (httpError status)
          exact ⟨hinstep, hadvances, fun hgood => (hgood.elim hok hconflict).elim⟩

/-- The client goes back to the condition of the loop, no wiser than before. -/
theorem InStep.retry {r : SessionRequest} {handler : Option Tid} (h : InStep cfg file id l S)
    (hpc : S.client.pc = .get r handler) :
    InStep cfg file id l { S with client := { S.client with pc := .head } } ∧
      Advances file.length 1 S.client { S.client with pc := .head } := by
  have hat := h.at_
  unfold Client.At at hat
  rw [hpc] at hat
  obtain ⟨hfile, hfailures, -⟩ := hat
  have hleft := Client.left_of_get hpc file.length
  have hrank : S.client.rank file.length = 2 * S.client.left file.length + 2 := by
    unfold Client.rank
    rw [hpc]
  have hsame : Client.left file.length { S.client with pc := .head } =
      S.client.left file.length := by
    rw [hleft]
    exact if_pos hfile
  refine ⟨⟨h.valid, h.truthful, h.uploadId, h.answered, h.believed, h.sent, h.handlers, hfailures⟩,
    le_refl _, Nat.add_le_add_left hsame.le _, ?_⟩
  show 2 * Client.left file.length { S.client with pc := .head } + 1 < _
  omega

/-- The client gives up. It throws, and the invariant asks nothing of a client that has thrown. -/
theorem InStep.stop (h : InStep cfg file id l S) (e : Thrown)
    (hmoves : 0 < S.client.rank file.length) :
    InStep cfg file id l { S with client := { S.client with pc := .thrown e } } ∧
      Advances file.length 1 S.client { S.client with pc := .thrown e } :=
  ⟨⟨h.valid, h.truthful, h.uploadId, h.answered, h.believed, h.sent, h.handlers, trivial⟩,
    Advances.of_stop hmoves⟩

/-- The client has received the answer to a `GET`. Either it takes over the offset that is answered,
or it counts a failure. -/
theorem InStep.getAnswered {r : SessionRequest} {a : Answer} (h : InStep cfg file id l S)
    (hpc : S.client.pc = .get r (some t)) (ha : S.answerOf t = some a) :
    InStep cfg file id l { S with client := S.client.getAnswered a } ∧
      Advances file.length 1 S.client (S.client.getAnswered a) := by
  have hat := h.at_
  unfold Client.At at hat
  rw [hpc] at hat
  obtain ⟨hfile, hfailures, -, -, -, hhandler⟩ := hat
  obtain ⟨r', hth, hid, -, hsettles⟩ := (hhandler t rfl).settles ha
  have hrank : S.client.rank file.length = 2 * S.client.left file.length + 2 := by
    unfold Client.rank
    rw [hpc]
  have hmoves : 0 < S.client.rank file.length := by omega
  cases a with
  | error status text | file status body | noContent =>
      unfold Client.getAnswered
      dsimp only
      split
      · exact h.stop _ hmoves
      · exact h.retry hpc
  | state status body =>
      obtain ⟨-, hle, hreached, -⟩ := hsettles
      unfold Client.getAnswered
      dsimp only
      split
      · -- the offset may be the same as before: the failure that led here has already been paid for
        have hless : Client.budget file.length (S.client.progressed body) ≤
            S.client.left file.length := by
          rw [Client.left_of_get hpc]
          exact Client.budget_of_le hle rfl
        exact ⟨h.progressed hth hid hfile hreached hfailures,
          .of_progressed hle hrank fun _ => hless⟩
      · split
        · exact h.stop _ hmoves
        · exact h.retry hpc

/-- The request under way has failed. Whether the server has handled it or not is not known to the
client. -/
theorem InStep.lose {client' : Client} (h : InStep cfg file id l S)
    (hexec : S.client.lost = some client') :
    InStep cfg file id l { S with client := client' } ∧
      Advances file.length 1 S.client client' := by
  unfold Client.lost at hexec
  split at hexec
  · obtain rfl := Option.some.inj hexec
    exact h.failed ‹_› networkError
  · obtain rfl := Option.some.inj hexec
    exact h.retry ‹_›
  · cases hexec

/-- The user cancels. It can do so while a request or a pause is under way; the server is not
told. -/
theorem InStep.abort {client' : Client} (h : InStep cfg file id l S)
    (hexec : S.client.aborted = some client') :
    InStep cfg file id l { S with client := client' } ∧
      Advances file.length 1 S.client client' := by
  have hmoves : ∀ n : ℕ, 0 < n → S.client.rank file.length = 2 * S.client.left file.length + n →
      0 < S.client.rank file.length := by
    intro n hn hrank
    omega
  unfold Client.aborted at hexec
  split at hexec
  all_goals rename_i hpc
  · obtain rfl := Option.some.inj hexec
    exact h.stop _ (hmoves 2 (by decide) (by unfold Client.rank; rw [hpc]))
  · obtain rfl := Option.some.inj hexec
    exact h.stop _ (hmoves 2 (by decide) (by unfold Client.rank; rw [hpc]))
  · obtain rfl := Option.some.inj hexec
    exact h.stop _ (hmoves 1 (by decide) (by unfold Client.rank; rw [hpc]))
  · cases hexec

/-! ## Whole runs -/

/-- The arrival of the request under way is no move of the client. -/
theorem Advances.of_deliver {size : ℕ} {faults : Faults} (hexec : S.deliver faults = some S') :
    Advances size 0 S.client S'.client := by
  have hsame : S'.client.offset = S.client.offset ∧ S'.client.sent = S.client.sent ∧
      S'.client.left size = S.client.left size ∧ S'.client.rank size = S.client.rank size := by
    unfold System.deliver at hexec
    split at hexec
    · rename_i r hpc
      obtain rfl := Option.some.inj hexec
      simp [Client.rank, Client.left, Client.budget, hpc]
    · rename_i r hpc
      obtain rfl := Option.some.inj hexec
      simp [Client.rank, Client.left, Client.budget, hpc]
    · cases hexec
  obtain ⟨hoffset, hsent, hleft, hrank⟩ := hsame
  exact ⟨hoffset.ge, by rw [hsent, hleft], hrank.le⟩

/-- **The step theorem**: every move keeps the invariant, and every move of the client brings it
closer to the end. -/
theorem InStep.exec {m : Move} (h : InStep cfg file id l S) (hok : m.Ok)
    (hexec : S.exec cfg file m = some S') :
    ∃ l', InStep cfg file id l' S' ∧
      Advances file.length (if m.byClient then 1 else 0) S.client S'.client := by
  cases m with
  -- only the server moves; the client's accounts stay as they are
  | server act =>
      obtain ⟨d, hact, rfl⟩ := Option.map_eq_some_iff.mp hexec
      have harrive : Arrivals (fun _ => True) S.server act := by
        rintro th rfl
        obtain ⟨r, rfl⟩ := hok th rfl
        exact ⟨r, rfl, trivial⟩
      obtain ⟨l', hinstep, -⟩ := h.server harrive hact
      exact ⟨l', hinstep, .refl _ _⟩
  | deliver faults => exact ⟨l, h.deliver hexec, .of_deliver hexec⟩
  -- a doubled request that arrives late makes a handler, but no move of the client
  | late i faults =>
      have hinstep := h.late hexec
      obtain ⟨r, -, rfl⟩ := Option.map_eq_some_iff.mp hexec
      exact ⟨l, hinstep, .refl _ _⟩
  | go =>
      obtain ⟨client', hgo, rfl⟩ := Option.map_eq_some_iff.mp hexec
      exact ⟨l, h.go hgo⟩
  | answer =>
      refine ⟨l, ?_⟩
      have hanswer : S.answer = some S' := hexec
      unfold System.answer at hanswer
      split at hanswer
      · rename_i r u hpc
        obtain ⟨a, ha, rfl⟩ := Option.map_eq_some_iff.mp hanswer
        obtain ⟨hinstep, hadvances, -⟩ := h.putAnswered hpc ha
        exact ⟨hinstep, hadvances⟩
      · rename_i r u hpc
        obtain ⟨a, ha, rfl⟩ := Option.map_eq_some_iff.mp hanswer
        exact h.getAnswered hpc ha
      · cases hanswer
  | lose =>
      obtain ⟨client', hlost, rfl⟩ := Option.map_eq_some_iff.mp hexec
      exact ⟨l, h.lose hlost⟩
  | abort =>
      obtain ⟨client', haborted, rfl⟩ := Option.map_eq_some_iff.mp hexec
      exact ⟨l, h.abort haborted⟩

/-- **The run theorem.** The induction is on the list of moves, with the step lemmas above for each
kind. The moves of the client add up to its rank, which bounds them. -/
theorem InStep.execAll {moves : List Move} (h : InStep cfg file id l S)
    (hok : ∀ m ∈ moves, m.Ok) (hrun : S.execAll cfg file moves = some S') :
    ∃ l', InStep cfg file id l' S' ∧
      Advances file.length (moves.countP Move.byClient) S.client S'.client := by
  induction moves generalizing S l with
  | nil =>
      obtain rfl := Option.some.inj hrun
      exact ⟨l, h, .refl _ _⟩
  | cons m moves ih =>
      obtain ⟨S₁, hexec, hrest⟩ := Option.bind_eq_some_iff.mp hrun
      obtain ⟨l₁, hinstep, hfirst⟩ := h.exec (hok m List.mem_cons_self) hexec
      obtain ⟨l', hinstep', hlater⟩ :=
        ih hinstep (fun m' hm' => hok m' (List.mem_cons_of_mem _ hm')) hrest
      refine ⟨l', hinstep', ?_⟩
      rw [List.countP_cons, Nat.add_comm]
      exact hfirst.trans hlater

/-- The client that has received a session is in step with the server. -/
theorem InStep.start {th : Thread} {session : UploadStateResponse}
    (hreach : Reachable cfg (fun _ => True) c) (hth : c.threads[t]? = some th)
    (hopen : th.opens session) (hsize : session.size = file.length) :
    ∃ l, InStep cfg file session.uploadID l ⟨c, .start session, []⟩ := by
  obtain ⟨l, hvalid, htruthful⟩ := hreach.truthful session.uploadID
  have htrue := htruthful t th hth
  have hbody : session.Holds l ∧ ∃ status, th.answer? = some (.state status session) := by
    unfold Thread.opens at hopen
    split at hopen
    · obtain ⟨-, rfl⟩ := hopen
      exact ⟨htrue rfl, _, rfl⟩
    · obtain ⟨-, -, rfl⟩ := hopen
      obtain ⟨hid, hholds⟩ := htrue _ _ rfl
      exact ⟨hholds hid.symm, _, rfl⟩
    · exact hopen.elim
  obtain ⟨hholds, status, hanswer⟩ := hbody
  refine ⟨l, hvalid, htruthful, rfl, ⟨rfl, t, th, status, hth, hanswer⟩, fun hfile => ?_, nofun,
    nofun, Nat.zero_le _⟩
  refine ⟨hholds.chunkSize, ?_⟩
  rw [← hsize]
  exact hholds.reached hfile

/-- A loop that has not ended can go on, or loses the request under way. -/
theorem Client.runs_on (client : Client) (h : client.ended = false) :
    (client.go file).isSome ∨ client.lost.isSome := by
  unfold Client.ended at h
  unfold Client.go Client.lost
  cases hpc : client.pc with
  | head =>
      left
      cases client.session.file <;> rfl
  | sleep => exact .inl rfl
  | put r handler | get r handler => exact .inr rfl
  | returned f | thrown e =>
      rw [hpc] at h
      cases h

/-- The requests that `uploadResumable` sends at most for a file of `size` bytes. -/
def requestBound (size : ℕ) : ℕ :=
  (2 * uploadMaxRetries + 1) * size + 2 * (uploadMaxRetries + 1)

/-- **The upload loop ends**, whatever the network loses, cuts or delivers late, and whatever others
ask of the server: after a bounded number of requests, with a file the server has answered or an
error. The offset of the client never goes back, grows with every progress that answers a `PUT`, and
no `PUT` is too long. -/
theorem uploadResumable_ends {th : Thread} {session : UploadStateResponse} {moves : List Move}
    (hreach : Reachable cfg (fun _ => True) c) (hth : c.threads[t]? = some th)
    (hopen : th.opens session) (hsize : session.size = file.length) (hok : ∀ m ∈ moves, m.Ok)
    (hrun : System.execAll cfg file ⟨c, .start session, []⟩ moves = some S) :
    S.client.sent.length ≤ requestBound file.length ∧
      moves.countP Move.byClient ≤ 2 * requestBound file.length + 1 ∧
      (S.client.ended = false →
        (S.exec cfg file .go).isSome ∨ (S.exec cfg file .lose).isSome) ∧
      (∀ f, S.client.pc = .returned f → ∃ (u : Tid) (th' : Thread) (status : ℕ)
        (body : UploadStateResponse), S.server.threads[u]? = some th' ∧
          th'.answer? = some (.state status body) ∧ body.uploadID = session.uploadID ∧
          body.file = some f) ∧
      (∀ (m : Move) (S' : System), m.Ok → S.exec cfg file m = some S' →
        S.client.offset ≤ S'.client.offset) ∧
      (∀ (r : SessionRequest) (u : Tid) (a : Answer) (S' : System),
        S.client.pc = .put r (some u) → S.answerOf u = some a →
          (a.status = 200 ∨ a.status = 409) → a.file? = none →
          S.exec cfg file .answer = some S' → S.client.offset < S'.client.offset) ∧
      ∀ u ∈ S.handlers, ∀ a, S.answerOf u = some a → a.status ≠ 413 := by
  obtain ⟨l₀, hstart⟩ := InStep.start hreach hth hopen hsize
  obtain ⟨l, h, hadvances⟩ := hstart.execAll hok hrun
  -- before the loop nothing is sent, and at most the whole file is missing
  have hfirst : Client.left file.length (.start session) ≤ requestBound file.length := by
    show (if session.file = none then Client.budget file.length (.start session) else 0) ≤ _
    split
    · rename_i hfile
      obtain ⟨-, hpos, -⟩ := hstart.believed hfile
      have hmissing : ((file.length : ℤ) - session.offset).toNat ≤ file.length := by
        have hoffset : 0 ≤ session.offset := hpos
        omega
      exact Nat.add_le_add_right (Nat.mul_le_mul_left _ hmissing) _
    · exact Nat.zero_le _
  refine ⟨?_, ?_, fun hrunning => ?_, fun f hreturned => ?_, fun m S' hm hexec => ?_,
    fun r u a S' hpc ha hgood hfile hexec => ?_, fun u hu a ha => ?_⟩
  · -- the requests sent and those still possible are at most those possible at the start
    have hrequests : S.client.sent.length + S.client.left file.length ≤
        0 + Client.left file.length (.start session) := hadvances.requests
    omega
  · -- the rank falls with each move of the client
    have hmoves : S.client.rank file.length + moves.countP Move.byClient ≤
        2 * Client.left file.length (.start session) + 1 := hadvances.moves
    omega
  · show (Option.map _ _).isSome ∨ (Option.map _ _).isSome
    rw [Option.isSome_map, Option.isSome_map]
    exact S.client.runs_on hrunning
  · have hat := h.at_
    unfold Client.At at hat
    rw [hreturned] at hat
    obtain ⟨hid, u, th', status, hth', hanswer⟩ := h.answered
    exact ⟨u, th', status, _, hth', hanswer, hid, hat⟩
  · obtain ⟨-, -, hstep⟩ := h.exec hm hexec
    exact hstep.offset
  · obtain ⟨-, -, hgrows⟩ := h.putAnswered hpc ha
    have hanswer : S.answer = some S' := hexec
    unfold System.answer at hanswer
    rw [hpc] at hanswer
    simp only [ha, Option.map_some] at hanswer
    obtain rfl := Option.some.inj hanswer
    exact hgrows hgood hfile
  · obtain ⟨offset, hhandles⟩ := h.handlers u hu
    obtain ⟨r, -, -, -, hsettles⟩ := hhandles.settles ha
    cases a with
    | error status text => exact hsettles.2.2
    | state status body => exact hsettles.1
    | file status body => exact hsettles.elim
    | noContent => decide

/-! ### A client for examples -/

namespace Sample

/-- A client that has created an upload of the two bytes `[1, 2]` makes these moves. -/
def uploading (moves : List Move) : Option System :=
  ((machine config).execAll (boot 0) (arrive (create 2) ++ sections 0 3)).bind fun c =>
    match c.threads[0]? with
    | some (Thread.create _ (.done (.state 201 session))) =>
        if session.size = 2 then System.execAll config [1, 2] ⟨c, .start session, []⟩ moves else none
    | _ => none

/-- Such a client starts from a reachable configuration. It is evaluated up to the answer of the
creation, and handed over from there. -/
theorem exists_of_uploading {moves : List Move} {q : System → Bool}
    (h : (uploading moves).any q = true) :
    ∃ (c : ThreadPool.Config Server Thread) (th : Thread) (session : UploadStateResponse)
      (S : System), Reachable config (fun _ => True) c ∧ c.threads[0]? = some th ∧
        th.opens session ∧ session.size = 2 ∧
        System.execAll config [1, 2] ⟨c, .start session, []⟩ moves = some S ∧ q S = true := by
  obtain ⟨S, hrun, hq⟩ := (Option.any_eq_true _ _).mp h
  obtain ⟨c, hexec, hrest⟩ := Option.bind_eq_some_iff.mp hrun
  have hreach : Reachable config (fun _ => True) c := by
    refine .of_execAll (fun th hth => ?_) hexec
    have hth' : th = (create 2).thread := by
      simpa [arrive, sections] using hth
    exact ⟨_, hth', trivial⟩
  split at hrest
  · rename_i r session hth
    split at hrest
    · exact ⟨c, _, session, S, hreach, hth, ⟨rfl, rfl⟩, ‹_›, hrest, hq⟩
    · cases hrest
  · cases hrest

/-- The `PUT` is delivered, and answered after the chunk has been stored. -/
def sentAndAnswered : List Move :=
  [.go, .deliver {}] ++ (sections 1 9).map .server ++ [.answer, .go]

/-- The `PUT` is lost, and the server answers the `GET` that follows. -/
def lostAndAsked : List Move :=
  [.go, .lose, .go, .deliver {}] ++ (sections 1 4).map .server

/-- The client has returned a file. -/
def returns (client : Client) : Bool :=
  match client.pc with
  | .returned _ => true
  | _ => false

/-- The `GET` of the client is answered with a progress that is the client's own. -/
def confirms (S : System) : Bool :=
  match S.client.pc with
  | .get _ (some u) => (S.answerOf u).any fun a =>
      a.status = 200 ∧ a.file? = none ∧ (S.client.getAnswered a).offset = S.client.offset
  | _ => false

end Sample

/-- An upload of two bytes that ends with the file registered. -/
theorem uploadResumable_ends_twoBytes :
    ∃ (S : System) (f : FileResponse) (u : Tid) (th : Thread) (status : ℕ)
      (body : UploadStateResponse), S.client.pc = .returned f ∧
        S.client.sent.length ≤ requestBound 2 ∧ S.server.threads[u]? = some th ∧
        th.answer? = some (.state status body) ∧ body.file = some f := by
  have hdone : (Sample.uploading Sample.sentAndAnswered).any fun S => Sample.returns S.client := by
    decide +kernel
  obtain ⟨c, th, session, S, hreach, hth, hopen, hsize, hrun, hq⟩ :=
    Sample.exists_of_uploading hdone
  have hok : ∀ m ∈ Sample.sentAndAnswered, m.Ok := by
    rintro m hm th' rfl
    simp [Sample.sentAndAnswered, sections] at hm
  have hlength : session.size = ([1, 2] : Bytes).length := hsize
  obtain ⟨hrequests, -, -, hreturns, -⟩ := uploadResumable_ends hreach hth hopen hlength hok hrun
  unfold Sample.returns at hq
  split at hq
  · rename_i f hpc
    obtain ⟨u, th', status, body, hth', hanswer, -, hfile⟩ := hreturns f hpc
    exact ⟨S, f, u, th', status, body, hpc, hrequests, hth', hanswer, hfile⟩
  · cases hq

/-- The progress that answers a `GET` need not be beyond the one the client knows. -/
theorem getAnswered_same_offset :
    ∃ (c : ThreadPool.Config Server Thread) (th : Thread) (session : UploadStateResponse)
      (S S' : System) (r : SessionRequest) (u : Tid) (a : Answer),
      Reachable Sample.config (fun _ => True) c ∧ c.threads[0]? = some th ∧ th.opens session ∧
        session.size = 2 ∧ (∀ m ∈ Sample.lostAndAsked, m.Ok) ∧
        System.execAll Sample.config [1, 2] ⟨c, .start session, []⟩ Sample.lostAndAsked = some S ∧
        S.client.pc = .get r (some u) ∧ S.answerOf u = some a ∧ a.status = 200 ∧ a.file? = none ∧
        S.exec Sample.config [1, 2] .answer = some S' ∧ S'.client.offset = S.client.offset := by
  have hasked : (Sample.uploading Sample.lostAndAsked).any Sample.confirms := by
    decide +kernel
  obtain ⟨c, th, session, S, hreach, hth, hopen, hsize, hrun, hq⟩ :=
    Sample.exists_of_uploading hasked
  unfold Sample.confirms at hq
  split at hq
  · rename_i r u hpc
    obtain ⟨a, ha, hsame⟩ := (Option.any_eq_true _ _).mp hq
    obtain ⟨hstatus, hfile, hoffset⟩ := of_decide_eq_true hsame
    refine ⟨c, th, session, S, { S with client := S.client.getAnswered a }, r, u, a, hreach, hth, hopen, hsize, ?_, hrun, hpc, ha,
      hstatus, hfile, ?_, hoffset⟩
    · rintro m hm th' rfl
      simp [Sample.lostAndAsked, sections] at hm
    · show S.answer = some { S with client := S.client.getAnswered a }
      unfold System.answer
      rw [hpc]
      simp only [ha, Option.map_some]
  · cases hq

end LanRoom.Upload
