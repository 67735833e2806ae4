import LanRoom.Mobile.UploadRecord

/-! # The sections of `pickFile`, `resumeUpload` and `cancelUpload`

Every section is made of moves, and the operation knows afterwards what it has to know for its next
one (`Op.section_step`). -/

namespace LanRoom.Mobile.Pending

open Relation (ReflTransGen)

/-! ## Sections -/

/-- The changes of one section. -/
abbrev Moves (op : Op) : Phone → Phone → Prop := ReflTransGen (Move op)

/-- Operations run after `initialize` has read the storage, and none of them goes back. -/
theorem Moves.init {op : Op} {s s' : Phone} (h : Moves op s s') : s'.init = s.init := by
  induction h with
  | refl => rfl
  | tail _ hmove ih => exact hmove.init.trans ih

/-- The process lives on: only a crash ends it, and a crash is no operation. -/
theorem Moves.life {op : Op} {s s' : Phone} (h : Moves op s s') : s'.life = s.life := by
  induction h with
  | refl => rfl
  | tail _ hmove ih => exact hmove.life.trans ih

/-- An operation may give a job its upload id, but it never changes which file a job is about. -/
theorem Moves.jobs {op : Op} {s s' : Phone} (h : Moves op s s') {n : ℕ} {job : Job}
    (hjob : s.jobs[n]? = some job) : ∃ job', s'.jobs[n]? = some job' ∧ job'.path = job.path := by
  induction h with
  | refl => exact ⟨job, hjob, rfl⟩
  | tail _ hmove ih =>
      obtain ⟨job₁, hjob₁, hpath₁⟩ := ih
      obtain ⟨job₂, hjob₂, hpath₂⟩ := hmove.jobs hjob₁
      exact ⟨job₂, hjob₂, hpath₂.trans hpath₁⟩

/-- The invariant survives any number of changes of one operation. -/
theorem Moves.sound {op : Op} {s s' : Phone} (h : Moves op s s') (hs : s.Sound)
    (hinit : s.init = .searching) : s'.Sound := by
  induction h with
  | refl => exact hs
  | tail hmoves hmove ih => exact ih.move ((Moves.init hmoves).trans hinit) hmove

/-- The assertion of another operation survives any number of changes, as long as the two cannot
conflict. -/
theorem Op.Holds.moves {op u : Op} {s s' : Phone} (h : u.Holds s) (hmoves : Moves op s s')
    (hother : ¬op.Conflicts u) : u.Holds s' := by
  induction hmoves with
  | refl => exact h
  | tail _ hmove ih => exact ih.move hmove hother

/-! ### `resumeUpload` -/

/-- The file is not named any more from a certain write on. -/
def Transfer.Clears (s : Phone) (t : Transfer) : Prop :=
  ∀ ticket, t.pc.clears? = some ticket →
    ∃ job, s.jobs[t.job]? = some job ∧ s.Clears job.path ticket

/-- A section of a call of `resumeUpload` that has a number. -/
structure Transfer.Section (op : Op) (s s' : Phone) (t t' : Transfer) : Prop where
  moves : Moves op s s'
  job : t'.job = t.job
  transfer : t'.transfer = t.transfer
  generation : s'.transferGeneration = s.transferGeneration
  picking : s'.picking = s.picking
  /-- Until it sends the message the upload stays. -/
  active : t'.pc.isActive = true → t.pc.isActive = true ∧ s'.pendingUpload = s.pendingUpload
  clears : t'.Clears s'

namespace Transfer

variable {op : Op} {s s₁ s' : Phone} {t t' : Transfer}

/-- A transfer that is still active waits for no removal of the record. -/
theorem clears_of_active (h : t.pc.isActive = true) : t.Clears s := by
  intro ticket hticket
  cases hpc : t.pc with
  | clearing | closing | deleting =>
      rw [hpc] at h
      cases h
  | _ =>
      rw [hpc] at hticket
      cases hticket

/-- It goes on with the upload. Neither the phone nor what it has to know changes. -/
theorem Section.active_of (hjob : t'.job = t.job) (htransfer : t'.transfer = t.transfer)
    (hactive : t.pc.isActive = true) (hactive' : t'.pc.isActive = true) : Section op s s t t' :=
  ⟨.refl, hjob, htransfer, rfl, rfl, fun _ => ⟨hactive, rfl⟩, clears_of_active hactive'⟩

/-- It goes to the end. There it has nothing to keep and nothing to clear. -/
theorem Section.finishing (hmoves : Moves op s s')
    (hgeneration : s'.transferGeneration = s.transferGeneration) (hpicking : s'.picking = s.picking)
    (hjob : t'.job = t.job) (htransfer : t'.transfer = t.transfer)
    (hactive : t'.pc.isActive = false) (hclears : t'.pc.clears? = none) : Section op s s' t t' := by
  refine ⟨hmoves, hjob, htransfer, hgeneration, hpicking, fun h => ?_, fun ticket h => ?_⟩
  · rw [hactive] at h
    cases h
  · rw [hclears] at h
    cases h

/-- A change that leaves the upload alone comes first. The section after it starts from the changed
phone. -/
theorem Section.of_move (hmove : Move op s s₁) (h : Section op s₁ s' t t')
    (hgeneration : s₁.transferGeneration = s.transferGeneration) (hpicking : s₁.picking = s.picking)
    (hpending : s₁.pendingUpload = s.pendingUpload) : Section op s s' t t' where
  moves := ReflTransGen.head hmove h.moves
  job := h.job
  transfer := h.transfer
  generation := h.generation.trans hgeneration
  picking := h.picking.trans hpicking
  active := fun hactive => ⟨(h.active hactive).1, (h.active hactive).2.trans hpending⟩
  clears := h.clears

/-- The `catch` leaves for the `finally`; the newest transfer that was told 401 clears `connected`
on the way. -/
theorem section_catchError (op : Op) (status : Option ℕ) (s : Phone) (t : Transfer) :
    Section op s (t.catchError status s).1 t (t.catchError status s).2 := by
  rw [catchError]
  split
  · exact .finishing (.single (.quiet s.uploading false)) rfl rfl rfl rfl rfl rfl
  · exact .finishing .refl rfl rfl rfl rfl rfl rfl

/-- The progress is stored: the record keeps naming the same file. -/
theorem section_save (op : Op) (state : JsonMap) (s : Phone) (hactive : t.pc.isActive = true) :
    Section op s (t.save state s).1 t (t.save state s).2 := by
  rw [save]
  split
  · exact .finishing .refl rfl rfl rfl rfl rfl rfl
  · exact ⟨.single .save, rfl, rfl, rfl, rfl, fun _ => ⟨hactive, rfl⟩, clears_of_active rfl⟩

/-- The message is sent while the number is the last one. With the message sent the pending upload
is cleared, and the clearing is written. -/
theorem section_deliver {job : Job} {state : JsonMap} (hs : s.Sound) (hinit : s.init = .searching)
    (hjob : s.jobs[t.job]? = some job) (hnumber : op.number? = some s.transferGeneration)
    (hpending : s.pendingUpload = some t.job) :
    Section op s (t.deliver job state s).1 t (t.deliver job state s).2 := by
  have hcurrent : s.pending = some job := by
    simp [Phone.pending, Phone.current, hpending, hjob]
  rw [deliver]
  split
  next file _ =>
    split
    · exact section_catchError op none s t
    · have hmove := Move.deliver job ⟨job.recipients, get file "fileId".toList,
        get file "name".toList, get file "size".toList, get file "mime".toList⟩ hcurrent hnumber
      refine ⟨(ReflTransGen.single hmove).tail .save, rfl, rfl, rfl, rfl, fun h => ?_, ?_⟩
      · cases h
      · intro ticket hticket
        obtain rfl := Option.some.inj hticket
        exact ⟨job, hjob, Phone.clears_of_free (hs.move hinit hmove) rfl job.path⟩
  next => exact section_catchError op none s t

/-- **The head of the loop.** With the file in the state the upload is delivered, for which the
number of the call must still be the last one; without it the transfer goes on to the next chunk or
fails. -/
theorem section_loop {job : Job} {l : Loop} (hs : s.Sound) (hinit : s.init = .searching)
    (hjob : s.jobs[t.job]? = some job) (hnumber : op.number? = some t.transfer) (ht : t.Holds s)
    (hactive : t.pc.isActive = true) :
    Section op s (t.loop job l s).1 t (t.loop job l s).2 := by
  rw [loop]
  split
  · split
    · exact section_catchError op none s t
    · split
      · exact section_catchError op none s t
      · exact .active_of rfl rfl hactive rfl
  · split
    · exact .finishing .refl rfl rfl rfl rfl rfl rfl
    next heq =>
      -- the number is the last one, so the upload is still this one
      have heq := not_not.mp heq
      exact section_deliver hs hinit hjob (heq ▸ hnumber) (ht.active hactive heq)

/-- The end of a section. It names the result of a section that is known by its computation. -/
theorem Section.of_some {r : Phone × Transfer} (h : Section op s r.1 t r.2)
    (hr : some r = some (s', t')) : Section op s s' t t' := by
  obtain rfl := Option.some.inj hr
  exact h

/-- **A section of a transfer that is not over.** The program points are taken in the order of the
source: opening the file, creating or resuming the upload, the loop over the chunks, and the three
sections in which the record is cleared and the file deleted. -/
theorem section_stepFor {job : Job} {k : Outcome} (hs : s.Sound) (hinit : s.init = .searching)
    (hjob : s.jobs[t.job]? = some job) (hnumber : op.number? = some t.transfer) (ht : t.Holds s)
    (hclears : t.Clears s) (hstep : t.stepFor job k s = some (s', t')) : Section op s s' t t' := by
  have hcatch := fun status => section_catchError op status s t
  unfold stepFor at hstep
  split at hstep
  next hpc =>
    -- the file is open
    have hactive : t.pc.isActive = true := by rw [hpc]; rfl
    obtain ⟨rfl, rfl⟩ := Prod.mk.inj (Option.some.inj hstep)
    refine .active_of rfl rfl hactive ?_
    dsimp only
    split
    · rfl
    · rfl
  next body hpc =>
    -- the server knows the upload: its answer is stored
    exact (section_save op body s (by rw [hpc]; rfl)).of_some hstep
  -- the `GET` has failed: an upload the server does not know is created anew
  next status hpc =>
    have hactive : t.pc.isActive = true := by rw [hpc]; rfl
    split at hstep
    · obtain ⟨rfl, rfl⟩ := Prod.mk.inj (Option.some.inj hstep)
      exact .active_of rfl rfl hactive rfl
    · exact (hcatch status).of_some hstep
  next body hpc =>
    have hactive : t.pc.isActive = true := by rw [hpc]; rfl
    obtain ⟨rfl, rfl⟩ := Prod.mk.inj (Option.some.inj hstep)
    -- the upload has been created, and the job gets its id
    refine Section.of_move (.setUploadId t.job (get body "uploadId".toList)) ?_ rfl rfl rfl
    exact .active_of rfl rfl hactive rfl
  next body hpc =>
    exact (section_save op body s (by rw [hpc]; rfl)).of_some hstep
  -- the write of the progress is awaited
  next ticket state hpc =>
    have hactive : t.pc.isActive = true := by rw [hpc]; rfl
    split at hstep
    · split at hstep
      · exact (hcatch none).of_some hstep
      · exact (section_loop hs hinit hjob hnumber ht hactive).of_some hstep
    · cases hstep
  next l hpc =>
    have hactive : t.pc.isActive = true := by rw [hpc]; rfl
    split at hstep
    · exact (hcatch none).of_some hstep
    · dsimp only at hstep
      split at hstep
      · exact (hcatch none).of_some hstep
      · obtain ⟨rfl, rfl⟩ := Prod.mk.inj (Option.some.inj hstep)
        exact .active_of rfl rfl hactive rfl
  next l length n hpc =>
    have hactive : t.pc.isActive = true := by rw [hpc]; rfl
    split at hstep
    · exact (hcatch none).of_some hstep
    · obtain ⟨rfl, rfl⟩ := Prod.mk.inj (Option.some.inj hstep)
      exact .active_of rfl rfl hactive rfl
  -- the answer to a chunk is there
  next l result hpc =>
    have hactive : t.pc.isActive = true := by rw [hpc]; rfl
    split at hstep
    · exact (hcatch none).of_some hstep
    · exact (section_loop hs hinit hjob hnumber ht hactive).of_some hstep
  next ticket hpc =>
    split at hstep
    next hstored =>
      -- the write is performed, so the file is free
      obtain ⟨job', hjob', hgone⟩ := hclears ticket (by rw [hpc]; rfl)
      obtain ⟨rfl, rfl⟩ := Prod.mk.inj (Option.some.inj hstep)
      refine ⟨.refl, rfl, rfl, rfl, rfl, fun h => Bool.noConfusion h, ?_⟩
      intro ticket' hticket'
      obtain rfl := Option.some.inj hticket'
      exact ⟨job', hjob', hgone.of_stored hs hstored⟩
    next => cases hstep
  next hpc =>
    obtain ⟨rfl, rfl⟩ := Prod.mk.inj (Option.some.inj hstep)
    refine ⟨.refl, rfl, rfl, rfl, rfl, fun h => Bool.noConfusion h, ?_⟩
    intro ticket hticket
    exact hclears ticket (by rw [hpc]; exact hticket)
  next hpc =>
    split at hstep
    · -- the file of the job is deleted; no value to come names it any more
      obtain ⟨job', hjob', hgone⟩ := hclears 0 (by rw [hpc]; rfl)
      obtain rfl := Option.some.inj (hjob.symm.trans hjob')
      have hmove : Move op s (s.delete job.path) :=
        .delete job.path hgone (.inl ⟨job, List.mem_of_getElem? hjob, rfl⟩)
      exact Section.of_some (.finishing (.single hmove) rfl rfl rfl rfl rfl rfl) hstep
    · cases hstep
  -- the points where a request is awaited only hand its failure on
  all_goals first | exact (hcatch _).of_some hstep | skip
  next hpc =>
    exact Section.of_some (.finishing (.single (.quiet false s.connected)) rfl rfl rfl rfl rfl rfl) hstep
  next hpc =>
    split at hstep
    · exact Section.of_some (.finishing .refl rfl rfl rfl rfl rfl rfl) hstep
    · cases hstep
  next => cases hstep

/-- **A section of a transfer**, for the job it was started with. There is one case for each program
point of the transfer; the sections that compare the number first do nothing when they have been
overtaken. -/
theorem section_step {k : Outcome} (hs : s.Sound) (hinit : s.init = .searching)
    (hnumber : op.number? = some t.transfer) (ht : t.Holds s) (hclears : t.Clears s)
    (hstep : t.step k s = some (s', t')) : Section op s s' t t' := by
  obtain ⟨job, hjob, hstep⟩ := Option.bind_eq_some_iff.mp hstep
  exact section_stepFor hs hinit hjob hnumber ht hclears hstep

/-- What the call knows after its section. The number, the job and the ticket it waits for are those
from before or new ones of its own. -/
theorem Section.holds (h : Section op s s' t t') (ht : t.Holds s) : t'.Holds s' := by
  refine ⟨?_, ?_, fun hactive heq => ?_⟩
  · rw [h.transfer, h.generation]
    exact ht.number
  · obtain ⟨job', hjob', -⟩ := Moves.jobs h.moves (List.getElem?_eq_getElem ht.place)
    rw [h.job]
    exact (List.getElem?_eq_some_iff.mp hjob').1
  · rw [h.transfer, h.generation] at heq
    rw [(h.active hactive).2, h.job]
    exact ht.active (h.active hactive).1 heq

end Transfer

/-! ### The operations -/

/-- A section of an operation. -/
structure Op.Section (op : Op) (s s' : Phone) (op' : Op) : Prop where
  moves : Moves op s s'
  holds : op'.Holds s'
  /-- `picking` is set when it was not. -/
  picks : op'.picks = true → op.picks = true ∨ s.picking = false
  /-- A number that it gets is new. -/
  number : op'.number? = op.number? ∨ op'.number? = none ∨
    op'.number? = some (s.transferGeneration + 1)

namespace Op

variable {op op' : Op} {s s' : Phone}

/-- An operation with a number. It is that of the call of `resumeUpload` that it runs. -/
theorem Holds.of_transfer {t : Transfer} (hinit : s.init = .searching)
    (htransfer : op.transfer? = some t)
    (hclears : op.clears? = t.pc.clears?.map fun ticket => (ticket, t.job))
    (hchooses : op.chooses = false) (hcopy : op.copy? = none)
    (hpicks : op.picks = true → s.picking = true) (ht : t.Holds s) (hgone : t.Clears s) :
    op.Holds s := by
  refine ⟨fun _ => hinit, ?_, ?_, hpicks, ?_, ?_⟩
  · intro t' ht'
    obtain rfl := Option.some.inj (htransfer.symm.trans ht')
    exact ht
  · intro ticket n hn
    rw [hclears] at hn
    obtain ⟨ticket', hticket', heq⟩ := Option.map_eq_some_iff.mp hn
    obtain ⟨rfl, rfl⟩ := Prod.mk.inj heq
    exact hgone ticket' hticket'
  · intro h
    rw [hchooses] at h
    cases h
  · intro name hname
    rw [hcopy] at hname
    cases hname

/-- An operation without a number that clears no file. Only its copy, the picker and the choice of a
file are its own. -/
theorem Holds.of_unnumbered (hbegun : op.isCalled = false → s.init = .searching)
    (htransfer : op.transfer? = none) (hclears : op.clears? = none)
    (hpicks : op.picks = true → s.picking = true)
    (hchooses : op.chooses = true → s.pendingUpload = none)
    (hcopies : ∀ name, op.copy? = some name → name ∈ s.staged ∧ name ∈ s.files ∧
      (∀ job ∈ s.jobs, job.path ≠ filePath s.directory name) ∧
      s.Clears (filePath s.directory name) 0) : op.Holds s := by
  refine ⟨hbegun, ?_, ?_, hpicks, hchooses, hcopies⟩
  · intro t ht
    rw [htransfer] at ht
    cases ht
  · intro ticket n hn
    rw [hclears] at hn
    cases hn

/-- An operation that owns nothing. It asserts nothing but that `initialize` is over. -/
theorem Holds.of_idle (hbegun : op.isCalled = false → s.init = .searching)
    (htransfer : op.transfer? = none) (hclears : op.clears? = none)
    (hchooses : op.chooses = false) (hcopy : op.copy? = none)
    (hpicks : op.picks = true → s.picking = true) : op.Holds s := by
  refine .of_unnumbered hbegun htransfer hclears hpicks ?_ ?_
  · intro h
    rw [hchooses] at h
    cases h
  · intro name hname
    rw [hcopy] at hname
    cases hname

/-- An operation that clears a file. It is about to delete it, and nothing in the sequence names it
after the ticket. -/
theorem Holds.of_clears {n ticket : ℕ} {job : Job} (hinit : s.init = .searching)
    (htransfer : op.transfer? = none) (hclears : op.clears? = some (ticket, n))
    (hchooses : op.chooses = false) (hcopy : op.copy? = none) (hpicks : op.picks = false)
    (hjob : s.jobs[n]? = some job) (hgone : s.Clears job.path ticket) : op.Holds s := by
  refine ⟨fun _ => hinit, ?_, ?_, ?_, ?_, ?_⟩
  · intro t ht
    rw [htransfer] at ht
    cases ht
  · intro ticket' n' hn
    obtain ⟨rfl, rfl⟩ := Prod.mk.inj (Option.some.inj (hclears.symm.trans hn))
    exact ⟨job, hjob, hgone⟩
  · intro h
    rw [hpicks] at h
    cases h
  · intro h
    rw [hchooses] at h
    cases h
  · intro name hname
    rw [hcopy] at hname
    cases hname

end Op

/-- `resumeUpload` takes a new number for the upload that is pending. -/
theorem Phone.resumeUpload_spec (op : Op) {s : Phone} (hs : s.Sound) :
    Moves op s s.resumeUpload.1 ∧ s.resumeUpload.1.picking = s.picking ∧
      ∀ t, s.resumeUpload.2 = .running t → t.Holds s.resumeUpload.1 ∧ t.pc.isActive = true ∧
        t.transfer = s.transferGeneration + 1 := by
  -- each way out before the transfer begins leaves the phone alone
  have hstay : ∀ r : Resume, (∀ t, r ≠ .running t) → Moves op s s ∧ s.picking = s.picking ∧
      ∀ t, r = .running t → t.Holds s ∧ t.pc.isActive = true ∧
        t.transfer = s.transferGeneration + 1 :=
    fun r hr => ⟨.refl, rfl, fun t ht => absurd ht (hr t)⟩
  rw [resumeUpload]
  split
  · exact hstay .returned (fun _ => Resume.noConfusion)
  · split
    · exact hstay .returned (fun _ => Resume.noConfusion)
    next n job hcurrent =>
      split
      · exact hstay .threw (fun _ => Resume.noConfusion)
      · split
        · exact hstay .returned (fun _ => Resume.noConfusion)
        · dsimp only
          split
          · exact ⟨.single .number, rfl, fun t ht => Resume.noConfusion ht⟩
          -- the transfer begins under the next number, for the pending upload
          next c _ =>
            refine ⟨.single .number, rfl, fun t ht => ?_⟩
            obtain rfl := Resume.running.inj ht
            obtain ⟨m, hm, hjob⟩ := Option.bind_eq_some_iff.mp hcurrent
            obtain ⟨job', hjob', heq⟩ := Option.map_eq_some_iff.mp hjob
            obtain ⟨rfl, -⟩ := Prod.mk.inj heq
            exact ⟨⟨le_refl _, hs.place m hm, fun _ _ => hm⟩, rfl, rfl⟩

/-- The two places from which `resumeUpload` is called. -/
def Wraps (wrap : Resume → Op) : Prop :=
  wrap = .resumeUpload ∨ ∃ recipients, wrap = fun r => .pickFile recipients (.resuming r)

namespace Wraps

variable {wrap : Resume → Op} (h : Wraps wrap)
include h

/-- Both callers of `resumeUpload` run the same transfer. So the facts about a transfer are proved
once for both. -/
theorem transfer (r : Resume) : (wrap r).transfer? = r.transfer? := by
  rcases h with rfl | ⟨_, rfl⟩
  · rfl
  · rfl

/-- A wrapped transfer waits for the write it would wait for on its own. -/
theorem clears (t : Transfer) :
    (wrap (.running t)).clears? = t.pc.clears?.map fun ticket => (ticket, t.job) := by
  rcases h with rfl | ⟨_, rfl⟩
  · rfl
  · rfl

/-- Resuming is past the choice of a file. The pending upload is there already. -/
theorem chooses (r : Resume) : (wrap r).chooses = false := by
  rcases h with rfl | ⟨_, rfl⟩
  · rfl
  · rfl

/-- Resuming has no copy of its own under way. The copy was finished before the upload became
pending. -/
theorem copy (r : Resume) : (wrap r).copy? = none := by
  rcases h with rfl | ⟨_, rfl⟩
  · rfl
  · rfl

/-- Whether an operation is the one that picks does not depend on how far its transfer has come. -/
theorem picks (r r' : Resume) : (wrap r).picks = (wrap r').picks := by
  rcases h with rfl | ⟨_, rfl⟩
  · rfl
  · rfl

/-- The number of a wrapped call is the number of its transfer. -/
theorem number (t : Transfer) : (wrap (.running t)).number? = some t.transfer := by
  rw [Op.number?, h.transfer]
  rfl

/-- A wrapped transfer has been started already. So `initialize` is over for it. -/
theorem isCalled (t : Transfer) : (wrap (.running t)).isCalled = false := by
  rcases h with rfl | ⟨_, rfl⟩
  · rfl
  · rfl

/-- A call of `resumeUpload`, running or not. Before it runs it knows nothing, and afterwards what
its transfer knows. -/
theorem holds {s : Phone} {r : Resume} (hinit : s.init = .searching)
    (hpicks : (wrap r).picks = true → s.picking = true)
    (hr : ∀ t, r = .running t → t.Holds s ∧ t.Clears s) : (wrap r).Holds s := by
  cases r with
  | running t =>
      exact .of_transfer hinit (h.transfer _) (h.clears t) (h.chooses _) (h.copy _) hpicks
        (hr t rfl).1 (hr t rfl).2
  | _ =>
      refine .of_idle (fun _ => hinit) (h.transfer _) ?_ (h.chooses _) (h.copy _) hpicks
      rcases h with rfl | ⟨_, rfl⟩
      · rfl
      · rfl

/-- A section of a call that runs. It is the section of the transfer, seen from its caller. -/
theorem section_running {s s' : Phone} {t t' : Transfer} {k : Outcome} (hs : s.Sound)
    (hop : (wrap (.running t)).Holds s) (hstep : t.step k s = some (s', t')) :
    (wrap (.running t)).Section s s' (wrap (.running t')) := by
  have hinit := hop.begun (h.isCalled t)
  have ht := hop.transfer t (h.transfer _)
  have hclears : t.Clears s := by
    intro ticket hticket
    apply hop.clears ticket t.job
    rw [h.clears, hticket]
    rfl
  have hsection : t.Section (wrap (.running t)) s s' t' :=
    Transfer.section_step hs hinit (h.number t) ht hclears hstep
  refine ⟨hsection.moves, h.holds ((Moves.init hsection.moves).trans hinit) ?_ ?_, ?_, .inl ?_⟩
  · intro hpicks
    rw [hsection.picking]
    exact hop.picks ((h.picks _ _).trans hpicks)
  · intro u hu
    obtain rfl := Resume.running.inj hu
    exact ⟨hsection.holds ht, hsection.clears⟩
  · exact fun hpicks => .inl ((h.picks _ _).trans hpicks)
  · rw [h.number, h.number, hsection.transfer]

end Wraps

/-- `resumeUpload` is called by the operation `op`, which then is at `wrap r`. -/
theorem Op.section_resumeUpload {wrap : Resume → Op} (h : Wraps wrap) {op : Op} {s : Phone}
    (hs : s.Sound) (hinit : s.init = .searching)
    (hpicks : (wrap .returned).picks = true → op.picks = true ∧ s.picking = true) :
    op.Section s s.resumeUpload.1 (wrap s.resumeUpload.2) := by
  obtain ⟨hmoves, hpicking, hrunning⟩ := Phone.resumeUpload_spec op hs
  refine ⟨hmoves, h.holds ((Moves.init hmoves).trans hinit) ?_ ?_, ?_, .inr ?_⟩
  · intro hwrap
    rw [hpicking]
    exact (hpicks ((h.picks _ _).trans hwrap)).2
  · intro t ht
    exact ⟨(hrunning t ht).1, Transfer.clears_of_active (hrunning t ht).2.1⟩
  · exact fun hwrap => .inl (hpicks ((h.picks _ _).trans hwrap)).1
  · rw [Op.number?, h.transfer]
    cases hr : s.resumeUpload.2 with
    | running t => exact .inr (congrArg some (hrunning t hr).2.2)
    | _ => exact .inl rfl

/-- A section of `resumeUpload`. Either it starts a transfer, or its transfer goes on. -/
theorem Wraps.section_step {wrap : Resume → Op} (h : Wraps wrap) {r r' : Resume} {k : Outcome}
    {s s' : Phone} (hs : s.Sound) (hop : (wrap r).Holds s) (hstep : r.step k s = some (s', r')) :
    (wrap r).Section s s' (wrap r') := by
  cases r with
  | called =>
      rw [Resume.step] at hstep
      split at hstep
      next hinit =>
        obtain ⟨rfl, rfl⟩ := Prod.mk.inj (Option.some.inj hstep)
        apply Op.section_resumeUpload h hs hinit
        intro hpicks
        have hcalled : (wrap .called).picks = true := (h.picks _ _).trans hpicks
        exact ⟨hcalled, hop.picks hcalled⟩
      next => cases hstep
  | running t =>
      obtain ⟨⟨s₁, t'⟩, hrun, heq⟩ := Option.map_eq_some_iff.mp hstep
      obtain ⟨rfl, rfl⟩ := Prod.mk.inj heq
      exact h.section_running hs hop hrun
  | returned => cases hstep
  | threw => cases hstep

/-! ### `pickFile` -/

namespace PickPC

variable {recipients : List DartString} {s s' : Phone} {pc pc' : PickPC}

/-- `pickFile` comes to its end. The flag of the picker is cleared by whoever has set it. -/
theorem section_finish (hinit : s.init = .searching) {s₁ : Phone}
    (hpicks : (Op.pickFile recipients pc).picks = true)
    (hmoves : Moves (.pickFile recipients pc) s s₁) :
    (Op.pickFile recipients pc).Section s (finish s₁).1 (.pickFile recipients (finish s₁).2) := by
  have hmove : Move (.pickFile recipients pc) s₁ { s₁ with picking := false } :=
    .picking false (.inr hpicks)
  have hinit' : s₁.init = .searching := (Moves.init hmoves).trans hinit
  refine ⟨hmoves.tail hmove, ?_, fun h => Bool.noConfusion h, .inr (.inl rfl)⟩
  exact .of_idle (fun _ => hinit') rfl rfl rfl rfl (fun h => Bool.noConfusion h)

/-- `pickFile` returns at once unless the room is connected, no upload is pending and no file is
being picked. -/
theorem section_call (hinit : s.init = .searching) :
    (Op.pickFile recipients .called).Section s (call recipients s).1
      (.pickFile recipients (call recipients s).2) := by
  have hend : ∀ s' : Phone, s'.init = .searching →
      (Op.pickFile recipients .returned).Holds s' := fun s' hs' =>
    .of_idle (fun _ => hs') rfl rfl rfl rfl (fun h => Bool.noConfusion h)
  rw [call]
  split
  · exact ⟨.refl, hend s hinit, fun h => Bool.noConfusion h, .inr (.inl rfl)⟩
  next hguard =>
    obtain ⟨-, hguard⟩ := not_or.mp hguard
    obtain ⟨hfree, hpicking⟩ := not_or.mp hguard
    have hpicking : s.picking = false := Bool.eq_false_iff.mpr hpicking
    split
    · -- the `finally` resets what was not set
      have hsame : { s with picking := false } = s := by rw [← hpicking]
      rw [hsame]
      exact ⟨.refl, hend s hinit, fun h => Bool.noConfusion h, .inr (.inl rfl)⟩
    next targetServer _ =>
      refine ⟨.single (.picking true (.inl rfl)), ?_, fun _ => .inr hpicking, .inr (.inl rfl)⟩
      refine .of_unnumbered (fun _ => hinit) rfl rfl (fun _ => rfl) (fun _ => not_not.mp hfree) ?_
      intro name hname
      cases hname

/-- The copy begins under a new name. No job and no value of the record names a file that was not
there. -/
theorem section_stage {targetServer name : DartString} {targetRecipients : List DartString}
    (hs : s.Sound) (hop : (Op.pickFile recipients (.choosing targetServer targetRecipients)).Holds s)
    (hnew : name ∉ s.staged) (hname : isPending name = true) :
    (Op.pickFile recipients (.choosing targetServer targetRecipients)).Section s
      { s with files := name :: s.files, staged := name :: s.staged }
      (.pickFile recipients (.copying targetServer targetRecipients name)) := by
  have hinit := hop.begun rfl
  have hfree := hop.chooses rfl
  -- the new copy has a name no upload knows yet
  have hunknown : ∀ path, s.IsStaged path → path ≠ filePath s.directory name := by
    rintro path ⟨f, hf, rfl⟩ heq
    exact hnew (filePath_inj heq ▸ hf)
  refine ⟨.single (.stage name hnew hname), ?_, fun _ => .inl rfl, .inl rfl⟩
  refine .of_unnumbered (fun _ => hinit) rfl rfl (fun _ => hop.picks rfl) (fun _ => hfree) ?_
  intro name' hname'
  obtain rfl := Option.some.inj hname'
  refine ⟨List.mem_cons_self, List.mem_cons_self, ?_, ?_, ?_⟩
  · exact fun job hjob => hunknown job.path (hs.jobs job hjob)
  · -- nothing that may still be written names it
    intro w hw _
    cases hvalue : w.2 with
    | none => rfl
    | some job =>
        have hmem : some job ∈ s.sequence := by
          rw [Phone.sequence, ← hvalue]
          exact List.mem_append_left _ (List.mem_map_of_mem hw)
        rw [Bool.eq_false_iff, ne_eq, names_some]
        exact hunknown job.path (hs.kept job hmem).1
  · exact congrArg (names _) (Phone.pending_eq_none hfree)

/-- The file is copied, and becomes the pending upload. From this section on the record to be
written names it. -/
theorem section_picked {targetServer name : DartString} {targetRecipients : List DartString}
    {job : Job} (hop : (Op.pickFile recipients (.copying targetServer targetRecipients name)).Holds s)
    (hpath : job.path = filePath s.directory name) :
    (Op.pickFile recipients (.copying targetServer targetRecipients name)).Section s
      { s with
          jobs := s.jobs ++ [job]
          pendingUpload := some s.jobs.length : Phone }.saveUpload
      (.pickFile recipients (.saving (s.issued + 1))) := by
  obtain ⟨hstaged, hfile, hnew, -⟩ := hop.copies name rfl
  have hmove : Move (.pickFile recipients (.copying targetServer targetRecipients name)) s
      { s with jobs := s.jobs ++ [job], pendingUpload := some s.jobs.length } := by
    refine .picked job rfl (hop.chooses rfl) ?_ ⟨⟨name, hstaged, hpath.symm⟩, ?_⟩
    · rw [hpath]
      exact hnew
    · exact Phone.hasFile_iff.mpr ⟨name, hfile, hpath.symm⟩
  refine ⟨(ReflTransGen.single hmove).tail .save, ?_, fun _ => .inl rfl, .inl rfl⟩
  exact .of_idle (fun _ => hop.begun rfl) rfl rfl rfl rfl (fun _ => hop.picks rfl)

/-- **A section of `pickFile`.** The copy of the file is made under a new name, the record is
written and awaited, and the transfer begins. A copy that fails may be deleted again. -/
theorem section_step {k : Outcome} (hs : s.Sound) (hop : (Op.pickFile recipients pc).Holds s)
    (hstep : pc.step recipients k s = some (s', pc')) :
    (Op.pickFile recipients pc).Section s s' (.pickFile recipients pc') := by
  have hwraps : Wraps fun r => .pickFile recipients (.resuming r) := .inr ⟨recipients, rfl⟩
  unfold step at hstep
  split at hstep
  next =>
    split at hstep
    next hinit =>
      obtain ⟨rfl, rfl⟩ := Prod.mk.inj (Option.some.inj hstep)
      exact section_call hinit
    next => cases hstep
  next =>
    obtain ⟨rfl, rfl⟩ := Prod.mk.inj (Option.some.inj hstep)
    exact section_finish (hop.begun rfl) rfl .refl
  next =>
    obtain ⟨rfl, rfl⟩ := Prod.mk.inj (Option.some.inj hstep)
    exact section_finish (hop.begun rfl) rfl .refl
  next targetServer targetRecipients uuid =>
    dsimp only at hstep
    split at hstep
    · cases hstep
    next hnew =>
      obtain ⟨rfl, rfl⟩ := Prod.mk.inj (Option.some.inj hstep)
      -- the copy is made under a name that is not in use
      exact section_stage hs hop hnew (isPending_pendingName uuid)
  next =>
    obtain ⟨rfl, rfl⟩ := Prod.mk.inj (Option.some.inj hstep)
    exact section_picked hop rfl
  next name deleted =>
    obtain ⟨rfl, rfl⟩ := Prod.mk.inj (Option.some.inj hstep)
    apply section_finish (hop.begun rfl) rfl
    cases deleted with
    | false => exact .refl
    -- the copy is deleted again: no record has been written for it
    | true => exact .single (.delete _ (hop.copies name rfl).2.2.2 (.inr rfl))
  next ticket =>
    split at hstep
    · obtain ⟨rfl, rfl⟩ := Prod.mk.inj (Option.some.inj hstep)
      exact Op.section_resumeUpload hwraps hs (hop.begun rfl) fun _ => ⟨rfl, hop.picks rfl⟩
    · cases hstep
  next r k =>
    split at hstep
    · obtain ⟨rfl, rfl⟩ := Prod.mk.inj (Option.some.inj hstep)
      exact section_finish (hop.begun rfl) rfl .refl
    · obtain ⟨⟨s₁, r'⟩, hrun, heq⟩ := Option.map_eq_some_iff.mp hstep
      obtain ⟨rfl, rfl⟩ := Prod.mk.inj heq
      -- the transfer goes on inside
      exact hwraps.section_step hs hop hrun
  next => cases hstep

end PickPC

/-! ### `cancelUpload` -/

namespace CancelPC

variable {s s' : Phone} {pc pc' : CancelPC}

/-- The upload is cancelled before anything is awaited. The write that clears the record is
requested in the same section. -/
theorem section_call (hs : s.Sound) (hinit : s.init = .searching) :
    (Op.cancelUpload .called).Section s (call s).1 (.cancelUpload (call s).2) := by
  rw [call]
  split
  · refine ⟨.refl, ?_, fun h => Bool.noConfusion h, .inl rfl⟩
    exact .of_idle (fun _ => hinit) rfl rfl rfl rfl (fun h => Bool.noConfusion h)
  next n job hcurrent =>
    have hpending : s.pending = some job := by rw [Phone.pending, hcurrent]; rfl
    have hmove : Move (.cancelUpload .called) s _ := .cancel job hpending
    obtain ⟨m, -, hjob⟩ := Option.bind_eq_some_iff.mp hcurrent
    obtain ⟨job', hjob', heq⟩ := Option.map_eq_some_iff.mp hjob
    obtain ⟨rfl, rfl⟩ := Prod.mk.inj heq
    refine ⟨(ReflTransGen.single hmove).tail .save, ?_, fun h => Bool.noConfusion h, .inl rfl⟩
    have hgone := Phone.clears_of_free (hs.move hinit hmove) rfl job'.path
    exact .of_clears hinit rfl rfl rfl rfl rfl hjob' hgone

/-- It goes on to delete the file. The write has been performed, so the file may go. -/
theorem section_next {n : ℕ} (hop : (Op.cancelUpload pc).Holds s) (hbegun : pc ≠ .called)
    (hclears : (Op.cancelUpload pc').clears? = some (0, n))
    (hgone : ∃ job, s.jobs[n]? = some job ∧ s.Clears job.path 0) :
    (Op.cancelUpload pc).Section s s (.cancelUpload pc') := by
  have hinit : s.init = .searching := by
    apply hop.begun
    cases pc with
    | called => exact absurd rfl hbegun
    | _ => rfl
  obtain ⟨job, hjob, hgone⟩ := hgone
  refine ⟨.refl, ?_, fun h => Bool.noConfusion h, .inl rfl⟩
  exact .of_clears hinit rfl hclears rfl rfl rfl hjob hgone

/-- It comes to its end. What happened to the file does not matter to the record any more. -/
theorem section_returned {n : ℕ} (hop : (Op.cancelUpload (.deleting n)).Holds s)
    (hmoves : Moves (.cancelUpload (.deleting n)) s s') :
    (Op.cancelUpload (.deleting n)).Section s s' (.cancelUpload .returned) := by
  have hinit : s'.init = .searching := (Moves.init hmoves).trans (hop.begun rfl)
  refine ⟨hmoves, ?_, fun h => Bool.noConfusion h, .inl rfl⟩
  exact .of_idle (fun _ => hinit) rfl rfl rfl rfl (fun h => Bool.noConfusion h)

/-- **A section of `cancelUpload`.** The record is removed first, and that is awaited; then the
server may be asked to drop the upload, and the file is deleted last. -/
theorem section_step {k : Outcome} (hs : s.Sound) (hop : (Op.cancelUpload pc).Holds s)
    (hstep : pc.step k s = some (s', pc')) :
    (Op.cancelUpload pc).Section s s' (.cancelUpload pc') := by
  unfold step at hstep
  split at hstep
  next =>
    split at hstep
    next hinit =>
      obtain ⟨rfl, rfl⟩ := Prod.mk.inj (Option.some.inj hstep)
      exact section_call hs hinit
    next => cases hstep
  next ticket n =>
    obtain ⟨job, hjob, hstep⟩ := Option.bind_eq_some_iff.mp hstep
    -- the removal of the record is awaited before anything else is given up
    obtain ⟨job', hjob', hgone⟩ := hop.clears ticket n rfl
    split at hstep
    next hstored =>
      have hgone : ∃ job, s.jobs[n]? = some job ∧ s.Clears job.path 0 :=
        ⟨job', hjob', hgone.of_stored hs hstored⟩
      split at hstep
      · obtain ⟨rfl, rfl⟩ := Prod.mk.inj (Option.some.inj hstep)
        exact section_next hop CancelPC.noConfusion rfl hgone
      · obtain ⟨rfl, rfl⟩ := Prod.mk.inj (Option.some.inj hstep)
        exact section_next hop CancelPC.noConfusion rfl hgone
    next => cases hstep
  next n =>
    obtain ⟨rfl, rfl⟩ := Prod.mk.inj (Option.some.inj hstep)
    exact section_next hop CancelPC.noConfusion rfl (hop.clears 0 n rfl)
  next n _ =>
    obtain ⟨rfl, rfl⟩ := Prod.mk.inj (Option.some.inj hstep)
    exact section_next hop CancelPC.noConfusion rfl (hop.clears 0 n rfl)
  -- what the server answers to the `DELETE` changes nothing
  next n =>
    obtain ⟨rfl, rfl⟩ := Prod.mk.inj (Option.some.inj hstep)
    exact section_next hop CancelPC.noConfusion rfl (hop.clears 0 n rfl)
  next n _ =>
    obtain ⟨rfl, rfl⟩ := Prod.mk.inj (Option.some.inj hstep)
    exact section_next hop CancelPC.noConfusion rfl (hop.clears 0 n rfl)
  next n =>
    obtain ⟨job, hjob, hstep⟩ := Option.bind_eq_some_iff.mp hstep
    -- the file is deleted last
    obtain ⟨job', hjob', hgone⟩ := hop.clears 0 n rfl
    obtain rfl := Option.some.inj (hjob.symm.trans hjob')
    split at hstep
    · obtain ⟨rfl, rfl⟩ := Prod.mk.inj (Option.some.inj hstep)
      exact section_returned hop
        (.single (.delete _ hgone (.inl ⟨job, List.mem_of_getElem? hjob, rfl⟩)))
    · cases hstep
  next =>
    obtain ⟨rfl, rfl⟩ := Prod.mk.inj (Option.some.inj hstep)
    exact section_returned hop .refl
  next => cases hstep

end CancelPC

/-- **Every section of an operation is one of these.** The proofs about runs go through this case
analysis only. -/
theorem Op.section_step {op op' : Op} {k : Outcome} {s s' : Phone} (hs : s.Sound) (hop : op.Holds s)
    (hstep : op.step k s = some (s', op')) : op.Section s s' op' := by
  cases op with
  | pickFile recipients pc =>
      obtain ⟨⟨s₁, pc'⟩, hrun, heq⟩ := Option.map_eq_some_iff.mp hstep
      obtain ⟨rfl, rfl⟩ := Prod.mk.inj heq
      exact PickPC.section_step hs hop hrun
  | resumeUpload r =>
      obtain ⟨⟨s₁, r'⟩, hrun, heq⟩ := Option.map_eq_some_iff.mp hstep
      obtain ⟨rfl, rfl⟩ := Prod.mk.inj heq
      exact Wraps.section_step (.inl rfl) hs hop hrun
  | cancelUpload pc =>
      obtain ⟨⟨s₁, pc'⟩, hrun, heq⟩ := Option.map_eq_some_iff.mp hstep
      obtain ⟨rfl, rfl⟩ := Prod.mk.inj heq
      exact CancelPC.section_step hs hop hrun

end LanRoom.Mobile.Pending
