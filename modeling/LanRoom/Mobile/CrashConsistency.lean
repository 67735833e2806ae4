import LanRoom.Concurrency.ExclusiveInvariant
import LanRoom.Mobile.UploadSections

/-! # The pending upload survives a crash

Whenever the process is killed, the record names a file that is there, and a record goes only when its
upload is over. The next process finds the file, and clears away what else the picker has left
(`crash_consistent`). -/

namespace LanRoom.Mobile.Pending

open ThreadPool (Tid Machine Act Config)

/-! ## What happens besides -/

namespace Phone

variable {s : Phone}

/-- Before the operations begin, nothing but the record is in the sequence. It is the state in which
a process finds the phone after a crash. -/
theorem Sound.of_start (hplace : ∀ n, s.pendingUpload = some n → n < s.jobs.length)
    (hmade : ∀ f ∈ s.staged, isPending f = true) (hjobs : ∀ job ∈ s.jobs, s.IsStaged job.path)
    (hkept : ∀ job, s.record = some job → s.IsStaged job.path ∧ s.hasFile job.path = true)
    (hstored : s.stored ≤ s.issued) (hwrites : s.writes = []) (hupcoming : s.upcoming = s.record)
    (hcleared : ∀ job, some job ∈ s.storage → names job.path s.record = true ∨ s.IsOver job.path)
    (hreading : s.init = .read → s.pendingUpload = none ∧ s.jobs = [])
    (hlisting : ∀ todo, s.init = .listing todo → s.pending = s.record ∧
      ∀ f ∈ s.files, isPending f = true → names (filePath s.directory f) s.record = true ∨ f ∈ todo) :
    s.Sound := by
  -- nothing is being written and nothing waits, so the record is all there is to say about the
  -- storage
  have hvalues : s.values = [(s.stored, s.record)] := by rw [values, hwrites]
  have hsequence : s.sequence = [s.record, s.record] := by
    rw [sequence, hvalues, hupcoming]
    rfl
  refine ⟨hplace, hmade, hjobs, ?_, ?_, ?_, ?_, hcleared, ?_, ?_⟩
  · intro job hjob
    rw [hsequence] at hjob
    rcases List.mem_cons.mp hjob with hjob | hjob
    · exact hkept job hjob.symm
    · exact hkept job (List.mem_singleton.mp hjob).symm
  · intro w hw
    rw [hvalues] at hw
    obtain rfl := List.mem_singleton.mp hw
    exact hstored
  · rw [hvalues]
    exact List.pairwise_singleton _ _
  · rw [hsequence]
    exact List.pairwise_pair.mpr (s.follows_refl s.record)
  · exact fun h => ⟨hwrites, hreading h⟩
  · exact fun todo h => ⟨hwrites, hlisting todo h⟩

/-- The file that the record on disk names exists, and the app has made it. It is the first value of
the sequence. -/
theorem Sound.kept_record (h : s.Sound) {job : Job} (hjob : s.record = some job) :
    s.IsStaged job.path ∧ s.hasFile job.path = true := by
  apply h.kept job
  rw [sequence, values, List.map_cons, hjob]
  exact List.mem_cons_self

/-- The process is killed, and what is stored stays. What was only in memory is lost, together with
the writes that had not been performed. -/
theorem Sound.crash (h : s.Sound) : Sound { s with toMemory := {}, life := s.life + 1 } := by
  refine .of_start ?_ h.made ?_ (fun job hjob => h.kept_record hjob) (le_refl 0) rfl rfl h.cleared
    (fun _ => ⟨rfl, rfl⟩) ?_
  · intro n hn
    cases hn
  · intro job hjob
    cases hjob
  · intro todo htodo
    cases htodo

/-- `initialize` reads the record. It is the first thing a process does, before any thread of the
user's runs. -/
theorem Sound.read (h : s.Sound) (hinit : s.init = .read) : s.initializeStep.Sound := by
  obtain ⟨hwrites, hfree, hjobs⟩ := h.reading hinit
  have hstored : s.stored ≤ s.issued := h.numbered (s.stored, s.record) List.mem_cons_self
  rw [initializeStep, hinit]
  dsimp only
  cases hrecord : s.record with
  -- no record: every file of the directory is listed, and the pending ones are to be deleted
  | none =>
      have hpending : Phone.pending { s with init := .listing s.files } = none :=
        pending_eq_none hfree
      refine .of_start h.place h.made h.jobs (fun job hjob => h.kept_record hjob) hstored hwrites
        (hpending.trans hrecord.symm) h.cleared (fun hread => by cases hread) ?_
      intro todo htodo
      obtain rfl := InitPC.listing.inj htodo
      exact ⟨hpending.trans hrecord.symm, fun f hf _ => .inr hf⟩
  -- the record becomes the pending upload, and its file is the one to keep
  | some job =>
      have hpending : Phone.pending { s with
          jobs := s.jobs ++ [job]
          pendingUpload := some s.jobs.length
          init := .listing s.files } = some job := by
        simp [pending, current]
      refine .of_start ?_ h.made ?_ (fun job hjob => h.kept_record hjob) hstored hwrites
        (hpending.trans hrecord.symm) h.cleared (fun hread => by cases hread) ?_
      · intro n hn
        obtain rfl := Option.some.inj hn
        rw [List.length_append, List.length_singleton]
        exact Nat.lt_succ_self _
      · intro job' hjob'
        rcases List.mem_append.mp hjob' with hold | hnew
        · exact h.jobs job' hold
        · obtain rfl := List.mem_singleton.mp hnew
          exact (h.kept_record hrecord).1
      · intro todo htodo
        obtain rfl := InitPC.listing.inj htodo
        exact ⟨hpending.trans hrecord.symm, fun f hf _ => .inr hf⟩

/-- `initialize` goes through the directory. It deletes the names that the record does not keep. -/
theorem Sound.list (h : s.Sound) {todo : List DartString} (hinit : s.init = .listing todo) :
    s.initializeStep.Sound := by
  obtain ⟨hwrites, hpending, hfiles⟩ := h.listing todo hinit
  have hstored : s.stored ≤ s.issued := h.numbered (s.stored, s.record) List.mem_cons_self
  rw [initializeStep, hinit]
  cases todo with
  | nil =>
      exact .of_start h.place h.made h.jobs (fun job hjob => h.kept_record hjob) hstored hwrites
        hpending h.cleared (fun hread => by cases hread) (fun todo htodo => by cases htodo)
  | cons f todo =>
      dsimp only
      split
      next hgoes =>
        rw [Bool.and_eq_true, decide_eq_true_iff, hpending] at hgoes
        -- the record names another file
        have hother : ∀ job, s.record = some job → job.path ≠ filePath s.directory f := by
          intro job hjob heq
          apply hgoes.2
          rw [hjob, ← heq]
          rfl
        refine .of_start h.place h.made h.jobs ?_ hstored hwrites hpending h.cleared
          (fun hread => by cases hread) ?_
        · intro job hjob
          obtain ⟨hstaged, hfile⟩ := h.kept_record hjob
          exact ⟨hstaged, hasFile_delete hfile (hother job hjob)⟩
        · intro todo' htodo'
          obtain rfl := InitPC.listing.inj htodo'
          refine ⟨hpending, fun g hg hname => ?_⟩
          obtain ⟨hg, hne⟩ := List.mem_filter.mp hg
          refine (hfiles g hg hname).imp_right fun hmem => ?_
          refine (List.mem_cons.mp hmem).resolve_left fun hgf => ?_
          rw [hgf] at hne
          exact of_decide_eq_true hne rfl
      next hstays =>
        refine .of_start h.place h.made h.jobs (fun job hjob => h.kept_record hjob) hstored hwrites
          hpending h.cleared (fun hread => by cases hread) ?_
        intro todo' htodo'
        obtain rfl := InitPC.listing.inj htodo'
        refine ⟨hpending, fun g hg hname => ?_⟩
        rcases hfiles g hg hname with hnames | hmem
        · exact .inl hnames
        · rcases List.mem_cons.mp hmem with rfl | hmem
          · -- a file of the picker that stays is that of the record
            left
            rw [hname, Bool.true_or, Bool.true_and, decide_eq_true_iff, not_not, hpending] at hstays
            obtain ⟨job, hjob, hpath⟩ := Option.map_eq_some_iff.mp hstays
            show names _ s.record = true
            rw [hjob]
            exact names_some.mpr hpath
          · exact .inr hmem

/-- A write is performed. The writes are performed in the order in which they were issued. -/
theorem Sound.perform (h : s.Sound) : s.perform.Sound := by
  unfold Phone.perform
  split
  · exact h
  next n value rest hwrites =>
    have hinit : s.init = .searching := by
      cases hinit : s.init with
      | searching => rfl
      | read =>
          have hnone := (h.reading hinit).1
          rw [hwrites] at hnone
          cases hnone
      | listing todo =>
          have hnone := (h.listing todo hinit).1
          rw [hwrites] at hnone
          cases hnone
    have hvalues : s.values = (s.stored, s.record) :: (n, value) :: rest := by rw [values, hwrites]
    have hsequence : s.sequence = s.record :: (((n, value) :: rest).map (·.2) ++ [s.pending]) := by
      rw [sequence_eq hinit, hvalues]
      rfl
    have hnext : Phone.sequence { s with
        storage := value :: s.storage
        writes := rest
        stored := n } = ((n, value) :: rest).map (·.2) ++ [s.pending] :=
      sequence_eq (s := { s with storage := value :: s.storage, writes := rest, stored := n }) hinit
    have hordered := h.ordered
    have hsorted := h.sorted
    rw [hsequence, List.pairwise_cons] at hordered
    rw [hvalues, List.pairwise_cons] at hsorted
    refine ⟨h.place, h.made, h.jobs, ?_, ?_, hsorted.2, ?_, ?_, ?_, ?_⟩
    · intro job hjob
      rw [hnext] at hjob
      apply h.kept job
      rw [hsequence]
      exact List.mem_cons_of_mem _ hjob
    · intro w hw
      apply h.numbered w
      rw [hvalues]
      exact List.mem_cons_of_mem _ hw
    · rw [hnext]
      exact hordered.2
    · -- what was stored is stored again, or over
      intro job hjob
      rcases List.mem_cons.mp hjob with rfl | hjob
      · exact .inl (names_some.mpr rfl)
      · rcases h.cleared job hjob with hnames | hover
        · cases hrecord : s.record with
          | none =>
              rw [hrecord] at hnames
              cases hnames
          | some job' =>
              rw [hrecord, names_some] at hnames
              rw [← hnames]
              exact hordered.1 value (List.mem_append_left _ List.mem_cons_self) job' hrecord
        · exact .inr hover
    · intro hread
      exact absurd (hinit.symm.trans hread) InitPC.noConfusion
    · intro todo htodo
      exact absurd (hinit.symm.trans htodo) InitPC.noConfusion

/-- Another file comes or goes. It is one that the program does not name. -/
theorem Sound.touch (h : s.Sound) (name : DartString) (present : Bool) :
    (s.touch name present).Sound := by
  unfold Phone.touch
  split
  · exact h
  next hname =>
    -- other programs create and remove files of other names only
    split
    · refine ⟨h.place, h.made, h.jobs, ?_, h.numbered, h.sorted, h.ordered, h.cleared, h.reading, ?_⟩
      · intro job hjob
        obtain ⟨hstaged, hfile⟩ := h.kept job hjob
        obtain ⟨f, hf, hpath⟩ := hasFile_iff.mp hfile
        exact ⟨hstaged, hasFile_iff.mpr ⟨f, List.mem_cons_of_mem _ hf, hpath⟩⟩
      · intro todo htodo
        obtain ⟨hwrites, hpending, hfiles⟩ := h.listing todo htodo
        refine ⟨hwrites, hpending, fun g hg hg' => ?_⟩
        rcases List.mem_cons.mp hg with rfl | hg
        · exact absurd hg' hname
        · exact hfiles g hg hg'
    · refine ⟨h.place, h.made, h.jobs, ?_, h.numbered, h.sorted, h.ordered, h.cleared, h.reading, ?_⟩
      · intro job hjob
        obtain ⟨⟨f, hf, hpath⟩, hfile⟩ := h.kept job hjob
        refine ⟨⟨f, hf, hpath⟩, hasFile_delete hfile ?_⟩
        -- the kept file has a pending name, so it is not the one that is removed
        intro heq
        rw [← hpath] at heq
        exact hname (filePath_inj heq ▸ h.made f hf)
      · intro todo htodo
        obtain ⟨hwrites, hpending, hfiles⟩ := h.listing todo htodo
        exact ⟨hwrites, hpending, fun g hg hg' => hfiles g (List.mem_of_mem_filter hg) hg'⟩

/-- **Nothing that happens besides harms the record**: not a crash, not a write that is performed,
not the room, and not the other files. -/
theorem Sound.env (h : s.Sound) (e : Event) : (Phone.env e s).Sound := by
  cases e with
  | crash => exact h.crash
  | initialized =>
      cases hinit : s.init with
      | read => exact h.read hinit
      | listing todo => exact h.list hinit
      | searching =>
          rw [Phone.env, initializeStep, hinit]
          exact h
  | stored => exact h.perform
  | room => exact h.quiet rfl rfl rfl rfl rfl rfl rfl rfl
  | file name present => exact h.touch name present

end Phone

/-- Code of no operation: the maps and the numbers are as they were, the values become fewer and the
files of the picker stay. -/
theorem Op.Holds.of_same {op : Op} {s s' : Phone} (h : op.Holds s) (hs : s.Sound)
    (hinit : s'.init = s.init) (hjobs : s'.jobs = s.jobs)
    (hpending : s'.pendingUpload = s.pendingUpload) (hpicking : s'.picking = s.picking)
    (hgeneration : s'.transferGeneration = s.transferGeneration) (hstaged : s'.staged = s.staged)
    (hdirectory : s'.directory = s.directory) (hvalues : ∀ w ∈ s'.values, w ∈ s.values)
    (hfiles : ∀ f ∈ s.files, isPending f = true → f ∈ s'.files) : op.Holds s' := by
  -- the pending upload is the same, so a write is still later than those that may clear it
  have hsame : s'.pending = s.pending := by
    rw [Phone.pending, Phone.pending, Phone.current, Phone.current, hjobs, hpending]
  have hgone : ∀ path ticket, s.Clears path ticket → s'.Clears path ticket := by
    intro path ticket hclears
    refine hclears.of_subset hvalues ?_
    rw [hsame]
    exact hclears.2
  refine ⟨?_, ?_, ?_, ?_, ?_, ?_⟩
  · rw [hinit]
    exact h.begun
  · intro t ht
    obtain ⟨hnumber, hplace, hactive⟩ := h.transfer t ht
    refine ⟨?_, ?_, ?_⟩
    · rw [hgeneration]
      exact hnumber
    · rw [hjobs]
      exact hplace
    · rw [hgeneration, hpending]
      exact hactive
  · intro ticket n hn
    obtain ⟨job, hjob, hclears⟩ := h.clears ticket n hn
    rw [hjobs]
    exact ⟨job, hjob, hgone _ _ hclears⟩
  · rw [hpicking]
    exact h.picks
  · rw [hpending]
    exact h.chooses
  · intro name hname
    obtain ⟨hmade, hfile, hnew, hclears⟩ := h.copies name hname
    rw [hstaged, hjobs, hdirectory]
    exact ⟨hmade, hfiles name hfile (hs.made name hmade), hnew, hgone _ _ hclears⟩

/-- An operation that has just been called. It has no job and no copy yet. -/
theorem Op.holds_of_isCalled {op : Op} (h : op.isCalled = true) (s : Phone) : op.Holds s := by
  have hbegun : op.isCalled = false → s.init = .searching := by
    intro hnot
    rw [h] at hnot
    cases hnot
  cases op with
  | pickFile recipients pc =>
      cases pc with
      | called => exact .of_idle hbegun rfl rfl rfl rfl (fun h => Bool.noConfusion h)
      | _ => cases h
  | resumeUpload r =>
      cases r with
      | called => exact .of_idle hbegun rfl rfl rfl rfl (fun h => Bool.noConfusion h)
      | _ => cases h
  | cancelUpload pc =>
      cases pc with
      | called => exact .of_idle hbegun rfl rfl rfl rfl (fun h => Bool.noConfusion h)
      | _ => cases h

/-- Only a crash ends the process. Writes and other files do not. -/
theorem Phone.env_life (e : Event) (s : Phone) :
    (Phone.env e s).life = s.life ∨ (Phone.env e s).life = s.life + 1 := by
  cases e with
  | crash => exact .inr rfl
  | initialized =>
      left
      rw [Phone.env, Phone.initializeStep]
      split
      · split
        · rfl
        · rfl
      · rfl
      · dsimp only
        split
        · rfl
        · rfl
      · rfl
  | stored =>
      left
      rw [Phone.env, Phone.perform]
      split
      · rfl
      · rfl
  | room => exact .inl rfl
  | file name present =>
      left
      rw [Phone.env, Phone.touch]
      split
      · rfl
      · split
        · rfl
        · rfl

/-- The assertion of an operation while its process goes on. Performing a write and touching other
files take nothing from it. -/
theorem Op.Holds.env {op : Op} {s : Phone} (h : op.Holds s) (hs : s.Sound) {e : Event}
    (hlife : (Phone.env e s).life = s.life) : op.Holds (Phone.env e s) := by
  cases e with
  -- a crash begins another life, in which no call of this one runs
  | crash => exact absurd hlife (Nat.succ_ne_self _)
  | initialized =>
      -- a call that has not begun holds nothing yet
      cases hcalled : op.isCalled with
      | true => exact Op.holds_of_isCalled hcalled _
      | false =>
          rw [Phone.env, Phone.initializeStep, h.begun hcalled]
          exact h
  | stored =>
      rw [Phone.env]
      unfold Phone.perform
      split
      · exact h
      next n value rest hwrites =>
        refine h.of_same hs rfl rfl rfl rfl rfl rfl rfl ?_ fun _ hf _ => hf
        -- a performed write leaves one value less in the sequence
        intro w hw
        rw [Phone.values, hwrites]
        exact List.mem_cons_of_mem _ hw
  | room => exact h.of_same hs rfl rfl rfl rfl rfl rfl rfl (fun _ hw => hw) fun _ hf _ => hf
  | file name present =>
      rw [Phone.env]
      unfold Phone.touch
      split
      · exact h
      next hname =>
        split
        · exact h.of_same hs rfl rfl rfl rfl rfl rfl rfl (fun _ hw => hw)
            fun _ hf _ => List.mem_cons_of_mem _ hf
        · refine h.of_same hs rfl rfl rfl rfl rfl rfl rfl (fun _ hw => hw) ?_
          -- a pending name is not the one other programs touch
          intro f hf hpending
          refine List.mem_filter.mpr ⟨hf, ?_⟩
          rw [decide_eq_true_iff]
          intro heq
          exact hname (filePath_inj heq ▸ hpending)

/-! ## Whole runs -/

/-- The assertion of a thread, while its process runs. -/
structure Thread.Holds (s : Phone) (th : Thread) : Prop where
  life : th.life ≤ s.life
  op : th.life = s.life → th.op.Holds s

/-- Two operations of the process that runs are in conflict. -/
def Thread.Conflicts (s : Phone) (th u : Thread) : Prop :=
  th.life = s.life ∧ u.life = s.life ∧ th.op.Conflicts u.op

/-- No section brings its operation into conflict with another one. A number is taken when the
operation begins, and it is a new one. -/
theorem Op.Section.not_conflicts {op op' u : Op} {s s' : Phone} (h : op.Section s s' op')
    (hu : u.Holds s) (hother : ¬op.Conflicts u) : ¬op'.Conflicts u := by
  rintro (⟨hpicks, hpicks'⟩ | ⟨n, hn, hn'⟩)
  · rcases h.picks hpicks with hold | hfree
    · exact hother (.inl ⟨hold, hpicks'⟩)
    · rw [hu.picks hpicks'] at hfree
      cases hfree
  · rcases h.number with hsame | hnone | hnew
    · exact hother (.inr ⟨n, hsame.symm.trans hn, hn'⟩)
    · rw [hnone] at hn
      cases hn
    · -- the number is larger than those that have been given
      obtain ⟨t, ht, rfl⟩ := Option.map_eq_some_iff.mp hn'
      have hle := (hu.transfer t ht).number
      have heq := Option.some.inj (hnew.symm.trans hn)
      omega

/-- An operation begins when `initialize` has gone through the directory. Calls that come earlier
wait for it. -/
theorem Op.init_of_step {op op' : Op} {k : Outcome} {s s' : Phone}
    (hbegun : op.isCalled = false → s.init = .searching) (hstep : op.step k s = some (s', op')) :
    s.init = .searching := by
  cases hcalled : op.isCalled with
  | false => exact hbegun hcalled
  -- the first section of each of the three calls asks whether `initialize` is over
  | true =>
      cases op with
      | pickFile recipients pc =>
          obtain ⟨x, hrun, -⟩ := Option.map_eq_some_iff.mp hstep
          cases pc with
          | called =>
              unfold PickPC.step at hrun
              split at hrun <;> first | contradiction | skip
              split at hrun
              next hinit => exact hinit
              next => cases hrun
          | _ => cases hcalled
      | resumeUpload r =>
          obtain ⟨x, hrun, -⟩ := Option.map_eq_some_iff.mp hstep
          cases r with
          | called =>
              rw [Resume.step] at hrun
              split at hrun
              next hinit => exact hinit
              next => cases hrun
          | _ => cases hcalled
      | cancelUpload pc =>
          obtain ⟨x, hrun, -⟩ := Option.map_eq_some_iff.mp hstep
          cases pc with
          | called =>
              unfold CancelPC.step at hrun
              split at hrun <;> first | contradiction | skip
              split at hrun
              next hinit => exact hinit
              next => cases hrun
          | _ => cases hcalled

/-- A section of a thread is one of its operation. A thread of an earlier process makes no steps,
and `initialize` has come to its end. -/
theorem Thread.section_step {t : Tid} {k : Outcome} {s s' : Phone} {th th' : Thread}
    {fs : List Thread} (hs : s.Sound) (hth : th.Holds s)
    (hstep : machine.step t k s th = some (s', th', fs)) :
    th.life = s.life ∧ th'.life = s.life ∧ s'.life = s.life ∧ fs = [] ∧ s.init = .searching ∧
      th.op.Section s s' th'.op := by
  rw [machine, Option.ite_none_right_eq_some] at hstep
  obtain ⟨hlife, hstep⟩ := hstep
  obtain ⟨⟨s₁, op'⟩, hrun, heq⟩ := Option.map_eq_some_iff.mp hstep
  cases heq
  have hop := hth.op hlife
  have hsection := Op.section_step hs hop hrun
  exact ⟨hlife, hlife, Moves.life hsection.moves, rfl, Op.init_of_step hop.begun hrun, hsection⟩

/-- **The invariant of the pending upload.** Two operations conflict when both pick a file or bear
the same number; of such operations one at most is under way. -/
theorem conflictInvariant_pending :
    machine.ConflictInvariant Arrives (fun _ => True) Phone.Sound Thread.Holds Thread.Conflicts where
  symm := by
    rintro s th u ⟨hth, hu, hboth | ⟨n, hn, hn'⟩⟩
    · exact ⟨hu, hth, .inl hboth.symm⟩
    · exact ⟨hu, hth, .inr ⟨n, hn', hn⟩⟩
  spawn := by
    rintro c ⟨life, op⟩ ⟨hlife, hcalled⟩
    refine ⟨⟨le_of_eq hlife, fun _ => Op.holds_of_isCalled hcalled _⟩, ?_⟩
    rintro u ⟨-, -, hconflict⟩
    -- a call that has just been made has set nothing and has no number
    have hidle : op.picks = false ∧ op.number? = none := by
      cases op with
      | pickFile recipients pc =>
          cases pc with
          | called => exact ⟨rfl, rfl⟩
          | _ => cases hcalled
      | resumeUpload r =>
          cases r with
          | called => exact ⟨rfl, rfl⟩
          | _ => cases hcalled
      | cancelUpload pc => exact ⟨rfl, rfl⟩
    rcases hconflict with ⟨hpicks, -⟩ | ⟨n, hn, -⟩
    · rw [hidle.1] at hpicks
      cases hpicks
    · rw [hidle.2] at hn
      cases hn
  own := by
    rintro t k s th s' th' fs hstep - hs hth
    obtain ⟨-, hlife', hlife, rfl, hinit, hsection⟩ := Thread.section_step hs hth hstep
    refine ⟨Moves.sound hsection.moves hs hinit, ⟨?_, fun _ => hsection.holds⟩, ?_⟩
    · rw [hlife', hlife]
    · exact fun f hf => absurd hf List.not_mem_nil
  other := by
    rintro t k s th s' th' fs hstep - hs hth u hu hfree
    obtain ⟨hth₁, hth₂, hlife, -, -, hsection⟩ := Thread.section_step hs hth hstep
    refine ⟨⟨hlife ▸ hu.life, fun hu' => ?_⟩, ?_⟩
    · have hu' : u.life = s.life := hu'.trans hlife
      exact (hu.op hu').moves hsection.moves fun hconflict => hfree ⟨hth₁, hu', hconflict⟩
    · rintro ⟨-, hu', hconflict⟩
      have hu' : u.life = s.life := hu'.trans hlife
      exact hsection.not_conflicts (hu.op hu') (fun h => hfree ⟨hth₁, hu', h⟩) hconflict
  pair := by
    rintro t k s th s' th' fs hstep - hs hth u v - - - - hfree hboth
    obtain ⟨-, -, hlife, -⟩ := Thread.section_step hs hth hstep
    rw [Thread.Conflicts, hlife] at hboth
    exact hfree hboth
  env := by
    intro e s hs
    have hlife : (machine.env e s).life = s.life ∨ (machine.env e s).life = s.life + 1 :=
      Phone.env_life e s
    refine ⟨hs.env e, fun u hu => ⟨?_, fun hu' => ?_⟩, fun u v hu hv hfree => ?_⟩
    · rcases hlife with hlife | hlife
      · rw [hlife]
        exact hu.life
      · rw [hlife]
        exact Nat.le_succ_of_le hu.life
    · have hle := hu.life
      have hsame : (machine.env e s).life = s.life := by omega
      exact (hu.op (hu'.trans hsame)).env hs hsame
    · rintro ⟨hu', hv', hconflict⟩
      have hle := hu.life
      have hsame : (machine.env e s).life = s.life := by omega
      exact hfree ⟨hu'.trans hsame, hv'.trans hsame, hconflict⟩

/-- The phone is **consistent**: a record that is stored names a file of the picker that is there; when
`initialize` has gone through the directory, every file of the picker is that of the record; and a
record that has gone had its message handed to an open socket, or the user cancelled it. -/
structure Phone.Consistent (s : Phone) : Prop where
  record : ∀ job, s.record = some job → ∃ f ∈ s.files, isPending f = true ∧
    job.path = filePath s.directory f
  swept : s.init = .listing [] → ∀ f ∈ s.files, isPending f = true → ∃ job, s.record = some job ∧
    job.path = filePath s.directory f
  cleared : ∀ job, some job ∈ s.storage → names job.path s.record = true ∨
    (∃ m, (job.path, m) ∈ s.sent) ∨ job.path ∈ s.cancelled

/-- What the invariant says of the record and the files. It holds at every moment, and so in
particular at the one of a crash. -/
theorem Phone.Sound.consistent {s : Phone} (h : s.Sound) : s.Consistent := by
  refine ⟨?_, ?_, h.cleared⟩
  · intro job hjob
    obtain ⟨⟨f, hf, hpath⟩, hfile⟩ := h.kept_record hjob
    obtain ⟨g, hg, hpath'⟩ := Phone.hasFile_iff.mp hfile
    have hfg : f = g := filePath_inj (hpath.trans hpath'.symm)
    exact ⟨g, hg, hfg ▸ h.made f hf, hpath'.symm⟩
  · intro hinit f hf hname
    have hnames := ((h.listing [] hinit).2.2 f hf hname).resolve_right List.not_mem_nil
    cases hrecord : s.record with
    | none =>
        rw [hrecord] at hnames
        cases hnames
    | some job =>
        rw [hrecord, names_some] at hnames
        exact ⟨job, rfl, hnames⟩

/-- An app that has just been installed has no record and no copies. It is where every run
begins. -/
theorem sound_installed (directory : DartString) : (Phone.installed directory).Sound := by
  refine .of_start ?_ ?_ ?_ ?_ (le_refl 0) rfl rfl ?_ (fun _ => ⟨rfl, rfl⟩) ?_
  · intro n hn
    cases hn
  · exact fun f hf => absurd hf List.not_mem_nil
  · exact fun job hjob => absurd hjob List.not_mem_nil
  · intro job hjob
    cases hjob
  · exact fun job hjob => absurd hjob List.not_mem_nil
  · intro todo htodo
    cases htodo

/-! ## Restart -/

namespace Phone

/-- `initialize` deletes the file. -/
def sweeps (s : Phone) (f : DartString) : Bool :=
  (isPending f || isDownload f) && s.pending.map (·.path) ≠ some (filePath s.directory f)

/-- `initialize` goes through all the names that are left. The induction is on the list of names. -/
theorem iterate_list {s : Phone} {todo : List DartString} (hinit : s.init = .listing todo) :
    (initializeStep^[todo.length] s).init = .listing [] ∧
      ∀ g, g ∈ (initializeStep^[todo.length] s).files ↔
        g ∈ s.files ∧ (g ∈ todo → s.sweeps g = false) := by
  induction todo generalizing s with
  | nil => exact ⟨hinit, fun g => ⟨fun hg => ⟨hg, fun h => absurd h List.not_mem_nil⟩, fun h => h.1⟩⟩
  | cons f todo ih =>
      rw [List.length_cons, Function.iterate_succ_apply]
      have hstep : s.initializeStep = if s.sweeps f then
          { s.delete (filePath s.directory f) with init := .listing todo }
          else { s with init := .listing todo } := by
        rw [initializeStep, hinit]
        rfl
      rw [hstep]
      split
      next hsweeps =>
        obtain ⟨hend, hfiles⟩ := ih (s := { s.delete (filePath s.directory f) with
          init := .listing todo }) rfl
        refine ⟨hend, fun g => (hfiles g).trans ?_⟩
        rw [List.mem_cons]
        constructor
        · rintro ⟨hg, hkept⟩
          obtain ⟨hg, hne⟩ := List.mem_filter.mp hg
          refine ⟨hg, fun hmem => hmem.elim (fun hgf => ?_) hkept⟩
          rw [hgf] at hne
          exact absurd rfl (of_decide_eq_true hne)
        · rintro ⟨hg, hkept⟩
          refine ⟨List.mem_filter.mpr ⟨hg, ?_⟩, fun hmem => hkept (.inr hmem)⟩
          rw [decide_eq_true_iff]
          intro heq
          -- the name that is deleted is swept
          obtain rfl := filePath_inj heq
          rw [hkept (.inl rfl)] at hsweeps
          cases hsweeps
      next hstays =>
        obtain ⟨hend, hfiles⟩ := ih (s := { s with init := .listing todo }) rfl
        refine ⟨hend, fun g => (hfiles g).trans ?_⟩
        rw [List.mem_cons]
        refine and_congr_right fun _ => ⟨fun hkept hmem => hmem.elim ?_ hkept, fun hkept hmem =>
          hkept (.inr hmem)⟩
        rintro rfl
        exact Bool.eq_false_iff.mpr hstays

/-- The process is killed, and `initialize` of the next one goes through the directory. -/
def restart (s : Phone) : Phone := initializeStep^[s.files.length + 1] (Phone.env .crash s)

/-- `initialize` has read the record. From here on the files are gone through one by one. -/
theorem read_fields (s : Phone) :
    (Phone.env .crash s).initializeStep.init = .listing s.files ∧
      (Phone.env .crash s).initializeStep.files = s.files ∧
      (Phone.env .crash s).initializeStep.directory = s.directory ∧
      (Phone.env .crash s).initializeStep.pending = s.record := by
  have hrecord : (Phone.env .crash s).record = s.record := rfl
  have hinit : (Phone.env .crash s).init = .read := rfl
  rw [initializeStep, hinit]
  dsimp only
  rw [hrecord]
  cases s.record with
  | none => exact ⟨rfl, rfl, rfl, rfl⟩
  | some job => exact ⟨rfl, rfl, rfl, rfl⟩

/-- What is left of the directory: a file of the picker or of a download stays if the record names
it, and any other file stays. -/
theorem restart_spec (s : Phone) :
    s.restart.init = .listing [] ∧ ∀ f, f ∈ s.restart.files ↔ f ∈ s.files ∧
      ((isPending f || isDownload f) = true → names (filePath s.directory f) s.record = true) := by
  obtain ⟨hinit, hfiles, hdirectory, hpending⟩ := s.read_fields
  obtain ⟨hend, hlist⟩ := iterate_list hinit
  rw [restart, Function.iterate_succ_apply]
  refine ⟨hend, fun f => (hlist f).trans ?_⟩
  rw [hfiles]
  refine and_congr_right fun hf => ?_
  rw [sweeps, hpending, hdirectory]
  have hnames : s.record.map (·.path) = some (filePath s.directory f) ↔
      names (filePath s.directory f) s.record = true := by
    rw [Option.map_eq_some_iff, names, Option.any_eq_true]
    simp only [decide_eq_true_iff]
  cases isPending f || isDownload f with
  | false => simp
  | true =>
      rw [← hnames]
      simp [hf]

end Phone

/-- **Crash consistency of the pending upload.** In whatever order the sections of `pickFile`,
`resumeUpload` and `cancelUpload` are performed, and whenever the process is killed, the phone is
consistent; and `initialize` of the next process gets through the directory, where it deletes what
the picker or a download has left, except the file of the record. -/
theorem crash_consistent {directory : DartString} {c : Config Phone Thread}
    (h : Reachable directory c) :
    c.shared.Consistent ∧ c.shared.restart.init = .listing [] ∧
      ∀ f, f ∈ c.shared.restart.files ↔ f ∈ c.shared.files ∧
        ((isPending f || isDownload f) = true →
          names (filePath c.shared.directory f) c.shared.record = true) := by
  have hall := conflictInvariant_pending.run ⟨fun _ _ => trivial, fun _ => trivial⟩ h trivial
    (sound_installed directory) (fun _ hth => absurd hth List.not_mem_nil)
    (fun _ _ _ _ _ hth => by simp at hth)
  exact ⟨hall.1.consistent, c.shared.restart_spec⟩

/-- `Arrives` for a given action. -/
def arrives (c : Config Phone Thread) : Act Thread Outcome Event → Bool
  | .spawn th => th.life = c.shared.life && th.op.isCalled
  | _ => true

/-- The first process is killed while it copies a file, the second one when a file is recorded. -/
def interrupted : List (Act Thread Outcome Event) :=
  [.env .initialized, .env .initialized, .env (.room true (some ['s']) (some 0) [0]),
    .spawn ⟨0, .pickFile [] .called⟩, .run 0 .done, .run 0 (.copying ['u']), .env .crash,
    .env .initialized, .env .initialized, .env .initialized,
    .env (.room true (some ['s']) (some 0) [0]), .spawn ⟨1, .pickFile [] .called⟩, .run 1 .done,
    .run 1 (.copying ['v']), .run 1 (.picked ['n'] 5 ['m']), .env .stored, .env .crash]

/-- The copy of the first process is gone, and the file that the second one has recorded is kept. -/
theorem crash_consistent_interrupted :
    ∃ c, machine.execAllIf arrives ⟨Phone.installed ['d'], []⟩ interrupted = some c ∧
      c.shared.files = [pendingName ['v']] ∧ c.shared.restart.files = c.shared.files ∧
      c.shared.Consistent := by
  have hrun : (machine.execAllIf arrives ⟨Phone.installed ['d'], []⟩ interrupted).any fun c =>
      c.shared.files = [pendingName ['v']] ∧ c.shared.restart.files = c.shared.files := by
    decide +kernel
  obtain ⟨c, hc, hfiles⟩ := (Option.any_eq_true _ _).mp hrun
  obtain ⟨hfiles, hrestart⟩ := of_decide_eq_true hfiles
  have hreachable : Reachable ['d'] c := by
    refine Machine.Run.of_execAllIf ?_ hc
    intro c a _ hok
    cases a with
    | spawn th =>
        obtain ⟨hlife, hcalled⟩ := (Bool.and_eq_true _ _).mp hok
        exact ⟨of_decide_eq_true hlife, hcalled⟩
    | run => trivial
    | env => trivial
  exact ⟨c, hc, hfiles, hrestart, (crash_consistent hreachable).1⟩

end LanRoom.Mobile.Pending
