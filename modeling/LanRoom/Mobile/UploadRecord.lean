import LanRoom.Concurrency.ThreadPool
import LanRoom.Mobile.PendingUpload

/-! # The record of the pending upload

What is stored, what is about to be stored and what `pendingUpload` holds make up a sequence, and an
upload that is in it stays in it to the end, unless its message is sent or the user cancels. A file is
deleted when nothing of that sequence names it any more. `Phone.Sound` says so, and `Move` is what one
step of an operation may do: it keeps `Phone.Sound` (`Sound.move`), and what the other operations know
(`Op.Holds.move`). -/

namespace LanRoom.Mobile.Pending

open ThreadPool (Tid)

/-! ## Paths -/

/-- Two files of one directory have different paths. The directory and the separator in front are
the same. -/
theorem filePath_inj {directory f g : DartString}
    (h : filePath directory f = filePath directory g) : f = g := by
  rw [filePath, filePath, List.append_cancel_left_eq] at h
  exact (List.cons.inj h).2

/-- The names the app makes for its copies are recognised as its own. The prefix and the suffix are
those that `initialize` looks for. -/
theorem isPending_pendingName (uuid : DartString) : isPending (pendingName uuid) = true := by
  unfold isPending pendingName
  exact List.isPrefixOf_iff_prefix.mpr (List.prefix_append _ _)

/-- A record names the file of its job and no other. It is a comparison of paths. -/
theorem names_some {path : DartString} {job : Job} : names path (some job) = true ↔ job.path = path := by
  rw [names, Option.any_some, decide_eq_true_iff]

/-- A value that does not name the path. This is how a file is seen to belong to another job. -/
theorem ne_of_not_names {path : DartString} {job : Job} {v : Option Job} (h : names path v = false)
    (hv : v = some job) : job.path ≠ path := by
  intro heq
  rw [hv, names_some.mpr heq] at h
  cases h

namespace Phone

/-- A path exists when it is the path of a file in the directory. The list of files holds names, and
the record holds paths. -/
theorem hasFile_iff {s : Phone} {path : DartString} :
    s.hasFile path = true ↔ ∃ f ∈ s.files, filePath s.directory f = path := by
  simp [hasFile]

/-- The other files stay. Deleting is by path, and paths are different for different names. -/
theorem hasFile_delete {s : Phone} {path path' : DartString} (h : s.hasFile path = true)
    (hne : path ≠ path') : (s.delete path').hasFile path = true := by
  obtain ⟨f, hf, hpath⟩ := hasFile_iff.mp h
  refine hasFile_iff.mpr ⟨f, List.mem_filter.mpr ⟨hf, ?_⟩, hpath⟩
  rw [decide_eq_true_iff, hpath]
  exact hne

/-! ## The sequence of values -/

/-- The record and the writes that are requested, each with its number. -/
def values (s : Phone) : List (ℕ × Option Job) := (s.stored, s.record) :: s.writes

/-- What a write that is requested now would store; `initialize` has not read the record at first. -/
def upcoming (s : Phone) : Option Job :=
  match s.init with
  | .read => s.record
  | _ => s.pending

/-- What is stored, what is about to be stored and what would be. -/
def sequence (s : Phone) : List (Option Job) := s.values.map (·.2) ++ [s.upcoming]

/-- The message has been sent, or the user has cancelled. -/
def IsOver (s : Phone) (path : DartString) : Prop :=
  (∃ m, (path, m) ∈ s.sent) ∨ path ∈ s.cancelled

/-- An upload stays unless it is over. -/
def Follows (s : Phone) (v w : Option Job) : Prop :=
  ∀ job, v = some job → names job.path w = true ∨ s.IsOver job.path

/-- The picker has made the file. -/
def IsStaged (s : Phone) (path : DartString) : Prop := ∃ f ∈ s.staged, filePath s.directory f = path

/-- The writes with this number and later ones do not name the path, and `pendingUpload` does not. -/
def Clears (s : Phone) (path : DartString) (ticket : ℕ) : Prop :=
  (∀ w ∈ s.values, ticket ≤ w.1 → names path w.2 = false) ∧ names path s.pending = false

/-- The **invariant** of the phone. -/
structure Sound (s : Phone) : Prop where
  place : ∀ n, s.pendingUpload = some n → n < s.jobs.length
  made : ∀ f ∈ s.staged, isPending f = true
  jobs : ∀ job ∈ s.jobs, s.IsStaged job.path
  kept : ∀ job, some job ∈ s.sequence → s.IsStaged job.path ∧ s.hasFile job.path = true
  numbered : ∀ w ∈ s.values, w.1 ≤ s.issued
  sorted : s.values.Pairwise fun v w => v.1 ≤ w.1
  ordered : s.sequence.Pairwise s.Follows
  cleared : ∀ job, some job ∈ s.storage → names job.path s.record = true ∨ s.IsOver job.path
  reading : s.init = .read → s.writes = [] ∧ s.pendingUpload = none ∧ s.jobs = []
  listing : ∀ todo, s.init = .listing todo → s.writes = [] ∧ s.pending = s.record ∧
    ∀ f ∈ s.files, isPending f = true → names (filePath s.directory f) s.record = true ∨ f ∈ todo

/-- Once the storage has been read, the next value to be written is that of the job at hand. Before
that the storage has not been read, and there is nothing to write. -/
theorem upcoming_eq {s : Phone} (hinit : s.init = .searching) : s.upcoming = s.pending := by
  rw [upcoming, hinit]

/-- The values that will have been on disk, from the present one to the one that is still in memory.
-/
theorem sequence_eq {s : Phone} (hinit : s.init = .searching) :
    s.sequence = s.values.map (·.2) ++ [s.pending] := by
  rw [sequence, upcoming_eq hinit]

/-- Without a pending upload there is no job at hand. It is what `_saveUpload` writes then. -/
theorem pending_eq_none {s : Phone} (h : s.pendingUpload = none) : s.pending = none := by
  rw [pending, current, h]
  rfl

/-- A value may be followed by itself. The record may be written twice without a change. -/
theorem follows_refl (s : Phone) (v : Option Job) : s.Follows v v := by
  rintro job rfl
  exact .inl (names_some.mpr rfl)

/-- What is over stays over. The relation becomes weaker as uploads come to their end. -/
theorem Follows.mono {s s' : Phone} {v w : Option Job} (h : s.Follows v w)
    (hover : ∀ path, s.IsOver path → s'.IsOver path) : s'.Follows v w :=
  fun job hv => (h job hv).imp_right (hover job.path)

/-- An upload that is nowhere pending is over. This is what the order of the values is good for:
nothing is cleared before its time. -/
theorem Follows.isOver {s : Phone} {v : Option Job} {job : Job} (h : s.Follows v none)
    (hv : v = some job) : s.IsOver job.path :=
  (h job hv).resolve_left Bool.false_ne_true

/-! ## Changes of the phone -/

/-- The fields that the invariant is about are as they were, `jobs` and `pendingUpload` apart. -/
structure SameStored (s s' : Phone) : Prop where
  storage : s'.storage = s.storage
  files : s'.files = s.files
  staged : s'.staged = s.staged
  directory : s'.directory = s.directory
  init : s'.init = s.init
  writes : s'.writes = s.writes
  issued : s'.issued = s.issued
  stored : s'.stored = s.stored

namespace SameStored

variable {s s' : Phone} (h : SameStored s s')
include h

/-- The record on disk is what it was. The change is one of memory or of files. -/
theorem record : s'.record = s.record := by
  rw [Phone.record, Phone.record, h.storage]

/-- The values to come are what they were. The writes under way are not touched. -/
theorem values : s'.values = s.values := by
  rw [Phone.values, Phone.values, h.stored, h.writes, h.record]

/-- The same files exist. So what the record names can still be found. -/
theorem hasFile (path : DartString) : s'.hasFile path = s.hasFile path := by
  rw [Phone.hasFile, Phone.hasFile, h.files, h.directory]

/-- The copies the app has made remain its copies. Their names stay reserved. -/
theorem isStaged {path : DartString} (hpath : s.IsStaged path) : s'.IsStaged path := by
  rw [IsStaged, h.staged, h.directory]
  exact hpath

end SameStored

/-- `pendingUpload` changes; the uploads in the sequence stay or are over. It is the general step
for whatever takes the place of the job at hand. -/
theorem Sound.repend {s s' : Phone} (h : s.Sound) (hinit : s.init = .searching)
    (hsame : SameStored s s') (hplace : ∀ n, s'.pendingUpload = some n → n < s'.jobs.length)
    (hjobs : ∀ job ∈ s'.jobs, s.IsStaged job.path)
    (hover : ∀ path, s.IsOver path → s'.IsOver path)
    (hkept : ∀ job, s'.pending = some job → s.IsStaged job.path ∧ s.hasFile job.path = true)
    (hfollows : ∀ v, s.Follows v s.pending → s'.Follows v s'.pending) : s'.Sound := by
  have hinit' : s'.init = .searching := hsame.init.trans hinit
  have hsequence := sequence_eq hinit
  -- once `initialize` is over, the sequence of the record ends with the pending upload
  have hordered := h.ordered
  rw [hsequence, List.pairwise_append] at hordered
  refine ⟨hplace, ?_, ?_, ?_, ?_, ?_, ?_, ?_, ?_, ?_⟩
  · rw [hsame.staged]
    exact h.made
  · exact fun job hjob => hsame.isStaged (hjobs job hjob)
  · intro job hjob
    rw [sequence_eq hinit', hsame.values] at hjob
    rw [hsame.hasFile]
    rcases List.mem_append.mp hjob with hold | hnew
    · have hold := h.kept job (by rw [hsequence]; exact List.mem_append_left _ hold)
      exact ⟨hsame.isStaged hold.1, hold.2⟩
    · -- the new pending upload has its file
      have hnew := hkept job (List.mem_singleton.mp hnew).symm
      exact ⟨hsame.isStaged hnew.1, hnew.2⟩
  · rw [hsame.values, hsame.issued]
    exact h.numbered
  · rw [hsame.values]
    exact h.sorted
  · rw [sequence_eq hinit', hsame.values, List.pairwise_append]
    refine ⟨hordered.1.imp fun hvw => hvw.mono hover, List.pairwise_singleton _ _, ?_⟩
    -- it follows each of the values still to be written, as the old one did
    intro v hv w hw
    obtain rfl := List.mem_singleton.mp hw
    exact hfollows v (hordered.2.2 v hv s.pending (List.mem_singleton.mpr rfl))
  · rw [hsame.storage, hsame.record]
    exact fun job hjob => (h.cleared job hjob).imp_right (hover job.path)
  · intro hread
    rw [hinit'] at hread
    cases hread
  · intro todo htodo
    rw [hinit'] at htodo
    cases htodo

/-- The file of the job at hand exists, and the app has made it. It is the last value in the
sequence, which the invariant speaks of as of every other. -/
theorem Sound.kept_pending {s : Phone} (h : s.Sound) (hinit : s.init = .searching) {job : Job}
    (hjob : s.pending = some job) : s.IsStaged job.path ∧ s.hasFile job.path = true := by
  apply h.kept job
  rw [sequence_eq hinit, hjob]
  exact List.mem_append_right _ (List.mem_singleton.mpr rfl)

/-- Which file a record names depends on the path alone. The id of the upload and the recipients do
not matter for it. -/
theorem names_congr {path : DartString} {v w : Option Job}
    (h : v.map (·.path) = w.map (·.path)) : names path v = names path w := by
  have hnames : ∀ u : Option Job, names path u = (u.map (·.path)).any fun p => p = path := by
    intro u
    cases u with
    | none => rfl
    | some job => rfl
  rw [hnames, hnames, h]

/-- The id of the upload changes nothing else. The same job stays pending, with the same path. -/
theorem pending_setUploadId (s : Phone) (n : ℕ) (id : JsonText.Json) :
    (s.setUploadId n id).pending.map (·.path) = s.pending.map (·.path) := by
  cases hm : s.pendingUpload with
  | none => rw [pending_eq_none hm, pending_eq_none (s := s.setUploadId n id) hm]
  | some m =>
      simp only [pending, current, setUploadId, hm, Option.bind_some, List.getElem?_modify]
      cases s.jobs[m]? with
      | none => rfl
      | some job =>
          by_cases hnm : n = m
          · simp [hnm]
          · simp [hnm]

/-- The maps keep their paths. Only the field `uploadId` of one of them is written. -/
theorem getElem?_setUploadId {s : Phone} {n m : ℕ} {id : JsonText.Json} {job : Job}
    (h : s.jobs[m]? = some job) :
    ∃ job', (s.setUploadId n id).jobs[m]? = some job' ∧ job'.path = job.path := by
  rw [setUploadId, List.getElem?_modify, h]
  by_cases hnm : n = m
  · exact ⟨_, congrArg some (if_pos hnm), rfl⟩
  · exact ⟨_, congrArg some (if_neg hnm), rfl⟩

/-- Giving a job its upload id does not change the files the jobs are about. The invariant speaks of
jobs through their files only. -/
theorem mem_setUploadId {s : Phone} {n : ℕ} {id : JsonText.Json} {job' : Job}
    (h : job' ∈ (s.setUploadId n id).jobs) : ∃ job ∈ s.jobs, job'.path = job.path := by
  obtain ⟨m, hm⟩ := List.mem_iff_getElem?.mp h
  rw [setUploadId, List.getElem?_modify] at hm
  obtain ⟨job, hjob, rfl⟩ := Option.map_eq_some_iff.mp hm
  refine ⟨job, List.mem_of_getElem? hjob, ?_⟩
  split
  · rfl
  · rfl

end Phone

/-! ## Who does what -/

/-- It has a number, and may still send its message. -/
def TransferPC.isActive : TransferPC → Bool
  | .opening | .getting | .creating | .created _ | .saving _ _ | .seeking _ | .reading _ _
  | .putting _ => true
  | .clearing _ | .closing | .deleting | .finishing | .returned | .threw => false

/-- The write after which nothing names the file: that of this number, or one that is performed. -/
def TransferPC.clears? : TransferPC → Option ℕ
  | .clearing ticket => some ticket
  | .closing | .deleting => some 0
  | _ => none

/-- The call of `resumeUpload` that has a number. -/
def Resume.transfer? : Resume → Option Transfer
  | .running t => some t
  | _ => none

namespace Op

/-- The call of `resumeUpload` that has a number. -/
def transfer? : Op → Option Transfer
  | .pickFile _ (.resuming r) | .resumeUpload r => r.transfer?
  | _ => none

/-- The number. -/
def number? (op : Op) : Option ℕ := op.transfer?.map (·.transfer)

/-- The write after which nothing names the file, and the place of the map. -/
def clears? : Op → Option (ℕ × ℕ)
  | .pickFile _ (.resuming (.running t)) | .resumeUpload (.running t) =>
      t.pc.clears?.map fun ticket => (ticket, t.job)
  | .cancelUpload (.saving ticket n) => some (ticket, n)
  | .cancelUpload (.requesting n) | .cancelUpload (.draining n) | .cancelUpload (.deleting n) =>
      some (0, n)
  | _ => none

/-- It is between setting and resetting `picking`. -/
def picks : Op → Bool
  | .pickFile _ .called | .pickFile _ .returned => false
  | .pickFile _ _ => true
  | _ => false

/-- It awaits the picker. -/
def chooses : Op → Bool
  | .pickFile _ (.choosing _ _) | .pickFile _ (.copying _ _ _) => true
  | _ => false

/-- The name of the file that is copied. -/
def copy? : Op → Option DartString
  | .pickFile _ (.copying _ _ name) => some name
  | _ => none

/-- Both have set `picking`, or they have the same number. -/
def Conflicts (op u : Op) : Prop :=
  op.picks = true ∧ u.picks = true ∨ ∃ n, op.number? = some n ∧ u.number? = some n

end Op

/-- What a numbered call knows: while its number is the last one, the upload is its own. -/
structure Transfer.Holds (s : Phone) (t : Transfer) : Prop where
  number : t.transfer ≤ s.transferGeneration
  place : t.job < s.jobs.length
  active : t.pc.isActive = true → t.transfer = s.transferGeneration → s.pendingUpload = some t.job

/-- The assertion of a thread. -/
structure Op.Holds (s : Phone) (op : Op) : Prop where
  begun : op.isCalled = false → s.init = .searching
  transfer : ∀ t, op.transfer? = some t → t.Holds s
  clears : ∀ ticket n, op.clears? = some (ticket, n) →
    ∃ job, s.jobs[n]? = some job ∧ s.Clears job.path ticket
  picks : op.picks = true → s.picking = true
  chooses : op.chooses = true → s.pendingUpload = none
  copies : ∀ name, op.copy? = some name → name ∈ s.staged ∧ name ∈ s.files ∧
    (∀ job ∈ s.jobs, job.path ≠ filePath s.directory name) ∧ s.Clears (filePath s.directory name) 0

/-! ## What an operation does -/

/-- One change of the phone by the operation `op`. -/
inductive Move (op : Op) (s : Phone) : Phone → Prop
  | quiet (uploading connected : Bool) : Move op s { s with uploading, connected }
  | picking (picking : Bool) (h : picking = true ∨ op.picks = true) : Move op s { s with picking }
  | number : Move op s { s with uploading := true, transferGeneration := s.transferGeneration + 1 }
  | setUploadId (n : ℕ) (id : JsonText.Json) : Move op s (s.setUploadId n id)
  | save : Move op s s.saveUpload
  | cancel (job : Job) (hjob : s.pending = some job) :
      Move op s { s with
        transferGeneration := s.transferGeneration + 1
        cancelled := job.path :: s.cancelled : Phone }.forget
  | deliver (job : Job) (m : FileMessage) (hjob : s.pending = some job)
      (hnumber : op.number? = some s.transferGeneration) :
      Move op s { s with sent := (job.path, m) :: s.sent : Phone }.forget
  | stage (name : DartString) (hnew : name ∉ s.staged) (hname : isPending name = true) :
      Move op s { s with files := name :: s.files, staged := name :: s.staged }
  | picked (job : Job) (hpicks : op.picks = true) (hfree : s.pendingUpload = none)
      (hnew : ∀ job' ∈ s.jobs, job'.path ≠ job.path)
      (hkept : s.IsStaged job.path ∧ s.hasFile job.path = true) :
      Move op s { s with jobs := s.jobs ++ [job], pendingUpload := some s.jobs.length }
  | delete (path : DartString) (hclears : s.Clears path 0)
      (hown : (∃ job ∈ s.jobs, job.path = path) ∨ op.picks = true) : Move op s (s.delete path)

/-- No change of an operation leads back into `initialize`. It is only a new process that starts
from its beginning. -/
theorem Move.init {op : Op} {s s' : Phone} (h : Move op s s') : s'.init = s.init := by
  cases h with
  | _ => rfl

namespace Phone

/-- A change that neither the sequence nor the history sees. Flags, numbers and what the user has
chosen are of this kind. -/
theorem Sound.quiet {s s' : Phone} (h : s.Sound) (hdisk : s'.toDisk = s.toDisk)
    (hdirectory : s'.directory = s.directory) (hinit : s'.init = s.init)
    (hwrites : s'.writes = s.writes) (hissued : s'.issued = s.issued)
    (hstored : s'.stored = s.stored) (hjobs : s'.jobs = s.jobs)
    (hpending : s'.pendingUpload = s.pendingUpload) : s'.Sound := by
  obtain ⟨disk, ⟨init, writes, issued, stored, jobs, pendingUpload, _, _, _, _, _, _, _⟩, directory,
    life⟩ := s'
  dsimp only at hdisk hdirectory hinit hwrites hissued hstored hjobs hpending
  subst hdisk hdirectory hinit hwrites hissued hstored hjobs hpending
  exact ⟨h.place, h.made, h.jobs, h.kept, h.numbered, h.sorted, h.ordered, h.cleared, h.reading,
    h.listing⟩

/-- The write that is requested now comes last. The sequence of values is extended at its end, and
what stood in it stays. -/
theorem Sound.saveUpload {s : Phone} (h : s.Sound) (hinit : s.init = .searching) :
    s.saveUpload.Sound := by
  have hvalues : s.saveUpload.values = s.values ++ [(s.issued + 1, s.pending)] := rfl
  have hsequence : s.saveUpload.sequence = s.sequence ++ [s.pending] := by
    rw [sequence_eq (s := s.saveUpload) hinit, sequence_eq hinit, hvalues, List.map_append]
    rfl
  refine ⟨h.place, h.made, h.jobs, ?_, ?_, ?_, ?_, h.cleared, ?_, ?_⟩
  · intro job hjob
    rw [hsequence] at hjob
    rcases List.mem_append.mp hjob with hold | hnew
    · exact h.kept job hold
    · exact h.kept_pending hinit (List.mem_singleton.mp hnew).symm
  · intro w hw
    rw [hvalues] at hw
    rcases List.mem_append.mp hw with hold | hnew
    · exact Nat.le_succ_of_le (h.numbered w hold)
    · obtain rfl := List.mem_singleton.mp hnew
      exact le_refl _
  · rw [hvalues, List.pairwise_append]
    refine ⟨h.sorted, List.pairwise_singleton _ _, ?_⟩
    intro v hv w hw
    obtain rfl := List.mem_singleton.mp hw
    exact Nat.le_succ_of_le (h.numbered v hv)
  · rw [hsequence, List.pairwise_append]
    refine ⟨h.ordered, List.pairwise_singleton _ _, ?_⟩
    intro v hv w hw
    obtain rfl := List.mem_singleton.mp hw
    -- every value is followed by what `pendingUpload` holds, which is written again
    have hordered := h.ordered
    rw [sequence_eq hinit] at hordered hv
    rcases List.mem_append.mp hv with hv | hv
    · exact (List.pairwise_append.mp hordered).2.2 v hv s.pending (List.mem_singleton.mpr rfl)
    · obtain rfl := List.mem_singleton.mp hv
      exact s.follows_refl s.pending
  · intro hread
    exact absurd (hinit.symm.trans hread) InitPC.noConfusion
  · intro todo htodo
    exact absurd (hinit.symm.trans htodo) InitPC.noConfusion

/-- A file goes that nothing in the sequence names. What `Clears` says is exactly that no value
names the path. -/
theorem Sound.delete {s : Phone} (h : s.Sound) (hinit : s.init = .searching) {path : DartString}
    (hclears : s.Clears path 0) : (s.delete path).Sound := by
  refine ⟨h.place, h.made, h.jobs, ?_, h.numbered, h.sorted, h.ordered, h.cleared, ?_, ?_⟩
  · intro job hjob
    obtain ⟨hstaged, hfile⟩ := h.kept job hjob
    refine ⟨hstaged, hasFile_delete hfile ?_⟩
    have hjob : some job ∈ s.sequence := hjob
    rw [sequence_eq hinit] at hjob
    rcases List.mem_append.mp hjob with hjob | hjob
    · obtain ⟨w, hw, hvalue⟩ := List.mem_map.mp hjob
      exact ne_of_not_names (hclears.1 w hw (Nat.zero_le _)) hvalue
    · exact ne_of_not_names hclears.2 (List.mem_singleton.mp hjob).symm
  · intro hread
    exact absurd (hinit.symm.trans hread) InitPC.noConfusion
  · intro todo htodo
    exact absurd (hinit.symm.trans htodo) InitPC.noConfusion

/-- `pendingUpload` becomes `null` when the upload is over. The record on disk may name it still,
until the next write has been performed. -/
theorem Sound.forget {s s' : Phone} (h : s.Sound) (hinit : s.init = .searching)
    (hsame : SameStored s s') (hjobs : s'.jobs = s.jobs) (hpending : s'.pendingUpload = none)
    (hover : ∀ path, s.IsOver path → s'.IsOver path)
    (hgone : ∀ job, s.pending = some job → s'.IsOver job.path) : s'.Sound := by
  have hnone := pending_eq_none hpending
  refine h.repend hinit hsame ?_ ?_ hover ?_ ?_
  · intro n hn
    rw [hpending] at hn
    cases hn
  · rw [hjobs]
    exact h.jobs
  · intro job hjob
    rw [hnone] at hjob
    cases hjob
  · intro v hv job hjob
    rcases hv job hjob with hnames | hold
    · -- the value named the upload that is over now
      cases hp : s.pending with
      | none =>
          rw [hp] at hnames
          cases hnames
      | some job' =>
          rw [hp, names_some] at hnames
          rw [← hnames]
          exact .inr (hgone job' hp)
    · exact .inr (hover job.path hold)

/-- A new upload, after one that is over. Its path is new, so the values before it do not name
it. -/
theorem Sound.picked {s : Phone} (h : s.Sound) (hinit : s.init = .searching) {job : Job}
    (hfree : s.pendingUpload = none) (hkept : s.IsStaged job.path ∧ s.hasFile job.path = true) :
    Sound { s with jobs := s.jobs ++ [job], pendingUpload := some s.jobs.length } := by
  have hnone := pending_eq_none hfree
  have hpending : Phone.pending
      { s with jobs := s.jobs ++ [job], pendingUpload := some s.jobs.length } = some job := by
    simp [pending, current]
  refine h.repend hinit ⟨rfl, rfl, rfl, rfl, rfl, rfl, rfl, rfl⟩ ?_ ?_ (fun _ hp => hp) ?_ ?_
  · intro n hn
    obtain rfl := Option.some.inj hn
    rw [List.length_append, List.length_singleton]
    exact Nat.lt_succ_self _
  · intro job' hjob'
    rcases List.mem_append.mp hjob' with hold | hnew
    · exact h.jobs job' hold
    · obtain rfl := List.mem_singleton.mp hnew
      exact hkept.1
  · intro job' hjob'
    rw [hpending] at hjob'
    obtain rfl := Option.some.inj hjob'
    exact hkept
  · -- nothing was pending before, so what is still to be written may be followed by a new upload
    intro v hv job' hjob'
    rw [hnone] at hv
    exact .inr (hv.isOver hjob')

/-- **One change preserves the invariant.** What is new is in the changes that make a file, name it
in the record, or take it out of the record. -/
theorem Sound.move {op : Op} {s s' : Phone} (h : s.Sound) (hinit : s.init = .searching)
    (hmove : Move op s s') : s'.Sound := by
  cases hmove with
  | quiet | picking | number => exact h.quiet rfl rfl rfl rfl rfl rfl rfl rfl
  | save => exact h.saveUpload hinit
  | delete path hclears => exact h.delete hinit hclears
  | picked job _ hfree _ hkept => exact h.picked hinit hfree hkept
  | cancel job hjob =>
      -- the job is cancelled, so its path may leave the record
      refine h.forget hinit ⟨rfl, rfl, rfl, rfl, rfl, rfl, rfl, rfl⟩ rfl rfl ?_ ?_
      · exact fun path hpath => hpath.imp_right fun hmem => List.mem_cons_of_mem _ hmem
      · intro job' hjob'
        obtain rfl := Option.some.inj (hjob.symm.trans hjob')
        exact .inr List.mem_cons_self
  | deliver job m hjob =>
      -- the message has been sent, so its path may leave the record
      refine h.forget hinit ⟨rfl, rfl, rfl, rfl, rfl, rfl, rfl, rfl⟩ rfl rfl ?_ ?_
      · exact fun path hpath => hpath.imp_left fun ⟨m', hm'⟩ => ⟨m', List.mem_cons_of_mem _ hm'⟩
      · intro job' hjob'
        obtain rfl := Option.some.inj (hjob.symm.trans hjob')
        exact .inl ⟨m, List.mem_cons_self⟩
  | setUploadId n id =>
      have hpaths := s.pending_setUploadId n id
      -- the record changes, but it names the same file as before
      refine h.repend hinit ⟨rfl, rfl, rfl, rfl, rfl, rfl, rfl, rfl⟩ ?_ ?_ (fun _ hp => hp) ?_ ?_
      · intro m hm
        rw [setUploadId, List.length_modify]
        exact h.place m hm
      · intro job' hjob'
        obtain ⟨job, hjob, hpath⟩ := mem_setUploadId hjob'
        rw [hpath]
        exact h.jobs job hjob
      · intro job' hjob'
        rw [hjob'] at hpaths
        obtain ⟨job, hjob, hpath⟩ := Option.map_eq_some_iff.mp hpaths.symm
        have hpath : job.path = job'.path := hpath
        rw [← hpath]
        exact h.kept_pending hinit hjob
      · intro v hv job hjob
        rw [names_congr hpaths]
        exact hv job hjob
  | stage name hnew hname =>
      -- a new file: everything that was named is still there
      refine ⟨h.place, ?_, ?_, ?_, h.numbered, h.sorted, h.ordered, h.cleared, ?_, ?_⟩
      · intro f hf
        rcases List.mem_cons.mp hf with rfl | hf
        · exact hname
        · exact h.made f hf
      · intro job hjob
        obtain ⟨f, hf, hpath⟩ := h.jobs job hjob
        exact ⟨f, List.mem_cons_of_mem _ hf, hpath⟩
      · intro job hjob
        obtain ⟨⟨f, hf, hpath⟩, hfile⟩ := h.kept job hjob
        obtain ⟨g, hg, hpath'⟩ := hasFile_iff.mp hfile
        exact ⟨⟨f, List.mem_cons_of_mem _ hf, hpath⟩,
          hasFile_iff.mpr ⟨g, List.mem_cons_of_mem _ hg, hpath'⟩⟩
      · intro hread
        exact absurd (hinit.symm.trans hread) InitPC.noConfusion
      · intro todo htodo
        exact absurd (hinit.symm.trans htodo) InitPC.noConfusion

/-! ## What the others see -/

/-- The values that count become fewer, and `pendingUpload` does not name the path. As writes are
performed the values before them do not count any more. -/
theorem Clears.of_subset {s s' : Phone} {path : DartString} {ticket : ℕ} (h : s.Clears path ticket)
    (hvalues : ∀ w ∈ s'.values, w ∈ s.values) (hpending : names path s'.pending = false) :
    s'.Clears path ticket :=
  ⟨fun w hw => h.1 w (hvalues w hw), hpending⟩

/-- A path that no value to come names is not named by saving the job at hand either. So the write
that is requested does not bring the name back. -/
theorem Clears.saveUpload {s : Phone} {path : DartString} {ticket : ℕ} (h : s.Clears path ticket) :
    s.saveUpload.Clears path ticket := by
  refine ⟨fun w hw hticket => ?_, h.2⟩
  have hw : w ∈ s.values ++ [(s.issued + 1, s.pending)] := hw
  rcases List.mem_append.mp hw with hold | hnew
  · exact h.1 w hold hticket
  · obtain rfl := List.mem_singleton.mp hnew
    exact h.2

/-- Nothing names the file once the write is performed. All values in front of the write have been
overwritten by then. -/
theorem Clears.of_stored {s : Phone} {path : DartString} {ticket : ℕ} (h : s.Clears path ticket)
    (hs : s.Sound) (hticket : ticket ≤ s.stored) : s.Clears path 0 := by
  refine ⟨fun w hw _ => h.1 w hw (le_trans hticket ?_), h.2⟩
  rcases List.mem_cons.mp hw with rfl | hw
  · exact le_refl _
  · exact (List.pairwise_cons.mp hs.sorted).1 w hw

/-- When `pendingUpload` has become `null`, the next write clears every file. The ticket is the
number of that write, for which whoever deletes the file has to wait. -/
theorem clears_of_free {s : Phone} (hs : s.Sound) (hfree : s.pendingUpload = none)
    (path : DartString) : s.saveUpload.Clears path (s.issued + 1) := by
  have hnone := pending_eq_none hfree
  refine ⟨fun w hw hticket => ?_, congrArg (names path) hnone⟩
  have hw : w ∈ s.values ++ [(s.issued + 1, s.pending)] := hw
  rcases List.mem_append.mp hw with hold | hnew
  · have := hs.numbered w hold
    omega
  · obtain rfl := List.mem_singleton.mp hnew
    exact congrArg (names path) hnone

/-- One change by another operation, which does not pick the same file. A file that has been picked
has a new name, so it is not this one. -/
theorem Clears.move {op : Op} {s s' : Phone} {path : DartString} {ticket : ℕ}
    (h : s.Clears path ticket) (hmove : Move op s s')
    (hother : (∃ job ∈ s.jobs, job.path = path) ∨ op.picks = false) : s'.Clears path ticket := by
  cases hmove with
  -- most moves neither write nor change what is pending
  | quiet | picking | number | stage | delete => exact h
  | save => exact h.saveUpload
  | cancel | deliver => exact h.of_subset (fun _ hw => hw) rfl
  | setUploadId n id =>
      refine h.of_subset (fun _ hw => hw) ?_
      rw [names_congr (s.pending_setUploadId n id)]
      exact h.2
  -- the new upload has a path of its own
  | picked job hpicks hfree hnew =>
      refine h.of_subset (fun _ hw => hw) ?_
      have hpending : Phone.pending
          { s with jobs := s.jobs ++ [job], pendingUpload := some s.jobs.length } = some job := by
        simp [pending, current]
      rw [hpending, Bool.eq_false_iff, ne_eq, names_some]
      rintro rfl
      rcases hother with ⟨job', hjob', hpath⟩ | hother
      · exact hnew job' hjob' hpath
      · rw [hpicks] at hother
        cases hother

end Phone

/-- The maps stay, with their paths. Threads refer to them by their position. -/
theorem Move.jobs {op : Op} {s s' : Phone} (hmove : Move op s s') {n : ℕ} {job : Job}
    (hjob : s.jobs[n]? = some job) : ∃ job', s'.jobs[n]? = some job' ∧ job'.path = job.path := by
  cases hmove with
  | setUploadId m id => exact Phone.getElem?_setUploadId hjob
  | picked job' => exact ⟨job, ThreadPool.getElem?_append hjob [job'], rfl⟩
  | _ => exact ⟨job, hjob, rfl⟩

/-- Numbers only grow; the last one is not that of an operation that is not in conflict. So a
transfer that is still the last one has its job pending. -/
theorem Transfer.Holds.move {op : Op} {s s' : Phone} {t : Transfer} (h : t.Holds s)
    (hmove : Move op s s') (hother : op.number? ≠ some t.transfer) : t.Holds s' := by
  have hplace : t.job < s'.jobs.length := by
    obtain ⟨job', hjob', -⟩ := hmove.jobs (List.getElem?_eq_getElem h.place)
    exact (List.getElem?_eq_some_iff.mp hjob').1
  cases hmove with
  | number | cancel =>
      -- a number that has been given is not the new one
      refine ⟨Nat.le_succ_of_le h.number, hplace, fun _ heq => ?_⟩
      have heq : t.transfer = s.transferGeneration + 1 := heq
      have := h.number
      omega
  | deliver job m hjob hnumber =>
      refine ⟨h.number, hplace, fun _ heq => ?_⟩
      have heq : t.transfer = s.transferGeneration := heq
      exact absurd (hnumber.trans (congrArg some heq.symm)) hother
  | picked job _ hfree =>
      refine ⟨h.number, hplace, fun hactive heq => ?_⟩
      have hpending := h.active hactive heq
      rw [hfree] at hpending
      cases hpending
  | _ => exact ⟨h.number, hplace, h.active⟩

/-- The directory of the app never changes. Paths stored by one process are good for the next. -/
theorem Move.directory {op : Op} {s s' : Phone} (h : Move op s s') : s'.directory = s.directory := by
  cases h with
  | _ => rfl

/-- No change of an operation ends the process. It is a crash that does. -/
theorem Move.life {op : Op} {s s' : Phone} (h : Move op s s') : s'.life = s.life := by
  cases h with
  | _ => rfl

/-- One change preserves the assertion of an operation that is not in conflict. Operations in
conflict are two that pick a file or that transfer under one number. -/
theorem Op.Holds.move {op u : Op} {s s' : Phone} (h : u.Holds s) (hmove : Move op s s')
    (hother : ¬op.Conflicts u) : u.Holds s' := by
  -- `picking` keeps a second choice of a file out
  have hpicks : u.picks = true → op.picks = false := by
    intro hu
    rw [Bool.eq_false_iff]
    exact fun hop => hother (.inl ⟨hop, hu⟩)
  have hchooses : u.chooses = true → u.picks = true := by
    intro hu
    cases u with
    | pickFile _ pc =>
        cases pc with
        | choosing | copying => rfl
        | _ => cases hu
    | _ => cases hu
  have hcopies : ∀ name, u.copy? = some name → u.picks = true := by
    intro name hu
    cases u with
    | pickFile _ pc =>
        cases pc with
        | copying => rfl
        | _ => cases hu
    | _ => cases hu
  refine ⟨?_, ?_, ?_, ?_, ?_, ?_⟩
  · intro hu
    exact hmove.init.trans (h.begun hu)
  · -- a transfer keeps what it knows unless another one of its number runs
    intro t ht
    refine (h.transfer t ht).move hmove fun hnumber => hother (.inr ⟨t.transfer, hnumber, ?_⟩)
    rw [Op.number?, ht]
    rfl
  · intro ticket n hclears
    obtain ⟨job, hjob, hpath⟩ := h.clears ticket n hclears
    obtain ⟨job', hjob', heq⟩ := hmove.jobs hjob
    refine ⟨job', hjob', ?_⟩
    rw [heq]
    exact hpath.move hmove (.inl ⟨job, List.mem_of_getElem? hjob, rfl⟩)
  · -- only `pickFile` resets `picking`
    intro hu
    cases hmove with
    | picking picking hpicking => exact hpicking.resolve_right (Bool.eq_false_iff.mp (hpicks hu))
    | _ => exact h.picks hu
  · intro hu
    have hfree := h.chooses hu
    cases hmove with
    | cancel | deliver => rfl
    | picked job hop =>
        rw [hpicks (hchooses hu)] at hop
        cases hop
    | _ => exact hfree
  · -- the copied file is nobody's yet: no other call picks it up or deletes it
    intro name hname
    obtain ⟨hstaged, hfile, hnew, hclears⟩ := h.copies name hname
    have hop := hpicks (hcopies name hname)
    have hclears' := hclears.move hmove (.inr hop)
    rw [hmove.directory]
    cases hmove with
    | setUploadId n id =>
        refine ⟨hstaged, hfile, fun job' hjob' => ?_, hclears'⟩
        obtain ⟨job, hjob, hpath⟩ := Phone.mem_setUploadId hjob'
        rw [hpath]
        exact hnew job hjob
    | picked job hpicks' =>
        rw [hop] at hpicks'
        cases hpicks'
    | stage =>
        exact ⟨List.mem_cons_of_mem _ hstaged, List.mem_cons_of_mem _ hfile, hnew, hclears'⟩
    | delete path _ hown =>
        refine ⟨hstaged, List.mem_filter.mpr ⟨hfile, ?_⟩, hnew, hclears'⟩
        obtain ⟨job, hjob, hpath⟩ := hown.resolve_right (Bool.eq_false_iff.mp hop)
        rw [decide_eq_true_iff, ← hpath]
        exact Ne.symm (hnew job hjob)
    | _ => exact ⟨hstaged, hfile, hnew, hclears'⟩

end LanRoom.Mobile.Pending
