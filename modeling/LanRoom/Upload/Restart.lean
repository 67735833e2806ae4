import LanRoom.Upload.Resume

/-! # Restarting the server

The indexes of the upload server are in memory: what a process that ends leaves in `UploadDir` can
never be asked for again, so `New` clears it with `removeOrphanUploads`. The directory may hold
files of the user as well. `Lives` is any number of lives of the server on one directory, each
ended at an arbitrary point, and `restart_clears` says that a start removes everything that any of
them has left, while no file of another name is touched by any of them. -/

namespace LanRoom.Upload

open ThreadPool (Tid)
open Relation (ReflTransGen)
open Function (update)

/-! ## `removeOrphanUploads` -/

/-- An entry of a directory. -/
inductive Entry
  | regular (content : Bytes)
  /-- A directory, a link or another special file. -/
  | other
  deriving DecidableEq

/-- `e.Type().IsRegular()`. -/
def Entry.isRegular : Entry → Bool
  | regular _ => true
  | other => false

/-- The entries of a directory, by their names. -/
abbrev Directory := GoString → Option Entry

/-- `partSuffix`. -/
def partSuffix : GoString := [0x2E, 0x70, 0x61, 0x72, 0x74]

/-- `strings.TrimSuffix`. -/
def trimSuffix (suffix s : GoString) : GoString :=
  if suffix.isSuffixOf s then s.take (s.length - suffix.length) else s

/-- A name that the program gives to its files. -/
def isUploadName (name : GoString) : Bool := isHexFileID (trimSuffix partSuffix name)

/-- The body of the loop of `removeOrphanUploads`; `fails` tells for which names `os.Remove`
fails. -/
def removeOrphan (fails : GoString → Bool) (dir : Directory) (e : GoString × Entry) : Directory :=
  if !e.2.isRegular || !isUploadName e.1 then dir
  else if fails e.1 then dir
  else update dir e.1 none

/-- `removeOrphanUploads`, with what `os.ReadDir` returns; `none` is an error. -/
def removeOrphanUploads (fails : GoString → Bool) (dir : Directory) :
    Option (List (GoString × Entry)) → Directory
  | none => dir
  | some entries => entries.foldl (removeOrphan fails) dir

/-- `os.ReadDir` lists the directory. -/
def Lists (dir : Directory) (entries : List (GoString × Entry)) : Prop :=
  ∀ name e, (name, e) ∈ entries ↔ dir name = some e

variable {fails : GoString → Bool} {dir dir₀ dir' : Directory}
  {entries : List (GoString × Entry)} {name : GoString}

/-- The loop removes the entry. -/
def removes (fails : GoString → Bool) (e : GoString × Entry) : Bool :=
  e.2.isRegular && isUploadName e.1 && !fails e.1

/-- One entry: its own name at most is removed. The other names of the directory are looked at in
their own turn. -/
theorem removeOrphan_apply (fails : GoString → Bool) (dir : Directory) (e : GoString × Entry)
    (name : GoString) :
    removeOrphan fails dir e name =
      if (removes fails e && e.1 == name) = true then none else dir name := by
  have hcases : removeOrphan fails dir e =
      if removes fails e = true then update dir e.1 none else dir := by
    unfold removeOrphan removes
    cases e.2.isRegular <;> cases isUploadName e.1 <;> cases fails e.1 <;> rfl
  rw [hcases]
  by_cases hremoves : removes fails e = true
  · rw [if_pos hremoves, hremoves, Bool.true_and]
    by_cases hname : e.1 = name
    · rw [if_pos (beq_iff_eq.mpr hname), hname]
      exact Function.update_self ..
    · rw [if_neg fun h => hname (beq_iff_eq.mp h)]
      exact Function.update_of_ne (Ne.symm hname) ..
  · rw [if_neg hremoves, if_neg fun h => hremoves (Bool.and_eq_true_iff.mp h).1]

/-- The loop removes the entries of the program it comes to, and leaves the others alone. -/
theorem foldl_removeOrphan (fails : GoString → Bool) (dir : Directory)
    (entries : List (GoString × Entry)) (name : GoString) :
    entries.foldl (removeOrphan fails) dir name =
      if (entries.any fun e => removes fails e && e.1 == name) = true then none else dir name := by
  induction entries generalizing dir with
  | nil => rfl
  | cons e entries ih =>
      rw [List.foldl_cons, ih, removeOrphan_apply, List.any_cons]
      cases removes fails e && e.1 == name with
      | true =>
          rw [Bool.true_or, if_pos rfl]
          exact ite_self none
      | false => rw [Bool.false_or, if_neg Bool.false_ne_true]

/-- Names that are not the program's are left alone. The induction is on the listing. -/
theorem removeOrphanUploads_other (fails : GoString → Bool) (dir : Directory)
    (listing : Option (List (GoString × Entry))) (h : isUploadName name = false) :
    removeOrphanUploads fails dir listing name = dir name := by
  cases listing with
  | none => rfl
  | some entries =>
      rw [removeOrphanUploads, foldl_removeOrphan, if_neg]
      intro hany
      obtain ⟨e, -, he⟩ := List.any_eq_true.mp hany
      obtain ⟨hremoves, hname⟩ := Bool.and_eq_true_iff.mp he
      obtain rfl := beq_iff_eq.mp hname
      rw [removes, h, Bool.and_false, Bool.false_and] at hremoves
      cases hremoves

/-- A file under a name of the program is removed, unless `os.Remove` fails. -/
theorem removeOrphanUploads_own (hlists : Lists dir entries) (h : isUploadName name = true)
    (hfails : fails name = false) (b : Bytes) :
    removeOrphanUploads fails dir (some entries) name ≠ some (.regular b) := by
  intro heq
  rw [removeOrphanUploads, foldl_removeOrphan] at heq
  by_cases hany : (entries.any fun e => removes fails e && e.1 == name) = true
  · rw [if_pos hany] at heq
    cases heq
  · rw [if_neg hany] at heq
    apply hany
    refine List.any_eq_true.mpr ⟨(name, .regular b), (hlists name _).mpr heq, ?_⟩
    simp [removes, Entry.isRegular, h, hfails]

/-! ## The directory of a running server -/

/-- The name of a file in `UploadDir`. -/
def Path.fileName : Path → GoString
  | .final id => id
  | .part id => id ++ partSuffix

/-- The file of the program that has the name. -/
def pathOf (name : GoString) : Path :=
  if partSuffix.isSuffixOf name then .part (trimSuffix partSuffix name) else .final name

/-- The directory with the files that the server has made in it. -/
def Directory.withFiles (dir : Directory) (disk : Path → Option Bytes) : Directory := fun name =>
  match disk (pathOf name) with
  | some b => some (.regular b)
  | none => dir name

/-- A directory entry belongs to the identifier that is left of its name without `.part`. -/
theorem pathOf_id (name : GoString) : (pathOf name).id = trimSuffix partSuffix name := by
  unfold pathOf trimSuffix
  split
  · rfl
  · rfl

/-- Identifiers do not end in `.part`. An identifier is hexadecimal digits only, so no name is read
in two ways. -/
theorem trimSuffix_of_hex {id : FileID} (h : isHexFileID id = true) :
    partSuffix.isSuffixOf id = false := by
  rw [← Bool.not_eq_true]
  intro hsuffix
  obtain ⟨front, rfl⟩ := List.isSuffixOf_iff_suffix.mp hsuffix
  have hdot : (0x2E : UInt8) ∈ front ++ partSuffix :=
    List.mem_append_right front List.mem_cons_self
  rw [isHexFileID, Bool.and_eq_true, List.all_eq_true] at h
  exact absurd (h.2 _ hdot) (by decide)

/-- The files of the program have the names it gives them, and no two have the same. -/
theorem pathOf_name {p : Path} (h : isHexFileID p.id = true) : pathOf p.fileName = p := by
  cases p with
  | final id =>
      have hno : partSuffix.isSuffixOf id = false := trimSuffix_of_hex h
      show (if partSuffix.isSuffixOf id = true then .part (trimSuffix partSuffix id)
        else .final id) = Path.final id
      rw [hno, if_neg Bool.false_ne_true]
  | part id =>
      have hsuffix : partSuffix.isSuffixOf (id ++ partSuffix) = true :=
        List.isSuffixOf_iff_suffix.mpr (List.suffix_append id partSuffix)
      have htrim : trimSuffix partSuffix (id ++ partSuffix) = id := by
        rw [trimSuffix, if_pos hsuffix, List.length_append, Nat.add_sub_cancel, List.take_left]
      show (if partSuffix.isSuffixOf (id ++ partSuffix) = true then
        .part (trimSuffix partSuffix (id ++ partSuffix)) else .final (id ++ partSuffix)) =
          Path.part id
      rw [if_pos hsuffix, htrim]

/-! ## What a running server has made -/

variable {cfg : Config} {P : Request → Prop} {t : Tid} {id : FileID} {s s' : Server}
  {c d : ThreadPool.Config Server Thread}

/-- Removing a file issues nothing. The set of identifiers in use is kept for the whole life of the
process. -/
theorem Server.issued_remove (s : Server) (fails : Bool) (p : Path) :
    (s.remove fails p).issued = s.issued := by
  cases fails <;> rfl

/-- Only `randomID` issues identifiers. Whoever comes with another identifier finds nothing under
it. -/
theorem issued_of_step {th th' : Thread} (h : th.step cfg t s = some (s', th'))
    (hid : s'.issued id = true) : s.issued id = true ∨ isHexFileID id = true := by
  have hdraw : ∀ rand, (s.issue (randomID rand)).issued id = true →
      s.issued id = true ∨ isHexFileID id = true := by
    intro rand hissued
    by_cases heq : id = randomID rand
    · rw [heq]
      exact Or.inr (isHexFileID_randomID rand)
    · apply Or.inl
      simpa [Server.issue, heq] using hissued
  cases th with
  | upload r pc =>
      obtain ⟨⟨s₁, pc'⟩, hsection, heq⟩ := Option.map_eq_some_iff.mp h
      cases heq
      cases UploadSection.of_step hsection with
      | refused | noID | createFails | created | refusedCopy | copied | registered => exact Or.inl hid
      | issued => exact hdraw _ hid
      | discarded =>
          rw [Server.issued_remove] at hid
          exact Or.inl hid
  | create r pc =>
      obtain ⟨⟨s₁, pc'⟩, hsection, heq⟩ := Option.map_eq_some_iff.mp h
      cases heq
      cases CreateSection.of_step hsection with
      | refused | noID | createFails | createdEmpty | created | renameFails | renamed | unregistered
      | registered | stored => exact Or.inl hid
      | issued => exact hdraw _ hid
  | session r pc =>
      obtain ⟨⟨s₁, pc'⟩, hsection, heq⟩ := Option.map_eq_some_iff.mp h
      cases heq
      cases SessionSection.of_step hsection with
      | notHex | missing | loaded | wrongMethod | finished | notFound | locked | lockedDelete
      | statFails | offset | conflict | continued | openFails | opened | tooLong | interrupted
      | full | stored | truncated | renameFails | renamed | unregistered | registered | dropped
      | unlocked => exact Or.inl hid
      | removed =>
          rw [Server.issued_remove] at hid
          exact Or.inl hid
  | purge r cutoff pc =>
      obtain ⟨⟨s₁, cutoff', pc'⟩, hsection, heq⟩ := Option.map_eq_some_iff.mp h
      cases heq
      cases (PurgeSection.of_step hsection).1 with
      | began | filesDone | expired | fresh | recordDeleted | done | loaded | missing | locked
      | stale | recent | dropped | unlocked => exact Or.inl hid
      | recordRemoved | removed =>
          rw [Server.issued_remove] at hid
          exact Or.inl hid

/-- Every identifier that is in use comes from `randomID`. So every file the server has made bears a
name that the next start recognises. -/
theorem Reachable.issued_isHex (h : Reachable cfg P c) (hid : c.shared.issued id = true) :
    isHexFileID id = true := by
  obtain ⟨now, hrun⟩ := h
  induction hrun with
  | refl => cases hid
  | @tail d e act hrun hok hexec ih =>
      cases act with
      | spawn th =>
          obtain rfl := Option.some.inj hexec
          exact ih hid
      | env _ =>
          obtain rfl := Option.some.inj hexec
          exact ih hid
      | run u k =>
          obtain ⟨th, th', hth, hstep, -⟩ := run_of_exec hexec
          rcases issued_of_step hstep hid with hold | hhex
          · exact ih hold
          · exact hhex

/-- **Every file the server makes has a name of the program**, at any point of any run. Files are
created under issued identifiers only, and these are what `randomID` returns. -/
theorem Reachable.disk_isHex (h : Reachable cfg P c) {p : Path} {b : Bytes}
    (hp : c.shared.disk p = some b) : isHexFileID p.id = true := by
  obtain ⟨l, hv, -⟩ := h.valid p.id
  apply h.issued_isHex
  have hissued : l = .unused ∨ (c.shared.view p.id).issued = true := by
    have hholds := hv.inv.holds
    cases l with
    | unused => exact Or.inl rfl
    | building | live | dropped | sealed | registered | expiring | reclaimed | gone | orphan =>
        exact Or.inr hholds.1
  rcases hissued with rfl | hissued
  · -- nothing is on disk for an identifier that was never issued
    have hempty : c.shared.view p.id = View.empty := hv.inv.holds
    cases p with
    | final id => cases hp.symm.trans (congrArg View.final hempty)
    | part id => cases hp.symm.trans (congrArg View.part hempty)
  · exact hissued

/-! ## Lives of the server -/

/-- One life of the server: `New` clears the directory, requests are handled in any interleaving,
and the process ends at an arbitrary point. -/
def Lived (cfg : Config) (P : Request → Prop) (dir dir' : Directory) : Prop :=
  ∃ fails listing c, (∀ entries, listing = some entries → Lists dir entries) ∧
    Reachable cfg P c ∧ dir' = (removeOrphanUploads fails dir listing).withFiles c.shared.disk

/-- Any number of lives. -/
abbrev Lives (cfg : Config) (P : Request → Prop) : Directory → Directory → Prop :=
  ReflTransGen (Lived cfg P)

/-- A life leaves files of other names alone. Only files of issued identifiers are created, renamed
or removed. -/
theorem Lived.other (h : Lived cfg P dir dir') (hname : isUploadName name = false) :
    dir' name = dir name := by
  obtain ⟨fails, listing, c, -, hreach, rfl⟩ := h
  have hnone : c.shared.disk (pathOf name) = none := by
    cases hdisk : c.shared.disk (pathOf name) with
    | none => rfl
    | some b =>
        have hhex := hreach.disk_isHex hdisk
        rw [pathOf_id] at hhex
        cases hname.symm.trans hhex
  unfold Directory.withFiles
  rw [hnone]
  exact removeOrphanUploads_other fails dir listing hname

/-- What a life has on disk is what a later start finds under the names of the program. -/
theorem Reachable.withFiles_name (h : Reachable cfg P c) {p : Path} {b : Bytes}
    (hp : c.shared.disk p = some b) (dir : Directory) :
    dir.withFiles c.shared.disk p.fileName = some (.regular b) ∧ isUploadName p.fileName = true := by
  have hhex := h.disk_isHex hp
  have hpath := pathOf_name hhex
  constructor
  · unfold Directory.withFiles
    rw [hpath, hp]
  · rw [isUploadName, ← pathOf_id, hpath]
    exact hhex

/-- **A restart clears the directory and nothing else.** After any number of lives of the server on
one directory, each with any interleaving of requests, with any failures of `os.Remove` and ended at
any point, a start leaves no file under a name of the program that can be removed, and every entry of
another name is as it was before the first of these lives. Whatever a running server has stored is
found under a name of the program. -/
theorem restart_clears (hlives : Lives cfg P dir₀ dir) (hlists : Lists dir entries) :
    (∀ name, isUploadName name = true → fails name = false →
      ∀ b, removeOrphanUploads fails dir (some entries) name ≠ some (.regular b)) ∧
    (∀ name, isUploadName name = false →
      removeOrphanUploads fails dir (some entries) name = dir₀ name) ∧
    ∀ c p b, Reachable cfg P c → c.shared.disk p = some b →
      dir.withFiles c.shared.disk p.fileName = some (.regular b) ∧
        isUploadName p.fileName = true := by
  refine ⟨fun name hname hfails b => removeOrphanUploads_own hlists hname hfails b, ?_,
    fun c p b hreach hp => hreach.withFiles_name hp dir⟩
  intro name hname
  rw [removeOrphanUploads_other fails dir (some entries) hname]
  clear hlists
  induction hlives with
  | refl => rfl
  | tail _ hlived ih => exact (hlived.other hname).trans ih

/-- A file of the user. -/
def Sample.note : GoString := [0x61]

/-- A directory with a file of the user and a file of an upload. -/
def Sample.leftovers : Directory :=
  update (update (fun _ => none) note (some (.regular [1]))) fileID (some (.regular [2]))

/-- The directory that is listed in the run. Besides a finished file there is a note that somebody
else has put there. -/
theorem Sample.lists_leftovers :
    Lists leftovers [(note, .regular [1]), (fileID, .regular [2])] := by
  have hne : note ≠ fileID := by decide
  intro name e
  unfold leftovers
  by_cases hid : name = fileID
  · subst hid
    simp [Ne.symm hne, eq_comm]
  · rw [Function.update_of_ne hid]
    by_cases hnote : name = note
    · subst hnote
      simp [hne, eq_comm]
    · rw [Function.update_of_ne hnote]
      simp [hid, hnote]

/-- A file that was left behind is removed, and a note of the user stays. -/
theorem restart_clears_leftovers :
    removeOrphanUploads (fun _ => false) Sample.leftovers
        (some [(Sample.note, .regular [1]), (Sample.fileID, .regular [2])]) Sample.fileID ≠
      some (.regular [2]) ∧
    removeOrphanUploads (fun _ => false) Sample.leftovers
        (some [(Sample.note, .regular [1]), (Sample.fileID, .regular [2])]) Sample.note =
      some (.regular [1]) := by
  -- the server was started on this directory, which it could not read, and stopped at once
  have hlived : Lived Sample.config (fun _ => True) Sample.leftovers Sample.leftovers :=
    ⟨fun _ => false, none, boot 0, nofun, ⟨0, .refl⟩, rfl⟩
  obtain ⟨hown, hother, -⟩ :=
    @restart_clears (fun _ => false) _ _ _ _ _ (.single hlived) Sample.lists_leftovers
  refine ⟨hown _ (by decide) rfl _, (hother _ (by decide)).trans ?_⟩
  decide

end LanRoom.Upload
