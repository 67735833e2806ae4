import LanRoom.Data.HeaderField
import LanRoom.Go.Url
import LanRoom.Go.Utf8
import LanRoom.Upload.Retention

/-! # Downloading a finished file

`handleDownload` of `server.go`: it looks the record up and hands its path to `http.ServeFile`,
with nothing locked in between. The two results say what a download delivers: in every interleaving
with uploads and purges either an error or exactly the bytes that were uploaded
(`download_integrity`), under a name that can be read back from the header whatever it is
(`disposition_reads_back`). Range and conditional requests, which `http.ServeFile` answers from the
same bytes, are not modelled. -/

namespace LanRoom.Upload

open ThreadPool (Tid Outline)
open HeaderField (Value readField renderField quoteString isToken IsToken)

/-! ## The handler -/

/-- Why opening the file fails, other than that it does not exist. -/
inductive OpenError
  | permission
  | other
  deriving DecidableEq

/-- A request for `/api/files/`. -/
structure DownloadRequest where
  method : Method
  /-- `r.URL.Path`. -/
  path : GoString
  /-- What goes wrong when `http.ServeFile` opens the file. -/
  fails : Option OpenError := none

/-- A file in an answer, with the headers set for it. -/
structure FileReply where
  contentType : GoString
  contentTypeOptions : GoString
  contentDisposition : GoString
  body : Bytes
  deriving DecidableEq

/-- The prefix of the route. -/
def filesPath : GoString := goString "/api/files/"

/-- `strings.TrimPrefix`. -/
def trimPrefix (pre s : GoString) : GoString := if pre.isPrefixOf s then s.drop pre.length else s

/-- A character of `asciiName`. -/
def asciiChar (c : Char) : UInt8 :=
  if 0x20 ≤ c.toNat ∧ c.toNat ≤ 0x7E ∧ c ≠ '"' ∧ c ≠ '\\' then UInt8.ofNat c.toNat else 0x5F

/-- `asciiName`. -/
def asciiName (name : GoString) : GoString :=
  let mapped := (Go.runes name).map asciiChar
  if mapped = [] then goString "download" else mapped

/-- The `Content-Disposition` of a file. -/
def contentDisposition (name : GoString) : GoString :=
  goString "attachment; filename=" ++ HeaderField.quote :: asciiName name ++
    HeaderField.quote :: goString "; filename*=UTF-8''" ++ Go.pathEscape name

/-- `handleDownload`, up to the record. -/
def findRecord (s : Server) (r : DownloadRequest) : Except Answer FileRecord :=
  if r.method ≠ .get then .error methodNotAllowed
  else
    let id := trimPrefix filesPath r.path
    if id = [] ∨ Go.slash ∈ id ∨ isHexFileID id = false then .error pageNotFound
    else match s.files id with
      | none => .error pageNotFound
      | some rec => .ok rec

/-- The answer with the file of `rec`. -/
def fileReply (rec : FileRecord) (body : Bytes) : FileReply where
  contentType := rec.mime
  contentTypeOptions := goString "nosniff"
  contentDisposition := contentDisposition rec.name
  body := body

/-- `http.ServeFile`. A file that has been opened can be read to its end. -/
def serveFile (s : Server) (r : DownloadRequest) (rec : FileRecord) : Except Answer FileReply :=
  match r.fails with
  | some .permission => .error (.error 403 "403 Forbidden")
  | some .other => .error (.error 500 "500 Internal Server Error")
  | none =>
      match s.disk rec.path with
      | none => .error pageNotFound
      | some body => .ok (fileReply rec body)

/-- `handleDownload`, when nothing happens between its two halves. -/
def handleDownload (s : Server) (r : DownloadRequest) : Except Answer FileReply :=
  (findRecord s r).bind (serveFile s r)

/-! ## The name in the header -/

variable {name : GoString} {b : UInt8}

/-- `attachment`. -/
def attachment : GoString := goString "attachment"

/-- The parameters of the header: the name in ASCII, and the name itself. -/
def dispositionParams (name : GoString) : List (GoString × Value) :=
  [(goString "filename", .quoted (asciiName name)),
    (goString "filename*", .bare (goString "UTF-8''" ++ Go.pathEscape name))]

/-- `'`. -/
def apostrophe : UInt8 := 0x27

/-- An extended value: its character set, its language and its text. -/
def readExtended (v : GoString) : Option (GoString × GoString × GoString) :=
  let rest := (v.dropWhile (· ≠ apostrophe)).drop 1
  (Go.percentDecode ((rest.dropWhile (· ≠ apostrophe)).drop 1)).map fun text =>
    (v.takeWhile (· ≠ apostrophe), rest.takeWhile (· ≠ apostrophe), text)

/-- The bytes browsers take in a value without quotes. -/
def isBare (b : UInt8) : Bool :=
  0x21 ≤ b && b ≤ 0x7E && b != HeaderField.quote && b != HeaderField.semicolon

/-- The texts of the header, taken apart. They are compared byte by byte once, by evaluation. -/
theorem literals :
    goString "attachment; filename=" = attachment ++
      ([HeaderField.semicolon, HeaderField.space] ++
        (goString "filename" ++ [HeaderField.equals])) ∧
    goString "; filename*=UTF-8''" = [HeaderField.semicolon, HeaderField.space] ++
      (goString "filename*" ++ ([HeaderField.equals] ++ goString "UTF-8''")) ∧
    goString "UTF-8''" = goString "UTF-8" ++ [apostrophe, apostrophe] ∧
    goString "filename*" ≠ goString "filename" ∧ attachment ≠ [] ∧ goString "filename" ≠ [] ∧
    goString "filename*" ≠ [] := by
  decide +kernel

/-- What the texts of the header are made of. These are the facts about characters that the proofs
on the header need. -/
theorem literals_bytes :
    (∀ b ∈ goString "UTF-8", decide (b ≠ apostrophe) = true) ∧
    (∀ b ∈ goString "UTF-8''", isBare b = true ∧ isToken b = true) ∧
    (∀ b ∈ goString "download",
      0x20 ≤ b ∧ b ≤ 0x7E ∧ b ≠ HeaderField.quote ∧ b ≠ HeaderField.backslash) ∧
    (∀ b ∈ attachment, isToken b = true) ∧ (∀ b ∈ goString "filename", isToken b = true) ∧
    (∀ b ∈ goString "filename*", isToken b = true) ∧
    (∀ b ∈ goString "attachment; filename=", 0x20 ≤ b ∧ b ≤ 0x7E) ∧
    (∀ b ∈ goString "; filename*=UTF-8''", 0x20 ≤ b ∧ b ≤ 0x7E) := by
  decide +kernel

/-- The fallback of a character is a printable one that needs no escape in a quoted string. -/
theorem asciiChar_spec (c : Char) :
    0x20 ≤ asciiChar c ∧ asciiChar c ≤ 0x7E ∧ asciiChar c ≠ HeaderField.quote ∧
      asciiChar c ≠ HeaderField.backslash := by
  rw [asciiChar]
  -- a printable character other than the quote and the backslash is kept, the others become `_`
  by_cases h : 0x20 ≤ c.toNat ∧ c.toNat ≤ 0x7E ∧ c ≠ '"' ∧ c ≠ '\\'
  · rw [if_pos h]
    obtain ⟨hlow, hhigh, hquote, hback⟩ := h
    have hof : (UInt8.ofNat c.toNat).toNat = c.toNat := by
      rw [UInt8.toNat_ofNat']
      omega
    refine ⟨?_, ?_, ?_, ?_⟩
    · rw [UInt8.le_iff_toNat_le, hof]
      exact hlow
    · rw [UInt8.le_iff_toNat_le, hof]
      exact hhigh
    · intro heq
      apply hquote
      apply Char.ext
      apply UInt32.toNat_inj.mp
      exact hof.symm.trans (congrArg UInt8.toNat heq)
    · intro heq
      apply hback
      apply Char.ext
      apply UInt32.toNat_inj.mp
      exact hof.symm.trans (congrArg UInt8.toNat heq)
  · rw [if_neg h]
    decide

/-- What the name in ASCII is made of. Everything else has been replaced by an underscore. -/
theorem mem_asciiName (h : b ∈ asciiName name) :
    0x20 ≤ b ∧ b ≤ 0x7E ∧ b ≠ HeaderField.quote ∧ b ≠ HeaderField.backslash := by
  unfold asciiName at h
  by_cases hnil : (Go.runes name).map asciiChar = []
  · rw [if_pos hnil] at h
    exact literals_bytes.2.2.1 b h
  · rw [if_neg hnil] at h
    obtain ⟨c, -, rfl⟩ := List.mem_map.mp h
    exact asciiChar_spec c

/-- The field `serveFile` writes is an instance of the general form of such fields. -/
theorem contentDisposition_eq (name : GoString) :
    contentDisposition name = renderField attachment (dispositionParams name) := by
  have hquoted : quoteString (asciiName name) =
      HeaderField.quote :: asciiName name ++ [HeaderField.quote] :=
    HeaderField.quoteString_of_plain fun b hb => (mem_asciiName hb).2.2
  obtain ⟨hfirst, hsecond, -⟩ := literals
  show _ = attachment ++ ([HeaderField.semicolon, HeaderField.space] ++ goString "filename" ++
    HeaderField.equals :: quoteString (asciiName name) ++
      ([HeaderField.semicolon, HeaderField.space] ++ goString "filename*" ++
        HeaderField.equals :: (goString "UTF-8''" ++ Go.pathEscape name) ++ []))
  rw [hquoted, contentDisposition, hfirst, hsecond]
  simp only [List.append_assoc, List.cons_append, List.nil_append, List.append_nil]

/-- The extended value is read back: its language is empty and its percent escapes are undone. -/
theorem readExtended_utf8 (s : GoString) :
    readExtended (goString "UTF-8''" ++ Go.pathEscape s) = some (goString "UTF-8", [], s) := by
  obtain ⟨-, -, hvalue, -⟩ := literals
  obtain ⟨hcharset, -⟩ := literals_bytes
  have htake : (goString "UTF-8''" ++ Go.pathEscape s).takeWhile (· ≠ apostrophe) =
      goString "UTF-8" := by
    rw [hvalue, List.append_assoc, List.takeWhile_append_of_pos hcharset]
    simp
  have hdrop : (goString "UTF-8''" ++ Go.pathEscape s).dropWhile (· ≠ apostrophe) =
      apostrophe :: apostrophe :: Go.pathEscape s := by
    rw [hvalue, List.append_assoc, List.dropWhile_append_of_pos hcharset]
    simp
  unfold readExtended
  simp only [htake, hdrop]
  simp [Go.percentDecode_pathEscape]

/-- What can stand in an escaped name. It is arithmetic on the value of the byte. -/
theorem isBare_of_segment (b : UInt8) :
    (b = Go.percent ∨ Go.isSegmentByte b = true → isBare b = true ∧ b ≠ 0x27) ∧
      (Go.isUnreserved b = true → Go.isSegmentByte b = true ∧ isToken b = true) ∧
      (Go.isSegmentByte b = true →
        (isToken b = true ↔ b ≠ 0x3A ∧ b ≠ 0x3D ∧ b ≠ 0x40)) := by
  simp only [isBare, isToken, Go.isSegmentByte, Go.isUnreserved, Go.percent, HeaderField.quote,
    HeaderField.semicolon, Bool.or_eq_true, Bool.and_eq_true, decide_eq_true_eq, beq_iff_eq,
    bne_iff_ne, ne_eq, ← UInt8.toNat_inj, UInt8.le_iff_toNat_le]
  simp only [UInt8.reduceToNat]
  omega

/-- The bytes of the extended value. It consists of the prefix `UTF-8''` and of percent escapes with
bytes that need none. -/
theorem mem_extended (h : b ∈ goString "UTF-8''" ++ Go.pathEscape name) :
    b ∈ goString "UTF-8''" ∨ b = Go.percent ∨ Go.isUnreserved b = true ∨
      Go.isSegmentByte b = true ∧ b ∈ name := by
  rcases List.mem_append.mp h with h | h
  · exact Or.inl h
  · exact Or.inr (Go.mem_pathEscape h)

/-- An extended value needs no quotes. It can be written without them whatever the name is. -/
theorem isBare_of_mem_extended (h : b ∈ goString "UTF-8''" ++ Go.pathEscape name) :
    isBare b = true := by
  obtain ⟨hbare, hunreserved, -⟩ := isBare_of_segment b
  rcases mem_extended h with h | h | h | h
  · exact (literals_bytes.2.1 b h).1
  · exact (hbare (Or.inl h)).1
  · exact (hbare (Or.inr (hunreserved h).1)).1
  · exact (hbare (Or.inr h.1)).1

/-- The words of the header are tokens. Hence they are read as the kind and the names of the
parameters. -/
theorem isToken_words :
    IsToken attachment ∧ IsToken (goString "filename") ∧ IsToken (goString "filename*") := by
  obtain ⟨-, -, -, -, hattachment, hfilename, hextended⟩ := literals
  obtain ⟨-, -, -, hattachment', hfilename', hextended', -⟩ := literals_bytes
  exact ⟨⟨hattachment, hattachment'⟩, ⟨hfilename, hfilename'⟩, hextended, hextended'⟩

/-- The parameters are well formed. The name in ASCII is quoted, and the extended one is bare. -/
theorem dispositionParams_spec (name : GoString) :
    ∀ p ∈ dispositionParams name, IsToken p.1 ∧ p.2.Writable := by
  intro p hp
  rcases List.mem_pair.mp hp with rfl | rfl
  · exact ⟨isToken_words.2.1, trivial⟩
  · refine ⟨isToken_words.2.2, List.append_ne_nil_of_left_ne_nil ?_ _, ?_⟩
    · rw [literals.2.2.1]
      exact List.append_ne_nil_of_right_ne_nil _ (List.cons_ne_nil _ _)
    intro b hb
    have hbare := isBare_of_mem_extended hb
    constructor
    · rintro rfl
      exact absurd hbare (by decide)
    · rintro rfl
      exact absurd hbare (by decide)

/-- A reader takes the header when it takes the bytes of the extended value. -/
theorem readField_contentDisposition (allowed : UInt8 → Bool) (name : GoString) :
    readField allowed (contentDisposition name) =
      if (goString "UTF-8''" ++ Go.pathEscape name).all allowed then
        some (attachment, [(goString "filename", asciiName name),
          (goString "filename*", goString "UTF-8''" ++ Go.pathEscape name)])
      else none := by
  have hreadable : (∀ p ∈ dispositionParams name, p.2.Readable allowed) ↔
      (goString "UTF-8''" ++ Go.pathEscape name).all allowed = true := by
    simp only [dispositionParams, List.forall_mem_cons, List.not_mem_nil, false_imp_iff,
      implies_true, and_true]
    exact ⟨fun h => h.2, fun h => ⟨trivial, h⟩⟩
  rw [contentDisposition_eq,
    HeaderField.readField_renderField isToken_words.1 (dispositionParams_spec name)]
  simp only [hreadable]
  rfl

/-- The header is one line of printable ASCII. In particular no name can break the header into two
lines. -/
theorem mem_contentDisposition (h : b ∈ contentDisposition name) : 0x20 ≤ b ∧ b ≤ 0x7E := by
  obtain ⟨-, -, -, -, -, -, hfirst, hsecond⟩ := literals_bytes
  have hquote : 0x20 ≤ HeaderField.quote ∧ HeaderField.quote ≤ 0x7E := by decide
  unfold contentDisposition at h
  simp only [List.append_assoc, List.cons_append, List.mem_append, List.mem_cons] at h
  rcases h with h | rfl | h | rfl | h | h
  · exact hfirst b h
  · exact hquote
  · exact ⟨(mem_asciiName h).1, (mem_asciiName h).2.1⟩
  · exact hquote
  · exact hsecond b h
  · have hbare : isBare b = true :=
      isBare_of_mem_extended (List.mem_append_right (goString "UTF-8''") h)
    simp only [isBare, Bool.and_eq_true, decide_eq_true_eq] at hbare
    obtain ⟨⟨⟨hlow, hhigh⟩, -⟩, -⟩ := hbare
    exact ⟨UInt8.le_trans (by decide) hlow, hhigh⟩

/-- The extended value is a token unless the name has a `:`, `=` or `@`. -/
theorem isToken_extended (name : GoString) :
    (goString "UTF-8''" ++ Go.pathEscape name).all isToken = true ↔
      ∀ b ∈ name, b ≠ 0x3A ∧ b ≠ 0x3D ∧ b ≠ 0x40 := by
  constructor
  · intro h b hb
    by_cases hseg : Go.isSegmentByte b = true
    · have hmem := List.mem_append_right (goString "UTF-8''") (Go.mem_pathEscape_of_mem hb hseg)
      exact ((isBare_of_segment b).2.2 hseg).mp (List.all_eq_true.mp h b hmem)
    · refine ⟨?_, ?_, ?_⟩ <;> (rintro rfl; exact hseg (by decide))
  · intro h
    apply List.all_eq_true.mpr
    intro b hb
    rcases mem_extended hb with hb | rfl | hb | ⟨hseg, hb⟩
    · exact (literals_bytes.2.1 b hb).2
    · decide
    · exact ((isBare_of_segment b).2.1 hb).2
    · exact ((isBare_of_segment b).2.2 hseg).mpr (h b hb)

/-- **A file name survives the header.** Whatever the name: every byte of `Content-Disposition` is
printable ASCII, so the header is one line and cannot be split; a browser reads the name back from
`filename*` byte for byte, and `asciiName` from `filename`. A reader that keeps to the grammar of
tokens refuses the header exactly when the name has a `:`, `=` or `@`, which `url.PathEscape`
leaves as they are. -/
theorem disposition_reads_back (name : GoString) :
    (∀ b ∈ contentDisposition name, 0x20 ≤ b ∧ b ≤ 0x7E) ∧
      (∃ params, readField isBare (contentDisposition name) = some (attachment, params) ∧
        params.lookup (goString "filename") = some (asciiName name) ∧
        (params.lookup (goString "filename*")).bind readExtended =
          some (goString "UTF-8", [], name)) ∧
      ((readField isToken (contentDisposition name)).isSome ↔
        ∀ b ∈ name, b ≠ 0x3A ∧ b ≠ 0x3D ∧ b ≠ 0x40) := by
  have hnames : (goString "filename*" == goString "filename") = false :=
    beq_eq_false_iff_ne.mpr literals.2.2.2.1
  refine ⟨fun b hb => mem_contentDisposition hb, ?_, ?_⟩
  · -- for a tolerant reader both parameters are well formed
    have hbare : (goString "UTF-8''" ++ Go.pathEscape name).all isBare = true :=
      List.all_eq_true.mpr fun b hb => isBare_of_mem_extended hb
    refine ⟨_, (readField_contentDisposition isBare name).trans (if_pos hbare),
      List.lookup_cons_self, ?_⟩
    rw [List.lookup_cons, hnames, List.lookup_cons_self]
    exact readExtended_utf8 name
  · -- a strict reader refuses the characters `url.PathEscape` leaves alone and a token may not hold
    rw [readField_contentDisposition, ← isToken_extended name]
    by_cases h : (goString "UTF-8''" ++ Go.pathEscape name).all isToken = true
    · rw [if_pos h]
      exact iff_of_true rfl h
    · rw [if_neg h]
      exact iff_of_false Bool.false_ne_true h

/-! ## The bytes of a finished file

A record that a download has found may expire before the file is opened. The life of the identifier
does not say which bytes an expired file still has, but no section of any handler writes them. -/

variable {cfg : Config} {P : Request → Prop} {id : FileID} {t : Tid} {l : Life} {s s' : Server}
  {c d : ThreadPool.Config Server Thread} {rec : FileRecord}

/-- `UploadDir/id` is as it was, or gone. -/
def FinalKept (id : FileID) (s s' : Server) : Prop :=
  s'.disk (.final id) = s.disk (.final id) ∨ s'.disk (.final id) = none

/-- A section that the view of the identifier does not show keeps its final file. -/
theorem FinalKept.of_view (h : s'.view id = s.view id) : FinalKept id s s' :=
  Or.inl (congrArg View.final h)

/-- Filling in a session touches no file. The disk of the server is the same one. -/
theorem FinalKept.setSession (h : FinalKept id s s') (fid : FileID) (se : UploadSession) :
    FinalKept id s (s'.setSession fid se) := h

/-- No `.part` file is a final file. The two kinds of paths are told apart by their suffix. -/
theorem finalKept_setDisk_part (s : Server) (fid : FileID) (b : Option Bytes) :
    FinalKept id s (s.setDisk (.part fid) b) := by
  apply Or.inl
  simp [Server.setDisk]

/-- Removing a file keeps a final file or makes it go. A remove that fails leaves the disk alone. -/
theorem finalKept_remove (s : Server) (fails : Bool) (p : Path) :
    FinalKept id s (s.remove fails p) := by
  cases fails with
  | true => exact Or.inl rfl
  | false =>
      by_cases h : p = .final id
      · subst h
        apply Or.inr
        simp [Server.remove, Server.setDisk]
      · apply Or.inl
        simp [Server.remove, Server.setDisk, Ne.symm h]

/-- The creator of an upload has not finished it. A section that works on `id` belongs to a life
that is still being built, and the others do not show in its view. -/
theorem UploadSection.finalKept {r : UploadRequest} {pc pc' : UploadPC}
    (h : UploadSection cfg s r pc s' pc') (hloc : UploadLoc cfg id t l (s.view id) r pc)
    (hl : l.finished = true) : FinalKept id s s' := by
  have hpc : pc.working? ≠ some id := by
    intro hw
    rw [(hloc.here hw).1] at hl
    cases hl
  by_cases hpc' : pc'.working? = some id
  · cases h with
    | refused | noID | createFails | discarded | registered => cases hpc'
    | issued => exact Or.inl rfl
    | created | refusedCopy | copied => exact absurd hpc' hpc
  · exact FinalKept.of_view (h.frame hpc hpc')

/-- The creator of an upload that is finished works on another identifier by now. -/
theorem CreateSection.finalKept {r : CreateRequest} {pc pc' : CreatePC}
    (h : CreateSection cfg s r pc s' pc') (hw : s.Wf cfg)
    (hloc : CreateLoc cfg id t l (s.view id) r pc) (hl : l.finished = true) :
    FinalKept id s s' := by
  have hpc : ∀ body, pc.working? ≠ some (body, id) := by
    intro body hw
    rw [(hloc.here body hw).1] at hl
    cases hl
  by_cases hpc' : ∃ body, pc'.working? = some (body, id)
  · obtain ⟨body, hpc'⟩ := hpc'
    cases h with
    | refused | noID | createFails | renameFails | registered | stored => cases hpc'
    | issued => exact Or.inl rfl
    | createdEmpty | created | renamed | unregistered => exact absurd hpc' (hpc body)
  · exact FinalKept.of_view (h.frame hw hpc fun body hw => hpc' ⟨body, hw⟩)

/-- A session on a finished upload only touches its `.part` path. -/
theorem SessionSection.finalKept {r : SessionRequest} {pc pc' : SessionPC}
    (h : SessionSection t s r pc s' pc') (hw : s.Wf cfg)
    (hloc : SessionLoc id t l (s.view id) r pc) (hl : l.finished = true) : FinalKept id s s' := by
  by_cases hid : r.id = id
  · have hpath : ∀ {se : UploadSession}, s.sessions r.id = some se → se.path = .part r.id :=
      fun hse => (hw.session _ _ hse).1
    cases h with
    | notHex | missing | loaded | wrongMethod | finished | notFound | statFails | offset | conflict
    | continued | openFails | opened | renameFails | locked | lockedDelete | unlocked | unregistered
    | dropped | registered => exact Or.inl rfl
    | tooLong _ hse | interrupted _ hse | full _ hse | stored _ hse =>
        rw [storeChunk, Server.append, hpath hse]
        exact (finalKept_setDisk_part s r.id _).setSession r.id _
    | truncated hse =>
        rw [Server.truncate, hpath hse]
        exact finalKept_setDisk_part s r.id _
    | removed hse => exact finalKept_remove s _ _
    | renamed =>
        -- only a live upload is renamed
        obtain ⟨se, b, -, rfl, -⟩ := hloc.here hid
        cases hl
  · exact FinalKept.of_view (h.frame hw hid)

/-- The purge removes files; it never writes one. It runs beside a download without changing a byte
of what is read. -/
theorem PurgeSection.finalKept {r : PurgeRequest} {cutoff : Time} {pc pc' : PurgePC}
    (h : PurgeSection t s r cutoff pc s' pc') : FinalKept id s s' := by
  cases h with
  | began | filesDone | expired | fresh | recordDeleted | done | loaded | missing | locked | stale
  | recent | dropped | unlocked => exact Or.inl rfl
  | recordRemoved | removed => exact finalKept_remove s _ _

/-- **No section writes to a finished file**: it can at most remove it. The cases are those of the
four handlers. -/
theorem finalKept_of_step {th th' : Thread} (h : th.step cfg t s = some (s', th'))
    (hw : s.Wf cfg) (hloc : Loc cfg P id t l (s.view id) th) (hl : l.finished = true) :
    FinalKept id s s' := by
  cases th with
  | upload r pc =>
      obtain ⟨⟨s₁, pc'⟩, hsection, heq⟩ := Option.map_eq_some_iff.mp h
      cases heq
      exact (UploadSection.of_step hsection).finalKept hloc.2 hl
  | create r pc =>
      obtain ⟨⟨s₁, pc'⟩, hsection, heq⟩ := Option.map_eq_some_iff.mp h
      cases heq
      exact (CreateSection.of_step hsection).finalKept hw hloc.2 hl
  | session r pc =>
      obtain ⟨⟨s₁, pc'⟩, hsection, heq⟩ := Option.map_eq_some_iff.mp h
      cases heq
      exact (SessionSection.of_step hsection).finalKept hw hloc.2 hl
  | purge r cutoff pc =>
      obtain ⟨⟨s₁, cutoff', pc'⟩, hsection, heq⟩ := Option.map_eq_some_iff.mp h
      cases heq
      exact (PurgeSection.of_step hsection).1.finalKept

/-- In a whole run a finished file is at most removed. The induction is on the run; each section
keeps the bytes or removes the file. -/
theorem finalKept_of_run (hv : (outline cfg P id).Valid l c) (hl : l.finished = true)
    (hrun : (machine cfg).Run (Arrivals P) c d) : FinalKept id c.shared d.shared := by
  induction hrun with
  | refl => exact Or.inl rfl
  -- induction on the run; a finished file may only vanish, and then stays away
  | @tail d e act hrun hok hexec ih =>
      obtain ⟨l', hv', hmoves⟩ := Outline.valid_run (fun _ _ h => h) hv hrun
      have hl' : l'.finished = true := Life.Moves.finished hmoves hl
      have hstep : FinalKept id d.shared e.shared := by
        cases act with
        | spawn th =>
            obtain rfl := Option.some.inj hexec
            exact Or.inl rfl
        | env e =>
            obtain rfl := Option.some.inj hexec
            exact Or.inl rfl
        | run u k =>
            obtain ⟨th, th', hth, hstep, -⟩ := run_of_exec hexec
            exact finalKept_of_step hstep hv'.inv.wf (hv'.loc u th hth) hl'
      rcases hstep with hsame | hgone
      · unfold FinalKept
        rw [hsame]
        exact ih
      · exact Or.inr hgone

/-! ## What a download delivers -/

/-- The path of the request names the record that is found. The identifier is what follows the fixed
prefix of the path. -/
theorem findRecord_eq_ok {r : DownloadRequest} (h : findRecord s r = .ok rec) :
    s.files (trimPrefix filesPath r.path) = some rec := by
  unfold findRecord at h
  by_cases hget : r.method ≠ .get
  · rw [if_pos hget] at h
    cases h
  · rw [if_neg hget] at h
    dsimp only at h
    split at h
    · cases h
    · cases hrec : s.files (trimPrefix filesPath r.path) with
      | none =>
          rw [hrec] at h
          cases h
      | some rec' =>
          rw [hrec] at h
          cases h
          rfl

/-- What `http.ServeFile` makes of a file that may have been removed. -/
theorem serveFile_eq_ok {r : DownloadRequest} {reply : FileReply}
    (h : serveFile s r rec = .ok reply) :
    ∃ body, s.disk rec.path = some body ∧ reply = fileReply rec body := by
  unfold serveFile at h
  cases hfails : r.fails with
  | some e =>
      rw [hfails] at h
      cases e <;> cases h
  | none =>
      rw [hfails] at h
      cases hbody : s.disk rec.path with
      | none =>
          rw [hbody] at h
          cases h
      | some body =>
          rw [hbody] at h
          cases h
          exact ⟨body, rfl, rfl⟩

/-- **A download delivers what was uploaded, or an error.** Let the requests on the identifier in
the path upload `source`, in any order and interleaving, and let a download find the record. Whatever
happens until the file is opened, and even if it expires in between: an answer with a file has
exactly the bytes of `source` and the name and media type of the record. If no purge with a later
cutoff runs and the file can be opened, that is the answer. -/
theorem download_integrity {source : Bytes} {r : DownloadRequest}
    (hreach : Reachable cfg (Request.carries source (trimPrefix filesPath r.path)) c)
    (hfind : findRecord c.shared r = .ok rec)
    (hrun : (machine cfg).Run (Arrivals (Request.carries source (trimPrefix filesPath r.path))) c d) :
    (∀ reply, serveFile d.shared r rec = .ok reply → reply = fileReply rec source) ∧
      (r.fails = none →
        (machine cfg).Run (fun c act => Arrivals (Request.carries source (trimPrefix filesPath r.path))
          c act ∧ Spares (trimPrefix filesPath r.path) c act) c d →
        serveFile d.shared r rec = .ok (fileReply rec source)) := by
  have hrec := findRecord_eq_ok hfind
  obtain ⟨b, hv, hmoves, hpath, hdisk⟩ := hreach.of_file hrec
  -- the record was written by an upload of these bytes
  obtain rfl : b = source := hmoves.stores trivial
  refine ⟨fun reply hreply => ?_, fun hopens hspares => ?_⟩
  · obtain ⟨body, hbody, rfl⟩ := serveFile_eq_ok hreply
    rw [hpath] at hbody hdisk
    -- the purge may take the file between the lookup and the opening; then there is no reply
    rcases finalKept_of_run hv rfl hrun with hsame | hgone
    · obtain rfl : body = b := Option.some.inj (hbody.symm.trans (hsame.trans hdisk))
      rfl
    · cases hgone.symm.trans hbody
  · have hdisk' : d.shared.disk rec.path = some b := by
      rw [hpath]
      exact (run_keeps_file hv hspares).inv.holds.2.2.2.1
    unfold serveFile
    rw [hopens, hdisk']

/-- A prefix that is there is taken off. It is the model of `strings.TrimPrefix` on a path that
begins with the prefix. -/
theorem trimPrefix_append (pre s : GoString) : trimPrefix pre (pre ++ s) = s := by
  have hprefix : pre.isPrefixOf (pre ++ s) = true :=
    List.isPrefixOf_iff_prefix.mpr (List.prefix_append pre s)
  rw [trimPrefix, if_pos hprefix, List.drop_left]

/-- A download of the sample upload. -/
def Sample.download : DownloadRequest := { method := .get, path := filesPath ++ fileID }

/-- The file uploaded in two chunks is found by a download. It is run by evaluation. -/
theorem Sample.download_found :
    ((machine config).execAll (boot 0) twoChunks).any fun c =>
      (findRecord c.shared download).toOption.isSome := by
  decide +kernel

/-- The run with two chunks is one of the runs the theorem speaks of. -/
theorem Sample.reachable_carries {c : ThreadPool.Config Server Thread}
    (h : (machine config).execAll (boot 0) twoChunks = some c) :
    Reachable config (Request.carries [1, 2, 3] fileID) c := by
  refine .of_execAll (fun th hth => ?_) h
  have hzero : Go.parseInt [0x30] = some 0 := by decide
  have htwo : Go.parseInt [0x32] = some 2 := by decide
  rcases Sample.twoChunks_requests hth with rfl | rfl | rfl
  · refine ⟨_, rfl, ?_⟩
    rintro body rand ⟨⟩ - -
    rfl
  · refine ⟨_, rfl, fun _ _ offset hoff => ⟨2, ?_⟩⟩
    obtain rfl : 0 = offset := by exact_mod_cast Option.some.inj (hzero.symm.trans hoff)
    rfl
  · refine ⟨_, rfl, fun _ _ offset hoff => ⟨1, ?_⟩⟩
    obtain rfl : 2 = offset := by exact_mod_cast Option.some.inj (htwo.symm.trans hoff)
    rfl

/-- The download of the file uploaded in two chunks answers with its three bytes. -/
theorem download_integrity_twoChunks : ∃ (c : ThreadPool.Config Server Thread) (rec : FileRecord),
    findRecord c.shared Sample.download = .ok rec ∧
      serveFile c.shared Sample.download rec = .ok (fileReply rec [1, 2, 3]) := by
  obtain ⟨c, hexec, hfound⟩ := Sample.exists_of_any Sample.download_found
  have hpath : trimPrefix filesPath Sample.download.path = Sample.fileID := trimPrefix_append ..
  have hreach := Sample.reachable_carries hexec
  rw [← hpath] at hreach
  cases hfind : findRecord c.shared Sample.download with
  | error a =>
      rw [hfind] at hfound
      cases hfound
  | ok rec => exact ⟨c, rec, hfind, (download_integrity hreach hfind .refl).2 rfl .refl⟩

end LanRoom.Upload
