import LanRoom.Concurrency.ExclusiveInvariant
import LanRoom.Go.UUID

/-! # The identity of a server

`Identity` of `internal/discovery/discovery.go`: the first server to start creates the file
`service-id` and writes a fresh UUID into it; whoever finds the file reads it, and tries again when
there is no UUID in it yet. Processes interleave between their accesses to the file, whose content
may become visible piece by piece; an access may fail, and a process may stop anywhere.

The exclusive create makes the servers agree (`identity_agreement`). It also stands in the way of a
new start: a piece of a UUID that was left behind is never completed (`never_recovers`). -/

namespace LanRoom.Discovery

open LanRoom.Chat (UUID UUIDPackage)
open LanRoom.Go (Documented canonicalUUIDs documented_canonicalUUIDs uuidString)
open ThreadPool (Tid Machine Act)
open Relation (ReflTransGen)

/-! ## Model -/

/-- Why a call of `Identity` returned an error. -/
inductive IdentityError
  /-- A call of the operating system failed. -/
  | os
  /-- `fmt.Errorf("invalid service identity in %s", path)`. -/
  | errorf (text : GoString)
  deriving DecidableEq

/-- Program points of `Identity`. -/
inductive IdentityPC
  /-- `os.MkdirAll`. -/
  | mkdirAll
  /-- `os.ReadFile` in the pass `i` of the loop. -/
  | readFile (i : ℕ)
  /-- `os.OpenFile` with `O_EXCL`. -/
  | openFile (i : ℕ) (id : GoString)
  /-- `f.WriteString`, with what of the text is not in the file yet. -/
  | writeString (id rest : GoString)
  /-- `f.Close`. -/
  | close (id : GoString)
  | returned (result : Except IdentityError GoString)
  /-- The process has stopped. -/
  | stopped
  deriving DecidableEq

/-- How an access to the file goes. -/
inductive Outcome
  | ok | fail
  /-- The process stops before it. -/
  | stop
  deriving DecidableEq

/-- What the scheduler and the operating system decide for a section. -/
structure Choice where
  outcome : Outcome := .ok
  /-- What `uuid.NewString` draws, if it is called. -/
  drawn : UUID := Vector.replicate 16 0
  /-- How many more bytes of a write become visible. -/
  bytes : ℕ := 36

/-- After pass `i` of the loop. -/
def nextPass (path : GoString) (i : ℕ) : IdentityPC :=
  if i + 1 < 20 then .readFile (i + 1)
  else .returned (.error (.errorf (goString "invalid service identity in " ++ path)))

/-- A section of `Identity` that is not stopped: the content of the file, if there is one, and the
next program point. -/
def identitySection (u : UUIDPackage) (path : GoString) (k : Choice) (file : Option GoString) :
    IdentityPC → Option (Option GoString × IdentityPC)
  | .mkdirAll =>
      some (file, if k.outcome = .fail then .returned (.error .os) else .readFile 0)
  | .readFile i =>
      if k.outcome = .fail then some (file, .returned (.error .os))
      else match file with
        | none => some (file, .openFile i (u.string k.drawn))
        | some b => match u.parse b with
          | some x => some (file, .returned (.ok (u.string x)))
          | none => some (file, nextPass path i)
  | .openFile i id =>
      if k.outcome = .fail then some (file, .returned (.error .os))
      else match file with
        | none => some (some [], .writeString id id)
        | some _ => some (file, nextPass path i)
  | .writeString id rest =>
      -- a write that fails may have written something
      some (file.map (· ++ rest.take k.bytes),
        if k.outcome = .fail then .returned (.error .os)
        else if rest.drop k.bytes = [] then .close id
        else .writeString id (rest.drop k.bytes))
  | .close id => some (file, .returned (if k.outcome = .fail then .error .os else .ok id))
  | .returned _ => none
  | .stopped => none

/-- The next section of `Identity`. -/
def identityStep (u : UUIDPackage) (path : GoString) (k : Choice) (file : Option GoString)
    (pc : IdentityPC) : Option (Option GoString × IdentityPC) :=
  if k.outcome = .stop then (identitySection u path k file pc).map fun _ => (file, .stopped)
  else identitySection u path k file pc

/-- Any number of **servers** that start on the same directory; the file is the shared state. -/
def machine (u : UUIDPackage) (path : GoString) :
    Machine (Option GoString) IdentityPC Choice Empty where
  step _ k file pc := (identityStep u path k file pc).map fun x => (x.1, x.2, [])
  env _ file := file

/-- Before the first start there is no file. -/
def boot : ThreadPool.Config (Option GoString) IdentityPC := ⟨none, []⟩

/-- Calls of `Identity` arrive. -/
def Arrivals (_ : ThreadPool.Config (Option GoString) IdentityPC)
    (act : Act IdentityPC Choice Empty) : Prop :=
  ∀ pc, act = .spawn pc → pc = .mkdirAll

/-- Calls arrive, no access fails and no process stops. -/
def Working (c : ThreadPool.Config (Option GoString) IdentityPC)
    (act : Act IdentityPC Choice Empty) : Prop :=
  Arrivals c act ∧ ∀ t k, act = .run t k → k.outcome = .ok

/-- One call that no other runs beside and that nothing fails for. -/
def Alone (u : UUIDPackage) (path : GoString) :
    Option GoString × IdentityPC → Option GoString × IdentityPC → Prop :=
  ReflTransGen fun x y => ∃ k : Choice, k.outcome = .ok ∧ identityStep u path k x.1 x.2 = some y

variable {u : UUIDPackage} {path : GoString} {k : Choice} {file file' : Option GoString}
  {pc pc' : IdentityPC} {c d : ThreadPool.Config (Option GoString) IdentityPC}

/-! ## What a section can do -/

/-- The outcomes of a section. -/
inductive Section (u : UUIDPackage) (path : GoString) :
    Option GoString → IdentityPC → Option GoString → IdentityPC → Prop
  /-- The process stops, or an access that writes nothing fails. -/
  | failed {f : Option GoString} {q q' : IdentityPC} (hpc : ∀ r, q ≠ .returned r)
      (hpc' : q' = .stopped ∨ q' = .returned (.error .os)) : Section u path f q f q'
  | made {f : Option GoString} : Section u path f .mkdirAll f (.readFile 0)
  | found {b : GoString} {x : UUID} {i : ℕ} (hparse : u.parse b = some x) :
      Section u path (some b) (.readFile i) (some b) (.returned (.ok (u.string x)))
  | unread {b : GoString} {i : ℕ} (hparse : u.parse b = none) :
      Section u path (some b) (.readFile i) (some b) (nextPass path i)
  | drew {x : UUID} {i : ℕ} : Section u path none (.readFile i) none (.openFile i (u.string x))
  | created {i : ℕ} {id : GoString} :
      Section u path none (.openFile i id) (some []) (.writeString id id)
  | late {b id : GoString} {i : ℕ} :
      Section u path (some b) (.openFile i id) (some b) (nextPass path i)
  | wrote {f : Option GoString} {id rest : GoString} (n : ℕ) (hmore : rest.drop n ≠ []) :
      Section u path f (.writeString id rest) (f.map (· ++ rest.take n))
        (.writeString id (rest.drop n))
  | written {f : Option GoString} {id rest : GoString} (n : ℕ) (hall : rest.drop n = []) :
      Section u path f (.writeString id rest) (f.map (· ++ rest.take n)) (.close id)
  | broken {f : Option GoString} {id rest : GoString} (n : ℕ) :
      Section u path f (.writeString id rest) (f.map (· ++ rest.take n)) (.returned (.error .os))
  | closed {f : Option GoString} {id : GoString} :
      Section u path f (.close id) f (.returned (.ok id))

/-- Every section has one of these outcomes. The proofs below go through them and do not unfold
`Identity`. -/
theorem Section.of_step (h : identityStep u path k file pc = some (file', pc')) :
    Section u path file pc file' pc' := by
  unfold identityStep at h
  split at h
  · -- a caller that is stopped
    obtain ⟨x, hx, heq⟩ := Option.map_eq_some_iff.mp h
    cases heq
    refine .failed ?_ (Or.inl rfl)
    rintro r rfl
    cases hx
  · cases pc with
    | mkdirAll =>
        simp only [identitySection] at h
        split at h
        · cases h
          exact .failed (fun r hr => by cases hr) (Or.inr rfl)
        · cases h
          exact .made
    | readFile i =>
        simp only [identitySection] at h
        split at h
        · cases h
          exact .failed (fun r hr => by cases hr) (Or.inr rfl)
        · split at h
          · cases h
            exact .drew
          · split at h
            · rename_i hparse
              cases h
              exact .found hparse
            · rename_i hparse
              cases h
              exact .unread hparse
    | openFile i id =>
        simp only [identitySection] at h
        split at h
        · cases h
          exact .failed (fun r hr => by cases hr) (Or.inr rfl)
        · split at h
          · cases h
            exact .created
          · cases h
            exact .late
    | writeString id rest =>
        simp only [identitySection] at h
        split at h
        · cases h
          exact .broken k.bytes
        · split at h
          · rename_i hall
            cases h
            exact .written k.bytes hall
          · rename_i hmore
            cases h
            exact .wrote k.bytes hmore
    | close id =>
        simp only [identitySection] at h
        split at h
        · cases h
          exact .failed (fun r hr => by cases hr) (Or.inr rfl)
        · cases h
          exact .closed
    | returned r => cases h
    | stopped => cases h

/-! ## The invariant -/

/-- The text is that of a UUID. -/
def IsUUID (u : UUIDPackage) (id : GoString) : Prop := ∃ x, id = u.string x

/-- The file holds a piece of the text of a UUID. -/
def Piece (u : UUIDPackage) (file : Option GoString) : Prop :=
  ∀ b, file = some b → ∃ x, b <+: u.string x

/-- The **assertion** of a call at its program point: who writes has created the file, and who returns
a UUID returns the content of the file. -/
def Stands (u : UUIDPackage) (file : Option GoString) : IdentityPC → Prop
  | .openFile _ id => IsUUID u id
  | .writeString id rest => IsUUID u id ∧ rest ≠ [] ∧ ∃ b, file = some b ∧ b ++ rest = id
  | .close id => IsUUID u id ∧ file = some id
  | .returned (.ok id) => IsUUID u id ∧ file = some id
  | _ => True

/-- The call writes. -/
def Writing (_ : Option GoString) (pc : IdentityPC) : Prop := ∃ id rest, pc = .writeString id rest

/-- A text that is not of a UUID yet has more to come. A reader that sees 36 characters therefore
sees the whole text. -/
theorem length_lt_of_append (hu : Documented u) {b rest id : GoString} (hid : IsUUID u id)
    (hmore : rest ≠ []) (happend : b ++ rest = id) : b.length < 36 := by
  obtain ⟨x, rfl⟩ := hid
  have hlen := congrArg List.length happend
  have hpos := List.length_pos_iff.mpr hmore
  rw [List.length_append, hu.length_string] at hlen
  omega

/-- The assertion of a caller that starts over. It has nothing in hand, and neither has one that
gives up after the last pass. -/
theorem stands_nextPass (file : Option GoString) (i : ℕ) : Stands u file (nextPass path i) := by
  unfold nextPass
  split <;> exact trivial

/-- A caller that starts over does not write. Only the call that has created the file does. -/
theorem not_writing_nextPass (file : Option GoString) (i : ℕ) :
    ¬Writing file (nextPass path i) := by
  rintro ⟨id, rest, heq⟩
  unfold nextPass at heq
  split at heq <;> cases heq

/-- Without a file, nobody is beyond the create. A call that writes, closes or returns a UUID has a
file to point to. -/
theorem Stands.of_none (h : Stands u none pc) (file : Option GoString) :
    Stands u file pc ∧ ¬Writing file pc := by
  have hno : ∀ b : GoString, (none : Option GoString) ≠ some b := fun b hb => by cases hb
  cases pc with
  | writeString id rest =>
      obtain ⟨-, -, b, hb, -⟩ := h
      exact absurd hb (hno b)
  | close id => exact absurd h.2 (hno id)
  | returned r =>
      cases r with
      | ok id => exact absurd h.2 (hno id)
      | error e => exact ⟨trivial, by rintro ⟨id, rest, heq⟩; cases heq⟩
  | openFile i id => exact ⟨h, by rintro ⟨id, rest, heq⟩; cases heq⟩
  | mkdirAll | readFile i | stopped =>
      exact ⟨trivial, by rintro ⟨id, rest, heq⟩; cases heq⟩

/-- While the text is incomplete, nobody has got a UUID from it. -/
theorem Stands.of_short (hu : Documented u) {b : GoString} (hshort : b.length < 36)
    (h : Stands u (some b) pc) (hidle : ¬Writing (some b) pc) (file : Option GoString) :
    Stands u file pc := by
  have hno : ∀ id, IsUUID u id → some b ≠ some id := by
    rintro id ⟨x, rfl⟩ heq
    rw [Option.some.inj heq, hu.length_string] at hshort
    omega
  cases pc with
  | writeString id rest => exact absurd ⟨id, rest, rfl⟩ hidle
  | close id => exact absurd h.2 (hno id h.1)
  | returned r =>
      cases r with
      | ok id => exact absurd h.2 (hno id h.1)
      | error e => exact trivial
  | openFile i id => exact h
  | mkdirAll | readFile i | stopped => exact trivial

/-- A call of `Identity` keeps its assertion. There is one case for each outcome; the create is the
one that makes the file begin. -/
theorem Section.own (hu : Documented u) (hsection : Section u path file pc file' pc')
    (hfile : Piece u file) (hpc : Stands u file pc) : Piece u file' ∧ Stands u file' pc' := by
  cases hsection with
  | failed hpc hpc' =>
      refine ⟨hfile, ?_⟩
      rcases hpc' with rfl | rfl <;> exact trivial
  | made => exact ⟨hfile, trivial⟩
  -- what can be parsed is the whole identifier, so the file is complete
  | found hparse =>
      rename_i b x i
      obtain ⟨y, hprefix⟩ := hfile b rfl
      obtain ⟨hb, rfl⟩ := hu.eq_of_parse hprefix hparse
      exact ⟨hfile, ⟨x, rfl⟩, by rw [hb]⟩
  | unread hparse => exact ⟨hfile, stands_nextPass _ _⟩
  | drew => exact ⟨hfile, _, rfl⟩
  -- `O_EXCL` has created the file, so it is empty and this caller is its writer
  | created =>
      obtain ⟨x, rfl⟩ := hpc
      have hne : u.string x ≠ [] := by
        rw [← List.length_pos_iff, hu.length_string]
        decide
      refine ⟨fun b hb => ⟨x, ?_⟩, ⟨x, rfl⟩, hne, [], rfl, rfl⟩
      rw [← Option.some.inj hb]
      exact List.nil_prefix
  | late => exact ⟨hfile, stands_nextPass _ _⟩
  | wrote n hmore =>
      rename_i id rest
      obtain ⟨⟨x, rfl⟩, -, b, rfl, happend⟩ := hpc
      have hsplit : (b ++ rest.take n) ++ rest.drop n = u.string x := by
        rw [List.append_assoc, List.take_append_drop, happend]
      refine ⟨fun b' hb' => ⟨x, rest.drop n, ?_⟩, ⟨x, rfl⟩, hmore, _, rfl, hsplit⟩
      rw [← Option.some.inj hb', hsplit]
  -- the last write completes the file
  | written n hall =>
      rename_i id rest
      obtain ⟨⟨x, rfl⟩, -, b, rfl, happend⟩ := hpc
      have hsplit : b ++ rest.take n = u.string x := by
        rw [← happend, ← List.take_append_drop n rest, hall, List.append_nil, List.take_take,
          Nat.min_self]
      refine ⟨fun b' hb' => ⟨x, ?_⟩, ⟨x, rfl⟩, congrArg some hsplit⟩
      have hb : b ++ rest.take n = b' := Option.some.inj hb'
      rw [← hb, hsplit]
  -- a failing write leaves a shorter piece of the same identifier
  | broken n =>
      rename_i id rest
      obtain ⟨⟨x, rfl⟩, -, b, rfl, happend⟩ := hpc
      refine ⟨fun b' hb' => ⟨x, rest.drop n, ?_⟩, trivial⟩
      rw [← Option.some.inj hb', List.append_assoc, List.take_append_drop, happend]
  | closed => exact ⟨hfile, hpc⟩

/-- A call of `Identity` keeps the assertions of the others and does not join a writer. -/
theorem Section.other (hu : Documented u) (hsection : Section u path file pc file' pc')
    (hpc : Stands u file pc) {q : IdentityPC} (hq : Stands u file q)
    (hexclusive : ¬(Writing file pc ∧ Writing file q)) :
    Stands u file' q ∧ (Writing file' q → Writing file q ∧ ¬Writing file' pc') := by
  -- a section that leaves the file alone
  have hquiet : ∀ {f : Option GoString} {q' : IdentityPC}, Stands u f q → ¬Writing f q' →
      Stands u f q ∧ (Writing f q → Writing f q ∧ ¬Writing f q') := fun hq hno =>
    ⟨hq, fun hw => ⟨hw, hno⟩⟩
  -- a section that writes: the file is still short, so nobody else has read an identifier from it
  have hwriting : ∀ {id rest : GoString} {f' : Option GoString},
      pc = .writeString id rest → Stands u f' q ∧
        (Writing f' q → Writing file q ∧ ¬Writing f' pc') := by
    rintro id rest f' rfl
    have hidle : ¬Writing file q := fun hw => hexclusive ⟨⟨id, rest, rfl⟩, hw⟩
    obtain ⟨hid, hmore, b, rfl, happend⟩ := hpc
    exact ⟨hq.of_short hu (length_lt_of_append hu hid hmore happend) hidle f',
      fun hw => absurd hw hidle⟩
  cases hsection with
  | failed hpc hpc' =>
      refine hquiet hq ?_
      rintro ⟨id, rest, rfl⟩
      rcases hpc' with h | h <;> cases h
  | made => exact hquiet hq (by rintro ⟨id, rest, heq⟩; cases heq)
  | found hparse => exact hquiet hq (by rintro ⟨id, rest, heq⟩; cases heq)
  | unread hparse => exact hquiet hq (not_writing_nextPass _ _)
  | drew => exact hquiet hq (by rintro ⟨id, rest, heq⟩; cases heq)
  -- `O_EXCL`: before this section nobody has seen a file
  | created =>
      obtain ⟨hq', hno⟩ := hq.of_none (some [])
      exact ⟨hq', fun hw => absurd hw hno⟩
  | late => exact hquiet hq (not_writing_nextPass _ _)
  | wrote n hmore => exact hwriting rfl
  | written n hall => exact hwriting rfl
  | broken n => exact hwriting rfl
  | closed => exact hquiet hq (by rintro ⟨id, rest, heq⟩; cases heq)

/-- **The invariant of the identity file.** Whoever has created the file is the only one to write
it, and it always holds a piece of the text of a UUID. -/
theorem exclusiveInvariant (hu : Documented u) (path : GoString) :
    (machine u path).ExclusiveInvariant Arrivals (fun _ => True) (Piece u) (Stands u) Writing where
  spawn := by
    intro c pc harrive
    obtain rfl := harrive pc rfl
    exact ⟨trivial, by rintro ⟨id, rest, heq⟩; cases heq⟩
  own := by
    intro t k file pc file' pc' fs hstep _ hfile hpc
    obtain ⟨x, hx, heq⟩ := Option.map_eq_some_iff.mp hstep
    cases heq
    obtain ⟨hfile', hpc'⟩ := (Section.of_step hx).own hu hfile hpc
    exact ⟨hfile', hpc', fun f hf => absurd hf List.not_mem_nil⟩
  other := by
    intro t k file pc file' pc' fs hstep _ hfile hpc q hq hexclusive
    obtain ⟨x, hx, heq⟩ := Option.map_eq_some_iff.mp hstep
    cases heq
    exact (Section.of_step hx).other hu hpc hq hexclusive
  env := by
    intro e
    exact e.elim

/-- **The run theorem**: the invariant holds in every configuration the servers can get into. It is
the rule for exclusive work, with writing as the work: the file is created by one call at most, so
only one call writes. -/
theorem invariant_of_run (hu : Documented u) (hrun : (machine u path).Run Arrivals boot c) :
    Piece u c.shared ∧ (∀ pc ∈ c.threads, Stands u c.shared pc) ∧ Machine.Exclusive Writing c := by
  refine (exclusiveInvariant hu path).run ⟨fun _ _ => trivial, fun _ => trivial⟩ hrun trivial ?_ ?_ ?_
  · intro b hb
    cases hb
  · exact fun pc hpc => absurd hpc List.not_mem_nil
  · intro t q pc₁ pc₂ _ h₁
    exact absurd (List.mem_of_getElem? h₁) List.not_mem_nil

/-! ## Agreement -/

/-- A complete file stays as it is. The only call that writes has written everything by then. -/
theorem Section.file_eq (hu : Documented u) (hsection : Section u path file pc file' pc')
    (hpc : Stands u file pc) {x : UUID} (hfull : file = some (u.string x)) : file' = file := by
  have hno : ∀ {id rest : GoString}, pc ≠ .writeString id rest := by
    rintro id rest rfl
    obtain ⟨hid, hmore, b, hb, happend⟩ := hpc
    have hlt := length_lt_of_append hu hid hmore happend
    rw [hfull] at hb
    rw [← Option.some.inj hb, hu.length_string] at hlt
    omega
  cases hsection with
  | created => cases hfull
  | wrote n hmore => exact absurd rfl hno
  | written n hall => exact absurd rfl hno
  | broken n => exact absurd rfl hno
  | failed | made | found | unread | drew | late | closed => rfl

/-- Where a later call can be. -/
def Later (id : GoString) (pc : IdentityPC) : Prop :=
  pc = .mkdirAll ∨ pc = .readFile 0 ∨ pc = .returned (.ok id)

/-- With a complete file, a call that nothing fails for reads it in its first pass. -/
theorem step_of_complete (hu : Documented u) (hk : k.outcome = .ok) (x : UUID) :
    identityStep u path k (some (u.string x)) .mkdirAll =
        some (some (u.string x), .readFile 0) ∧
      identityStep u path k (some (u.string x)) (.readFile 0) =
        some (some (u.string x), .returned (.ok (u.string x))) := by
  constructor
  · simp [identityStep, identitySection, hk]
  · simp [identityStep, identitySection, hk, hu.parse_string]

/-- A complete file stays complete along every run. Later servers, failing ones included, find it
and return its UUID. -/
theorem complete_of_run (hu : Documented u) (hrun : (machine u path).Run Arrivals boot c)
    {x : UUID} (hfull : c.shared = some (u.string x)) (hlater : (machine u path).Run Arrivals c d) :
    (machine u path).Run Arrivals boot d ∧ d.shared = some (u.string x) := by
  refine hlater.invariant (I := fun d => (machine u path).Run Arrivals boot d ∧
    d.shared = some (u.string x)) ⟨hrun, hfull⟩ ?_
  rintro c act d ⟨hrun, hfull⟩ harrive hexec
  refine ⟨hrun.tail harrive hexec, ?_⟩
  cases act with
  | spawn pc =>
      obtain rfl := Option.some.inj hexec
      exact hfull
  | env e => exact e.elim
  | run t k =>
      obtain ⟨pc, file', pc', fs, hpc, hstep, rfl⟩ := (machine u path).exec_run_iff.mp hexec
      obtain ⟨y, hy, heq⟩ := Option.map_eq_some_iff.mp hstep
      cases heq
      have hstands := (invariant_of_run hu hrun).2.1 pc (List.mem_of_getElem? hpc)
      exact ((Section.of_step hy).file_eq hu hstands hfull).trans hfull

/-- In a run without failures, the calls that come after the file is complete read it. -/
theorem later_of_run (hu : Documented u) (hrun : (machine u path).Run Arrivals boot c)
    {x : UUID} (hfull : c.shared = some (u.string x)) (hlater : (machine u path).Run Working c d)
    {t : Tid} (ht : c.threads.length ≤ t) (hpc : d.threads[t]? = some pc) :
    Later (u.string x) pc := by
  have hall : (machine u path).Run Arrivals c d ∧
      ∀ t pc, c.threads.length ≤ t → d.threads[t]? = some pc → Later (u.string x) pc := by
    refine hlater.invariant (I := fun d => (machine u path).Run Arrivals c d ∧
      ∀ t pc, c.threads.length ≤ t → d.threads[t]? = some pc → Later (u.string x) pc)
      ⟨.refl, fun t pc ht hpc => ?_⟩ ?_
    · have hlt := (List.getElem?_eq_some_iff.mp hpc).1
      omega
    · -- the file stays complete, so one section of a later caller leads from one of its three
      -- places to the next
      rintro d act e ⟨hbefore, hold⟩ ⟨harrive, hworks⟩ hexec
      refine ⟨hbefore.tail harrive hexec, fun t pc ht hpc => ?_⟩
      rcases Machine.thread_of_exec _ hexec hpc with hsame | rfl | ⟨k, q, fs, rfl, hq, hstep⟩ |
        ⟨v, k, q, q', fs, rfl, hq, hstep, hnew⟩
      · exact hold t pc ht hsame
      · -- it has just been called
        exact .inl (harrive _ rfl)
      · obtain ⟨y, hy, heq⟩ := Option.map_eq_some_iff.mp hstep
        obtain ⟨-, hsecond⟩ := Prod.mk.inj heq
        obtain ⟨rfl, -⟩ := Prod.mk.inj hsecond
        have hk := hworks t k rfl
        rw [(complete_of_run hu hrun hfull hbefore).2] at hy
        rcases hold t q ht hq with rfl | rfl | rfl
        · rw [(step_of_complete hu hk x).1] at hy
          exact .inr (.inl (Prod.mk.inj (Option.some.inj hy)).2.symm)
        · rw [(step_of_complete hu hk x).2] at hy
          exact .inr (.inr (Prod.mk.inj (Option.some.inj hy)).2.symm)
        · unfold identityStep at hy
          rw [if_neg (by simp [hk])] at hy
          cases hy
      · obtain ⟨y, -, heq⟩ := Option.map_eq_some_iff.mp hstep
        obtain ⟨-, hsecond⟩ := Prod.mk.inj heq
        obtain ⟨-, rfl⟩ := Prod.mk.inj hsecond
        exact absurd hnew List.not_mem_nil
  exact hall.2 t pc ht hpc

/-- **Servers that start on one directory share one identity**, for any number of calls, in any
order of their sections, even when accesses fail or processes stop. Once a call has returned `id`,
this is a UUID and the content of the file from then on, and every call that returns a UUID, before or
after, returns `id`. A call that comes later and that nothing fails for returns `id` in its second
section. -/
theorem identity_agreement (hu : Documented u)
    (hrun : (machine u path).Run Arrivals boot c) {t : Tid} {id : GoString}
    (hid : c.threads[t]? = some (IdentityPC.returned (.ok id)))
    (hlater : (machine u path).Run Arrivals c d) :
    IsUUID u id ∧ d.shared = some id ∧
    (∀ (t' : Tid) (id' : GoString),
      d.threads[t']? = some (IdentityPC.returned (.ok id')) → id' = id) ∧
    ((machine u path).Run Working c d → ∀ (t' : Tid) (pc : IdentityPC), c.threads.length ≤ t' →
      d.threads[t']? = some pc → Later id pc) ∧
    ∀ k : Choice, k.outcome = .ok →
      identityStep u path k d.shared .mkdirAll = some (d.shared, .readFile 0) ∧
      identityStep u path k d.shared (.readFile 0) = some (d.shared, .returned (.ok id)) := by
  -- a caller that returns has seen the complete file
  obtain ⟨⟨x, rfl⟩, hfull⟩ : IsUUID u id ∧ c.shared = some id :=
    (invariant_of_run hu hrun).2.1 _ (List.mem_of_getElem? hid)
  obtain ⟨hrun', hfull'⟩ := complete_of_run hu hrun hfull hlater
  refine ⟨⟨x, rfl⟩, hfull', fun t' id' hid' => ?_, fun hworks t' pc ht' hpc => ?_, fun k hk => ?_⟩
  · obtain ⟨-, hsame⟩ : IsUUID u id' ∧ d.shared = some id' :=
      (invariant_of_run hu hrun').2.1 _ (List.mem_of_getElem? hid')
    exact Option.some.inj (hsame.symm.trans hfull')
  · exact later_of_run hu hrun hfull hworks ht' hpc
  · rw [hfull']
    exact step_of_complete hu hk x

namespace Sample

/-- One server finds the file of the other while it is empty, then with ten characters, then complete. -/
def readEarly : List (Act IdentityPC Choice Empty) :=
  [.spawn .mkdirAll, .spawn .mkdirAll, .run 0 {}, .run 1 {},
    .run 0 {}, .run 1 { drawn := Vector.replicate 16 1 }, .run 0 {},
    .run 1 {}, .run 1 {}, .run 0 { bytes := 10 }, .run 1 {}, .run 0 {}, .run 1 {}]

/-- The first server closes the file, and a third one starts. -/
def startLate : List (Act IdentityPC Choice Empty) :=
  [.run 0 {}, .spawn .mkdirAll, .run 2 {}, .run 2 {}]

end Sample

/-- The server that has only read returns first. A third server that starts afterwards returns the
same UUID. -/
theorem identity_agreement_read_early : ∃ c d,
    (machine canonicalUUIDs []).execAll boot Sample.readEarly = some c ∧
    (machine canonicalUUIDs []).execAll c Sample.startLate = some d ∧
    d.shared = some (uuidString (Vector.replicate 16 0)) ∧
    (∀ (t : Tid) (id : GoString), d.threads[t]? = some (IdentityPC.returned (.ok id)) →
      id = uuidString (Vector.replicate 16 0)) ∧
    d.threads = List.replicate 3 (.returned (.ok (uuidString (Vector.replicate 16 0)))) := by
  -- the second caller reads while the first one has written, but not closed the file
  have hearly : ((machine canonicalUUIDs []).execAll boot Sample.readEarly).any (fun c =>
      decide (c.threads[1]? = some (.returned (.ok (uuidString (Vector.replicate 16 0))))) &&
        ((machine canonicalUUIDs []).execAll c Sample.startLate).any fun d => decide
          (d.threads = List.replicate 3 (.returned (.ok (uuidString (Vector.replicate 16 0)))))) := by
    decide +kernel
  obtain ⟨c, hc, hrest⟩ := (Option.any_eq_true _ _).mp hearly
  obtain ⟨hid, hlate⟩ := Bool.and_eq_true_iff.mp hrest
  obtain ⟨d, hd, hthreads⟩ := (Option.any_eq_true _ _).mp hlate
  have harrive : ∀ c, ∀ act ∈ Sample.readEarly ++ Sample.startLate, Arrivals c act := by
    rintro c act hact pc rfl
    simpa [Sample.readEarly, Sample.startLate] using hact
  have hbefore : (machine canonicalUUIDs []).Run Arrivals boot c :=
    .of_execAll (fun c act hact => harrive c act (List.mem_append_left _ hact)) hc
  have hafter : (machine canonicalUUIDs []).Run Arrivals c d :=
    .of_execAll (fun c act hact => harrive c act (List.mem_append_right _ hact)) hd
  obtain ⟨-, hfile, hsame, -, -⟩ :=
    identity_agreement documented_canonicalUUIDs hbefore (of_decide_eq_true hid) hafter
  exact ⟨c, d, hc, hd, hfile, hsame, of_decide_eq_true hthreads⟩

/-! ## A write that fails -/

/-- The call has ended. -/
def IdentityPC.ended : IdentityPC → Bool
  | .returned _ => true
  | .stopped => true
  | _ => false

/-- No call is running. -/
def Quiet (c : ThreadPool.Config (Option GoString) IdentityPC) : Prop :=
  ∀ pc ∈ c.threads, pc.ended = true

/-- **Recovery**: whenever no call is running any more, a call that runs alone and that nothing fails
for returns a UUID, and the next one returns the same. -/
def Recovers (u : UUIDPackage) (path : GoString)
    (c : ThreadPool.Config (Option GoString) IdentityPC) : Prop :=
  ∀ e, (machine u path).Run Arrivals c e → Quiet e →
    ∀ file r, Alone u path (e.shared, .mkdirAll) (file, .returned r) →
      ∃ x, r = .ok (u.string x) ∧ ∀ file' r', Alone u path (file, .mkdirAll) (file', .returned r') →
        r' = r

/-- The call has not created the file and has not returned a UUID. -/
structure Barren (pc : IdentityPC) : Prop where
  write : ∀ id rest, pc ≠ .writeString id rest
  close : ∀ id, pc ≠ .close id
  ok : ∀ id, pc ≠ .returned (.ok id)

/-- A caller that starts over has nothing to return yet. It is either about to read again or has
given up with an error. -/
theorem barren_nextPass (path : GoString) (i : ℕ) : Barren (nextPass path i) := by
  unfold nextPass
  split
  · exact ⟨fun _ _ => by simp, fun _ => by simp, fun _ => by simp⟩
  · exact ⟨fun _ _ => by simp, fun _ => by simp, fun _ => by simp⟩

/-- Next to a file without a UUID, a call stays barren and leaves the file alone. -/
theorem Section.barren {b : GoString} (hparse : u.parse b = none)
    (hsection : Section u path file pc file' pc') (hfile : file = some b) (hpc : Barren pc) :
    file' = some b ∧ Barren pc' := by
  cases hsection with
  | failed hpc hpc' =>
      refine ⟨hfile, ?_⟩
      rcases hpc' with rfl | rfl
      · exact ⟨fun _ _ => by simp, fun _ => by simp, fun _ => by simp⟩
      · exact ⟨fun _ _ => by simp, fun _ => by simp, fun _ => by simp⟩
  | made => exact ⟨hfile, fun _ _ => by simp, fun _ => by simp, fun _ => by simp⟩
  | found hfound =>
      rw [Option.some.inj hfile, hparse] at hfound
      cases hfound
  | unread hparse => exact ⟨hfile, barren_nextPass _ _⟩
  | drew => cases hfile
  | created => cases hfile
  | late => exact ⟨hfile, barren_nextPass _ _⟩
  | wrote n hmore => exact absurd rfl (hpc.write _ _)
  | written n hall => exact absurd rfl (hpc.write _ _)
  | broken n => exact absurd rfl (hpc.write _ _)
  | closed => exact absurd rfl (hpc.close _)

/-- Nobody ever completes a file without a UUID. The text is not accepted, the file exists, and
there is no call left that would go on writing. -/
theorem barren_of_run {b : GoString} (hparse : u.parse b = none) (hfile : c.shared = some b)
    (hbarren : ∀ pc ∈ c.threads, Barren pc) (hlater : (machine u path).Run Arrivals c d) :
    d.shared = some b ∧ ∀ pc ∈ d.threads, Barren pc := by
  -- the file is never written again: the only one who could is the caller whose write has failed
  have hinvariant : (machine u path).LocalInvariant Arrivals (fun _ => True) (· = some b)
      fun _ pc => Barren pc :=
    { spawn := by
        intro c pc harrive
        obtain rfl := harrive pc rfl
        exact ⟨fun _ _ => by simp, fun _ => by simp, fun _ => by simp⟩
      own := by
        intro t k file pc file' pc' fs hstep _ hfile hpc
        obtain ⟨x, hx, heq⟩ := Option.map_eq_some_iff.mp hstep
        cases heq
        obtain ⟨hfile', hpc'⟩ := (Section.of_step hx).barren hparse hfile hpc
        exact ⟨hfile', hpc', fun f hf => absurd hf List.not_mem_nil⟩
      other := by
        intro t k file pc file' pc' fs hstep _ hfile hpc q hq
        exact hq
      env := by
        intro e
        exact e.elim }
  exact hinvariant.run ⟨fun _ _ => trivial, fun _ => trivial⟩ hlater trivial hfile hbarren

/-- Twenty passes of a call that runs alone do not find a UUID. -/
theorem alone_unread {b : GoString} (hparse : u.parse b = none) (n : ℕ) :
    ∀ i, i + n = 19 → Alone u path (some b, .readFile i)
      (some b, .returned (.error (.errorf (goString "invalid service identity in " ++ path)))) := by
  have hpass : ∀ i, identityStep u path {} (some b) (.readFile i) = some (some b, nextPass path i) := by
    intro i
    simp [identityStep, identitySection, hparse]
  induction n with
  | zero =>
      intro i hi
      have hlast : nextPass path i =
          .returned (.error (.errorf (goString "invalid service identity in " ++ path))) :=
        if_neg (by omega)
      rw [← hlast]
      exact .single ⟨{}, rfl, hpass i⟩
  | succ n ih =>
      intro i hi
      have hnext : nextPass path i = .readFile (i + 1) := if_pos (by omega)
      refine .head ⟨{}, rfl, ?_⟩ (ih (i + 1) (by omega))
      rw [hpass i, hnext]

/-- Where a call is that runs alone next to a file without a UUID. -/
def Searching (path : GoString) (pc : IdentityPC) : Prop :=
  pc = .mkdirAll ∨ (∃ i, pc = .readFile i) ∨
    pc = .returned (.error (.errorf (goString "invalid service identity in " ++ path)))

/-- A call that runs alone next to a file without a UUID only searches. -/
theorem searching_of_alone {b : GoString} (hparse : u.parse b = none)
    {x : Option GoString × IdentityPC} (h : Alone u path (some b, .mkdirAll) x) :
    x.1 = some b ∧ Searching path x.2 := by
  induction h with
  | refl => exact ⟨rfl, .inl rfl⟩
  | tail hbefore hstep ih =>
      rename_i x y
      obtain ⟨k, hk, hstep⟩ := hstep
      obtain ⟨file, pc⟩ := x
      obtain ⟨rfl, hpc⟩ := ih
      rcases hpc with rfl | ⟨i, rfl⟩ | rfl
      · simp only [identityStep, identitySection, hk] at hstep
        obtain rfl := Option.some.inj hstep
        -- one pass of the loop: the text is not an identifier, so the next pass follows or the loop
        -- ends
        exact ⟨rfl, .inr (.inl ⟨0, rfl⟩)⟩
      · have hnext : some (some b, nextPass path i) = some y := by
          rw [← hstep]
          simp [identityStep, identitySection, hparse, hk]
        obtain rfl := Option.some.inj hnext
        refine ⟨rfl, ?_⟩
        show Searching path (nextPass path i)
        unfold nextPass
        split
        · exact .inr (.inl ⟨i + 1, rfl⟩)
        · exact .inr (.inr rfl)
      · simp only [identityStep, identitySection, hk] at hstep
        cases hstep

/-- A call that has not ended can stop. A process can be killed at every program point. -/
theorem step_stop (file : Option GoString) (hpc : pc.ended = false) :
    identityStep u path { outcome := .stop } file pc = some (file, .stopped) := by
  cases pc with
  | mkdirAll => rfl
  | readFile i =>
      simp only [identityStep, identitySection]
      cases file with
      | none => rfl
      | some b =>
          cases hparse : u.parse b with
          | none => simp [hparse]
          | some x => simp [hparse]
  | openFile i id => cases file <;> rfl
  | writeString id rest => rfl
  | close id => rfl
  | returned r => cases hpc
  | stopped => cases hpc

/-- The calls that are running can all stop. The induction is on the list of calls, each of which is
stopped where it is. -/
theorem exists_quiet (u : UUIDPackage) (path : GoString)
    (c : ThreadPool.Config (Option GoString) IdentityPC) :
    ∃ e, (machine u path).Run Arrivals c e ∧ Quiet e := by
  -- induction on the number of callers still running; one of them is stopped
  induction hn : c.threads.countP (fun pc => !pc.ended) generalizing c with
  | zero =>
      refine ⟨c, .refl, fun pc hpc => ?_⟩
      have hno := List.countP_eq_zero.mp hn pc hpc
      simpa using hno
  | succ n ih =>
      have hpos : 0 < c.threads.countP fun pc => !pc.ended := by rw [hn]; exact Nat.succ_pos n
      obtain ⟨pc, hmem, hrunning⟩ := List.countP_pos_iff.mp hpos
      obtain ⟨t, ht⟩ := List.mem_iff_getElem?.mp hmem
      have hexec : (machine u path).exec c (.run t { outcome := .stop }) =
          some ⟨c.shared, c.threads.set t .stopped ++ []⟩ := by
        refine (machine u path).exec_run_iff.mpr ⟨pc, c.shared, .stopped, [], ht, ?_, rfl⟩
        show (identityStep u path _ c.shared pc).map _ = _
        rw [step_stop c.shared (by simpa using hrunning)]
        rfl
      have hcount : (c.threads.set t .stopped ++ []).countP (fun pc : IdentityPC => !pc.ended) = n := by
        obtain ⟨hlt, hget⟩ := List.getElem?_eq_some_iff.mp ht
        rw [List.append_nil, List.countP_set hlt, hget, hn, if_pos hrunning]
        exact Nat.add_zero _
      obtain ⟨e, hlater, hquiet⟩ := ih ⟨c.shared, c.threads.set t .stopped ++ []⟩ hcount
      have hfirst : (machine u path).Run Arrivals c ⟨c.shared, c.threads.set t .stopped ++ []⟩ :=
        Machine.Run.refl.tail (fun pc h => by cases h) hexec
      exact ⟨e, hfirst.trans hlater, hquiet⟩

/-- A file without a UUID that nobody writes to stays what it is, and stands in the way. -/
theorem not_recovers_of_unread {b : GoString} (hparse : u.parse b = none) (hfile : c.shared = some b)
    (hbarren : ∀ pc ∈ c.threads, Barren pc) : ¬Recovers u path c := by
  intro hrecovers
  obtain ⟨e, hlater, hquiet⟩ := exists_quiet u path c
  have hfile' := (barren_of_run hparse hfile hbarren hlater).1
  have hstart : Alone u path (some b, .mkdirAll) (some b, .readFile 0) := .single ⟨{}, rfl, rfl⟩
  have hall := hstart.trans (alone_unread hparse 19 0 rfl)
  rw [← hfile'] at hall
  obtain ⟨x, hx, -⟩ := hrecovers e hlater hquiet _ _ hall
  cases hx

namespace Sample

/-- The write of the first server fails after ten characters. -/
def failedWrite : List (Act IdentityPC Choice Empty) :=
  [.spawn .mkdirAll, .run 0 {}, .run 0 {}, .run 0 {}, .run 0 { outcome := .fail, bytes := 10 }]

end Sample

/-- No later server recovers from a failed first write. It stops with ten characters in the file,
which nobody removes or completes. -/
theorem not_recovers_failedWrite : ∃ d,
    (machine canonicalUUIDs []).execAll boot Sample.failedWrite = some d ∧
      d.shared = some ((uuidString (Vector.replicate 16 0)).take 10) ∧
      ¬Recovers canonicalUUIDs [] d := by
  have hrun : (machine canonicalUUIDs []).execAll boot Sample.failedWrite =
      some ⟨some ((uuidString (Vector.replicate 16 0)).take 10), [.returned (.error .os)]⟩ := rfl
  have hparse : canonicalUUIDs.parse ((uuidString (Vector.replicate 16 0)).take 10) = none := by
    decide +kernel
  refine ⟨_, hrun, rfl, not_recovers_of_unread hparse rfl fun pc hpc => ?_⟩
  obtain rfl := List.mem_singleton.mp hpc
  exact ⟨fun _ _ => by simp, fun _ => by simp, fun _ => by simp⟩

/-- Next to an incomplete text, a call that does not write is barren. -/
theorem Stands.barren (hu : Documented u) {b : GoString} (hshort : b.length < 36)
    (h : Stands u (some b) pc) (hidle : ¬Writing (some b) pc) : Barren pc := by
  have hno : ∀ id, IsUUID u id → some b ≠ some id := by
    rintro id ⟨x, rfl⟩ heq
    rw [Option.some.inj heq, hu.length_string] at hshort
    omega
  refine ⟨?_, ?_, ?_⟩
  · rintro id rest rfl
    exact hidle ⟨id, rest, rfl⟩
  · rintro id rfl
    exact hno id h.1 h.2
  · rintro id rfl
    exact hno id h.1 h.2

/-- A write that does not go well ends the call, and may have written something. -/
theorem step_writeString {id rest : GoString} (hk : k.outcome ≠ .ok)
    (hstep : identityStep u path k file (.writeString id rest) = some (file', pc')) :
    (∃ n, file' = file.map (· ++ rest.take n)) ∧ Barren pc' := by
  unfold identityStep at hstep
  split at hstep
  · obtain ⟨-, -, heq⟩ := Option.map_eq_some_iff.mp hstep
    obtain ⟨rfl, rfl⟩ := Prod.mk.inj heq
    exact ⟨⟨0, by simp⟩, fun _ _ => by simp, fun _ => by simp, fun _ => by simp⟩
  · have hfail : k.outcome = .fail := by
      cases hout : k.outcome with
      | ok => exact absurd hout hk
      | fail => rfl
      | stop => exact absurd hout ‹_›
    simp only [identitySection, if_pos hfail] at hstep
    obtain ⟨rfl, rfl⟩ := Prod.mk.inj (Option.some.inj hstep)
    exact ⟨⟨k.bytes, rfl⟩, fun _ _ => by simp, fun _ => by simp, fun _ => by simp⟩

/-- After a write that does not go well there is a file that nobody writes to any more. -/
theorem barren_of_failure (hu : Documented u) (hrun : (machine u path).Run Arrivals boot c) {t : Tid}
    {id rest : GoString} (ht : c.threads[t]? = some (.writeString id rest)) (hk : k.outcome ≠ .ok)
    (hexec : (machine u path).exec c (.run t k) = some d) :
    (∃ b, d.shared = some b) ∧ ∀ pc ∈ d.threads, Barren pc := by
  obtain ⟨-, hthreads, hexclusive⟩ := invariant_of_run hu hrun
  obtain ⟨hid, hmore, b, hb, happend⟩ :
      IsUUID u id ∧ rest ≠ [] ∧ ∃ b, c.shared = some b ∧ b ++ rest = id :=
    hthreads _ (List.mem_of_getElem? ht)
  obtain ⟨q, file', pc', fs, hq, hstep, rfl⟩ := (machine u path).exec_run_iff.mp hexec
  obtain rfl := Option.some.inj (ht.symm.trans hq)
  obtain ⟨y, hy, heq⟩ := Option.map_eq_some_iff.mp hstep
  cases heq
  obtain ⟨⟨n, hwritten⟩, hself⟩ := step_writeString hk hy
  -- the other callers have read nothing from a short file, and none of them writes
  have hothers : ∀ (v : Tid) (pc : IdentityPC), v ≠ t → c.threads[v]? = some pc → Barren pc := by
    intro v pc hne hpc
    have hstands := hthreads pc (List.mem_of_getElem? hpc)
    have hidle : ¬Writing c.shared pc := fun hw =>
      hexclusive v t pc _ hne hpc ht ⟨hw, id, rest, rfl⟩
    rw [hb] at hstands hidle
    exact hstands.barren hu (length_lt_of_append hu hid hmore happend) hidle
  refine ⟨⟨b ++ rest.take n, by rw [hwritten, hb]; rfl⟩, fun pc hpc => ?_⟩
  obtain ⟨v, hv⟩ := List.mem_iff_getElem?.mp hpc
  exact ThreadPool.forall_set_append (Q := fun _ pc => Barren pc) hothers hself
    (fun pc hpc => absurd hpc List.not_mem_nil) v pc hv

/-- **A server that fails while it writes the identity, or stops there, is never recovered from**: in
every run in which the file is short after that, it stays as it is, no call ever returns a UUID, and a
call that runs alone and that nothing fails for returns the error that names the file. -/
theorem never_recovers (hu : Documented u) (hrun : (machine u path).Run Arrivals boot c) {t : Tid}
    {id rest : GoString} (ht : c.threads[t]? = some (.writeString id rest)) (hk : k.outcome ≠ .ok)
    (hexec : (machine u path).exec c (.run t k) = some d)
    (hshort : ∀ b, d.shared = some b → b.length < 36) :
    ¬Recovers u path d ∧
    ∀ e, (machine u path).Run Arrivals d e →
      e.shared = d.shared ∧
      (∀ (t' : Tid) (id' : GoString), e.threads[t']? ≠ some (IdentityPC.returned (.ok id'))) ∧
      ∀ file r, Alone u path (e.shared, .mkdirAll) (file, .returned r) →
        r = .error (.errorf (goString "invalid service identity in " ++ path)) := by
  obtain ⟨⟨b, hb⟩, hbarren⟩ := barren_of_failure hu hrun ht hk hexec
  have hpiece := (invariant_of_run hu (hrun.tail (fun pc h => by cases h) hexec)).1
  -- fewer than 36 bytes are not a whole identifier, so no parse accepts them
  obtain ⟨x, hprefix⟩ := hpiece b hb
  have hparse := hu.parse_eq_none hprefix (hshort b hb)
  refine ⟨not_recovers_of_unread hparse hb hbarren, fun e hlater => ?_⟩
  obtain ⟨hfile, hthreads⟩ := barren_of_run hparse hb hbarren hlater
  refine ⟨hfile.trans hb.symm, fun t' id' hid' => ?_, fun file r halone => ?_⟩
  · exact (hthreads _ (List.mem_of_getElem? hid')).ok id' rfl
  · rw [hfile] at halone
    rcases (searching_of_alone hparse halone).2 with h | ⟨i, h⟩ | h
    · cases h
    · cases h
    · exact IdentityPC.returned.inj h

/-- The first server fails after ten characters. In every run from there on the file keeps these ten
characters. -/
theorem never_recovers_failedWrite : ∃ d,
    (machine canonicalUUIDs []).execAll boot Sample.failedWrite = some d ∧
      ∀ e, (machine canonicalUUIDs []).Run Arrivals d e →
        e.shared = some ((uuidString (Vector.replicate 16 0)).take 10) := by
  let id := uuidString (Vector.replicate 16 0)
  have hrun : (machine canonicalUUIDs []).Run Arrivals boot ⟨some [], [.writeString id id]⟩ := by
    have harrive : ∀ c, ∀ act ∈ Sample.failedWrite.dropLast, Arrivals c act := by
      rintro c act hact pc rfl
      simpa [Sample.failedWrite] using hact
    exact .of_execAll harrive rfl
  have hexec : (machine canonicalUUIDs []).exec ⟨some [], [.writeString id id]⟩
        (.run 0 { outcome := .fail, bytes := 10 }) =
      some ⟨some (id.take 10), [.returned (.error .os)]⟩ := rfl
  have hshort : ∀ b, some ((uuidString (Vector.replicate 16 0)).take 10) = some b →
      b.length < 36 := by
    rintro b hb
    rw [← Option.some.inj hb]
    decide +kernel
  have hnever := never_recovers documented_canonicalUUIDs hrun (t := 0) rfl (by decide) hexec hshort
  exact ⟨_, rfl, fun e hlater => (hnever.2 e hlater).1⟩

end LanRoom.Discovery
