import LanRoom.Mobile.Effects

/-! # The room does not stay offline

When nothing goes on any more, the room is connected, or asks for the PIN, or has its timer armed, or
has left the choice of a server to the user (`never_stuck`), in every run that keeps a rule: a call
of `login` does not fail while nobody else is about to bring the room online. Until then somebody is:
an operation under the present generation, or a `_recover` that has not yet reacted to the failure of
its `attach`. Each section hands this task on. -/

namespace LanRoom.Mobile

open ThreadPool (Act Config)

/-- The **rule** for the steps of a run: when `login` fails, the room is connected, asks for the PIN
or has its timer armed, or another operation has started. -/
def Event.isPatient : Event → Bool
  | .loginFailed token generation connected needsPin retry =>
      connected || needsPin || retry || token ≠ generation
  | _ => true

/-- There is nothing to do: the room is gone, connected, or waits for the user or for its timer. -/
def Room.IsSafe (s : Room) : Prop :=
  s.disposed = true ∨ s.connected = true ∨ s.needsPin = true ∨ s.retry = true ∨ s.leftToUser = true

/-- The operation is about to bring the room online. -/
def Op.Tries (s : Room) : Op → Prop
  | .idle => False
  | .attach _ a => a.token = s.generation ∧ (∀ reached, a.pc ≠ .returned reached) ∧
      a.pc ≠ .opening .returned
  | .search x => x.token = s.generation
  | .login l => match l.pc with
    | .opening token pc => token = s.generation ∧ pc ≠ .returned
    | .returned => False
    | _ => l.token = s.generation

/-- `_recover` has not yet reacted to the failure of its `attach`. -/
def Op.Rebuffed : Op → Prop
  | .attach caller a => caller = .recover ∧ a.pc = .returned false
  | _ => False

/-- Nothing is to be done, or the operation does it. -/
def Op.Attends (s : Room) (op : Op) : Prop := s.IsSafe ∨ op.Tries s

/-- `_open` closes its socket again only when another operation has started. -/
def Op.Yields (s : Room) : Op → Prop
  | .attach _ a => a.pc = .opening .closeStale → a.token ≠ s.generation ∨ s.disposed = true
  | .login l => ∀ token, l.pc = .opening token .closeStale →
      token ≠ s.generation ∨ s.disposed = true
  | _ => True

/-! ## Flags -/

/-- A room stays safe when none of the reasons for it is lost. The one reason that may be exchanged
for another is that the room is connected. -/
theorem Room.IsSafe.mono {s s' : Room} (h : s.IsSafe)
    (hdisposed : s.disposed = true → s'.disposed = true)
    (hconnected : s.connected = true → s'.IsSafe) (hneedsPin : s.needsPin = true → s'.needsPin = true)
    (hretry : s.retry = true → s'.retry = true) (hleft : s.leftToUser = true → s'.leftToUser = true) :
    s'.IsSafe := by
  rcases h with h | h | h | h | h
  · exact .inl (hdisposed h)
  · exact hconnected h
  · exact .inr (.inr (.inl (hneedsPin h)))
  · exact .inr (.inr (.inr (.inl (hretry h))))
  · exact .inr (.inr (.inr (.inr (hleft h))))

/-- The flags are as they were. A section that only waits or reads is of this kind. -/
theorem Room.IsSafe.congr {s s' : Room} (h : s.IsSafe) (hdisposed : s'.disposed = s.disposed)
    (hconnected : s'.connected = s.connected) (hneedsPin : s'.needsPin = s.needsPin)
    (hretry : s'.retry = s.retry) (hleft : s'.leftToUser = s.leftToUser) : s'.IsSafe := by
  simpa only [Room.IsSafe, hdisposed, hconnected, hneedsPin, hretry, hleft] using h

/-- What the flags do not notice leaves a room safe. All five reasons are among the fields it leaves
alone. -/
theorem Quiet.safe {s s' : Room} (h : Quiet s s') (hs : s.IsSafe) : s'.IsSafe :=
  hs.congr h.disposed h.connected h.needsPin h.retry h.leftToUser

/-- The timer is armed unless the room is gone. In both cases there is nothing more to do. -/
theorem Room.safe_schedule (s : Room) : s.schedule.IsSafe := by
  cases hdisposed : s.disposed with
  | true => exact .inl hdisposed
  | false =>
      refine .inr (.inr (.inr (.inl ?_)))
      simp [schedule, hdisposed]

/-! ## Operations that have just been called -/

/-- An `attach` that has just been called tries to get the room back. Its token is the generation
that it has just begun. -/
theorem Room.attach_tries (s : Room) (server : FoundServer) (caller : Caller) :
    (Op.attach caller (s.attach server).2).Tries (s.attach server).1 := by
  refine ⟨rfl, ?_, ?_⟩
  · intro reached hpc
    cases hpc
  · intro hpc
    cases hpc

/-- A search that is called while no operation is busy attends to the room. It has begun a
generation of its own, or the room is gone. -/
theorem Room.search_attends {s : Room} (hbusy : s.busy = false) (another : Bool) :
    (s.search another).2.op.Attends (s.search another).1 := by
  unfold search
  split
  · rename_i hstop
    rcases hstop with hbusy' | hdisposed
    · rw [hbusy] at hbusy'
      cases hbusy'
    · exact .inl (.inl hdisposed)
  · exact .inr rfl

/-- So does what `_recover` does after a failed `attach`: it searches or arms the timer. A room that
is gone or waits for the PIN has nothing to be done for it. -/
theorem Room.fallBack_attends {s : Room} (hbusy : s.busy = false) (server : Option FoundServer) :
    (s.fallBack server).2.op.Attends (s.fallBack server).1 := by
  unfold fallBack
  split
  · rename_i hstop
    rcases hstop with hdisposed | hbusy' | hneedsPin
    · exact .inl (.inl hdisposed)
    · rw [hbusy] at hbusy'
      cases hbusy'
    · exact .inl (.inr (.inr (.inl hneedsPin)))
  · split
    · exact search_attends hbusy false
    · exact .inl s.safe_schedule

/-- And `_recover` itself. It starts an operation of its own or falls back, unless the room is
gone. -/
theorem Room.recover_attends {s : Room} (hbusy : s.busy = false) :
    s.recover.2.op.Attends s.recover.1 := by
  unfold recover
  split
  · rename_i hstop
    rcases hstop with hbusy' | hdisposed
    · rw [hbusy] at hbusy'
      cases hbusy'
    · exact .inl (.inl hdisposed)
  · split
    · exact .inr (s.attach_tries _ .recover)
    · exact fallBack_attends hbusy none

/-! ## How a section hands the task on -/

/-- What a section does to the task: it is not lost. -/
structure Relay (s : Room) (op : Op) (s' : Room) (op' : Op) : Prop where
  /-- Who starts a new generation takes the task over. -/
  renewed : s'.generation = s.generation ∨ op'.Attends s'
  safe : s.IsSafe → op'.Attends s'
  /-- Who gives it up leaves it to `_recover`. -/
  tries : op.Tries s → s'.generation = s.generation →
    op'.Attends s' ∨ op'.Rebuffed ∧ s'.busy = false
  busy : s'.busy = true → s.busy = true ∨ op'.Attends s'
  /-- `_recover` leaves it to whoever is busy. -/
  rebuffed : op.Rebuffed → op'.Attends s' ∨ s.busy = true ∧ s' = s

/-- A section that ends with someone attending to the room hands the task on. All five clauses of
the relation follow from it at once. -/
theorem Relay.of_attends {s s' : Room} {op op' : Op} (h : op'.Attends s') : Relay s op s' op' :=
  ⟨.inr h, fun _ => h, fun _ _ => .inl h, fun _ => .inr h, fun _ => .inl h⟩

/-- A section of an operation that does not have the task. Such an operation has been replaced or
has ended. -/
theorem Relay.of_not {s s' : Room} {op op' : Op} (htries : ¬op.Tries s) (hrebuffed : ¬op.Rebuffed)
    (hgeneration : s'.generation = s.generation) (hsafe : s.IsSafe → s'.IsSafe)
    (hbusy : s'.busy = true → s.busy = true) : Relay s op s' op' where
  renewed := .inl hgeneration
  safe := fun hs => .inl (hsafe hs)
  tries := fun h => absurd h htries
  busy := fun h => .inl (hbusy h)
  rebuffed := fun h => absurd h hrebuffed

/-- A section of an operation that keeps the task if it has it. It has waited or has gone on to its
next program point. -/
theorem Relay.of_tries {s s' : Room} {op op' : Op} (hrebuffed : ¬op.Rebuffed)
    (hgeneration : s'.generation = s.generation) (hsafe : s.IsSafe → s'.IsSafe)
    (hbusy : s'.busy = true → s.busy = true) (htries : op.Tries s → op'.Attends s') :
    Relay s op s' op' where
  renewed := .inl hgeneration
  safe := fun hs => .inl (hsafe hs)
  tries := fun h _ => .inl (htries h)
  busy := fun h => .inl (hbusy h)
  rebuffed := fun h => absurd h hrebuffed

/-- The newest `_open` ends with the room connected, or goes on. It is used for `attach` and for
`login`, which both run it. -/
theorem openStep_attends {token : ℕ} {k : Outcome} {s s' : Room} {pc pc' : OpenPC}
    (h : openStep token k s pc = some (s', pc'))
    (hyields : pc = .closeStale → token ≠ s.generation ∨ s.disposed = true) :
    s'.generation = s.generation ∧ (s.IsSafe → s'.IsSafe) ∧ s'.busy = s.busy ∧
      (token = s.generation → s'.IsSafe ∨ pc' ≠ .returned) := by
  rcases openStep_quiet h with ⟨ws, rfl, rfl, rfl⟩ | ⟨hquiet, hreturned, -⟩
  · have hconnected : (openConnected token s ws).1.connected = true ∧
        (openConnected token s ws).1.generation = s.generation ∧
        (openConnected token s ws).1.busy = s.busy := by
      unfold openConnected
      simp only
      split <;> exact ⟨rfl, rfl, rfl⟩
    exact ⟨hconnected.2.1, fun _ => .inr (.inl hconnected.1), hconnected.2.2,
      fun _ => .inl (.inr (.inl hconnected.1))⟩
  · refine ⟨hquiet.generation, hquiet.safe, hquiet.busy, fun htoken => ?_⟩
    by_cases hend : pc' = .returned
    · -- only a stale `_open` ends without a connection
      rcases hyields (hreturned hend) with hstale | hdisposed
      · exact absurd htoken hstale
      · exact .inl (.inl (hquiet.disposed.trans hdisposed))
    · exact .inr hend

/-- A section of `attach`. It goes on trying, has connected the room, or leaves the task to its
caller. -/
theorem Attach.relay {caller : Caller} {a a' : Attach} {k : Outcome} {s s' : Room}
    (h : a.step caller.isSilent k s = some (s', a')) (hyields : (Op.attach caller a).Yields s) :
    Relay s (.attach caller a) s' (.attach caller a') := by
  have hrebuffed : ¬(Op.attach caller a).Rebuffed := by
    rintro ⟨-, hpc⟩
    unfold step at h
    rw [hpc] at h
    cases h
  have hsame : ∀ {s₁ : Room} {reached : Bool}, s₁.IsSafe → (a.finish s₁ reached).1.IsSafe :=
    fun hs₁ => hs₁.congr rfl rfl rfl rfl rfl
  have hbusy : ∀ {s₁ : Room} {reached : Bool}, (a.finish s₁ reached).1.busy = true → s₁.busy = true :=
    fun h => (Bool.and_eq_true _ _ |>.mp h).1
  cases Attach.effect h with
  | renew hpc =>
      obtain ⟨s₁, client, hquiet, heq⟩ := s.renew_eq a.token a.server
      rw [heq]
      refine .of_tries hrebuffed hquiet.generation ?_ (fun h => hquiet.busy ▸ h) fun htries => ?_
      · intro hs
        exact (hquiet.safe hs).congr rfl rfl rfl rfl rfl
      · refine .inr ⟨htries.1.trans hquiet.generation.symm, ?_, ?_⟩ <;> simp
  | @quiet _ pc _ hpc hquiet =>
      refine .of_tries hrebuffed hquiet.generation hquiet.safe (fun h => hquiet.busy ▸ h) fun htries => ?_
      refine .inr ⟨htries.1.trans hquiet.generation.symm, ?_, ?_⟩
      · rintro reached rfl
        exact hpc
      · rintro rfl
        exact hpc
  | caught _ =>
      unfold caught
      split
      · rename_i hstale
        refine .of_tries hrebuffed rfl hsame hbusy fun htries => .inl (hsame ?_)
        rcases hstale with hstale | hdisposed
        · exact absurd htries.1 hstale
        · exact .inl hdisposed
      · rename_i hcurrent
        obtain ⟨htoken, -⟩ := not_or.mp hcurrent
        split
        · rename_i hsilent
          -- `_recover` has to react
          refine ⟨.inl rfl, fun hs => .inl (hsame hs), fun _ _ => .inr ⟨⟨?_, rfl⟩, ?_⟩,
            fun h => .inl (hbusy h), fun h => absurd h hrebuffed⟩
          · cases caller with
            | recover => rfl
            | user => cases hsilent
            | search token => cases hsilent
          · simp [finish, not_not.mp htoken]
        · exact .of_attends (.inl (hsame s.safe_schedule))
  | stale _ hstale =>
      refine .of_tries hrebuffed rfl hsame hbusy fun htries => .inl (hsame ?_)
      rcases hstale with hstale | hdisposed
      · exact absurd htries.1 hstale
      · exact .inl hdisposed
  | askPin next _ _ _ =>
      refine .of_attends (.inl (hsame (.inr (.inr (.inl ?_)))))
      rfl
  | openSocket _ htoken _ =>
      refine .of_tries hrebuffed rfl (fun hs => hs.congr rfl rfl rfl rfl rfl) id fun _ => ?_
      refine .inr ⟨htoken, ?_, ?_⟩ <;> simp
  | @opening _ pc pc' hpc hopen =>
      have hyields' : pc = .closeStale → a.token ≠ s.generation ∨ s.disposed = true := by
        rintro rfl
        exact hyields hpc
      obtain ⟨hgeneration, hsafe, hbusy', hends⟩ := openStep_attends hopen hyields'
      refine .of_tries hrebuffed hgeneration hsafe (fun h => hbusy' ▸ h) fun htries => ?_
      rcases hends htries.1 with hdone | hgoes
      · exact .inl hdone
      · refine .inr ⟨htries.1.trans hgeneration.symm, ?_, ?_⟩
        · simp
        · simpa using hgoes
  | opened hpc =>
      refine .of_not ?_ hrebuffed rfl hsame hbusy
      rintro ⟨-, -, hnot⟩
      exact hnot hpc

/-- A section of `search`. It goes on trying, hands over to `attach`, or arms the timer at its
end. -/
theorem Search.relay {x x' : Search} {k : Outcome} {s s' : Room} (hx : x.op = .search x)
    (h : x.step k s = some (s', x')) : Relay s (.search x) s' x'.op := by
  have hrebuffed : ¬(Op.search x).Rebuffed := id
  have hsame : ∀ {s₁ : Room}, s₁.IsSafe → (x.finish s₁).1.IsSafe :=
    fun hs₁ => hs₁.congr rfl rfl rfl rfl rfl
  cases Search.effect hx h with
  | release hpc =>
      obtain ⟨s₁, hquiet, heq⟩ := s.release_eq x.token
      rw [heq]
      refine .of_tries hrebuffed hquiet.generation ?_ (fun h => hquiet.busy ▸ h) fun htries => ?_
      · intro hs
        exact (hquiet.safe hs).congr rfl rfl rfl rfl rfl
      · exact .inr (Eq.trans htries hquiet.generation.symm)
  | @quiet _ pc _ hpc hquiet =>
      have hop : ({ x with pc } : Search).op = .search { x with pc } := by
        apply Search.op_of_ne
        · rintro a rfl
          exact hpc
        · rintro rfl
          exact hpc
      rw [hop]
      refine .of_tries hrebuffed hquiet.generation hquiet.safe (fun h => hquiet.busy ▸ h) fun htries => ?_
      exact .inr (Eq.trans htries hquiet.generation.symm)
  | caught _ => exact .of_attends (.inl (hsame s.safe_schedule))
  | @stale s₁ _ hquiet hstale =>
      refine .of_tries hrebuffed hquiet.generation (fun hs => hsame (hquiet.safe hs)) ?_ ?_
      · intro hbusy
        rw [← hquiet.busy]
        exact (Bool.and_eq_true _ _ |>.mp hbusy).1
      · intro htries
        refine .inl (hsame ?_)
        rcases hstale with hdisposed | hstale
        · exact .inl hdisposed
        · exact absurd (Eq.trans htries hquiet.generation.symm) hstale
  | startAttach servers server _ _ _ _ => exact .of_attends (.inr (Room.attach_tries _ server _))
  | @leave s₁ servers _ _ _ hdisposed =>
      refine .of_attends (.inl (hsame ?_))
      -- with a choice it is the user's turn, without one the timer is armed
      by_cases hempty : servers = []
      · refine .inr (.inr (.inr (.inl ?_)))
        simp [Room.leave, Room.schedule, hempty, hdisposed]
      · refine .inr (.inr (.inr (.inr ?_)))
        simp [Room.leave, hempty]

/-- A section of `login`. The rule excludes the end in which it has given up without arming the
timer. -/
theorem Login.relay {l l' : Login} {k : Outcome} {s s' : Room} (h : l.step k s = some (s', l'))
    (hyields : (Op.login l).Yields s) (hrule : ∀ e ∈ s'.log, e.isPatient = true) :
    Relay s (.login l) s' l'.op := by
  have hrebuffed : ¬(Op.login l).Rebuffed := id
  have hsame : ∀ {s₁ : Room}, s₁.IsSafe → (l.finish s₁).1.IsSafe :=
    fun hs₁ => hs₁.congr rfl rfl rfl rfl rfl
  have hfree : ∀ {s₁ : Room} {P : Prop}, (l.finish s₁).1.busy = true → P := by
    intro s₁ P hbusy
    cases hbusy
  have hearly : l.pc.IsEarly → (Op.login l).Tries s → l.token = s.generation := by
    intro hl htries
    simp only [Op.Tries] at htries
    split at htries
    · rename_i hpc
      rw [hpc] at hl
      exact hl.elim
    · exact htries.elim
    · exact htries
  cases Login.effect h with
  | @quiet _ pc hl hpc hquiet =>
      refine .of_tries hrebuffed hquiet.generation hquiet.safe (fun h => hquiet.busy ▸ h) fun htries => ?_
      refine .inr ?_
      have htoken := (hearly hl htries).trans hquiet.generation.symm
      cases pc with
      | post r => exact htoken
      | write => exact htoken
      | _ => exact hpc.elim
  | stale hl hstale =>
      refine .of_tries hrebuffed rfl hsame hfree fun htries => .inl (hsame ?_)
      rcases hstale with hdisposed | hstale
      · exact .inl hdisposed
      · exact absurd (hearly hl htries) hstale
  | @caught token hl =>
      have hfailed := hrule (.loginFailed token s.generation s.connected s.needsPin s.retry)
        (List.mem_cons_of_mem _ List.mem_cons_self)
      refine .of_tries hrebuffed rfl (fun hs => hsame (hs.congr rfl rfl rfl rfl rfl)) hfree fun htries => ?_
      -- the rule says that the task is done, or was not its own
      have htoken : token = s.generation := by
        rcases hl with ⟨hl, rfl⟩ | hpc
        · exact hearly hl htries
        · simp only [Op.Tries, hpc] at htries
          exact htries.1
      have hdone : (s.connected = true ∨ s.needsPin = true) ∨ s.retry = true := by
        simpa [Event.isPatient, htoken] using hfailed
      refine .inl (hsame ?_)
      rcases hdone with (hconnected | hneedsPin) | hretry
      · exact .inr (.inl hconnected)
      · exact .inr (.inr (.inl hneedsPin))
      · exact .inr (.inr (.inr (.inl hretry)))
  | stored _ =>
      refine .of_attends (.inr ?_)
      refine ⟨rfl, ?_⟩
      simp [Room.openSocket]
  | @opening _ token pc pc' hpc hopen =>
      have hyields' : pc = .closeStale → token ≠ s.generation ∨ s.disposed = true := by
        rintro rfl
        exact hyields token hpc
      obtain ⟨hgeneration, hsafe, hbusy, hends⟩ := openStep_attends hopen hyields'
      refine .of_tries hrebuffed hgeneration hsafe (fun h => hbusy ▸ h) fun htries => ?_
      simp only [Op.Tries, hpc] at htries
      rcases hends htries.1 with hdone | hgoes
      · exact .inl hdone
      · exact .inr ⟨htries.1.trans hgeneration.symm, hgoes⟩
  | opened hpc =>
      refine .of_not ?_ hrebuffed rfl hsame hfree
      simp [Op.Tries, hpc]

/-- **Every section hands the task on.** There is one case for each of the operations. -/
theorem Section.relay {k : Outcome} {s s' : Room} {op op' : Op} (h : Section k s op s' op')
    (hyields : op.Yields s) (hrule : ∀ e ∈ s'.log, e.isPatient = true) :
    Relay s op s' op' := by
  have hidle : ∀ {s₁ : Room} {op₁ : Op}, s₁.generation = s.generation → (s.IsSafe → s₁.IsSafe) →
      (s₁.busy = true → s.busy = true) → Relay s .idle s₁ op₁ := fun hg hs hb => .of_not id id hg hs hb
  cases h with
  | attach h => exact Attach.relay h hyields
  | search hx h => exact Search.relay hx h
  | login h => exact Login.relay h hyields hrule
  | @returned caller a reached ha hcaller =>
      refine .of_not ?_ ?_ rfl id id
      · rintro ⟨-, hnot, -⟩
        exact hnot reached ha
      · rintro ⟨hrecover, hfailed⟩
        rw [ha] at hfailed
        cases hfailed
        rcases hcaller with huser | ⟨-, htrue⟩
        · rw [huser] at hrecover
          cases hrecover
        · cases htrue
  | @searched x a reached ha =>
      refine .of_not ?_ ?_ rfl (fun hs => hs.congr rfl rfl rfl rfl rfl) ?_
      · rintro ⟨-, hnot, -⟩
        exact hnot reached ha
      · rintro ⟨hrecover, -⟩
        cases hrecover
      · intro hbusy
        exact (Bool.and_eq_true _ _ |>.mp hbusy).1
  | @fallBack a ha =>
      cases hbusy : s.busy with
      | false => exact .of_attends (Room.fallBack_attends hbusy _)
      | true =>
          have hreturns : s.fallBack (some a.server) = (s, .returned) := by
            unfold Room.fallBack
            rw [if_pos (.inr (.inl hbusy))]
          rw [hreturns]
          refine ⟨.inl rfl, fun hs => .inl hs, fun htries _ => ?_, fun _ => .inl hbusy,
            fun _ => .inr ⟨hbusy, rfl⟩⟩
          exact absurd ha (htries.2.1 false)
  | quiet hquiet => exact hidle hquiet.generation hquiet.safe fun h => hquiet.busy ▸ h
  | startAttach server hquiet => exact .of_attends (.inr (Room.attach_tries _ server _))
  | @startSearch s₁ another hquiet =>
      cases hbusy : s₁.busy with
      | false => exact .of_attends (Room.search_attends hbusy another)
      | true =>
          have hreturns : s₁.search another = (s₁, ⟨s₁.generation, another, .returned⟩) := by
            unfold Room.search
            rw [if_pos (.inl hbusy)]
          rw [hreturns]
          exact hidle hquiet.generation hquiet.safe fun h => hquiet.busy ▸ h
  | startLogin =>
      unfold Room.login
      split
      · exact .of_attends (.inr rfl)
      · exact hidle rfl id id
  | restart hquiet hbusy => exact .of_attends (Room.recover_attends hbusy)
  | fireRetry =>
      unfold Room.fireRetry
      split
      · rename_i hfires
        exact .of_attends (Room.recover_attends hfires.2.1)
      · split
        · exact .of_attends (.inl (Room.safe_schedule _))
        · rename_i hrests
          refine .of_attends (.inl ?_)
          by_cases hdisposed : s.disposed = true
          · exact .inl hdisposed
          · refine .inr (.inl ?_)
            by_contra hconnected
            exact hrests ⟨Bool.not_eq_true _ |>.mp hdisposed, Bool.not_eq_true _ |>.mp hconnected⟩
  | lost hx _ =>
      unfold Room.lostSocket Room.lost
      split
      · exact hidle rfl (fun hs => hs.congr rfl rfl rfl rfl rfl) id
      · simp only
        split
        · rename_i hgoes
          exact .of_attends (Room.recover_attends hgoes.2)
        · exact .of_attends (.inl (Room.safe_schedule _))
  | handleExpired e =>
      refine hidle rfl (fun hs => hs.mono id (fun hconnected => ?_) (fun h => ?_) id id) id
      · -- the connection is given up for the PIN
        by_cases hexpired : e = .status 401
        · refine .inr (.inr (.inl ?_))
          simp [Room.handleExpired, hexpired]
        · refine .inr (.inl ?_)
          simp [Room.handleExpired, hexpired, hconnected]
      · simp [Room.handleExpired, h]
  | dispose => exact .of_attends (.inl (.inl rfl))

/-! ## What each thread knows -/

/-- **Rule for the operation after a section**: what holds of an idle thread and of an operation
that has just been called, and what the operations preserve, holds of the operation after every
section. -/
theorem Section.establish {P : Room → Op → Prop} {k : Outcome} {s s' : Room} {op op' : Op}
    (h : Section k s op s' op') (hidle : ∀ s₁, P s₁ .idle)
    (hattach : ∀ (s₁ : Room) (server : FoundServer) (caller : Caller),
      (∀ token, caller = .search token → token ≤ s₁.generation) →
      P (s₁.attach server).1 (.attach caller (s₁.attach server).2))
    (hsearch : ∀ (s₁ : Room) (another : Bool), P (s₁.search another).1 (s₁.search another).2.op)
    (hlogin : P s.login.1 s.login.2.op)
    (attachGoes : ∀ (caller : Caller) (a a' : Attach), op = .attach caller a →
      a.step caller.isSilent k s = some (s', a') → P s' (.attach caller a'))
    (searchGoes : ∀ x x' : Search, op = .search x → x.op = .search x →
      x.step k s = some (s', x') → P s' x'.op)
    (loginGoes : ∀ l l' : Login, op = .login l → l.step k s = some (s', l') → P s' l'.op) :
    P s' op' := by
  -- the two methods that call operations from within are followed once
  have hfallBack : ∀ (s₁ : Room) (server : Option FoundServer),
      P (s₁.fallBack server).1 (s₁.fallBack server).2.op := by
    intro s₁ server
    unfold Room.fallBack
    split
    · exact hidle s₁
    · split
      · exact hsearch s₁ false
      · exact hidle _
  have hrecover : ∀ s₁ : Room, P s₁.recover.1 s₁.recover.2.op := by
    intro s₁
    unfold Room.recover
    split
    · exact hidle s₁
    · split
      · exact hattach s₁ _ .recover (by simp)
      · exact hfallBack s₁ none
  cases h with
  | attach h => exact attachGoes _ _ _ rfl h
  | search hx h => exact searchGoes _ _ rfl hx h
  | login h => exact loginGoes _ _ rfl h
  | returned _ _ => exact hidle s
  | searched _ => exact hidle _
  | fallBack _ => exact hfallBack s _
  | quiet _ => exact hidle _
  | startAttach server _ => exact hattach _ server .user (by simp)
  | startSearch another _ => exact hsearch _ another
  | startLogin => exact hlogin
  | restart _ _ => exact hrecover _
  | fireRetry =>
      unfold Room.fireRetry
      split
      · exact hrecover _
      · split <;> exact hidle _
  | lost _ _ =>
      unfold Room.lostSocket Room.lost
      split
      · exact hidle _
      · simp only
        split
        · exact hrecover _
        · exact hidle _
  | handleExpired e => exact hidle _
  | dispose => exact hidle _

/-- The tokens of an operation stay behind the generation. A token is taken from the generation when
it is begun. -/
theorem Section.valid {k : Outcome} {s s' : Room} {op op' : Op} (h : Section k s op s' op')
    (hop : op.Valid s) (hlater : s.generation ≤ s'.generation) : op'.Valid s' := by
  -- `attach` takes a new token, which lies above that of the search that has called it
  have hattach : ∀ (s₁ : Room) (server : FoundServer) (caller : Caller),
      (∀ token, caller = .search token → token ≤ s₁.generation) →
      (Op.attach caller (s₁.attach server).2).Valid (s₁.attach server).1 := by
    intro s₁ server caller hcaller
    exact ⟨le_refl _, fun token htoken => Nat.lt_succ_of_le (hcaller token htoken)⟩
  apply h.establish
  · intro s₁
    trivial
  · exact hattach
  · intro s₁ another
    unfold Room.search
    split
    · trivial
    · exact le_refl (s₁.generation + 1)
  · unfold Room.login
    split
    · refine ⟨le_refl _, fun token pc hpc => ?_⟩
      cases hpc
    · trivial
  · rintro caller a a' rfl hstep
    obtain ⟨htoken, -⟩ := Attach.step_same hstep
    refine ⟨?_, fun token hcaller => ?_⟩
    · rw [htoken]
      exact hop.1.trans hlater
    · rw [htoken]
      exact hop.2 token hcaller
  · rintro x x' rfl hx hstep
    have hle : x.token ≤ s'.generation := Nat.le_trans hop hlater
    cases Search.effect hx hstep with
    -- the search is still current when it attaches
    | startAttach servers server _ _ hnewest _ =>
        refine hattach _ server (.search x.token) ?_
        intro token hcaller
        cases hcaller
        exact hnewest.le
    | @quiet _ pc _ hpc _ =>
        cases pc with
        | attach a => exact hpc.elim
        | returned => exact hpc.elim
        | _ => exact hle
    | release _ => exact hle
    | caught _ => trivial
    | stale _ _ _ => trivial
    | leave _ _ _ _ _ => trivial
  · rintro l l' rfl hstep
    obtain ⟨htoken, -⟩ := Login.step_same hstep
    unfold Login.op
    split
    · trivial
    · refine ⟨?_, fun token pc hpc => ?_⟩
      · rw [htoken]
        exact hop.1.trans hlater
      · -- inside `_open` the token is the one it was called with
        rcases Login.opening_step hstep hpc with ⟨pc₀, hpc₀, -⟩ | ⟨-, rfl, rfl, -⟩
        · exact (hop.2 token pc₀ hpc₀).trans hlater
        · exact hlater

/-- `_open` closes its socket again when it has found itself stale. That is checked in the same
section in which it goes there. -/
theorem Section.yields {k : Outcome} {s s' : Room} {op op' : Op} (h : Section k s op s' op') :
    op'.Yields s' := by
  -- `_open` closes its socket as stale only after it has seen another generation or the end of the
  -- room
  have hopen : ∀ {token : ℕ} {s₁ s₂ : Room} {pc : OpenPC},
      openStep token k s₁ pc = some (s₂, .closeStale) → token ≠ s₂.generation ∨ s₂.disposed = true := by
    intro token s₁ s₂ pc h
    rcases openStep_quiet h with ⟨ws, -, -, hpc⟩ | ⟨hquiet, -, hstale⟩
    · unfold openConnected at hpc
      simp only at hpc
      split at hpc <;> cases hpc
    · rw [hquiet.generation, hquiet.disposed]
      exact hstale rfl
  apply h.establish
  · intro s₁
    trivial
  · intro s₁ server caller _ hpc
    cases hpc
  · intro s₁ another
    unfold Room.search
    split <;> trivial
  · unfold Room.login
    split
    · intro token hpc
      cases hpc
    · trivial
  · rintro caller a a' rfl hstep hpc
    -- of the places of `attach` only `_open` can be at `closeStale`
    obtain ⟨htoken, ⟨pc, -, hinner⟩ | ⟨-, -, heq⟩⟩ := Attach.opening_step hstep hpc
    · rw [htoken]
      exact hopen hinner
    · cases heq
  · rintro x x' rfl hx hstep
    cases Search.effect hx hstep with
    | startAttach servers server _ _ _ _ =>
        intro hpc
        cases hpc
    | @quiet _ pc _ hpc _ =>
        cases pc with
        | attach a => exact hpc.elim
        | _ => trivial
    | release _ => trivial
    | caught _ => trivial
    | stale _ _ _ => trivial
    | leave _ _ _ _ _ => trivial
  · rintro l l' rfl hstep
    unfold Login.op
    split
    · trivial
    · intro token hpc
      rcases Login.opening_step hstep hpc with ⟨pc, -, hinner⟩ | ⟨-, -, -, heq⟩
      · exact hopen hinner
      · cases heq

/-- What a thread knows of its tokens lasts while others move. The generation only grows, and a room
that is gone stays so. -/
theorem Op.later {s s' : Room} {op : Op} (hlater : Later s s') (hvalid : op.Valid s)
    (hyields : op.Yields s) : op.Valid s' ∧ op.Yields s' := by
  have hkept : ∀ token, token ≤ s.generation → token ≠ s.generation ∨ s.disposed = true →
      token ≠ s'.generation ∨ s'.disposed = true := by
    intro token hle hstale
    have hgeneration := hlater.generation
    rcases hstale with hstale | hdisposed
    · left
      omega
    · right
      exact hlater.disposed hdisposed
  refine ⟨hvalid.later hlater.generation, ?_⟩
  cases op with
  | attach caller a => exact fun hpc => hkept a.token hvalid.1 (hyields hpc)
  | login l => exact fun token hpc => hkept token (hvalid.2 token _ hpc) (hyields token hpc)
  | _ => trivial

/-! ## The invariant of a run -/

/-- `initialize` has called `search`, or has returned. -/
def Thread.HasSearched : Thread → Prop
  | .initializing (.search _) | .initializing .returned => True
  | _ => False

/-- Somebody in the pool attends to the task. -/
def Attended (c : Config Room Thread) : Prop :=
  c.shared.IsSafe ∨ ∃ th ∈ c.threads, th.op.Tries c.shared

/-- The **invariant**. -/
structure Online (c : Config Room Thread) : Prop where
  knows : ∀ th ∈ c.threads, th.op.Valid c.shared ∧ th.op.Yields c.shared
  /-- Whoever is busy attends to the task. -/
  busy : c.shared.busy = true → Attended c
  /-- After the first search the task is attended to, or falls to `_recover`. -/
  searched : (∃ th ∈ c.threads, th.HasSearched) → Attended c ∨ ∃ th ∈ c.threads, th.op.Rebuffed

/-- The task of an operation depends on the generation only. The flags may change in the
meantime. -/
theorem Op.Tries.congr {s s' : Room} (h : s'.generation = s.generation) {op : Op}
    (hop : op.Tries s) : op.Tries s' := by
  cases op with
  | idle => exact hop
  | attach caller a => exact ⟨hop.1.trans h.symm, hop.2⟩
  | search x => exact Eq.trans hop h.symm
  | login l =>
      simp only [Op.Tries] at hop ⊢
      split at hop
      · exact ⟨hop.1.trans h.symm, hop.2⟩
      · exact hop.elim
      · exact hop.trans h.symm

/-- **The first search of `initialize` is called** in one place; before it, no section does so. From
that section on `initialize` is one of the operations that attend to the room. -/
theorem Thread.hasSearched_step {th th' : Thread} {k : Outcome} {s s' : Room}
    (h : th.step k s = some (s', th')) (h' : th'.HasSearched) :
    th.HasSearched ∨ ∃ s₁, Quiet s s₁ ∧ s' = (s₁.search false).1 ∧
      th'.op = (s₁.search false).2.op := by
  cases th with
  | initializing pc =>
      obtain ⟨y, hstep, heq⟩ := Option.map_eq_some_iff.mp h
      cases heq
      cases pc with
      | search x => exact .inl trivial
      | returned => cases hstep
      | failed => cases hstep
      | prepare =>
          simp only [InitializePC.step] at hstep
          split at hstep <;> cases hstep <;> exact h'.elim
      | preferred =>
          simp only [InitializePC.step] at hstep
          split at hstep <;> cases hstep <;> exact h'.elim
      | clean =>
          simp only [InitializePC.step] at hstep
          split at hstep <;> cases hstep
          · exact h'.elim
          · exact .inr ⟨{ s with network := true },
              .of_eq rfl rfl rfl rfl rfl rfl rfl rfl rfl rfl rfl, rfl, rfl⟩
  | call c =>
      -- no call becomes an `initialize`
      cases c with
      | frame ws f =>
          simp only [Thread.step, Call.start] at h
          split at h
          · cases h
          · split at h
            · cases h
            · split at h <;> cases h <;> exact h'.elim
      | lost ws =>
          simp only [Thread.step, Call.start] at h
          split at h
          · cases h
          · split at h <;> cases h
            exact h'.elim
      | transfer =>
          simp only [Thread.step, Call.start] at h
          split at h <;> cases h <;> exact h'.elim
      | retry =>
          simp only [Thread.step, Call.start] at h
          split at h <;> cases h
          exact h'.elim
      | network =>
          simp only [Thread.step, Call.start] at h
          split at h <;> cases h
          exact h'.elim
      | debounce =>
          simp only [Thread.step, Call.start] at h
          split at h <;> cases h
          exact h'.elim
      | _ =>
          cases h
          exact h'.elim
  | transfer r =>
      simp only [Thread.step, transferStep] at h
      split at h
      · cases h
        exact h'.elim
      · cases h
        exact h'.elim
      · obtain ⟨y, -, heq⟩ := Option.map_eq_some_iff.mp h
        cases heq
        exact h'.elim
  | ended => cases h
  | _ =>
      obtain ⟨y, -, heq⟩ := Option.map_eq_some_iff.mp h
      cases heq
      exact h'.elim

/-- **One section.** Whoever attends to the room goes on, hands the task on, or has done with it. -/
theorem Online.run {c : Config Room Thread} (h : Online c) {t : ThreadPool.Tid} {k : Outcome}
    {s' : Room} {th th' : Thread} (hth : c.threads[t]? = some th)
    (hstep : th.step k c.shared = some (s', th')) (hrule : ∀ e ∈ s'.log, e.isPatient = true) :
    Online ⟨s', c.threads.set t th' ++ []⟩ := by
  have hmem := List.mem_of_getElem? hth
  have hlater := Thread.later hstep
  obtain ⟨hvalid, hyields⟩ := h.knows th hmem
  have hrelay := (Thread.section hstep).relay hyields hrule
  have hmine : th' ∈ c.threads.set t th' ++ [] := ThreadPool.mem_set_append_self hth
  have hdone : th'.op.Attends s' → Attended ⟨s', c.threads.set t th' ++ []⟩ := by
    rintro (hsafe | htries)
    · exact .inl hsafe
    · exact .inr ⟨th', hmine, htries⟩
  -- the task is attended to, or left to `_recover`
  have hkept : Attended c → Attended ⟨s', c.threads.set t th' ++ []⟩ ∨
      th'.op.Rebuffed ∧ s'.busy = false := by
    rintro (hsafe | ⟨u, hu, htries⟩)
    · exact .inl (hdone (hrelay.safe hsafe))
    · rcases hrelay.renewed with hsame | hattends
      · rcases ThreadPool.mem_set_append hth hu th' [] with rfl | hu
        · exact (hrelay.tries htries hsame).imp_left hdone
        · exact .inl (.inr ⟨u, hu, htries.congr hsame⟩)
      · exact .inl (hdone hattends)
  constructor
  · intro u hu
    rcases List.mem_append.mp hu with hu | hu
    · rcases List.mem_or_eq_of_mem_set hu with hu | rfl
      · obtain ⟨hvalid', hyields'⟩ := h.knows u hu
        exact Op.later hlater hvalid' hyields'
      · exact ⟨(Thread.section hstep).valid hvalid hlater.generation, (Thread.section hstep).yields⟩
    · exact absurd hu List.not_mem_nil
  · -- a busy operation attends to the room
    intro hbusy
    rcases hrelay.busy hbusy with hold | hattends
    · rcases hkept (h.busy hold) with hattended | ⟨-, hfree⟩
      · exact hattended
      · rw [show s'.busy = true from hbusy] at hfree
        cases hfree
    · exact hdone hattends
  · rintro ⟨u, hu, hsearched⟩
    have hpassed : Attended c → Attended ⟨s', c.threads.set t th' ++ []⟩ ∨
        ∃ th ∈ c.threads.set t th' ++ [], th.op.Rebuffed := by
      intro hattended
      exact (hkept hattended).imp_right fun hrebuffed => ⟨th', hmine, hrebuffed.1⟩
    have hold : (∃ th ∈ c.threads, th.HasSearched) → Attended ⟨s', c.threads.set t th' ++ []⟩ ∨
        ∃ th ∈ c.threads.set t th' ++ [], th.op.Rebuffed := by
      intro hbefore
      rcases h.searched hbefore with hattended | ⟨v, hv, hrebuffed⟩
      · exact hpassed hattended
      · rcases ThreadPool.mem_set_append hth hv th' [] with rfl | hv
        · rcases hrelay.rebuffed hrebuffed with hattends | ⟨hbusy, -⟩
          · exact .inl (hdone hattends)
          · exact hpassed (h.busy hbusy)
        · exact .inr ⟨v, hv, hrebuffed⟩
    rcases List.mem_append.mp hu with hu | hu
    · rcases List.mem_or_eq_of_mem_set hu with hu | rfl
      · exact hold ⟨u, hu, hsearched⟩
      · rcases Thread.hasSearched_step hstep hsearched with hbefore | ⟨s₁, hquiet, hs', hop'⟩
        · exact hold ⟨th, hmem, hbefore⟩
        · -- the first search starts, or another operation is busy
          cases hbusy : s₁.busy with
          | true => exact hpassed (h.busy (hquiet.busy.symm.trans hbusy))
          | false =>
              refine .inl (hdone ?_)
              rw [hs', hop']
              exact Room.search_attends hbusy false
    · exact absurd hu List.not_mem_nil

/-- The invariant holds along every run that keeps the rule. It is the induction on the run; the
rule is about what has been noted, so it held in every state before. -/
theorem online_of_run {storage : DartString → Option DartString} {c : Config Room Thread}
    (hrun : app.Run Arrivals (boot storage) c) (hrule : ∀ e ∈ c.shared.log, e.isPatient = true) :
    Online c := by
  refine hrun.invariant_of_lasting (lasting fun e => e.isPatient = true) hrule ?_ ?_
  · -- at the start only `initialize` runs, and the room is not busy
    constructor
    · intro th hth
      obtain rfl := List.mem_singleton.mp hth
      exact ⟨trivial, trivial⟩
    · intro hbusy
      cases hbusy
    · rintro ⟨th, hth, hsearched⟩
      obtain rfl := List.mem_singleton.mp hth
      exact hsearched.elim
  · intro c a d hinv harrive hgood hexec
    cases a with
    -- a call that begins attends to nothing yet, and takes nothing from those that do
    | spawn th =>
        obtain ⟨call, rfl⟩ := harrive th rfl
        obtain rfl := Option.some.inj hexec
        have hmore : Attended c → Attended ⟨c.shared, c.threads ++ [.call call]⟩ :=
          fun h => h.imp_right fun ⟨u, hu, htries⟩ => ⟨u, List.mem_append_left _ hu, htries⟩
        refine ⟨fun u hu => ?_, fun hbusy => hmore (hinv.busy hbusy), ?_⟩
        · rcases List.mem_append.mp hu with hu | hu
          · exact hinv.knows u hu
          · obtain rfl := List.mem_singleton.mp hu
            exact ⟨trivial, trivial⟩
        · rintro ⟨u, hu, hsearched⟩
          rcases List.mem_append.mp hu with hu | hu
          · rcases hinv.searched ⟨u, hu, hsearched⟩ with hattended | ⟨v, hv, hrebuffed⟩
            · exact .inl (hmore hattended)
            · exact .inr ⟨v, List.mem_append_left _ hv, hrebuffed⟩
          · obtain rfl := List.mem_singleton.mp hu
            exact hsearched.elim
    | env e =>
        obtain rfl := Option.some.inj hexec
        exact hinv
    | run t k =>
        obtain ⟨th, s', th', fs, hth, hstep, rfl⟩ := app.exec_run_iff.mp hexec
        obtain ⟨hsection, rfl⟩ := app_step.mp hstep
        exact hinv.run hth hsection hgood

/-! ## The quiet room -/

/-- The thread is not suspended in an operation: it has not begun, or has returned. -/
def Thread.isDone : Thread → Bool
  | .call _ | .transfer _ | .ended => true
  | .initializing pc => match pc with | .returned | .failed => true | _ => false
  | .search x => match x.pc with | .returned => true | _ => false
  | .manual pc => match pc with | .returned => true | _ => false
  | .attach a => match a.pc with | .returned _ => true | _ => false
  | .login l => match l.pc with | .returned => true | _ => false
  | .rename pc => match pc with | .returned => true | _ => false
  | .recover pc => match pc with | .returned => true | _ => false
  | .reconnect pc => match pc with | .returned => true | _ => false

/-- `initialize` has finished without an error. -/
def Thread.isInitialized : Thread → Bool
  | .initializing .returned => true
  | _ => false

/-- `initialize` has come to its end. Until then it may be in the search that it starts. -/
theorem Thread.eq_of_isInitialized {th : Thread} (h : th.isInitialized = true) :
    th = .initializing .returned := by
  unfold isInitialized at h
  split at h
  · rfl
  · cases h

/-- A thread that is done has no task. It cannot be the one that the task has been handed to. -/
theorem Thread.rests {th : Thread} (h : th.isDone = true) (s : Room) :
    ¬th.op.Tries s ∧ ¬th.op.Rebuffed := by
  cases th with
  | attach a =>
      -- a call that is done is at its return, where it neither tries nor waits
      simp only [isDone] at h
      split at h
      · rename_i reached hpc
        refine ⟨fun htries => htries.2.1 reached hpc, fun hrebuffed => ?_⟩
        cases hrebuffed.1
      · cases h
  | search x =>
      simp only [isDone] at h
      split at h
      · rename_i hpc
        simp [op, Search.op, hpc, Op.Tries, Op.Rebuffed]
      · cases h
  | login l =>
      simp only [isDone] at h
      split at h
      · rename_i hpc
        simp [op, Login.op, hpc, Op.Tries, Op.Rebuffed]
      · cases h
  | initializing pc =>
      simp only [isDone] at h
      split at h
      · exact ⟨id, id⟩
      · exact ⟨id, id⟩
      · cases h
  | call c => exact ⟨id, id⟩
  | transfer r => exact ⟨id, id⟩
  | ended => exact ⟨id, id⟩
  | _ =>
      simp only [isDone] at h
      split at h
      · exact ⟨id, id⟩
      · cases h

/-- **The room is never stuck offline**: in every run whose steps keep the rule, when `initialize` has
finished and no operation is suspended, a room that is not connected and does not ask for the PIN has
its timer armed or has left the choice to the user. -/
theorem never_stuck {storage : DartString → Option DartString} {c : Config Room Thread}
    (hrun : app.Run Arrivals (boot storage) c) (hrule : ∀ e ∈ c.shared.log, e.isPatient = true)
    (hinitialized : .initializing .returned ∈ c.threads) (hdone : ∀ th ∈ c.threads, th.isDone = true)
    (hdisposed : c.shared.disposed = false) (hconnected : c.shared.connected = false)
    (hneedsPin : c.shared.needsPin = false) :
    c.shared.retry = true ∨ c.shared.leftToUser = true := by
  have hsafe : c.shared.IsSafe := by
    rcases (online_of_run hrun hrule).searched ⟨_, hinitialized, trivial⟩ with
      (hsafe | ⟨th, hth, htries⟩) | ⟨th, hth, hrebuffed⟩
    · exact hsafe
    · exact absurd htries (Thread.rests (hdone th hth) c.shared).1
    · exact absurd hrebuffed (Thread.rests (hdone th hth) c.shared).2
  simpa [Room.IsSafe, hdisposed, hconnected, hneedsPin] using hsafe

/-! ## A `login` that fails -/

namespace Sample

/-- The room `A` asks for its PIN; the PIN is right, but the connection for the socket fails. -/
def refused : List (Act Thread Outcome Unit) :=
  started ++ visit 1 'A' { publicInfo 'A' with pinRequired := .bool true } ++ goOn 1 [.done, .done] ++
    call 2 .login (answered {} ++ [.done, .done, .done, .done, .failed, .done])

end Sample

/-- The room is offline, does not ask for the PIN any more and has no timer armed. The PIN was right
but the connection for the socket has failed, and the `catch` of `login` arms no timer. -/
theorem stuck_after_login : ∃ c, app.Run Arrivals (boot fun _ => none) c ∧
    .initializing .returned ∈ c.threads ∧ (∀ th ∈ c.threads, th.isDone = true) ∧
      c.shared.disposed = false ∧ c.shared.connected = false ∧ c.shared.needsPin = false ∧
        c.shared.retry = false ∧ c.shared.leftToUser = false := by
  have hrun : ((app.execAll (boot fun _ => none) Sample.refused).map fun c =>
      ([c.threads.any Thread.isInitialized, c.threads.all Thread.isDone],
        [c.shared.disposed, c.shared.connected, c.shared.needsPin, c.shared.retry,
          c.shared.leftToUser])) =
        some ([true, true], [false, false, false, false, false]) := by
    decide +kernel
  obtain ⟨c, hc, hstate⟩ := Option.map_eq_some_iff.mp hrun
  simp only [Prod.mk.injEq, List.cons.injEq, and_true] at hstate
  obtain ⟨⟨hinitialized, hdone⟩, hflags⟩ := hstate
  obtain ⟨th, hth, hfirst⟩ := List.any_eq_true.mp hinitialized
  rw [Thread.eq_of_isInitialized hfirst] at hth
  exact ⟨c, .of_execAll (Sample.arrivals rfl) hc, hth, List.all_eq_true.mp hdone, hflags⟩

/-- A room that has been started and has found no server. It waits for the timer or for the user, as
the statement says. -/
theorem never_stuck_started : ∃ c, app.Run Arrivals (boot fun _ => none) c ∧
    c.shared.connected = false ∧ (c.shared.retry = true ∨ c.shared.leftToUser = true) := by
  have hrun : ((app.execAll (boot fun _ => none) Sample.started).map fun c =>
      ([c.threads.any Thread.isInitialized, c.threads.all Thread.isDone,
        c.shared.log.all Event.isPatient],
        [c.shared.disposed, c.shared.connected, c.shared.needsPin])) =
        some ([true, true, true], [false, false, false]) := by
    decide +kernel
  obtain ⟨c, hc, hstate⟩ := Option.map_eq_some_iff.mp hrun
  simp only [Prod.mk.injEq, List.cons.injEq, and_true] at hstate
  obtain ⟨⟨hinitialized, hdone, hrule⟩, hdisposed, hconnected, hneedsPin⟩ := hstate
  obtain ⟨th, hth, hfirst⟩ := List.any_eq_true.mp hinitialized
  rw [Thread.eq_of_isInitialized hfirst] at hth
  have hreached : app.Run Arrivals (boot fun _ => none) c := .of_execAll (Sample.arrivals rfl) hc
  exact ⟨c, hreached, hconnected, never_stuck hreached (List.all_eq_true.mp hrule) hth
    (List.all_eq_true.mp hdone) hdisposed hconnected hneedsPin⟩

end LanRoom.Mobile
