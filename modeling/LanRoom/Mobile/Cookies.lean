import LanRoom.Mobile.Effects

/-! # Where a session cookie goes

A cookie that was read under `cookie:X` is sent only through a client that the server `X` has
answered, and `login` stores a cookie only under the id of the server that its client was made for
(`cookies_verified`), in every run that keeps a rule. A server without a service id has an id that
`attach` does not check, so that id has to be the one made from its address; and the client is that
of the selected server when `login` is called and afterwards, which a late `attach` could change. -/

namespace LanRoom.Mobile

open ThreadPool (Act Config)

/-- The **rule** for the steps of a run: an id that begins with `manual:` is that of its address;
`login` is called on the client of the selected server; and an operation that has cancelled the old
subscription is still the newest one. -/
def Event.isCareful : Event → Bool
  | .attach server _ _ => !server.isManual || server.id = manualPrefix ++ server.uri.text
  | .loginCalled _ owner selected => owner = selected
  | .cancelled token generation => token = generation
  | _ => true

/-- A stored cookie goes to its server only, and is stored for the server that it came from. -/
def Event.Verified : Event → Prop
  | .sent (some id) base answered => id ∈ answered ∨ id = manualPrefix ++ base.text
  | .stored id active client => active = some id ∧ client = some id
  | _ => True

/-- The server of a client is `id`, as far as the client can tell. -/
def LanClient.Verifies (x : LanClient) (id : DartString) : Prop :=
  id ∈ x.answered ∨ id = manualPrefix ++ x.base.text

/-- The id that a client was made for. -/
def Room.ownerOf (s : Room) (c : ℕ) : Option DartString := s.clients[c]?.bind LanClient.owner

/-- The **invariant**. -/
structure Guarded (s : Room) : Prop where
  clients : ∀ (c : ℕ) (x : LanClient), s.clients[c]? = some x →
    ∀ id, x.cookieOf = some id → x.Verifies id
  log : ∀ e ∈ s.log, e.Verified

/-- The rules for cookies. -/
def guarding : Rules where
  establish := fun _ _ => True
  take := fun s c id => ∀ x : LanClient, s.clients[c]? = some x → x.Verifies id
  store := fun s active c id => s.ownerOf active = some id ∧ s.ownerOf c = some id

/-- A client goes on knowing its server. Answers are added to what it has heard, and its address is
fixed. -/
theorem LanClient.Verifies.mono {x x' : LanClient} {id : DartString} (h : x.Verifies id)
    (hbase : x'.base = x.base) (hanswered : x.answered ⊆ x'.answered) : x'.Verifies id := by
  rcases h with h | h
  · exact .inl (hanswered h)
  · refine .inr ?_
    rw [hbase]
    exact h

namespace Guarded

/-- Only clients and events matter. The other fields of the room carry no cookies. -/
theorem congr {s s' : Room} (h : Guarded s) (hclients : s'.clients = s.clients)
    (hlog : ∀ e ∈ s'.log, e ∈ s.log ∨ e.Verified) : Guarded s' where
  clients := by
    intro c x hx
    rw [hclients] at hx
    exact h.clients c x hx
  log := fun e he => (hlog e he).elim (h.log e) id

/-- A client is changed. It has to verify the server of the cookie that it holds afterwards. -/
theorem modify {s : Room} (h : Guarded s) {c : ℕ} {f : LanClient → LanClient}
    (hf : ∀ x : LanClient, s.clients[c]? = some x → ∀ id, (f x).cookieOf = some id →
      (f x).Verifies id) : Guarded (s.modifyClient c f) := by
  refine ⟨fun c' y hy id hid => ?_, h.log⟩
  simp only [Room.modifyClient, List.getElem?_modify, Option.map_eq_map,
    Option.map_eq_some_iff] at hy
  obtain ⟨x, hx, rfl⟩ := hy
  split at hid
  · rename_i heq
    rw [if_pos heq]
    exact hf x (heq ▸ hx) id hid
  · rename_i hne
    rw [if_neg hne]
    exact h.clients c' x hx id hid

/-- **One move.** Taking a cookie and storing one are the two moves that the rules constrain. The
others change neither a client's cookie nor what has been noted about cookies. -/
theorem move {s s' : Room} (h : Guarded s) (hmove : Move guarding s s') : Guarded s' := by
  have hsame : ∀ e ∈ s.log, e ∈ s.log ∨ e.Verified := fun e he => .inl he
  -- one more event, which says nothing about cookies
  have hcons : ∀ {e : Event}, e.Verified → ∀ e' ∈ e :: s.log, e' ∈ s.log ∨ e'.Verified := by
    intro e he e' he'
    rcases List.mem_cons.mp he' with rfl | he'
    · exact .inr he
    · exact .inl he'
  cases hmove with
  | flags hseen =>
      refine h.congr hseen.clients ?_
      rw [hseen.log]
      exact hsame
  | @note e hplain =>
      refine h.congr rfl (hcons ?_)
      cases e with
      | sent cookieOf base answered => cases hplain
      | stored id active client => cases hplain
      | _ => trivial
  | newClient hcookie =>
      refine ⟨fun c y hy id hid => ?_, h.log⟩
      rcases ThreadPool.getElem?_append_cases hy with hy | ⟨-, hy⟩
      · exact h.clients c y hy id hid
      · -- a new client has no stored cookie
        obtain rfl := List.mem_singleton.mp hy
        rw [hcookie] at hid
        cases hid
  | modifyClient c hbase _ hanswered hcookie =>
      refine h.modify fun x hx id hid => ?_
      rcases hcookie x with hnone | hkept
      · rw [hnone] at hid
        cases hid
      · rw [hkept] at hid
        exact (h.clients c x hx id hid).mono (hbase x) (hanswered x)
  | @takeCookie c id hrule =>
      refine h.modify fun x hx id' hid => ?_
      obtain rfl := Option.some.inj hid
      exact (hrule x hx).mono rfl (List.Subset.refl _)
  | sendCookie c =>
      refine h.congr rfl ?_
      intro e he
      rcases List.mem_append.mp he with he | he
      · refine .inr ?_
        unfold Room.cookieSent at he
        split at he
        · rename_i x hx
          split at he
          · exact absurd he List.not_mem_nil
          · obtain rfl := List.mem_singleton.mp he
            cases hid : x.cookieOf with
            | none => trivial
            | some id => exact h.clients c x hx id hid
        · exact absurd he List.not_mem_nil
      · exact .inl he
  | storeCookie hrule => exact h.congr rfl (hcons hrule)
  | newSocket _ => exact h.congr rfl hsame
  | modifySocket ws _ => exact h.congr rfl hsame
  | frame f _ _ => exact h.congr rfl hsame
  | attach server => exact h.congr rfl (hcons trivial)
  | search another => exact h.congr rfl hsame
  | choose recipients => exact h.congr rfl (hcons trivial)
  | text value =>
      unfold Room.text
      split
      · exact h
      · exact h.congr rfl (hcons trivial)
  | dispose => exact h.congr rfl hsame

/-- A whole section. It is the induction on the moves it consists of. -/
theorem moves {s s' : Room} (hmoves : Moves guarding s s') (h : Guarded s) : Guarded s' := by
  induction hmoves with
  | refl => exact h
  | tail _ hmove ih => exact ih.move hmove

end Guarded

/-! ## `attach` -/

/-- The request is for the identity of the server at this address. -/
def Request.Asks (s : Room) (server : FoundServer) (r : Request) : Prop :=
  r.endpoint = .info ∧ ∃ x : LanClient, s.clients[r.client]? = some x ∧ x.base = server.uri ∧
    ∀ info, r.pc = .ended (.ok info) → answeredID .info (.ok info) ⊆ x.answered

/-- What a call of `attach` knows. -/
structure Attach.Guarded (s : Room) (a : Attach) : Prop where
  token : a.token ≤ s.generation
  selected : a.token = s.generation → s.selectedID = some a.server.id
  named : a.server.isManual = true → a.server.id = manualPrefix ++ a.server.uri.text
  asks : ∀ r, a.pc = .plainInfo r → r.Asks s a.server
  read : ∀ next, a.pc = .read next →
    ∃ x : LanClient, s.clients[next]? = some x ∧ x.Verifies a.server.id

/-- A request keeps asking the server it was made for. Its client keeps its address and everything
it has been answered. -/
theorem Request.Asks.later {s s' : Room} (hlater : Later s s') {server : FoundServer} {r : Request}
    (h : r.Asks s server) : r.Asks s' server := by
  obtain ⟨hendpoint, x, hx, hbase, hheard⟩ := h
  obtain ⟨x', hx', hbase', -, hanswered⟩ := hlater.clients _ x hx
  exact ⟨hendpoint, x', hx', hbase'.trans hbase, fun info hpc =>
    List.Subset.trans (hheard info hpc) hanswered⟩

/-- The next section of the request: what is answered has been heard by the client. -/
theorem Request.Asks.step {s s' : Room} {server : FoundServer} {r r' : Request} {k : Outcome}
    (h : r.Asks s server) (hstep : r.step k s = some (s', r')) : r'.Asks s' server := by
  have hlater : Later s s' := .of_moves (Request.moves (R := .none) hstep)
  -- a result that is no answer
  have hpending : ∀ {r₁ : Request}, r₁.client = r.client → r₁.endpoint = r.endpoint →
      (∀ info, r₁.pc ≠ .ended (.ok info)) → r₁.Asks s' server := by
    intro r₁ hclient hendpoint hpc
    obtain ⟨hinfo, x, hx, hbase, -⟩ := h.later hlater
    refine ⟨hendpoint.trans hinfo, x, ?_, hbase, fun info hended => absurd hended (hpc info)⟩
    rw [hclient]
    exact hx
  unfold Request.step at hstep
  split at hstep
  · cases hstep
    exact hpending rfl rfl (by simp)
  · split at hstep <;> cases hstep
    exact hpending rfl rfl (by simp)
  · cases hstep
    exact hpending rfl rfl (by simp)
  · split at hstep <;> cases hstep
    exact hpending rfl rfl (by simp)
  · cases hstep
    exact hpending rfl rfl (by simp)
  · rename_i result _
    obtain ⟨hinfo, x, hx, hbase, -⟩ := h
    cases hstep
    refine ⟨hinfo, x.hear (answeredID r.endpoint result), ?_, hbase, fun info hended => ?_⟩
    · simp [Room.modifyClient, hx]
    · obtain rfl : result = .ok info := by simpa using hended
      rw [hinfo]
      exact List.subset_append_right _ _
  · cases hstep

/-- The client that `attach` makes. It belongs to that server and holds no cookie yet. -/
theorem Room.renew_client (s : Room) (token : ℕ) (server : FoundServer) :
    (s.renew token server).client = some s.clients.length ∧
      (s.renew token server).clients[s.clients.length]? =
        some { base := server.uri, owner := some server.id } := by
  have hlength : (s.note (.cancelled token s.generation)).closeCurrent.clients.length =
      s.clients.length := by
    unfold closeCurrent
    simp only
    split
    · rfl
    · exact List.length_modify _ _ _
  constructor
  · exact congrArg some hlength
  · show ((s.note (.cancelled token s.generation)).closeCurrent.clients ++ [_])[s.clients.length]? = _
    rw [List.getElem?_append_right (by rw [hlength]), hlength, Nat.sub_self]
    rfl

/-- `_open` does not replace the client. It works on the client that `attach` or `login` has left
it. -/
theorem openStep_client {token : ℕ} {k : Outcome} {s s' : Room} {pc pc' : OpenPC}
    (h : openStep token k s pc = some (s', pc')) : s'.client = s.client := by
  rcases openStep_quiet h with ⟨ws, -, rfl, -⟩ | ⟨hquiet, -, -⟩
  · unfold openConnected
    simp only
    split <;> rfl
  · exact hquiet.client

/-- How `attach` comes to ask for the identity of its server (it has just made the client, or asked
before) and to read the cookie (the identity has just been checked). -/
theorem Attach.asking_step {a a' : Attach} {silent : Bool} {k : Outcome} {s s' : Room}
    (h : a.step silent k s = some (s', a')) :
    (∀ r', a'.pc = .plainInfo r' →
      s' = s.renew a.token a.server ∧ r' = ⟨s.clients.length, .info, .opening⟩ ∨
        ∃ r, a.pc = .plainInfo r ∧ r.step k s = some (s', r')) ∧
    ∀ next, a'.pc = .read next →
      ∃ r info, a.pc = .plainInfo r ∧ r.pc = .ended (.ok info) ∧ s' = s ∧ next = r.client ∧
        (a.server.isManual = true ∨ info.serviceId = .string a.server.id) := by
  -- the `catch` returns, so it is at neither of the two
  have hcaught : ∀ {s₁ : Room}, some (a.caught silent s₁) = some (s', a') →
      ∃ reached, a'.pc = .returned reached := by
    intro s₁ heq
    have heq := Option.some.inj heq
    unfold caught finish at heq
    split at heq
    · cases heq
      exact ⟨_, rfl⟩
    · split at heq <;> cases heq <;> exact ⟨_, rfl⟩
  unfold step at h
  split at h
  · -- the old subscription is cancelled: the first `info` is asked of a new client
    split at h <;> cases h
    constructor
    · intro r' h'
      cases h'
      exact .inl ⟨rfl, rfl⟩
    · intro next h'
      cases h'
  · rename_i r hpc
    split at h
    · rename_i info hended
      unfold checked at h
      split at h
      · obtain ⟨reached, hreturned⟩ := hcaught h
        simp [hreturned]
      · -- the identity check has passed: the id is the server's, or the server is a manual one
        rename_i hchecked
        cases h
        refine ⟨by simp, fun next h' => ?_⟩
        cases h'
        refine ⟨r, info, hpc, hended, rfl, rfl, ?_⟩
        by_cases hmanual : a.server.isManual = true
        · exact .inl hmanual
        · refine .inr ?_
          by_contra hother
          exact hchecked ⟨Bool.not_eq_true _ |>.mp hmanual, hother⟩
    · obtain ⟨reached, hreturned⟩ := hcaught h
      simp [hreturned]
    · obtain ⟨y, hstep, heq⟩ := Option.map_eq_some_iff.mp h
      cases heq
      refine ⟨fun r' h' => ?_, by simp⟩
      cases h'
      exact .inr ⟨r, hpc, hstep⟩
  · split at h
    · obtain ⟨reached, hreturned⟩ := hcaught h
      simp [hreturned]
    · cases h
      simp
    · cases h
  · split at h
    · have heq := Option.some.inj h
      unfold informed at heq
      split at heq
      · cases heq
        simp
      · split at heq <;> cases heq <;> simp
    · obtain ⟨reached, hreturned⟩ := hcaught h
      simp [hreturned]
    · obtain ⟨y, -, heq⟩ := Option.map_eq_some_iff.mp h
      cases heq
      simp
  · cases h
    simp
  · obtain ⟨reached, hreturned⟩ := hcaught h
    simp [hreturned]
  · obtain ⟨y, -, heq⟩ := Option.map_eq_some_iff.mp h
    cases heq
    simp
  · cases h

namespace Attach.Guarded

/-- What `attach` knows lasts. The facts are about clients and about a token that can only become
stale. -/
theorem later {s s' : Room} (hlater : Later s s') {a : Attach} (h : a.Guarded s) : a.Guarded s' where
  token := h.token.trans hlater.generation
  selected := by
    intro htoken
    have hsame : s'.generation = s.generation := le_antisymm (htoken ▸ h.token) hlater.generation
    rw [Room.selectedID, hlater.selected hsame]
    exact h.selected (htoken.trans hsame)
  named := h.named
  asks := fun r hpc => (h.asks r hpc).later hlater
  read := by
    intro next hpc
    obtain ⟨x, hx, hverifies⟩ := h.read next hpc
    obtain ⟨x', hx', hbase, -, hanswered⟩ := hlater.clients next x hx
    exact ⟨x', hx', hverifies.mono hbase hanswered⟩

/-- A section of `attach`. It takes a cookie after the answer that verifies the server, or for an
address that was typed in. -/
theorem step {s s' : Room} {a a' : Attach} {silent : Bool} {k : Outcome} (hlater : Later s s')
    (h : a.Guarded s) (hstep : a.step silent k s = some (s', a')) : a'.Guarded s' := by
  obtain ⟨htoken, hserver⟩ := Attach.step_same hstep
  obtain ⟨hasks, hread⟩ := Attach.asking_step hstep
  have hkept := h.later hlater
  constructor
  · rw [htoken]
    exact hkept.token
  · rw [htoken, hserver]
    exact hkept.selected
  · rw [hserver]
    exact h.named
  · intro r' hpc'
    rw [hserver]
    -- the request has just been made, by the client made for this server
    rcases hasks r' hpc' with ⟨rfl, rfl⟩ | ⟨r, hpc, hrequest⟩
    · exact ⟨rfl, _, (s.renew_client a.token a.server).2, rfl, by simp⟩
    · exact (h.asks r hpc).step hrequest
  · intro next hpc'
    rw [hserver]
    obtain ⟨r, info, hpc, hended, rfl, rfl, hchecked⟩ := hread next hpc'
    obtain ⟨-, x, hx, hbase, hheard⟩ := h.asks r hpc
    refine ⟨x, hx, ?_⟩
    -- a manual server is named after the address its client asks; the others have answered with
    -- their id
    rcases hchecked with hmanual | hid
    · refine .inr ?_
      rw [hbase]
      exact h.named hmanual
    · refine .inl (hheard info hended ?_)
      cases info
      simp only at hid
      subst hid
      exact List.mem_singleton.mpr rfl

/-- `attach` has just been called. It has selected its server and begun a new generation. -/
theorem fresh {s s' : Room} {a' : Attach} (h : FreshAttach s s' a')
    (hrule : ∀ e ∈ s'.log, e.isCareful = true) : a'.Guarded s' := by
  obtain ⟨s₁, server, -, rfl, rfl⟩ := h
  have hnamed := hrule (.attach server (s₁.clears server) (s₁.chosen server.id)) List.mem_cons_self
  constructor
  · exact le_refl _
  · intro _
    rfl
  · intro hmanual
    have hmanual : server.isManual = true := hmanual
    show server.id = manualPrefix ++ server.uri.text
    simpa [Event.isCareful, hmanual] using hnamed
  · intro r hpc
    cases hpc
  · intro next hpc
    cases hpc

end Attach.Guarded

/-! ## The current client -/

/-- The call of `attach` that a thread is in. The two views of a thread agree on it. -/
theorem Thread.attach?_of_op {th : Thread} {caller : Caller} {a : Attach}
    (h : th.op = .attach caller a) : th.attach? = some a := by
  -- `attach` may be called by a search, and by `_recover` itself or through its search
  have hsearch : ∀ {x : Search}, x.op = .attach caller a → x.attach? = some a := by
    intro x hx
    unfold Search.op at hx
    split at hx
    · rename_i hpc
      cases hx
      simp only [Search.attach?, hpc]
    · cases hx
    · cases hx
  have hrecover : ∀ {pc : RecoverPC}, pc.op = .attach caller a → pc.attach? = some a := by
    intro pc hpc
    cases pc with
    | attach b =>
        cases hpc
        rfl
    | search x => exact hsearch hpc
    | returned => cases hpc
  unfold op at h
  split at h
  · cases h
    rfl
  · cases h
    rfl
  · cases h
    rfl
  · exact hsearch h
  · exact hsearch h
  · rename_i l
    unfold Login.op at h
    split at h <;> cases h
  · exact hrecover h
  · exact hrecover h
  · cases h

/-- **How the current client changes**: `search` drops it and `attach` replaces it, each when it has
cancelled the old subscription. -/
theorem Section.client {k : Outcome} {s s' : Room} {op op' : Op} (h : Section k s op s' op') :
    s'.client = s.client ∨ s'.client = none ∨
      ∃ caller a, op = .attach caller a ∧ s' = s.renew a.token a.server := by
  -- calls that start in this section put another client only in an `attach`, which does so later
  have hsearch : ∀ (s₁ : Room) (another : Bool), (s₁.search another).1.client = s₁.client := by
    intro s₁ another
    unfold Room.search
    split <;> rfl
  have hfallBack : ∀ (s₁ : Room) (server : Option FoundServer),
      (s₁.fallBack server).1.client = s₁.client := by
    intro s₁ server
    unfold Room.fallBack
    split
    · rfl
    · split
      · exact hsearch s₁ false
      · rfl
  have hrecover : ∀ s₁ : Room, s₁.recover.1.client = s₁.client := by
    intro s₁
    unfold Room.recover
    split
    · rfl
    · split
      · rfl
      · exact hfallBack s₁ none
  cases h with
  -- `attach` after `_socket?.cancel()` is the only section that makes the current client
  | attach h =>
      cases Attach.effect h with
      | renew _ => exact .inr (.inr ⟨_, _, rfl, rfl⟩)
      | quiet _ _ hquiet => exact .inl hquiet.client
      | caught _ =>
          refine .inl ?_
          unfold Attach.caught
          split
          · rfl
          · split <;> rfl
      | stale _ _ => exact .inl rfl
      | askPin _ _ _ _ => exact .inl rfl
      | openSocket _ _ _ => exact .inl rfl
      | opening _ hopen => exact .inl (openStep_client hopen)
      | opened _ => exact .inl rfl
  | search hx h =>
      cases Search.effect hx h with
      -- `search` only closes it
      | release _ => exact .inr (.inl rfl)
      | quiet _ _ hquiet => exact .inl hquiet.client
      | caught _ => exact .inl rfl
      | stale _ hquiet _ => exact .inl hquiet.client
      | startAttach _ _ _ hquiet _ _ => exact .inl hquiet.client
      | leave _ _ hquiet _ _ => exact .inl hquiet.client
  | login h =>
      cases Login.effect h with
      | quiet _ _ hquiet => exact .inl hquiet.client
      | stale _ _ => exact .inl rfl
      | caught _ => exact .inl rfl
      | stored _ => exact .inl rfl
      | opening _ hopen => exact .inl (openStep_client hopen)
      | opened _ => exact .inl rfl
  | returned _ _ => exact .inl rfl
  | searched _ => exact .inl rfl
  | fallBack _ => exact .inl (hfallBack s _)
  | quiet hquiet => exact .inl hquiet.client
  | startAttach server hquiet => exact .inl hquiet.client
  | startSearch another hquiet => exact .inl ((hsearch _ another).trans hquiet.client)
  | startLogin =>
      refine .inl ?_
      unfold Room.login
      split <;> rfl
  | restart hquiet _ => exact .inl ((hrecover _).trans hquiet.client)
  | fireRetry =>
      refine .inl ?_
      unfold Room.fireRetry
      split
      · exact hrecover _
      · split <;> rfl
  | lost _ _ =>
      refine .inl ?_
      unfold Room.lostSocket Room.lost
      split
      · rfl
      · simp only
        split
        · exact hrecover _
        · rfl
  | handleExpired e => exact .inl rfl
  | dispose => exact .inl rfl

/-! ## `login` -/

/-- What a call of `login` knows: while its token is the generation, its client and the current one
are those of the selected server. -/
structure Login.Guarded (s : Room) (l : Login) : Prop where
  token : l.token ≤ s.generation
  owners : l.token = s.generation → ∀ id, s.selectedID = some id →
    s.ownerOf l.active = some id ∧ ∀ c, s.client = some c → s.ownerOf c = some id

/-- A client goes on belonging to its server. The owner of a client is set when it is made. -/
theorem Room.ownerOf_later {s s' : Room} (hlater : Later s s') {c : ℕ} {id : DartString}
    (h : s.ownerOf c = some id) : s'.ownerOf c = some id := by
  obtain ⟨x, hx, howner⟩ := Option.bind_eq_some_iff.mp h
  obtain ⟨x', hx', -, howner', -⟩ := hlater.clients c x hx
  exact Option.bind_eq_some_iff.mpr ⟨x', hx', howner'.trans howner⟩

/-- What `login` knows lasts, whoever performs the section: a client is replaced only by the one of
the selected server. -/
theorem Login.Guarded.later {k : Outcome} {s s' : Room} {th th' : Thread} {l l' : Login}
    (h : l.Guarded s) (hstep : th.step k s = some (s', th'))
    (hattach : ∀ a, th.attach? = some a → a.Guarded s)
    (hrule : ∀ e ∈ s'.log, e.isCareful = true) (htoken : l'.token = l.token)
    (hactive : l'.active = l.active) : l'.Guarded s' := by
  have hlater := Thread.later hstep
  refine ⟨htoken ▸ h.token.trans hlater.generation, fun hcurrent id hid => ?_⟩
  have hsame : s'.generation = s.generation :=
    le_antisymm (hcurrent ▸ htoken ▸ h.token) hlater.generation
  have hselected : s.selectedID = some id := by
    rw [Room.selectedID, ← hlater.selected hsame]
    exact hid
  obtain ⟨howner, hclient⟩ := h.owners ((htoken ▸ hcurrent).trans hsame) id hselected
  refine ⟨?_, fun c hc => ?_⟩
  · rw [hactive]
    exact Room.ownerOf_later hlater howner
  · rcases (Thread.section hstep).client with hkept | hnone | ⟨caller, a, hop, heq⟩
    · exact Room.ownerOf_later hlater (hclient c (hkept ▸ hc))
    · rw [hnone] at hc
      cases hc
    · -- the rule says that this `attach` is the newest operation
      have hnoted : (.cancelled a.token s.generation : Event) ∈ s'.log := by
        rw [heq]
        exact List.mem_cons_self
      have hnewest : a.token = s.generation := of_decide_eq_true (hrule _ hnoted)
      have hserver := (hattach a (Thread.attach?_of_op hop)).selected hnewest
      have hid : a.server.id = id := Option.some.inj (hserver.symm.trans hselected)
      obtain ⟨hnew, hmade⟩ := s.renew_client a.token a.server
      rw [heq] at hc ⊢
      obtain rfl := Option.some.inj (hnew.symm.trans hc)
      rw [Room.ownerOf, hmade, ← hid]
      rfl

/-- `login` has just been called. It works on the client of the selected server. -/
theorem Login.Guarded.fresh {s : Room} (hrule : ∀ e ∈ s.login.1.log, e.isCareful = true)
    (hpc : s.login.2.pc ≠ .returned) : s.login.2.Guarded s.login.1 := by
  unfold Room.login at hrule hpc ⊢
  split at hpc
  · rename_i c hbusy hclient
    simp only [hbusy, hclient] at hrule ⊢
    have howner : s.owner = s.selectedID := of_decide_eq_true (hrule _ List.mem_cons_self)
    have hof : s.owner = s.ownerOf c := by simp only [Room.owner, hclient, Option.bind_some, Room.ownerOf]
    refine ⟨le_refl _, fun _ id hid => ?_⟩
    have hmine : s.ownerOf c = some id := hof.symm.trans (howner.trans hid)
    refine ⟨hmine, fun c' hc' => ?_⟩
    obtain rfl := Option.some.inj (hclient.symm.trans hc')
    exact hmine
  · exact absurd rfl hpc

/-! ## The invariant of a run -/

/-- The assertion of a thread. -/
structure Thread.Guarded (s : Room) (th : Thread) : Prop where
  attach : ∀ a, th.attach? = some a → a.Guarded s
  login : ∀ l, th.login? = some l → l.pc ≠ .returned → l.Guarded s

/-- A thread that is guarded meets the rules for its moves. -/
theorem Thread.Guarded.abides {k : Outcome} {s s' : Room} {th th' : Thread} (h : th.Guarded s)
    (hstep : th.step k s = some (s', th')) : th.Abides guarding s where
  attach := by
    intro a ha
    refine ⟨fun _ _ _ => trivial, fun next hpc x hx => ?_⟩
    -- at `bridge.read` the client has verified the server whose cookie is read
    obtain ⟨y, hy, hverifies⟩ := (h.attach a ha).read next hpc
    obtain rfl := Option.some.inj (hx.symm.trans hy)
    exact hverifies
  login := by
    intro l hl
    refine ⟨fun _ _ _ _ => trivial, fun server c _ htoken hselected hclient => ?_⟩
    have hpc : l.pc ≠ .returned := by
      intro hreturned
      cases th with
      | login l₁ =>
          obtain rfl := Option.some.inj hl
          obtain ⟨y, hinner, -⟩ := Option.map_eq_some_iff.mp hstep
          unfold Login.step at hinner
          rw [hreturned] at hinner
          cases hinner
      -- under the token of the login the current client is the one the PIN was sent with
      | _ => cases hl
    have hid : s.selectedID = some server.id := congrArg (Option.map FoundServer.id) hselected
    obtain ⟨hactive, hcurrent⟩ := (h.login l hl hpc).owners htoken server.id hid
    exact ⟨hactive, hcurrent c hclient⟩

/-- **The invariant of the cookies**: what a thread knows of its own client is enough for its next
section, whatever the others do. -/
theorem localInvariant_guarded : app.LocalInvariant Arrivals
    (fun s => ∀ e ∈ s.log, e.isCareful = true) Guarded fun s th => th.Guarded s where
  spawn := by
    intro c th harrive
    obtain ⟨call, rfl⟩ := harrive th rfl
    constructor
    · intro a ha
      cases ha
    · intro l hl
      cases hl
  own := by
    intro t k s th s' th' fs hstep hrule hI hA
    obtain ⟨hsection, rfl⟩ := app_step.mp hstep
    refine ⟨hI.moves (Thread.moves (hA.abides hsection) hsection), ?_,
      fun f hf => absurd hf List.not_mem_nil⟩
    constructor
    · intro a' ha'
      -- an `attach` inside the thread was there before, or has just been called
      rcases Thread.attach?_step hsection ha' with ⟨a, silent, ha, hinner⟩ | hfresh
      · exact (hA.attach a ha).step (Thread.later hsection) hinner
      · exact .fresh hfresh hrule
    · intro l' hl' hpc'
      -- the same for a `login`
      rcases Thread.login?_step hsection hl' with ⟨l, hl, hinner⟩ | ⟨rfl, rfl⟩
      · obtain ⟨htoken, hactive⟩ := Login.step_same hinner
        refine (hA.login l hl ?_).later hsection hA.attach hrule htoken hactive
        intro hreturned
        unfold Login.step at hinner
        rw [hreturned] at hinner
        cases hinner
      · exact .fresh hrule hpc'
  other := by
    intro t k s th s' th' fs hstep hrule _ hA u hu
    have hsection := (app_step.mp hstep).1
    -- what the others hold only depends on what every section keeps
    constructor
    · intro a ha
      exact (hu.attach a ha).later (Thread.later hsection)
    · intro l hl hpc
      exact (hu.login l hl hpc).later hsection hA.attach hrule rfl rfl
  env := fun h => ⟨h, fun _ hu => hu⟩

/-- **Stored cookies go to verified servers only**, and `login` stores a cookie only for the server
of its client, in every run whose steps keep the rule. The rule excludes an id that begins with
`manual:` without being that of its address, a `login` on the client of another server, and an
operation that has been overtaken while it cancelled the old subscription. -/
theorem cookies_verified {storage : DartString → Option DartString} {c : Config Room Thread}
    (hrun : app.Run Arrivals (boot storage) c) (hrule : ∀ e ∈ c.shared.log, e.isCareful = true) :
    ∀ e ∈ c.shared.log, e.Verified := by
  have hboot : Guarded (boot storage).shared := by
    constructor
    · intro c x hx
      cases hx
    · intro e he
      exact absurd he List.not_mem_nil
  have hthreads : ∀ th ∈ (boot storage).threads, th.Guarded (boot storage).shared := by
    intro th hth
    obtain rfl := List.mem_singleton.mp hth
    constructor
    · intro a ha
      cases ha
    · intro l hl
      cases hl
  exact (localInvariant_guarded.run (lasting fun e => e.isCareful = true) hrun hrule hboot
    hthreads).1.log

/-! ## Cookies that go elsewhere -/

namespace Sample

/-- A room with a PIN. -/
def lockedInfo (name : Char) : Info := { publicInfo name with pinRequired := .bool true }

/-- The id of a server without a service id, at another address. -/
def otherID : DartString := manualPrefix ++ ['Y']

/-- A session is in storage, for the server `id`. -/
def session (id key : DartString) : Option DartString := if key = cookieKey id then some ['c'] else none

/-- The machine at the address `B` claims the id `manual:Y` when the user connects to it. -/
def posing : List (Act Thread Outcome Unit) :=
  started ++ call 1 (.manual (some (address 'B')))
    (answered { publicInfo 'B' with serviceId := .string otherID } ++ [.done, .done] ++
      answered (publicInfo 'B') ++ [.done, .done, .done])

/-- The user goes from the room `A` to the room `B` while a PIN is checked, and enters another one
before the client of `A` is replaced. -/
def hurrying : List (Act Thread Outcome Unit) :=
  started ++ visit 1 'A' (lockedInfo 'A') ++ goOn 1 [.done, .done] ++
    call 2 (.manual (some (address 'B'))) [] ++ call 3 .login [] ++
    goOn 2 (answered (publicInfo 'B') ++ [.done]) ++ goOn 3 (answered {} ++ [.done]) ++
    call 4 .login [.done, .response 200 (some ['c']) {}, .done, .done]

/-- The user comes back to the room `A`. -/
def returning : List (Act Thread Outcome Unit) := started ++ visit 1 'A' (publicInfo 'A')

end Sample

/-- The cookie of the server at the address `Y` is sent to the machine at the address `B`; and a
cookie of the room `A` is stored for the room `B`. -/
theorem cookies_elsewhere :
    (∃ c, app.Run Arrivals (boot (Sample.session Sample.otherID)) c ∧
      .sent (some Sample.otherID) (Sample.address 'B') [['B']] ∈ c.shared.log ∧
        ¬∀ e ∈ c.shared.log, e.Verified) ∧
    ∃ c, app.Run Arrivals (boot fun _ => none) c ∧
      .stored ['B'] (some ['A']) (some ['A']) ∈ c.shared.log ∧ ¬∀ e ∈ c.shared.log, e.Verified := by
  have hposing : ((app.execAll (boot (Sample.session Sample.otherID)) Sample.posing).map
      fun c => c.shared.log.head?) =
        some (some (.sent (some Sample.otherID) (Sample.address 'B') [['B']])) := by
    decide +kernel
  have hhurrying : ((app.execAll (boot fun _ => none) Sample.hurrying).map
      fun c => c.shared.log.head?) = some (some (.stored ['B'] (some ['A']) (some ['A']))) := by
    decide +kernel
  constructor
  · obtain ⟨c, hc, hlog⟩ := Option.map_eq_some_iff.mp hposing
    have hmem := List.mem_of_mem_head? hlog
    refine ⟨c, .of_execAll (Sample.arrivals rfl) hc, hmem, fun h => ?_⟩
    -- neither has the machine answered with this id, nor is it made from its address
    rcases h _ hmem with hanswered | haddress
    · exact absurd hanswered (by decide)
    · exact absurd haddress (by decide)
  · obtain ⟨c, hc, hlog⟩ := Option.map_eq_some_iff.mp hhurrying
    have hmem := List.mem_of_mem_head? hlog
    refine ⟨c, .of_execAll (Sample.arrivals rfl) hc, hmem, fun h => ?_⟩
    obtain ⟨hactive, -⟩ := h _ hmem
    cases hactive

/-- A run in which a stored cookie is sent to the server it belongs to. -/
theorem cookies_verified_returning :
    ∃ c, app.Run Arrivals (boot (Sample.session ['A'])) c ∧
      .sent (some ['A']) (Sample.address 'A') [['A']] ∈ c.shared.log ∧
        ∀ e ∈ c.shared.log, e.Verified := by
  have hrun : ((app.execAll (boot (Sample.session ['A'])) Sample.returning).map fun c =>
      (c.shared.log.head?, c.shared.log.all Event.isCareful)) =
        some (some (.sent (some ['A']) (Sample.address 'A') [['A']]), true) := by
    decide +kernel
  obtain ⟨c, hc, hlog⟩ := Option.map_eq_some_iff.mp hrun
  obtain ⟨hhead, hrule⟩ := Prod.mk.inj hlog
  have hreached : app.Run Arrivals (boot (Sample.session ['A'])) c :=
    .of_execAll (Sample.arrivals rfl) hc
  exact ⟨c, hreached, List.mem_of_mem_head? hhead,
    cookies_verified hreached (List.all_eq_true.mp hrule)⟩

end LanRoom.Mobile
