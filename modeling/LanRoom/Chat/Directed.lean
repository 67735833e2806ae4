import LanRoom.Chat.Privacy
import LanRoom.Chat.Registering

/-! # Directed messages

What `sanitizeRecipients` computes, without its loop (`sanitizeRecipients_eq`), and what follows for
a message with recipients: an empty result means that the message is dropped, not that it goes to
everyone, so whoever gets the message is its sender or was named in it, in whatever spelling
(`directed_message`). -/

namespace LanRoom.Chat

open ThreadPool (Tid Machine Act)

variable {u : UUIDPackage} {t : Tid} {h : Hub} {c s : Conn} {cl : Client} {f : Frame} {e : Entry}
  {c₀ c₁ d : ThreadPool.Config Hub Thread} {self id : GoString} {raw out : List GoString}

/-! ## The list of recipients -/

/-- The canonical form of an entry, if `uuid.Parse` accepts it. -/
def canonical? (u : UUIDPackage) (id : GoString) : Option GoString := (u.parse id).map u.string

/-- The canonical forms of the accepted entries, except that of the sender. -/
def otherDevices (u : UUIDPackage) (self : GoString) (raw : List GoString) : List GoString :=
  (raw.filterMap (canonical? u)).filter fun id => id ≠ self

/-- What `sanitizeRecipients` is to return: the first `maxRecipients` different ones, in the order
of their first appearance. -/
def recipientsOf (u : UUIDPackage) (raw : List GoString) (self : GoString) : List GoString :=
  (otherDevices u self raw).eraseDups.take maxRecipients

/-- What is not a UUID names nobody. The loop of the source skips such an entry with `continue`. -/
theorem otherDevices_none (hnone : u.parse id = none) :
    otherDevices u self (id :: raw) = otherDevices u self raw := by
  unfold otherDevices
  rw [List.filterMap_cons_none]
  unfold canonical?
  rw [hnone]
  rfl

/-- A UUID names its device, unless that is the sender. What is kept is the canonical form and not
the text that was sent. -/
theorem otherDevices_some {x : UUID} (hsome : u.parse id = some x) :
    otherDevices u self (id :: raw) =
      if u.string x = self then otherDevices u self raw
      else u.string x :: otherDevices u self raw := by
  have hid : canonical? u id = some (u.string x) := by
    unfold canonical?
    rw [hsome]
    rfl
  unfold otherDevices
  rw [List.filterMap_cons_some hid]
  by_cases hself : u.string x = self
  · rw [if_pos hself]
    simp [hself]
  · rw [if_neg hself]
    simp [hself]

/-- There is nothing to erase from a list without duplicates. The list that the loop has built is
such a list. -/
theorem eraseDups_of_nodup {α : Type*} [BEq α] [LawfulBEq α] {xs : List α} (hxs : xs.Nodup) :
    xs.eraseDups = xs := by
  induction xs with
  | nil => rfl
  | cons x xs ih =>
      rw [List.nodup_cons] at hxs
      have hkeep : xs.filter (fun y => !y == x) = xs := by
        apply List.filter_eq_self.mpr
        intro y hy
        have hne : y ≠ x := fun heq => hxs.1 (heq ▸ hy)
        simpa using hne
      rw [List.eraseDups_cons, hkeep, ih hxs.2]

/-- An element that is there already adds nothing. This is the step of the loop at a recipient who
is in the list already. -/
theorem eraseDups_append_cons_of_mem {α : Type*} [BEq α] [LawfulBEq α] {xs ys : List α} {x : α}
    (hx : x ∈ xs) : (xs ++ x :: ys).eraseDups = (xs ++ ys).eraseDups := by
  have hskip : (x :: ys).removeAll xs = ys.removeAll xs := by
    unfold List.removeAll
    rw [List.filter_cons_of_neg]
    simpa using hx
  rw [List.eraseDups_append, List.eraseDups_append, hskip]

/-- The loop: `out` holds what has been found so far. The induction is on the entries that are left,
with `out` arbitrary; the bound is reached at most once. -/
theorem sanitizeLoop_eq (hnodup : out.Nodup) (hlen : out.length < maxRecipients) :
    sanitizeLoop u self raw out = ((out ++ otherDevices u self raw).eraseDups).take maxRecipients := by
  induction raw generalizing out with
  | nil =>
      have hnil : otherDevices u self [] = [] := rfl
      rw [hnil, List.append_nil, eraseDups_of_nodup hnodup, List.take_of_length_le hlen.le]
      rfl
  | cons id raw ih =>
      cases hparse : u.parse id with
      | none =>
          rw [otherDevices_none hparse, ← ih hnodup hlen]
          simp only [sanitizeLoop, hparse]
      | some x =>
          rw [otherDevices_some hparse]
          simp only [sanitizeLoop, hparse]
          by_cases hself : u.string x = self
          · rw [if_pos hself, if_pos hself]
            exact ih hnodup hlen
          · rw [if_neg hself, if_neg hself]
            by_cases hseen : u.string x ∈ out
            · rw [if_pos hseen, eraseDups_append_cons_of_mem hseen]
              exact ih hnodup hlen
            · have hnodup' : (out ++ [u.string x]).Nodup :=
                List.nodup_append.mpr ⟨hnodup, List.nodup_singleton _, by
                  intro a ha b hb hab
                  rw [List.mem_singleton.mp hb] at hab
                  exact hseen (hab ▸ ha)⟩
              have hcons : out ++ u.string x :: otherDevices u self raw =
                  (out ++ [u.string x]) ++ otherDevices u self raw := by simp
              rw [if_neg hseen, hcons]
              by_cases hfull : (out ++ [u.string x]).length = maxRecipients
              · -- the early cut-off: what follows would be cut off anyway
                rw [if_pos hfull, List.eraseDups_append, eraseDups_of_nodup hnodup', ← hfull,
                  List.take_left]
              · rw [if_neg hfull]
                refine ih hnodup' (lt_of_le_of_ne ?_ hfull)
                rw [List.length_append, List.length_singleton]
                exact hlen

/-- **`sanitizeRecipients`** returns the recipients, and whether there is any; for an empty request
it returns the empty list and `true`. -/
theorem sanitizeRecipients_eq (u : UUIDPackage) (raw : List GoString) (self : GoString) :
    sanitizeRecipients u raw self =
      if raw = [] then ([], true) else (recipientsOf u raw self, recipientsOf u raw self ≠ []) := by
  unfold sanitizeRecipients
  have hloop : sanitizeLoop u self raw [] = recipientsOf u raw self :=
    sanitizeLoop_eq List.nodup_nil (by decide)
  simp only [hloop, List.length_pos_iff]

/-! ## Who gets a directed message -/

/-- Some spelling of the device ID is in the list. -/
def Names (u : UUIDPackage) (ids : List GoString) (deviceID : GoString) : Prop :=
  ∃ id ∈ ids, ∃ x, u.parse id = some x ∧ u.string x = deviceID

/-- The recipients were named. So whoever is in the list was written by the sender, up to the form
of the UUID. -/
theorem names_of_mem_recipientsOf (hid : id ∈ recipientsOf u raw self) : Names u raw id := by
  have hmem := List.mem_eraseDups.mp (List.mem_of_mem_take hid)
  obtain ⟨spelling, hspelling, heq⟩ := List.mem_filterMap.mp (List.mem_filter.mp hmem).1
  obtain ⟨x, hx, hstring⟩ := Option.map_eq_some_iff.mp heq
  exact ⟨spelling, hspelling, x, hx, hstring⟩

/-- A message with recipients that is passed on has recipients, and all were named. -/
theorem screen_directed {device : Device} {m : ChatMessage} {toIDs : List GoString}
    (hto : m.toIDs ≠ []) (hscreen : screen u device m = some toIDs) :
    toIDs ≠ [] ∧ ∀ id ∈ toIDs, Names u m.toIDs id := by
  unfold screen at hscreen
  rw [sanitizeRecipients_eq, if_neg hto] at hscreen
  split at hscreen
  · cases hscreen
  · split at hscreen
    · cases hscreen
    · cases hany : decide (recipientsOf u m.toIDs device.id ≠ []) with
      | false =>
          rw [hany] at hscreen
          cases hscreen
      | true =>
          rw [hany] at hscreen
          obtain rfl := Option.some.inj hscreen
          exact ⟨of_decide_eq_true hany, fun id hid => names_of_mem_recipientsOf hid⟩

/-- An accepted message stays with its number, and its reader keeps its device. -/
theorem accepted_of_run {n : ℕ} {m : ChatMessage} {device : Device} (hreach : Reachable u c₀)
    (haccepted : c₀.shared.accepted[n]? = some (s, m))
    (hconn : ∃ cl, c₀.shared.conns s = some cl ∧ cl.device = device)
    (hrun : (machine u).Run Arrivals c₀ d) :
    Reachable u d ∧ d.shared.accepted[n]? = some (s, m) ∧
      ∃ cl, d.shared.conns s = some cl ∧ cl.device = device := by
  refine hrun.invariant (I := fun d => Reachable u d ∧ d.shared.accepted[n]? = some (s, m) ∧
    ∃ cl, d.shared.conns s = some cl ∧ cl.device = device) ⟨hreach, haccepted, hconn⟩ ?_
  rintro c act d ⟨hreach, haccepted, hconn⟩ harrive hexec
  refine ⟨hreach.exec harrive hexec, ?_, conn_exec hreach.valid hconn hexec⟩
  cases act with
  | spawn th =>
      obtain rfl := Option.some.inj hexec
      exact haccepted
  | env n =>
      obtain rfl := Option.some.inj hexec
      exact haccepted
  | run t k =>
      obtain ⟨th, h', th', fs, hth, hstep, rfl⟩ := (machine u).exec_run_iff.mp hexec
      have hvalid := hreach.valid
      -- sections only add to the accepted messages
      have hsound := step_sound hvalid.inv (hvalid.loc t th hth) (.of_step hstep)
      exact hsound.grows.accepted _ _ haccepted

/-- What is in a queue of a directed message got there past `visibleTo`. -/
theorem named_of_placed {n : ℕ} {m : ChatMessage} {sender : Device} (hreach : Reachable u d)
    (hto : m.toIDs ≠ []) (haccepted : d.shared.accepted[n]? = some (s, m))
    (hconn : ∃ reader, d.shared.conns s = some reader ∧ reader.device = sender)
    (hc : d.shared.conns c = some cl) (hf : f ∈ cl.placed) (he : e ∈ f.entries) (hn : e.seq = n) :
    cl.device.id = sender.id ∨ Names u m.toIDs cl.device.id := by
  have hinv : Inv u d.shared := hreach.valid.inv
  obtain ⟨⟨s', m', reader, hacc, hs, hsender, -, hscreen⟩, hvisible⟩ :=
    hinv.queue c cl hc f hf e he
  rw [hn, haccepted] at hacc
  obtain ⟨rfl, rfl⟩ := Prod.mk.inj (Option.some.inj hacc)
  obtain ⟨reader', hs', hdevice⟩ := hconn
  obtain rfl := Option.some.inj (hs.symm.trans hs')
  obtain ⟨hdirected, hnamed⟩ := screen_directed hto hscreen
  rcases (ChatMessage.visibleTo_iff _).mp hvisible with hall | hmem | ⟨device, hfrom, hid⟩
  · exact absurd hall hdirected
  · exact .inr (hnamed _ hmem)
  · rw [hsender] at hfrom
    obtain rfl := Option.some.inj hfrom
    left
    rw [← hdevice, hid]

/-- What `ReadPump` does with a message: nothing, or it hands it on under the next number. -/
theorem read_cases {m : ChatMessage} {sender : Client} (hs : c₀.shared.conns s = some sender)
    (hth : c₀.threads[t]? = some (.readPump s .read))
    (hread : (machine u).exec c₀ (.run t (.incoming m)) = some c₁) :
    c₁ = c₀ ∨ c₁.shared = c₀.shared.accept s m := by
  obtain ⟨th, h', th', fs, hth', hstep, rfl⟩ := (machine u).exec_run_iff.mp hread
  obtain rfl := Option.some.inj (hth.symm.trans hth')
  obtain ⟨x, hpump, heq⟩ := Option.map_eq_some_iff.mp hstep
  simp only [readStep, hs, Option.map_some] at hpump
  cases hscreen : screen u sender.device m with
  -- the message is rejected: the pump is at the next read, and nothing has changed
  | none =>
      rw [hscreen] at hpump
      cases hpump
      cases heq
      left
      obtain ⟨hlt, hget⟩ := List.getElem?_eq_some_iff.mp hth
      have hsame : c₀.threads.set t (.readPump s .read) = c₀.threads := by
        rw [← hget]
        exact List.set_getElem_self hlt
      simp only [List.append_nil, hsame]
  | some toIDs =>
      rw [hscreen] at hpump
      cases hpump
      cases heq
      exact .inr rfl

/-- **Directed messages stay directed**: `sanitizeRecipients` returns the first `maxRecipients`
different canonical forms of the entries that are other devices, and whether there is any. When a
`ReadPump` reads a message with recipients, it drops it, or in every configuration of every run from
there, each connection with the message in its queue belongs to the device of the sender or to a
device that was named. -/
theorem directed_message (u : UUIDPackage) :
    (∀ raw self, sanitizeRecipients u raw self =
      if raw = [] then ([], true) else (recipientsOf u raw self, recipientsOf u raw self ≠ [])) ∧
    ∀ (c₀ c₁ : ThreadPool.Config Hub Thread) (t : Tid) (s : Conn) (sender : Client)
      (m : ChatMessage), Reachable u c₀ → c₀.threads[t]? = some (.readPump s .read) →
      c₀.shared.conns s = some sender → m.toIDs ≠ [] →
      (machine u).exec c₀ (.run t (.incoming m)) = some c₁ →
      c₁ = c₀ ∨ ∀ d, (machine u).Run Arrivals c₁ d →
        ∀ (c : Conn) (cl : Client) (f : Frame) (e : Entry), d.shared.conns c = some cl →
          f ∈ cl.placed → e ∈ f.entries → e.seq = c₀.shared.accepted.length →
            cl.device.id = sender.device.id ∨ Names u m.toIDs cl.device.id := by
  refine ⟨sanitizeRecipients_eq u, ?_⟩
  intro c₀ c₁ t s sender m hreach hth hs hto hread
  rcases read_cases hs hth hread with hdropped | haccept
  · exact .inl hdropped
  · -- the message got the next number, under which all its copies are found
    right
    intro d hrun c cl f e hc hf he hn
    have hreach₁ : Reachable u c₁ := hreach.exec (fun _ heq => by cases heq) hread
    have haccepted : c₁.shared.accepted[c₀.shared.accepted.length]? = some (s, m) := by
      rw [haccept]
      exact List.getElem?_concat_length
    have hconn := conn_exec hreach.valid ⟨sender, hs, rfl⟩ hread
    obtain ⟨hreached, hlater, hconn'⟩ := accepted_of_run hreach₁ haccepted hconn hrun
    exact named_of_placed hreached hto hlater hconn' hc hf he hn

namespace Sample

/-- Thread `2` is the `ReadPump` of connection `0`, whose device is `[1]`, and no message has been
accepted. -/
def ready (c : ThreadPool.Config Hub Thread) : Bool :=
  (c.shared.conns 0).any (fun cl => cl.device.id = [1]) && c.shared.accepted.length = 0 &&
    match c.threads[2]? with
    | some (Thread.readPump 0 ReadPC.read) => true
    | _ => false

/-- The connection has a message with number 0 in its queue. -/
def hasMessage (cl : Client) : Bool :=
  cl.placed.any fun f => match f with
    | Frame.message e => e.seq = 0
    | _ => false

/-- What the test on a configuration says. It says that the sender is registered, that nothing has
been accepted and where the sender's reader stands. -/
theorem ready_iff {c : ThreadPool.Config Hub Thread} (h : ready c = true) :
    (∃ cl, c.shared.conns 0 = some cl ∧ cl.device.id = [1]) ∧ c.shared.accepted.length = 0 ∧
      c.threads[2]? = some (.readPump 0 .read) := by
  unfold ready at h
  rw [Bool.and_eq_true, Bool.and_eq_true] at h
  obtain ⟨⟨hconn, hnone⟩, hread⟩ := h
  obtain ⟨cl, hc, hid⟩ := (Option.any_eq_true _ _).mp hconn
  refine ⟨⟨cl, hc, of_decide_eq_true hid⟩, of_decide_eq_true hnone, ?_⟩
  split at hread
  · assumption
  · cases hread

/-- What the test on a client says. It says that the first message accepted has been placed in the
client's queue. -/
theorem hasMessage_iff {cl : Client} (h : hasMessage cl = true) :
    ∃ e : Entry, .message e ∈ cl.placed ∧ e.seq = 0 := by
  obtain ⟨f, hf, hseq⟩ := List.any_eq_true.mp h
  split at hseq
  · exact ⟨_, hf, of_decide_eq_true hseq⟩
  · cases hseq

end Sample

/-- A message to one device, whose id is given in capital letters. -/
theorem directed_message_upper : ∃ (d : ThreadPool.Config Hub Thread) (cl : Client) (e : Entry),
    d.shared.conns 3 = some cl ∧ .message e ∈ cl.placed ∧
      (cl.device.id = [1] ∨ Names Sample.uuidPackage [Sample.uuidUpper] cl.device.id) := by
  -- the recipient is named in upper case, which `sanitizeRecipients` normalises
  have hrun : ((machine Sample.uuidPackage).execAll (boot 1000000000 0) Sample.pairJoins).any
      fun c₀ => Sample.ready c₀ && ((machine Sample.uuidPackage).exec c₀
        (.run 2 (.incoming (Sample.hello [Sample.uuidUpper])))).any fun c₁ =>
          decide (c₁.shared.accepted.length = 1) &&
            ((machine Sample.uuidPackage).execAll c₁ Sample.deliverTo).any fun d =>
              (d.shared.conns 3).any Sample.hasMessage := by
    decide +kernel
  obtain ⟨c₀, hjoin, hrun⟩ := (Option.any_eq_true _ _).mp hrun
  obtain ⟨hready, hrun⟩ := (Bool.and_eq_true _ _).mp hrun
  obtain ⟨c₁, hread, hrun⟩ := (Option.any_eq_true _ _).mp hrun
  obtain ⟨haccepted, hrun⟩ := (Bool.and_eq_true _ _).mp hrun
  obtain ⟨d, hdeliver, hrun⟩ := (Option.any_eq_true _ _).mp hrun
  obtain ⟨cl, hc, hmessage⟩ := (Option.any_eq_true _ _).mp hrun
  obtain ⟨⟨sender, hs, hid⟩, hnone, hth⟩ := Sample.ready_iff hready
  obtain ⟨e, he, hseq⟩ := Sample.hasMessage_iff hmessage
  have hreach : Reachable Sample.uuidPackage c₀ := Sample.reachable_of_execAll (by decide) hjoin
  have hrun : (machine Sample.uuidPackage).Run Arrivals c₁ d :=
    .of_execAll (fun c act hact =>
      Sample.arrivals_of_tame (List.all_eq_true.mp (by decide) act hact) c) hdeliver
  rcases (directed_message Sample.uuidPackage).2 c₀ c₁ 2 0 sender (Sample.hello [Sample.uuidUpper])
    hreach hth hs (List.cons_ne_nil _ _) hread with rfl | hall
  · rw [hnone] at haccepted
    exact absurd haccepted (by decide)
  · have hwho := hall d hrun 3 cl _ e hc he (List.mem_singleton.mpr rfl) (hseq.trans hnone.symm)
    rw [hid] at hwho
    exact ⟨d, cl, e, hc, he, hwho⟩

end LanRoom.Chat
