import LanRoom.Chat.Outline

/-! # Who sees a message and who wrote it

Every chat message in a queue got there live, by a retry or in a history frame, and on each of these
ways past `visibleTo`; and it carries the device of the connection that read it, whatever the
incoming message said about its sender. -/

namespace LanRoom.Chat

open ThreadPool (Act)

variable {u : UUIDPackage} {c : Conn} {cl : Client} {f : Frame} {e : Entry} {deviceID : GoString}

/-- What `visibleTo` means. A message is shown to everyone if it has no recipients, and otherwise to
those and to its sender. -/
theorem ChatMessage.visibleTo_iff (m : ChatMessage) : m.visibleTo deviceID = true ↔
    m.toIDs = [] ∨ deviceID ∈ m.toIDs ∨ ∃ d, m.sender = some d ∧ d.id = deviceID := by
  unfold visibleTo
  rw [Bool.or_eq_true, Bool.or_eq_true, List.isEmpty_iff, Option.any_eq_true, List.any_eq_true]
  constructor
  · rintro ((hnil | ⟨d, hd, hid⟩) | ⟨id, hmem, hid⟩)
    · exact .inl hnil
    · exact .inr (.inr ⟨d, hd, of_decide_eq_true hid⟩)
    · obtain rfl := of_decide_eq_true hid
      exact .inr (.inl hmem)
  · rintro (hnil | hmem | ⟨d, hd, hid⟩)
    · exact .inl (.inl hnil)
    · exact .inr ⟨deviceID, hmem, decide_eq_true rfl⟩
    · exact .inl (.inr ⟨d, hd, decide_eq_true hid⟩)

/-- **Direct messages stay private, and nobody can write in another's name**: in every configuration
the hub can get into, a chat message ever placed in the queue of a connection `c` is for everyone,
for the device of `c`, or from the device of `c`; and it was made from an incoming message that a
connection `s` read, whose device is its sender. -/
theorem placed_private {d : ThreadPool.Config Hub Thread} (hreach : Reachable u d)
    (hc : d.shared.conns c = some cl) (hf : f ∈ cl.placed) (he : e ∈ f.entries) :
    (e.msg.toIDs = [] ∨ cl.device.id ∈ e.msg.toIDs ∨
        ∃ from', e.msg.sender = some from' ∧ from'.id = cl.device.id) ∧
      ∃ (s : Conn) (incoming : ChatMessage) (reader : Client),
        d.shared.accepted[e.seq]? = some (s, incoming) ∧ d.shared.conns s = some reader ∧
          e.msg.sender = some reader.device ∧ e.msg.payload = incoming.payload := by
  have hinv : Inv u d.shared := hreach.valid.inv
  obtain ⟨⟨s, m, reader, hacc, hs, hsender, hpayload, -⟩, hvisible⟩ := hinv.queue c cl hc f hf e he
  exact ⟨(ChatMessage.visibleTo_iff _).mp hvisible, s, m, reader, hacc, hs, hsender, hpayload⟩

namespace Sample

/-- A device ID. -/
def uuidText : GoString := goString "aaaaaaaa-0000-4000-8000-000000000001"

/-- Another spelling of it. -/
def uuidUpper : GoString := goString "AAAAAAAA-0000-4000-8000-000000000001"

/-- The UUID. -/
def uuidBytes : UUID := #v[0xaa, 0xaa, 0xaa, 0xaa, 0, 0, 0x40, 0, 0x80, 0, 0, 0, 0, 0, 0, 1]

/-- What `google/uuid` does with the two. -/
def uuidPackage : UUIDPackage where
  parse s := if s = uuidText ∨ s = uuidUpper then some uuidBytes else none
  string x := if x = uuidBytes then uuidText else []

/-- The connections `0` and `3`; the second has the device with that ID. -/
def pairJoins : List (Act Thread Choice ℕ) :=
  joins ++ [.spawn (.register (.start { id := uuidText }))] ++ go 3 4 ++ broadcastPresence 3 [0, 3]

/-- `SendMessage`, once the message has been read. -/
def deliverTo : List (Act Thread Choice ℕ) := go 2 2 ++ [iterate 2 [0, 3]] ++ go 2 3

/-- The frame is a message of the device `[1]` for somebody in particular. -/
def isDirected : Frame → Bool
  | .message e => decide (e.msg.toIDs ≠ []) && e.msg.sender.any fun from' => decide (from'.id = [1])
  | _ => false

end Sample

/-- A message from one device to another, in the queue of the one it is for. -/
theorem placed_private_directed : ∃ (d : ThreadPool.Config Hub Thread) (cl : Client) (e : Entry),
    Reachable Sample.uuidPackage d ∧ d.shared.conns 3 = some cl ∧ .message e ∈ cl.placed ∧
      cl.device.id ∈ e.msg.toIDs ∧
      ∃ (s : Conn) (incoming : ChatMessage) (reader : Client),
        d.shared.accepted[e.seq]? = some (s, incoming) ∧ d.shared.conns s = some reader ∧
          reader.device.id ≠ cl.device.id ∧ e.msg.sender = some reader.device ∧
          e.msg.payload = incoming.payload := by
  have hrun : ((machine Sample.uuidPackage).execAll (boot 1000000000 0)
      (Sample.pairJoins ++ [.run 2 (.incoming (Sample.hello [Sample.uuidUpper]))] ++
        Sample.deliverTo)).any fun d =>
          (d.shared.conns 3).any fun cl => decide (cl.device.id ≠ [1]) &&
            cl.placed.any Sample.isDirected := by
    decide +kernel
  obtain ⟨d, hexec, hrun⟩ := (Option.any_eq_true _ _).mp hrun
  obtain ⟨cl, hc, hrun⟩ := (Option.any_eq_true _ _).mp hrun
  obtain ⟨hid, hrun⟩ := (Bool.and_eq_true _ _).mp hrun
  obtain ⟨f, hf, hdirected⟩ := List.any_eq_true.mp hrun
  unfold Sample.isDirected at hdirected
  split at hdirected
  · rename_i e
    obtain ⟨hto, hsender⟩ := (Bool.and_eq_true _ _).mp hdirected
    obtain ⟨from', hfrom, hone⟩ := (Option.any_eq_true _ _).mp hsender
    have hid : cl.device.id ≠ [1] := of_decide_eq_true hid
    have hone : from'.id = [1] := of_decide_eq_true hone
    have hreach : Reachable Sample.uuidPackage d := Sample.reachable_of_execAll (by decide) hexec
    obtain ⟨hvisible, s, incoming, reader, haccepted, hs, hwriter, hpayload⟩ :=
      placed_private hreach hc hf (List.mem_singleton.mpr rfl)
    have hreader : reader.device.id ≠ cl.device.id := by
      obtain rfl := Option.some.inj (hfrom.symm.trans hwriter)
      exact fun heq => hid (heq.symm.trans hone)
    refine ⟨d, cl, e, hreach, hc, hf, ?_, s, incoming, reader, haccepted, hs, hreader, hwriter,
      hpayload⟩
    -- the message is not for everyone, and not from the receiver
    rcases hvisible with hnil | hnamed | ⟨from₂, hfrom₂, hself⟩
    · exact absurd hnil (of_decide_eq_true hto)
    · exact hnamed
    · obtain rfl := Option.some.inj (hwriter.symm.trans hfrom₂)
      exact absurd hself hreader
  · cases hdirected

end LanRoom.Chat
