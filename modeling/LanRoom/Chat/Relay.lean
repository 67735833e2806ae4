import LanRoom.Chat.Directed
import LanRoom.Mobile.Frames

/-! # From one device to another

What a device has sent, the page or the app, is what the other devices show: the bytes of the frames
that the hub writes are followed from `readIncoming` to `onmessage` and `listen`, over every run of the
hub. -/

namespace LanRoom.Chat

open LanRoom.Go (runes)
open ThreadPool (Act)

variable {u : UUIDPackage} {c : Conn} {cl : Client} {f : Frame} {e : Entry}
  {d : ThreadPool.Config Hub Thread}

/-! ## Strings -/

/-- A string as it is shown elsewhere: a surrogate without its partner is replaced. -/
def shown (s : Web.JSString) : Web.Text :=
  (Web.codePoints s).map fun c => c.getD (Char.ofNat Go.runeError)

/-- What arrives of a string are the characters it shows. Surrogates that are not paired are shown
as the replacement character on both ways. -/
theorem runes_arrived (s : Web.JSString) : runes (Web.arrived s) = shown s :=
  Go.runes_utf8 _

/-- A string that is well formed stays as it is. Nothing in it has to be replaced. -/
theorem shown_utf16 (s : Web.Text) : shown (Web.utf16 s) = s := by
  unfold shown
  rw [Web.codePoints_utf16, List.map_map]
  exact List.map_id s

/-- A payload as it is shown elsewhere. -/
def shownPayload (p : Web.Payload) : Web.MessagePayload where
  kind := shown p.kind
  content := (p.content.map shown).getD []
  fileId := (p.fileId.map shown).getD []
  meta? := p.fileMeta.map fun m => ⟨shown m.name, m.size⟩

/-- A payload is shown as what has arrived of it. Both sides take the same fields; only the strings
in them can have been changed on the way. -/
theorem viewPayload_arrived (p : Web.Payload) : Web.viewPayload p.arrived = shownPayload p := by
  have hgetD : ∀ s : Option Web.JSString,
      runes ((s.map Web.arrived).getD []) = (s.map shown).getD [] := by
    intro s
    cases s with
    | none => rfl
    | some s => exact runes_arrived s
  have hmeta : p.arrived.fileMeta.map Web.viewMeta = p.fileMeta.map fun m => ⟨shown m.name, m.size⟩ := by
    show (p.fileMeta.map Web.SentMeta.arrived).map Web.viewMeta = _
    rw [Option.map_map]
    apply Option.map_congr
    intro m _
    show (⟨runes (Web.arrived m.name), (m.size : ℤ)⟩ : Web.FileMeta) = _
    rw [runes_arrived]
  unfold Web.viewPayload shownPayload
  rw [hmeta]
  show Web.MessagePayload.mk (runes (Web.arrived p.kind)) (runes ((p.content.map Web.arrived).getD []))
    (runes ((p.fileId.map Web.arrived).getD [])) _ = _
  rw [runes_arrived, hgetD, hgetD]

/-! ## Frames in the queues -/

/-- A chat frame carries a message of type `message`, in every reachable configuration. -/
theorem Reachable.typed (hreach : Reachable u d) (hc : d.shared.conns c = some cl) (hf : f ∈ cl.placed) :
    ∀ e, f = .message e → e.msg.type = goString "message" := by
  rintro e rfl
  have hplaced : Frame.message e ∈ d.shared.placed c := by
    rw [Hub.placed_of_conn hc]
    exact hf
  exact (hreach.traffic.queue c _ hplaced e (List.mem_singleton.mpr rfl)).type

/-- **Both readers read every frame** that the hub places in a queue, in every configuration that it
can get into: the page as `viewFrame`, and the app as `shownOf`. -/
theorem frames_read (hreach : Reachable u d) (hc : d.shared.conns c = some cl) (hf : f ∈ cl.placed)
    (toText : JsonText.Json → Mobile.DartString) (ownID : Option Mobile.DartString) :
    Web.onmessage f.marshal = some (Web.viewFrame f) ∧
      (Mobile.listen f.marshal).map (Mobile.RoomFrame.shown toText ownID) =
        some (Mobile.shownOf ownID f) :=
  ⟨Web.onmessage_of_typed f (hreach.typed hc hf), Mobile.listen_of_typed f (hreach.typed hc hf)⟩

/-! ## Messages -/

/-- A device sends a message: its bytes. -/
inductive Sent (payload : Web.Payload) (toIDs : List Web.JSString) : Bytes → Prop
  | page (hexact : payload.Exact Web.numberJSON) : Sent payload toIDs (Web.sendWS payload toIDs)
  | app (hsize : ∀ m ∈ payload.fileMeta, m.size < 2 ^ 63) : Sent payload toIDs (Mobile.send payload toIDs)

/-- **The hub reads what a device sends**, whatever its strings are. There is one case for the page
and one for the app, which write the same value in different texts. -/
theorem readIncoming_of_sent {payload : Web.Payload} {toIDs : List Web.JSString} {bytes : Bytes}
    (h : Sent payload toIDs bytes) : readIncoming bytes = some (Web.incoming payload toIDs) := by
  cases h with
  | page hexact => exact Web.readIncoming_sendWS payload hexact toIDs
  | app hsize => exact Mobile.readIncoming_send payload hsize toIDs

/-- A payload with an unpaired surrogate is read with the replacement character in its place. -/
theorem readIncoming_lone : readIncoming (Mobile.send (Web.textPayload [0xD800, 0x61]) []) =
    some (Web.incoming (Web.textPayload [0xD800, 0x61]) []) :=
  readIncoming_of_sent (.app nofun)

/-- The text below the title in the app. -/
def bodyOf (p : Web.MessagePayload) : Web.Text :=
  if p.kind = "file".toList ∨ p.kind = "image".toList then p.meta?.elim "下载文件".toList Web.FileMeta.name
  else p.content

/-- The app and the page show the same body. Text, file and unknown payloads are told apart by the
same test in both clients. -/
theorem body_bubbleOf (ownID : Option Mobile.DartString) (m : ChatMessage) :
    (Mobile.bubbleOf ownID m).body = bodyOf (Web.viewPayload m.payload) := by
  have hname : (m.payload.fileMeta.elim "下载文件".toList fun x => runes x.name) =
      (m.payload.fileMeta.map Web.viewMeta).elim "下载文件".toList Web.FileMeta.name := by
    cases m.payload.fileMeta with
    | none => rfl
    | some x => rfl
  unfold Mobile.bubbleOf Mobile.isFile bodyOf
  simp only [hname, decide_eq_true_eq]
  rfl

/-- Recipients that pass are none only when none were asked for. A directed message whose recipients
are all invalid is refused and not sent to everyone. -/
theorem toIDs_eq_nil_iff {device : Device} {m : ChatMessage} {toIDs : List GoString}
    (h : screen u device m = some toIDs) : toIDs = [] ↔ m.toIDs = [] := by
  by_cases hnil : m.toIDs = []
  · unfold screen sanitizeRecipients at h
    rw [if_pos hnil] at h
    split at h
    · cases h
    · split at h
      · cases h
      · rw [← Option.some.inj h]
        exact iff_of_true rfl hnil
  · exact iff_of_false (screen_directed hnil h).1 hnil

/-- A message as the other devices show it: the payload that was sent, in the name of the device that
sent it, for everyone if it was sent to everyone, and with the names of its recipients. -/
structure ShownAs (ownID : Option Mobile.DartString) (reader : Client) (p : Web.Payload)
    (toIDs : List Web.JSString) (m : ChatMessage) : Prop where
  payload : (Web.viewMessage m).payload = shownPayload p
  body : (Mobile.bubbleOf ownID m).body = bodyOf (shownPayload p)
  sender : (Web.viewMessage m).sender = some (Web.viewDevice reader.device)
  everyone : (Web.viewMessage m).toIDs = [] ↔ toIDs = []
  recipients : (Web.viewMessage m).recipients.map Web.Device.id = (Web.viewMessage m).toIDs

/-- **What a device sends is what the others show.** Every frame with the message that lies in any
queue is shown as what was typed and picked, by page and app alike. -/
theorem relayed {payload : Web.Payload} {toIDs : List Web.JSString} {bytes : Bytes} {s : Conn}
    {m : ChatMessage} (hreach : Reachable u d) (hc : d.shared.conns c = some cl) (hf : f ∈ cl.placed)
    (he : e ∈ f.entries) (hsent : Sent payload toIDs bytes) (hread : readIncoming bytes = some m)
    (hacc : d.shared.accepted[e.seq]? = some (s, m)) (ownID : Option Mobile.DartString) :
    ∃ reader, d.shared.conns s = some reader ∧ ShownAs ownID reader payload toIDs e.msg := by
  obtain rfl := Option.some.inj ((readIncoming_of_sent hsent).symm.trans hread)
  have hinv : Inv u d.shared := hreach.valid.inv
  obtain ⟨⟨s', m', reader, hacc', hs, hsender, hpayload, hscreen⟩, -⟩ := hinv.queue c cl hc f hf e he
  obtain ⟨rfl, rfl⟩ := Prod.mk.inj (Option.some.inj (hacc'.symm.trans hacc))
  have hplaced : f ∈ d.shared.placed c := by
    rw [Hub.placed_of_conn hc]
    exact hf
  have hlabelled := hreach.traffic.queue c f hplaced e he
  refine ⟨reader, hs, ?_, ?_, ?_, ?_, ?_⟩
  · show Web.viewPayload e.msg.payload = _
    rw [hpayload]
    exact viewPayload_arrived payload
  · rw [body_bubbleOf, hpayload]
    exact congrArg bodyOf (viewPayload_arrived payload)
  · show e.msg.sender.map Web.viewDevice = _
    rw [hsender]
    rfl
  · show e.msg.toIDs.map runes = [] ↔ toIDs = []
    rw [List.map_eq_nil_iff, toIDs_eq_nil_iff hscreen]
    exact List.map_eq_nil_iff
  · show (e.msg.recipients.map Web.viewDevice).map Web.Device.id = e.msg.toIDs.map runes
    rw [← hlabelled.recipients, List.map_map, List.map_map]
    rfl

/-! ## A run -/

namespace Sample

/-- A text for everyone. -/
def note : Web.Payload := Web.textPayload (Web.literal "a")

/-- Thread `0` registers, and then sends it. -/
def noteSent : List (Act Thread Choice ℕ) :=
  joins ++ [.run 2 (.incoming (Web.incoming note []))] ++ go 2 1 ++ [iterate 2 [0]] ++ go 2 2

/-- The frame of the first message. -/
def isFirst : Frame → Bool
  | .message e => e.seq = 0
  | _ => false

/-- The message is in the queue. -/
def hasNote (d : ThreadPool.Config Hub Thread) : Bool :=
  d.shared.accepted[0]? = some (0, Web.incoming note []) &&
    (d.shared.conns 0).any fun cl => cl.placed.any isFirst

/-- The note is sent and placed. The schedule is run by evaluation, once for both runs below. -/
theorem noteSent_hasNote :
    ((machine uuids).execAll (boot 1000000000 0) noteSent).any hasNote = true := by
  decide +kernel

/-- What the test on a configuration says. The client it was placed for and the entry are made
explicit. -/
theorem hasNote_spec (h : hasNote d = true) : ∃ cl e, d.shared.conns 0 = some cl ∧
    .message e ∈ cl.placed ∧ d.shared.accepted[e.seq]? = some (0, Web.incoming note []) := by
  unfold hasNote at h
  rw [Bool.and_eq_true, decide_eq_true_eq] at h
  obtain ⟨hacc, hqueue⟩ := h
  obtain ⟨cl, hc, hany⟩ := (Option.any_eq_true _ _).mp hqueue
  obtain ⟨f, hf, hfirst⟩ := List.any_eq_true.mp hany
  unfold isFirst at hfirst
  split at hfirst
  · rename_i e
    rw [decide_eq_true_eq] at hfirst
    exact ⟨cl, e, hc, hf, by rw [hfirst]; exact hacc⟩
  · cases hfirst

end Sample

/-- The note is read by the page and by the app. It is the frame of the first message in the queue
of a client in a real run. -/
theorem frames_read_note : ∃ (d : ThreadPool.Config Hub Thread) (cl : Client) (e : Entry),
    d.shared.conns 0 = some cl ∧ .message e ∈ cl.placed ∧
      Web.onmessage (Frame.marshal (.message e)) = some (Web.viewFrame (.message e)) ∧
        (Mobile.listen (Frame.marshal (.message e))).map (Mobile.RoomFrame.shown (fun _ => []) none) =
          some (Mobile.shownOf none (.message e)) := by
  obtain ⟨d, hexec, hnote⟩ := (Option.any_eq_true _ _).mp Sample.noteSent_hasNote
  obtain ⟨cl, e, hc, hf, -⟩ := Sample.hasNote_spec hnote
  have hreach : Reachable Sample.uuids d := Sample.reachable_of_execAll (by decide +kernel) hexec
  exact ⟨d, cl, e, hc, hf, frames_read hreach hc hf (fun _ => []) none⟩

/-- The note is shown as it was sent. The hypotheses are met in the run that the test has found. -/
theorem relayed_note : ∃ (d : ThreadPool.Config Hub Thread) (cl : Client) (e : Entry) (reader : Client),
    d.shared.conns 0 = some cl ∧ .message e ∈ cl.placed ∧ d.shared.conns 0 = some reader ∧
      ShownAs none reader Sample.note [] e.msg := by
  obtain ⟨d, hexec, hnote⟩ := (Option.any_eq_true _ _).mp Sample.noteSent_hasNote
  obtain ⟨cl, e, hc, hf, hacc⟩ := Sample.hasNote_spec hnote
  have hreach : Reachable Sample.uuids d := Sample.reachable_of_execAll (by decide +kernel) hexec
  have hsent : Sent Sample.note [] (Web.sendWS Sample.note []) := .page nofun
  obtain ⟨reader, hs, hshown⟩ := relayed hreach hc hf (List.mem_singleton.mpr rfl) hsent
    (readIncoming_of_sent hsent) hacc none
  exact ⟨d, cl, e, reader, hc, hf, hs, hshown⟩

end LanRoom.Chat
