import LanRoom.Chat.Wire
import LanRoom.Web.Stringify

/-! # What the page sends

`sendWS` of `web/static/app.js` with the payloads of `sendText` and `uploadAndSend`. The hub reads every
message as it was meant (`readIncoming_sendWS`); a surrogate without its partner arrives as the
replacement character. -/

namespace LanRoom.Web

open Double (eq_of_roundNumber)
open JsonText (Json IsInt)
open LanRoom.Go (Spells Spelled utf8 restored formatNat formatInt intJson decodeString
  decodeString_of_spells decodeInt_intJson decodeStruct_cons decodeStruct_nil decodeSlice_map
  runeError runes)

/-! ## Payloads -/

/-- `meta` of a file. -/
structure SentMeta where
  name : JSString
  size : ℕ
  mime : JSString

/-- The object `payload`; what is `undefined` is not written. -/
structure Payload where
  kind : JSString
  content : Option JSString := none
  fileId : Option JSString := none
  fileMeta : Option SentMeta := none

/-- A string that the program has written. -/
def literal (s : String) : JSString := utf16 s.toList

/-- The payload of `sendText`. -/
def textPayload (text : JSString) : Payload where
  kind := literal "text"
  content := some text

/-- The payload of `uploadAndSend`. -/
def filePayload (fileId : JSString) (result : SentMeta) : Payload where
  kind := if (literal "image/").isPrefixOf result.mime then literal "image" else literal "file"
  fileId := some fileId
  fileMeta := some result

/-! ## `JSON.stringify` -/

def stringJSON (s : JSString) : Json := .str (stringText s)

/-- A number that is not negative. -/
def numberJSON (n : ℕ) : Json := .num (utf8 (numberText n))

/-- The size is written by `number`. -/
def SentMeta.json (number : ℕ → Json) (m : SentMeta) : Json :=
  .obj [(goString "name", stringJSON m.name), (goString "size", number m.size),
    (goString "mime", stringJSON m.mime)]

/-- A member that may be `undefined`. -/
def optional (key : String) (v : Option Json) : List (Bytes × Json) :=
  (v.map fun v => (goString key, v)).toList

def Payload.json (number : ℕ → Json) (p : Payload) : Json :=
  .obj ((goString "kind", stringJSON p.kind) :: (optional "content" (p.content.map stringJSON) ++
    (optional "fileId" (p.fileId.map stringJSON) ++
      optional "meta" (p.fileMeta.map (SentMeta.json number)))))

def recipientsJSON (toIDs : List JSString) : Json := .arr (toIDs.map stringJSON)

/-- `sendWS`, on an open connection. -/
def sendWS (payload : Payload) (toIDs : List JSString) : Bytes :=
  (Json.obj ((goString "type", stringJSON (literal "message")) :: (goString "payload", payload.json numberJSON) ::
    optional "to" (if toIDs = [] then none else some (recipientsJSON toIDs)))).render

/-! ## What arrives -/

/-- A string in the hub. -/
def arrived (s : JSString) : GoString := restored (codePoints s)

def SentMeta.arrived (m : SentMeta) : Chat.FileMeta where
  name := Web.arrived m.name
  size := m.size
  mime := Web.arrived m.mime

def Payload.arrived (p : Payload) : Chat.MessagePayload where
  kind := Web.arrived p.kind
  content := (p.content.map Web.arrived).getD []
  fileID := (p.fileId.map Web.arrived).getD []
  fileMeta := p.fileMeta.map SentMeta.arrived

/-- The message that the hub reads. -/
def incoming (payload : Payload) (toIDs : List JSString) : Chat.ChatMessage where
  type := goString "message"
  toIDs := toIDs.map arrived
  payload := payload.arrived

/-! ## Numbers -/

/-- The shortest digits of a small number are its own. Below `2 ^ 53` every integer is a number of
JavaScript of its own. -/
theorem numberDigits_of_lt {d : ℕ} (h : d < 2 ^ 53) : numberDigits d = Nat.toDigits 10 d := by
  have hcandidate : ∀ j n, candidate? d j = some n → n = d := by
    intro j n hn
    unfold candidate? at hn
    dsimp only at hn
    split at hn
    · rename_i hlow
      rw [← Option.some.inj hn]
      exact eq_of_roundNumber h hlow.1
    · split at hn
      · rename_i hhigh
        rw [← Option.some.inj hn]
        exact eq_of_roundNumber h hhigh
      · cases hn
  unfold numberDigits
  congr 1
  cases hfind : (List.range 20).reverse.findSome? (candidate? d) with
  | none => rfl
  | some n =>
    obtain ⟨j, -, hj⟩ := List.exists_of_findSome?_eq_some hfind
    exact hcandidate j n hj

/-- The page and the server write a natural number with the same bytes. -/
theorem utf8_toDigits (n : ℕ) : utf8 (Nat.toDigits 10 n) = formatNat n := by
  have hdigit : ∀ k < 10, utf8 [Nat.digitChar k] = [Go.digit k] := by decide
  induction n using Nat.strongRecOn with
  | ind n ih =>
    by_cases hn : n < 10
    · rw [formatNat, if_pos hn, Nat.toDigits_of_lt_base hn]
      exact hdigit n hn
    · rw [formatNat, if_neg hn, Nat.toDigits_of_base_le (by decide) (Nat.not_lt.mp hn),
        Go.utf8_append, ih (n / 10) (by omega), hdigit _ (Nat.mod_lt n (by decide))]

/-- **A size is written exactly.** It is written as the server would write it. -/
theorem numberJSON_eq {n : ℕ} (h : n < 2 ^ 53) : numberJSON n = intJson n := by
  have htext : numberText n = Nat.toDigits 10 n := by
    have hneg : ¬(n : ℤ) < 0 := by omega
    rw [numberText, if_neg hneg, List.nil_append, Int.natAbs_natCast, numberDigits_of_lt h]
  have hformat : formatInt n = formatNat n := by
    rw [formatInt, if_neg (by omega), Int.natAbs_natCast]
  rw [numberJSON, htext, utf8_toDigits, intJson, hformat]

/-! ## Reading in the hub -/

variable {number : ℕ → Json} {old : GoString}

/-- A string the page has written arrives at the server as what is left of it in UTF-8. -/
theorem decodeString_stringJSON (s : JSString) : decodeString old (stringJSON s) = some (arrived s) :=
  decodeString_of_spells (spells_stringText s) old

/-- The size of a file is written as it is, and the hub can read it. -/
def SentMeta.Exact (number : ℕ → Json) (m : SentMeta) : Prop :=
  number m.size = intJson m.size ∧ m.size < 2 ^ 63

/-- The metadata of a file are read back, provided their size is written exactly. -/
theorem decodeMeta_json (m : SentMeta) (hexact : m.Exact number) :
    Chat.decodeMeta ⟨[], 0, []⟩ (m.json number) = some m.arrived := by
  have hname : ∀ x, Chat.decodeMetaField .name x (stringJSON m.name) =
      some { x with name := arrived m.name } := by
    intro x
    rw [Chat.decodeMetaField, decodeString_stringJSON, Option.map_some]
  have hnumber : ∀ x, Chat.decodeMetaField .size x (number m.size) = some { x with size := m.size } := by
    intro x
    have hlt := hexact.2
    rw [Chat.decodeMetaField, hexact.1, decodeInt_intJson (by omega) (by omega), Option.map_some]
  have hmime : ∀ x, Chat.decodeMetaField .mime x (stringJSON m.mime) =
      some { x with mime := arrived m.mime } := by
    intro x
    rw [Chat.decodeMetaField, decodeString_stringJSON, Option.map_some]
  unfold Chat.decodeMeta SentMeta.json
  rw [decodeStruct_cons (by decide) (by rfl : _ = goString "name") (hname _),
    decodeStruct_cons (by decide) (by rfl : _ = goString "size") (hnumber _),
    decodeStruct_cons (by decide) (by rfl : _ = goString "mime") (hmime _), decodeStruct_nil]
  rfl

/-- A member that may be missing. When it is missing the field keeps the value it had. -/
theorem decodeStruct_optional {F α : Type} {fs : Go.Fields F} {decode : F → Go.Decoder α} {f : F}
    {x y : α} {key : String} {v? : Option Json} {ms : List (Bytes × Json)} (hf : f ∈ fs.all)
    (hname : fs.name f = goString key) (hnone : v? = none → y = x)
    (hsome : ∀ v, v? = some v → decode f x v = some y) :
    Go.decodeStruct fs decode x (.obj (optional key v? ++ ms)) = Go.decodeStruct fs decode y (.obj ms) := by
  cases v? with
  | none =>
    rw [hnone rfl]
    rfl
  | some v => exact decodeStruct_cons hf hname (hsome v rfl)

def Payload.Exact (number : ℕ → Json) (p : Payload) : Prop := ∀ m ∈ p.fileMeta, m.Exact number

/-- **A payload is read back.** The four members are decoded in the order in which they are written;
each that is absent leaves its field as it was. -/
theorem decodePayload_json (p : Payload) (hexact : p.Exact number) :
    Chat.decodePayload { kind := [] } (p.json number) = some p.arrived := by
  -- one fact for each member, about what decoding it does to the payload read so far
  have hkind : Chat.decodePayloadField .kind { kind := [] } (stringJSON p.kind) =
      some { kind := arrived p.kind } := by
    rw [Chat.decodePayloadField, decodeString_stringJSON, Option.map_some]
  have hcontent : ∀ v, p.content.map stringJSON = some v →
      Chat.decodePayloadField .content { kind := arrived p.kind } v =
        some { kind := arrived p.kind, content := (p.content.map arrived).getD [] } := by
    intro v hv
    obtain ⟨content, heq, rfl⟩ := Option.map_eq_some_iff.mp hv
    rw [Chat.decodePayloadField, decodeString_stringJSON, heq]
    rfl
  have hfileId : ∀ x v, p.fileId.map stringJSON = some v →
      Chat.decodePayloadField .fileId x v =
        some { x with fileID := (p.fileId.map arrived).getD [] } := by
    intro x v hv
    obtain ⟨fileId, heq, rfl⟩ := Option.map_eq_some_iff.mp hv
    rw [Chat.decodePayloadField, decodeString_stringJSON, heq]
    rfl
  have hmeta : ∀ x v, x.fileMeta = none → p.fileMeta.map (SentMeta.json number) = some v →
      Chat.decodePayloadField .fileMeta x v =
        some { x with fileMeta := p.fileMeta.map SentMeta.arrived } := by
    intro x v hx hv
    obtain ⟨m, heq, rfl⟩ := Option.map_eq_some_iff.mp hv
    have hdecode := decodeMeta_json m (hexact m heq)
    rw [Chat.decodePayloadField, hx, heq]
    show ((Chat.decodeMeta ⟨[], 0, []⟩ (m.json number)).map some).map _ = _
    rw [hdecode]
    rfl
  -- the members in turn; the last three may be missing
  unfold Chat.decodePayload Payload.json
  rw [decodeStruct_cons (by decide) (by rfl : _ = goString "kind") hkind,
    decodeStruct_optional (f := .content) (by decide) rfl ?_ hcontent,
    decodeStruct_optional (f := .fileId) (by decide) rfl ?_ (hfileId _),
    ← List.append_nil (optional "meta" _),
    decodeStruct_optional (f := .fileMeta) (by decide) rfl ?_ (hmeta _ · rfl), decodeStruct_nil]
  · rfl
  · intro hnone
    rw [Option.map_eq_none_iff.mp hnone]
    rfl
  · intro hnone
    rw [Option.map_eq_none_iff.mp hnone]
    rfl
  · intro hnone
    rw [Option.map_eq_none_iff.mp hnone]
    rfl

/-- The recipients in a slice that has not been used before. -/
def arrivedSlice (toIDs : List JSString) : Go.Slice GoString where
  array := toIDs.map arrived
  length := toIDs.length

/-- The slice read holds the recipients in their order. What lies behind the length of a slice is
not seen. -/
theorem elements_arrivedSlice (toIDs : List JSString) :
    (arrivedSlice toIDs).elements = toIDs.map arrived := by
  rw [Go.Slice.elements, arrivedSlice, ← List.length_map (f := arrived), List.take_length]

/-- A list of recipients is read into a slice that was empty before. -/
theorem decodeSlice_recipientsJSON (toIDs : List JSString) :
    Go.decodeSlice [] decodeString {} (recipientsJSON toIDs) = some (arrivedSlice toIDs) :=
  decodeSlice_map [] decodeString stringJSON arrived toIDs fun s _ => decodeString_stringJSON s

/-! ## Messages -/

/-- The kind of a message is plain ASCII, so it arrives as it was written. -/
theorem arrived_literal : arrived (literal "message") = goString "message" := by decide +kernel

/-- The members of a message, into a variable that has none of them yet. -/
theorem decodeMessageField_type (m : Chat.MessageVariable) :
    Chat.decodeMessageField .type m (stringJSON (literal "message")) =
      some { m with type := goString "message" } := by
  rw [Chat.decodeMessageField, decodeString_stringJSON, arrived_literal, Option.map_some]

/-- The member `payload` is decoded into a message that has none yet. -/
theorem decodeMessageField_payload (m : Chat.MessageVariable) (hm : m.payload = { kind := [] })
    (payload : Payload) (hexact : payload.Exact number) :
    Chat.decodeMessageField .payload m (payload.json number) = some { m with payload := payload.arrived } := by
  rw [Chat.decodeMessageField, hm, decodePayload_json payload hexact, Option.map_some]

/-- The member `toIds` is decoded into a message that has no recipients yet. -/
theorem decodeMessageField_toIDs (m : Chat.MessageVariable) (hm : m.toIDs = {}) (toIDs : List JSString) :
    Chat.decodeMessageField .toIDs m (recipientsJSON toIDs) =
      some { m with toIDs := arrivedSlice toIDs } := by
  rw [Chat.decodeMessageField, hm, decodeSlice_recipientsJSON, Option.map_some]

/-! ### Their texts -/

/-- A string is spelled as the grammar has it. Its escapes are those of JSON, whatever its units
are. -/
theorem spelled_stringJSON (s : JSString) : Spelled (stringJSON s) := .str (spells_stringText s)

/-- The names that are written. -/
def names : List String :=
  ["type", "to", "payload", "kind", "content", "fileId", "meta", "name", "size", "mime"]

/-- The member names the page writes need no escape. They are plain ASCII. -/
theorem spells_names : ∀ key ∈ names, ∀ b ∈ goString key, Go.isPlainAscii b = true := by
  decide +kernel

/-- An object with these names. Everything that the page writes is of this form. -/
theorem spelled_obj {ms : List (Bytes × Json)}
    (h : ∀ m ∈ ms, (∃ key ∈ names, m.1 = goString key) ∧ Spelled m.2) : Spelled (.obj ms) := by
  refine .obj ?_ fun m hm => (h m hm).2
  intro m hm
  obtain ⟨key, hkey, heq⟩ := (h m hm).1
  rw [heq]
  exact ⟨_, Go.spells_of_plain (spells_names key hkey)⟩

/-- The metadata of a file are spelled as the grammar has them. -/
theorem spelled_meta (m : SentMeta) (hexact : m.Exact number) : Spelled (m.json number) := by
  apply spelled_obj
  intro x hx
  simp only [List.mem_cons, List.not_mem_nil, or_false] at hx
  rcases hx with rfl | rfl | rfl
  · exact ⟨⟨"name", by decide, rfl⟩, spelled_stringJSON _⟩
  · refine ⟨⟨"size", by decide, rfl⟩, ?_⟩
    rw [hexact.1]
    exact Go.spelled_intJson _
  · exact ⟨⟨"mime", by decide, rfl⟩, spelled_stringJSON _⟩

/-- An optional member is written when there is a value for it. -/
theorem mem_optional {key : String} {v? : Option Json} {m : Bytes × Json} :
    m ∈ optional key v? ↔ ∃ v, v? = some v ∧ m = (goString key, v) := by
  cases v? with
  | none => simp [optional]
  | some v => simp [optional]

/-- A payload is spelled as the grammar has it. Its size must be one that is written exactly. -/
theorem spelled_payload (p : Payload) (hexact : p.Exact number) : Spelled (p.json number) := by
  apply spelled_obj
  intro x hx
  rcases List.mem_cons.mp hx with rfl | hx
  · exact ⟨⟨"kind", by decide, rfl⟩, spelled_stringJSON _⟩
  · rcases List.mem_append.mp hx with hx | hx
    · obtain ⟨v, hv, rfl⟩ := mem_optional.mp hx
      obtain ⟨content, -, rfl⟩ := Option.map_eq_some_iff.mp hv
      exact ⟨⟨"content", by decide, rfl⟩, spelled_stringJSON _⟩
    · rcases List.mem_append.mp hx with hx | hx
      · obtain ⟨v, hv, rfl⟩ := mem_optional.mp hx
        obtain ⟨fileId, -, rfl⟩ := Option.map_eq_some_iff.mp hv
        exact ⟨⟨"fileId", by decide, rfl⟩, spelled_stringJSON _⟩
      · obtain ⟨v, hv, rfl⟩ := mem_optional.mp hx
        obtain ⟨m, hm, rfl⟩ := Option.map_eq_some_iff.mp hv
        exact ⟨⟨"meta", by decide, rfl⟩, spelled_meta m (hexact m hm)⟩

/-- A list of recipients is spelled as the grammar has it. It is a list of strings. -/
theorem spelled_recipientsJSON (toIDs : List JSString) : Spelled (recipientsJSON toIDs) :=
  Go.spelled_arr spelled_stringJSON toIDs

/-! ### Their depth -/

/-- The items of an array are no deeper than the deepest of them. -/
theorem itemsDepth_map {α : Type} {write : α → Json} {n : ℕ} (h : ∀ x, Go.depth (write x) ≤ n)
    (xs : List α) : Go.itemsDepth (xs.map write) ≤ n := by
  induction xs with
  | nil => exact Nat.zero_le n
  | cons x xs ih => exact max_le (h x) ih

/-- The members of an object are no deeper than the deepest of them. -/
theorem membersDepth_le {n : ℕ} {ms : List (Bytes × Json)} (h : ∀ m ∈ ms, Go.depth m.2 ≤ n) :
    Go.membersDepth ms ≤ n := by
  induction ms with
  | nil => exact Nat.zero_le n
  | cons m ms ih =>
    rw [List.forall_mem_cons] at h
    exact max_le h.1 (ih h.2)

/-- A payload is at most two levels deep, far from the limit of the decoder. -/
theorem depth_payload (p : Payload) (hexact : p.Exact number) : Go.depth (p.json number) ≤ 2 := by
  refine Nat.succ_le_succ (membersDepth_le ?_)
  intro x hx
  rcases List.mem_cons.mp hx with rfl | hx
  · exact Nat.zero_le 1
  · rcases List.mem_append.mp hx with hx | hx
    · obtain ⟨v, hv, rfl⟩ := mem_optional.mp hx
      obtain ⟨content, -, rfl⟩ := Option.map_eq_some_iff.mp hv
      exact Nat.zero_le 1
    · rcases List.mem_append.mp hx with hx | hx
      · obtain ⟨v, hv, rfl⟩ := mem_optional.mp hx
        obtain ⟨fileId, -, rfl⟩ := Option.map_eq_some_iff.mp hv
        exact Nat.zero_le 1
      · obtain ⟨v, hv, rfl⟩ := mem_optional.mp hx
        obtain ⟨m, hm, rfl⟩ := Option.map_eq_some_iff.mp hv
        unfold SentMeta.json
        rw [(hexact m hm).1]
        exact le_refl 1

/-- A list of recipients is one level deep. It is far below the nesting limit of the reader. -/
theorem depth_recipientsJSON (toIDs : List JSString) : Go.depth (recipientsJSON toIDs) ≤ 1 := by
  refine Nat.succ_le_succ (itemsDepth_map ?_ toIDs)
  intro s
  exact le_refl 0

/-! ### The round trip -/

/-- The members of a message, in any order in which `type` comes first. -/
structure Members (number : ℕ → Json) (payload : Payload) (toIDs : List JSString)
    (ms : List (Bytes × Json)) : Prop where
  mem : ∀ m ∈ ms, m = (goString "payload", payload.json number) ∨
    m = (goString "to", recipientsJSON toIDs)
  decode : ∀ m : Chat.MessageVariable, m.payload = { kind := [] } → m.toIDs = {} →
    Go.decodeStruct Chat.messageFields Chat.decodeMessageField m (.obj ms) =
      some { m with payload := payload.arrived, toIDs := arrivedSlice toIDs }

/-- Such a message is read. The members may be missing where the page leaves them out. -/
theorem Members.readIncoming {payload : Payload} {toIDs : List JSString} {ms : List (Bytes × Json)}
    (h : Members number payload toIDs ms) (hexact : payload.Exact number) :
    Chat.readIncoming
        (Json.obj ((goString "type", stringJSON (literal "message")) :: ms)).render =
      some (incoming payload toIDs) := by
  have hspelled : Spelled (.obj ((goString "type", stringJSON (literal "message")) :: ms)) := by
    apply spelled_obj
    intro x hx
    rcases List.mem_cons.mp hx with rfl | hx
    · exact ⟨⟨"type", by decide, rfl⟩, spelled_stringJSON _⟩
    · rcases h.mem x hx with rfl | rfl
      · exact ⟨⟨"payload", by decide, rfl⟩, spelled_payload payload hexact⟩
      · exact ⟨⟨"to", by decide, rfl⟩, spelled_recipientsJSON toIDs⟩
  have hdepth : Go.depth (.obj ((goString "type", stringJSON (literal "message")) :: ms)) ≤ 3 := by
    refine Nat.succ_le_succ (membersDepth_le ?_)
    intro x hx
    rcases List.mem_cons.mp hx with rfl | hx
    · exact Nat.zero_le 2
    · rcases h.mem x hx with rfl | rfl
      · exact depth_payload payload hexact
      · exact Nat.le_succ_of_le (depth_recipientsJSON toIDs)
  unfold Chat.readIncoming
  rw [Go.unmarshal_render _ _ hspelled (le_trans hdepth (by decide))]
  unfold Chat.decodeMessage
  rw [decodeStruct_cons (by decide) (by rfl : _ = goString "type") (decodeMessageField_type _),
    h.decode _ rfl rfl, Option.map_some, Chat.MessageVariable.message, elements_arrivedSlice]
  rfl

/-- **The hub reads what the page sends.** Together with the codec of the frames this gives the way
from page to page. -/
theorem readIncoming_sendWS (payload : Payload) (hexact : payload.Exact numberJSON)
    (toIDs : List JSString) :
    Chat.readIncoming (sendWS payload toIDs) = some (incoming payload toIDs) := by
  refine Members.readIncoming (?_ : Members numberJSON _ _ _) hexact
  refine ⟨?_, ?_⟩
  · intro m hm
    rcases List.mem_cons.mp hm with rfl | hm
    · exact Or.inl rfl
    · obtain ⟨v, hv, rfl⟩ := mem_optional.mp hm
      split at hv
      · cases hv
      · exact Or.inr (by rw [Option.some.inj hv])
  · intro m hpayload htoIDs
    rw [decodeStruct_cons (by decide) (by rfl : _ = goString "payload")
      (decodeMessageField_payload m hpayload payload hexact), ← List.append_nil (optional "to" _),
      decodeStruct_optional (f := .toIDs) (by decide) rfl ?_ ?_, decodeStruct_nil]
    · intro hnone
      split at hnone
      · rename_i hnil
        rw [hnil, htoIDs]
        rfl
      · cases hnone
    · intro v hv
      split at hv
      · cases hv
      · rw [← Option.some.inj hv]
        exact decodeMessageField_toIDs { m with payload := payload.arrived } htoIDs toIDs

/-- A size that is written exactly. Larger ones need not be, since they are rounded. -/
theorem SentMeta.exact_of_lt {m : SentMeta} (h : m.size < 2 ^ 53) : m.Exact numberJSON :=
  ⟨numberJSON_eq h, h.trans (by decide)⟩

end LanRoom.Web
