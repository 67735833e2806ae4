import LanRoom.Data.SelfDelimiting
import LanRoom.Web.Message

/-! # The list of devices on the page

`renderDevices` and `setSendTarget` of `web/static/app.js`. A presence frame brings the users that are
online. The page draws one entry for each of them, and draws the list again when its signature, the
JSON text of what the users are, has changed. -/

namespace LanRoom.Web

open SelfDelimiting (Delimited Avoids bracket)

/-- A user in a presence frame. -/
structure User where
  id : Text
  name : Text
  ip : Text
  platform : Text
  deriving DecidableEq

/-! ## Labels -/

/-- A property of an object that counts, as far as the code tells values apart. -/
inductive Slot
  | undefined
  | number (n : ℕ)
  /-- A function or an object, or a text that has one in front. -/
  | other
  deriving DecidableEq

/-- `(v || 0) + 1`. -/
def Slot.incr : Slot → Slot
  | .undefined => .number 1
  | .number n => .number (n + 1)
  | .other => .other

/-- `v > 1`. -/
def Slot.exceedsOne : Slot → Bool
  | .number n => 1 < n
  | _ => false

/-- `${v}`, of a number. A list is not so long that numbers are rounded. -/
def Slot.text : Slot → Text
  | .number n => Nat.toDigits 10 n
  | _ => []

/-- `{}`: what every object inherits is there. -/
def emptyObject (key : Text) : Slot := if key ∈ inherited then .other else .undefined

/-- `count[key] = (count[key] || 0) + 1`. -/
def increment (count : Text → Slot) (key : Text) : Text → Slot :=
  Function.update count key (count key).incr

/-- The name of a device that has given none. -/
def anonymous : Text := "匿名设备".toList

/-- `user.name || "匿名设备"`. -/
def User.shownName (u : User) : Text := orElse u.name anonymous

/-- `nameCount`. -/
def nameCount (users : List User) : Text → Slot :=
  users.foldl (fun count u => increment count u.shownName) emptyObject

/-- `${displayName} #${nameIndex[displayName]}`. -/
def numbered (name : Text) (index : Slot) : Text := name ++ " #".toList ++ index.text

/-- The display names that the second pass computes. -/
def displayNames (count : Text → Slot) : (Text → Slot) → List User → List Text
  | _, [] => []
  | index, u :: users =>
      let name := u.shownName
      if (count name).exceedsOne then
        let index := increment index name
        numbered name (index name) :: displayNames count index users
      else name :: displayNames count index users

/-- The labels of the entries. -/
def labels (users : List User) : List Text := displayNames (nameCount users) emptyObject users

/-- Every device has one label. There is one round of the loop for each of them. -/
theorem length_displayNames (count index : Text → Slot) (users : List User) :
    (displayNames count index users).length = users.length := by
  induction users generalizing index with
  | nil => rfl
  | cons u users ih =>
    rw [displayNames]
    by_cases h : (count u.shownName).exceedsOne = true
    · rw [if_pos h]
      simp only [List.length_cons, ih]
    · rw [if_neg h]
      simp only [List.length_cons, ih]

/-- Every device has one label. So the list on screen has as many entries as the frame. -/
theorem length_labels (users : List User) : (labels users).length = users.length :=
  length_displayNames _ _ users

/-! ## The signature -/

/-- The letter that stands for a character behind a backslash. -/
def escapeLetter (c : Char) : Option Char :=
  if c = '"' then some '"'
  else if c = '\\' then some '\\'
  else if c.toNat = 0x08 then some 'b'
  else if c.toNat = 0x09 then some 't'
  else if c.toNat = 0x0A then some 'n'
  else if c.toNat = 0x0C then some 'f'
  else if c.toNat = 0x0D then some 'r'
  else none

/-- A character in a JSON text that `JSON.stringify` writes. -/
def quoteChar (c : Char) : Text :=
  match escapeLetter c with
  | some letter => ['\\', letter]
  | none =>
      if c.toNat < 0x20 then
        ['\\', 'u', '0', '0', Nat.digitChar (c.toNat / 16), Nat.digitChar (c.toNat % 16)]
      else [c]

/-- `JSON.stringify` of a string. -/
def quote (s : Text) : Text := '"' :: (s.flatMap quoteChar ++ ['"'])

/-- `JSON.stringify` of an array. -/
def stringifyArray (elements : List Text) : Text := bracket '[' ',' ']' elements

/-- `JSON.stringify([u.id, u.name, u.ip, u.platform])`. -/
def User.stringify (u : User) : Text :=
  stringifyArray ([u.id, u.name, u.ip, u.platform].map quote)

/-- `signature`. -/
def signature (users : List User) : Text := stringifyArray (users.map User.stringify)

/-! ## Entries -/

/-- `sendTarget`. -/
structure Target where
  id : Text
  name : Text
  deriving DecidableEq

/-- The icon of an entry that can be selected. -/
def checkIcon : Text :=
  "<svg class=\"icon check-icon\" aria-hidden=\"true\"><use href=\"#i-check-circle\"/></svg>".toList

/-- `innerHTML` of an entry. -/
def deviceHTML (u : User) (label : Text) (isSelf : Bool) : Text :=
  "
      ".toList ++ avatarHTML u.platform [] true ++ "
      <span class=\"device-text\">
        <span class=\"device-name\"><span class=\"device-name-text\">".toList ++ escapeHTML label ++
    "</span>".toList ++ (if isSelf then "<span class=\"self-chip\">本机</span>".toList else []) ++
    "</span>
        <span class=\"device-sub mono\">".toList ++ escapeHTML (platformOf u.platform).label ++
    " · ".toList ++ escapeHTML (orElse u.ip "未知 IP".toList) ++ "</span>
      </span>
      ".toList ++ (if isSelf then [] else checkIcon) ++ "
    ".toList

/-- An entry of the list. -/
structure Item where
  label : Text
  /-- It is the own device: a `div`, not a button. -/
  isSelf : Bool
  /-- What `dataset` has, if the entry is `selectable`. -/
  dataset : Option Target
  selected : Bool
  innerHTML : Text
  deriving DecidableEq

/-- The entry of a user. -/
def drawItem (deviceId : Option Text) (sendTarget : Option Target) (label : Text) (u : User) : Item :=
  let isSelf := decide (deviceId = some u.id)
  { label
    isSelf
    dataset := if isSelf then none else some ⟨u.id, label⟩
    selected := !isSelf && sendTarget.any fun t => decide (t.id = u.id)
    innerHTML := deviceHTML u label isSelf }

/-- A full redraw. -/
def draw (users : List User) (deviceId : Option Text) (sendTarget : Option Target) : List Item :=
  List.zipWith (drawItem deviceId sendTarget) (labels users) users

/-! ## The page -/

/-- The variables that the list depends on, and what is on screen. -/
structure DeviceList where
  onlineUsers : List User := []
  devicesSignature : Text := []
  deviceId : Option Text := none
  sendTarget : Option Target := none
  /-- `peerCount`; other elements are hidden when it is 0. -/
  peers : ℕ := 0
  /-- `groupSub`. -/
  groupSize : ℕ := 0
  onlineCount : ℕ := 0
  items : List Item := []
  deriving DecidableEq

namespace DeviceList

/-- `renderDevices`. -/
def renderDevices (s : DeviceList) (users : List User) : DeviceList :=
  let s := { s with
    onlineUsers := users
    peers := (users.filter fun u => decide (some u.id ≠ s.deviceId)).length
    groupSize := users.length }
  if signature users = s.devicesSignature then s
  else
    { s with
      devicesSignature := signature users
      onlineCount := users.length
      items := draw users s.deviceId s.sendTarget }

/-- `classList.toggle("selected", …)` of an entry that is selectable. -/
def toggle (target : Option Target) (item : Item) : Item :=
  match item.dataset with
  | some data => { item with selected := target.any fun t => decide (data.id = t.id) }
  | none => item

/-- `setSendTarget`. -/
def setSendTarget (s : DeviceList) (target : Option Target) : DeviceList :=
  { s with sendTarget := target, items := s.items.map (toggle target) }

/-- A `welcome` frame, with the ID of its device. -/
def welcome (s : DeviceList) (device : Option Text) : DeviceList :=
  { s with deviceId := device.filter fun id => decide (id ≠ []) }

/-- `leaveChat`. -/
def leaveChat (s : DeviceList) : DeviceList := { s.setSendTarget none with devicesSignature := [] }

end DeviceList

/-! ## The signature tells the users -/

/-- Only characters below the letters have an escape of their own. -/
theorem lt_of_escapeLetter {c e : Char} (h : escapeLetter c = some e) : c.toNat < 0x60 := by
  unfold escapeLetter at h
  split at h
  · rename_i hc
    exact hc ▸ by decide
  split at h
  · rename_i hc
    exact hc ▸ by decide
  repeat
    split at h
    · omega
  cases h

/-- Every letter stands for one character. It is checked case by case. -/
theorem escapeLetter_injective {c d e : Char} (hc : escapeLetter c = some e)
    (hd : escapeLetter d = some e) : c = d := by
  have hall : ∀ m < 0x60, ∀ n < 0x60, (escapeLetter (Char.ofNat m)).isSome →
      escapeLetter (Char.ofNat m) = escapeLetter (Char.ofNat n) → m = n := by
    decide +kernel
  have heq := hall c.toNat (lt_of_escapeLetter hc) d.toNat (lt_of_escapeLetter hd)
  rw [Char.ofNat_toNat, Char.ofNat_toNat, hc, hd] at heq
  exact Char.toNat_inj.mp (heq rfl rfl)

/-- What is written for a character: itself, a letter behind a backslash, or two digits. -/
theorem quoteChar_cases (c : Char) :
    (quoteChar c = [c] ∧ c ≠ '\\' ∧ c ≠ '"') ∨
      (∃ e, escapeLetter c = some e ∧ e ≠ 'u' ∧ quoteChar c = ['\\', e]) ∨
      c.toNat < 0x20 ∧ quoteChar c =
        ['\\', 'u', '0', '0', Nat.digitChar (c.toNat / 16), Nat.digitChar (c.toNat % 16)] := by
  cases hletter : escapeLetter c with
  | some e =>
    refine Or.inr (Or.inl ⟨e, rfl, ?_, by rw [quoteChar, hletter]⟩)
    rintro rfl
    have hall : ∀ n < 0x60, escapeLetter (Char.ofNat n) ≠ some 'u' := by
      decide
    apply hall c.toNat (lt_of_escapeLetter hletter)
    rw [Char.ofNat_toNat, hletter]
  | none =>
    by_cases hlow : c.toNat < 0x20
    · exact Or.inr (Or.inr ⟨hlow, by rw [quoteChar, hletter]; exact if_pos hlow⟩)
    · left
      refine ⟨by rw [quoteChar, hletter]; exact if_neg hlow, ?_, ?_⟩
      · rintro rfl
        exact absurd hletter (by decide)
      · rintro rfl
        exact absurd hletter (by decide)

/-- Two hexadecimal digits determine the number. They are its quotient and its remainder by
sixteen. -/
theorem digits_injective {m n : ℕ} (hm : m < 0x20) (hn : n < 0x20)
    (hhigh : Nat.digitChar (m / 16) = Nat.digitChar (n / 16))
    (hlow : Nat.digitChar (m % 16) = Nat.digitChar (n % 16)) : m = n := by
  have hall : ∀ m < 0x20, ∀ n < 0x20, Nat.digitChar (m / 16) = Nat.digitChar (n / 16) →
      Nat.digitChar (m % 16) = Nat.digitChar (n % 16) → m = n := by
    decide
  exact hall m hm n hn hhigh hlow

/-- The escape of a character shows where it ends. It is one of three forms, which are told apart by
their first two characters. -/
theorem delimited_quoteChar : Delimited quoteChar := by
  intro c d s t heq
  rcases quoteChar_cases c with ⟨hc, hback, -⟩ | ⟨e, he, hu, hc⟩ | ⟨hlow, hc⟩
  all_goals rcases quoteChar_cases d with ⟨hd, hback', -⟩ | ⟨e', he', hu', hd⟩ | ⟨hlow', hd⟩
  all_goals
    rw [hc, hd] at heq
    simp only [List.cons_append, List.nil_append, List.cons.injEq] at heq
  · exact heq
  · exact absurd heq.1 hback
  · exact absurd heq.1 hback
  · exact absurd heq.1.symm hback'
  · obtain ⟨-, rfl, hrest⟩ := heq
    exact ⟨escapeLetter_injective he he', hrest⟩
  · exact absurd heq.2.1 hu
  · exact absurd heq.1.symm hback'
  · exact absurd heq.2.1.symm hu'
  · obtain ⟨-, -, -, -, hhigh, hdigit, hrest⟩ := heq
    exact ⟨Char.toNat_inj.mp (digits_injective hlow hlow' hhigh hdigit), hrest⟩

/-- No character is written as a quotation mark. So the quotation mark at the end of a string is the
first one in it. -/
theorem avoids_quoteChar : Avoids quoteChar '"' := by
  intro c
  rcases quoteChar_cases c with ⟨hc, -, hquote⟩ | ⟨e, -, -, hc⟩ | ⟨-, hc⟩
  · exact ⟨c, [], hc, hquote⟩
  · exact ⟨'\\', _, hc, by decide⟩
  · exact ⟨'\\', _, hc, by decide⟩

/-- A quoted string shows where it ends. Strings that stand one after the other can be told
apart. -/
theorem delimited_quote : Delimited quote :=
  (delimited_quoteChar.sequence avoids_quoteChar).append_left ['"']

/-- So does a device that is written as JSON, which makes the signature injective. -/
theorem delimited_stringify : Delimited User.stringify := by
  have hquoted : Delimited fun texts : List Text => stringifyArray (texts.map quote) :=
    delimited_quote.brackets (fun _ => ⟨'"', _, rfl, by decide⟩) (by decide)
  have hfields : Function.Injective fun u : User => [u.id, u.name, u.ip, u.platform] := by
    intro u v heq
    simp only [List.cons.injEq, and_true] at heq
    obtain ⟨hid, hname, hip, hplatform⟩ := heq
    cases u
    cases v
    simp_all
  exact hquoted.comp hfields

/-- **The signature tells the users**, and their order. Brackets, commas and quotation marks inside
of the names are escaped, so no two lists look alike. -/
theorem signature_injective : Function.Injective signature :=
  (delimited_stringify.brackets (fun _ => ⟨'[', _, rfl, by decide⟩) (by decide)).injective

/-- No signature is the text that stands for no list. The first frame is therefore always drawn. -/
theorem signature_ne_nil (users : List User) : signature users ≠ [] := by
  intro h
  exact List.cons_ne_nil _ _ h

end LanRoom.Web
