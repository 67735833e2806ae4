import LanRoom.Data.Double
import LanRoom.Data.Entities

/-! # A message on the screen

`appendMessage` of `web/static/app.js` with the functions it uses. It builds the HTML text of a message
from what other devices have sent. Strings come from UTF-8, so that they are sequences of characters;
`toLocaleTimeString` is a parameter.

Which characters of this text delimit tags and attribute values does not depend on the strings
(`markup_innerHTML`). -/

namespace LanRoom.Web

open Double (roundNumber)
open Entities (replaceAll mem_replaceAll)

/-- A string. -/
abbrev Text := List Char

/-- Strings are equal when their characters are. -/
instance : LawfulBEq Text := inferInstance

/-! ## Strings and numbers of JavaScript -/

/-- `s || t`. -/
def orElse (s t : Text) : Text := if s = [] then t else s

/-- `JSON.parse` of an integer. -/
def toNumber (n : ℤ) : ℤ := if n < 0 then -(roundNumber n.natAbs : ℤ) else roundNumber n.natAbs

/-- The multiple of `10 ^ j` closest to `d` among those that `d` is the closest `Number` to. -/
def candidate? (d j : ℕ) : Option ℕ :=
  let low := d / 10 ^ j * 10 ^ j
  let high := low + 10 ^ j
  if roundNumber low = d ∧ (roundNumber high ≠ d ∨ d - low < high - d ∨
      d - low = high - d ∧ d / 10 ^ j % 2 = 0) then some low
  else if roundNumber high = d then some high
  else none

/-- The digits of an integer below `10 ^ 20`: no more than are needed to tell it from other numbers. -/
def numberDigits (d : ℕ) : Text :=
  Nat.toDigits 10 (((List.range 20).reverse.findSome? (candidate? d)).getD d)

/-- `${n}`, of an integer. -/
def numberText (n : ℤ) : Text := (if n < 0 then ['-'] else []) ++ numberDigits n.natAbs

/-- `(m / d).toFixed(1)`, when the quotient is exact and not negative. -/
def toFixed (m d : ℕ) : Text :=
  let n := (20 * m + d) / (2 * d)
  Nat.toDigits 10 (n / 10) ++ '.' :: Nat.toDigits 10 (n % 10)

/-! ## What the hub relays -/

/-- `Device`, as far as it is shown. -/
structure Device where
  id : Text
  name : Text
  platform : Text

/-- `FileMeta`. -/
structure FileMeta where
  name : Text
  size : ℤ

/-- `MessagePayload`; an absent string is empty. -/
structure MessagePayload where
  kind : Text
  content : Text := []
  fileId : Text := []
  meta? : Option FileMeta := none

/-- `ChatMessage`. -/
structure ChatMessage where
  sender : Option Device
  /-- `to`. -/
  toIDs : List Text := []
  recipients : List Device := []
  payload : MessagePayload
  timestamp : ℤ := 0

/-- What the page knows when a message arrives. -/
structure Page where
  /-- `chatLog.length`. -/
  logged : ℕ
  deviceId : Option Text
  onlineUsers : List Device
  canCopyImages : Bool
  /-- `Math.floor(Date.now() / 1000)`. -/
  now : ℤ

/-! ## Parts -/

/-- `escapeHTML`. -/
def escapeHTML (s : Text) : Text :=
  replaceAll '"' "&quot;".toList (replaceAll '>' "&gt;".toList (replaceAll '<' "&lt;".toList
    (replaceAll '&' "&amp;".toList s)))

/-- `escapeAttr`. -/
def escapeAttr (s : Text) : Text :=
  replaceAll '\'' "&#39;".toList (replaceAll '<' "&lt;".toList (replaceAll '"' "&quot;".toList
    (replaceAll '&' "&amp;".toList s)))

/-- An entry of `platformUI`, as far as it is shown. -/
structure PlatformUI where
  label : Text
  icon : Text

/-- The names that every object has by inheritance. -/
def inherited : List Text :=
  ["constructor", "__defineGetter__", "__defineSetter__", "hasOwnProperty", "__lookupGetter__",
    "__lookupSetter__", "isPrototypeOf", "propertyIsEnumerable", "toString", "valueOf", "__proto__",
    "toLocaleString"].map String.toList

/-- The entries of `platformUI`. -/
def platforms : List (Text × PlatformUI) :=
  [("android".toList, ⟨"Android".toList, "phone".toList⟩),
    ("ios".toList, ⟨"iOS".toList, "phone".toList⟩),
    ("windows".toList, ⟨"Windows".toList, "desktop".toList⟩),
    ("linux".toList, ⟨"Linux".toList, "laptop".toList⟩),
    ("macos".toList, ⟨"macOS".toList, "laptop".toList⟩),
    ("unknown".toList, ⟨"未知系统".toList, "desktop".toList⟩)]

/-- `platformUI[key]`. What is inherited has neither a label nor an icon. -/
def platformUI (key : Text) : Option PlatformUI :=
  match platforms.find? fun e => decide (e.1 = key) with
  | some e => some e.2
  | none => if key ∈ inherited then some ⟨"undefined".toList, "undefined".toList⟩ else none

/-- `platformUI[platformOf(platform)]`. -/
def platformOf (platform : Text) : PlatformUI :=
  (platformUI platform).getD ⟨"未知系统".toList, "desktop".toList⟩

/-- `iconSVG`. -/
def iconSVG (name : Text) : Text :=
  "<svg class=\"icon\" aria-hidden=\"true\"><use href=\"#i-".toList ++ name ++ "\"/></svg>".toList

/-- `avatarHTML`. -/
def avatarHTML (platform : Text) (size : Text) (presence : Bool) : Text :=
  "<span class=\"avatar".toList ++ (if size = [] then [] else " avatar-".toList ++ size) ++
    "\" title=\"".toList ++ (platformOf platform).label ++ "\">".toList ++
    iconSVG (platformOf platform).icon ++
    (if presence then "<span class=\"presence\"></span>".toList else []) ++ "</span>".toList

/-- A letter or a digit of ASCII. -/
def isAlphanum (c : Char) : Bool := c.isAlphanum && c.toNat < 0x80

/-- The match of `/\.([a-z0-9]{1,8})$/i`. -/
def extension? (name : Text) : Option Text :=
  let ext := (name.reverse.takeWhile (· ≠ '.')).reverse
  if ext.length < name.length ∧ 1 ≤ ext.length ∧ ext.length ≤ 8 ∧ ext.all isAlphanum then some ext
  else none

/-- `fileIconSVG`. -/
def fileIconSVG (name : Text) : Text :=
  let label := (((extension? name).getD "file".toList).take 4).map Char.toUpper
  let fontSize := if 3 < label.length then ['7'] else ['8']
  "<svg class=\"ficon\" viewBox=\"0 0 36 44\" aria-hidden=\"true\">
    <path class=\"ficon-body\" d=\"M7 1.5h15.5l9 9V39a3.5 3.5 0 0 1-3.5 3.5H7A3.5 3.5 0 0 1 3.5 39V5A3.5 3.5 0 0 1 7 1.5z\"/>
    <path class=\"ficon-fold\" d=\"M22.5 1.5V7a3.5 3.5 0 0 0 3.5 3.5h5.5\"/>
    <text class=\"ficon-text\" x=\"17.5\" y=\"30\" text-anchor=\"middle\" font-size=\"".toList ++
    fontSize ++ "\">".toList ++ escapeHTML label ++ "</text>
  </svg>".toList

/-- `fileRowHTML`. -/
def fileRowHTML (name sizeText trailing : Text) : Text :=
  fileIconSVG name ++ "
    <span class=\"file-info\">
      <span class=\"file-name\">".toList ++ escapeHTML name ++ "</span>
      <span class=\"file-size mono\">".toList ++ sizeText ++ "</span>
    </span>".toList ++ trailing

/-- `FILE_ID_RE.test`. -/
def isFileID (fileId : Text) : Bool :=
  fileId.length = 32 && fileId.all fun c => ('a' ≤ c && c ≤ 'f') || ('0' ≤ c && c ≤ '9')

/-- `safeFileURL`. -/
def safeFileURL (fileId : Text) : Option Text :=
  if isFileID fileId then some ("/api/files/".toList ++ fileId) else none

/-- `formatSize`. -/
def formatSize (bytes : ℤ) : Text :=
  if bytes < 1024 then numberText bytes ++ " B".toList
  else if bytes < 1024 * 1024 then toFixed bytes.toNat 1024 ++ " KB".toList
  else toFixed bytes.toNat (1024 * 1024) ++ " MB".toList

/-- The name that is shown for a device without one. -/
def unknownDevice : Text := "未知设备".toList

/-- The name of a recipient. -/
def recipientName (page : Page) (d : Device) : Text :=
  orElse d.name (orElse (((page.onlineUsers.find? fun u => decide (u.id = d.id)).map (·.name)).getD [])
    unknownDevice)

/-- `privateLabel`. -/
def privateLabel (page : Page) (msg : ChatMessage) (isSelf : Bool) : Text :=
  if msg.toIDs = [] then []
  else if !isSelf then "私聊给你".toList
  else "私聊 → ".toList ++
    orElse (['、'].intercalate (msg.recipients.map (recipientName page))) unknownDevice

/-! ## The message -/

/-- What becomes of a message in the document. -/
structure Wrapper where
  className : Text
  msgIdx : Text
  innerHTML : Text

/-- `replyable`: somebody else has sent the message and can be answered. -/
def replyable (page : Page) (msg : ChatMessage) (isSelf : Bool) : Bool :=
  !isSelf && (msg.sender.map fun d => d.id != [] && decide (page.deviceId ≠ some d.id)).getD false

/-- `fromName`. -/
def fromName (msg : ChatMessage) : Text := orElse ((msg.sender.map (·.name)).getD []) unknownDevice

/-- `replyAttrs`. -/
def replyAttrs (page : Page) (msg : ChatMessage) (isSelf : Bool) : Text :=
  if replyable page msg isSelf then
    " data-reply-id=\"".toList ++ escapeAttr ((msg.sender.map (·.id)).getD []) ++
      "\" data-reply-name=\"".toList ++ escapeAttr (fromName msg) ++ "\" title=\"私聊回复 ".toList ++
      escapeAttr (fromName msg) ++ "\"".toList
  else []

/-- `senderHTML`. -/
def senderHTML (page : Page) (msg : ChatMessage) (isSelf : Bool) : Text :=
  if replyable page msg isSelf then
    "<span class=\"msg-sender reply\"".toList ++ replyAttrs page msg isSelf ++ ">".toList ++
      escapeHTML (fromName msg) ++ "</span>".toList
  else "<span class=\"msg-sender\">".toList ++ escapeHTML (fromName msg) ++ "</span>".toList

/-- `payload.meta?.name || other`. -/
def metaName (payload : MessagePayload) (other : Text) : Text :=
  orElse ((payload.meta?.map (·.name)).getD []) other

/-- `payload.meta?.size ? formatSize(payload.meta.size) : ""`. -/
def metaSize (payload : MessagePayload) : Text :=
  match payload.meta? with
  | none => []
  | some m => if m.size = 0 then [] else formatSize (toNumber m.size)

/-- `body`. -/
def body (payload : MessagePayload) : Text :=
  if payload.kind = "text".toList then
    "<div class=\"msg-bubble\">".toList ++ escapeHTML payload.content ++ "</div>".toList
  else if payload.kind = "image".toList then
    match safeFileURL payload.fileId with
    | some imgUrl =>
        "<img class=\"msg-image\" src=\"".toList ++ escapeAttr imgUrl ++ "\" alt=\"图片\" loading=\"lazy\"
           data-file-id=\"".toList ++ escapeAttr payload.fileId ++ "\" data-file-name=\"".toList ++
          escapeAttr (metaName payload "image".toList) ++ "\" />".toList
    | none => "<div class=\"msg-bubble\">[图片不可用]</div>".toList
  else if payload.kind = "file".toList then
    let name := metaName payload "文件".toList
    match safeFileURL payload.fileId with
    | some fileUrl =>
        "<div class=\"msg-bubble file-bubble\"><a class=\"file-card file-download\" href=\"".toList ++
          escapeAttr fileUrl ++ "\" download=\"".toList ++ escapeAttr name ++ "\"
           data-file-id=\"".toList ++ escapeAttr payload.fileId ++ "\" data-file-name=\"".toList ++
          escapeAttr name ++ "\" title=\"下载 ".toList ++ escapeAttr name ++ "\">".toList ++
          fileRowHTML name (metaSize payload) ("<span class=\"download-btn\" aria-hidden=\"true\">".toList ++
            iconSVG "download".toList ++ "</span>".toList) ++ "</a></div>".toList
    | none => "<div class=\"msg-bubble\">[文件不可用]</div>".toList
  else "<div class=\"msg-bubble\">[不支持的消息类型]</div>".toList

/-- The label of a private message. -/
def privateTagHTML (page : Page) (msg : ChatMessage) (isSelf : Bool) : Text :=
  if privateLabel page msg isSelf = [] then []
  else "<span class=\"msg-private-tag".toList ++
    (if replyable page msg isSelf then " reply".toList else []) ++ "\"".toList ++
    replyAttrs page msg isSelf ++ ">".toList ++ iconSVG "lock".toList ++
    escapeHTML (privateLabel page msg isSelf) ++ "</span>".toList

/-- `appendMessage`: the page after it, and what is inserted into the document. `formatTime` is
`toLocaleTimeString` of a time in seconds. -/
def appendMessage (formatTime : ℤ → Text) (page : Page) (msg : ChatMessage) (isSelf : Bool) :
    Page × Wrapper :=
  let saveInstead := msg.payload.kind = "image".toList ∧ page.canCopyImages = false
  let time := formatTime (if msg.timestamp = 0 then page.now else msg.timestamp)
  let logIdx := Nat.toDigits 10 page.logged
  ({ page with logged := page.logged + 1 },
    { className := "msg".toList ++ (if isSelf then " self".toList else []) ++
        (if privateLabel page msg isSelf = [] then [] else " private".toList)
      msgIdx := logIdx
      innerHTML := "
    ".toList ++ (if isSelf then [] else avatarHTML ((msg.sender.map (·.platform)).getD "undefined".toList) "sm".toList false) ++ "
    <div class=\"msg-body\">
      <div class=\"msg-meta\">
        <span>".toList ++ (if isSelf then time else senderHTML page msg isSelf ++ " · ".toList ++ time) ++ "</span>
        ".toList ++ privateTagHTML page msg isSelf ++ "
        <button type=\"button\" class=\"msg-copy-btn\" data-msg-idx=\"".toList ++ logIdx ++
        "\" title=\"".toList ++ (if saveInstead then "保存图片".toList else "复制此条".toList) ++ "\">".toList ++
        (if saveInstead then "保存".toList else "复制".toList) ++ "</button>
      </div>
      ".toList ++ body msg.payload ++ "
    </div>
  ".toList })

/-! ## Markup -/

/-- The characters that begin a tag, and begin or end an attribute value. -/
def isMarkup (c : Char) : Bool := c == '<' || c == '"'

/-- The sequence of these characters in a text. -/
def markup (s : Text) : Text := s.filter isMarkup

/-- The texts have the same sequence of them. -/
def SameMarkup (s t : Text) : Prop := markup s = markup t

/-- A text has the markup it has. It is the start of every comparison below. -/
theorem SameMarkup.refl (s : Text) : SameMarkup s s := rfl

/-- Texts of the same markup can be put together piece by piece. -/
theorem SameMarkup.append {s s' t t' : Text} (hs : SameMarkup s s') (ht : SameMarkup t t') :
    SameMarkup (s ++ t) (s' ++ t') := by
  unfold SameMarkup markup
  rw [List.filter_append, List.filter_append]
  exact congrArg₂ _ hs ht

/-- A text without markup. -/
def Inert (s : Text) : Prop := ∀ c ∈ s, isMarkup c = false

/-- Texts without markup are alike. They contribute no `<` and no quote. -/
theorem Inert.same {s t : Text} (hs : Inert s) (ht : Inert t) : SameMarkup s t := by
  have hnil : ∀ {s : Text}, Inert s → markup s = [] := by
    intro s hs
    refine List.filter_eq_nil_iff.mpr fun c hc => ?_
    rw [hs c hc]
    decide
  exact (hnil hs).trans (hnil ht).symm

/-- The empty text has no markup. It is what is written for a part that is missing. -/
theorem inert_nil : Inert [] := fun _ hc => absurd hc List.not_mem_nil

/-- A part of the template follows. The texts of the template are the same on both sides. -/
theorem SameMarkup.const {s s' : Text} (h : SameMarkup s s') (t : Text) :
    SameMarkup (s ++ t) (s' ++ t) := h.append (.refl t)

/-- Texts without markup follow. They may differ on the two sides. -/
theorem SameMarkup.inert {s s' t t' : Text} (h : SameMarkup s s') (ht : Inert t) (ht' : Inert t') :
    SameMarkup (s ++ t) (s' ++ t') := h.append (ht.same ht')

/-- Texts without markup can be put together. The characters of the whole are those of its parts. -/
theorem Inert.append {s t : Text} (hs : Inert s) (ht : Inert t) : Inert (s ++ t) := by
  intro c hc
  rcases List.mem_append.mp hc with hc | hc
  · exact hs c hc
  · exact ht c hc

/-- Texts that are put in without an escape, or that an escape puts in. -/
def inertTexts : List Text :=
  ["undefined", "未知系统", "desktop", "保存图片", "复制此条", "保存", "复制", " B", " KB", " MB", "&amp;", "&lt;",
    "&gt;", "&quot;", "&#39;"].map String.toList

/-- The literals of the template that stand for no markup, checked once. -/
theorem inert_of_mem {s : Text} (h : s ∈ inertTexts) : Inert s := by
  have hall : (inertTexts.all fun s => s.all fun c => !isMarkup c) = true := by
    decide
  intro c hc
  simpa using List.all_eq_true.mp (List.all_eq_true.mp hall s h) c hc

/-- Neither the names nor the icons of the platforms have markup. -/
theorem inert_of_platforms {e : Text × PlatformUI} (h : e ∈ platforms) :
    Inert e.2.label ∧ Inert e.2.icon := by
  have hall : (platforms.all fun e => (e.2.label ++ e.2.icon).all fun c => !isMarkup c) = true := by
    decide
  have hboth := List.all_eq_true.mp (List.all_eq_true.mp hall e h)
  constructor
  · intro c hc
    simpa using hboth c (List.mem_append_left _ hc)
  · intro c hc
    simpa using hboth c (List.mem_append_right _ hc)

/-! ## Escapes -/

/-- **`escapeHTML` leaves no markup.** The characters that could begin or end a tag or a value have
become entities. -/
theorem inert_escapeHTML (s : Text) : Inert (escapeHTML s) := by
  intro x hx
  rcases mem_replaceAll hx with hx | ⟨hx, hquote⟩
  · exact inert_of_mem (by simp [inertTexts]) x hx
  rcases mem_replaceAll hx with hx | ⟨hx, -⟩
  · exact inert_of_mem (by simp [inertTexts]) x hx
  rcases mem_replaceAll hx with hx | ⟨-, hless⟩
  · exact inert_of_mem (by simp [inertTexts]) x hx
  simp [isMarkup, hquote, hless]

/-- **`escapeAttr` leaves no markup.** The characters that could end the value of an attribute have
become entities. -/
theorem inert_escapeAttr (s : Text) : Inert (escapeAttr s) := by
  intro x hx
  rcases mem_replaceAll hx with hx | ⟨hx, -⟩
  · exact inert_of_mem (by simp [inertTexts]) x hx
  rcases mem_replaceAll hx with hx | ⟨hx, hless⟩
  · exact inert_of_mem (by simp [inertTexts]) x hx
  rcases mem_replaceAll hx with hx | ⟨-, hquote⟩
  · exact inert_of_mem (by simp [inertTexts]) x hx
  simp [isMarkup, hquote, hless]

/-- An escaped string and a part of the template follow. It is the commonest step in the template of
a message. -/
theorem SameMarkup.html {x x' s s' t : Text} (h : SameMarkup x x') :
    SameMarkup (x ++ escapeHTML s ++ t) (x' ++ escapeHTML s' ++ t) :=
  (h.inert (inert_escapeHTML s) (inert_escapeHTML s')).const t

/-- The value of an attribute and a part of the template follow. -/
theorem SameMarkup.attr {x x' s s' t : Text} (h : SameMarkup x x') :
    SameMarkup (x ++ escapeAttr s ++ t) (x' ++ escapeAttr s' ++ t) :=
  (h.inert (inert_escapeAttr s) (inert_escapeAttr s')).const t

/-! ## Numbers -/

/-- Decimal digits are no markup. Numbers are written into the template without escaping. -/
theorem inert_toDigits (n : ℕ) : Inert (Nat.toDigits 10 n) := by
  intro c hc
  have hdigit := Nat.isDigit_of_mem_toDigits (by decide) (by decide) hc
  rw [isMarkup, Bool.or_eq_false_iff]
  constructor <;> rw [beq_eq_false_iff_ne] <;> rintro rfl <;> cases hdigit

/-- A formatted size consists of a number and a unit. It is written into the template without
escaping. -/
theorem inert_formatSize (bytes : ℤ) : Inert (formatSize bytes) := by
  have hpoint : ∀ m d, Inert (toFixed m d) := by
    intro m d
    refine (inert_toDigits _).append fun c hc => ?_
    rcases List.mem_cons.mp hc with rfl | hc
    · rfl
    · exact inert_toDigits _ c hc
  have hnumber : ∀ n, Inert (numberText n) := by
    intro n
    refine Inert.append ?_ (inert_toDigits _)
    intro c hc
    split at hc
    · obtain rfl := List.mem_singleton.mp hc
      rfl
    · exact absurd hc List.not_mem_nil
  unfold formatSize
  split
  · exact (hnumber _).append (inert_of_mem (by simp [inertTexts]))
  · split
    · exact (hpoint _ _).append (inert_of_mem (by simp [inertTexts]))
    · exact (hpoint _ _).append (inert_of_mem (by simp [inertTexts]))

/-! ## Parts -/

/-- What is shown for a platform is one of the entries of the table, or the fallback. -/
theorem inert_platformOf (platform : Text) :
    Inert (platformOf platform).label ∧ Inert (platformOf platform).icon := by
  unfold platformOf platformUI
  cases hfound : platforms.find? fun e => decide (e.1 = platform) with
  | some e => exact inert_of_platforms (List.mem_of_find?_eq_some hfound)
  | none =>
      dsimp only
      split
      · exact ⟨inert_of_mem (by simp [inertTexts]), inert_of_mem (by simp [inertTexts])⟩
      · exact ⟨inert_of_mem (by simp [inertTexts]), inert_of_mem (by simp [inertTexts])⟩

/-- An icon has the markup of its template, whatever its name. -/
theorem same_iconSVG {name name' : Text} (h : Inert name) (h' : Inert name') :
    SameMarkup (iconSVG name) (iconSVG name') := by
  unfold iconSVG
  exact ((SameMarkup.refl _).inert h h').const _

/-- The avatar of any platform. The platform only chooses between fixed pictures and classes. -/
theorem same_avatarHTML (platform platform' size : Text) (presence : Bool) :
    SameMarkup (avatarHTML platform size presence) (avatarHTML platform' size presence) := by
  obtain ⟨hlabel, hicon⟩ := inert_platformOf platform
  obtain ⟨hlabel', hicon'⟩ := inert_platformOf platform'
  unfold avatarHTML
  have htitle := (SameMarkup.refl ("<span class=\"avatar".toList ++
    (if size = [] then [] else " avatar-".toList ++ size) ++ "\" title=\"".toList)).inert hlabel hlabel'
  exact (((htitle.const _).append (same_iconSVG hicon hicon')).const _).const _

/-- The icon of any file. The name only chooses between fixed pictures. -/
theorem same_fileIconSVG (name name' : Text) :
    SameMarkup (fileIconSVG name) (fileIconSVG name') := by
  have hsize : ∀ n : ℕ, Inert (if 3 < n then ['7'] else ['8']) := by
    intro n c hc
    split at hc
    · obtain rfl := List.mem_singleton.mp hc
      rfl
    · obtain rfl := List.mem_singleton.mp hc
      rfl
  unfold fileIconSVG
  exact (((SameMarkup.refl _).inert (hsize _) (hsize _)).const _).html

/-- The row of any file. The name stands in it escaped, and the size is a number with a unit. -/
theorem same_fileRowHTML (name name' trailing : Text) {size size' : Text} (hsize : Inert size)
    (hsize' : Inert size') :
    SameMarkup (fileRowHTML name size trailing) (fileRowHTML name' size' trailing) := by
  unfold fileRowHTML
  exact ((((same_fileIconSVG name name').const _).html.inert hsize hsize').const _).const _

/-! ## The message -/

/-- The kind of a message, as far as it is told apart. -/
inductive Kind
  | text | image | file | other
  deriving DecidableEq

/-- The kind of a payload. -/
def MessagePayload.kindOf (payload : MessagePayload) : Kind :=
  if payload.kind = "text".toList then .text
  else if payload.kind = "image".toList then .image
  else if payload.kind = "file".toList then .file
  else .other

/-- The **shape** of a message on the screen. -/
structure Shape where
  kind : Kind
  isSelf : Bool
  replyable : Bool
  isPrivate : Bool
  validFile : Bool
  deriving DecidableEq

/-- The shape of a message. -/
def shape (page : Page) (msg : ChatMessage) (isSelf : Bool) : Shape where
  kind := msg.payload.kindOf
  isSelf := isSelf
  replyable := replyable page msg isSelf
  isPrivate := decide (privateLabel page msg isSelf ≠ [])
  validFile := (safeFileURL msg.payload.fileId).isSome

variable {page page' : Page} {msg msg' : ChatMessage} {isSelf isSelf' : Bool}
  {payload payload' : MessagePayload}

/-- Whether a sender can be answered decides on the attributes; their values are escaped. -/
theorem same_replyAttrs (h : replyable page msg isSelf = replyable page' msg' isSelf') :
    SameMarkup (replyAttrs page msg isSelf) (replyAttrs page' msg' isSelf') := by
  unfold replyAttrs
  rw [h]
  split
  · exact (SameMarkup.refl _).attr.attr.attr
  · exact .refl _

/-- The sender is shown by an escaped name. Whether it is a link depends on whether one can
reply. -/
theorem same_senderHTML (h : replyable page msg isSelf = replyable page' msg' isSelf') :
    SameMarkup (senderHTML page msg isSelf) (senderHTML page' msg' isSelf') := by
  have hattrs := same_replyAttrs h
  unfold senderHTML
  rw [h]
  split
  · exact (((SameMarkup.refl _).append hattrs).const _).html
  · exact (SameMarkup.refl _).html

/-- The label of a private message. It is there or not there on both sides, and its text is
escaped. -/
theorem same_privateTagHTML (h : replyable page msg isSelf = replyable page' msg' isSelf')
    (hprivate : privateLabel page msg isSelf = [] ↔ privateLabel page' msg' isSelf' = []) :
    SameMarkup (privateTagHTML page msg isSelf) (privateTagHTML page' msg' isSelf') := by
  unfold privateTagHTML
  by_cases hlabel : privateLabel page msg isSelf = []
  · rw [if_pos hlabel, if_pos (hprivate.mp hlabel)]
    exact .refl _
  · rw [if_neg hlabel, if_neg fun h' => hlabel (hprivate.mpr h'), h]
    exact ((((SameMarkup.refl _).append (same_replyAttrs h)).const _).const _).html

/-- The size of a file is shown as a formatted number, or not at all. -/
theorem inert_metaSize (payload : MessagePayload) : Inert (metaSize payload) := by
  unfold metaSize
  split
  · exact inert_nil
  · split
    · exact inert_nil
    · exact inert_formatSize _

/-- The kind says what the string is, as far as it is told apart. -/
theorem kindOf_iff (payload : MessagePayload) :
    (payload.kindOf = .text ↔ payload.kind = "text".toList) ∧
    (payload.kindOf = .image ↔ payload.kind = "image".toList) ∧
    (payload.kindOf = .file ↔ payload.kind = "file".toList) := by
  -- the three names differ, so the order of the comparisons does not matter
  have hdistinct : "image".toList ≠ "text".toList ∧ "file".toList ≠ "text".toList ∧
      "file".toList ≠ "image".toList := by
    decide
  obtain ⟨himage, hfile, hfile'⟩ := hdistinct
  unfold MessagePayload.kindOf
  by_cases htext : payload.kind = "text".toList
  · rw [if_pos htext, htext]
    simp only [reduceCtorEq, false_iff, true_and]
    exact ⟨himage.symm, hfile.symm⟩
  · rw [if_neg htext]
    by_cases hkind : payload.kind = "image".toList
    · rw [if_pos hkind, hkind]
      simp only [reduceCtorEq, false_iff, true_and]
      exact ⟨himage, hfile'.symm⟩
    · rw [if_neg hkind]
      by_cases hlast : payload.kind = "file".toList
      · rw [if_pos hlast, hlast]
        simp only [reduceCtorEq, false_iff, and_true]
        exact ⟨hfile, hfile'⟩
      · rw [if_neg hlast]
        simp only [reduceCtorEq, false_iff]
        exact ⟨htext, hkind, hlast⟩

/-- The body of any message of one kind. The three kinds have templates of their own. -/
theorem same_body (hkind : payload.kindOf = payload'.kindOf)
    (hfile : (safeFileURL payload.fileId).isSome = (safeFileURL payload'.fileId).isSome) :
    SameMarkup (body payload) (body payload') := by
  obtain ⟨htext, himage, hfileKind⟩ := kindOf_iff payload
  obtain ⟨htext', himage', hfileKind'⟩ := kindOf_iff payload'
  rw [hkind] at htext himage hfileKind
  unfold body
  -- text, image, file, in the order of the source; both payloads are of one kind
  by_cases h₁ : payload.kind = "text".toList
  · rw [if_pos h₁, if_pos (htext'.mp (htext.mpr h₁))]
    exact (SameMarkup.refl _).html
  rw [if_neg h₁, if_neg fun h => h₁ (htext.mp (htext'.mpr h))]
  by_cases h₂ : payload.kind = "image".toList
  · rw [if_pos h₂, if_pos (himage'.mp (himage.mpr h₂))]
    cases hurl : safeFileURL payload.fileId with
    | none =>
        rw [hurl] at hfile
        rw [Option.isSome_eq_false_iff.mp hfile.symm |> Option.isNone_iff_eq_none.mp]
        exact .refl _
    | some url =>
        rw [hurl] at hfile
        obtain ⟨url', hurl'⟩ := Option.isSome_iff_exists.mp hfile.symm
        rw [hurl']
        exact (SameMarkup.refl _).attr.attr.attr
  rw [if_neg h₂, if_neg fun h => h₂ (himage.mp (himage'.mpr h))]
  by_cases h₃ : payload.kind = "file".toList
  · rw [if_pos h₃, if_pos (hfileKind'.mp (hfileKind.mpr h₃))]
    cases hurl : safeFileURL payload.fileId with
    | none =>
        rw [hurl] at hfile
        rw [Option.isSome_eq_false_iff.mp hfile.symm |> Option.isNone_iff_eq_none.mp]
        exact .refl _
    | some url =>
        rw [hurl] at hfile
        obtain ⟨url', hurl'⟩ := Option.isSome_iff_exists.mp hfile.symm
        rw [hurl']
        exact ((SameMarkup.refl _).attr.attr.attr.attr.attr.append
          (same_fileRowHTML _ _ _ (inert_metaSize _) (inert_metaSize _))).const _
  · rw [if_neg h₃, if_neg fun h => h₃ (hfileKind.mp (hfileKind'.mpr h))]
    exact .refl _

/-- **Chat content cannot inject markup**: two messages of one shape have the same sequence of
characters `<` and `"` in the HTML text that is assigned, whatever the strings and numbers in them are
and whatever else the page shows. -/
theorem markup_innerHTML {formatTime : ℤ → Text}
    (htime : ∀ t, ∀ c ∈ formatTime t, c ≠ '<' ∧ c ≠ '"')
    (hshape : shape page msg isSelf = shape page' msg' isSelf') :
    markup (appendMessage formatTime page msg isSelf).2.innerHTML =
      markup (appendMessage formatTime page' msg' isSelf').2.innerHTML := by
  -- the shapes agree in everything the template branches on
  have hreply : replyable page msg isSelf = replyable page' msg' isSelf' :=
    congrArg Shape.replyable hshape
  have hself : isSelf = isSelf' := congrArg Shape.isSelf hshape
  have hlabel : privateLabel page msg isSelf = [] ↔ privateLabel page' msg' isSelf' = [] :=
    not_iff_not.mp (decide_eq_decide.mp (congrArg Shape.isPrivate hshape))
  have hbody : SameMarkup (body msg.payload) (body msg'.payload) :=
    same_body (congrArg Shape.kind hshape) (congrArg Shape.validFile hshape)
  have htime' : ∀ t, Inert (formatTime t) := by
    intro t c hc
    obtain ⟨hless, hquote⟩ := htime t c hc
    simp [isMarkup, hless, hquote]
  have hbutton : ∀ (p : Prop) [Decidable p] {s t : Text}, Inert s → Inert t →
      Inert (if p then s else t) := by
    intro p _ s t hs ht
    split
    · exact hs
    · exact ht
  have htitle : Inert "保存图片".toList ∧ Inert "复制此条".toList ∧ Inert "保存".toList ∧
      Inert "复制".toList :=
    ⟨inert_of_mem (by simp [inertTexts]), inert_of_mem (by simp [inertTexts]),
      inert_of_mem (by simp [inertTexts]), inert_of_mem (by simp [inertTexts])⟩
  obtain ⟨hsaveImage, hcopyThis, hsave, hcopy⟩ := htitle
  have havatar : ∀ p p' : Text, SameMarkup (if isSelf then [] else avatarHTML p "sm".toList false)
      (if isSelf then [] else avatarHTML p' "sm".toList false) := by
    intro p p'
    split
    · exact .refl _
    · exact same_avatarHTML p p' _ _
  have hmeta : ∀ t t' : ℤ,
      SameMarkup (if isSelf then formatTime t else senderHTML page msg isSelf ++ " · ".toList ++ formatTime t)
      (if isSelf then formatTime t' else senderHTML page' msg' isSelf' ++ " · ".toList ++ formatTime t') := by
    intro t t'
    split
    · exact (htime' t).same (htime' t')
    · exact ((same_senderHTML hreply).const _).inert (htime' t) (htime' t')
  subst hself
  -- from the end of the template to its start
  show SameMarkup _ _
  refine SameMarkup.const (SameMarkup.append ?_ hbody) _
  refine SameMarkup.const (SameMarkup.inert ?_ (hbutton _ hsave hcopy) (hbutton _ hsave hcopy)) _
  refine SameMarkup.const (SameMarkup.inert ?_ (hbutton _ hsaveImage hcopyThis)
    (hbutton _ hsaveImage hcopyThis)) _
  refine SameMarkup.const (SameMarkup.inert ?_ (inert_toDigits _) (inert_toDigits _)) _
  refine SameMarkup.const (SameMarkup.append ?_ (same_privateTagHTML hreply hlabel)) _
  refine SameMarkup.const (SameMarkup.append ?_ (hmeta _ _)) _
  exact SameMarkup.const (SameMarkup.append (.refl _) (havatar _ _)) _

namespace Sample

/-- The page of the device `d`. -/
def chatPage : Page := ⟨7, some ['d'], [], true, 0⟩

/-- A file with a name that closes an attribute and opens a tag. -/
def script : ChatMessage where
  sender := some ⟨['e'], "<b>".toList, "__proto__".toList⟩
  payload :=
    { kind := "file".toList, fileId := List.replicate 32 'a',
      meta? := some ⟨"\"><script>.<svg".toList, -5⟩ }

/-- A file with a plain name. -/
def plain : ChatMessage where
  sender := some ⟨"f".toList, [], "linux".toList⟩
  payload := { kind := "file".toList, fileId := List.replicate 32 '0', meta? := some ⟨"a.txt".toList, 12⟩ }

end Sample

/-- A message that holds a script element has the markup of one that holds plain text. -/
theorem markup_innerHTML_script :
    markup (appendMessage (fun _ => ['1', ':', '0']) Sample.chatPage Sample.script false).2.innerHTML =
      markup (appendMessage (fun _ => ['1', ':', '0']) Sample.chatPage Sample.plain false).2.innerHTML := by
  have htime : ∀ t : ℤ, ∀ c ∈ (fun _ : ℤ => ['1', ':', '0']) t, c ≠ '<' ∧ c ≠ '"' := by
    intro t c hc
    simp only [List.mem_cons, List.not_mem_nil, or_false] at hc
    rcases hc with rfl | rfl | rfl
    · exact ⟨by simp, by simp⟩
    · exact ⟨by simp, by simp⟩
    · exact ⟨by simp, by simp⟩
  have hshape : shape Sample.chatPage Sample.script false = shape Sample.chatPage Sample.plain false := by
    decide +kernel
  exact markup_innerHTML htime hshape

end LanRoom.Web
