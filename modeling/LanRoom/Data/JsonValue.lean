import LanRoom.Data.Json

/-! # Reading JSON values back

A value of any depth that is written without spaces is read back (`parse_of_wellFormed`), when the
texts of its strings and numbers are texts that the grammar has. -/

namespace JsonText

variable {n : ℕ} {b c : UInt8} {s t text rest : List UInt8} {v : Json}

/-! ## The texts of strings -/

/-- The text of a string: bytes that stand for themselves, and escapes. -/
inductive IsText : List UInt8 → Prop
  | nil : IsText []
  | plain {b : UInt8} {text : List UInt8} (hb : isPlain b = true) (h : IsText text) : IsText (b :: text)
  | escape {e : UInt8} {text : List UInt8} (he : isEscape e = true) (h : IsText text) :
      IsText (backslash :: e :: text)
  | unit {h₁ h₂ h₃ h₄ : UInt8} {text : List UInt8} (hhex : [h₁, h₂, h₃, h₄].all isHexDigit = true)
      (h : IsText text) : IsText (backslash :: 0x75 :: h₁ :: h₂ :: h₃ :: h₄ :: text)

/-- The pieces of a text make a text. So a text can be built from characters and escapes one after
the other. -/
theorem IsText.append (hs : IsText s) (ht : IsText t) : IsText (s ++ t) := by
  induction hs with
  | nil => exact ht
  | plain hb _ ih => exact .plain hb ih
  | escape he _ ih => exact .escape he ih
  | unit hhex _ ih => exact .unit hhex ih

/-- Plain characters need no escape. It is the commonest kind of text. -/
theorem isText_of_plain (h : ∀ b ∈ text, isPlain b = true) : IsText text := by
  induction text with
  | nil => exact .nil
  | cons b text ih =>
    rw [List.forall_mem_cons] at h
    exact .plain h.1 (ih h.2)

/-- An escape is read as a whole. The letter after the backslash is not looked at as a quote, even
if it is one. -/
theorem stringText_escape {e : UInt8} (he : isEscape e = true) :
    stringText (backslash :: e :: s) = (stringText s).map fun x => (backslash :: e :: x.1, x.2) := by
  have hu : e ≠ 0x75 := by
    rintro rfl
    cases he
  rw [stringText.eq_def]
  dsimp only
  rw [if_neg (by decide), if_neg (by decide), if_pos rfl]
  split
  · rename_i heq
    exact absurd (List.cons.inj heq).1 hu
  · rename_i heq
    obtain ⟨rfl, rfl⟩ := List.cons.inj heq
    rw [if_pos he]
  · rename_i heq
    cases heq

/-- **The text of a string ends** at its quotation mark. No quote in the text is unescaped, so the
first one that ends a string is the one that was put there. -/
theorem IsText.stringText_append (h : IsText text) :
    stringText (text ++ quote :: rest) = some (text, rest) := by
  -- induction on the text: a plain byte, a short escape or a `\u` escape at a time
  induction h with
  | nil =>
    unfold stringText
    exact if_pos rfl
  | plain hb _ ih =>
    simp only [isPlain, Bool.and_eq_true, decide_eq_true_eq, bne_iff_ne] at hb
    obtain ⟨⟨hlow, hquote⟩, hback⟩ := hb
    rw [List.cons_append, stringText.eq_def]
    dsimp only
    rw [if_neg hquote, if_neg (UInt8.not_lt.mpr hlow), if_neg hback, ih]
    rfl
  | escape he _ ih =>
    rw [List.cons_append, List.cons_append, stringText_escape he, ih]
    rfl
  | unit hhex _ ih =>
    simp only [List.cons_append]
    rw [stringText.eq_def]
    dsimp only
    rw [if_neg (by decide), if_neg (by decide), if_pos rfl]
    simp only [if_pos hhex, ih, Option.map_some]

/-! ## The texts of numbers -/

/-- An integer in decimal notation. -/
def IsInt (text : List UInt8) : Prop := IsNat text ∨ ∃ digits, text = 0x2D :: digits ∧ IsNat digits

/-- What may follow a value: nothing, or what ends it in an array or an object. -/
def Stops (rest : List UInt8) : Prop :=
  ∀ b ∈ rest.head?, b = comma ∨ b = rightBracket ∨ b = rightBrace

/-- At the end of the input a value stops. It is the case of a value that is the whole text. -/
theorem stops_nil : Stops [] := by
  intro b hb
  cases hb

/-- A value stops before a comma or a closing bracket. These are the bytes that can follow a value
inside of an array or an object. -/
theorem stops_cons (h : b = comma ∨ b = rightBracket ∨ b = rightBrace) : Stops (b :: rest) := by
  intro c hc
  obtain rfl := Option.some.inj hc
  exact h

/-- What a value stops before is no digit. The digits of a number are therefore read to their end
and no further. -/
theorem not_isDigit_of_stops (h : Stops rest) : ∀ b ∈ rest.head?, isDigit b = false := by
  intro b hb
  rcases h b hb with rfl | rfl | rfl
  all_goals rfl

/-- Digits end where no digit follows. After a value comes a bracket, a brace, a comma or
nothing. -/
theorem digits_of_stops (hne : text ≠ []) (h : ∀ b ∈ text, isDigit b = true) (hrest : Stops rest) :
    digits (text ++ rest) = some (text, rest) := by
  have hno := not_isDigit_of_stops hrest
  have htake : rest.takeWhile isDigit = [] := by
    cases rest with
    | nil => rfl
    | cons b rest => rw [List.takeWhile_cons_of_neg (by simp [hno b rfl])]
  have hdrop : rest.dropWhile isDigit = rest := by
    cases rest with
    | nil => rfl
    | cons b rest => rw [List.dropWhile_cons_of_neg (by simp [hno b rfl])]
  unfold digits
  rw [List.takeWhile_append_of_pos h, List.dropWhile_append_of_pos h, htake, hdrop, List.append_nil,
    if_neg hne]

/-- An integer that stops has no fraction. A fraction begins with a point. -/
theorem fracPart_of_stops (hrest : Stops rest) : fracPart rest = some ([], rest) := by
  cases rest with
  | nil => rfl
  | cons b rest =>
    rcases hrest b rfl with rfl | rfl | rfl
    all_goals rfl

/-- And no exponent. An exponent begins with a letter. -/
theorem expPart_of_stops (hrest : Stops rest) : expPart rest = some ([], rest) := by
  cases rest with
  | nil => rfl
  | cons b rest =>
    rcases hrest b rfl with rfl | rfl | rfl
    all_goals rfl

/-- All of its digits are read. A number is not cut in two by its reader. -/
theorem intPart_of_stops (h : IsNat text) (hrest : Stops rest) :
    intPart (text ++ rest) = some (text, rest) := by
  rcases h with rfl | ⟨hne, hall, hhead⟩
  · rfl
  · cases text with
    | nil => exact absurd rfl hne
    | cons b text =>
      have hzero : b ≠ 0x30 := fun hb => hhead (congrArg some hb)
      rw [List.cons_append, intPart, if_neg hzero, ← List.cons_append]
      exact digits_of_stops hne hall hrest

/-- A natural number has no sign. Its first byte is a digit. -/
theorem minus_of_isNat (h : IsNat text) : minus (text ++ rest) = ([], text ++ rest) := by
  obtain ⟨b, t, rfl, hb⟩ := h.cons
  have hne : b ≠ 0x2D := by
    rintro rfl
    cases hb
  exact if_neg hne

/-- An integer is read as a whole. With its sign; there is no fraction or exponent in the numbers
that are written. -/
theorem numberText_of_stops (h : IsInt text) (hrest : Stops rest) :
    numberText (text ++ rest) = some (text, rest) := by
  rcases h with h | ⟨digits, rfl, h⟩
  · simp only [numberText, minus_of_isNat h, intPart_of_stops h hrest, fracPart_of_stops hrest,
      expPart_of_stops hrest, Option.bind_eq_bind, Option.bind_some, List.nil_append, List.append_nil]
    rfl
  · have hminus : minus (0x2D :: digits ++ rest) = ([0x2D], digits ++ rest) := rfl
    simp only [numberText, hminus, intPart_of_stops h hrest, fracPart_of_stops hrest,
      expPart_of_stops hrest, Option.bind_eq_bind, Option.bind_some, List.append_nil]
    rfl

/-- The first byte of an integer. The reader decides by this byte that a number begins. -/
theorem IsInt.cons (h : IsInt text) : ∃ b t, text = b :: t ∧ (isDigit b = true ∨ b = 0x2D) := by
  rcases h with h | ⟨digits, rfl, -⟩
  · obtain ⟨b, t, rfl, hb⟩ := h.cons
    exact ⟨b, t, rfl, Or.inl hb⟩
  · exact ⟨0x2D, digits, rfl, Or.inr rfl⟩

/-- Neither a digit nor a minus sign is another byte. So a number is not taken for a string, an
array, an object or a word. -/
theorem ne_of_isInt (hb : isDigit b = true ∨ b = 0x2D) (hc : isDigit c = false) (hminus : c ≠ 0x2D) :
    b ≠ c := by
  rintro rfl
  rcases hb with hb | hb
  · rw [hb] at hc
    cases hc
  · exact hminus hb

/-! ## Values -/

/-- The strings and numbers of a value have texts of the grammar; numbers are integers. -/
inductive Json.WellFormed : Json → Prop
  | null : WellFormed .null
  | bool (b : Bool) : WellFormed (.bool b)
  | num {text : List UInt8} (h : IsInt text) : WellFormed (.num text)
  | str {text : List UInt8} (h : IsText text) : WellFormed (.str text)
  | arr {vs : List Json} (h : ∀ v ∈ vs, WellFormed v) : WellFormed (.arr vs)
  | obj {ms : List (List UInt8 × Json)} (hkeys : ∀ m ∈ ms, IsText m.1)
      (hvalues : ∀ m ∈ ms, WellFormed m.2) : WellFormed (.obj ms)

/-- What a value starts with. A byte that is neither a space nor a closing bracket, so a reader of
items sees that one follows. -/
theorem Json.WellFormed.render_cons (h : v.WellFormed) :
    ∃ b t, v.render = b :: t ∧ isSpace b = false ∧ b ≠ rightBracket := by
  cases h with
  | null => exact ⟨_, _, rfl, rfl, by decide⟩
  | bool b =>
    cases b with
    | true => exact ⟨_, _, rfl, rfl, by decide⟩
    | false => exact ⟨_, _, rfl, rfl, by decide⟩
  | num h =>
    obtain ⟨b, t, rfl, hb⟩ := h.cons
    refine ⟨b, t, by rw [Json.render], ?_, ne_of_isInt hb rfl (by decide)⟩
    rcases hb with hb | rfl
    · have hne := fun c hc => ne_of_isInt (Or.inl hb) (c := c) hc
      simp [isSpace, hne 0x20 rfl (by decide), hne 0x09 rfl (by decide), hne 0x0A rfl (by decide),
        hne 0x0D rfl (by decide)]
    · rfl
  | str h => exact ⟨_, _, rfl, rfl, by decide⟩
  | arr h => exact ⟨_, _, rfl, rfl, by decide⟩
  | obj hkeys hvalues => exact ⟨_, _, rfl, rfl, by decide⟩

/-- A value is read as a whole: the bound on the depth is at least the length of its text. -/
def ReadsBack (v : Json) : Prop :=
  ∀ n rest, v.render.length ≤ n → Stops rest → value n (v.render ++ rest) = some (v, rest)

/-- Items that are read back. Each by the induction hypothesis of the value it is; the fuel is above
the length of the text. -/
theorem items_render {vs : List Json} (hne : vs ≠ []) (h : ∀ v ∈ vs, ReadsBack v)
    (hn : (renderItems vs).length < n) :
    items n (renderItems vs ++ rightBracket :: rest) = some (vs, rest) := by
  -- induction on the items; a unit of fuel is used for each
  induction vs generalizing n with
  | nil => exact absurd rfl hne
  | cons v vs ih =>
    obtain ⟨k, rfl⟩ : ∃ k, n = k + 1 := ⟨n - 1, by omega⟩
    have hv := h v List.mem_cons_self
    cases vs with
    -- the last item is followed by the bracket
    | nil =>
      simp only [renderItems] at hn ⊢
      have hvalue := hv k (rightBracket :: rest) (by omega) (stops_cons (by simp))
      rw [items]
      simp only [hvalue, Option.bind_eq_bind, Option.bind_some, punct_cons (b := rightBracket) rfl,
        punct_cons_of_ne (c := rightBracket) (b := comma) rfl (by decide), Option.map_some]
    -- the others by a comma
    | cons w vs =>
      simp only [renderItems, List.length_append, List.length_cons] at hn
      have hvalue := hv k (comma :: (renderItems (w :: vs) ++ rightBracket :: rest)) (by omega)
        (stops_cons (by simp))
      have hrest := ih (n := k) (by simp) (fun v' hv' => h v' (List.mem_cons_of_mem _ hv')) (by omega)
      rw [items]
      simp only [renderItems, List.append_assoc, List.cons_append, hvalue, Option.bind_eq_bind,
        Option.bind_some, punct_cons (b := comma) rfl, hrest, Option.map_some]

/-- Members that are read back. The keys are texts of strings, escapes included, and the values are
read back by hypothesis. -/
theorem members_readsBack {ms : List (List UInt8 × Json)} (hne : ms ≠ []) (hkeys : ∀ m ∈ ms, IsText m.1)
    (h : ∀ m ∈ ms, ReadsBack m.2) (hn : (renderMembers ms).length < n) :
    members n (renderMembers ms ++ rightBrace :: rest) = some (ms, rest) := by
  induction ms generalizing n with
  | nil => exact absurd rfl hne
  | cons m ms ih =>
    obtain ⟨key, v⟩ := m
    obtain ⟨k, rfl⟩ : ∃ k, n = k + 1 := ⟨n - 1, by omega⟩
    -- a key ends at its quote
    have hkey : ∀ r, stringText (key ++ quote :: r) = some (key, r) := fun r =>
      (hkeys (key, v) List.mem_cons_self).stringText_append
    have hv := h (key, v) List.mem_cons_self
    cases ms with
    -- the last member is followed by the brace
    | nil =>
      simp only [renderMembers, List.length_cons, List.length_append] at hn
      have hvalue := hv k (rightBrace :: rest) (by simp only; omega) (stops_cons (by simp))
      rw [members]
      simp only [renderMembers, List.cons_append, List.append_assoc, punct_cons (b := quote) rfl,
        Option.bind_eq_bind, Option.bind_some, hkey, punct_cons (b := colon) rfl, hvalue,
        punct_cons (b := rightBrace) rfl,
        punct_cons_of_ne (c := rightBrace) (b := comma) rfl (by decide), Option.map_some]
    -- the others by a comma
    | cons m ms =>
      simp only [renderMembers, List.length_cons, List.length_append] at hn
      have hvalue := hv k (comma :: (renderMembers (m :: ms) ++ rightBrace :: rest))
        (by simp only; omega) (stops_cons (by simp))
      have hrest := ih (n := k) (by simp) (fun m' hm' => hkeys m' (List.mem_cons_of_mem _ hm'))
        (fun m' hm' => h m' (List.mem_cons_of_mem _ hm')) (by omega)
      rw [members]
      simp only [renderMembers, List.cons_append, List.append_assoc, punct_cons (b := quote) rfl,
        Option.bind_eq_bind, Option.bind_some, hkey, punct_cons (b := colon) rfl, hvalue,
        punct_cons (b := comma) rfl, hrest, Option.map_some]

/-- The members of an object start with a quotation mark. So the reader of an object does not take
its first member for the end. -/
theorem renderMembers_cons {ms : List (List UInt8 × Json)} (hne : ms ≠ []) :
    ∃ t, renderMembers ms = quote :: t := by
  cases ms with
  | nil => exact absurd rfl hne
  | cons m ms =>
    obtain ⟨key, v⟩ := m
    cases ms with
    | nil => exact ⟨_, rfl⟩
    | cons m ms => exact ⟨_, rfl⟩

/-- The items of an array start with the first value. So the reader of an array does not take its
first item for the end. -/
theorem renderItems_cons {w : Json} (vs : List Json) (h : w.WellFormed) :
    ∃ b t, renderItems (w :: vs) = b :: t ∧ isSpace b = false ∧ b ≠ rightBracket := by
  obtain ⟨b, t, hw, hspace, hne⟩ := h.render_cons
  cases vs with
  | nil => exact ⟨b, t, by rw [renderItems, hw], hspace, hne⟩
  | cons v vs =>
    refine ⟨b, t ++ comma :: renderItems (v :: vs), ?_, hspace, hne⟩
    rw [renderItems, hw]
    rfl

/-- **Every value is read back**. Strings with escapes, integers, arrays and objects of any depth,
with enough fuel and whatever follows them. -/
theorem Json.WellFormed.readsBack (h : v.WellFormed) : ReadsBack v := by
  -- one case for each kind of value; the fuel is more than the text has bytes
  induction h with
  | null =>
    intro n rest hn _
    obtain ⟨k, rfl⟩ : ∃ k, n = k + 1 := ⟨n - 1, by simp [Json.render] at hn; omega⟩
    rfl
  | bool b =>
    intro n rest hn _
    obtain ⟨k, rfl⟩ : ∃ k, n = k + 1 := ⟨n - 1, by cases b <;> simp [Json.render] at hn <;> omega⟩
    cases b with
    | true => rfl
    | false => rfl
  | num h =>
    intro n rest hn hrest
    have hnumber := numberText_of_stops h hrest
    obtain ⟨b, t, rfl, hb⟩ := h.cons
    obtain ⟨k, rfl⟩ : ∃ k, n = k + 1 := ⟨n - 1, by simp [Json.render] at hn; omega⟩
    have hspace : isSpace b = false := by
      obtain ⟨b', t', heq, hspace, -⟩ := (WellFormed.num h).render_cons
      rw [Json.render] at heq
      rw [(List.cons.inj heq).1]
      exact hspace
    rw [Json.render, List.cons_append] at *
    -- the first byte of a number starts no other kind of value
    rw [value, skip_cons hspace]
    dsimp only
    rw [if_neg (ne_of_isInt hb rfl (by decide)), if_neg (ne_of_isInt hb rfl (by decide)),
      if_neg (ne_of_isInt hb rfl (by decide)), if_neg (ne_of_isInt hb rfl (by decide)),
      if_neg (ne_of_isInt hb rfl (by decide)), if_neg (ne_of_isInt hb rfl (by decide)), hnumber]
    rfl
  | str h =>
    intro n rest hn _
    obtain ⟨k, rfl⟩ : ∃ k, n = k + 1 := ⟨n - 1, by simp [Json.render] at hn; omega⟩
    rw [Json.render, List.cons_append, List.append_assoc, List.singleton_append, value,
      skip_cons (by rfl)]
    dsimp only
    rw [if_neg (by decide), if_neg (by decide), if_pos rfl, h.stringText_append]
    rfl
  | @arr vs h ih =>
    intro n rest hn _
    obtain ⟨k, rfl⟩ : ∃ k, n = k + 1 := ⟨n - 1, by simp [Json.render] at hn; omega⟩
    simp only [Json.render, List.length_cons, List.length_append, List.length_nil] at hn
    rw [Json.render, List.cons_append, List.append_assoc, List.singleton_append, value,
      skip_cons (by rfl)]
    dsimp only
    rw [if_neg (by decide), if_pos rfl]
    cases vs with
    | nil => rfl
    | cons w vs =>
      obtain ⟨b, t, heq, hspace, hne⟩ := renderItems_cons vs (h w List.mem_cons_self)
      -- a rendered item never starts like the end of the array
      have hnone : punct rightBracket (renderItems (w :: vs) ++ rightBracket :: rest) = none := by
        rw [heq, List.cons_append]
        exact punct_cons_of_ne hspace hne
      rw [hnone, items_render (by simp) ih (by omega)]
      rfl
  | @obj ms hkeys hvalues ih =>
    intro n rest hn _
    obtain ⟨k, rfl⟩ : ∃ k, n = k + 1 := ⟨n - 1, by simp [Json.render] at hn; omega⟩
    simp only [Json.render, List.length_cons, List.length_append, List.length_nil] at hn
    rw [Json.render, List.cons_append, List.append_assoc, List.singleton_append, value,
      skip_cons (by rfl)]
    dsimp only
    rw [if_pos rfl]
    by_cases hne : ms = []
    · subst hne
      rfl
    · obtain ⟨t, heq⟩ := renderMembers_cons hne
      -- and a member never like the end of the object
      have hnone : punct rightBrace (renderMembers ms ++ rightBrace :: rest) = none := by
        rw [heq, List.cons_append]
        exact punct_cons_of_ne rfl (by decide)
      rw [hnone, members_readsBack hne hkeys ih (by omega)]
      rfl

/-- A value that makes up the whole text. Nothing follows it, and the reader asks for exactly
that. -/
theorem parse_of_wellFormed (h : v.WellFormed) : parse v.render = some v := by
  have hvalue := h.readsBack (v.render.length + 1) [] (by omega) stops_nil
  rw [List.append_nil] at hvalue
  rw [parse, hvalue]
  rfl

end JsonText
