import LanRoom.Data.Entities
import LanRoom.Web.Message

/-! # Escapes of the page

`escapeHTML` and `escapeAttr` of `web/static/app.js`, on every string of JavaScript: a sequence of
units of 16 bits, whose surrogates need not be paired. Their tables are `htmlEntities` and
`attrEntities`; what is shown is decoded with `entities`, which has the entries of both.

On a string that comes from characters the escapes are those of `Web.Message` (`utf16_escapeHTML`,
`utf16_escapeAttr`). -/

namespace LanRoom.Web

open Entities (EntityTable)

/-- A string of JavaScript: units of UTF-16. -/
abbrev JSString := List UInt16

/-- The unit of a character below `0x10000`. -/
def unit (c : Char) : UInt16 := UInt16.ofNat c.toNat

/-- The units of a character. -/
def utf16Char (c : Char) : JSString :=
  if c.toNat < 0x10000 then [unit c]
  else [UInt16.ofNat (0xD800 + (c.toNat - 0x10000) / 0x400),
    UInt16.ofNat (0xDC00 + (c.toNat - 0x10000) % 0x400)]

/-- The units of a text. -/
def utf16 (s : Text) : JSString := s.flatMap utf16Char

namespace JSString

/-- `s.replaceAll(c, r)`, of a character that is one unit. -/
def replaceAll (c : Char) (r : String) (s : JSString) : JSString :=
  Entities.replaceAll (unit c) (utf16 r.toList) s

/-- `escapeHTML`. -/
def escapeHTML (s : JSString) : JSString :=
  replaceAll '"' "&quot;" (replaceAll '>' "&gt;" (replaceAll '<' "&lt;" (replaceAll '&' "&amp;" s)))

/-- `escapeAttr`. -/
def escapeAttr (s : JSString) : JSString :=
  replaceAll '\'' "&#39;" (replaceAll '<' "&lt;" (replaceAll '"' "&quot;" (replaceAll '&' "&amp;" s)))

/-! ## Tables -/

/-- A character with the name of its entity. -/
def entry (c : Char) (name : String) : UInt16 × JSString := (unit c, utf16 name.toList)

/-- The entities of `escapeHTML`. -/
def htmlEntities : EntityTable UInt16 where
  lead := unit '&'
  entries := [entry '&' "amp;", entry '<' "lt;", entry '>' "gt;", entry '"' "quot;"]
  lead_mem := by decide
  lead_front := by decide
  ordered := by decide
  prefixFree := by decide

/-- The entities of `escapeAttr`. -/
def attrEntities : EntityTable UInt16 where
  lead := unit '&'
  entries := [entry '&' "amp;", entry '"' "quot;", entry '<' "lt;", entry '\'' "#39;"]
  lead_mem := by decide
  lead_front := by decide
  ordered := by decide
  prefixFree := by decide

/-- The entities of both. -/
def entities : EntityTable UInt16 where
  lead := unit '&'
  entries := [entry '&' "amp;", entry '<' "lt;", entry '>' "gt;", entry '"' "quot;",
    entry '\'' "#39;"]
  lead_mem := by decide
  lead_front := by decide
  ordered := by decide
  prefixFree := by decide

/-- `escapeHTML` replaces the characters of its table. The chain of calls of `replace` is that of
the library for this table. -/
theorem escapeHTML_eq (s : JSString) : escapeHTML s = htmlEntities.escape s := rfl

/-- `escapeAttr` replaces the characters of its table. The chain of calls of `replace` is that of
the library for this table. -/
theorem escapeAttr_eq (s : JSString) : escapeAttr s = attrEntities.escape s := rfl

/-! ## Both escapes -/

/-- An escape is the one-pass map of its table, decoding once takes it back, and it puts in no lead
that does not start an entity. -/
structure Faithful (t : EntityTable UInt16) (escape : JSString → JSString) (s : JSString) :
    Prop where
  /-- The replacements amount to one pass. -/
  onePass : escape s = s.flatMap t.entity
  decoded : t.unescape (escape s) = s
  /-- So does a decoder that knows the entities of both escapes. -/
  shown : entities.unescape (escape s) = s
  /-- Around a lead there are an entity and what the rest of the string became. -/
  leads : ∀ p q, escape s = p ++ unit '&' :: q → ∃ s₁ e s₂, e ∈ t.entries ∧
    s = s₁ ++ e.1 :: s₂ ∧ p = escape s₁ ∧ unit '&' :: q = unit '&' :: e.2 ++ escape s₂

/-- **Any table of these entities is faithful**: it escapes in one pass, and what it writes is
decoded to the string it was given. -/
theorem Faithful.of_table {t : EntityTable UInt16} (hlead : t.lead = unit '&')
    (hsub : t.entries ⊆ entities.entries) (s : JSString) : Faithful t t.escape s where
  onePass := Entities.EntityTable.escape_eq_flatMap s
  decoded := Entities.EntityTable.unescape_escape rfl (List.Subset.refl t.entries) s
  shown := Entities.EntityTable.unescape_escape hlead.symm hsub s
  leads p q h := by
    rw [← hlead] at h ⊢
    exact Entities.EntityTable.exists_of_escape_eq h

/-- A unit of a table that is in no entity does not occur. It has been replaced, and no replacement
brings it back. -/
theorem not_mem_escape {t : EntityTable UInt16} {c : UInt16} {s : JSString}
    (hc : ∃ e ∈ t.entries, e.1 = c) (hfresh : ∀ e ∈ t.entries, c ∉ t.lead :: e.2) :
    ∀ x ∈ t.escape s, x ≠ c := by
  rintro x hx rfl
  exact Entities.EntityTable.not_mem_escape hc hfresh s hx

/-- **Escaping is reversible and complete**, for every string of JavaScript: the chain of
replacements is a replacement in one pass, decoding the entities gives the string again, and no
character that could open a tag or end a value is left. -/
theorem escapes_faithful (s : JSString) :
    Faithful htmlEntities escapeHTML s ∧ Faithful attrEntities escapeAttr s ∧
      (∀ x ∈ escapeHTML s, x ≠ unit '<' ∧ x ≠ unit '>' ∧ x ≠ unit '"') ∧
      ∀ x ∈ escapeAttr s, x ≠ unit '<' ∧ x ≠ unit '"' ∧ x ≠ unit '\'' := by
  refine ⟨Faithful.of_table rfl (by decide +kernel) s, Faithful.of_table rfl (by decide +kernel) s,
    ?_, ?_⟩
  · intro x hx
    rw [escapeHTML_eq] at hx
    exact ⟨not_mem_escape (by decide +kernel) (by decide +kernel) x hx,
      not_mem_escape (by decide +kernel) (by decide +kernel) x hx,
      not_mem_escape (by decide +kernel) (by decide +kernel) x hx⟩
  · intro x hx
    rw [escapeAttr_eq] at hx
    exact ⟨not_mem_escape (by decide +kernel) (by decide +kernel) x hx,
      not_mem_escape (by decide +kernel) (by decide +kernel) x hx,
      not_mem_escape (by decide +kernel) (by decide +kernel) x hx⟩

example : escapeAttr (utf16 "<a b='&lt;'>".toList) = utf16 "&lt;a b=&#39;&amp;lt;&#39;>".toList := by
  decide

/-! ## Strings that come from characters -/

/-- Texts are encoded piece by piece. Escaping a text on its characters or on its units can thus be
compared piece by piece. -/
theorem utf16_append (s t : Text) : utf16 (s ++ t) = utf16 s ++ utf16 t := List.flatMap_append

/-- And character by character. It is the equation that inductions over a text use. -/
theorem utf16_cons (c : Char) (s : Text) : utf16 (c :: s) = utf16Char c ++ utf16 s :=
  List.flatMap_cons

/-- A unit of ASCII comes from its character only. Surrogates lie far above, so no unit of another
character is taken for it. -/
theorem unit_mem_utf16Char {c d : Char} (hc : c.toNat < 0x80) (h : unit c ∈ utf16Char d) :
    d = c := by
  have hunit : (unit c).toNat = c.toNat := by
    rw [unit, UInt16.toNat_ofNat_of_lt']
    exact hc.trans (by decide)
  have hd : d.toNat < 0x110000 := by
    rcases d.valid with h | h
    · exact h.trans (by decide)
    · exact h.2
  unfold utf16Char at h
  split at h
  · rename_i hlt
    have heq := congrArg UInt16.toNat (List.mem_singleton.mp h)
    rw [hunit, unit, UInt16.toNat_ofNat_of_lt' hlt] at heq
    exact Char.toNat_inj.mp heq.symm
  · simp only [List.mem_cons, List.not_mem_nil, or_false] at h
    rcases h with h | h <;> have heq := congrArg UInt16.toNat h
    · rw [hunit, UInt16.toNat_ofNat_of_lt' (by show _ < 65536; omega)] at heq
      omega
    · rw [hunit, UInt16.toNat_ofNat_of_lt' (by show _ < 65536; omega)] at heq
      omega

/-- A replacement is the one on characters. It does not matter whether one looks at characters or at
units when the one that is replaced is ASCII. -/
theorem utf16_replaceAll {c : Char} (hc : c.toNat < 0x80) (r : String) (s : Text) :
    utf16 (Entities.replaceAll c r.toList s) = replaceAll c r (utf16 s) := by
  induction s with
  | nil => rfl
  | cons d s ih =>
    have hd : utf16 (if d = c then r.toList else [d]) = replaceAll c r (utf16Char d) := by
      by_cases h : d = c
      · have hself : utf16Char c = [unit c] := if_pos (hc.trans (by decide))
        rw [if_pos h, h, hself, replaceAll, Entities.replaceAll, List.flatMap_singleton, if_pos rfl]
      · rw [if_neg h, replaceAll, Entities.replaceAll_of_not_mem]
        · rw [utf16_cons, utf16, List.flatMap_nil, List.append_nil]
        · intro hmem
          exact h (unit_mem_utf16Char hc hmem)
    rw [Entities.replaceAll, List.flatMap_cons, utf16_append, hd, utf16_cons, replaceAll, replaceAll,
      Entities.replaceAll_append]
    exact congrArg _ ih

/-- `escapeHTML` on a string that comes from characters. The model of the message template works on
characters, and this ties it to the function on strings. -/
theorem utf16_escapeHTML (s : Text) : utf16 (Web.escapeHTML s) = escapeHTML (utf16 s) := by
  rw [Web.escapeHTML, utf16_replaceAll (by decide), utf16_replaceAll (by decide),
    utf16_replaceAll (by decide), utf16_replaceAll (by decide), escapeHTML]

/-- `escapeAttr` on a string that comes from characters. The model of the message template works on
characters, and this ties it to the function on strings. -/
theorem utf16_escapeAttr (s : Text) : utf16 (Web.escapeAttr s) = escapeAttr (utf16 s) := by
  rw [Web.escapeAttr, utf16_replaceAll (by decide), utf16_replaceAll (by decide),
    utf16_replaceAll (by decide), utf16_replaceAll (by decide), escapeAttr]

end JSString

end LanRoom.Web
