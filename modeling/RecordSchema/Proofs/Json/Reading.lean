import Mathlib.Data.String.Basic
import RecordSchema.Json.Reader

/-!
# Reading what was written

The reader takes the compact form of a value off the characters ahead and stops right behind it,
whatever follows. So the compact form can be read back (`Json.Plain.read?_compact`), at any depth,
and different values have different compact forms (`Json.Plain.eq_of_compact_eq`).

This is proved from the leaves up: the escapes of a string one character at a time, then items and
members in order. A value starts with a character that neither is white space nor closes a bracket,
so the reader never takes a list with items for an empty one. The bound on steps is twice the number
of characters, as the reader has it.

Values with numbers are left out, for a number ends where the next character is none of its own.
-/

namespace RecordSchema
namespace Json

/-- A value without numbers, whose strings are all texts. -/
inductive Plain : Json → Prop
  | null : Plain .null
  | bool (b : Bool) : Plain (.bool b)
  | text (s : String) : Plain (.text s)
  | array {items : List Json} : (∀ j ∈ items, Plain j) → Plain (.array items)
  | record {members : List (String × Json)} : (∀ e ∈ members, Plain e.2) → Plain (.record members)

section Strings

variable {c e : Char} {cs rest : List Char}

/-- One more character in front of the rest of a string, if it need not be escaped: it is no control
character, no quote and no backslash. -/
theorem readPieces_cons (h : 0x20 ≤ c.toNat) (hquote : c ≠ '\x22') (hback : c ≠ '\\') :
    readPieces (c :: cs) = (readPieces cs).map fun r => (.char c :: r.1, r.2) := by
  rw [readPieces]
  · rw [if_neg hquote, if_neg fun hc => hc.elim (Nat.not_lt.mpr h) hback]
    cases readPieces cs <;> rfl
  · intros
    contradiction
  · intros
    contradiction

/-- A backslash and a letter stand for one character. The letter is not `u`, which starts an escape
of four digits. -/
theorem readPieces_shortEscape (h : shortEscape? e = some c) :
    readPieces ('\\' :: e :: cs) = (readPieces cs).map fun r => (.char c :: r.1, r.2) := by
  rw [readPieces]
  · rw [h]
    cases readPieces cs <;> rfl
  · rintro _ _ _ _ _ rfl
    have hu : shortEscape? 'u' = none := by decide
    exact absurd (hu.symm.trans h) (Option.some_ne_none c).symm

/-- A control character is written as a code unit, which is half of nothing, so it is a character at
once. -/
theorem readPieces_unitEscape (h : c.toNat < 0x20) :
    readPieces ('\\' :: 'u' :: '0' :: '0' :: Text.hexDigit (c.toNat / 16) ::
        Text.hexDigit (c.toNat % 16) :: cs) =
      (readPieces cs).map fun r => (.char c :: r.1, r.2) := by
  have hunit : hexUnit? '0' '0' (Text.hexDigit (c.toNat / 16)) (Text.hexDigit (c.toNat % 16)) =
      some c.toNat := by
    have hzero : Text.hexValue? '0' = some 0 := by decide
    unfold hexUnit?
    rw [hzero, Text.hexValue?_hexDigit (by omega), Text.hexValue?_hexDigit (by omega)]
    show some _ = some _
    congr 1
    omega
  have hpiece : Piece.ofUnit c.toNat = .char c := by
    have hwhole : (isHighHalf c.toNat || isLowHalf c.toNat) = false := by
      simp only [isHighHalf, isLowHalf, Bool.or_eq_false_iff, Bool.and_eq_false_iff,
        decide_eq_false_iff_not]
      omega
    rw [Piece.ofUnit, hwhole, Char.ofNat_toNat]
    rfl
  rw [readPieces, hunit, ← hpiece]
  cases readPieces cs <;> rfl

/-- A character is read off its escaped form, whichever of the three it has: itself, a backslash and
a letter, or the four digits of its number, which is left to control characters. -/
theorem readPieces_escapeChar (c : Char) (cs : List Char) :
    readPieces (escapeChar c ++ cs) = (readPieces cs).map fun r => (.char c :: r.1, r.2) := by
  unfold escapeChar
  split_ifs with hquote hback hplain hb hf hn hr ht
  · subst hquote
    exact readPieces_shortEscape rfl
  · subst hback
    exact readPieces_shortEscape rfl
  · exact readPieces_cons hplain hquote hback
  · subst hb
    exact readPieces_shortEscape rfl
  · subst hf
    exact readPieces_shortEscape rfl
  · subst hn
    exact readPieces_shortEscape rfl
  · subst hr
    exact readPieces_shortEscape rfl
  · subst ht
    exact readPieces_shortEscape rfl
  · exact readPieces_unitEscape (Nat.not_le.mp hplain)

/-- The characters of a text are read off their escaped forms, up to the quote behind them. A quote
in the text is escaped, so the first one that stands alone is the closing one. -/
theorem readPieces_escaped (cs rest : List Char) :
    readPieces (cs.flatMap escapeChar ++ '\x22' :: rest) = some (cs.map .char, rest) := by
  induction cs with
  | nil => rfl
  | cons c cs ih =>
    rw [List.flatMap_cons, List.append_assoc, readPieces_escapeChar, ih]
    rfl

/-- Pieces that are whole characters are joined to these. Halves of a surrogate pair, which are the
other kind, are never written. -/
theorem joinPieces_chars (cs : List Char) : joinPieces (cs.map .char) = some cs := by
  induction cs with
  | nil => rfl
  | cons c cs ih =>
    rw [List.map_cons, joinPieces, ih]
    rfl

/-- A text is read off its quoted form, and the reader stops behind the closing quote. -/
theorem readText_quote (s : String) (rest : List Char) :
    ∃ cs, quote (some s) ++ rest = '\x22' :: cs ∧ readText cs = some (some s, rest) := by
  refine ⟨s.toList.flatMap escapeChar ++ '\x22' :: rest, ?_, ?_⟩
  · simp only [quote, List.append_assoc, List.cons_append, List.nil_append]
  · rw [readText, readPieces_escaped]
    show some ((joinPieces (s.toList.map .char)).map String.ofList, rest) = _
    rw [joinPieces_chars, Option.map_some, String.ofList_toList]

end Strings

/-- The reader takes the compact form of a value off the characters ahead when it may take twice as
many steps. -/
def ReadsBack (j : Json) : Prop :=
  ∀ n rest, 2 * (chars j).length ≤ n → readValue n (chars j ++ rest) = some (j, rest)

section Values

variable {j : Json} {c : Char} {cs rest : List Char} {n : Nat}

/-- Nothing is passed over where no white space stands. -/
theorem skipSpace_cons (h : isSpace c = false) : skipSpace (c :: cs) = c :: cs := by
  rw [skipSpace, List.dropWhile_cons_of_neg (by rw [h]; exact Bool.false_ne_true)]

/-- A value starts with a character that is no white space and closes no bracket. So an array or
object with something in it is not taken for an empty one. -/
theorem Plain.exists_chars_cons (h : j.Plain) :
    ∃ c cs, chars j = c :: cs ∧ isSpace c = false ∧ c ≠ ']' := by
  cases h with
  | null => exact ⟨_, _, rfl, by decide⟩
  | bool b => cases b <;> exact ⟨_, _, rfl, by decide⟩
  | text s => exact ⟨_, _, rfl, by decide⟩
  | @array items _ => cases items <;> exact ⟨_, _, rfl, by decide⟩
  | @record members _ => cases members <;> exact ⟨_, _, rfl, by decide⟩

/-- The literal is read, with whatever follows it left over. -/
theorem readsBack_null : ReadsBack .null := by
  intro n rest hn
  obtain ⟨n, rfl⟩ := Nat.exists_eq_add_of_le' (show 1 ≤ n from le_trans (by decide) hn)
  rfl

/-- A truth value is read off its literal. -/
theorem readsBack_bool (b : Bool) : ReadsBack (.bool b) := by
  intro n rest hn
  obtain ⟨n, rfl⟩ := Nat.exists_eq_add_of_le' (show 1 ≤ n from le_trans (by cases b <;> decide) hn)
  cases b <;> rfl

/-- A text is read off its quoted form as a value. The quotes alone leave the reader a step, so that
its bound is no hypothesis of this case. -/
theorem readsBack_text (s : String) : ReadsBack (.text s) := by
  intro n rest hn
  have hlength : 1 ≤ 2 * (chars (.text s)).length := by
    show 1 ≤ 2 * (quote (some s)).length
    simp only [quote, List.cons_append, List.length_cons]
    omega
  obtain ⟨n, rfl⟩ := Nat.exists_eq_add_of_le' (le_trans hlength hn)
  obtain ⟨cs, hcs, hread⟩ := readText_quote s rest
  show readValue (n + 1) (quote (some s) ++ rest) = _
  rw [hcs, readValue, skipSpace_cons (by decide)]
  simp only [hread, ↓reduceIte]
  rfl

/-- Items in their compact form are read up to the end of their array. The bound on steps is twice
the number of characters, which each item, and the comma behind it, leaves large enough for the
rest. -/
theorem readItems_chars {item : Json} {items : List Json} (rest : List Char) (hitem : ReadsBack item)
    (hitems : ∀ j ∈ items, ReadsBack j)
    (hn : 2 * (chars item ++ itemChars items).length ≤ n) :
    readItems n (chars item ++ itemChars items ++ rest) = some (item :: items, rest) := by
  induction items generalizing item n with
  | nil =>
    simp only [itemChars, List.length_append, List.length_singleton] at hn
    obtain ⟨n, rfl⟩ := Nat.exists_eq_add_of_le' (show 1 ≤ n by omega)
    rw [readItems, List.append_assoc, hitem n _ (by omega)]
    rfl
  | cons next items ih =>
    obtain ⟨hnext, hrest⟩ := List.forall_mem_cons.mp hitems
    simp only [itemChars, List.length_append, List.length_cons] at hn
    obtain ⟨n, rfl⟩ := Nat.exists_eq_add_of_le' (show 1 ≤ n by omega)
    -- the next item takes the place of the first, behind a comma that pays for one step
    have hread := ih hnext hrest (n := n) (by rw [List.length_append]; omega)
    rw [readItems, List.append_assoc, hitem n _ (by omega)]
    simp only [itemChars, List.cons_append, Option.bind_eq_bind, Option.bind_some]
    rw [skipSpace_cons (by decide)]
    simp only [Char.reduceEq, ↓reduceIte, hread]
    rfl

/-- An array is read when its items are. The reader tells an empty array by the bracket after the
first one, and no value starts with that bracket. -/
theorem readsBack_array {items : List Json} (hplain : ∀ j ∈ items, j.Plain)
    (h : ∀ j ∈ items, ReadsBack j) : ReadsBack (.array items) := by
  intro n rest hn
  cases items with
  | nil =>
    obtain ⟨n, rfl⟩ := Nat.exists_eq_add_of_le' (show 1 ≤ n from le_trans (by decide) hn)
    rfl
  | cons item items =>
    obtain ⟨hitem, hitems⟩ := List.forall_mem_cons.mp h
    simp only [chars, List.cons_append, List.length_cons, List.length_append] at hn
    obtain ⟨n, rfl⟩ := Nat.exists_eq_add_of_le' (show 1 ≤ n by omega)
    have hread := readItems_chars rest hitem hitems (n := n)
      (by rw [List.length_append]; omega)
    obtain ⟨c, cs, hc, hspace, hclose⟩ := (hplain item List.mem_cons_self).exists_chars_cons
    have hhead : (skipSpace (chars item ++ itemChars items ++ rest)).head? ≠ some ']' := by
      rw [hc, List.cons_append, List.cons_append, skipSpace_cons hspace]
      exact fun heq => hclose (Option.some.inj heq)
    show readValue (n + 1) ('[' :: (chars item ++ itemChars items ++ rest)) = _
    rw [readValue, skipSpace_cons (by decide)]
    simp only [Char.reduceEq, ↓reduceIte, if_neg hhead, hread]
    rfl

/-- A member is read when its value is: the name up to its closing quote, a colon, and the value.
Compact text has no space between them, so that nothing is skipped. -/
theorem readMember_chars {name : String} {value : Json} (h : ReadsBack value)
    (hn : 2 * (chars value).length ≤ n) :
    readMember (n + 1) (quote (some name) ++ ':' :: (chars value ++ rest)) =
      some ((some name, value), rest) := by
  obtain ⟨cs, hcs, hread⟩ := readText_quote name (':' :: (chars value ++ rest))
  rw [readMember, hcs, skipSpace_cons (by decide)]
  have hquote : dropWord "\"" ('\x22' :: cs) = some cs := rfl
  have hcolon : dropWord ":" (skipSpace (':' :: (chars value ++ rest))) =
      some (chars value ++ rest) := rfl
  simp only [hquote, hread, hcolon, Option.bind_eq_bind, Option.bind_some, h n rest hn]
  rfl

/-- The members of an object with texts as names. -/
def withTexts (members : List (String × Json)) : List (Option String × Json) :=
  members.map fun e => (some e.1, e.2)

/-- Members in their compact form are read up to the end of their object. The induction is on the
members behind the first one; the bound on steps counts two for each character, which pays for the
step into a member and the one to the next. -/
theorem readMembers_chars (name : String) {value : Json} {members : List (String × Json)}
    (rest : List Char) (hvalue : ReadsBack value) (hmembers : ∀ e ∈ members, ReadsBack e.2)
    (hn : 2 * (chars value ++ memberChars (withTexts members)).length < n) :
    readMembers n
        (quote (some name) ++ ':' :: (chars value ++ (memberChars (withTexts members) ++ rest))) =
      some ((some name, value) :: withTexts members, rest) := by
  induction members generalizing name value n with
  | nil =>
    simp only [withTexts, List.map_nil, memberChars, List.length_append,
      List.length_singleton] at hn
    obtain ⟨n, rfl⟩ := Nat.exists_eq_add_of_le' (show 2 ≤ n by omega)
    rw [readMembers, readMember_chars hvalue (by omega)]
    rfl
  | cons next members ih =>
    obtain ⟨hnext, hrest⟩ := List.forall_mem_cons.mp hmembers
    simp only [withTexts, List.map_cons, memberChars, List.length_append, List.length_cons] at hn
    obtain ⟨n, rfl⟩ := Nat.exists_eq_add_of_le' (show 2 ≤ n by omega)
    have hread := ih next.1 hnext hrest (n := n + 1)
      (by simp only [withTexts, List.length_append]; omega)
    have hmore : memberChars (withTexts (next :: members)) ++ rest =
        ',' :: (quote (some next.1) ++
          ':' :: (chars next.2 ++ (memberChars (withTexts members) ++ rest))) := by
      simp only [withTexts, List.map_cons, memberChars, List.cons_append, List.append_assoc]
    rw [readMembers, readMember_chars hvalue (by omega), hmore]
    simp only [Option.bind_eq_bind, Option.bind_some]
    rw [skipSpace_cons (by decide)]
    simp only [Char.reduceEq, ↓reduceIte, hread]
    rfl

/-- An object is read when the values of its members are. Its names may be repeated, as members are
kept in a list. -/
theorem readsBack_record {members : List (String × Json)}
    (h : ∀ e ∈ members, ReadsBack e.2) : ReadsBack (.record members) := by
  intro n rest hn
  cases members with
  | nil =>
    obtain ⟨n, rfl⟩ := Nat.exists_eq_add_of_le' (show 1 ≤ n from le_trans (by decide) hn)
    rfl
  | cons e members =>
    obtain ⟨hvalue, hmembers⟩ := List.forall_mem_cons.mp h
    have hchars : chars (.record (e :: members)) ++ rest =
        '{' :: (quote (some e.1) ++
          ':' :: (chars e.2 ++ (memberChars (withTexts members) ++ rest))) := by
      simp only [record, List.map_cons, chars, withTexts, List.cons_append, List.append_assoc]
    have hbound : 2 * (chars e.2 ++ memberChars (withTexts members)).length + 2 ≤ n := by
      simp only [record, List.map_cons, chars, List.length_cons, List.length_append] at hn
      simp only [withTexts, List.length_append]
      omega
    obtain ⟨n, rfl⟩ := Nat.exists_eq_add_of_le' (show 1 ≤ n by omega)
    have hread := readMembers_chars e.1 rest hvalue hmembers (n := n) (by omega)
    obtain ⟨cs, hcs, -⟩ :=
      readText_quote e.1 (':' :: (chars e.2 ++ (memberChars (withTexts members) ++ rest)))
    have hhead : (skipSpace (quote (some e.1) ++
        ':' :: (chars e.2 ++ (memberChars (withTexts members) ++ rest)))).head? ≠ some '}' := by
      rw [hcs, skipSpace_cons (by decide)]
      exact fun heq => absurd (Option.some.inj heq) (by decide)
    rw [hchars, readValue, skipSpace_cons (by decide)]
    simp only [Char.reduceEq, ↓reduceIte, if_neg hhead, hread]
    rfl

/-- Every plain value is read off its compact form, by induction on the value. Numbers are no plain
values; nothing that is encoded here has one. -/
theorem Plain.readsBack (h : j.Plain) : ReadsBack j := by
  induction h with
  | null => exact readsBack_null
  | bool b => exact readsBack_bool b
  | text s => exact readsBack_text s
  | array hplain ih => exact readsBack_array hplain ih
  | record _ ih => exact readsBack_record ih

/-- **The compact form of a value is read as the value.** No depth is too great for this reader; the
limit is one of decoders. -/
theorem Plain.read?_compact (h : j.Plain) : read? j.compact = some j := by
  have hread := h.readsBack (2 * (chars j).length + 1) [] (by omega)
  rw [List.append_nil] at hread
  rw [read?, compact, String.toList_ofList]
  simp only [hread, Option.bind_eq_bind, Option.bind_some]
  rfl

/-- **Values with the same compact form are equal**, since both are what the form is read as. -/
theorem Plain.eq_of_compact_eq {k : Json} (hj : j.Plain) (hk : k.Plain)
    (h : j.compact = k.compact) : j = k := by
  have hread := hj.read?_compact
  rw [h, hk.read?_compact] at hread
  exact (Option.some.inj hread).symm

end Values
end Json
end RecordSchema
