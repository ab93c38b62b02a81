import RecordSchema.Text.Hex
import RecordSchema.Yaml.Cell
import RecordSchema.Yaml.Token

/-!
# Anchors, tags and directives of YAML

Readers for what may stand before a node or a document. Each takes the cells after the indicator
(`&`, `*`, `!`, `%`) and gives a token with the cells after it.
-/

namespace RecordSchema
namespace Yaml

/-- Characters that may follow the name of an anchor, besides an edge. -/
def endsAnchor (c : Char) : Bool :=
  isEdge c || c == '?' || c == ':' || c == ',' || c == ']' || c == '}' || c == '%' || c == '@' ||
    c == '\x60'

/-- Reads the name of an anchor or of an alias. -/
def readAnchorName (cells : List Cell) : Option (String × List Cell) :=
  let (name, rest) := spanChars isWordChar cells
  if name.isEmpty || !endsAnchor (charAt rest 0) then none else some (String.ofList name, rest)

/-- Characters of a tag. Inside `<` and `>` the flow indicators `,` `[` `]` belong to them. -/
def isTagChar (verbatim : Bool) (c : Char) : Bool :=
  isWordChar c || (";/?:@&=+$.!~*()%\x27".toList.contains c) ||
    (verbatim && (c == ',' || c == '[' || c == ']'))

/-- The number that two hexadecimal digits write. -/
def octet? (a b : Char) : Option Nat := do
  let a ← Text.hexValue? a
  let b ← Text.hexValue? b
  return a * 16 + b

/-- The number of octets that a UTF-8 sequence has after its first one, and the bits of the first. -/
def leadOctet? (n : Nat) : Option (Nat × Nat) :=
  if n < 0x80 then some (0, n)
  else if n / 32 = 6 then some (1, n % 32)
  else if n / 16 = 14 then some (2, n % 16)
  else if n / 8 = 30 then some (3, n % 8)
  else none

/-- The character that a sequence of `more` octets after the first writes with its bits. There is
none when fewer octets would do, or when no character has that number. -/
def sequenceChar? (more bits : Nat) : Option Char :=
  let least := match more with
    | 0 => 0
    | 1 => 0x80
    | 2 => 0x800
    | _ => 0x10000
  if least ≤ bits && bits.isValidChar then some (Char.ofNat bits) else none

/-- Replaces escapes `%xx` by the characters they write in UTF-8; a sequence of octets that has the
form of one and writes none becomes `none`. Of the sequence being read, `more` octets follow the
first and `left` are to come, and `bits` holds its bits so far. -/
def unescapeTag (more left bits : Nat) : List Char → Option (List (Option Char))
  | [] => if left = 0 then some [] else none
  | '%' :: a :: b :: rest => do
    let n ← octet? a b
    match left with
    | 0 =>
      let (more, bits) ← leadOctet? n
      if more = 0 then
        let cs ← unescapeTag 0 0 0 rest
        return sequenceChar? more bits :: cs
      else unescapeTag more more bits rest
    | 1 =>
      if n / 64 = 2 then
        let cs ← unescapeTag 0 0 0 rest
        return sequenceChar? more (bits * 64 + n % 64) :: cs
      else none
    | k + 2 =>
      if n / 64 = 2 then unescapeTag more (k + 1) (bits * 64 + n % 64) rest else none
  | c :: rest =>
    if left ≠ 0 ∨ c = '%' then none
    else do
      let cs ← unescapeTag 0 0 0 rest
      return some c :: cs

/-- Reads the characters of a tag. -/
def readTagChars (verbatim : Bool) (cells : List Cell) :
    Option (List (Option Char) × List Cell) := do
  let (written, rest) := spanChars (isTagChar verbatim) cells
  let cs ← unescapeTag 0 0 0 written
  return (cs, rest)

/-- Whether a tag may end here. -/
def endsTag (inFlow : Bool) (c : Char) : Bool := isEdge c || (inFlow && c == ',')

/-- Reads a tag after its `!`: `<…>` is verbatim, `word!…` has a handle of its own, anything else
has the handle `!`, and nothing at all is the tag `!` itself. -/
def readTag (inFlow : Bool) (cells : List Cell) : Option (Token × List Cell) := do
  if charAt cells 0 == '<' then
    let (suffix, rest) ← readTagChars true (cells.drop 1)
    if suffix.isEmpty || charAt rest 0 != '>' then none
    else
      let rest := rest.drop 1
      if endsTag inFlow (charAt rest 0) then some (.tag "" (.ofChars suffix), rest) else none
  else
    let (word, afterWord) := spanChars isWordChar cells
    if charAt afterWord 0 == '!' then
      let (suffix, rest) ← readTagChars false (afterWord.drop 1)
      if suffix.isEmpty || !endsTag inFlow (charAt rest 0) then none
      else some (.tag ("!" ++ String.ofList word ++ "!") (.ofChars suffix), rest)
    else
      let (suffix, rest) ← readTagChars false afterWord
      if !endsTag inFlow (charAt rest 0) then none
      else
        let suffix := Tag.ofChars (word.map some ++ suffix)
        if suffix = .text "" then some (.tag "" (.text "!"), rest) else some (.tag "!" suffix, rest)

/-- Reads a number of at most nine digits. -/
def readVersionNumber (cells : List Cell) : Option (Nat × List Cell) :=
  let (digits, rest) := spanChars Char.isDigit cells
  if digits.isEmpty || 9 < digits.length then none
  else some (digits.foldl (fun n d => n * 10 + (d.toNat - 0x30)) 0, rest)

/-- Reads the version of a `%YAML` directive. -/
def readVersion (cells : List Cell) : Option (Token × List Cell) := do
  let (major, rest) ← readVersionNumber (spanChars isGap cells).2
  if charAt rest 0 != '.' then none
  else
    let (minor, rest) ← readVersionNumber (rest.drop 1)
    return (.version major minor, rest)

/-- Reads the handle and the expansion of a `%TAG` directive. -/
def readTagHandle (cells : List Cell) : Option (Token × List Cell) := do
  let cells := (spanChars isGap cells).2
  if charAt cells 0 != '!' then none
  else
    let (word, rest) := spanChars isWordChar (cells.drop 1)
    let closed := charAt rest 0 == '!'
    let rest := if closed then rest.drop 1 else rest
    if (!closed && !word.isEmpty) || !isGap (charAt rest 0) then none
    else
      let (expansion, rest) ← readTagChars true (spanChars isGap rest).2
      if expansion.isEmpty || !isEdge (charAt rest 0) then none
      else
        let handle := "!" ++ String.ofList word ++ (if closed then "!" else "")
        return (.tagHandle handle (.ofChars expansion), rest)

/-- Reads a directive after its `%`, with the rest of its line. -/
def readDirective (cells : List Cell) : Option (Token × List Cell) := do
  let (name, rest) := spanChars isWordChar cells
  if !isEdge (charAt rest 0) then none
  else
    let (token, rest) ←
      if name = "YAML".toList then readVersion rest
      else if name = "TAG".toList then readTagHandle rest
      else none
    let rest := (spanChars isGap rest).2
    let rest :=
      if charAt rest 0 == '#' then (spanChars (fun c => !isBreak c && c != endMark) rest).2
      else rest
    if isBreak (charAt rest 0) then some (token, rest.drop 1)
    else if charAt rest 0 == endMark then some (token, rest)
    else none

end Yaml
end RecordSchema
