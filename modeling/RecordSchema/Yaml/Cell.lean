/-!
# Located characters

A YAML text is read as a list of cells: characters that know where they stand. Line breaks of any
spelling except U+2028 and U+2029 become `\n`, so that a break is always one cell. The list ends
with a cell that holds U+0000, a character no text may contain; what is asked of "the next
character" therefore always has an answer.
-/

namespace RecordSchema
namespace Yaml

/-- A character with its place: by line and column, and by the bytes of UTF-8 before it. -/
structure Cell where
  char : Char
  offset : Nat
  line : Nat
  column : Nat

/-- Characters that a text may contain. -/
def isAllowed (c : Char) : Bool :=
  let n := c.toNat
  n == 0x09 || n == 0x0A || n == 0x0D || (0x20 ≤ n && n ≤ 0x7E) || n == 0x85 ||
    (0xA0 ≤ n && n ≤ 0xD7FF) || (0xE000 ≤ n && n ≤ 0xFFFD) || 0x10000 ≤ n

/-- Space and tab. -/
def isGap (c : Char) : Bool := c == ' ' || c == '\t'

/-- Line breaks. -/
def isBreak (c : Char) : Bool :=
  c == '\n' || c == '\r' || c == '\u0085' || c == '\u2028' || c == '\u2029'

/-- The mark after the last character. -/
def endMark : Char := '\x00'

/-- Space, tab, line break or the end of the text. -/
def isEdge (c : Char) : Bool := isGap c || isBreak c || c == endMark

/-- Letters, digits, `_` and `-` of ASCII. -/
def isWordChar (c : Char) : Bool := c.isAlphanum || c == '_' || c == '-'

/-- The byte order mark. -/
def byteOrderMark : Char := '\ufeff'

/-- Places the characters of a text from a given place on. -/
def locate (offset line column : Nat) : List Char → List Cell
  | [] => [⟨endMark, offset, line, column⟩]
  | '\r' :: '\n' :: rest => ⟨'\n', offset, line, column⟩ :: locate (offset + 2) (line + 1) 0 rest
  | c :: rest =>
    if isBreak c then
      ⟨if c = '\u2028' ∨ c = '\u2029' then c else '\n', offset, line, column⟩ ::
        locate (offset + c.utf8Size) (line + 1) 0 rest
    else ⟨c, offset, line, column⟩ :: locate (offset + c.utf8Size) line (column + 1) rest

/-- The cells of a text whose characters are all allowed. -/
def cells? (s : String) : Option (List Cell) :=
  if s.toList.all isAllowed then some (locate 0 0 0 s.toList) else none

/-- The character `k` cells ahead. -/
def charAt (cells : List Cell) (k : Nat) : Char :=
  match cells[k]? with
  | some c => c.char
  | none => endMark

/-- Whether a line starts here with three of `c` and an edge, which separates documents. -/
def isMarker (c : Char) (cells : List Cell) : Bool :=
  (cells.head?.map Cell.column == some 0) && charAt cells 0 == c && charAt cells 1 == c &&
    charAt cells 2 == c && isEdge (charAt cells 3)

/-- Whether a line starts here with either separator of documents. -/
def atMarker (cells : List Cell) : Bool := isMarker '-' cells || isMarker '.' cells

/-- Splits off the cells ahead whose characters satisfy `p`. -/
def spanChars (p : Char → Bool) (cells : List Cell) : List Char × List Cell :=
  ((cells.takeWhile fun c => p c.char).map Cell.char, cells.dropWhile fun c => p c.char)

end Yaml
end RecordSchema
