import RecordSchema.Yaml.Cell
import RecordSchema.Yaml.Word

/-!
# Writing YAML

`Block.render` writes a value as a YAML document in block style: two columns for each level, the
dashes of a sequence inside a mapping at the column of its key, no folding of long lines.

A string stands plain where it reads back as the same string, and else in the mildest quotes that
do: a text with line feeds is a literal block, a text that looks like something else or that
starts or contains what has a meaning is in single quotes, and a text with characters that do not
print is in double quotes. A key that is long or has a line break is announced by `?`.
-/

namespace RecordSchema
namespace Yaml

/-- What can be written. -/
inductive Block where
  /-- A word that stands as it is, such as `null` or `true`. -/
  | word (w : String)
  | text (s : String)
  /-- A character, which is quoted even where a text would stand plain. -/
  | char (c : Char)
  | sequence (items : List Block)
  | mapping (entries : List (String × Block))

/-- Characters that a document shows as they are. U+0085 is a line break and yet not among them. -/
def isPrintable (c : Char) : Bool :=
  let n := c.toNat
  n == 0x0A || (0x20 ≤ n && n ≤ 0x7E) || (0xA0 ≤ n && n ≤ 0xFFFD && n != 0xFEFF) ||
    0x10000 ≤ n

/-- Whether a list of characters starts with an edge or is empty. -/
def atEdge (cs : List Char) : Bool :=
  match cs with
  | [] => true
  | c :: _ => isEdge c

/-- What about a text decides how it can be written. -/
structure Traits where
  /-- It has a line break. -/
  multiline : Bool
  /-- It can stand without quotes. -/
  plain : Bool
  /-- It can stand in single quotes. -/
  singleQuoted : Bool
  /-- It can be a literal block. -/
  literal : Bool

/-- Whether some character satisfies `p` and the one after it `q`. -/
def hasPair (p q : Char → Bool) : List Char → Bool
  | c :: d :: rest => (p c && q d) || hasPair p q (d :: rest)
  | _ => false

/-- Whether a later character gives a text a meaning: a `:` before an edge or a `#` after one. -/
def hasInnerMark (before : Char) : List Char → Bool
  | [] => false
  | c :: rest =>
    (c == ':' && atEdge rest) || (c == '#' && isEdge before) || hasInnerMark c rest

/-- Whether the characters of a text give it a meaning in block style. -/
def hasBlockMark : List Char → Bool
  | [] => false
  | c :: rest =>
    ("#,[]\x7b\x7d&*!|>%@\x22\x27\x60".toList.contains c) ||
      ((c == '?' || c == ':' || c == '-') && atEdge rest) || hasInnerMark c rest ||
        ["---".toList, "...".toList].any fun mark => mark.isPrefixOf (c :: rest)

/-- The traits of a text. -/
def Traits.of (s : String) : Traits :=
  let cs := s.toList
  if cs.isEmpty then ⟨false, true, true, false⟩
  else
    let multiline := cs.any isBreak
    let isSpace (c : Char) : Bool := c == ' '
    let spaceAtEnd := cs.getLast?.any isSpace
    let spaceAround := spaceAtEnd || cs.head?.any isSpace
    let breakThenSpace := hasPair isBreak isSpace cs
    let spaceThenBreak := hasPair isSpace isBreak cs
    let unquotable := spaceThenBreak || !cs.all isPrintable
    { multiline
      plain := !(multiline || spaceAround || unquotable || hasBlockMark cs)
      singleQuoted := !(breakThenSpace || unquotable)
      literal := !(spaceAtEnd || unquotable) }

/-- Spaces up to a column. -/
def indentation (column : Nat) : List Char := List.replicate column ' '

/-- Whether a line has been ended. -/
def endsLine (cs : List Char) : Bool := cs.getLast?.any isBreak

/-- Pieces of text one below the other, all but the first at a column. After a piece that has ended
its line there is no other break. -/
def stacked (column : Nat) : List (List Char) → List Char
  | [] => []
  | [piece] => piece
  | piece :: next :: rest =>
    piece ++ (if endsLine piece then [] else ['\n']) ++
      indentation column ++ stacked column (next :: rest)

/-- The content of single quotes, continued at `column` after a line break. A line feed that
starts a run of breaks is doubled, for the first break of a run is folded. -/
def singleQuotedChars (column : Nat) (afterBreak : Bool) : List Char → List Char
  | [] => if afterBreak then indentation column else []
  | c :: rest =>
    if isBreak c then
      (if !afterBreak && c == '\n' then ['\n'] else []) ++ c :: singleQuotedChars column true rest
    else
      (if afterBreak then indentation column else []) ++
        (if c == '\x27' then [c, c] else [c]) ++ singleQuotedChars column false rest

/-- A number in `k` hexadecimal digits, in upper case. -/
def hexDigits : Nat → Nat → List Char
  | 0, _ => []
  | k + 1, n => hexDigits k (n / 16) ++ [Text.upperHexDigit (n % 16)]

/-- A character inside double quotes. -/
def doubleQuotedChar (c : Char) : List Char :=
  if isPrintable c && !isBreak c && c != '\x22' && c != '\\' then [c]
  else
    match c with
    | '\x00' => ['\\', '0']
    | '\x07' => ['\\', 'a']
    | '\x08' => ['\\', 'b']
    | '\t' => ['\\', 't']
    | '\n' => ['\\', 'n']
    | '\x0b' => ['\\', 'v']
    | '\x0c' => ['\\', 'f']
    | '\r' => ['\\', 'r']
    | '\x1b' => ['\\', 'e']
    | '\x22' => ['\\', '\x22']
    | '\\' => ['\\', '\\']
    | '\u0085' => ['\\', 'N']
    | '\u2028' => ['\\', 'L']
    | '\u2029' => ['\\', 'P']
    | _ =>
      if c.toNat ≤ 0xFF then '\\' :: 'x' :: hexDigits 2 c.toNat
      else if c.toNat ≤ 0xFFFF then '\\' :: 'u' :: hexDigits 4 c.toNat
      else '\\' :: 'U' :: hexDigits 8 c.toNat

/-- The lines of a literal block, indented to `column`; empty lines are not. -/
def literalChars (column : Nat) (afterBreak : Bool) : List Char → List Char
  | [] => []
  | c :: rest =>
    if isBreak c then c :: literalChars column true rest
    else
      (if afterBreak then indentation column else []) ++ c :: literalChars column false rest

/-- The header of a literal block: an indentation where the text starts with a space or a break,
and what to do with the breaks at its end. -/
def literalHeader (cs : List Char) : List Char :=
  '|' :: (if cs.head?.any fun c => c == ' ' || isBreak c then ['2'] else []) ++
    match cs.reverse with
    | [] => ['-']
    | last :: before =>
      if !isBreak last then ['-']
      else
        match before with
        | [] => ['+']
        | c :: _ => if isBreak c then ['+'] else []

/-- A text in single quotes. -/
def singleQuoted (column : Nat) (cs : List Char) : List Char :=
  '\x27' :: singleQuotedChars column false cs ++ ['\x27']

/-- A text in double quotes. -/
def doubleQuoted (cs : List Char) : List Char := '\x22' :: cs.flatMap doubleQuotedChar ++ ['\x22']

/-- A text in single quotes, or in double quotes where those are needed. -/
def quoted (t : Traits) (column : Nat) (cs : List Char) : List Char :=
  if t.singleQuoted then singleQuoted column cs else doubleQuoted cs

/-- A text as it is written; further lines start at `column`. -/
def textChars (column : Nat) (s : String) : List Char :=
  let t := Traits.of s
  let cs := s.toList
  if cs.contains '\n' then
    if t.literal then literalHeader cs ++ '\n' :: literalChars column true cs else doubleQuoted cs
  else if isMeaningful s || !t.plain then quoted t column cs
  else cs

/-- Whether a key can stand before its `:` without announcement: it has one line and at most 128
bytes. -/
def isShortKey (s : String) : Bool := !(Traits.of s).multiline && s.utf8ByteSize ≤ 128

/-- A key at `column` with its `:`. -/
def keyChars (column : Nat) (k : String) : List Char :=
  if isShortKey k then textChars (column + 2) k ++ [':']
  else stacked column ['?' :: ' ' :: textChars (column + 2) k, [':']]

mutual

/-- The entries of a mapping at `column`. -/
def Block.entryPieces (column : Nat) : List (String × Block) → List (List Char)
  | [] => []
  | (k, v) :: rest => Block.entryChars column k v :: Block.entryPieces column rest

/-- One entry of a mapping at `column`. A collection starts on the line below a short key, and on
the line of the `:` of any other. -/
def Block.entryChars (column : Nat) (k : String) : Block → List Char
  | .word w => keyChars column k ++ ' ' :: w.toList
  | .text s => keyChars column k ++ ' ' :: textChars (column + 2) s
  | .char c =>
    keyChars column k ++ ' ' :: quoted (Traits.of (String.singleton c)) (column + 2) [c]
  | .sequence items =>
    if items.isEmpty then keyChars column k ++ " []".toList
    else if isShortKey k then
      stacked column (keyChars column k :: Block.itemPieces column items)
    else keyChars column k ++ ' ' :: stacked (column + 2) (Block.itemPieces (column + 2) items)
  | .mapping entries =>
    if entries.isEmpty then keyChars column k ++ " \x7b\x7d".toList
    else if isShortKey k then
      stacked (column + 2) (keyChars column k :: Block.entryPieces (column + 2) entries)
    else keyChars column k ++ ' ' :: stacked (column + 2) (Block.entryPieces (column + 2) entries)

/-- The items of a sequence at `column`. -/
def Block.itemPieces (column : Nat) : List Block → List (List Char)
  | [] => []
  | item :: rest => Block.itemChars column item :: Block.itemPieces column rest

/-- One item of a sequence at `column`. A collection starts on the line of the dash. -/
def Block.itemChars (column : Nat) : Block → List Char
  | .word w => '-' :: ' ' :: w.toList
  | .text s => '-' :: ' ' :: textChars (column + 2) s
  | .char c => '-' :: ' ' :: quoted (Traits.of (String.singleton c)) (column + 2) [c]
  | .sequence items =>
    if items.isEmpty then "- []".toList
    else '-' :: ' ' :: stacked (column + 2) (Block.itemPieces (column + 2) items)
  | .mapping entries =>
    if entries.isEmpty then "- \x7b\x7d".toList
    else '-' :: ' ' :: stacked (column + 2) (Block.entryPieces (column + 2) entries)

end

/-- A mapping as a whole document, which ends with a line break. -/
def render (entries : List (String × Block)) : String :=
  if entries.isEmpty then "\x7b\x7d\n"
  else
    let cs := stacked 0 (Block.entryPieces 0 entries)
    String.ofList (if endsLine cs then cs else cs ++ ['\n'])

example :
    render [("a", .word "null"), ("b", .sequence [.mapping [("c", .text "x: y"), ("d", .text "z\n")]])] =
      "a: null\nb:\n- c: 'x: y'\n  d: |\n    z\n" := by decide +kernel

end Yaml
end RecordSchema
