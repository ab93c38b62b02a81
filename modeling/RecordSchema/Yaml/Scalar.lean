import RecordSchema.Text.Hex
import RecordSchema.Yaml.Cell

/-!
# Scalars of YAML

Readers for the five ways to write a scalar: plain, in single or double quotes, and as a literal
or folded block. Each takes the cells from the scalar on and gives its text with the cells after
it, or nothing when the scalar is malformed.

Blanks and line breaks inside a plain or quoted scalar are a `Gap`. A gap without a break stands
for its blanks; one with breaks is folded: a single break becomes a space, and of several the
first is dropped. The breaks U+2028 and U+2029 are never folded.
-/

namespace RecordSchema
namespace Yaml

/-- Blanks before the first break, and the breaks, latest first. A break that was escaped stands
for nothing and is not among them. -/
structure Gap where
  blanks : List Char := []
  breaks : List Char := []
  afterEscape : Bool := false

namespace Gap

/-- Whether nothing has been passed over. -/
def isEmpty (g : Gap) : Bool := g.blanks.isEmpty && g.breaks.isEmpty

/-- Whether the gap reaches into another line. -/
def isBroken (g : Gap) : Bool := g.afterEscape || !g.breaks.isEmpty

/-- Passes over a blank. Blanks after a break do not count. -/
def addBlank (g : Gap) (c : Char) : Gap :=
  if g.isBroken then g else { g with blanks := c :: g.blanks }

/-- Passes over a break. Blanks before it do not count any more. -/
def addBreak (g : Gap) (c : Char) : Gap := { g with blanks := [], breaks := c :: g.breaks }

/-- What the gap stands for, last character first. -/
def folded (g : Gap) : List Char :=
  match g.breaks.reverse with
  | [] => g.blanks
  | b :: rest =>
    if g.afterEscape || b ≠ '\n' then g.breaks
    else if rest.isEmpty then [' ']
    else rest.reverse

end Gap

/-- Characters that structure a flow collection. -/
def isFlowMark (c : Char) : Bool := c == ',' || c == '[' || c == ']' || c == '{' || c == '}'

/-- A plain scalar: its text, whether the gap after it reaches into another line, and the cells
after that gap. -/
structure Plain where
  text : List Char
  brokenAfter : Bool
  rest : List Cell

/-- Reads a plain scalar on, where `acc` holds its characters so far, last first, and `gap` what
was passed over since. Content of following lines starts at column `margin` at least. -/
def readPlain (inFlow : Bool) (margin : Nat) (gap : Gap) (acc : List Char) :
    List Cell → Option Plain
  | [] => none
  | c :: rest =>
    let done := some ⟨acc.reverse, gap.isBroken, c :: rest⟩
    let next := charAt rest 0
    if isGap c.char then
      if gap.isBroken && c.column < margin && c.char == '\t' then none
      else readPlain inFlow margin (gap.addBlank c.char) acc rest
    else if isBreak c.char then readPlain inFlow margin (gap.addBreak c.char) acc rest
    else if c.char == endMark then done
    else if !gap.isEmpty && ((!inFlow && c.column < margin) || c.char == '#') then done
    else if atMarker (c :: rest) then done
    else if inFlow && c.char == ':' && (isFlowMark next || next == '?') then none
    else if (c.char == ':' && isEdge next) || (inFlow && isFlowMark c.char) then done
    else readPlain inFlow margin {} (c.char :: (gap.folded ++ acc)) rest

/-- Reads a scalar in single quotes on, after its opening quote. -/
def readSingleQuoted (gap : Gap) (acc : List Char) : List Cell → Option (List Char × List Cell)
  | [] => none
  | c :: rest =>
    if isGap c.char then readSingleQuoted (gap.addBlank c.char) acc rest
    else if isBreak c.char then readSingleQuoted (gap.addBreak c.char) acc rest
    else if c.char == endMark || atMarker (c :: rest) then none
    else if c.char == '\x27' then
      match rest with
      | [] => none
      | d :: after =>
        if d.char == '\x27' then readSingleQuoted {} ('\x27' :: (gap.folded ++ acc)) after
        else some ((gap.folded ++ acc).reverse, rest)
    else readSingleQuoted {} (c.char :: (gap.folded ++ acc)) rest

/-- The character of an escape of one letter. -/
def escaped? (c : Char) : Option Char :=
  match c with
  | '0' => some '\x00'
  | 'a' => some '\x07'
  | 'b' => some '\x08'
  | 't' => some '\t'
  | '\t' => some '\t'
  | 'n' => some '\n'
  | 'v' => some '\x0b'
  | 'f' => some '\x0c'
  | 'r' => some '\r'
  | 'e' => some '\x1b'
  | ' ' => some ' '
  | '\x22' => some '\x22'
  | '/' => some '/'
  | '\\' => some '\\'
  | 'N' => some '\u0085'
  | '_' => some '\u00a0'
  | 'L' => some '\u2028'
  | 'P' => some '\u2029'
  | _ => none

/-- The number of hexadecimal digits of a numeric escape. -/
def escapeDigits? (c : Char) : Option Nat :=
  match c with
  | 'x' => some 2
  | 'u' => some 4
  | 'U' => some 8
  | _ => none

/-- The character with a code point. -/
def scalarValue? (n : Nat) : Option Char :=
  if n.isValidChar then some (Char.ofNat n) else none

/-- What a scalar in double quotes is reading. -/
inductive Quoting where
  | text
  /-- After a backslash. -/
  | escape
  /-- In a numeric escape, with digits to come and the value so far. -/
  | digits (left value : Nat)

/-- Reads a scalar in double quotes on, after its opening quote. A backslash at the end of a line
joins the lines without a space. -/
def readDoubleQuoted (mode : Quoting) (gap : Gap) (acc : List Char) :
    List Cell → Option (List Char × List Cell)
  | [] => none
  | c :: rest =>
    match mode with
    | .text =>
      if isGap c.char then readDoubleQuoted .text (gap.addBlank c.char) acc rest
      else if isBreak c.char then readDoubleQuoted .text (gap.addBreak c.char) acc rest
      else if c.char == endMark || atMarker (c :: rest) then none
      else if c.char == '\x22' then some ((gap.folded ++ acc).reverse, rest)
      else if c.char == '\\' then readDoubleQuoted .escape {} (gap.folded ++ acc) rest
      else readDoubleQuoted .text {} (c.char :: (gap.folded ++ acc)) rest
    | .escape =>
      if isBreak c.char then readDoubleQuoted .text { afterEscape := true } acc rest
      else
        match escapeDigits? c.char with
        | some k => readDoubleQuoted (.digits k 0) {} acc rest
        | none => do
          let e ← escaped? c.char
          readDoubleQuoted .text {} (e :: acc) rest
    | .digits left value => do
      let d ← Text.hexValue? c.char
      let value := value * 16 + d
      if left ≤ 1 then
        let e ← scalarValue? value
        readDoubleQuoted .text {} (e :: acc) rest
      else readDoubleQuoted (.digits (left - 1) value) {} acc rest

/-- The header of a block scalar: what to do with the breaks at its end, and its indentation. -/
structure BlockHeader where
  /-- `some true` keeps all breaks at the end, `some false` drops them, `none` keeps one. -/
  keepBreaks : Option Bool := none
  indent : Option Nat := none

/-- Reads the sign of a block scalar's header. -/
def chomping? (c : Char) : Option Bool :=
  if c == '+' then some true else if c == '-' then some false else none

/-- Reads the indentation of a block scalar's header, a digit from 1 on. -/
def indentDigit? (c : Char) : Option Nat :=
  if c.isDigit && c != '0' then some (c.toNat - 0x30) else none

/-- Reads the header of a block scalar: a sign and a digit in either order, both optional, then at
most a comment up to the end of the line. -/
def readBlockHeader (cells : List Cell) : Option (BlockHeader × List Cell) :=
  let first := charAt cells 0
  let second := charAt cells 1
  let (header, rest) : BlockHeader × List Cell :=
    match chomping? first, indentDigit? first with
    | some keep, _ =>
      match indentDigit? second with
      | some k => (⟨some keep, some k⟩, cells.drop 2)
      | none => (⟨some keep, none⟩, cells.drop 1)
    | none, some k =>
      match chomping? second with
      | some keep => (⟨some keep, some k⟩, cells.drop 2)
      | none => (⟨none, some k⟩, cells.drop 1)
    | none, none => ({}, cells)
  let rest := (spanChars isGap rest).2
  let rest :=
    if charAt rest 0 == '#' then (spanChars (fun c => !isBreak c && c != endMark) rest).2 else rest
  if isBreak (charAt rest 0) then some (header, rest.drop 1)
  else if charAt rest 0 == endMark then some (header, rest)
  else none

/-- Passes over empty lines and the indentation of the line after them: the widest indentation met,
the breaks, and the cells from the first character of content. Without a known `indent` all spaces
are passed over. A tab must not stand in the indentation. -/
def skipEmptyLines (indent : Option Nat) (widest : Nat) (breaks : List Char) :
    List Cell → Option (Nat × List Char × List Cell)
  | [] => none
  | c :: rest =>
    let inIndent := match indent with
      | some k => c.column < k
      | none => true
    if inIndent && c.char == ' ' then skipEmptyLines indent widest breaks rest
    else if inIndent && c.char == '\t' then none
    else if isBreak c.char then skipEmptyLines indent (max widest c.column) (c.char :: breaks) rest
    else some (max widest c.column, breaks.reverse, c :: rest)

/-- The lines of a block scalar as they are put together. -/
structure BlockText where
  /-- The text before the last line break, last character first. -/
  acc : List Char := []
  /-- The break that ended the last line, if it had one. -/
  lastBreak : List Char := []
  /-- The empty lines after it. -/
  emptyLines : List Char := []
  /-- Whether the last line started with a blank, which folding leaves alone. -/
  indented : Bool := false

/-- Appends a line that follows the breaks kept so far. -/
def BlockText.addLine (isFolded : Bool) (b : BlockText) (line lineBreak emptyLines : List Char) :
    BlockText :=
  let indented := (line.head?.map isGap).getD false
  let joint :=
    if isFolded && b.lastBreak == ['\n'] && !b.indented && !indented then
      if b.emptyLines.isEmpty then [' '] else b.emptyLines
    else b.lastBreak ++ b.emptyLines
  ⟨line.reverse ++ (joint.reverse ++ b.acc), lineBreak, emptyLines, indented⟩

/-- Reads the lines of a block scalar that start at column `indent`, given a bound on their
number. -/
def readBlockLines (isFolded : Bool) (indent : Nat) :
    Nat → BlockText → List Cell → Option (BlockText × List Cell)
  | 0, _, _ => none
  | bound + 1, b, cells =>
    if charAt cells 0 == endMark || cells.head?.map Cell.column != some indent then some (b, cells)
    else do
      let (line, rest) := spanChars (fun c => !isBreak c && c != endMark) cells
      let (lineBreak, rest) :=
        if isBreak (charAt rest 0) then ([charAt rest 0], rest.drop 1) else ([], rest)
      let (_, emptyLines, rest) ← skipEmptyLines (some indent) 0 [] rest
      readBlockLines isFolded indent bound (b.addLine isFolded line lineBreak emptyLines) rest

/-- Reads a block scalar after its `|` or `>`. `margin` is the least column of content, and an
indentation in the header counts from the column `outer` of the surrounding collection. -/
def readBlock (isFolded : Bool) (margin outer : Nat) (cells : List Cell) :
    Option (List Char × List Cell) := do
  let (header, rest) ← readBlockHeader cells
  let known := header.indent.map (outer + ·)
  let (widest, emptyLines, rest) ← skipEmptyLines known 0 [] rest
  let indent := known.getD (max widest (max margin 1))
  let (b, rest) ← readBlockLines isFolded indent rest.length { emptyLines } rest
  let tail := match header.keepBreaks with
    | some true => b.lastBreak ++ b.emptyLines
    | some false => []
    | none => b.lastBreak
  return (b.acc.reverse ++ tail, rest)

end Yaml
end RecordSchema
