import RecordSchema.Yaml.Property
import RecordSchema.Yaml.Scalar
import RecordSchema.Yaml.Token

/-!
# From characters to tokens

`tokens?` cuts a YAML text into tokens. Two things make this more than cutting.

Indentation opens and closes block collections: `columns` holds the columns of the open ones,
innermost first, a token further right than the innermost may open one, and a token further left
closes those it has left. Inside brackets indentation means nothing.

A key is only known when the `:` after it is met. Wherever a key may start, the place is kept as a
candidate, one for each level of brackets; the `:` turns the candidate into a `key` token put in
front of what was read since. A key ends on the line it starts on and takes at most 1024 bytes. A
candidate at the column of an open block mapping has to become a key.
-/

namespace RecordSchema
namespace Yaml

/-- A place where a key may have started. -/
structure Candidate where
  /-- The number of tokens before it. -/
  position : Nat
  /-- Nothing but a key may stand there. -/
  required : Bool
  start : Cell

/-- The cells to be read, the tokens read, and what decides about the next one. -/
structure Lexer where
  cells : List Cell
  tokens : Array Token := #[]
  /-- Columns of the open block collections, innermost first. -/
  columns : List Nat := []
  /-- The candidate of each level of brackets, innermost first; the last is that of the block. -/
  candidates : List (Option Candidate) := [none]
  /-- Whether a key may start at the next token. -/
  keyAllowed : Bool := true

/-- Passes over blanks, comments and line breaks up to the next token. A line break in block
context lets a key start again; a tab counts as a blank where no key may start. -/
def skipToToken (inFlow keyAllowed inComment : Bool) : List Cell → Bool × List Cell
  | [] => (keyAllowed, [])
  | c :: rest =>
    if isBreak c.char then skipToToken inFlow (keyAllowed || !inFlow) false rest
    else if c.char == endMark then (keyAllowed, c :: rest)
    else if inComment || c.char == ' ' || (c.char == '\t' && (inFlow || !keyAllowed)) ||
        (c.char == byteOrderMark && c.column == 0) then
      skipToToken inFlow keyAllowed inComment rest
    else if c.char == '#' then skipToToken inFlow keyAllowed true rest
    else (keyAllowed, c :: rest)

namespace Lexer

/-- Whether the next token stands inside brackets. -/
def inFlow (l : Lexer) : Bool := 1 < l.candidates.length

/-- The least column at which content of the innermost block collection may stand. -/
def margin (l : Lexer) : Nat :=
  match l.columns with
  | [] => 0
  | c :: _ => c + 1

/-- Appends a token. -/
def push (l : Lexer) (t : Token) : Lexer := { l with tokens := l.tokens.push t }

/-- Goes on `k` cells further. -/
def skip (l : Lexer) (k : Nat) : Lexer := { l with cells := l.cells.drop k }

/-- Closes the block collections right of a column, given the open ones. -/
def closeTo (l : Lexer) (column : Nat) : List Nat → Lexer
  | [] => { l with columns := [] }
  | c :: rest =>
    if column < c then (l.push .blockEnd).closeTo column rest else { l with columns := c :: rest }

/-- Closes all block collections. -/
def closeAll (l : Lexer) : Lexer := l.columns.foldl (fun l _ => l.push .blockEnd) { l with columns := [] }

/-- Opens a block collection at a column, with its token at `position`, unless one is open there. -/
def openAt (l : Lexer) (column position : Nat) (t : Token) : Lexer :=
  if !l.inFlow && l.margin ≤ column then
    { l with
      columns := column :: l.columns
      tokens := l.tokens.insertIdxIfInBounds position t }
  else l

/-- Gives the candidate of the innermost level up, which must not be a required one. -/
def dropCandidate (l : Lexer) : Option Lexer :=
  match l.candidates with
  | some k :: outer => if k.required then none else some { l with candidates := none :: outer }
  | _ => some l

/-- Keeps the next token as a candidate, if a key may start there. -/
def keepCandidate (l : Lexer) : Option Lexer :=
  if l.keyAllowed then do
    let l ← l.dropCandidate
    match l.cells, l.candidates with
    | c :: _, _ :: outer =>
      let required := !l.inFlow && l.columns.head? == some c.column
      return { l with candidates := some ⟨l.tokens.size, required, c⟩ :: outer }
    | _, _ => return l
  else some l

/-- Forgets the candidates that can no longer become keys at the next cell. -/
def forgetStale (l : Lexer) : Option Lexer := do
  let c ← l.cells.head?
  let candidates ← l.candidates.mapM fun candidate =>
    match candidate with
    | some k =>
      if k.start.line < c.line || k.start.offset + 1024 < c.offset then
        if k.required then none else some none
      else some (some k)
    | none => some none
  return { l with candidates }

/-- Reads an opening bracket. -/
def openFlow (l : Lexer) (t : Token) : Option Lexer := do
  let l ← l.keepCandidate
  return { (l.push t).skip 1 with candidates := none :: l.candidates, keyAllowed := true }

/-- Reads a closing bracket. -/
def closeFlow (l : Lexer) (t : Token) : Option Lexer := do
  let l ← l.dropCandidate
  let candidates := if l.inFlow then l.candidates.tail else l.candidates
  return { (l.push t).skip 1 with candidates, keyAllowed := false }

/-- Reads a comma between the members of a flow collection. -/
def readComma (l : Lexer) : Option Lexer := do
  let l ← l.dropCandidate
  return { (l.push .comma).skip 1 with keyAllowed := true }

/-- Opens a block collection at the next token, in whose place it has to be allowed. -/
def openHere (l : Lexer) (column : Nat) (t : Token) : Option Lexer :=
  if l.inFlow then some l
  else if l.keyAllowed then some (l.openAt column l.tokens.size t)
  else none

/-- Reads the `-` before an item of a block sequence. -/
def readDash (l : Lexer) (column : Nat) : Option Lexer := do
  let l ← l.openHere column .blockSequence
  let l ← l.dropCandidate
  return { (l.push .dash).skip 1 with keyAllowed := true }

/-- Reads the `?` before a key of any form. -/
def readKeyMark (l : Lexer) (column : Nat) : Option Lexer := do
  let l ← l.openHere column .blockMapping
  let l ← l.dropCandidate
  return { (l.push .key).skip 1 with keyAllowed := !l.inFlow }

/-- Reads the `:` before a value. A candidate becomes the key. -/
def readValueMark (l : Lexer) (column : Nat) : Option Lexer := do
  match l.candidates with
  | some k :: outer =>
    let l := { l with tokens := l.tokens.insertIdxIfInBounds k.position .key }
    let l := l.openAt k.start.column k.position .blockMapping
    return { (l.push .value).skip 1 with candidates := none :: outer, keyAllowed := false }
  | _ =>
    let l ← l.openHere column .blockMapping
    return { (l.push .value).skip 1 with keyAllowed := !l.inFlow }

/-- Reads an anchor or an alias. -/
def readReference (l : Lexer) (rest : List Cell) (t : String → Token) : Option Lexer := do
  let l ← l.keepCandidate
  let (name, cells) ← readAnchorName rest
  return { l.push (t name) with cells, keyAllowed := false }

/-- Reads a tag. -/
def readTagHere (l : Lexer) (rest : List Cell) : Option Lexer := do
  let l ← l.keepCandidate
  let (t, cells) ← readTag l.inFlow rest
  return { l.push t with cells, keyAllowed := false }

/-- Reads a block scalar. -/
def readBlockHere (l : Lexer) (rest : List Cell) (style : Style) : Option Lexer := do
  let l ← l.dropCandidate
  let (text, cells) ← readBlock (style == .folded) l.margin (l.columns.head?.getD 0) rest
  return { l.push (.scalar (String.ofList text) style) with cells, keyAllowed := true }

/-- Reads a quoted scalar. -/
def readQuotedHere (l : Lexer) (rest : List Cell) (style : Style) : Option Lexer := do
  let l ← l.keepCandidate
  let (text, cells) ←
    if style == .singleQuoted then readSingleQuoted {} [] rest
    else readDoubleQuoted .text {} [] rest
  return { l.push (.scalar (String.ofList text) style) with cells, keyAllowed := false }

/-- Reads a plain scalar. After one that a line break ends a key may start. -/
def readPlainHere (l : Lexer) : Option Lexer := do
  let l ← l.keepCandidate
  let plain ← readPlain l.inFlow l.margin {} [] l.cells
  return { l.push (.scalar (String.ofList plain.text) .plain) with
    cells := plain.rest
    keyAllowed := plain.brokenAfter }

/-- Reads what separates documents. -/
def readMarker (l : Lexer) (t : Token) : Option Lexer := do
  let l ← l.closeAll.dropCandidate
  return { (l.push t).skip 3 with keyAllowed := false }

/-- Reads a directive. -/
def readDirectiveHere (l : Lexer) (rest : List Cell) : Option Lexer := do
  let l ← l.closeAll.dropCandidate
  let (t, cells) ← readDirective rest
  return { l.push t with cells, keyAllowed := false }

/-- Whether a plain scalar may start with `c` before `next`. -/
def startsPlain (inFlow : Bool) (c next : Char) : Bool :=
  !(isEdge c || "-?:,[]\x7b\x7d#&*!|>%@\x22\x27\x60".toList.contains c) ||
    (c == '-' && !isGap next) || (!inFlow && (c == '?' || c == ':') && !isEdge next)

/-- Reads the token that starts with the cell `c`. -/
def readToken (l : Lexer) (c : Cell) (rest : List Cell) : Option Lexer :=
  let next := charAt rest 0
  if c.char == '%' && c.column == 0 then l.readDirectiveHere rest
  else if isMarker '-' l.cells then l.readMarker .documentStart
  else if isMarker '.' l.cells then l.readMarker .documentEnd
  else if c.char == '[' then l.openFlow .flowSequence
  else if c.char == '{' then l.openFlow .flowMapping
  else if c.char == ']' then l.closeFlow .flowSequenceEnd
  else if c.char == '}' then l.closeFlow .flowMappingEnd
  else if c.char == ',' then l.readComma
  else if c.char == '-' && isEdge next then l.readDash c.column
  else if c.char == '?' && (l.inFlow || isEdge next) then l.readKeyMark c.column
  else if c.char == ':' && (l.inFlow || isEdge next) then l.readValueMark c.column
  else if c.char == '*' then l.readReference rest .alias
  else if c.char == '&' then l.readReference rest .anchor
  else if c.char == '!' then l.readTagHere rest
  else if c.char == '|' && !l.inFlow then l.readBlockHere rest .literal
  else if c.char == '>' && !l.inFlow then l.readBlockHere rest .folded
  else if c.char == '\x27' then l.readQuotedHere rest .singleQuoted
  else if c.char == '\x22' then l.readQuotedHere rest .doubleQuoted
  else if startsPlain l.inFlow c.char next then l.readPlainHere
  else none

/-- Goes to the next token, closing the block collections that end before it. -/
def advance (l : Lexer) : Option Lexer := do
  let (keyAllowed, cells) := skipToToken l.inFlow l.keyAllowed false l.cells
  let l ← forgetStale { l with keyAllowed, cells }
  let c ← cells.head?
  return if l.inFlow then l else l.closeTo c.column l.columns

/-- Reads tokens up to the end of the text, given a bound on their number. -/
def readAll : Nat → Lexer → Option (Array Token)
  | 0, _ => none
  | bound + 1, l => do
    let l ← l.advance
    match l.cells with
    | [] => none
    | c :: rest =>
      if c.char == endMark then l.closeAll.dropCandidate.map Lexer.tokens
      else
        let l ← l.readToken c rest
        readAll bound l

end Lexer

/-- The tokens of a text, or nothing when it cannot be cut into tokens. Every step but the last
takes at least one cell, and the last one is at the end mark. -/
def tokens? (s : String) : Option (List Token) := do
  let cells ← cells? s
  let tokens ← Lexer.readAll cells.length { cells }
  return tokens.toList

end Yaml
end RecordSchema
