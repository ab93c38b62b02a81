import RecordSchema.Json.Basic

/-!
# Reading JSON

`Json.read?` reads one value from a whole text, by the grammar of RFC 8259 and nothing beyond it:
no comments, no commas before a closing bracket, no leading zeros, no unescaped control
characters. How deep values nest is left to whoever interprets the value.

Each reader takes the characters ahead and gives what it read with the characters after it. The
readers of values count down a bound on the steps still to come; twice the number of characters is
more than enough, for two steps read at least one.
-/

namespace RecordSchema
namespace Json

/-- White space between tokens. -/
def isSpace (c : Char) : Bool := c == ' ' || c == '\n' || c == '\t' || c == '\r'

/-- The characters from the first that is not white space. -/
def skipSpace (cs : List Char) : List Char := cs.dropWhile isSpace

/-- The number that four hexadecimal digits write. -/
def hexUnit? (a b c d : Char) : Option Nat := do
  let a ← Text.hexValue? a
  let b ← Text.hexValue? b
  let c ← Text.hexValue? c
  let d ← Text.hexValue? d
  return ((a * 16 + b) * 16 + c) * 16 + d

/-- The character of an escape of one letter. -/
def shortEscape? (c : Char) : Option Char :=
  if c = '\x22' then some '\x22'
  else if c = '\\' then some '\\'
  else if c = '/' then some '/'
  else if c = 'b' then some '\x08'
  else if c = 'f' then some '\x0c'
  else if c = 'n' then some '\n'
  else if c = 'r' then some '\r'
  else if c = 't' then some '\t'
  else none

/-- Whether a code unit is the first half of a surrogate pair. -/
def isHighHalf (n : Nat) : Bool := 0xD800 ≤ n && n < 0xDC00

/-- Whether a code unit is the second half of a surrogate pair. -/
def isLowHalf (n : Nat) : Bool := 0xDC00 ≤ n && n < 0xE000

/-- What one step along a string yields: a character, or half of a surrogate pair. -/
inductive Piece where
  | char (c : Char)
  | half (unit : Nat)

/-- The piece of an escaped code unit. -/
def Piece.ofUnit (n : Nat) : Piece :=
  if isHighHalf n || isLowHalf n then .half n else .char (Char.ofNat n)

/-- The characters of pieces, where a high half and the low half after it make one character and
any other half has none. -/
def joinPieces : List Piece → Option (List Char)
  | [] => some []
  | .char c :: rest => (joinPieces rest).map (c :: ·)
  | .half n :: .half m :: rest =>
    if isHighHalf n && isLowHalf m then
      (joinPieces rest).map (Char.ofNat (0x10000 + (n - 0xD800) * 0x400 + (m - 0xDC00)) :: ·)
    else none
  | .half _ :: _ => none

/-- Reads a string after its opening quotation mark. -/
def readPieces : List Char → Option (List Piece × List Char)
  | [] => none
  | '\\' :: 'u' :: a :: b :: c :: d :: rest => do
    let n ← hexUnit? a b c d
    let (pieces, rest) ← readPieces rest
    return (.ofUnit n :: pieces, rest)
  | '\\' :: c :: rest => do
    let e ← shortEscape? c
    let (pieces, rest) ← readPieces rest
    return (.char e :: pieces, rest)
  | c :: rest =>
    if c = '\x22' then some ([], rest)
    else if c.toNat < 0x20 ∨ c = '\\' then none
    else do
      let (pieces, rest) ← readPieces rest
      return (.char c :: pieces, rest)

/-- Reads a string after its opening quotation mark, as a text. -/
def readText (cs : List Char) : Option (Option String × List Char) := do
  let (pieces, rest) ← readPieces cs
  return ((joinPieces pieces).map String.ofList, rest)

/-- Splits off the digits ahead, of which there is at least one. -/
def readDigits (cs : List Char) : Option (List Char × List Char) :=
  match cs.takeWhile Char.isDigit with
  | [] => none
  | ds => some (ds, cs.dropWhile Char.isDigit)

/-- Splits off the whole part of a number: one zero, or digits that do not start with one. -/
def readWhole : List Char → Option (List Char × List Char)
  | '0' :: rest => some (['0'], rest)
  | cs => readDigits cs

/-- Splits off the fraction of a number, if there is one. -/
def readFraction : List Char → Option (List Char × List Char)
  | '.' :: rest => do
    let (ds, rest) ← readDigits rest
    return ('.' :: ds, rest)
  | cs => some ([], cs)

/-- Splits off the exponent of a number, if there is one. -/
def readExponent : List Char → Option (List Char × List Char)
  | [] => some ([], [])
  | c :: rest =>
    if c = 'e' ∨ c = 'E' then
      let sign := rest.takeWhile fun d => d = '+' || d = '-'
      if sign.length ≤ 1 then do
        let (ds, after) ← readDigits (rest.drop sign.length)
        return (c :: sign ++ ds, after)
      else none
    else some ([], c :: rest)

/-- Splits a number off. -/
def readNumber (cs : List Char) : Option (List Char × List Char) := do
  let (sign, cs) := match cs with
    | '-' :: rest => (['-'], rest)
    | _ => ([], cs)
  let (whole, cs) ← readWhole cs
  let (fraction, cs) ← readFraction cs
  let (exponent, cs) ← readExponent cs
  return (sign ++ whole ++ fraction ++ exponent, cs)

/-- The characters after a word that stands ahead. -/
def dropWord (word : String) (cs : List Char) : Option (List Char) :=
  if word.toList.isPrefixOf cs then some (cs.drop word.length) else none

mutual

/-- Reads a value. -/
def readValue : Nat → List Char → Option (Json × List Char)
  | 0, _ => none
  | n + 1, cs =>
    match skipSpace cs with
    | [] => none
    | c :: rest =>
      if c = '\x22' then do
        let (content, rest) ← readText rest
        return (.string content, rest)
      else if c = '[' then
        if (skipSpace rest).head? = some ']' then some (.array [], (skipSpace rest).tail)
        else do
          let (items, rest) ← readItems n rest
          return (.array items, rest)
      else if c = '{' then
        if (skipSpace rest).head? = some '}' then some (.object [], (skipSpace rest).tail)
        else do
          let (members, rest) ← readMembers n rest
          return (.object members, rest)
      else if c = 'n' then (dropWord "null" (c :: rest)).map (Json.null, ·)
      else if c = 't' then (dropWord "true" (c :: rest)).map (Json.bool true, ·)
      else if c = 'f' then (dropWord "false" (c :: rest)).map (Json.bool false, ·)
      else do
        let (written, rest) ← readNumber (c :: rest)
        return (.number (String.ofList written), rest)

/-- Reads the items of an array, one or more, and its closing bracket. -/
def readItems : Nat → List Char → Option (List Json × List Char)
  | 0, _ => none
  | n + 1, cs => do
    let (item, rest) ← readValue n cs
    match skipSpace rest with
    | [] => none
    | c :: rest =>
      if c = ']' then some ([item], rest)
      else if c = ',' then do
        let (items, rest) ← readItems n rest
        return (item :: items, rest)
      else none

/-- Reads a member of an object. -/
def readMember : Nat → List Char → Option ((Option String × Json) × List Char)
  | 0, _ => none
  | n + 1, cs => do
    let rest ← dropWord "\"" (skipSpace cs)
    let (name, rest) ← readText rest
    let rest ← dropWord ":" (skipSpace rest)
    let (value, rest) ← readValue n rest
    return ((name, value), rest)

/-- Reads the members of an object, one or more, and its closing brace. -/
def readMembers : Nat → List Char → Option (List (Option String × Json) × List Char)
  | 0, _ => none
  | n + 1, cs => do
    let (member, rest) ← readMember n cs
    match skipSpace rest with
    | [] => none
    | c :: rest =>
      if c = '}' then some ([member], rest)
      else if c = ',' then do
        let (members, rest) ← readMembers n rest
        return (member :: members, rest)
      else none

end

/-- The value that a whole text writes. -/
def read? (s : String) : Option Json := do
  let cs := s.toList
  let (j, rest) ← readValue (2 * cs.length + 1) cs
  if (skipSpace rest).isEmpty then some j else none

example : (read? " [1.5e3 , \x7b\"a\":\"\\ud83d\\ude00\"\x7d]").map compact =
    some "[1.5e3,\x7b\"a\":\"😀\"\x7d]" := by decide +kernel

example : (read? "[1,]").isNone ∧ (read? "01").isNone ∧ (read? "\"\t\"").isNone := by
  decide +kernel

end Json
end RecordSchema
