import RecordSchema.Document.Decoding
import RecordSchema.Json.Reader

/-!
# Documents in JSON

How JSON answers a decoder. Nothing is converted: a text is a string, a truth value a literal. A
record may also be an array of its members in order, where members at the end may be left out. An
alternative without content is a string or an object whose one member is `null`. Collections nest
127 deep at most; the values that a record passes over are not counted.
-/

namespace RecordSchema
namespace Json

/-- The number below 256 that is written without sign, point and exponent. -/
def byte? (written : String) : Option UInt8 :=
  if written.toList.all Char.isDigit then
    let n := written.toList.foldl (fun n d => n * 10 + (d.toNat - 0x30)) 0
    if n < 256 then some n.toUInt8 else none
  else none

/-- The members of an object with their names as texts. -/
def named? (members : List (Option String × Json)) : Option (List (String × Json)) :=
  members.mapM fun e => e.1.map (·, e.2)

/-- The members of a record by name. -/
def members? (names : List String) : Json → Option (String → Option Json)
  | .object members => do
    let members ← named? members
    if names.all fun name => members.countP (fun e => e.1 == name) ≤ 1 then
      some fun name => (members.find? fun e => e.1 == name).map Prod.snd
    else none
  | .array items =>
    if items.length ≤ names.length then some fun name => items[names.idxOf name]? else none
  | _ => none

/-- How JSON answers a decoder. -/
def format : Format Option Json where
  depth := 127
  refuse := none
  text
    | .string content => content
    | _ => none
  flag
    | .bool b => some b
    | _ => none
  byte
    | .number written => byte? written
    | _ => none
  optional read
    | .null => some none
    | j => (read j).map some
  record n names j := if n = 0 then none else members? names j
  items n
    | .array items => if n = 0 then none else some items
    | _ => none
  entries n
    | .object members => if n = 0 then none else named? members
    | _ => none
  tagged n
    | .string content => content.map (·, none)
    | .object [(name, value)] => if n = 0 then none else name.map (·, some value)
    | _ => none
  unit
    | .null => some ()
    | _ => none

end Json

/-- Reads a JSON text with a decoder. -/
def decodeJson {α : Type} (read : Format Option Json → Nat → Json → Option α) (text : String) :
    Option α := do
  let j ← Json.read? text
  read Json.format Json.format.depth j

end RecordSchema
