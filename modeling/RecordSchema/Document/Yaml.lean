import RecordSchema.Document.Decoding
import RecordSchema.Yaml.Composition
import RecordSchema.Yaml.Word

/-!
# Documents in YAML

How YAML answers a decoder. Any scalar is a text; a truth value and the absence of a value are
plain words; a collection may also be nothing at all. Of a mapping, keys that a record does not
know are passed over. An alternative is a node with a tag of the document's own, which names it, or
else a scalar, whatever other tag it has.

Collections nest 128 deep at most. Every alias that is followed costs one step, of which a
document allows a hundred for each of its marks, so that aliases of aliases cannot multiply.
-/

namespace RecordSchema
namespace Yaml

/-- Readers that may refuse and that count the aliases left to follow. -/
abbrev Following := StateT Nat Option

/-- The node that a node stands for. -/
def Document.follow (d : Document) : Node → Following Node
  | .alias slot => do
    match ← get with
    | 0 => failure
    | left + 1 =>
      set left
      match d.slot? slot with
      | some n => return n
      | none => failure
  | n => return n

/-- The tag of truth values. -/
def boolTag : Tag := .text "tag:yaml.org,2002:bool"

/-- The tag of integers. -/
def intTag : Tag := .text "tag:yaml.org,2002:int"

/-- The tag of missing values. -/
def nullTag : Tag := .text "tag:yaml.org,2002:null"

/-- Whether a scalar stands for something else than a text: it is plain, or a literal block whose
tag says so. -/
def isWord (tag : Tag) : Style → Option Tag → Bool
  | .plain, _ => true
  | .literal, some t => t == tag
  | _, _ => false

/-- Whether a node is nothing at all. -/
def isNothing : Node → Bool
  | .scalar text style _ => style == .plain && text.isEmpty
  | _ => false

/-- Whether a node stands for a missing value; a tag must not contradict. -/
def isMissing : Node → Option Bool
  | .scalar text .plain none => some (text.isEmpty || isNullWord text)
  | .scalar text .plain (some tag) =>
    if tag = nullTag then if isNullWord text then some true else none else some false
  | _ => some false

/-- The text of a scalar. -/
def textOf (d : Document) (n : Node) : Following String := do
  match ← d.follow n with
  | .scalar text _ _ => return text
  | _ => failure

/-- The entries of a mapping, where nothing at all is the mapping without entries. -/
def entriesOf (d : Document) (left : Nat) (n : Node) : Following (List (Node × Node)) := do
  let n ← d.follow n
  match n with
  | .mapping entries _ => if left = 0 then failure else return entries
  | _ => if isNothing n then return [] else failure

/-- The name that the tag of an alternative gives it. -/
def alternative? (tag : Option Tag) : Option String := tag.bind Tag.localName?

/-- How a document in YAML answers a decoder. -/
def format (d : Document) : Format Following Node where
  depth := 128
  refuse := failure
  text := textOf d
  flag n := do
    match ← d.follow n with
    | .scalar text style tag =>
      if isWord boolTag style tag then liftM (truthWord? text) else failure
    | _ => failure
  byte n := do
    match ← d.follow n with
    | .scalar text style tag =>
      if isWord intTag style tag then
        return (← liftM (unsigned? 255 text.toList)).toUInt8
      else failure
    | _ => failure
  optional read n := do
    let n ← d.follow n
    if ← liftM (isMissing n) then return none else return some (← read n)
  record left names n := do
    let entries ← entriesOf d left n
    let members ← entries.mapM fun e => do return (← textOf d e.1, e.2)
    if names.all fun name => members.countP (fun e => e.1 == name) ≤ 1 then
      return fun name => (members.find? fun e => e.1 == name).map Prod.snd
    else failure
  items left n := do
    let n ← d.follow n
    match n with
    | .sequence items _ => if left = 0 then failure else return items
    | _ => if isNothing n then return [] else failure
  entries left n := do
    let entries ← entriesOf d left n
    entries.mapM fun e => do return (← textOf d e.1, e.2)
  tagged _ n := do
    match ← d.follow n with
    | .scalar text style tag =>
      match alternative? tag with
      | some name => return (name, some (.scalar text style none))
      | none => return (text, none)
    | .sequence items tag => return (← liftM (alternative? tag), some (.sequence items none))
    | .mapping entries tag => return (← liftM (alternative? tag), some (.mapping entries none))
    | .alias _ => failure
  unit n := do
    match ← d.follow n with
    | .scalar text .plain none =>
      if text.isEmpty || isNullWord text then return () else failure
    | _ => failure

end Yaml

/-- Reads a YAML text with a decoder. -/
def decodeYaml {α : Type}
    (read : Format Yaml.Following Yaml.Node → Nat → Yaml.Node → Yaml.Following α) (text : String) :
    Option α := do
  let d ← Yaml.document? text
  let F := Yaml.format d
  let (a, _) ← (read F F.depth d.root).run (100 * d.root.marks)
  return a

end RecordSchema
