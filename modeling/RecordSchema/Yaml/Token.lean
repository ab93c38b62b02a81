/-!
# Tokens of YAML

What a YAML text is made of once blanks, comments and indentation have been dealt with. Block
collections have explicit ends, and every key is announced by a `key` token even where the text
has no mark for it.
-/

namespace RecordSchema
namespace Yaml

/-- How a scalar is written. -/
inductive Style where
  | plain
  | singleQuoted
  | doubleQuoted
  | literal
  | folded
  deriving DecidableEq

/-- A tag, or a part of one. Escapes in a tag write octets, which need not make a text. -/
inductive Tag where
  | text (s : String)
  /-- Octets that are not UTF-8. -/
  | octets
  deriving DecidableEq

namespace Tag

/-- The tag that characters make, where `none` stands for octets that make no character. It ends
before the first U+0000. -/
def ofChars (cs : List (Option Char)) : Tag :=
  match (cs.takeWhile (· ≠ some '\x00')).mapM id with
  | some cs => text (String.ofList cs)
  | none => octets

/-- One part of a tag after another. -/
def append : Tag → Tag → Tag
  | text s, text t => text (s ++ t)
  | _, _ => octets

/-- The name in a tag of the document's own, one that starts with `!`. -/
def localName? : Tag → Option String
  | text s =>
    match s.toList with
    | '!' :: name => some (String.ofList name)
    | _ => none
  | octets => none

end Tag

/-- Tokens. The end of the text is the end of the list of tokens. -/
inductive Token where
  | version (major minor : Nat)
  | tagHandle (handle : String) (expansion : Tag)
  | documentStart
  | documentEnd
  | blockSequence
  | blockMapping
  | blockEnd
  | flowSequence
  | flowSequenceEnd
  | flowMapping
  | flowMappingEnd
  | dash
  | comma
  | key
  | value
  | alias (name : String)
  | anchor (name : String)
  | tag (handle : String) (suffix : Tag)
  | scalar (text : String) (style : Style)
  deriving DecidableEq

end Yaml
end RecordSchema
