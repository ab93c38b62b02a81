import RecordSchema.Yaml.Token

/-!
# Nodes of YAML

The tree that a YAML document writes. An alias stays in the tree and names a slot; the node that
it stands for is looked up in the document when the tree is used, so a document may refer to
itself without its tree being infinite.

Anchors are put into slots numbered by the anchor names that differ. A name that is used again
gets the number of names so far, and of several nodes in one slot the one that starts last counts.
-/

namespace RecordSchema
namespace Yaml

/-- A node. The tag is absent where the text gives none. -/
inductive Node where
  | scalar (text : String) (style : Style) (tag : Option Tag)
  | sequence (items : List Node) (tag : Option Tag)
  | mapping (entries : List (Node × Node)) (tag : Option Tag)
  | alias (slot : Nat)
  deriving Inhabited

/-- The node of what is not written at all. -/
def Node.nothing : Node := .scalar "" .plain none

mutual

/-- The number of marks a node leaves when it is gone through from start to end: two for a
collection, one for anything else. -/
def Node.marks : Node → Nat
  | .scalar .. => 1
  | .alias _ => 1
  | .sequence items _ => 2 + Node.marksEach items
  | .mapping entries _ => 2 + Node.marksPairs entries

/-- The marks of several nodes. -/
def Node.marksEach : List Node → Nat
  | [] => 0
  | n :: rest => n.marks + Node.marksEach rest

/-- The marks of keys and values. -/
def Node.marksPairs : List (Node × Node) → Nat
  | [] => 0
  | (k, v) :: rest => k.marks + v.marks + Node.marksPairs rest

end

/-- A node with an anchor: its slot, its place in the order in which such nodes start, and what it
is. -/
structure Anchored where
  slot : Nat
  order : Nat
  node : Node

/-- A document: its root, and the nodes that aliases can stand for. -/
structure Document where
  root : Node
  anchored : List Anchored

/-- The node in a slot. -/
def Document.slot? (d : Document) (slot : Nat) : Option Node :=
  let latest := d.anchored.foldl (fun (best : Option Anchored) a =>
    if a.slot ≠ slot then best
    else
      match best with
      | some b => if b.order < a.order then some a else best
      | none => some a) none
  latest.map Anchored.node

end Yaml
end RecordSchema
