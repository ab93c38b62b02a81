import RecordSchema.Yaml.Lexer
import RecordSchema.Yaml.Node

/-!
# From tokens to a document

`document?` reads the one document of a text. The readers of nodes follow the grammar of tokens;
`State` holds the tokens ahead and the anchors met. A missing node is an empty plain scalar, and
a text without any document has such a scalar for its root.

The readers count down a bound on their nesting. Each step down reads a token or follows one that
does, so twice the number of tokens is enough.
-/

namespace RecordSchema
namespace Yaml

/-- The tokens ahead, and what has been declared so far. -/
structure State where
  tokens : List Token
  /-- Handles of tags with their expansions. -/
  handles : List (String × Tag) := []
  /-- Names of anchors with their slots. -/
  anchors : List (String × Nat) := []
  anchored : List Anchored := []
  /-- The number of anchors met. -/
  count : Nat := 0

/-- Readers that may fail. -/
abbrev Read := StateT State Option

namespace Read

/-- The next token; nothing at the end. -/
def peek : Read (Option Token) := do return (← get).tokens.head?

/-- Passes over the next token. -/
def skip : Read Unit := modify fun s => { s with tokens := s.tokens.tail }

/-- Passes over a token, which has to be the next one. -/
def expect (t : Token) : Read Unit := do
  if (← peek) = some t then skip else failure

/-- Declares an anchor and gives its slot with its place in the order of anchors. -/
def declare (name : String) : Read (Nat × Nat) := do
  let s ← get
  let slot := s.anchors.length
  let others := s.anchors.filter fun a => a.1 ≠ name
  set { s with anchors := (name, slot) :: others, count := s.count + 1 }
  return (slot, s.count)

/-- The slot of an anchor that has been declared. -/
def slotOf (name : String) : Read Nat := do
  match (← get).anchors.find? fun a => a.1 = name with
  | some a => return a.2
  | none => failure

/-- The handles that every document has, unless it declares them itself. -/
def usualHandles : List (String × Tag) :=
  [("!", .text "!"), ("!!", .text "tag:yaml.org,2002:")]

/-- The full form of a tag. -/
def resolveTag (handle : String) (suffix : Tag) : Read Tag := do
  if handle.isEmpty then return suffix
  else
    match (← get).handles.find? fun h => h.1 = handle with
    | some h => return h.2.append suffix
    | none => failure

/-- The anchor and the tag before a node, in either order. -/
def properties : Read (Option String × Option Tag) := do
  match ← peek with
  | some (.anchor name) =>
    skip
    match ← peek with
    | some (.tag handle suffix) =>
      skip
      return (some name, some (← resolveTag handle suffix))
    | _ => return (some name, none)
  | some (.tag handle suffix) =>
    skip
    let tag ← resolveTag handle suffix
    match ← peek with
    | some (.anchor name) =>
      skip
      return (some name, some tag)
    | _ => return (none, some tag)
  | _ => return (none, none)

/-- Reads a node with `body`, and keeps it for the aliases of its anchor. -/
def withAnchor (anchor : Option String) (body : Read Node) : Read Node := do
  match anchor with
  | none => body
  | some name =>
    let (slot, order) ← declare name
    let node ← body
    modify fun s => { s with anchored := ⟨slot, order, node⟩ :: s.anchored }
    return node

/-- Whether the next token is one of those listed. -/
def isNext (ts : List Token) : Read Bool := do
  match ← peek with
  | some t => return ts.contains t
  | none => return false

mutual

/-- Reads a node. Block collections are allowed where `inBlock` says so; `bare` allows a block
sequence whose dashes stand at the column of the surrounding mapping. -/
def node (inBlock bare : Bool) : Nat → Read Node
  | 0 => failure
  | n + 1 => do
    match ← peek with
    | some (.alias name) =>
      skip
      return .alias (← slotOf name)
    | _ =>
      let (anchor, tag) ← properties
      withAnchor anchor do
        match ← peek with
        | some .dash =>
          if bare then return .sequence (← bareItems n) tag
          else if anchor.isSome || tag.isSome then return .scalar "" .plain tag
          else failure
        | some (.scalar text style) =>
          skip
          return .scalar text style tag
        | some .flowSequence =>
          skip
          return .sequence (← flowItems true n) tag
        | some .flowMapping =>
          skip
          return .mapping (← flowEntries true n) tag
        | some .blockSequence =>
          if inBlock then
            skip
            return .sequence (← blockItems n) tag
          else if anchor.isSome || tag.isSome then return .scalar "" .plain tag
          else failure
        | some .blockMapping =>
          if inBlock then
            skip
            return .mapping (← blockEntries n) tag
          else if anchor.isSome || tag.isSome then return .scalar "" .plain tag
          else failure
        | _ => if anchor.isSome || tag.isSome then return .scalar "" .plain tag else failure

/-- Reads a node unless one of the tokens listed comes first. -/
def nodeUnless (ends : List Token) (inBlock bare : Bool) : Nat → Read Node
  | 0 => failure
  | n + 1 => do
    if ← isNext ends then return Node.nothing else node inBlock bare n

/-- Reads the items of a block sequence, and its end. -/
def blockItems : Nat → Read (List Node)
  | 0 => failure
  | n + 1 => do
    if ← isNext [.blockEnd] then
      skip
      return []
    else
      expect .dash
      let item ← nodeUnless [.dash, .blockEnd] true false n
      return item :: (← blockItems n)

/-- Reads the items of a block sequence that has no end of its own. -/
def bareItems : Nat → Read (List Node)
  | 0 => failure
  | n + 1 => do
    if ← isNext [.dash] then
      skip
      let item ← nodeUnless [.dash, .key, .value, .blockEnd] true false n
      return item :: (← bareItems n)
    else return []

/-- Reads the entries of a block mapping, and its end. -/
def blockEntries : Nat → Read (List (Node × Node))
  | 0 => failure
  | n + 1 => do
    if ← isNext [.blockEnd] then
      skip
      return []
    else
      expect .key
      let key ← nodeUnless [.key, .value, .blockEnd] true true n
      let value ←
        if ← isNext [.value] then
          skip
          nodeUnless [.key, .value, .blockEnd] true true n
        else pure Node.nothing
      return (key, value) :: (← blockEntries n)

/-- Reads the items of a flow sequence, and its end. Before an item that is not the first there is
a comma. An item with a key is a mapping of one entry. -/
def flowItems (first : Bool) : Nat → Read (List Node)
  | 0 => failure
  | n + 1 => do
    if ← isNext [.flowSequenceEnd] then
      skip
      return []
    else
      if !first then expect .comma
      if ← isNext [.flowSequenceEnd] then
        skip
        return []
      else
        let item ←
          if ← isNext [.key] then
            skip
            pure (.mapping [← flowPair n] none)
          else node false false n
        return item :: (← flowItems false n)

/-- Reads the one entry of a mapping inside a flow sequence, after its `key` token. -/
def flowPair : Nat → Read (Node × Node)
  | 0 => failure
  | n + 1 => do
    if ← isNext [.value, .comma, .flowSequenceEnd] then skip
    else
      let key ← node false false n
      let value ←
        if ← isNext [.value] then
          skip
          nodeUnless [.comma, .flowSequenceEnd] false false n
        else pure Node.nothing
      return (key, value)
    let value ←
      if ← isNext [.value] then
        skip
        nodeUnless [.comma, .flowSequenceEnd] false false n
      else pure Node.nothing
    return (Node.nothing, value)

/-- Reads the entries of a flow mapping, and its end. An entry without a `key` token is a key
without a value. -/
def flowEntries (first : Bool) : Nat → Read (List (Node × Node))
  | 0 => failure
  | n + 1 => do
    if ← isNext [.flowMappingEnd] then
      skip
      return []
    else
      if !first then expect .comma
      if ← isNext [.flowMappingEnd] then
        skip
        return []
      else if ← isNext [.key] then
        skip
        let key ← nodeUnless [.value, .comma, .flowMappingEnd] false false n
        let value ←
          if ← isNext [.value] then
            skip
            nodeUnless [.comma, .flowMappingEnd] false false n
          else pure Node.nothing
        return (key, value) :: (← flowEntries false n)
      else
        let key ← node false false n
        return (key, Node.nothing) :: (← flowEntries false n)

end

/-- Reads the directives of a document. Each may be given once, and the version has to be 1.1 or
1.2. -/
def directives (versionSeen : Bool) : Nat → Read Unit
  | 0 => failure
  | n + 1 => do
    match ← peek with
    | some (.version major minor) =>
      if versionSeen || major ≠ 1 || (minor ≠ 1 && minor ≠ 2) then failure
      else
        skip
        directives true n
    | some (.tagHandle handle expansion) =>
      if (← get).handles.any fun h => h.1 = handle then failure
      else
        skip
        modify fun s => { s with handles := s.handles ++ [(handle, expansion)] }
        directives versionSeen n
    | _ => return

/-- Passes over the marks that end a document. -/
def documentEnds : Nat → Read Unit
  | 0 => failure
  | n + 1 => do
    if ← isNext [.documentEnd] then
      skip
      documentEnds n
    else return

/-- Whether the next token starts a document explicitly. -/
def atExplicitStart : Read Bool := do
  match ← peek with
  | some (.version ..) | some (.tagHandle ..) | some .documentStart => return true
  | _ => return false

/-- Reads the one document of a text, and nothing after it. -/
def document (bound : Nat) : Read Node := do
  let root ←
    if (← peek).isNone then pure Node.nothing
    else if ← atExplicitStart then
      directives false bound
      expect .documentStart
      modify fun s => { s with handles := s.handles ++ usualHandles }
      if (← peek).isNone || (← atExplicitStart) || (← isNext [.documentEnd]) then
        pure Node.nothing
      else node true false bound
    else
      modify fun s => { s with handles := usualHandles }
      node true false bound
  documentEnds bound
  if (← peek).isSome then failure
  return root

end Read

/-- The document that a whole text writes. -/
def document? (s : String) : Option Document := do
  let tokens ← tokens? s
  let (root, state) ← (Read.document (2 * tokens.length + 2)).run { tokens }
  return ⟨root, state.anchored⟩

end Yaml
end RecordSchema
