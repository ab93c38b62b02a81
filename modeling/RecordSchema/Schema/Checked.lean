import RecordSchema.Schema.Basic

/-!
# Checked construction

`Field.build` makes a field whose name the policy allows and whose shape fits its type: a Struct
has children, any other type has none. `Schema.build` makes a level whose names differ pairwise.
A tree is built from its leaves up: nested schemas first, then the field that owns them, then the
level; `Draft.build` does so for a description with types as text.
-/

namespace RecordSchema

/-- Makes a field, refusing improper names and shapes. -/
def Field.build (p : Policy) (f : Field) : Except Error Field :=
  match p.nameFault? f.name with
  | some fault => .error (.invalidField f.name fault)
  | none =>
    match f.type.isStruct, f.nested with
    | true, none => .error (.invalidField f.name .missingNested)
    | false, some _ => .error (.invalidField f.name (.unexpectedNested f.type))
    | true, some fields =>
      if fields.isEmpty && !p.allowEmptyStruct then .error (.invalidSchema (.emptyStruct f.name))
      else .ok f
    | false, none => .ok f

/-- The first name whose key is one of `seen` or the key of an earlier name. -/
def Policy.firstRepeated? (p : Policy) (seen : List String) : List String → Option String
  | [] => none
  | name :: rest =>
    if seen.contains (p.nameKey name) then some name
    else p.firstRepeated? (p.nameKey name :: seen) rest

/-- Makes a level, refusing names that are the same under the policy. -/
def Schema.build (p : Policy) (fields : List Field) : Except Error Schema :=
  match p.firstRepeated? [] (fields.map Field.name) with
  | some name => .error (.duplicateName name)
  | none => .ok fields

/-- A field as a caller describes it: the type is still a text, and children come with it. -/
structure Draft where
  name : String
  type : String
  nullable : Bool
  metadata : Metadata := TextMap.empty
  children : Option (List Draft) := none

mutual

/-- Builds the children, reads the type and builds the field, in this order. -/
def Draft.build (p : Policy) : Draft → Except Error Field
  | ⟨name, type, nullable, metadata, none⟩ => do
    let type ← FieldType.ofText type
    Field.build p { name, type, nullable, metadata }
  | ⟨name, type, nullable, metadata, some children⟩ => do
    let fields ← Draft.buildEach p children
    let nested ← Schema.build p fields
    let type ← FieldType.ofText type
    Field.build p { name, type, nullable, metadata, nested := some nested }

/-- Builds the fields of one level one after the other. -/
def Draft.buildEach (p : Policy) : List Draft → Except Error (List Field)
  | [] => .ok []
  | d :: rest => do
    let f ← d.build p
    let fields ← Draft.buildEach p rest
    return f :: fields

end

/-- Builds a schema from descriptions; the first fault ends it. -/
def Schema.ofDrafts (p : Policy) (drafts : List Draft) : Except Error Schema := do
  let fields ← Draft.buildEach p drafts
  Schema.build p fields

end RecordSchema
