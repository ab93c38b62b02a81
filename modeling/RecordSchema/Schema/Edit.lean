import RecordSchema.Schema.Checked
import RecordSchema.Schema.Merge

/-!
# Edits

Transforms of a schema. Each gives a new schema or an error and never touches what it was given.
Look-ups take the first field with exactly the given name; whether two names are the same in one
level is judged by the policy.

An `Edit` is one such transform with its arguments. `Edit.run` applies a sequence of them, where
an edit that fails leaves the schema as it was.
-/

namespace RecordSchema
namespace Schema

/-- The position of the first field with this name, which has to exist. -/
def position (s : Schema) (name : String) : Except Error Nat :=
  match s.indexOf? name with
  | some i => .ok i
  | none => .error (.fieldNotFound name)

/-- The first field with this name, which has to exist. -/
def fieldNamed (s : Schema) (name : String) : Except Error Field :=
  match s.field? name with
  | some f => .ok f
  | none => .error (.fieldNotFound name)

/-- Appends a field whose name is proper and new. -/
def add (p : Policy) (s : Schema) (f : Field) : Except Error Schema := do
  p.checkName f.name
  build p (s ++ [f])

/-- Removes a field. -/
def drop (s : Schema) (name : String) : Except Error Schema := do
  let i ← s.position name
  return s.eraseIdx i

/-- Gives a field another name, which has to be proper and new. -/
def rename (p : Policy) (s : Schema) (old new : String) : Except Error Schema := do
  let i ← s.position old
  p.checkName new
  build p (s.modify i fun f => { f with name := new })

/-- The fields with the given names, in the order of the names. -/
def project (s : Schema) (names : List String) : Except Error Schema := names.mapM s.fieldNamed

/-- Gives a field another type that keeps its shape. -/
def retype (s : Schema) (name : String) (type : FieldType) : Except Error Schema := do
  let f ← s.fieldNamed name
  if f.type.isStruct = type.isStruct then
    let i ← s.position name
    return s.modify i fun f => { f with type }
  else .error (.invalidField name (.shapeChange f.type type))

/-- Says whether a field's values may be missing. -/
def setNullable (s : Schema) (name : String) (nullable : Bool) : Except Error Schema := do
  let i ← s.position name
  return s.modify i fun f => { f with nullable }

end Schema

mutual

/-- The field with its name and all names below it in lower case. -/
def Field.lowercase (p : Policy) : Field → Except Error Field
  | ⟨name, type, nullable, metadata, none⟩ =>
    .ok ⟨Text.lowercase name, type, nullable, metadata, none⟩
  | ⟨name, type, nullable, metadata, some fields⟩ => do
    let lowered ← Schema.lowercaseEach p fields
    let nested ← Schema.build p lowered
    return ⟨Text.lowercase name, type, nullable, metadata, some nested⟩

/-- The fields of one level in lower case, one after the other. -/
def Schema.lowercaseEach (p : Policy) : Schema → Except Error Schema
  | [] => .ok []
  | f :: rest => do
    let g ← f.lowercase p
    let fields ← Schema.lowercaseEach p rest
    return g :: fields

end

/-- The schema with all names in lower case; siblings whose names become the same are refused. -/
def Schema.lowercase (p : Policy) (s : Schema) : Except Error Schema := do
  let fields ← s.lowercaseEach p
  Schema.build p fields

/-- One transform with its arguments. -/
inductive Edit where
  | add (field : Field)
  | drop (name : String)
  | rename (old new : String)
  | project (names : List String)
  | retype (name : String) (type : FieldType)
  | setNullable (name : String) (nullable : Bool)
  | lowercase
  | stripMetadata
  | merge (other : Schema)

namespace Edit

/-- Applies one transform. -/
def apply (p : Policy) (s : Schema) : Edit → Except Error Schema
  | add f => s.add p f
  | drop name => s.drop name
  | rename old new => s.rename p old new
  | project names => s.project names
  | retype name type => s.retype name type
  | setNullable name nullable => s.setNullable name nullable
  | lowercase => s.lowercase p
  | stripMetadata => .ok s.withoutMetadata
  | merge other => s.merge p other

/-- The schema after an edit; one that fails changes nothing. -/
def step (p : Policy) (s : Schema) (e : Edit) : Schema :=
  match e.apply p s with
  | .ok t => t
  | .error _ => s

/-- The schema after a sequence of edits. -/
def run (p : Policy) (s : Schema) (edits : List Edit) : Schema := edits.foldl (step p) s

end Edit
end RecordSchema
