import RecordSchema.FieldType
import RecordSchema.Text.Join

/-!
# Errors

What can go wrong with fields, schemas, catalogs, policies and documents. A constructor names the
cause and carries what its wording mentions; `Error.message` is the only place with wording.

A fault of a field (`FieldFault`) concerns the way one field was declared or changed, a fault of a
schema (`SchemaFault`) one definition as a whole.
-/

namespace RecordSchema

/-- What is wrong with the declaration or the change of one field. -/
inductive FieldFault where
  | emptyName
  /-- The name contains the delimiter that strict names reserve. -/
  | reservedDelimiter (delimiter : Char)
  | missingNested
  | unexpectedNested (type : FieldType)
  /-- A change of type that would turn a Struct into a scalar or back. -/
  | shapeChange (current requested : FieldType)
  /-- A definition with both a reference and inline children. -/
  | ambiguousNested
  deriving DecidableEq

/-- What is wrong with a schema as a whole. -/
inductive SchemaFault where
  /-- The Struct field `field` has no children. -/
  | emptyStruct (field : String)
  /-- There is no definition of this name. -/
  | undefined (name : String)
  deriving DecidableEq

/-- Causes of failure. -/
inductive Error where
  | invalidField (name : String) (fault : FieldFault)
  | invalidSchema (fault : SchemaFault)
  | duplicateName (name : String)
  /-- Definitions that refer to each other in a circle: the last name repeats the first. -/
  | cyclicSchema (cycle : List String)
  /-- A Struct without a nested schema, or another type with one. -/
  | structuralMismatch (path : String) (type : FieldType) (hasNested : Bool)
  | incompatibleTypes (path : String) (left right : FieldType)
  | unknownType (text : String)
  | unknownReference (path reference : String)
  | fieldNotFound (name : String)
  | invalidDelimiter (text : String)
  | undecodable
  deriving DecidableEq

/-- The reason given for a field's fault. -/
def FieldFault.message : FieldFault → String
  | emptyName => "name must not be empty"
  | reservedDelimiter d => "name contains reserved delimiter '" ++ String.singleton d ++ "'"
  | missingNested => "Struct field requires a nested schema"
  | unexpectedNested t => t.name ++ " field cannot carry a nested schema"
  | shapeChange current requested => "cannot retype " ++ current.name ++ " to " ++ requested.name
  | ambiguousNested => "declares both a schema reference and inline fields"

/-- The reason given for a schema's fault. -/
def SchemaFault.message : SchemaFault → String
  | emptyStruct field => "Struct field '" ++ field ++ "' has no children"
  | undefined name => "no schema named '" ++ name ++ "'"

namespace Error

/-- The wording of an error. -/
def message : Error → String
  | invalidField name fault => "invalid field '" ++ name ++ "': " ++ fault.message
  | invalidSchema fault => "invalid schema: " ++ fault.message
  | duplicateName name => "duplicate field name '" ++ name ++ "'"
  | cyclicSchema cycle => "cyclic schema: " ++ Text.join " -> " cycle
  | structuralMismatch path type hasNested =>
    "structural mismatch at '" ++ path ++ "': " ++ type.name ++ " field " ++
      (if hasNested then "carries a nested schema" else "has no nested schema")
  | incompatibleTypes path left right =>
    "incompatible types for field '" ++ path ++ "': " ++ left.name ++ " vs " ++ right.name
  | unknownType text => "unknown field type: " ++ text
  | unknownReference path reference =>
    "field '" ++ path ++ "' references unknown schema '" ++ reference ++ "'"
  | fieldNotFound name => "field not found: " ++ name
  | invalidDelimiter text =>
    "invalid configuration: name delimiter must be a single character, got '" ++ text ++ "'"
  | undecodable => "decode error"

end Error

/-- The type a text names; an unknown word is quoted as it was written. No proof about schemas
looks into the spellings, and none has to. -/
@[irreducible]
def FieldType.ofText (s : String) : Except Error FieldType :=
  match FieldType.ofText? s with
  | some t => .ok t
  | none => .error (.unknownType s)

end RecordSchema
