import RecordSchema.Catalog.Basic
import RecordSchema.FieldType.Widening
import RecordSchema.Hash.Digest
import RecordSchema.Yaml.Writer

/-!
# Encoding

The values of the domain as JSON, and catalogs as YAML as well. Members of a record come in a
fixed order; annotations are left out where there are none, and so are the nested schema, the
reference and the children of a field that has none.

The fingerprint of a schema is the digest of its JSON text.
-/

namespace RecordSchema

/-- A member that is left out where there is no value. -/
def memberIf {α β : Type} (name : String) (write : α → β) : Option α → List (String × β)
  | some a => [(name, write a)]
  | none => []

/-- A map of texts in JSON. -/
def Metadata.toJson (m : Metadata) : Json := .record (m.entries.map fun e => (e.1, .text e.2))

/-- The annotations of a field as a member, unless there are none. -/
def Metadata.member (m : Metadata) : List (String × Json) :=
  if m.isEmpty then [] else [("metadata", m.toJson)]

/-- A field type in JSON. -/
def FieldType.toJson (t : FieldType) : Json := .text t.name

/-- The outcome of comparing two types in JSON. -/
def Widening.toJson : Widening → Json
  | equal => .text "Equal"
  | widensTo t => .record [("WidensTo", t.toJson)]
  | incompatible => .text "Incompatible"

/-- A digest in JSON. -/
def Digest.toJson (d : Digest) : Json := .array (d.bytes.map fun b => .nat b.toNat)

/-- A policy in JSON. -/
def Policy.toJson (p : Policy) : Json :=
  .record [
    ("strict_names", .bool p.strictNames),
    ("allow_empty_struct", .bool p.allowEmptyStruct),
    ("case_sensitive_names", .bool p.caseSensitive),
    ("name_delimiter", .text (String.singleton p.delimiter))]

/-- Settings over a policy in JSON. -/
def Overrides.toJson (o : Overrides) : Json :=
  .record (
    memberIf "strict_names" .bool o.strictNames ++
    memberIf "allow_empty_struct" .bool o.allowEmptyStruct ++
    memberIf "case_sensitive_names" .bool o.caseSensitive ++
    memberIf "name_delimiter" (fun c => .text (String.singleton c)) o.delimiter)

mutual

/-- A field in JSON. -/
def Field.toJson : Field → Json
  | ⟨name, type, nullable, metadata, none⟩ =>
    .record ([("name", .text name), ("field_type", type.toJson), ("nullable", .bool nullable)] ++
      metadata.member)
  | ⟨name, type, nullable, metadata, some fields⟩ =>
    .record ([("name", .text name), ("field_type", type.toJson), ("nullable", .bool nullable)] ++
      metadata.member ++ [("nested", .record [("fields", .array (Field.toJsonEach fields))])])

/-- Fields in JSON. -/
def Field.toJsonEach : List Field → List Json
  | [] => []
  | f :: rest => f.toJson :: Field.toJsonEach rest

end

/-- A schema in JSON. -/
def Schema.toJson (s : Schema) : Json := .record [("fields", .array (Field.toJsonEach s))]

/-- The digest of a schema: names, order, types, marks, annotations and nesting all count. -/
def Schema.fingerprint (s : Schema) : Digest := .ofJson s.toJson

mutual

/-- A field of a definition in JSON. -/
def FieldDef.toJson : FieldDef → Json
  | ⟨name, type, nullable, metadata, reference, none⟩ =>
    .record ([("name", .text name), ("type", .text type), ("nullable", .bool nullable)] ++
      metadata.member ++ memberIf "schema" .text reference)
  | ⟨name, type, nullable, metadata, reference, some children⟩ =>
    .record ([("name", .text name), ("type", .text type), ("nullable", .bool nullable)] ++
      metadata.member ++ memberIf "schema" .text reference ++
        [("fields", .array (FieldDef.toJsonEach children))])

/-- Fields of a definition in JSON. -/
def FieldDef.toJsonEach : List FieldDef → List Json
  | [] => []
  | d :: rest => d.toJson :: FieldDef.toJsonEach rest

end

/-- A catalog in JSON. -/
def Catalog.toJson (c : Catalog) : Json :=
  .record [
    ("config", (c.overrides.map Overrides.toJson).getD .null),
    ("schemas", .record (c.definitions.entries.map fun e => (e.1, .array (FieldDef.toJsonEach e.2))))]

/-- A truth value as a word of YAML. -/
def Yaml.Block.bool (b : Bool) : Yaml.Block := .word (if b then "true" else "false")

/-- Settings over a policy in YAML. -/
def Overrides.toYaml (o : Overrides) : Yaml.Block :=
  .mapping (
    memberIf "strict_names" .bool o.strictNames ++
    memberIf "allow_empty_struct" .bool o.allowEmptyStruct ++
    memberIf "case_sensitive_names" .bool o.caseSensitive ++
    memberIf "name_delimiter" .char o.delimiter)

/-- The annotations of a field as an entry, unless there are none. -/
def Metadata.entry (m : Metadata) : List (String × Yaml.Block) :=
  if m.isEmpty then [] else [("metadata", .mapping (m.entries.map fun e => (e.1, .text e.2)))]

mutual

/-- A field of a definition in YAML. -/
def FieldDef.toYaml : FieldDef → Yaml.Block
  | ⟨name, type, nullable, metadata, reference, none⟩ =>
    .mapping ([("name", .text name), ("type", .text type), ("nullable", .bool nullable)] ++
      metadata.entry ++ memberIf "schema" .text reference)
  | ⟨name, type, nullable, metadata, reference, some children⟩ =>
    .mapping ([("name", .text name), ("type", .text type), ("nullable", .bool nullable)] ++
      metadata.entry ++ memberIf "schema" .text reference ++
        [("fields", .sequence (FieldDef.toYamlEach children))])

/-- Fields of a definition in YAML. -/
def FieldDef.toYamlEach : List FieldDef → List Yaml.Block
  | [] => []
  | d :: rest => d.toYaml :: FieldDef.toYamlEach rest

end

/-- A catalog as a YAML document. -/
def Catalog.toYaml (c : Catalog) : String :=
  Yaml.render [
    ("config", (c.overrides.map Overrides.toYaml).getD (.word "null")),
    ("schemas", .mapping
      (c.definitions.entries.map fun e => (e.1, .sequence (FieldDef.toYamlEach e.2))))]

end RecordSchema
