import RecordSchema.Catalog.Basic
import RecordSchema.Document.Format
import RecordSchema.FieldType.Widening
import RecordSchema.Hash.Digest

/-!
# Decoding

Readers for the values of the domain, over any format. Each takes how many collections may still
be nested in the node it is given.
-/

namespace RecordSchema

variable {m : Type → Type} {ν : Type} [Monad m]

namespace Format

/-- A field type by its tag, which comes alone. -/
def fieldType (F : Format m ν) (n : Nat) (v : ν) : m FieldType := do
  let (tag, content) ← F.tagged n v
  let t ← F.found (FieldType.ofName? tag)
  match content with
  | some w => F.unit w
  | none => pure ()
  return t

/-- The outcome of comparing two types. -/
def widening (F : Format m ν) (n : Nat) (v : ν) : m Widening := do
  let (tag, content) ← F.tagged n v
  match tag, content with
  | "Equal", none => return .equal
  | "Equal", some w =>
    F.unit w
    return .equal
  | "Incompatible", none => return .incompatible
  | "Incompatible", some w =>
    F.unit w
    return .incompatible
  | "WidensTo", some w => return .widensTo (← F.fieldType (n - 1) w)
  | _, _ => F.refuse

/-- A digest as a list of its bytes. -/
def digest (F : Format m ν) (n : Nat) (v : ν) : m Digest := do
  let items ← F.items n v
  let bytes ← items.mapM F.byte
  F.found (Digest.ofBytes? bytes)

/-- A policy; a setting that is not mentioned has its default. -/
def policy (F : Format m ν) (n : Nat) (v : ν) : m Policy := do
  let get ← F.record n
    ["strict_names", "allow_empty_struct", "case_sensitive_names", "name_delimiter"] v
  let base : Policy := {}
  return {
    strictNames := ← allow get "strict_names" base.strictNames F.flag
    allowEmptyStruct := ← allow get "allow_empty_struct" base.allowEmptyStruct F.flag
    caseSensitive := ← allow get "case_sensitive_names" base.caseSensitive F.flag
    delimiter := ← allow get "name_delimiter" base.delimiter F.char }

/-- Settings over a policy. -/
def overrides (F : Format m ν) (n : Nat) (v : ν) : m Overrides := do
  let get ← F.record n
    ["strict_names", "allow_empty_struct", "case_sensitive_names", "name_delimiter"] v
  return {
    strictNames := ← allow get "strict_names" none (F.optional F.flag)
    allowEmptyStruct := ← allow get "allow_empty_struct" none (F.optional F.flag)
    caseSensitive := ← allow get "case_sensitive_names" none (F.optional F.flag)
    delimiter := ← allow get "name_delimiter" none (F.optional F.char) }

mutual

/-- A field. -/
def field (F : Format m ν) : Nat → ν → m Field
  | 0, _ => F.refuse
  | n + 1, v => do
    let get ← F.record (n + 1) ["name", "field_type", "nullable", "metadata", "nested"] v
    let name ← F.need get "name" F.text
    let type ← F.need get "field_type" (F.fieldType n)
    let nullable ← F.need get "nullable" F.flag
    let metadata ← allow get "metadata" TextMap.empty (F.texts n)
    let nested ← allow get "nested" none (F.optional (F.schema n))
    return { name, type, nullable, metadata, nested }

/-- A schema. -/
def schema (F : Format m ν) : Nat → ν → m Schema
  | 0, _ => F.refuse
  | n + 1, v => do
    let get ← F.record (n + 1) ["fields"] v
    F.need get "fields" fun w => do
      let items ← F.items n w
      match n with
      | 0 => return []
      | k + 1 => items.mapM (F.field k)

end

/-- A field of a definition. -/
def fieldDef (F : Format m ν) : Nat → ν → m FieldDef
  | 0, _ => F.refuse
  | n + 1, v => do
    let get ← F.record (n + 1) ["name", "type", "nullable", "metadata", "schema", "fields"] v
    let name ← F.need get "name" F.text
    let type ← F.need get "type" F.text
    let nullable ← allow get "nullable" false F.flag
    let metadata ← allow get "metadata" TextMap.empty (F.texts n)
    let reference ← allow get "schema" none (F.optional F.text)
    let children ← allow get "fields" none <| F.optional fun w => do
      let items ← F.items n w
      match n with
      | 0 => return []
      | k + 1 => items.mapM (F.fieldDef k)
    return { name, type, nullable, metadata, reference, children }

/-- A definition. -/
def definition (F : Format m ν) (n : Nat) (v : ν) : m Definition := do
  let items ← F.items n v
  items.mapM (F.fieldDef (n - 1))

/-- A catalog; of definitions with one name the last counts. -/
def catalog (F : Format m ν) (n : Nat) (v : ν) : m Catalog := do
  let get ← F.record n ["config", "schemas"] v
  let overrides ← allow get "config" none (F.optional (F.overrides (n - 1)))
  let definitions ← F.need get "schemas" fun w => do
    let entries ← F.entries (n - 1) w
    entries.mapM fun e => do return (e.1, ← F.definition (n - 2) e.2)
  return { overrides, definitions := TextMap.ofList definitions }

end Format
end RecordSchema
