import RecordSchema.Policy
import RecordSchema.TextMap

/-!
# Fields and schemas

A schema is a list of fields; a field has a name, a type, a mark for missing values, annotations,
and, when it is a Struct, a nested schema. Values of these types are unchecked: any name, repeated
names, a Struct without children and an Int with children can all be written down. What makes a
schema proper is said by `Schema.violations`.

`Field.rec` has a case for the optional list inside a field; the functions here and in the other
modules recurse over a field and over a list of fields side by side instead.
-/

namespace RecordSchema

/-- Annotations of a field. -/
abbrev Metadata := TextMap String

/-- One column of a table, or one member of a record. -/
structure Field where
  name : String
  type : FieldType
  /-- Values may be missing. -/
  nullable : Bool
  metadata : Metadata := TextMap.empty
  /-- The children of a Struct. -/
  nested : Option (List Field) := none

/-- The fields of one level, in order. -/
abbrev Schema := List Field

instance : Inhabited Field := ⟨{ name := "", type := .bigInt, nullable := false }⟩

mutual

/-- Equality of fields is decided from their parts. -/
def Field.decEq : (a b : Field) → Decidable (a = b)
  | ⟨n, t, l, m, none⟩, ⟨n', t', l', m', none⟩ =>
    if h : n = n' ∧ t = t' ∧ l = l' ∧ m = m' then
      isTrue (by obtain ⟨rfl, rfl, rfl, rfl⟩ := h; rfl)
    else isFalse fun e => h (by injection e with h₁ h₂ h₃ h₄; exact ⟨h₁, h₂, h₃, h₄⟩)
  | ⟨_, _, _, _, none⟩, ⟨_, _, _, _, some _⟩ => isFalse (by simp)
  | ⟨_, _, _, _, some _⟩, ⟨_, _, _, _, none⟩ => isFalse (by simp)
  | ⟨n, t, l, m, some fs⟩, ⟨n', t', l', m', some fs'⟩ =>
    if h : n = n' ∧ t = t' ∧ l = l' ∧ m = m' then
      match Field.decEqList fs fs' with
      | isTrue hfs => isTrue (by obtain ⟨rfl, rfl, rfl, rfl⟩ := h; rw [hfs])
      | isFalse hfs => isFalse fun e => hfs (by injection e with _ _ _ _ h₅; exact Option.some.inj h₅)
    else isFalse fun e => h (by injection e with h₁ h₂ h₃ h₄; exact ⟨h₁, h₂, h₃, h₄⟩)

/-- Equality of lists of fields, member by member. -/
def Field.decEqList : (as bs : List Field) → Decidable (as = bs)
  | [], [] => isTrue rfl
  | [], _ :: _ => isFalse (by simp)
  | _ :: _, [] => isFalse (by simp)
  | a :: as, b :: bs =>
    match Field.decEq a b with
    | isTrue h =>
      match Field.decEqList as bs with
      | isTrue hs => isTrue (by rw [h, hs])
      | isFalse hs => isFalse fun e => hs (List.cons.inj e).2
    | isFalse h => isFalse fun e => h (List.cons.inj e).1

end

instance : DecidableEq Field := Field.decEq

namespace Field

/-- Whether the field is of type Struct. -/
def isStruct (f : Field) : Bool := f.type.isStruct

/-- A field without annotations and children. -/
def scalar (name : String) (type : FieldType) (nullable : Bool) : Field :=
  { name, type, nullable }

/-- A Struct field over a schema. -/
def struct (name : String) (schema : Schema) (nullable : Bool) : Field :=
  { name, type := .struct, nullable, nested := some schema }

/-- The field with one annotation written. -/
def annotate (f : Field) (key value : String) : Field :=
  { f with metadata := f.metadata.insert key value }

/-- The field with missing values allowed. -/
def asNullable (f : Field) : Field := { f with nullable := true }

end Field

mutual

/-- The field without annotations, its own and those below it. -/
def Field.withoutMetadata : Field → Field
  | ⟨name, type, nullable, _, none⟩ => ⟨name, type, nullable, TextMap.empty, none⟩
  | ⟨name, type, nullable, _, some fields⟩ =>
    ⟨name, type, nullable, TextMap.empty, some (Schema.withoutMetadata fields)⟩

/-- The schema without annotations at any level. -/
def Schema.withoutMetadata : Schema → Schema
  | [] => []
  | f :: rest => f.withoutMetadata :: Schema.withoutMetadata rest

end

/-- Annotations taken away, a field keeps all else, and its children lose theirs. The equation
covers fields with and without children, which the definition treats apart. -/
theorem Field.withoutMetadata_eq (f : Field) :
    f.withoutMetadata =
      { f with metadata := TextMap.empty, nested := f.nested.map Schema.withoutMetadata } := by
  obtain ⟨name, type, nullable, metadata, nested⟩ := f
  cases nested with
  | none => rw [Field.withoutMetadata, Option.map_none]
  | some fields => rw [Field.withoutMetadata, Option.map_some]

/-- A field without its annotations has its name. -/
@[simp]
theorem Field.withoutMetadata_name (f : Field) : f.withoutMetadata.name = f.name := by
  rw [Field.withoutMetadata_eq]

/-- A field without its annotations has its type. -/
@[simp]
theorem Field.withoutMetadata_type (f : Field) : f.withoutMetadata.type = f.type := by
  rw [Field.withoutMetadata_eq]

/-- The children of a field without annotations are its children without theirs. -/
@[simp]
theorem Field.withoutMetadata_nested (f : Field) :
    f.withoutMetadata.nested = f.nested.map Schema.withoutMetadata := by
  rw [Field.withoutMetadata_eq]

/-- Whether a field is made nullable before its annotations are taken away or afterwards does not
matter. A merge does so with fields that one side lacks. -/
theorem Field.withoutMetadata_asNullable (f : Field) :
    f.asNullable.withoutMetadata = f.withoutMetadata.asNullable := by
  rw [Field.withoutMetadata_eq, Field.withoutMetadata_eq]
  rfl

namespace Schema

/-- The names of the top level, in order. -/
def names (s : Schema) : List String := s.map Field.name

/-- The name of the first field comes first. -/
@[simp]
theorem names_cons (f : Field) (s : Schema) : names (f :: s) = f.name :: s.names := rfl

/-- The names of two levels put together are the names of the one and then of the other. -/
@[simp]
theorem names_append (s t : Schema) : names (s ++ t) = s.names ++ t.names := List.map_append

/-- The position of the first field with this name. -/
def indexOf? (s : Schema) (name : String) : Option Nat := s.findIdx? fun f => f.name == name

/-- The first field with this name. -/
def field? (s : Schema) (name : String) : Option Field := s.find? fun f => f.name == name

/-- The first field is found by its name, whatever the others are called. -/
theorem field?_cons_self (f : Field) (s : Schema) : field? (f :: s) f.name = some f := by
  simp [field?]

/-- A look-up passes over a first field of another name. -/
theorem field?_cons_of_ne {f : Field} {name : String} (s : Schema) (h : f.name ≠ name) :
    field? (f :: s) name = s.field? name := by simp [field?, h]

/-- There is a field with a name when the name is one of the level. Names are compared as they are
written here, whatever the policy makes of case. -/
theorem exists_field?_iff {s : Schema} {name : String} :
    (∃ f, s.field? name = some f) ↔ name ∈ s.names := by
  rw [← Option.isSome_iff_exists, field?, List.find?_isSome, names, List.mem_map]
  simp only [beq_iff_eq]

/-- The field reached by following names from the top level down through nested schemas. -/
def fieldAlong? (s : Schema) : List String → Option Field
  | [] => none
  | [name] => s.field? name
  | name :: next :: rest =>
    match s.field? name with
    | some f =>
      match f.nested with
      | some fields => fieldAlong? fields (next :: rest)
      | none => none
    | none => none

/-- Along several names, the first leads to a field with children, and the others lead on from
these. At the last name the field itself is meant, so names have to be left. -/
theorem fieldAlong?_cons_of_nested {s t : Schema} {f : Field} {name : String} {names : List String}
    (hf : s.field? name = some f) (ht : f.nested = some t) (hnames : names ≠ []) :
    s.fieldAlong? (name :: names) = t.fieldAlong? names := by
  cases names with
  | nil => exact absurd rfl hnames
  | cons next rest => simp only [fieldAlong?, hf, ht]

/-- The field at a path such as `address.zipcode`, where `delimiter` separates the names. -/
def fieldAt? (s : Schema) (path : String) (delimiter : Char) : Option Field :=
  s.fieldAlong? (Text.split delimiter path)

/-- Annotations are taken away from each field of a level on its own, in place. -/
theorem withoutMetadata_eq_map (s : Schema) : s.withoutMetadata = s.map Field.withoutMetadata := by
  induction s with
  | nil => rfl
  | cons f rest ih => rw [Schema.withoutMetadata, ih, List.map_cons]

end Schema
end RecordSchema
