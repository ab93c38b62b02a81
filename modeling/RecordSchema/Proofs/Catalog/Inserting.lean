import RecordSchema.Catalog.Resolution
import RecordSchema.Proofs.Schema.Rebuilding
import RecordSchema.Proofs.TextMap

/-!
# Inserted schemas

To insert a schema into a catalog is to write it down as a definition: types become their tags, and
nested schemas become children in place. Such a definition has no references, and every tag is read
as the type it came from. So building the definition is building the schema anew from its parts
(`Definition.build_ofSchema`), whatever references stand for and wherever the definition stands.

Resolving a name that a schema was inserted under therefore gives the schema back when it is valid,
and fails when it is not.
-/

namespace RecordSchema

/-- A tag is read as the type it belongs to. -/
theorem FieldType.ofText_name (t : FieldType) : ofText t.name = .ok t := by
  have h : ofText? t.name = some t := by cases t <;> decide +kernel
  unfold ofText
  rw [h]

/-- A field written down keeps its name. -/
theorem FieldDef.name_ofField (f : Field) : (FieldDef.ofField f).name = f.name := by
  obtain ⟨name, type, nullable, metadata, nested⟩ := f
  cases nested <;> rfl

/-- A schema written down is empty when the schema is. -/
theorem Definition.isEmpty_ofSchema (s : Schema) :
    (Definition.ofSchema s).isEmpty = s.isEmpty := by
  cases s <;> rfl

section Spelled

variable {p : Policy} {follow : String → String → Except Error Schema}

mutual

/-- A field written down has no references, since its children stand in place. What the field itself
was once resolved from is not remembered. -/
theorem FieldDef.references_ofField (p : Policy) (parent : String) :
    (f : Field) → (FieldDef.ofField f).references p parent = []
  | ⟨_, _, _, _, none⟩ => rfl
  | ⟨name, _, _, _, some fields⟩ => by
    rw [FieldDef.ofField, FieldDef.references,
      Definition.references_ofSchema p (p.subpath parent name) fields]
    rfl

/-- A schema written down has no references. -/
theorem Definition.references_ofSchema (p : Policy) (parent : String) :
    (s : List Field) → Definition.references p parent (Definition.ofSchema s) = []
  | [] => rfl
  | f :: rest => by
    rw [Definition.ofSchema, Definition.references, FieldDef.references_ofField p parent f,
      Definition.references_ofSchema p parent rest, List.append_nil]

end

mutual

/-- Building a field that was written down is building it anew, whatever references would be
replaced by. -/
theorem FieldDef.build_ofField (parent : String) :
    (f : Field) → (FieldDef.ofField f).build p follow parent = f.rebuild p
  | ⟨name, type, nullable, metadata, none⟩ => by
    rw [FieldDef.ofField, FieldDef.build, FieldType.ofText_name]
    rfl
  | ⟨name, type, nullable, metadata, some fields⟩ => by
    rw [FieldDef.ofField, FieldDef.build, FieldType.ofText_name, Field.rebuild,
      ← FieldDef.buildEach_ofSchema (p.subpath parent name) fields]
    rfl

/-- Building fields that were written down is building them anew. What references stand for plays no
part, so `follow` may be any function. -/
theorem FieldDef.buildEach_ofSchema (parent : String) :
    (s : List Field) →
      FieldDef.buildEach p follow parent (Definition.ofSchema s) = Field.rebuildEach p s
  | [] => rfl
  | f :: rest => by
    rw [Definition.ofSchema, FieldDef.buildEach, Field.rebuildEach,
      FieldDef.build_ofField parent f, FieldDef.buildEach_ofSchema parent rest]

end

/-- Building a definition that spells a schema out is building the schema anew, with the same fault
if it fails. -/
theorem Definition.build_ofSchema (parent : String) (s : Schema) :
    Definition.build p follow parent (Definition.ofSchema s) = s.rebuild p := by
  rw [Definition.build, Schema.rebuild, FieldDef.buildEach_ofSchema]

end Spelled

namespace Catalog

variable {c : Catalog} {p : Policy} {branch : List String} {name other path : String} {s : Schema}

/-- Under the inserted name stands the schema, written down. -/
theorem find?_insert_self (c : Catalog) (name : String) (s : Schema) :
    (c.insert name s).find? name = some (Definition.ofSchema s) :=
  TextMap.find?_insert_self ..

/-- Under any other name stands what stood there. -/
theorem find?_insert_of_ne (c : Catalog) (s : Schema) (h : other ≠ name) :
    (c.insert name s).find? other = c.find? other :=
  TextMap.find?_insert_of_ne _ _ h

/-- An inserted name is defined, and so are all that were. No name is lost when the one inserted was
there before. -/
theorem mem_names_insert_iff : other ∈ (c.insert name s).names ↔ other = name ∨ other ∈ c.names := by
  rw [names, names, TextMap.mem_keys_iff, TextMap.mem_keys_iff]
  by_cases h : other = name
  · subst h
    exact iff_of_true ⟨_, find?_insert_self c other s⟩ (.inl rfl)
  · rw [or_iff_right h]
    exact exists_congr fun d => by rw [← find?, ← find?, find?_insert_of_ne c s h]

/-- Resolving an inserted schema is building it anew. So an inserted schema is checked, though only
when it is asked for. -/
theorem resolve_insert_self (c : Catalog) (p : Policy) (name : String) (s : Schema) :
    (c.insert name s).resolve p name = s.rebuild p := by
  rw [resolve_of_find? p (find?_insert_self c name s)]
  exact Definition.build_ofSchema name s

/-- Following a reference to an inserted schema is building it anew, on any branch that does not
have the name already. -/
theorem follow_insert_self (c : Catalog) (s : Schema) (hnew : name ∉ branch) :
    (c.insert name s).follow p branch path name = s.rebuild p := by
  rw [follow_of_find? hnew (find?_insert_self c name s)]
  exact Definition.build_ofSchema name s

/-- **Inserting and resolving are inverse exactly on valid schemas.** A name that a schema was
inserted under is resolved to this schema when it is valid, and cannot be resolved when it is
not. -/
theorem resolve_insert_exactly_valid (c : Catalog) (p : Policy) (name : String) (s : Schema) :
    ((c.insert name s).resolve p name = .ok s ↔ s.isValid p = true) ∧
      ((∃ e, (c.insert name s).resolve p name = .error e) ↔ s.isValid p = false) := by
  have hvalid : s.rebuild p = .ok s ↔ s.isValid p = true := by
    rw [Schema.rebuild_eq_ok_iff, Schema.isValid_iff, and_iff_right rfl]
  rw [resolve_insert_self]
  refine ⟨hvalid, ?_⟩
  rw [← Bool.not_eq_true, ← hvalid]
  cases h : s.rebuild p with
  | error e => exact iff_of_true ⟨e, rfl⟩ (fun h => nomatch h)
  | ok t =>
    obtain ⟨rfl, -⟩ := Schema.rebuild_eq_ok_iff.mp h
    exact iff_of_false (fun ⟨_, h⟩ => nomatch h) (fun h => h rfl)

end Catalog
end RecordSchema
