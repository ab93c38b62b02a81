import RecordSchema.Proofs.Catalog.Cycles
import RecordSchema.Proofs.Catalog.Inserting
import RecordSchema.Proofs.Schema.Report

/-!
# Examining a schema as a definition

A schema can be examined as it is, or written down as the only definition of a catalog and examined
there. Both ways report the same problems in the same order. They differ in where the problems are
said to be, since in a catalog every path starts with the name of the definition.

The two keep track of the place in different ways: one has the names on the way down as a list and
joins them when it reports, the other appends to a text. The text for the level at `path` is the
list with the definition's name in front, joined (`Policy.subpath_joinPath`). It is never empty, so
the exception that an empty text makes for a level without a parent does not arise.
-/

namespace RecordSchema

section Spelled

variable {c : Catalog} {p : Policy} {name : String}

mutual

/-- The problems of a field's shape are the same where it is written down in a definition, with the
name of the definition in front of their paths. A field that was written down makes no reference,
and its type is read back from its tag. -/
theorem FieldDef.shapeViolations_ofField (hname : name ≠ "") (path : List String)
    (hpath : path ≠ []) :
    (f : Field) → (FieldDef.ofField f).shapeViolations c p (p.joinPath (name :: path)) =
      (f.shapeViolations p path).map (Violation.relocate (p.pathIn name))
  | ⟨fieldName, type, nullable, metadata, none⟩ => by
    rw [FieldDef.ofField, FieldDef.shapeViolations, FieldType.ofText_name, Field.shapeViolations,
      ← Policy.pathIn_joinPath hpath]
    cases h : type.isStruct <;> simp [h, Violation.relocate, Error.relocate]
  | ⟨fieldName, type, nullable, metadata, some fields⟩ => by
    have hbelow := Definition.levelViolations_ofSchema hname path [] fields
    rw [← Policy.pathIn_joinPath hpath] at hbelow ⊢
    rw [FieldDef.ofField, FieldDef.shapeViolations, FieldType.ofText_name, Field.shapeViolations,
      Definition.isEmpty_ofSchema, hbelow]
    cases h : type.isStruct with
    | false => simp [h, Violation.relocate, Error.relocate]
    | true =>
      simp only [h, Option.isNone_none, Bool.and_self, if_true, List.map_append]
      congr 1
      split <;> rfl

/-- The problems of a level are the same where it is written down in a definition, with the name of
the definition in front of their paths. -/
theorem Definition.levelViolations_ofSchema (hname : name ≠ "") (path seen : List String) :
    (s : List Field) →
      Definition.levelViolations c p (p.joinPath (name :: path)) seen (Definition.ofSchema s) =
        (Schema.levelViolations p path seen s).map (Violation.relocate (p.pathIn name))
  | [] => rfl
  | f :: rest => by
    have hpath : path ++ [f.name] ≠ [] := by simp
    have hhead : (name :: path).head? ≠ some "" := fun h => hname (Option.some.inj h)
    have hf := FieldDef.shapeViolations_ofField hname (path ++ [f.name]) hpath f
    have hrest := Definition.levelViolations_ofSchema hname path (p.nameKey f.name :: seen) rest
    rw [Definition.ofSchema, Definition.levelViolations, Schema.levelViolations,
      FieldDef.name_ofField, Policy.subpath_joinPath hhead, List.cons_append, hf, hrest,
      List.map_append, List.map_append, Policy.map_relocate_nameErrors hpath]

end

end Spelled

namespace Catalog

variable {c : Catalog} {p : Policy} {name : String} {s : Schema}

/-- Without references there are no cycles. A catalog made of schemas refers to nothing, so its
report is that of its levels alone. -/
theorem cycles_eq_nil (h : ∀ name, c.references p name = []) : c.cycles p = [] := by
  refine List.eq_nil_iff_forall_not_mem.mpr fun v hv => ?_
  obtain ⟨site, hcloses⟩ := exists_closes_of_mem_cycles hv
  obtain ⟨d, hcycle⟩ := hcloses.transGen
  obtain ⟨e, hde, -⟩ := Relation.TransGen.head'_iff.mp hcycle
  obtain ⟨r, hr, -⟩ := hde.exists_reference
  rw [h d] at hr
  exact nomatch hr

/-- A schema inserted where nothing else is defined leaves all other names undefined. -/
theorem find?_insert_alone {n : String} (halone : ∀ other ∈ c.names, other = name)
    (hn : n ≠ name) : (c.insert name s).find? n = none := by
  rw [find?_insert_of_ne c s hn]
  exact Option.eq_none_iff_forall_ne_some.mpr fun d hd => hn (halone n (mem_names_of_find? hd))

/-- A schema inserted where nothing else is defined is the only definition. An earlier one under the
same name is replaced. -/
theorem entries_insert_alone (halone : ∀ other ∈ c.names, other = name) :
    (c.insert name s).definitions.entries = [(name, Definition.ofSchema s)] := by
  have h : (c.insert name s).definitions = TextMap.empty.insert name (Definition.ofSchema s) := by
    refine TextMap.ext_find? fun k => ?_
    by_cases hk : k = name
    · subst hk
      rw [TextMap.find?_insert_self]
      exact find?_insert_self c k s
    · rw [TextMap.find?_insert_of_ne _ _ hk]
      exact find?_insert_alone halone hk
  rw [h]
  rfl

/-- A schema inserted where nothing else is defined makes no references. Whether the name was
defined before does not matter, as what it stood for is replaced. -/
theorem references_insert_alone (halone : ∀ other ∈ c.names, other = name) (n : String) :
    (c.insert name s).references p n = [] := by
  by_cases hn : n = name
  · subst hn
    rw [references_of_find? (find?_insert_self c n s), Definition.references_ofSchema]
  · rw [references, find?_insert_alone halone hn]
    rfl

/-- **A schema and the definition that spells it out have the same violations.** The catalog whose
only definition was inserted as a schema has the violations of the schema, in order, each with the
name of the definition in front of its path and of the path that its error mentions. So nothing is
improper about one exactly when nothing is about the other. -/
theorem violations_insert_alone (c : Catalog) (p : Policy) (name : String) (s : Schema)
    (hname : name ≠ "") (halone : ∀ other ∈ c.names, other = name) :
    (c.insert name s).violations p = (s.violations p).map (Violation.relocate (p.pathIn name)) ∧
      ((c.insert name s).isValid p = true ↔ s.isValid p = true) := by
  have h : (c.insert name s).violations p =
      (s.violations p).map (Violation.relocate (p.pathIn name)) := by
    rw [violations, cycles_eq_nil (references_insert_alone halone), entries_insert_alone halone,
      List.append_nil, List.flatMap_singleton]
    exact Definition.levelViolations_ofSchema hname [] [] s
  refine ⟨h, ?_⟩
  rw [isValid, Schema.isValid, h, List.isEmpty_map]

/-- Problems of all kinds: an empty name with a repeated one below it, a name with the delimiter and
a Struct without fields at once, an Int with children and a Struct that lacks them. -/
theorem violations_insert_alone_all_kinds :
    let p : Policy := { strictNames := true }
    let s : Schema := [.struct "" [.scalar "x" .int false, .scalar "x" .long false] false,
      .struct "a.b" [] true,
      ⟨"count", .int, false, TextMap.empty, some [.scalar "y" .int false]⟩,
      ⟨"owner", .struct, true, TextMap.empty, none⟩]
    let c := Catalog.insert {} "row" s
    ("row" ≠ "" ∧ ∀ other ∈ Catalog.names {}, other = "row") ∧
      c.violations p = (s.violations p).map (Violation.relocate (p.pathIn "row")) ∧
        (c.violations p).map Violation.message = [
          "row.: invalid field '': name must not be empty",
          "row..x: duplicate field name 'x'",
          "row.a.b: invalid field 'a.b': name contains reserved delimiter '.'",
          "row.a.b: invalid schema: Struct field 'a.b' has no children",
          "row.count: structural mismatch at 'row.count': Int field carries a nested schema",
          "row.owner: structural mismatch at 'row.owner': Struct field has no nested schema"] := by
  intro p s c
  have hname : "row" ≠ "" := by decide
  have halone : ∀ other ∈ Catalog.names {}, other = "row" := by decide
  obtain ⟨h, -⟩ := violations_insert_alone {} p "row" s hname halone
  refine ⟨⟨hname, halone⟩, h, ?_⟩
  rw [h]
  decide +kernel

end Catalog
end RecordSchema
