import RecordSchema.Catalog.Basic
import RecordSchema.Schema.Checked

/-!
# Resolving definitions

`Catalog.resolve` turns a definition into a schema: types are read, references replaced by what
they refer to, and every field and level goes through checked construction. The first fault ends
it; a reference back to a definition that is being resolved is a fault, so it always ends.

The work is split in two. `Definition.build` builds a level when it is told, by `follow`, what a
reference stands for; `Catalog.follow` tells it, and keeps the branch of names on the way.
-/

namespace RecordSchema

mutual

/-- Builds one field below `parent`; `follow path r` is the schema that a reference `r` made at
`path` stands for. -/
def FieldDef.build (p : Policy) (follow : String → String → Except Error Schema)
    (parent : String) : FieldDef → Except Error Field
  | ⟨name, type, nullable, metadata, reference, none⟩ => do
    let type ← FieldType.ofText type
    let nested ← match reference with
      | some r => some <$> follow (p.subpath parent name) r
      | none => .ok none
    Field.build p { name, type, nullable, metadata, nested }
  | ⟨name, type, nullable, metadata, reference, some children⟩ => do
    let type ← FieldType.ofText type
    match reference with
    | some _ => .error (.invalidField name .ambiguousNested)
    | none =>
      let fields ← FieldDef.buildEach p follow (p.subpath parent name) children
      let nested ← Schema.build p fields
      Field.build p { name, type, nullable, metadata, nested := some nested }

/-- Builds the fields of one level one after the other. -/
def FieldDef.buildEach (p : Policy) (follow : String → String → Except Error Schema)
    (parent : String) : List FieldDef → Except Error (List Field)
  | [] => .ok []
  | d :: rest => do
    let f ← d.build p follow parent
    let fields ← FieldDef.buildEach p follow parent rest
    return f :: fields

end

/-- Builds a level below `parent`. -/
def Definition.build (p : Policy) (follow : String → String → Except Error Schema)
    (parent : String) (d : Definition) : Except Error Schema := do
  let fields ← FieldDef.buildEach p follow parent d
  Schema.build p fields

namespace Catalog

/-- The schema that a reference stands for. `branch` holds the names being resolved, newest first;
`path` is where the reference was made. -/
def follow (c : Catalog) (p : Policy) (branch : List String) (path target : String) :
    Except Error Schema :=
  if target ∈ branch then .error (.cyclicSchema (cycleAlong branch target))
  else
    match _h : c.find? target with
    | none => .error (.unknownReference path target)
    | some d => d.build p (fun path r => c.follow p (target :: branch) path r) target
  termination_by c.unvisited branch
  decreasing_by exact unvisited_cons_lt (mem_names_of_find? _h) ‹_›

section Follow

variable {c : Catalog} {p : Policy} {branch : List String} {path target : String} {d : Definition}

/-- A reference back into the branch is a fault, worded by the names from its target to the end of
the branch. Whether the target is defined is not looked at. -/
theorem follow_of_mem (h : target ∈ branch) :
    c.follow p branch path target = .error (.cyclicSchema (cycleAlong branch target)) := by
  rw [follow, if_pos h]

/-- A reference to no definition is a fault at the field that makes it. The path of the error is
that of the reference and not of the name that is resolved. -/
theorem follow_of_undefined (hnew : target ∉ branch) (h : c.find? target = none) :
    c.follow p branch path target = .error (.unknownReference path target) := by
  rw [follow, if_neg hnew]
  split
  · rfl
  · rename_i d hd
    exact nomatch h.symm.trans hd

/-- Any other reference is replaced by what its target is built as, with the target on the branch.
Paths start anew with the name of the target. -/
theorem follow_of_find? (hnew : target ∉ branch) (h : c.find? target = some d) :
    c.follow p branch path target =
      d.build p (fun path r => c.follow p (target :: branch) path r) target := by
  rw [follow, if_neg hnew]
  split
  · rename_i hnone
    exact nomatch h.symm.trans hnone
  · rename_i d' hd
    rw [Option.some.inj (h.symm.trans hd)]

end Follow

/-- The schema of a definition. -/
def resolve (c : Catalog) (p : Policy) (name : String) : Except Error Schema :=
  match c.find? name with
  | none => .error (.invalidSchema (.undefined name))
  | some d => d.build p (c.follow p [name]) name

/-- A name without a definition cannot be resolved; this is no unknown reference, since no field
makes one. -/
theorem resolve_of_undefined {c : Catalog} {name : String} (p : Policy) (h : c.find? name = none) :
    c.resolve p name = .error (.invalidSchema (.undefined name)) := by
  rw [resolve, h]

/-- A name with a definition is resolved to what the definition is built as, with nothing but the
name on the branch. This differs from following a reference to it in that there is no place to
blame. -/
theorem resolve_of_find? {c : Catalog} {name : String} {d : Definition} (p : Policy)
    (h : c.find? name = some d) : c.resolve p name = d.build p (c.follow p [name]) name := by
  rw [resolve, h]

/-- The schemas of all definitions in the order of their names; the first that cannot be resolved
ends it. -/
def resolveAll (c : Catalog) (p : Policy) : Except Error (List (String × Schema)) :=
  c.names.mapM fun name => do return (name, ← c.resolve p name)

end Catalog
end RecordSchema
