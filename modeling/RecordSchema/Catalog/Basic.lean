import RecordSchema.Schema.Basic

/-!
# Catalogs

A catalog is a document of named definitions. Its fields are still text and references: a type is
a word to be read, and a Struct either names another definition (`reference`) or declares its
children in place (`children`). References are where definitions come to be shared, and where
circles come from.

Definitions are kept in the order of their names. `unvisited` counts those not on a branch of
references; it is what every walk along references runs down.
-/

namespace RecordSchema

/-- A field of a definition. -/
structure FieldDef where
  name : String
  type : String
  nullable : Bool := false
  metadata : Metadata := TextMap.empty
  /-- The definition whose fields are the children. -/
  reference : Option String := none
  /-- Children declared in place. -/
  children : Option (List FieldDef) := none

/-- The fields of a named definition. -/
abbrev Definition := List FieldDef

/-- Named definitions with the policy settings of their document. -/
structure Catalog where
  overrides : Option Overrides := none
  definitions : TextMap Definition := TextMap.empty

mutual

/-- The definition of a field that spells its children out. -/
def FieldDef.ofField : Field → FieldDef
  | ⟨name, type, nullable, metadata, none⟩ =>
    { name, type := type.name, nullable, metadata }
  | ⟨name, type, nullable, metadata, some fields⟩ =>
    { name, type := type.name, nullable, metadata, children := some (Definition.ofSchema fields) }

/-- The definition of a schema, without references. -/
def Definition.ofSchema : List Field → List FieldDef
  | [] => []
  | f :: rest => FieldDef.ofField f :: Definition.ofSchema rest

end

/-- A reference of a definition to another one, with the path of the field that makes it. -/
structure Reference where
  path : String
  target : String
  deriving DecidableEq

mutual

/-- The references of a field below `parent`: its own, then those of its children. -/
def FieldDef.references (p : Policy) (parent : String) : FieldDef → List Reference
  | ⟨name, _, _, _, reference, none⟩ =>
    (reference.map (Reference.mk (p.subpath parent name))).toList
  | ⟨name, _, _, _, reference, some children⟩ =>
    (reference.map (Reference.mk (p.subpath parent name))).toList ++
      Definition.references p (p.subpath parent name) children

/-- The references of the fields below `parent`, in order. -/
def Definition.references (p : Policy) (parent : String) : List FieldDef → List Reference
  | [] => []
  | d :: rest => d.references p parent ++ Definition.references p parent rest

end

namespace Catalog

/-- The names that are defined, in order. -/
def names (c : Catalog) : List String := c.definitions.keys

/-- The definition of a name. -/
def find? (c : Catalog) (name : String) : Option Definition := c.definitions.find? name

/-- Defines `name` as a schema, in place of what it was. -/
def insert (c : Catalog) (name : String) (s : Schema) : Catalog :=
  { c with definitions := c.definitions.insert name (Definition.ofSchema s) }

/-- The policy `base` with the settings that the document makes. -/
def policyOver (c : Catalog) (base : Policy) : Policy :=
  match c.overrides with
  | some o => o.applyTo base
  | none => base

/-- The default policy with the settings that the document makes. -/
def policy (c : Catalog) : Policy := c.policyOver {}

/-- The references of a defined name. -/
def references (c : Catalog) (p : Policy) (name : String) : List Reference :=
  Definition.references p name ((c.find? name).getD [])

/-- The number of defined names that are not on a branch. -/
def unvisited (c : Catalog) (branch : List String) : Nat :=
  c.names.countP fun n => !branch.contains n

/-- A name under which a definition is found is one of the names of the catalog. -/
theorem mem_names_of_find? {c : Catalog} {name : String} {d : Definition}
    (h : c.find? name = some d) : name ∈ c.names :=
  TextMap.mem_keys_of_find? h

/-- Following a reference to a name off the branch leaves fewer names to go. This is what ends the
resolution: no name is on a branch twice, and the catalog has finitely many. -/
theorem unvisited_cons_lt {c : Catalog} {branch : List String} {name : String}
    (hdef : name ∈ c.names) (hnew : name ∉ branch) :
    c.unvisited (name :: branch) < c.unvisited branch := by
  unfold unvisited
  revert hdef
  induction c.names with
  | nil => simp
  | cons n rest ih =>
    intro hdef
    have hle : rest.countP (fun x => !(name :: branch).contains x) ≤
        rest.countP (fun x => !branch.contains x) :=
      List.countP_mono_left fun x _ hx => by
        simp only [List.contains_cons, Bool.not_or, Bool.and_eq_true] at hx
        exact hx.2
    rw [List.countP_cons, List.countP_cons]
    by_cases hn : n = name
    · subst hn
      simp only [List.contains_cons, beq_self_eq_true, Bool.true_or, Bool.not_true,
        Bool.false_eq_true, ↓reduceIte, Nat.add_zero]
      have : branch.contains n = false := by simpa using hnew
      simp only [this, Bool.not_false, ↓reduceIte]
      simp only [List.contains_cons] at hle
      omega
    · have hmem : name ∈ rest := by
        rcases List.mem_cons.mp hdef with h | h
        · exact absurd h.symm hn
        · exact h
      have hlt := ih hmem
      have hcontains : (name :: branch).contains n = branch.contains n := by
        simp [hn]
      rw [hcontains]
      omega

end Catalog

/-- The names from `target` to the end of a branch, and `target` again. Branches are kept with the
newest name in front. -/
def cycleAlong (branch : List String) (target : String) : List String :=
  target :: (branch.takeWhile (· ≠ target)).reverse ++ [target]

example : cycleAlong ["c", "b", "a"] "b" = ["b", "c", "b"] := by decide

end RecordSchema
