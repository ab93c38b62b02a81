import RecordSchema.FieldType.Widening
import RecordSchema.Schema.Basic

/-!
# Merging schemas

`Schema.merge` reconciles two schemas of one source, say of two partitions. Fields that both sides
have, matched by name under the policy, take the wider type, are nullable when either side is, keep
the spelling of the name that comes first by code points, and of two values of an annotation the
one that comes last. Struct fields merge their children. A field of one side only is carried over
as nullable. The fields of the left side come first, in order, then those that only the right has.

The merge fails at the first matched pair whose types have no join, or whose Structs lack children.
-/

namespace RecordSchema

/-- All annotations of both sides; of two values of a key the greater one. -/
def Metadata.union (a b : Metadata) : Metadata :=
  b.entries.foldl (fun m e => m.update e.1 e.2 fun v => Text.greater v e.2) a

/-- The fields of `right` that no field of `left` matches, as nullable. -/
def Schema.onlyIn (p : Policy) (left right : List Field) : List Field :=
  (right.filter fun r => !left.any fun l => p.sameName l.name r.name).map Field.asNullable

mutual

/-- Merges a field, below the path `parent`, with its match `right`. -/
def Field.merge (p : Policy) (parent : String) (right : Field) : Field → Except Error Field
  | ⟨name, type, nullable, metadata, nested⟩ => do
    let name := Text.lesser name right.name
    let path := p.subpath parent name
    let joined ← match type.join? right.type with
      | some t => .ok t
      | none => .error (.incompatibleTypes path type right.type)
    let children ←
      if joined.isStruct then
        match nested, right.nested with
        | some ls, some rs => do
          let shared ← Schema.mergeInto p path rs ls
          .ok (some (shared ++ Schema.onlyIn p ls rs))
        | _, _ => .error (.structuralMismatch path joined false)
      else .ok none
    return ⟨name, joined, nullable || right.nullable, Metadata.union metadata right.metadata, children⟩

/-- Merges each field of a level with its match among `right`, or carries it over as nullable. -/
def Schema.mergeInto (p : Policy) (parent : String) (right : List Field) :
    List Field → Except Error (List Field)
  | [] => .ok []
  | l :: rest => do
    let f ← match right.find? fun r => p.sameName l.name r.name with
      | some r => Field.merge p parent r l
      | none => .ok l.asNullable
    let fields ← Schema.mergeInto p parent right rest
    return f :: fields

end

/-- Reconciles two schemas. -/
def Schema.merge (p : Policy) (a b : Schema) : Except Error Schema := do
  let shared ← Schema.mergeInto p "" b a
  return shared ++ Schema.onlyIn p a b

/-- Merges schemas from left to right; of no schemas the result is empty. -/
def Schema.mergeAll (p : Policy) : List Schema → Except Error Schema
  | [] => .ok []
  | s :: rest => rest.foldlM (Schema.merge p) s

end RecordSchema
