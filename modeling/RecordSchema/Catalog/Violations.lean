import RecordSchema.Catalog.Basic
import RecordSchema.Schema.Validation

/-!
# Violations of a catalog

`Catalog.violations` examines every definition without building anything. The problems of the
definitions come first, in the order of their names and of the fields in them: improper names,
repeated names, unknown types, shapes that do not fit, references to nothing. The reference
cycles follow, each at the field that closes it.

Cycles are found by a walk along references, depth first, from every name that was not reached
before. The walk keeps the branch it is on and the names it is done with; a reference back into
the branch closes a cycle, and a name that is done is not entered again.
-/

namespace RecordSchema

mutual

/-- Problems of a field's type, shape and reference. `path` ends with its own name. -/
def FieldDef.shapeViolations (c : Catalog) (p : Policy) (path : String) :
    FieldDef → List Violation
  | ⟨name, type, _, _, reference, some children⟩ =>
    match FieldType.ofText type with
    | .error e => [⟨path, e⟩]
    | .ok t =>
      if t.isStruct && reference.isNone then
        (if children.isEmpty && !p.allowEmptyStruct then
            [⟨path, .invalidSchema (.emptyStruct name)⟩]
          else []) ++ Definition.levelViolations c p path [] children
      else [⟨path, .structuralMismatch path t true⟩]
  | ⟨name, type, _, _, some reference, none⟩ =>
    match FieldType.ofText type with
    | .error e => [⟨path, e⟩]
    | .ok t =>
      if t.isStruct then
        match c.find? reference with
        | none => [⟨path, .unknownReference path reference⟩]
        | some target =>
          if target.isEmpty && !p.allowEmptyStruct then
            [⟨path, .invalidSchema (.emptyStruct name)⟩]
          else []
      else [⟨path, .structuralMismatch path t true⟩]
  | ⟨_, type, _, _, none, none⟩ =>
    match FieldType.ofText type with
    | .error e => [⟨path, e⟩]
    | .ok t => if t.isStruct then [⟨path, .structuralMismatch path t false⟩] else []

/-- Problems of the fields of one level below `parent`, after siblings with the keys `seen`. -/
def Definition.levelViolations (c : Catalog) (p : Policy) (parent : String) (seen : List String) :
    List FieldDef → List Violation
  | [] => []
  | d :: rest =>
    (p.nameErrors seen d.name).map (Violation.mk (p.subpath parent d.name)) ++
      d.shapeViolations c p (p.subpath parent d.name) ++
        Definition.levelViolations c p parent (p.nameKey d.name :: seen) rest

end

/-- How far the walk along references has come. -/
structure CycleSearch where
  /-- Names whose references have all been followed. -/
  finished : List String := []
  /-- The cycles met, in order. -/
  found : List Violation := []

namespace Catalog

/-- Follows the references of the name at the front of `branch`, one after the other. -/
def followAll (c : Catalog) (p : Policy) (branch : List String) :
    List Reference → CycleSearch → CycleSearch
  | [], s => s
  | r :: rest, s =>
    if r.target ∈ branch then
      c.followAll p branch rest
        { s with found := s.found ++ [⟨r.path, .cyclicSchema (cycleAlong branch r.target)⟩] }
    else if r.target ∈ s.finished then c.followAll p branch rest s
    else if r.target ∈ c.names then
      let t := c.followAll p (r.target :: branch) (c.references p r.target) s
      c.followAll p branch rest { t with finished := r.target :: t.finished }
    else c.followAll p branch rest s
  termination_by refs _ => (c.unvisited branch, refs.length)
  decreasing_by
  all_goals first
    | exact Prod.Lex.left _ _ (unvisited_cons_lt ‹_› ‹_›)
    | exact Prod.Lex.right _ (Nat.lt_succ_self _)

/-- Enters a name from which no branch has led so far. -/
def enter (c : Catalog) (p : Policy) (s : CycleSearch) (name : String) : CycleSearch :=
  if name ∈ s.finished then s
  else
    let t := c.followAll p [name] (c.references p name) s
    { t with finished := name :: t.finished }

/-- The reference cycles, each at the field that closes it. -/
def cycles (c : Catalog) (p : Policy) : List Violation := (c.names.foldl (c.enter p) {}).found

/-- Everything improper about a catalog. -/
def violations (c : Catalog) (p : Policy) : List Violation :=
  c.definitions.entries.flatMap (fun e => Definition.levelViolations c p e.1 [] e.2) ++ c.cycles p

/-- Whether nothing is improper about a catalog. -/
def isValid (c : Catalog) (p : Policy) : Bool := (c.violations p).isEmpty

end Catalog
end RecordSchema
