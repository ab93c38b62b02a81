import RecordSchema.Schema.Basic

/-!
# Violations

`Schema.violations` lists everything improper about a schema in the order of its fields, each
violation at the path of its field. Of one field come, in this order: a fault of its name, a name
that an earlier sibling has, a shape that does not fit its type. The children of a Struct follow
their parent; children of a field that is no Struct are not looked at.
-/

namespace RecordSchema

/-- Something improper, and where. -/
structure Violation where
  path : String
  error : Error
  deriving DecidableEq

/-- The violation as one line. -/
def Violation.message (v : Violation) : String := v.path ++ ": " ++ v.error.message

/-- A list of violations as a report: their number, then one indented line for each. -/
def Violation.report (vs : List Violation) : String :=
  toString vs.length ++ " schema violation(s)" ++
    Text.join "" (vs.map fun v => "\n  " ++ v.message)

/-- What is wrong with a name on its own and beside the keys `seen` of earlier siblings. -/
def Policy.nameErrors (p : Policy) (seen : List String) (name : String) : List Error :=
  ((p.nameFault? name).map (Error.invalidField name)).toList ++
    if seen.contains (p.nameKey name) then [.duplicateName name] else []

/-- The problems of a name are its fault and that it is repeated. A name can have both at once, and
then both are reported. -/
theorem Policy.mem_nameErrors_iff {p : Policy} {seen : List String} {name : String} {e : Error} :
    e ∈ p.nameErrors seen name ↔
      (∃ fault, p.nameFault? name = some fault ∧ .invalidField name fault = e) ∨
        p.nameKey name ∈ seen ∧ e = .duplicateName name := by
  rw [nameErrors, List.mem_append, Option.mem_toList, Option.map_eq_some_iff]
  by_cases hkey : p.nameKey name ∈ seen <;> simp [hkey]

mutual

/-- Violations of a field's shape and of the levels under it. `path` ends with its own name. -/
def Field.shapeViolations (p : Policy) (path : List String) : Field → List Violation
  | ⟨name, type, _, _, some fields⟩ =>
    if type.isStruct then
      (if fields.isEmpty && !p.allowEmptyStruct then
          [⟨p.joinPath path, .invalidSchema (.emptyStruct name)⟩]
        else []) ++ Schema.levelViolations p path [] fields
    else [⟨p.joinPath path, .structuralMismatch (p.joinPath path) type true⟩]
  | ⟨_, type, _, _, none⟩ =>
    if type.isStruct then
      [⟨p.joinPath path, .structuralMismatch (p.joinPath path) type false⟩]
    else []

/-- Violations of the fields of one level below `path`, after siblings with the keys `seen`. -/
def Schema.levelViolations (p : Policy) (path seen : List String) : Schema → List Violation
  | [] => []
  | f :: rest =>
    (p.nameErrors seen f.name).map (Violation.mk (p.joinPath (path ++ [f.name]))) ++
      f.shapeViolations p (path ++ [f.name]) ++
        Schema.levelViolations p path (p.nameKey f.name :: seen) rest

end

/-- Everything improper about a schema, in the order of its fields. -/
def Schema.violations (p : Policy) (s : Schema) : List Violation := s.levelViolations p [] []

/-- Whether a schema is proper under a policy. -/
def Schema.isValid (p : Policy) (s : Schema) : Bool := (s.violations p).isEmpty

end RecordSchema
