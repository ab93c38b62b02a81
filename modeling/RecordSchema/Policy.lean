import RecordSchema.Error

/-!
# Naming policy

A `Policy` says which field names are allowed, when two names are the same, and whether a Struct
may be empty. `nameKey` is what two sibling names are compared by: the name itself, or its lower
case when case does not count.

Policies come from three places, later ones over earlier ones: environment variables
(`ofEnvironment`), the `config` block of a document (`Overrides`), and the command line. An
`Overrides` replaces exactly the settings it mentions.
-/

namespace RecordSchema

/-- What counts as a proper name and a proper Struct. -/
structure Policy where
  /-- Names must not contain the delimiter. -/
  strictNames : Bool := false
  /-- A Struct may have no children. -/
  allowEmptyStruct : Bool := false
  /-- Names that differ in case are different. -/
  caseSensitive : Bool := true
  /-- Separates the names on the way to a nested field. -/
  delimiter : Char := '.'
  deriving DecidableEq, Inhabited

/-- Settings that replace those of another policy; an absent one leaves what was there. -/
structure Overrides where
  strictNames : Option Bool := none
  allowEmptyStruct : Option Bool := none
  caseSensitive : Option Bool := none
  delimiter : Option Char := none
  deriving DecidableEq, Inhabited

namespace Overrides

/-- The policy with the settings that are present put in place of its own. -/
def applyTo (o : Overrides) (p : Policy) : Policy where
  strictNames := o.strictNames.getD p.strictNames
  allowEmptyStruct := o.allowEmptyStruct.getD p.allowEmptyStruct
  caseSensitive := o.caseSensitive.getD p.caseSensitive
  delimiter := o.delimiter.getD p.delimiter

end Overrides

namespace Policy

/-- What a name is compared by. -/
def nameKey (p : Policy) (name : String) : String :=
  if p.caseSensitive then name else Text.lowercase name

/-- Whether two names are the same under the policy. -/
def sameName (p : Policy) (a b : String) : Bool := p.nameKey a == p.nameKey b

/-- The fault of a name, if it has one: it is empty, or strict names forbid it. -/
def nameFault? (p : Policy) (name : String) : Option FieldFault :=
  if name.isEmpty then some .emptyName
  else if p.strictNames && name.toList.contains p.delimiter then
    some (.reservedDelimiter p.delimiter)
  else none

/-- Accepts a name without fault. -/
def checkName (p : Policy) (name : String) : Except Error Unit :=
  match p.nameFault? name with
  | some fault => .error (.invalidField name fault)
  | none => .ok ()

/-- The names on the way to a field as one text. -/
def joinPath (p : Policy) (names : List String) : String :=
  Text.join (String.singleton p.delimiter) names

/-- The path of `name` under `parent`; an empty parent is no parent. -/
def subpath (p : Policy) (parent name : String) : String :=
  if parent.isEmpty then name else parent ++ String.singleton p.delimiter ++ name

/-- Reads a delimiter: a text of exactly one character. -/
def readDelimiter (s : String) : Except Error Char :=
  match s.toList with
  | [c] => .ok c
  | _ => .error (.invalidDelimiter s)

/-- Reads a switch as environment variables write it. -/
def readSwitch (s : String) : Option Bool :=
  let word := Text.asciiLowercase (Text.trim s)
  if ["1", "true", "yes", "on"].contains word then some true
  else if ["0", "false", "no", "off"].contains word then some false
  else none

/-- The settings that environment variables make; an unreadable value makes none. -/
def environmentOverrides (environment : String → Option String) : Overrides where
  strictNames := environment "EELS_STRICT_NAMES" >>= readSwitch
  allowEmptyStruct := environment "EELS_ALLOW_EMPTY_STRUCT" >>= readSwitch
  caseSensitive := environment "EELS_CASE_SENSITIVE_NAMES" >>= readSwitch
  delimiter := environment "EELS_NAME_DELIMITER" >>= fun s => (readDelimiter s).toOption

/-- The variables of the environment that make settings. -/
def environmentNames : List String :=
  ["EELS_STRICT_NAMES", "EELS_ALLOW_EMPTY_STRUCT", "EELS_CASE_SENSITIVE_NAMES",
    "EELS_NAME_DELIMITER"]

/-- The default policy with what the environment sets. -/
def ofEnvironment (environment : String → Option String) : Policy :=
  (environmentOverrides environment).applyTo {}

/-- Two names count as the same exactly when their keys are equal. This turns the test into an
equation, so that it is an equivalence without further proof. -/
@[simp]
theorem sameName_iff {p : Policy} {a b : String} :
    p.sameName a b = true ↔ p.nameKey a = p.nameKey b := by
  simp [sameName]

/-- A name has no fault when it is not empty and, if names are strict, without the delimiter. The
delimiter does not count under a policy that is not strict. -/
theorem nameFault?_eq_none_iff {p : Policy} {name : String} :
    p.nameFault? name = none ↔
      name ≠ "" ∧ (p.strictNames = true → p.delimiter ∉ name.toList) := by
  rw [nameFault?, ← List.contains_iff_mem]
  by_cases hempty : name = ""
  · simp [hempty]
  · cases p.strictNames <;> cases name.toList.contains p.delimiter <;> simp [hempty]

/-- The check of a name passes exactly when the name has no fault; there is only one way to pass. -/
theorem checkName_eq_ok_iff {p : Policy} {name : String} {u : Unit} :
    p.checkName name = .ok u ↔ p.nameFault? name = none := by
  rw [checkName]
  cases p.nameFault? name with
  | none => exact iff_of_true rfl rfl
  | some fault => exact ⟨fun h => (nomatch h), fun h => (nomatch h)⟩

/-- Below a path that does not start with an empty name, a name is joined to the path. An empty text
stands for the root, so a path that is one empty name would be taken for it. -/
theorem subpath_joinPath {p : Policy} {path : List String} {child : String}
    (h : path.head? ≠ some "") :
    p.subpath (p.joinPath path) child = p.joinPath (path ++ [child]) := by
  cases path with
  | nil => rfl
  | cons name path =>
    have hname : name ≠ "" := fun hname => h (congrArg some hname)
    have hne : ¬ (p.joinPath (name :: path)).isEmpty = true := by
      rw [String.isEmpty_iff]
      exact Text.join_cons_ne_empty hname
    rw [subpath, if_neg hne]
    exact (Text.join_concat_of_ne_nil (List.cons_ne_nil _ _)).symm

end Policy
end RecordSchema
