import RecordSchema.FieldType

/-!
# Widening

A type widens into another when every value of the first is kept by the second. The relation is
the reflexive and transitive closure of

| from | to |
| --- | --- |
| Short | Int |
| Int | Long, Decimal |
| Long | BigInt, Decimal |
| Float | Double |

`targets` lists what a type widens into besides itself. Two types are compatible when one of them
widens into the other; the wider one is their join. BigInt and Decimal both lie above Long and are
not compatible, so the join is partial.
-/

namespace RecordSchema

/-- How two types reconcile. -/
inductive Widening where
  | equal
  /-- One of the two is `wider` and takes the values of both. -/
  | widensTo (wider : FieldType)
  | incompatible
  deriving DecidableEq, Repr

/-- Whether the two types have a common type. -/
def Widening.isCompatible : Widening → Bool
  | incompatible => false
  | _ => true

namespace FieldType

/-- The types that `t` widens into, itself left out. -/
def targets : FieldType → List FieldType
  | short => [int, long, bigInt, decimal]
  | int => [long, bigInt, decimal]
  | long => [bigInt, decimal]
  | float => [double]
  | _ => []

/-- Whether values of type `a` can be kept as values of type `b`. -/
def widensTo (a b : FieldType) : Bool := a == b || a.targets.contains b

/-- Compares two types. -/
def widen (a b : FieldType) : Widening :=
  if a = b then .equal
  else if a.targets.contains b then .widensTo b
  else if b.targets.contains a then .widensTo a
  else .incompatible

/-- The wider of two compatible types. -/
def join? (a b : FieldType) : Option FieldType :=
  match a.widen b with
  | .equal => some a
  | .widensTo t => some t
  | .incompatible => none

/-- Every type widens to itself, although it is not one of its targets. -/
theorem widensTo_refl (a : FieldType) : a.widensTo a = true := by simp [widensTo]

/-- A type widens to itself and to its targets. The targets are listed in full for each type, so no
chain of steps has to be followed. -/
theorem widensTo_iff {a b : FieldType} : a.widensTo b = true ↔ a = b ∨ b ∈ a.targets := by
  simp [widensTo]

/-- Widening twice is widening: the lists of targets are closed under taking targets. So a type wide
enough for what was merged is wide enough for each side of that merge. -/
theorem widensTo_trans {a b c : FieldType} (hab : a.widensTo b = true) (hbc : b.widensTo c = true) :
    a.widensTo c = true := by
  have h : ∀ a ∈ all, ∀ b ∈ a.targets, ∀ c ∈ b.targets, c ∈ a.targets := by decide
  rcases widensTo_iff.mp hab with rfl | hb
  · exact hbc
  · rcases widensTo_iff.mp hbc with rfl | hc
    · exact hab
    · exact widensTo_iff.mpr (.inr (h a (mem_all a) b hb c hc))

/-- Types that widen to each other are equal. With reflexivity and transitivity, widening is an
order, and the join of two types is the greater when one is above the other. -/
theorem widensTo_antisymm {a b : FieldType} (hab : a.widensTo b = true) (hba : b.widensTo a = true) :
    a = b := by
  have h : ∀ a ∈ all, ∀ b ∈ a.targets, a ∉ b.targets := by decide
  rcases widensTo_iff.mp hab with rfl | hb
  · rfl
  · rcases widensTo_iff.mp hba with rfl | ha
    · rfl
    · exact absurd ha (h a (mem_all a) b hb)

end FieldType
end RecordSchema
