import RecordSchema.TextMap

/-!
# Formats of documents

A decoder reads a value of the domain from a node of a document without knowing how the document
is written. `Format` is what it may ask of a node; JSON and YAML each answer in their own way, and
each may refuse. `m` carries the refusals, and whatever else reading costs.

Collections take a bound on how many more of them may be nested, and refuse at 0; the nodes found
in a collection are read with a bound less by one.
-/

namespace RecordSchema

/-- What a decoder may ask of a node. -/
structure Format (m : Type → Type) (ν : Type) where
  /-- How deep collections may be nested. -/
  depth : Nat
  /-- The refusal. -/
  refuse : {α : Type} → m α
  /-- The node as a text. -/
  text : ν → m String
  /-- The node as a truth value. -/
  flag : ν → m Bool
  /-- The node as a number below 256. -/
  byte : ν → m UInt8
  /-- The node as a value that may be missing. -/
  optional : {α : Type} → (ν → m α) → ν → m (Option α)
  /-- The node as a record with the members listed. Others are passed over, and a member that is
  listed must not come twice. -/
  record : Nat → List String → ν → m (String → Option ν)
  /-- The node as a list. -/
  items : Nat → ν → m (List ν)
  /-- The node as a map, with its entries in order. -/
  entries : Nat → ν → m (List (String × ν))
  /-- The node as one of several alternatives: its tag, and what comes with it. -/
  tagged : Nat → ν → m (String × Option ν)
  /-- The node as a value without content. -/
  unit : ν → m Unit

namespace Format

variable {m : Type → Type} {ν α : Type} [Monad m]

/-- An optional value, where its absence is a refusal. -/
def found (F : Format m ν) : Option α → m α
  | some a => pure a
  | none => F.refuse

/-- A member that a record has to have. -/
def need (F : Format m ν) (get : String → Option ν) (name : String) (read : ν → m α) : m α :=
  match get name with
  | some v => read v
  | none => F.refuse

/-- A member that a record need not have. -/
def allow (get : String → Option ν) (name : String) (otherwise : α) (read : ν → m α) : m α :=
  match get name with
  | some v => read v
  | none => pure otherwise

/-- A text of one character. -/
def char (F : Format m ν) (v : ν) : m Char := do
  let s ← F.text v
  match s.toList with
  | [c] => pure c
  | _ => F.refuse

/-- A map of texts; of entries with one key the last counts. -/
def texts (F : Format m ν) (n : Nat) (v : ν) : m (TextMap String) := do
  let entries ← F.entries n v
  let read ← entries.mapM fun e => do return (e.1, ← F.text e.2)
  return TextMap.ofList read

end Format
end RecordSchema
