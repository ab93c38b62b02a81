import RecordSchema.Catalog.Resolution
import RecordSchema.Catalog.Violations
import RecordSchema.CommandLine.Arguments
import RecordSchema.CommandLine.FileTree
import RecordSchema.Document.Encoding
import RecordSchema.Document.Json
import RecordSchema.Document.Yaml
import RecordSchema.Schema.Canonical
import RecordSchema.Schema.Merge

/-!
# Commands

What the program does, as a function of its arguments and of its surroundings: the variables of
the environment and the files it can read. `execute` gives the text that a command prints or the
failure that ends it.

The policy of a command is the default one, with what the environment sets, over that what the
document sets, over that what the options set. A merge takes its policy from the first document.
-/

namespace RecordSchema

/-- What a command can see of the world. -/
structure Surroundings where
  /-- The value of a variable of the environment, if it is set. -/
  environment : String → Option String
  /-- The text of the file that a path leads to. -/
  read : String → Except ReadFault String

/-- Why a command ends without doing what it was asked for. -/
inductive Failure where
  | unreadable (fault : ReadFault)
  | improper (violations : List Violation)
  | error (e : Error)
  deriving DecidableEq

/-- The wording of a failure. -/
def Failure.message : Failure → String
  | unreadable fault => fault.message
  | improper vs => Violation.report vs
  | error e => e.message

/-- A result of the library as the result of a command. -/
def orFail {α : Type} : Except Error α → Except Failure α
  | .ok a => .ok a
  | .error e => .error (.error e)

/-- The part of a path after its last `/`, the ending of a path left out of account. -/
def fileName? (path : String) : Option String :=
  ((Text.split '/' path).filter fun part => part ≠ "" && part ≠ ".").getLast?

/-- The extension of a path: what follows the last point of its file name, unless the name starts
with that point. -/
def extension? (path : String) : Option String := do
  let name ← fileName? path
  let reversed := name.toList.reverse
  match reversed.dropWhile (· ≠ '.') with
  | '.' :: stem =>
    if stem.isEmpty || name == ".." then none
    else some (String.ofList (reversed.takeWhile (· ≠ '.')).reverse)
  | _ => none

/-- Reads a catalog from the text of a file. Files with the extension `json` are in JSON, all
others in YAML. -/
def decodeFile (path text : String) : Except Error Catalog :=
  let read :=
    if extension? path = some "json" then decodeJson (fun F => F.catalog) text
    else decodeYaml (fun F => F.catalog) text
  match read with
  | some c => .ok c
  | none => .error .undecodable

/-- Reads the catalog in a file. -/
def loadCatalog (w : Surroundings) (path : String) : Except Failure Catalog :=
  match w.read path with
  | .error fault => .error (.unreadable fault)
  | .ok text => orFail (decodeFile path text)

/-- A policy with what the options set. -/
def CommonSettings.applyTo (o : CommonSettings) (p : Policy) : Except Error Policy := do
  let delimiter ← match o.delimiter with
    | some s => Policy.readDelimiter s
    | none => .ok p.delimiter
  return {
    strictNames := o.strictNames || p.strictNames
    allowEmptyStruct := o.allowEmptyStruct || p.allowEmptyStruct
    caseSensitive := !o.caseInsensitive && p.caseSensitive
    delimiter }

/-- The policy a command follows with a document. -/
def effectivePolicy (w : Surroundings) (o : CommonSettings) (c : Catalog) : Except Failure Policy :=
  orFail (o.applyTo (c.policyOver (Policy.ofEnvironment w.environment)))

/-- Resolves a definition and examines the result. -/
def resolveChecked (p : Policy) (c : Catalog) (name : String) : Except Failure Schema := do
  let s ← orFail (c.resolve p name)
  if s.isValid p then return s else .error (.improper (s.violations p))

/-- Checks one definition of a document, or all, and gives their number. -/
def validateDocument (w : Surroundings) (o : CommonSettings) (path : String)
    (definition : Option String) : Except Failure Nat := do
  let c ← loadCatalog w path
  let p ← effectivePolicy w o c
  match definition with
  | some name =>
    let _ ← resolveChecked p c name
    return 1
  | none =>
    if c.isValid p then
      let _ ← c.names.mapM (resolveChecked p c)
      return c.names.length
    else .error (.improper (c.violations p))

/-- The schema of a definition in a document. -/
def resolveInDocument (w : Surroundings) (o : CommonSettings) (path name : String) :
    Except Failure Schema := do
  let c ← loadCatalog w path
  let p ← effectivePolicy w o c
  resolveChecked p c name

/-- The merged schema of a definition in several documents. All are read before the first is
resolved, and all are resolved before anything is merged. -/
def mergeDocuments (w : Surroundings) (o : CommonSettings) (paths : List String) (name : String) :
    Except Failure Schema := do
  let catalogs ← paths.mapM (loadCatalog w)
  match catalogs with
  | [] => return []
  | first :: _ =>
    let p ← effectivePolicy w o first
    let parts ← catalogs.mapM fun c => resolveChecked p c name
    orFail (Schema.mergeAll p parts)

/-- The catalog that defines one name. -/
def Catalog.ofSchema (name : String) (s : Schema) : Catalog := Catalog.insert {} name s

/-- The fingerprints of one definition of a document, or of all, with their names. -/
def fingerprintDocument (w : Surroundings) (o : CommonSettings) (path : String)
    (definition : Option String) : Except Failure (List (String × Digest)) := do
  let c ← loadCatalog w path
  let p ← effectivePolicy w o c
  let names := match definition with
    | some name => [name]
    | none => c.names
  let schemas ← names.mapM (resolveChecked p c)
  return names.zip (schemas.map Schema.fingerprint)

/-- How two types reconcile, in words. -/
def describeWidening (left right : String) : Except Error String := do
  let a ← FieldType.ofText left
  let b ← FieldType.ofText right
  match a.widen b with
  | .equal => return a.name ++ " = " ++ b.name
  | .widensTo t => return a.name ++ " + " ++ b.name ++ " -> " ++ t.name
  | .incompatible => return a.name ++ " and " ++ b.name ++ " are incompatible"

/-- Carries out a command and gives what it prints. -/
def Invocation.execute (w : Surroundings) (i : Invocation) : Except Failure String := do
  match i.command with
  | .validate file definition =>
    let count ← validateDocument w i.settings file definition
    return "✓ " ++ toString count ++ " definition(s) valid\n"
  | .render file definition =>
    let s ← resolveInDocument w i.settings file definition
    return s.text ++ "\n"
  | .merge definition files asDocument =>
    let s ← mergeDocuments w i.settings files definition
    return if asDocument then (Catalog.ofSchema definition s).toYaml else s.text ++ "\n"
  | .fingerprint file definition =>
    let rows ← fingerprintDocument w i.settings file definition
    return Text.join "" (rows.map fun r => r.2.hex ++ "  " ++ r.1 ++ "\n")
  | .widen left right =>
    let text ← orFail (describeWidening left right)
    return text ++ "\n"

/-- How a run of the program ends. -/
inductive Outcome where
  /-- The arguments are no proper invocation. -/
  | misuse
  | failure (message : String)
  | success (output : String)

/-- Runs the program on its arguments. -/
def run (w : Surroundings) (arguments : List String) : Outcome :=
  match Invocation.ofArguments? arguments with
  | none => .misuse
  | some i =>
    match i.execute w with
    | .ok output => .success output
    | .error e => .failure ("Error: " ++ e.message ++ "\n")

end RecordSchema
