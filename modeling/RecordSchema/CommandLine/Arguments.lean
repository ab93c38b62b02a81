import RecordSchema.Text.Join

/-!
# Arguments of the command line

`Invocation.ofArguments?` reads the arguments of the program: options that every command has, a
command, and the options and operands of that command. The options that every command has may
stand before the command or after it.

| written | means |
| --- | --- |
| `--name value`, `--name=value` | a long option with its value |
| `-nvalue`, `-n value`, `-n=value` | a short option with its value |
| `-vv` | short options without value, in one word |
| `--` | the end of the options |

A word that starts with `-`, the lone `-` apart, is never an operand or a separate value before
the end of the options. Options are given once at most, except those that count.
-/

namespace RecordSchema

/-- An option: its long name, its letter, whether it takes a value, whether it may be repeated. -/
structure OptionForm where
  long : String
  short : Option Char := none
  takesValue : Bool := false
  repeatable : Bool := false

/-- Options found, with the values of those that take one, and operands. -/
structure Found where
  options : List (String × Option String) := []
  operands : List String := []

namespace Found

/-- Whether an option was given. -/
def has (f : Found) (long : String) : Bool := f.options.any fun o => o.1 == long

/-- The value of an option. -/
def value? (f : Found) (long : String) : Option String :=
  f.options.findSome? fun o => if o.1 = long then o.2 else none

/-- Adds an option, which must not have been given before unless it may be repeated. -/
def add (f : Found) (form : OptionForm) (value : Option String) : Option Found :=
  if f.has form.long && !form.repeatable then none
  else some { f with options := f.options ++ [(form.long, value)] }

end Found

/-- Options that take effect at all commands. -/
def commonOptions : List OptionForm := [
  { long := "verbose", short := some 'v', repeatable := true },
  { long := "strict-names" },
  { long := "allow-empty-struct" },
  { long := "case-insensitive" },
  { long := "delimiter", takesValue := true }]

/-- Whether a word can be an operand or a separate value. -/
def isOperand (word : String) : Bool := word == "-" || word.toList.head? != some '-'

/-- What a word with an option in it asks for. -/
inductive Asked where
  /-- The options are complete. -/
  | complete (f : Found)
  /-- The last option needs the next word for its value. -/
  | needsValue (f : Found) (form : OptionForm)

/-- Reads a long option without its two dashes. -/
def readLong (forms : List OptionForm) (f : Found) (cs : List Char) : Option Asked := do
  let name := String.ofList (cs.takeWhile (· ≠ '='))
  let form ← forms.find? fun o => o.long = name
  match cs.dropWhile (· ≠ '='), form.takesValue with
  | [], false => return .complete (← f.add form none)
  | [], true => return .needsValue f form
  | _ :: value, true => return .complete (← f.add form (some (String.ofList value)))
  | _ :: _, false => none

/-- Reads short options without their dash. -/
def readShort (forms : List OptionForm) (f : Found) : List Char → Option Asked
  | [] => some (.complete f)
  | c :: rest => do
    let form ← forms.find? fun o => o.short = some c
    if form.takesValue then
      match rest with
      | [] => return .needsValue f form
      | '=' :: value => return .complete (← f.add form (some (String.ofList value)))
      | value => return .complete (← f.add form (some (String.ofList value)))
    else readShort forms (← f.add form none) rest

/-- Reads the option that a word starts. -/
def readOption (forms : List OptionForm) (f : Found) (word : String) : Option Asked :=
  match word.toList with
  | '-' :: '-' :: cs => readLong forms f cs
  | '-' :: cs => readShort forms f cs
  | _ => none

/-- Reads options and operands. After `single` operands the words left over are not looked at. -/
def readWords (forms : List OptionForm) (single : Option Nat) (f : Found) :
    List String → Option (Found × List String)
  | [] => some (f, [])
  | word :: rest =>
    if single = some f.operands.length then some (f, word :: rest)
    else if word = "--" then
      if single.isSome then none else some ({ f with operands := f.operands ++ rest }, [])
    else if isOperand word then
      readWords forms single { f with operands := f.operands ++ [word] } rest
    else
      match readOption forms f word with
      | none => none
      | some (.complete f) => readWords forms single f rest
      | some (.needsValue f form) =>
        match rest with
        | [] => none
        | value :: rest =>
          if isOperand value then do
            let f ← f.add form (some value)
            readWords forms single f rest
          else none

/-- What the common options ask for. -/
structure CommonSettings where
  strictNames : Bool := false
  allowEmptyStruct : Bool := false
  caseInsensitive : Bool := false
  delimiter : Option String := none

/-- What the program is to do. -/
inductive Command where
  /-- Check all definitions of a document, or one. -/
  | validate (file : String) (definition : Option String)
  /-- Print the canonical text of a definition. -/
  | render (file definition : String)
  /-- Merge a definition of several documents. -/
  | merge (definition : String) (files : List String) (asDocument : Bool)
  /-- Print the fingerprints of all definitions of a document, or of one. -/
  | fingerprint (file : String) (definition : Option String)
  /-- Say how two types reconcile. -/
  | widen (left right : String)

/-- A command with the settings it runs under. -/
structure Invocation where
  settings : CommonSettings
  command : Command

/-- The option that names a document. -/
def fileOption : OptionForm := { long := "file", short := some 'f', takesValue := true }

/-- The option that names a definition. -/
def schemaOption : OptionForm := { long := "schema", short := some 's', takesValue := true }

/-- The options of a command besides the common ones. -/
def commandOptions : String → Option (List OptionForm)
  | "validate" => some [fileOption, schemaOption]
  | "render" => some [fileOption, schemaOption]
  | "merge" => some [schemaOption, { long := "yaml" }]
  | "fingerprint" => some [fileOption, schemaOption]
  | "widen" => some []
  | _ => none

/-- The path that an option names. A path is not empty. -/
def Found.path? (f : Found) (long : String) : Option String :=
  (f.value? long).filter fun path => !path.isEmpty

/-- The command of a name with its options and operands. -/
def Command.ofFound? (f : Found) : String → Option Command
  | "validate" => do
    if !f.operands.isEmpty then none
    else return .validate (← f.path? "file") (f.value? "schema")
  | "render" => do
    if !f.operands.isEmpty then none
    else return .render (← f.path? "file") (← f.value? "schema")
  | "merge" => do
    if f.operands.isEmpty || f.operands.any String.isEmpty then none
    else return .merge (← f.value? "schema") f.operands (f.has "yaml")
  | "fingerprint" => do
    if !f.operands.isEmpty then none
    else return .fingerprint (← f.path? "file") (f.value? "schema")
  | "widen" =>
    match f.operands with
    | [left, right] => some (.widen left right)
    | _ => none
  | _ => none

/-- The settings of common options before the command and after it. A switch may stand in either
place, and of two delimiters the one after the command counts. -/
def CommonSettings.of (before after : Found) : CommonSettings where
  strictNames := before.has "strict-names" || after.has "strict-names"
  allowEmptyStruct := before.has "allow-empty-struct" || after.has "allow-empty-struct"
  caseInsensitive := before.has "case-insensitive" || after.has "case-insensitive"
  delimiter := (after.value? "delimiter").or (before.value? "delimiter")

/-- Reads the arguments; nothing when they are not a proper invocation. -/
def Invocation.ofArguments? (arguments : List String) : Option Invocation := do
  let (before, rest) ← readWords commonOptions (some 1) {} arguments
  let name ← before.operands.head?
  let forms ← commandOptions name
  let (after, _) ← readWords (forms ++ commonOptions) none {} rest
  let command ← Command.ofFound? after name
  return ⟨CommonSettings.of before after, command⟩

end RecordSchema
