import RecordSchema.CommandLine.Commands

/-!
# The program

Reads the arguments, the variables and the files that the command names, carries the command out,
and prints what it gives: output to standard output, a failure to standard error. The exit status
is 0, 1 after a failure, and 2 when the arguments are no proper invocation.
-/

namespace RecordSchema

/-- The files that a command reads. -/
def Command.files : Command → List String
  | validate file _ => [file]
  | render file _ => [file]
  | merge _ files _ => files
  | fingerprint file _ => [file]
  | widen _ _ => []

/-- The fault with a number, which the system may give as it is or negated in 32 bits. -/
def ReadFault.ofNumber (reason : String) (code : UInt32) : ReadFault :=
  match min code.toNat (0x100000000 - code.toNat) with
  | 2 => .missing
  | 20 => .notDirectory
  | 21 => .isDirectory
  | 36 => .nameTooLong
  | number => .system reason number

/-- Why the system gave no text. -/
def ReadFault.ofSystem : IO.Error → ReadFault
  | .noFileOrDirectory _ _ _ => .missing
  | .permissionDenied _ code reason => .ofNumber reason code
  | .inappropriateType _ code reason => .ofNumber reason code
  | .invalidArgument _ code reason => .ofNumber reason code
  | .resourceExhausted _ code reason => .ofNumber reason code
  | .otherError code reason => .ofNumber reason code
  | _ => .notText

/-- What reading the files that the arguments name gives. -/
def readFiles (arguments : List String) : IO (List (String × Except ReadFault String)) := do
  let paths : List String := ((Invocation.ofArguments? arguments).map fun i => i.command.files).getD []
  let mut read : List (String × Except ReadFault String) := []
  for path in paths do
    try
      read := (path, .ok (← IO.FS.readFile path)) :: read
    catch e => read := (path, .error (ReadFault.ofSystem e)) :: read
  return read

/-- The variables of the environment that policies come from. -/
def readVariables : IO (List (String × String)) := do
  let mut read : List (String × String) := []
  for name in Policy.environmentNames do
    match ← IO.getEnv name with
    | some value => read := (name, value) :: read
    | none => pure ()
  return read

end RecordSchema

open RecordSchema in
/-- Runs the program. -/
def main (arguments : List String) : IO UInt32 := do
  let files ← readFiles arguments
  let environment ← readVariables
  let surroundings : Surroundings :=
    ⟨fun name => environment.lookup name, fun path => (files.lookup path).getD (.error .missing)⟩
  match run surroundings arguments with
  | .misuse =>
    IO.eprintln "usage: [OPTIONS] (validate | render | merge | fingerprint | widen) [ARGUMENTS]"
    return 2
  | .failure message =>
    IO.eprint message
    return 1
  | .success output =>
    IO.print output
    return 0
