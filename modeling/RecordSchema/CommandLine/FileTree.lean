import RecordSchema.Text.Join

/-!
# Files and paths

The files that a command can read, and what a path leads to among them. A path is followed name by
name, from the working directory or, when it starts with `/`, from the outermost one. An empty
name and `.` stay in a directory, and `..` goes back to the one around it. Only a path that ends at
a file has a text; `ReadFault` says why another has none.

| path, where `a` is a file | result |
| --- | --- |
| `a`, `./a`, `.//a` | the text of the file |
| `a/`, `a/.`, `a/b` | `notDirectory` |
| `.`, `./`, `..`, `/` | `isDirectory` |
| `b`, `b/..` | `missing` |
-/

namespace RecordSchema

/-- Why a path gives no text. -/
inductive ReadFault where
  /-- There is nothing of a name on the path. -/
  | missing
  /-- The path goes on after a file. -/
  | notDirectory
  /-- The path ends at a directory. -/
  | isDirectory
  /-- A name or the whole path has too many bytes. -/
  | nameTooLong
  /-- The file is not a text in UTF-8. -/
  | notText
  /-- Another reason, in the words of the system and with their number. -/
  | system (reason : String) (code : Nat)
  deriving DecidableEq

/-- The wording of what the system reports. -/
def ReadFault.systemMessage (reason : String) (code : Nat) : String :=
  reason ++ " (os error " ++ toString code ++ ")"

/-- The wording of a fault. -/
def ReadFault.message : ReadFault → String
  | missing => systemMessage "No such file or directory" 2
  | notDirectory => systemMessage "Not a directory" 20
  | isDirectory => systemMessage "Is a directory" 21
  | nameTooLong => systemMessage "File name too long" 36
  | notText => "stream did not contain valid UTF-8"
  | system reason code => systemMessage reason code

/-- Files with their texts, each with the names on the way to it from the outermost directory, and
the directory that paths start from. -/
structure FileTree where
  working : List String
  files : List (List String × String)

namespace FileTree

/-- What a path leads to. -/
inductive Place where
  | directory (names : List String)
  | file (text : String)

/-- Whether there is a directory: it lies on the way to a file or to the working directory. -/
def hasDirectory (t : FileTree) (names : List String) : Bool :=
  names.isPrefixOf t.working || t.files.any fun f => names.isPrefixOf f.1

/-- What names lead to from the outermost directory. -/
def place? (t : FileTree) (names : List String) : Option Place :=
  match t.files.lookup names with
  | some text => some (.file text)
  | none => if t.hasDirectory names then some (.directory names) else none

/-- Follows one more name of a path. -/
def step (t : FileTree) : Place → String → Except ReadFault Place
  | .file _, _ => .error .notDirectory
  | .directory names, name =>
    if name = "" ∨ name = "." then .ok (.directory names)
    else if name = ".." then .ok (.directory names.dropLast)
    else if name.utf8ByteSize > 255 then .error .nameTooLong
    else
      match t.place? (names ++ [name]) with
      | some place => .ok place
      | none => .error .missing

/-- The names of the directory that a path starts from. -/
def origin (t : FileTree) (path : String) : List String :=
  if path.toList.head? = some '/' then [] else t.working

/-- The text of the file that a path leads to. A path has less than 4096 bytes. -/
def read (t : FileTree) (path : String) : Except ReadFault String := do
  if path.utf8ByteSize ≥ 4096 then .error .nameTooLong
  else
    match ← (Text.split '/' path).foldlM t.step (.directory (t.origin path)) with
    | .file text => .ok text
    | .directory _ => .error .isDirectory

/-- The tree of files that lie in one directory or below it, with that directory to start from. -/
def ofFiles (working : List String) (files : List (String × String)) : FileTree where
  working := working
  files := files.map fun f =>
    (working ++ (Text.split '/' f.1).filter fun name => name ≠ "" && name ≠ ".", f.2)

/-- Paths about a single file in the working directory. -/
example :
    let t := ofFiles ["tmp", "work"] [("a", "text")]
    t.read "./a" = .ok "text" ∧ t.read "../work//a" = .ok "text" ∧
      t.read "a/" = .error .notDirectory ∧ t.read "a/.." = .error .notDirectory ∧
      t.read "." = .error .isDirectory ∧ t.read "../../.." = .error .isDirectory ∧
      t.read "b" = .error .missing ∧ t.read "b/../a" = .error .missing ∧
      t.read "/a" = .error .missing := by
  refine ⟨rfl, rfl, rfl, rfl, rfl, rfl, rfl, rfl, rfl⟩

end FileTree
end RecordSchema
