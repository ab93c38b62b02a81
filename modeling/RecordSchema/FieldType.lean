import RecordSchema.Text.Blank
import RecordSchema.Text.Lowercase

/-!
# Field types

The closed vocabulary of types a field can have. Constructors stand in the alphabetical order of
their tags, which is the order types are sorted in.

`name` is the one canonical tag of a type and `ofName?` reads exactly the tags. `ofText?` is
lenient: it drops white space at the ends, takes any case of the letters `A` … `Z`, and knows the
names that data sources commonly report for their own types.
-/

namespace RecordSchema

/-- The types of a field. `struct` is the only one whose fields own a nested schema. -/
inductive FieldType where
  | bigInt
  | binary
  | boolean
  | date
  | decimal
  | double
  | float
  | int
  | long
  | short
  | string
  | struct
  | timestamp
  deriving DecidableEq, Repr, Ord

namespace FieldType

/-- Every type, in order. -/
def all : List FieldType :=
  [bigInt, binary, boolean, date, decimal, double, float, int, long, short, string, struct,
    timestamp]

/-- Every type is listed, so that a search through the list misses none. -/
theorem mem_all (t : FieldType) : t ∈ all := by cases t <;> decide

/-- The canonical tag. -/
def name : FieldType → String
  | bigInt => "BigInt"
  | binary => "Binary"
  | boolean => "Boolean"
  | date => "Date"
  | decimal => "Decimal"
  | double => "Double"
  | float => "Float"
  | int => "Int"
  | long => "Long"
  | short => "Short"
  | string => "String"
  | struct => "Struct"
  | timestamp => "Timestamp"

/-- Types with the same tag are the same, so a type is told by its tag in a printed schema. -/
theorem name_injective {s t : FieldType} (h : s.name = t.name) : s = t := by
  cases s <;> cases t <;> first | rfl | (revert h; decide)

/-- Whole numbers, decimals and floating point numbers. -/
def isNumeric : FieldType → Bool
  | bigInt | decimal | double | float | int | long | short => true
  | _ => false

/-- Types of points in time. -/
def isTemporal : FieldType → Bool
  | date | timestamp => true
  | _ => false

/-- Whether fields of the type own a nested schema. -/
def isStruct : FieldType → Bool
  | struct => true
  | _ => false

/-- The type with exactly this tag. -/
def ofName? (s : String) : Option FieldType := all.find? fun t => t.name = s

/-- A type is read back from its tag, as a document that was written has it. -/
theorem ofName?_name (t : FieldType) : ofName? t.name = some t := by cases t <;> decide

/-- The lower-case spellings of a type: its tag first, then the names sources use for it. -/
def spellings : FieldType → List String
  | bigInt => ["bigint", "biginteger", "int128"]
  | binary => ["binary", "bytes", "blob"]
  | boolean => ["boolean", "bool"]
  | date => ["date", "date32"]
  | decimal => ["decimal", "numeric", "decimal128"]
  | double => ["double", "float64", "f64"]
  | float => ["float", "float32", "f32", "real"]
  | int => ["int", "integer", "int32", "i32"]
  | long => ["long", "int64", "i64"]
  | short => ["short", "smallint", "int16", "i16"]
  | string => ["string", "utf8", "varchar", "text"]
  | struct => ["struct", "record"]
  | timestamp => ["timestamp", "datetime", "date64"]

/-- The type a text names, in any of its spellings. -/
def ofText? (s : String) : Option FieldType :=
  let word := Text.asciiLowercase (Text.trim s)
  all.find? fun t => t.spellings.contains word

/-- Whether `a` stands no later than `b` in the order of types. -/
def atMost (a b : FieldType) : Bool := (compare a b).isLE

/-- The types in order. -/
def sort (ts : List FieldType) : List FieldType := ts.mergeSort atMost

example : ofText? " VarChar\n" = some string ∧ ofText? "geometry" = none := by decide +kernel

end FieldType
end RecordSchema
