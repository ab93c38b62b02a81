import RecordSchema.Text.Hex

/-!
# JSON values

The values of JSON text, and their compact form: no white space, members in order. A string
escapes only the quotation mark, the backslash and the characters below U+0020; five of the last
have a short escape, the others are `\u00xx` with lower-case digits.

A number is kept as it is written. A string can escape half of a surrogate pair, which is proper
JSON and stands for no text; such a string has the content `none`.
-/

namespace RecordSchema

/-- A JSON value. Members of an object keep their order, and names may repeat. -/
inductive Json where
  | null
  | bool (value : Bool)
  /-- A number as it is written. -/
  | number (written : String)
  /-- A string, `none` when it holds half of a surrogate pair. -/
  | string (content : Option String)
  | array (items : List Json)
  | object (members : List (Option String × Json))
  deriving Inhabited

namespace Json

/-- The string with this text. -/
def text (s : String) : Json := .string (some s)

/-- The object with these members. -/
def record (members : List (String × Json)) : Json :=
  .object (members.map fun e => (some e.1, e.2))

/-- The number of a natural number. -/
def nat (n : Nat) : Json := .number (toString n)

/-- A character as it stands inside a string. -/
def escapeChar (c : Char) : List Char :=
  if c = '\x22' then ['\\', '\x22']
  else if c = '\\' then ['\\', '\\']
  else if 0x20 ≤ c.toNat then [c]
  else if c = '\x08' then ['\\', 'b']
  else if c = '\x0c' then ['\\', 'f']
  else if c = '\n' then ['\\', 'n']
  else if c = '\r' then ['\\', 'r']
  else if c = '\t' then ['\\', 't']
  else ['\\', 'u', '0', '0', Text.hexDigit (c.toNat / 16), Text.hexDigit (c.toNat % 16)]

/-- A string with its quotation marks. The first surrogate stands for any content without text. -/
def quote (content : Option String) : List Char :=
  '\x22' ::
    (match content with
      | some s => s.toList.flatMap escapeChar
      | none => ['\\', 'u', 'd', '8', '0', '0']) ++ ['\x22']

mutual

/-- The compact form of a value. -/
def chars : Json → List Char
  | null => "null".toList
  | bool true => "true".toList
  | bool false => "false".toList
  | number written => written.toList
  | string content => quote content
  | array [] => ['[', ']']
  | array (item :: items) => '[' :: chars item ++ itemChars items
  | object [] => ['{', '}']
  | object ((name, value) :: members) =>
    '{' :: quote name ++ ':' :: chars value ++ memberChars members

/-- The items after the first, and the end of the array. -/
def itemChars : List Json → List Char
  | [] => [']']
  | item :: items => ',' :: chars item ++ itemChars items

/-- The members after the first, and the end of the object. -/
def memberChars : List (Option String × Json) → List Char
  | [] => ['}']
  | (name, value) :: members => ',' :: quote name ++ ':' :: chars value ++ memberChars members

end

/-- The compact text of a value. -/
def compact (j : Json) : String := String.ofList j.chars

example :
    (record [("a", .array [.null, .bool true]), ("b\n\u0001", .text "\x22é")]).compact =
      "\x7b\"a\":[null,true],\"b\\n\\u0001\":\"\\\"é\"\x7d" := by decide +kernel

end Json
end RecordSchema
