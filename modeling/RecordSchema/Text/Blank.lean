/-!
# White space around a word

`isBlank` is the Unicode property White_Space, `trim` drops such characters from both ends of a
text. Nothing inside the text is touched.
-/

namespace RecordSchema
namespace Text

/-- The Unicode property White_Space: 25 characters in ten runs. -/
def isBlank (c : Char) : Bool :=
  let n := c.toNat
  (9 ≤ n && n ≤ 13) || n == 0x20 || n == 0x85 || n == 0xA0 || n == 0x1680 ||
    (0x2000 ≤ n && n ≤ 0x200A) || n == 0x2028 || n == 0x2029 || n == 0x202F || n == 0x205F ||
    n == 0x3000

/-- The text without white space at its two ends. -/
def trim (s : String) : String :=
  String.ofList ((s.toList.dropWhile isBlank).reverse.dropWhile isBlank).reverse

example : trim "\u00a0 Int\t\n" = "Int" := by decide +kernel

end Text
end RecordSchema
