/-!
# Hexadecimal digits

The digits `0` … `9` and `a` … `f`, the letters in either case. Writing a number below sixteen and
reading the digit gives the number back (`hexValue?_hexDigit`, `hexValue?_upperHexDigit`).
-/

namespace RecordSchema
namespace Text

/-- The value of a digit in either case. -/
def hexValue? (c : Char) : Option Nat :=
  if c.isDigit then some (c.toNat - 0x30)
  else if 'a' ≤ c ∧ c ≤ 'f' then some (c.toNat - 0x57)
  else if 'A' ≤ c ∧ c ≤ 'F' then some (c.toNat - 0x37)
  else none

/-- The digit of a number below sixteen, in lower case. -/
def hexDigit (n : Nat) : Char :=
  if n < 10 then Char.ofNat (0x30 + n) else Char.ofNat (0x57 + n)

/-- The digit of a number below sixteen, in upper case. -/
def upperHexDigit (n : Nat) : Char :=
  if n < 10 then Char.ofNat (0x30 + n) else Char.ofNat (0x37 + n)

/-- A digit below 16 is read back from its lower-case letter or figure, so that two bytes in
hexadecimal form are the same only when they are equal. -/
theorem hexValue?_hexDigit {n : Nat} (h : n < 16) : hexValue? (hexDigit n) = some n := by
  have all : ∀ i : Fin 16, hexValue? (hexDigit i) = some i.val := by decide +kernel
  exact all ⟨n, h⟩

/-- A digit below 16 is read back from its upper-case letter or figure, too, as it stands in the
escapes of a quoted text. -/
theorem hexValue?_upperHexDigit {n : Nat} (h : n < 16) :
    hexValue? (upperHexDigit n) = some n := by
  have all : ∀ i : Fin 16, hexValue? (upperHexDigit i) = some i.val := by decide +kernel
  exact all ⟨n, h⟩

end Text
end RecordSchema
