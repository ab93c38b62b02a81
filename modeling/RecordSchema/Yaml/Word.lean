import RecordSchema.Text.Hex

/-!
# Words that mean something

Plain scalars that a reader without a type in mind takes for something else than a string: nothing
at all, a truth value, an integer, a floating point number. A writer has to quote strings that
look like one.

Integers are decimal, or hexadecimal, octal and binary after `0x`, `0o` and `0b`, and fit into 128
bits. Floating point numbers are decimal and finite, or one of the words `.inf` and `.nan`. Digits
after a leading zero are neither.
-/

namespace RecordSchema
namespace Yaml

/-- Words for a missing value. -/
def isNullWord (s : String) : Bool := ["null", "Null", "NULL", "~"].contains s

/-- The truth value that a word stands for. -/
def truthWord? (s : String) : Option Bool :=
  if ["true", "True", "TRUE"].contains s then some true
  else if ["false", "False", "FALSE"].contains s then some false
  else none

/-- The characters without one of the signs listed in front. -/
def dropSign (signs : List Char) : List Char → List Char
  | [] => []
  | c :: cs => if signs.contains c then cs else c :: cs

/-- Whether digits follow a leading zero. -/
def isZeroPadded (cs : List Char) : Bool :=
  match dropSign ['+', '-'] cs with
  | '0' :: d :: rest => d.isDigit && rest.all Char.isDigit
  | _ => false

/-- The value of a digit in a base up to sixteen. -/
def digitIn? (base : Nat) (c : Char) : Option Nat := (Text.hexValue? c).filter (· < base)

/-- The number that digits write; there is at least one. -/
def natIn? (base : Nat) (cs : List Char) : Option Nat :=
  if cs.isEmpty then none
  else cs.foldl (fun n c => do return (← n) * base + (← digitIn? base c)) (some 0)

/-- The bases written with letters in front. -/
def baseOf? : List Char → Option Nat
  | ['0', 'x'] => some 16
  | ['0', 'o'] => some 8
  | ['0', 'b'] => some 2
  | _ => none

/-- The number that digits with or without letters in front write. -/
def magnitude? (cs : List Char) : Option Nat :=
  match baseOf? (cs.take 2) with
  | some base => natIn? base (cs.drop 2)
  | none => natIn? 10 cs

/-- The integer from 0 up to `limit` that a word writes, with a plus sign or without one. -/
def unsigned? (limit : Nat) (cs : List Char) : Option Nat :=
  if isZeroPadded cs then none else (magnitude? (dropSign ['+'] cs)).filter (· ≤ limit)

/-- Whether a word writes an integer of at most 128 bits. -/
def isIntegerWord (cs : List Char) : Bool :=
  match cs with
  | '-' :: rest => !isZeroPadded cs && ((magnitude? rest).filter (· ≤ Nat.pow 2 127)).isSome
  | _ => (unsigned? (Nat.pow 2 128 - 1) cs).isSome

/-- A decimal number `digits · 10 ^ exponent`. -/
structure Decimal where
  digits : Nat
  exponent : Int

/-- The sign and the digits of an exponent. -/
def exponent? : List Char → Option Int
  | '-' :: cs => (natIn? 10 cs).map fun n => -(n : Int)
  | '+' :: cs => (natIn? 10 cs).map Int.ofNat
  | cs => (natIn? 10 cs).map Int.ofNat

/-- The decimal number without sign that a word writes: digits with at most one point among or
around them, and perhaps an exponent. -/
def decimal? (cs : List Char) : Option Decimal := do
  let whole := cs.takeWhile Char.isDigit
  let rest := cs.dropWhile Char.isDigit
  let (fraction, rest) :=
    match rest with
    | '.' :: after => (after.takeWhile Char.isDigit, after.dropWhile Char.isDigit)
    | _ => ([], rest)
  let digits ← natIn? 10 (whole ++ fraction)
  let exponent ←
    match rest with
    | [] => some 0
    | c :: after => if c = 'e' ∨ c = 'E' then exponent? after else none
  return ⟨digits, exponent - fraction.length⟩

/-- Whether the nearest number of 64-bit floating point is finite: the decimal lies below the
middle between the largest such number and the next power of two. -/
def Decimal.isFinite (d : Decimal) : Bool :=
  let bound := Nat.pow 2 1024 - Nat.pow 2 970
  if d.digits = 0 then true
  else if d.exponent < 0 then
    -- so many digits are needed to reach the bound that a long enough exponent settles it
    let shift := d.exponent.natAbs
    if (Nat.toDigits 10 d.digits).length < shift then true else d.digits < bound * Nat.pow 10 shift
  else if 309 < d.exponent then false
  else d.digits * Nat.pow 10 d.exponent.toNat < bound

/-- Whether a word writes a floating point number. -/
def isFloatWord (cs : List Char) : Bool :=
  let word := String.ofList cs
  let bare := dropSign ['+'] cs
  let signedTwice := cs.head? == some '+' && (bare.head? == some '+' || bare.head? == some '-')
  if signedTwice then false
  else
    [".inf", ".Inf", ".INF"].contains (String.ofList bare) ||
      ["-.inf", "-.Inf", "-.INF", ".nan", ".NaN", ".NAN"].contains word ||
      ((decimal? (dropSign ['-'] bare)).map Decimal.isFinite).getD false

/-- Whether a plain scalar of this text is anything else than a string. -/
def isMeaningful (s : String) : Bool :=
  let cs := s.toList
  s.isEmpty || isNullWord s || (truthWord? s).isSome || isIntegerWord cs || isZeroPadded cs ||
    isFloatWord cs

example :
    ["", "~", "TRUE", "-0x1F", "+7", "007", "1.", ".5", "1e3", "-.inf", ".NaN"].all isMeaningful ∧
      ["yes", "1_000", "0x", "inf", "nan", "1e400", "1e", ".", "-", "+-1", "tRue"].all
        fun s => !isMeaningful s := by decide +kernel

end Yaml
end RecordSchema
