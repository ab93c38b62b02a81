import RecordSchema.Text.CaseRuns

/-!
# Lower case

`lowercase` is full Unicode lower-casing of a text. Letters are mapped one by one except in two
places: `İ` becomes `i` and a combining dot, and a capital sigma that ends a word becomes `ς`
instead of `σ`. A sigma ends a word when the nearest character before it that is not
Case_Ignorable is Cased and the nearest one after it is not.

`asciiLowercase` changes `A` … `Z` alone.
-/

namespace RecordSchema
namespace Text

/-- Greek capital sigma, the one letter whose lower case depends on its neighbours. -/
def capitalSigma : Char := '\u03a3'

/-- The lower-case form of a letter away from the end of a word. -/
def lowerChar (c : Char) : List Char :=
  if c.toNat < 0x80 then [c.toLower]
  else if c = '\u0130' then ['i', '\u0307']
  else
    match lowerRuns.find? fun r =>
        r.1 ≤ c.toNat && c.toNat ≤ r.2.1 && (c.toNat - r.1) % r.2.2.1 == 0 with
    | some r => [Char.ofNat (r.2.2.2 + (c.toNat - r.1))]
    | none => [c]

/-- Whether the first character that is not passed over has case. -/
def meetsCased (cs : List Char) : Bool :=
  match cs.dropWhile (inRuns ignorableRuns) with
  | c :: _ => inRuns casedRuns c
  | [] => false

/-- Lower-cases `cs`, where `before` holds the characters in front of it, nearest first. -/
def lowerFrom (before : List Char) : List Char → List Char
  | [] => []
  | c :: cs =>
    (if c = capitalSigma then
        if meetsCased before && !meetsCased cs then ['\u03c2'] else ['\u03c3']
      else lowerChar c) ++ lowerFrom (c :: before) cs

/-- The text in lower case. -/
def lowercase (s : String) : String := String.ofList (lowerFrom [] s.toList)

/-- The text with the letters `A` … `Z` in lower case and all else as it was. -/
def asciiLowercase (s : String) : String := String.ofList (s.toList.map Char.toLower)

example : lowercase "ΟΔΟΣ ΣΑΣ Σ" = "οδος σας σ" := by decide +kernel

example : lowercase "İÀ\u1e9e" = "i\u0307à\u00df" := by decide +kernel

end Text
end RecordSchema
