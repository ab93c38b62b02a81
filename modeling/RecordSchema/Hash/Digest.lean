import RecordSchema.Hash.Blake3
import RecordSchema.Json.Basic

/-!
# Digests

A `Digest` is 32 bytes that stand for a text. Its hexadecimal form is 64 lower-case digits. The
digest of a JSON value is that of its compact text in UTF-8.
-/

namespace RecordSchema

/-- A hash of 256 bits. -/
structure Digest where
  bytes : List UInt8
  size_eq : bytes.length = 32
  deriving DecidableEq

namespace Digest

/-- The digest with these bytes, of which there have to be 32. -/
def ofBytes? (bytes : List UInt8) : Option Digest :=
  if h : bytes.length = 32 then some ⟨bytes, h⟩ else none

/-- The two digits of a byte. -/
def hexByte (b : UInt8) : List Char := [Text.hexDigit (b.toNat / 16), Text.hexDigit (b.toNat % 16)]

/-- The hexadecimal form. -/
def hex (d : Digest) : String := String.ofList (d.bytes.flatMap hexByte)

end Digest

/-- A digest has 32 bytes, whatever was digested: the root gives eight words, and four bytes come
from each. -/
theorem Blake3.length_hash (bytes : Array UInt8) : (Blake3.hash bytes).length = 32 := by
  unfold hash
  generalize (subtree bytes 64 0 ((bytes.size + 1023) / 1024)).digest = words
  have h : words.toList.length = 8 := words.length_toList
  have hsum : ∀ l : List UInt32, (l.flatMap wordBytes).length = 4 * l.length := fun l => by
    induction l with
    | nil => rfl
    | cons w l ih => simp only [List.flatMap_cons, List.length_append, ih, wordBytes,
        List.length_cons, List.length_nil]; omega
  rw [hsum, h]

namespace Digest

/-- The digest of bytes. -/
def ofData (bytes : Array UInt8) : Digest := ⟨Blake3.hash bytes, Blake3.length_hash bytes⟩

/-- The digest of a JSON value. -/
def ofJson (j : Json) : Digest := ofData j.compact.toUTF8.data

end Digest
end RecordSchema
