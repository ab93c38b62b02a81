import RecordSchema.Proofs.Document.JsonRoundTrip

/-!
# What a fingerprint tells apart

From a schema to the hexadecimal form of its fingerprint there are four steps: JSON, its compact
text, the bytes of the text, their hash, and the digits of the hash. All but the hash lose nothing.
A schema can be read back from its JSON at any depth, a reader that is not limited takes the text
apart again, and two digits give back their byte. So whoever trusts the hash not to collide on what
two schemas are written as can compare their fingerprints in place of the schemas.
-/

namespace RecordSchema

/-- Digits below 16 with the same letter or figure are equal, since they are read back from it. -/
theorem Text.hexDigit_injective {m n : Nat} (hm : m < 16) (hn : n < 16)
    (h : hexDigit m = hexDigit n) : m = n := by
  have hvalue := hexValue?_hexDigit hm
  rw [h, hexValue?_hexDigit hn] at hvalue
  exact (Option.some.inj hvalue).symm

namespace Digest

/-- Two digits stand for one byte, the upper half first. Each half is below sixteen, where a digit
tells its value. -/
theorem hexByte_injective {a b : UInt8} (h : hexByte a = hexByte b) : a = b := by
  obtain ⟨hhigh, hlow⟩ := List.cons.inj h
  have ha := a.toNat_lt
  have hb := b.toNat_lt
  have hdiv : a.toNat / 16 = b.toNat / 16 :=
    Text.hexDigit_injective (by omega) (by omega) hhigh
  have hmod : a.toNat % 16 = b.toNat % 16 :=
    Text.hexDigit_injective (by omega) (by omega) (List.cons.inj hlow).1
  exact UInt8.toNat_inj.mp (by omega)

/-- Bytes written one after the other are told apart, as each takes two digits. With digits of
varying number this would fail, since the end of a byte could not be told. -/
theorem flatMap_hexByte_injective :
    ∀ {as bs : List UInt8}, as.flatMap hexByte = bs.flatMap hexByte → as = bs
  | [], [], _ => rfl
  | [], _ :: _, h => nomatch h
  | _ :: _, [], h => nomatch h
  | a :: as, b :: bs, h => by
    have happend : hexByte a ++ as.flatMap hexByte = hexByte b ++ bs.flatMap hexByte := h
    obtain ⟨hbyte, hrest⟩ := List.append_inj happend rfl
    rw [hexByte_injective hbyte, flatMap_hexByte_injective hrest]

/-- Digests with the same hexadecimal form are equal. -/
theorem hex_injective {d e : Digest} (h : d.hex = e.hex) : d = e := by
  obtain ⟨bytes, hsize⟩ := d
  obtain ⟨others, hothers⟩ := e
  obtain rfl : bytes = others := flatMap_hexByte_injective (String.ofList_injective h)
  rfl

end Digest

namespace Schema

/-- The bytes that the fingerprint of a schema is the hash of. -/
def encoded (s : Schema) : ByteArray := s.toJson.compact.toUTF8

/-- The bytes of a fingerprint are the hash of what the schema is written as. -/
theorem bytes_fingerprint (s : Schema) : s.fingerprint.bytes = Blake3.hash s.encoded.data := rfl

/-- A schema is determined by the bytes it is written as, however deep it is nested. The reader of
documents stops at a depth of 127, but the bytes have one reading beyond that, too. -/
theorem encoded_injective {a b : Schema} (h : a.encoded = b.encoded) : a = b := by
  have htext : a.toJson.compact = b.toJson.compact := String.toByteArray_inj.mp h
  exact toJson_injective (a.plain_toJson.eq_of_compact_eq b.plain_toJson htext)

/-- **Equal fingerprints mean equal schemas.** Schemas that are written as the same bytes are equal.
And if the hash does not collide on the bytes of two schemas, their fingerprints have the same
hexadecimal form only when the schemas are equal. Nothing else is assumed of the hash. -/
theorem eq_of_hex_fingerprint_eq :
    (∀ a b : Schema, a.encoded = b.encoded → a = b) ∧
    ∀ a b : Schema,
      (Blake3.hash a.encoded.data = Blake3.hash b.encoded.data → a.encoded = b.encoded) →
        (a.fingerprint.hex = b.fingerprint.hex ↔ a = b) := by
  refine ⟨fun _ _ => encoded_injective, fun a b hcollision => ?_⟩
  constructor
  · intro h
    have hbytes : a.fingerprint.bytes = b.fingerprint.bytes :=
      congrArg Digest.bytes (Digest.hex_injective h)
    rw [bytes_fingerprint, bytes_fingerprint] at hbytes
    exact encoded_injective (hcollision hbytes)
  · rintro rfl
    rfl

/-- Two schemas that differ in the name of a field: the end of a line, or a backslash and a letter.
Written without escapes the two would be hard to tell apart. -/
theorem eq_of_hex_fingerprint_eq_names :
    let a : Schema := [.scalar "\n" .int true]
    let b : Schema := [.scalar "\\n" .int true]
    Blake3.hash a.encoded.data ≠ Blake3.hash b.encoded.data ∧
      a.fingerprint.hex ≠ b.fingerprint.hex := by
  intro a b
  have hhash : Blake3.hash a.encoded.data ≠ Blake3.hash b.encoded.data := by decide +kernel
  have hne : a ≠ b := by decide
  exact ⟨hhash, fun h => hne ((eq_of_hex_fingerprint_eq.2 a b fun h => absurd h hhash).mp h)⟩

end Schema
end RecordSchema
