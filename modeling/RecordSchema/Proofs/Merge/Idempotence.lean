import RecordSchema.Proofs.Merge.Pointwise
import RecordSchema.Proofs.Schema.WellFormed

/-!
# Merging a schema with itself

A valid schema that stands on both sides of a merge comes out of it as it was. Keys are distinct, so
that each field is matched with itself and none is carried over as if one side lacked it
(`Schema.onlyIn_self`). A field that is merged with itself keeps its parts, since each of them is
idempotent (`Field.combine_self`). It keeps its children as far as these merge with themselves to
themselves, which they do by induction over levels, and because exactly Structs have them: any other
field would come out without.
-/

namespace RecordSchema

variable {p : Policy}

namespace Field

variable {f : Field}

/-- The parts of a field combine with themselves to the field. Each of the operations on parts is
idempotent, also that on annotations. -/
theorem combine_self (f : Field) : f.combine f f.type f.nested = f := by
  obtain ⟨name, type, nullable, metadata, nested⟩ := f
  rw [combine, Text.lesser_self, Bool.or_self, Metadata.union_self]

/-- A field of proper shape merges with itself to itself when its children do. A field with children
that is no Struct would come out without them. -/
theorem merged_self (hshape : f.nested.isSome = f.type.isStruct)
    (hbelow : ∀ t : Schema, f.nested = some t → Schema.merge p t t = .ok t) :
    Merged p f f f := by
  have hchildren : ChildrenMerged p f.type f.nested f.nested f.nested := by
    cases hnested : f.nested with
    | none =>
      rw [hnested] at hshape
      exact .scalar _ _ hshape.symm
    | some t =>
      rw [hnested] at hshape
      exact .struct hshape.symm (hbelow t hnested)
  have hmerged := Merged.intro (FieldType.join?_self f.type) hchildren
  rwa [combine_self] at hmerged

end Field

namespace Schema

variable {a : Schema}

/-- No field is on one of two equal sides only, so none is carried over. In particular none is made
nullable for being missing. -/
theorem onlyIn_self (p : Policy) (a : Schema) : onlyIn p a a = [] := by
  have hboth : ∀ r ∈ a, (a.any fun l => p.sameName l.name r.name) = true := fun r hr =>
    any_sameName_iff.mpr (mem_keys.mpr ⟨r, hr, rfl⟩)
  have hnone : (a.filter fun r => !a.any fun l => p.sameName l.name r.name) = [] := by
    refine List.filter_eq_nil_iff.mpr fun r hr => ?_
    simp [hboth r hr]
  rw [onlyIn, hnone, List.map_nil]

/-- A level of distinct keys merges with itself to itself when the children of its fields do. If two
fields had one key, the second would be merged with the first. -/
theorem merge_self_of_below (hkeys : (a.keys p).Nodup)
    (hshape : ∀ f ∈ a, f.nested.isSome = f.type.isStruct)
    (hbelow : ∀ f ∈ a, ∀ t : Schema, f.nested = some t → merge p t t = .ok t) :
    merge p a a = .ok a := by
  have hslots : ∀ l ∈ a,
      Field.MergedSlot p (some l) (a.withKey? p (p.nameKey l.name)) (some l) := by
    intro l hl
    rw [withKey?_of_mem hkeys hl]
    exact .both (Field.merged_self (hshape l hl) (hbelow l hl))
  refine merge_eq_ok_iff.mpr ⟨a, List.forall₂_same.mpr hslots, ?_⟩
  rw [onlyIn_self, List.append_nil]

/-- **Merging a valid schema with itself gives it back**, as it is at every depth, whether case
counts or not. Every field meets itself, so none is made nullable and none changes its type, and the
order stays. -/
theorem merge_self_of_isValid (p : Policy) (a : Schema) (ha : a.isValid p = true) :
    merge p a a = .ok a := by
  -- validity is about a whole schema, well-formedness holds of its nested schemas too
  have hwell := isValid_iff.mp ha
  clear ha
  induction a using levelInduction with
  | step a ih =>
    have hshape : ∀ f ∈ a, f.nested.isSome = f.type.isStruct := fun f hf =>
      (hwell.field hf).proper.shape
    refine merge_self_of_below hwell.keys_nodup hshape fun f hf t ht => ?_
    exact ih f hf t ht (hwell.nested hf ht)

/-- Fields that may not be missing, at three levels, with annotations and names of several
spellings. -/
theorem merge_self_of_isValid_spellings :
    let p : Policy := { allowEmptyStruct := true }
    let a := [(Field.scalar "ID" .int false).annotate "doc" "key",
      .struct "id" [.scalar "Zip" .int true, .struct "rest" [] false,
        ((Field.scalar "zip" .decimal false).annotate "unit" "").annotate "doc" "b"] false]
    isValid p a = true ∧ merge p a a = .ok a := by
  intro p a
  have ha : isValid p a = true := by decide +kernel
  exact ⟨ha, merge_self_of_isValid p a ha⟩

/-- Children of a field that is no Struct do not outlast a merge. -/
example :
    let a : Schema := [⟨"id", .int, false, TextMap.empty, some [.scalar "zip" .int false]⟩]
    merge {} a a = .ok [.scalar "id" .int false] := by decide +kernel

end Schema
end RecordSchema
