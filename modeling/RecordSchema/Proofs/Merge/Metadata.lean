import RecordSchema.Proofs.Merge.Pointwise

/-!
# Annotations stay out of a merge

A merge puts annotations together, but it decides nothing by them: which fields match, what they
are called, of which type they are, whether values may be missing, in which order they come, and at
which pair of fields the merge fails are settled without. So it does not matter whether annotations
are taken away before two schemas are merged or afterwards.

The proof goes the way of the merge, from the parts of two fields (`Field.combine_withoutMetadata`)
and their children (`Field.mergeChildren_withoutMetadata`) to the fields of one level
(`Schema.mergeInto_withoutMetadata`). Each step is an equation between results, so that it speaks of
errors as well, and no step asks for distinct names or proper shapes.
-/

namespace RecordSchema

variable {p : Policy} {parent path : String}

/-- Without annotations the schemas merge to what they merge to, without its annotations, below any
path. -/
def Schema.MergesBare (p : Policy) (a b : Schema) : Prop :=
  ∀ parent, mergeBelow p parent a.withoutMetadata b.withoutMetadata =
    Schema.withoutMetadata <$> mergeBelow p parent a b

namespace Field

variable {l r : Field} {t : FieldType} {x y : Option Schema}

/-- Two fields combine without annotations to what they combine to, without the annotations of
that. -/
theorem combine_withoutMetadata (l r : Field) (t : FieldType) (cs : Option Schema) :
    (l.combine r t cs).withoutMetadata =
      l.withoutMetadata.combine r.withoutMetadata t (cs.map Schema.withoutMetadata) := by
  rw [withoutMetadata_eq, withoutMetadata_eq l, withoutMetadata_eq r]
  rfl

/-- Children merge without annotations to what they merge to, without the annotations of that, and
fail with the same error, when the merge of schemas below does so. -/
theorem mergeChildren_withoutMetadata
    (h : ∀ ls rs, x = some ls → y = some rs → Schema.MergesBare p ls rs) :
    mergeChildren p path t (x.map Schema.withoutMetadata) (y.map Schema.withoutMetadata) =
      Option.map Schema.withoutMetadata <$> mergeChildren p path t x y := by
  unfold mergeChildren
  split
  · cases x with
    | none => rfl
    | some ls =>
      cases y with
      | none => rfl
      | some rs =>
        have hbelow := h ls rs rfl rfl path
        simp only [Option.map_some, hbelow, Functor.map_map]
  · rfl

/-- Two fields merge without annotations to what they merge to, when their children do. Their types
conflict as they are, at the same path. -/
theorem merge_withoutMetadata
    (h : ∀ ls rs, l.nested = some ls → r.nested = some rs → Schema.MergesBare p ls rs) :
    Field.merge p parent r.withoutMetadata l.withoutMetadata =
      Field.withoutMetadata <$> Field.merge p parent r l := by
  rw [merge_eq, merge_eq]
  simp only [withoutMetadata_name, withoutMetadata_type, withoutMetadata_nested]
  cases l.type.join? r.type with
  | none => rfl
  | some t =>
    simp only [mergeChildren_withoutMetadata h, Functor.map_map, combine_withoutMetadata]

/-- A field merges without annotations with what it matches there, or is carried over with its
children as they are. -/
theorem mergeMatched_withoutMetadata {o : Option Field}
    (h : ∀ ls, l.nested = some ls → ∀ rs, Schema.MergesBare p ls rs) :
    l.withoutMetadata.mergeMatched p parent (o.map Field.withoutMetadata) =
      Field.withoutMetadata <$> l.mergeMatched p parent o := by
  cases o with
  | none => exact congrArg Except.ok (withoutMetadata_asNullable l).symm
  | some r => exact merge_withoutMetadata fun ls rs hls _ => h ls hls rs

end Field

namespace Schema

variable {a : Schema}

/-- Without annotations a field stays under its key. -/
theorem nameKey_withoutMetadata (f : Field) :
    p.nameKey f.withoutMetadata.name = p.nameKey f.name := by
  rw [Field.withoutMetadata_name]

/-- Without annotations the same field stands under a key, so the same fields match. -/
theorem withKey?_withoutMetadata (s : Schema) (k : String) :
    s.withoutMetadata.withKey? p k = (s.withKey? p k).map Field.withoutMetadata := by
  rw [withoutMetadata_eq_map]
  exact withKey?_map nameKey_withoutMetadata s k

/-- Without annotations the right side alone has the same fields. -/
theorem onlyIn_withoutMetadata (a b : Schema) :
    onlyIn p a.withoutMetadata b.withoutMetadata = withoutMetadata (onlyIn p a b) := by
  simp only [withoutMetadata_eq_map]
  exact onlyIn_map nameKey_withoutMetadata Field.withoutMetadata_asNullable a b

/-- The fields of a level merge without annotations to what they merge to, when children do. As each
step is an equation between results, the first error is the same one. -/
theorem mergeInto_withoutMetadata (parent : String) (b : Schema)
    (h : ∀ l ∈ a, ∀ ls, l.nested = some ls → ∀ rs, MergesBare p ls rs) :
    mergeInto p parent b.withoutMetadata a.withoutMetadata =
      withoutMetadata <$> mergeInto p parent b a := by
  induction a with
  | nil => rfl
  | cons l rest ih =>
    obtain ⟨hl, hrest⟩ := List.forall_mem_cons.mp h
    have hfirst : l.withoutMetadata.mergeMatched p parent
        (b.withoutMetadata.withKey? p (p.nameKey l.withoutMetadata.name)) =
          Field.withoutMetadata <$> l.mergeMatched p parent (b.withKey? p (p.nameKey l.name)) := by
      rw [nameKey_withoutMetadata, withKey?_withoutMetadata]
      exact Field.mergeMatched_withoutMetadata hl
    rw [withoutMetadata, mergeInto_cons, mergeInto_cons, hfirst, ih hrest]
    simp only [map_bind, bind_map_left, map_pure, withoutMetadata]

/-- **Annotations have no influence on a merge.** Merging two schemas without their annotations
gives what merging them gives, without the annotations of the result, and fails with the same error
when that fails. Any schemas will do, with repeated names and improper shapes. -/
theorem merge_ignores_metadata (p : Policy) (a b : Schema) :
    merge p a.withoutMetadata b.withoutMetadata = withoutMetadata <$> merge p a b := by
  -- going down changes the path and the right side, so both are free in the hypothesis
  have hbare : MergesBare p a b := by
    induction a using levelInduction generalizing b with
    | step a ih =>
      intro parent
      have hshared := mergeInto_withoutMetadata parent b ih
      unfold mergeBelow
      rw [hshared, onlyIn_withoutMetadata]
      simp only [map_bind, bind_map_left, map_pure, withoutMetadata_eq_map, List.map_append]
  exact hbare ""

end Schema
end RecordSchema
