import RecordSchema.Proofs.Merge.Pointwise
import RecordSchema.Proofs.Schema.WellFormed

/-!
# Merging keeps schemas well-formed

Nothing checks the result of a merge. It is well-formed because its parts are: keys stay distinct,
the name that is kept is one of the two, exactly Structs join to a Struct, whose children have been
merged from those of both, and it has no children only if both had none.
-/

namespace RecordSchema

variable {p : Policy}

/-- Of two proper names the lesser one is proper, as it is one of the two. -/
theorem Policy.nameFault?_lesser {x y : String} (hx : p.nameFault? x = none)
    (hy : p.nameFault? y = none) : p.nameFault? (Text.lesser x y) = none := by
  rcases Text.lesser_eq_or x y with h | h
  · rwa [h]
  · rwa [h]

namespace Field

variable {l r f : Field}

/-- A field that is carried over as nullable stays well-formed. -/
theorem WellFormed.asNullable (h : f.WellFormed p) : f.asNullable.WellFormed p :=
  h.of_nested_eq h.proper.name rfl rfl

/-- The merge of two well-formed fields is well-formed when the merges of children are. It is a
Struct without children only if both were. -/
theorem WellFormed.merged (hl : l.WellFormed p) (hr : r.WellFormed p) (h : Merged p l r f)
    (hbelow : ∀ ls rs m : Schema, l.nested = some ls → r.nested = some rs →
      Schema.merge p ls rs = .ok m → m.WellFormed p) : f.WellFormed p := by
  have hname : p.nameFault? f.name = none := by
    rw [h.name_eq]
    exact Policy.nameFault?_lesser hl.proper.name hr.proper.name
  refine ⟨⟨hname, h.shape, fun hnil => ?_⟩, fun t ht => ?_⟩
  · obtain ⟨ls, rs, hls, -, hm⟩ := h.exists_merge_of_nested hnil
    obtain rfl := Schema.eq_nil_of_merge hm
    exact hl.proper.children hls
  · obtain ⟨ls, rs, hls, hrs, hm⟩ := h.exists_merge_of_nested ht
    exact hbelow ls rs t hls hrs hm

end Field

/-- **A merge of well-formed schemas is well-formed.** No check is made at the end of a merge, and
this says that none is missing. -/
theorem Schema.WellFormed.merge {a b m : Schema} (ha : a.WellFormed p) (hb : b.WellFormed p)
    (h : Schema.merge p a b = .ok m) : m.WellFormed p := by
  induction a using levelInduction generalizing b m with
  | step a ih =>
    have hm := keys_merge_nodup h ha.keys_nodup hb.keys_nodup
    refine wellFormed_iff.mpr ⟨hm, fun f hf => ?_⟩
    obtain ⟨x, y, hx, hy, hslot⟩ := exists_mergedSlot_of_mem h hm hf
    cases hslot with
    | left l => exact (ha.field (hx l rfl)).asNullable
    | right r => exact (hb.field (hy r rfl)).asNullable
    | @both l r _ hlr =>
      refine (ha.field (hx l rfl)).merged (hb.field (hy r rfl)) hlr fun ls rs m hls hrs hm => ?_
      exact ih l (hx l rfl) ls hls (ha.nested (hx l rfl) hls) (hb.nested (hy r rfl) hrs) hm

end RecordSchema
