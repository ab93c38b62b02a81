import RecordSchema.Proofs.Schema.Building
import RecordSchema.Schema.Validation

/-!
# Well-formed schemas

A schema is well-formed when at every level the keys are distinct and the fields proper. The
examination of a schema finds nothing exactly then (`Schema.isValid_iff`).
-/

namespace RecordSchema

variable {p : Policy} {s : Schema}

namespace Schema

/-- At every level the keys are distinct and the fields proper. -/
def WellFormed (p : Policy) (s : Schema) : Prop :=
  ∀ t, s.HasLevel t → (t.keys p).Nodup ∧ ∀ f ∈ t, f.IsProper p

end Schema

/-- The field is proper, and what is below it well-formed. -/
structure Field.WellFormed (p : Policy) (f : Field) : Prop where
  proper : f.IsProper p
  below : ∀ t : Schema, f.nested = some t → t.WellFormed p

/-- A field over the same children, of a proper name and of no other shape, is well-formed, too.
Edits of one field, such as renaming it or giving it another type, go through by this. -/
theorem Field.WellFormed.of_nested_eq {f g : Field} (h : f.WellFormed p)
    (hname : p.nameFault? g.name = none) (htype : f.type.isStruct = g.type.isStruct)
    (hnested : f.nested = g.nested) : g.WellFormed p := by
  refine ⟨⟨hname, ?_, fun hnil => ?_⟩, fun t ht => ?_⟩
  · rw [← hnested, ← htype]
    exact h.proper.shape
  · exact h.proper.children (hnested.trans hnil)
  · exact h.below t (hnested.trans ht)

namespace Schema

/-- Well-formedness level by level: the keys of the level are distinct, and each field is
well-formed with all that is below it. -/
theorem wellFormed_iff :
    s.WellFormed p ↔ (s.keys p).Nodup ∧ ∀ f ∈ s, f.WellFormed p := by
  constructor
  · intro h
    obtain ⟨hs, hf⟩ := h s (.top s)
    exact ⟨hs, fun f hfs => ⟨hf f hfs, fun t ht u hu => h u (.inner hfs ht hu)⟩⟩
  · rintro ⟨hs, hf⟩ t ht
    cases ht with
    | top => exact ⟨hs, fun f hfs => (hf f hfs).proper⟩
    | inner hfs hu ht => exact (hf _ hfs).below _ hu _ ht

/-- In a well-formed schema names are distinct at every level, which is all that a merge asks
for. -/
theorem WellFormed.distinctNames (h : s.WellFormed p) : s.DistinctNames p := fun t ht => (h t ht).1

/-- The keys of a well-formed level are distinct. -/
theorem WellFormed.keys_nodup (h : s.WellFormed p) : (s.keys p).Nodup := (wellFormed_iff.mp h).1

/-- The names of a well-formed level are distinct, so that a field is found by its own. -/
theorem names_nodup_of_wellFormed (h : s.WellFormed p) : s.names.Nodup :=
  names_nodup_of_keys_nodup h.keys_nodup

/-- Each field of a well-formed schema is well-formed. -/
theorem WellFormed.field {f : Field} (h : s.WellFormed p) (hf : f ∈ s) : f.WellFormed p :=
  (wellFormed_iff.mp h).2 f hf

/-- The children of each field of a well-formed schema are well-formed. -/
theorem WellFormed.nested {f : Field} {t : Schema} (h : s.WellFormed p) (hf : f ∈ s)
    (ht : f.nested = some t) : t.WellFormed p := (h.field hf).below t ht

end Schema

/-- A name has no problem when it has no fault and its key has not been seen. What was seen are the
keys of the fields before it on its level. -/
theorem Policy.nameErrors_eq_nil_iff {seen : List String} {name : String} :
    p.nameErrors seen name = [] ↔ p.nameFault? name = none ∧ p.nameKey name ∉ seen := by
  rw [nameErrors, List.append_eq_nil_iff, Option.toList_eq_nil_iff, Option.map_eq_none_iff]
  refine and_congr_right fun _ => ?_
  rw [← List.contains_iff_mem]
  cases seen.contains (p.nameKey name) <;> simp

/-- A Struct without children is no violation when it is allowed. The same test stands at nested
schemas and at the children in a definition, hence the type of the children is free. -/
theorem Policy.emptyStruct_eq_nil_iff {α : Type} {children : List α} {v : Violation} :
    (if children.isEmpty && !p.allowEmptyStruct then [v] else []) = [] ↔
      (children = [] → p.allowEmptyStruct = true) := by
  cases children <;> cases p.allowEmptyStruct <;> simp

mutual

/-- The shape of a field and what is below it are without violations when they are as they should
be: children for Structs and for nothing else, some children unless none are allowed, and these
well-formed. -/
theorem Field.shapeViolations_eq_nil_iff (p : Policy) (path : List String) :
    (f : Field) → (f.shapeViolations p path = [] ↔ f.nested.isSome = f.type.isStruct ∧
      (f.nested = some [] → p.allowEmptyStruct = true) ∧
      ∀ t : Schema, f.nested = some t → t.WellFormed p)
  | ⟨name, type, nullable, metadata, none⟩ => by
    rw [Field.shapeViolations]
    cases type.isStruct <;> simp
  | ⟨name, type, nullable, metadata, some fields⟩ => by
    have hbelow := Schema.levelViolations_eq_nil_iff p path [] fields
    rw [freshKeys_nil_iff, ← Schema.wellFormed_iff] at hbelow
    rw [Field.shapeViolations]
    cases type.isStruct with
    | false => simp
    | true =>
      rw [if_pos rfl, List.append_eq_nil_iff, Policy.emptyStruct_eq_nil_iff, hbelow]
      simp

/-- A level is without violations when its keys are fresh and its fields as they should be. The keys
seen so far are free, since each field is examined beside those before it. -/
theorem Schema.levelViolations_eq_nil_iff (p : Policy) (path seen : List String) :
    (s : List Field) → (Schema.levelViolations p path seen s = [] ↔
      FreshKeys seen (Schema.keys p s) ∧ ∀ f ∈ s, f.WellFormed p)
  | [] => ⟨fun _ => ⟨freshKeys_nil, fun _ h => nomatch h⟩, fun _ => rfl⟩
  | f :: rest => by
    have hf := Field.shapeViolations_eq_nil_iff p (path ++ [f.name]) f
    have hrest := Schema.levelViolations_eq_nil_iff p path (p.nameKey f.name :: seen) rest
    rw [Schema.levelViolations, List.append_eq_nil_iff, List.append_eq_nil_iff,
      List.map_eq_nil_iff, Policy.nameErrors_eq_nil_iff, hf, hrest, Schema.keys_cons,
      freshKeys_cons_iff, List.forall_mem_cons]
    constructor
    · rintro ⟨⟨⟨hname, hkey⟩, hshape, hchildren, hbelow⟩, hkeys, hfields⟩
      exact ⟨⟨hkey, hkeys⟩, ⟨⟨hname, hshape, hchildren⟩, hbelow⟩, hfields⟩
    · rintro ⟨⟨hkey, hkeys⟩, ⟨⟨hname, hshape, hchildren⟩, hbelow⟩, hfields⟩
      exact ⟨⟨⟨hname, hkey⟩, hshape, hchildren, hbelow⟩, hkeys, hfields⟩

end

/-- **A schema is without violations exactly when it is well-formed.** The one is what the
examination computes, the other is said of all levels at once, and proofs use it in place of the
examination. -/
theorem Schema.isValid_iff : s.isValid p = true ↔ s.WellFormed p := by
  rw [isValid, List.isEmpty_iff, violations, levelViolations_eq_nil_iff, freshKeys_nil_iff,
    ← wellFormed_iff]

end RecordSchema
