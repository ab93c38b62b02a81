import RecordSchema.Proofs.Schema.Lowercase
import RecordSchema.Proofs.Schema.WellFormed

/-!
# Lower case and strict names

Lower-casing writes new names and looks only for repeated ones. Whatever else makes a schema
well-formed it leaves as it was, and no name gets empty; so what may be wrong with the result is that
a name contains the delimiter now (`Schema.WellFormed.lowercase_iff`).

Whether that can happen hangs on the delimiter alone. A point or a slash is the lower case of nothing
but itself, and stands in the result where it stood before. An `a` is the lower case of `A`, which
strict names allow. `Schema.lowercase_keeps_valid_iff` says that this is all: a delimiter that is a
form of another letter lets some valid schema become invalid.
-/

namespace RecordSchema

variable {p : Policy}

/-- The lower case of a proper name is proper unless it contains the delimiter. It is not empty,
since no letter is written as nothing. -/
theorem Policy.nameFault?_lowercase_iff {name : String} (h : p.nameFault? name = none) :
    p.nameFault? (Text.lowercase name) = none ↔
      (p.strictNames = true → p.delimiter ∉ (Text.lowercase name).toList) := by
  obtain ⟨hempty, -⟩ := nameFault?_eq_none_iff.mp h
  rw [nameFault?_eq_none_iff]
  exact and_iff_right fun hlower => hempty (Text.lowercase_eq_empty_iff.mp hlower)

/-- A proper field stays so in lower case when its name does. Its shape is that of its type, and
children are there as before. -/
theorem Field.IsProper.lowered {f : Field} (h : f.IsProper p)
    (hname : p.nameFault? (Text.lowercase f.name) = none) : f.lowered.IsProper p where
  name := by rwa [lowered_name]
  shape := by
    rw [lowered_nested, lowered_type, Option.isSome_map]
    exact h.shape
  children := by
    intro hnil
    rw [lowered_nested, Option.map_eq_some_iff] at hnil
    obtain ⟨s, hs, hnil⟩ := hnil
    rw [Schema.lowered_eq_map, List.map_eq_nil_iff] at hnil
    exact h.children (hnil ▸ hs)

namespace Schema

variable {s t u : Schema}

/-- The levels of a schema in lower case are its levels in lower case, and there are no others. So
what holds of each level of the result is shown on the levels of the schema. -/
theorem exists_hasLevel_of_lowered (h : s.lowered.HasLevel u) :
    ∃ t : Schema, s.HasLevel t ∧ t.map Field.lowered = u := by
  induction s using levelInduction with
  | step s ih =>
    cases h with
    | top => exact ⟨s, .top s, (lowered_eq_map s).symm⟩
    | @inner _ v _ g hg hv hu =>
      rw [lowered_eq_map] at hg
      obtain ⟨f, hf, rfl⟩ := List.mem_map.mp hg
      rw [Field.lowered_nested, Option.map_eq_some_iff] at hv
      obtain ⟨r, hr, rfl⟩ := hv
      obtain ⟨t, ht, rfl⟩ := ih f hf r hr hu
      exact ⟨t, .inner hf hr ht, rfl⟩

/-- The lower-case form of a well-formed schema is well-formed when, where names are strict, none of
its names contains the delimiter. Lower-casing checks that names stay distinct, and nothing else
about them. -/
theorem WellFormed.lowercase_iff (hs : s.WellFormed p) (h : s.lowercase p = .ok t) :
    t.WellFormed p ↔
      (p.strictNames = true → ∀ u, t.HasLevel u → ∀ g ∈ u, p.delimiter ∉ g.name.toList) := by
  obtain ⟨rfl, hdistinct⟩ := lowercase_eq_ok_iff_lowered.mp h
  constructor
  · intro hwell hstrict u hu g hg
    have hproper := (hwell u hu).2 g hg
    exact (Policy.nameFault?_eq_none_iff.mp hproper.name).2 hstrict
  · intro hnames u hu
    refine ⟨hdistinct u hu, fun g hg => ?_⟩
    obtain ⟨v, hv, rfl⟩ := exists_hasLevel_of_lowered hu
    obtain ⟨f, hf, rfl⟩ := List.mem_map.mp hg
    have hproper := (hs v hv).2 f hf
    refine hproper.lowered ((Policy.nameFault?_lowercase_iff hproper.name).mpr fun hstrict => ?_)
    have hname := hnames hstrict _ hu _ hg
    rwa [Field.lowered_name] at hname

/-- A delimiter that is the form of no other letter is not written into a name without it, so a
well-formed schema stays well-formed in lower case. The usual delimiters are no letters at all. -/
theorem WellFormed.lowercase_of_forms (hs : s.WellFormed p) (h : s.lowercase p = .ok t)
    (hforms : p.strictNames = true → ∀ c, Text.IsFormOf p.delimiter c → c = p.delimiter) :
    t.WellFormed p := by
  rw [hs.lowercase_iff h]
  intro hstrict u hu g hg hmem
  obtain ⟨rfl, -⟩ := lowercase_eq_ok_iff_lowered.mp h
  obtain ⟨v, hv, rfl⟩ := exists_hasLevel_of_lowered hu
  obtain ⟨f, hf, rfl⟩ := List.mem_map.mp hg
  rw [Field.lowered_name, Text.lowercase, String.toList_ofList] at hmem
  obtain ⟨c, hc, hform⟩ := Text.exists_isFormOf_of_mem_lowerFrom hmem
  have hproper := (hs v hv).2 f hf
  have hname := (Policy.nameFault?_eq_none_iff.mp hproper.name).2 hstrict
  exact hname (hforms hstrict c hform ▸ hc)

/-- Where names are not strict, lower case keeps a schema well-formed. -/
theorem WellFormed.lowercase (hstrict : p.strictNames = false) (hs : s.WellFormed p)
    (h : s.lowercase p = .ok t) : t.WellFormed p :=
  hs.lowercase_of_forms h fun htrue => absurd (hstrict.symm.trans htrue) Bool.false_ne_true

/-- A schema of one column is valid when the column's name is proper. It serves to turn a letter
into a schema that fails. -/
theorem isValid_scalar_iff {name : String} :
    isValid p [.scalar name .int false] = true ↔ p.nameFault? name = none := by
  rw [isValid_iff, wellFormed_iff, List.forall_mem_singleton]
  constructor
  · rintro ⟨-, hf⟩
    exact hf.proper.name
  · intro hname
    exact ⟨List.nodup_singleton _, ⟨hname, rfl, fun h => nomatch h⟩, fun _ h => nomatch h⟩

/-- **Lower case keeps schemas valid exactly under a delimiter that it does not write.** The
lower-case form of a valid schema is valid when, where names are strict, none of its names contains
the delimiter. Every valid schema that has a lower-case form is valid in it exactly when names are
not strict or the delimiter is the form of no other letter. -/
theorem lowercase_keeps_valid_iff (p : Policy) :
    (∀ s t : Schema, s.isValid p = true → s.lowercase p = .ok t →
      (t.isValid p = true ↔
        (p.strictNames = true → ∀ u, t.HasLevel u → ∀ g ∈ u, p.delimiter ∉ g.name.toList))) ∧
    ((∀ s t : Schema, s.isValid p = true → s.lowercase p = .ok t → t.isValid p = true) ↔
      (p.strictNames = true → ∀ c, Text.IsFormOf p.delimiter c → c = p.delimiter)) := by
  refine ⟨fun s t hs h => ?_, fun hkeeps hstrict c hform => ?_, fun hforms s t hs h => ?_⟩
  · rw [isValid_iff]
    exact (isValid_iff.mp hs).lowercase_iff h
  · by_contra hne
    obtain ⟨name, hempty, hbefore, hafter⟩ := Text.exists_text_of_isFormOf hform hne
    have hvalid : isValid p [.scalar name .int false] = true :=
      isValid_scalar_iff.mpr (Policy.nameFault?_eq_none_iff.mpr ⟨hempty, fun _ => hbefore⟩)
    have hlower : lowercase p [.scalar name .int false] =
        .ok [.scalar (Text.lowercase name) .int false] := rfl
    have hname := isValid_scalar_iff.mp (hkeeps _ _ hvalid hlower)
    exact (Policy.nameFault?_eq_none_iff.mp hname).2 hstrict hafter
  · exact isValid_iff.mpr ((isValid_iff.mp hs).lowercase_of_forms h hforms)

/-- Strict names with the delimiter `a` allow a field `A`, whose lower case is the delimiter.
Lower-casing succeeds there and gives what validation refuses. -/
theorem not_isValid_lowercase_delimiter :
    let p : Policy := { strictNames := true, delimiter := 'a' }
    let s := [Field.scalar "A" .int false]
    let t := [Field.scalar "a" .int false]
    isValid p s = true ∧ lowercase p s = .ok t ∧ isValid p t = false ∧
      violations p t = [⟨"a", .invalidField "a" (.reservedDelimiter 'a')⟩] := by
  decide +kernel

end Schema
end RecordSchema
