import RecordSchema.Proofs.Edit.Outcomes
import RecordSchema.Proofs.Schema.WellFormed

/-!
# Projections and repeated names

A projection takes fields out of a schema by name and does not look at what they make together. Each
of them is as proper as it was, so all that can go wrong is that a name is asked for twice: then the
field of that name is there twice. Nothing else goes wrong, since two fields of a well-formed level
with one key are one field (`Schema.count_names_of_mem_violations_project`), and so a projection of a
valid schema is valid exactly when its names are distinct.
-/

namespace RecordSchema
namespace Schema

variable {p : Policy} {s t : Schema} {names path seen : List String} {v : Violation}

/-- In a level of well-formed fields a violation is a key that has been seen, or that an earlier
field has. The level is split at the field that is blamed. -/
theorem exists_repeated_of_mem_levelViolations (ht : ∀ f ∈ t, f.WellFormed p)
    (hv : v ∈ levelViolations p path seen t) :
    ∃ before f after, t = before ++ f :: after ∧
      (p.nameKey f.name ∈ seen ∨ p.nameKey f.name ∈ keys p before) ∧
      v = ⟨p.joinPath (path ++ [f.name]), .duplicateName f.name⟩ := by
  induction t generalizing seen with
  | nil => exact nomatch hv
  | cons f t ih =>
    obtain ⟨hf, ht⟩ := List.forall_mem_cons.mp ht
    have hshape : f.shapeViolations p (path ++ [f.name]) = [] :=
      (Field.shapeViolations_eq_nil_iff p _ f).mpr ⟨hf.proper.shape, hf.proper.children, hf.below⟩
    rw [levelViolations, hshape, List.append_nil, List.mem_append] at hv
    rcases hv with hv | hv
    · obtain ⟨e, he, rfl⟩ := List.mem_map.mp hv
      rcases Policy.mem_nameErrors_iff.mp he with ⟨fault, hfault, -⟩ | ⟨hkey, rfl⟩
      · exact nomatch hf.proper.name.symm.trans hfault
      · exact ⟨[], f, t, rfl, .inl hkey, rfl⟩
    · obtain ⟨before, g, after, rfl, hkey, rfl⟩ := ih ht hv
      refine ⟨f :: before, g, after, rfl, ?_, rfl⟩
      rw [keys_cons, List.mem_cons]
      rcases hkey with hkey | hkey
      · rcases List.mem_cons.mp hkey with hkey | hkey
        · exact .inr (.inl hkey)
        · exact .inl hkey
      · exact .inr (.inr hkey)

/-- What is wrong with a projection of a well-formed schema is that a name was asked for more than
once. Two names of one key are one name there, since the schema has only one field under the key. -/
theorem count_names_of_mem_violations_project (hs : s.WellFormed p) (h : s.project names = .ok t)
    (hv : v ∈ t.violations p) :
    ∃ name, 1 < names.count name ∧ v = ⟨name, .duplicateName name⟩ := by
  have hmem : ∀ f ∈ t, f ∈ s := fun f hf => mem_of_project h hf
  obtain ⟨before, f, after, rfl, hkey, rfl⟩ :=
    exists_repeated_of_mem_levelViolations (fun f hf => hs.field (hmem f hf)) hv
  obtain ⟨g, hg, hgf⟩ := mem_keys.mp (hkey.resolve_left List.not_mem_nil)
  -- both fields come from `s`, where one key means one field
  have heq : g = f := by
    refine List.inj_on_of_nodup_map hs.keys_nodup ?_ ?_ hgf
    · exact hmem g (List.mem_append_left _ hg)
    · exact hmem f (List.mem_append_right _ List.mem_cons_self)
  have hbefore : 0 < (before.map Field.name).count f.name :=
    List.count_pos_iff.mpr (List.mem_map.mpr ⟨g, hg, congrArg Field.name heq⟩)
  have hnames : names = before.map Field.name ++ f.name :: after.map Field.name := by
    rw [← names_of_project h, Schema.names, List.map_append, List.map_cons]
  refine ⟨f.name, ?_, rfl⟩
  rw [hnames, List.count_append, List.count_cons_self]
  omega

/-- A projection to distinct names keeps a schema well-formed. It has fields of the schema, none of
them twice. -/
theorem WellFormed.project (hs : s.WellFormed p) (hnames : names.Nodup)
    (h : s.project names = .ok t) : t.WellFormed p := by
  rw [← isValid_iff, isValid, List.isEmpty_iff, List.eq_nil_iff_forall_not_mem]
  intro v hv
  obtain ⟨name, hcount, -⟩ := count_names_of_mem_violations_project hs h hv
  have hle := List.nodup_iff_count_le_one.mp hnames name
  omega

/-- **A projection of a valid schema is valid exactly when it names no field twice.** Any violation
that it has is a name that was asked for more than once. The projection itself succeeds all the
same, as it checks nothing. -/
theorem isValid_project_iff (p : Policy) (s t : Schema) (names : List String)
    (hs : s.isValid p = true) (h : s.project names = .ok t) :
    (t.isValid p = true ↔ names.Nodup) ∧
      ∀ v ∈ t.violations p, ∃ name, 1 < names.count name ∧ v = ⟨name, .duplicateName name⟩ := by
  have hwell := isValid_iff.mp hs
  refine ⟨⟨fun ht => ?_, fun hnames => ?_⟩, fun v hv => ?_⟩
  · rw [← names_of_project h]
    exact names_nodup_of_wellFormed (isValid_iff.mp ht)
  · exact isValid_iff.mpr (hwell.project hnames h)
  · exact count_names_of_mem_violations_project hwell h hv

/-- A projection to distinct names in another order, of which two differ in case alone. -/
theorem isValid_project_iff_reordered :
    let s := [Field.scalar "id" .int false, .struct "owner" [.scalar "name" .string true] false,
      .scalar "ID" .date true]
    let t := [Field.scalar "ID" .date true, .scalar "id" .int false]
    (isValid {} s = true ∧ project s ["ID", "id"] = .ok t) ∧ isValid {} t = true := by
  intro s t
  have hs : isValid {} s = true := by decide +kernel
  have ht : project s ["ID", "id"] = .ok t := by decide +kernel
  exact ⟨⟨hs, ht⟩, (isValid_project_iff {} s t ["ID", "id"] hs ht).1.mpr (by decide)⟩

/-- A projection that asks for one name twice succeeds and gives two siblings of one name.
Validation refuses these with the error that building a schema of them would have given. -/
theorem not_isValid_project_twice :
    let s := [Field.scalar "id" .int false]
    let t := [Field.scalar "id" .int false, .scalar "id" .int false]
    isValid {} s = true ∧ project s ["id", "id"] = .ok t ∧ isValid {} t = false ∧
      violations {} t = [⟨"id", .duplicateName "id"⟩] := by
  decide +kernel

end Schema
end RecordSchema
