import RecordSchema.Proofs.Edit.Outcomes
import RecordSchema.Proofs.Schema.Paths

/-!
# The algebra of projections

A projection looks each name up in the schema, so that what it gives depends on these look-ups alone
(`Schema.project_congr`). A projected schema has the look-ups of the schema that it comes from, for
the names that were asked for (`Schema.field?_of_project`): a name may be repeated among them or
among the fields, but what is found under it is one field, copied as often as it was asked for. So a
projection of a projection is one of the schema.

Where names are distinct, a field is found by its own name, and the names of any fields of a schema
lead back to these (`Schema.project_names_of_subset`). This holds of all fields, and of all but one,
which is what dropping a field leaves.
-/

namespace RecordSchema
namespace Schema

variable {s t : Schema} {name : String} {xs : List String}

/-- Schemas with the same look-ups have the same projections, failures included. A projection thus
sees nothing of a schema but the first field under each name asked for. -/
theorem project_congr (h : ∀ name ∈ xs, s.field? name = t.field? name) :
    s.project xs = t.project xs := by
  unfold project
  induction xs with
  | nil => rfl
  | cons name rest ih =>
    obtain ⟨hname, hrest⟩ := List.forall_mem_cons.mp h
    have hfirst : s.fieldNamed name = t.fieldNamed name := by rw [fieldNamed, fieldNamed, hname]
    rw [List.mapM_cons, List.mapM_cons, hfirst, ih hrest]

/-- A schema is projected to names when it has them all, in any order and any number. -/
theorem exists_project_iff : (∃ t, s.project xs = .ok t) ↔ xs ⊆ s.names := by
  unfold project
  rw [exists_mapM_eq_ok_iff, List.subset_def]
  simp only [fieldNamed_eq_ok_iff, exists_field?_iff]

/-- A projection finds under a name that was asked for what the schema finds. If the name is
repeated among those asked for, the first copy is found, and it is the same field. -/
theorem field?_of_project (h : s.project xs = .ok t) (hname : name ∈ xs) :
    t.field? name = s.field? name := by
  have hfields := project_eq_ok_iff.mp h
  clear h
  induction hfields with
  | nil => cases hname
  | @cons first f rest fields hf _ ih =>
    obtain ⟨before, after, hfirst⟩ := field?_eq_some_iff.mp hf
    by_cases hsame : first = name
    · -- a later copy under this name does not matter, the look-up ends here
      rw [← hsame, hf, ← hfirst.named, field?_cons_self]
    · have hrest : name ∈ rest := (List.mem_cons.mp hname).resolve_left (Ne.symm hsame)
      rw [field?_cons_of_ne fields (hfirst.named ▸ hsame), ih hrest]

/-- Where names are distinct, fields of a schema are what it is projected to by their names. With
repeated names the first field of a name would come in place of a later one. -/
theorem project_names_of_subset (hs : s.names.Nodup) (ht : t ⊆ s) : s.project t.names = .ok t := by
  have hfound : ∀ f ∈ t, s.field? f.name = some f := by
    intro f hf
    obtain ⟨i, hi⟩ := List.getElem?_of_mem (ht hf)
    exact field?_of_getElem? hs hi
  exact project_eq_ok_iff.mpr (List.forall₂_map_left_iff.mpr (List.forall₂_same.mpr hfound))

/-- Where names are distinct, dropping a field leaves the projection to the other names. Erasing a
name takes away its first occurrence, as dropping does with the field. -/
theorem exists_drop_and_project (hs : s.names.Nodup) (hname : name ∈ s.names) :
    ∃ t, s.drop name = .ok t ∧ s.project (s.names.erase name) = .ok t := by
  obtain ⟨f, hf⟩ := exists_field?_iff.mpr hname
  obtain ⟨before, after, hfirst⟩ := field?_eq_some_iff.mp hf
  have hbefore : name ∉ before.names := by
    intro hmem
    obtain ⟨g, hg, hgn⟩ := List.mem_map.mp hmem
    exact hfirst.first g hg hgn
  have hothers : s.names.erase name = names (before ++ after) := by
    rw [hfirst.split, names_append, names_cons, hfirst.named, List.erase_append_right _ hbefore,
      List.erase_cons_head, names_append]
  refine ⟨before ++ after, drop_eq_ok_iff.mpr ⟨before, f, after, hfirst, rfl⟩, ?_⟩
  rw [hothers]
  exact project_names_of_subset hs hfirst.sublist.subset

/-- **Projections compose, and dropping is one of them.** Names that a projection was made for
give in it what they give in the schema itself, whatever is repeated among the names or among the
fields. Where the names of a schema are distinct, the projection to all of them changes nothing, and
the projection to all but one is the schema with the field of that name dropped. -/
theorem projections_compose (s : Schema) :
    (∀ xs ys t, ys ⊆ xs → s.project xs = .ok t →
      t.project ys = s.project ys ∧ ∃ u, s.project ys = .ok u) ∧
    (s.names.Nodup → s.project s.names = .ok s ∧
      ∀ name ∈ s.names, s.drop name = s.project (s.names.erase name) ∧ ∃ t, s.drop name = .ok t) := by
  refine ⟨fun xs ys t hsub h => ⟨?_, ?_⟩, fun hs => ⟨?_, fun name hname => ?_⟩⟩
  · exact project_congr fun name hname => field?_of_project h (hsub hname)
  · have hxs := exists_project_iff.mp ⟨t, h⟩
    exact exists_project_iff.mpr (List.Subset.trans hsub hxs)
  · exact project_names_of_subset hs (List.Subset.refl s)
  · obtain ⟨t, hdrop, hproject⟩ := exists_drop_and_project hs hname
    exact ⟨hdrop.trans hproject.symm, t, hdrop⟩

/-- Names asked for repeatedly, of a schema with two fields of one name; and a schema whose names
differ in case alone. -/
theorem projections_compose_repeated :
    let s := [Field.scalar "a" .int false, .struct "b" [.scalar "c" .date true] false,
      .scalar "a" .string true]
    let t := [Field.struct "b" [.scalar "c" .date true] false, .scalar "a" .int false,
      .struct "b" [.scalar "c" .date true] false]
    let u := [Field.scalar "id" .int false, .scalar "ID" .date true, .scalar "Id" .long false]
    (["a", "b", "a"] ⊆ ["b", "a", "b"] ∧ project s ["b", "a", "b"] = .ok t ∧ (names u).Nodup ∧
      "ID" ∈ names u) ∧
    project t ["a", "b", "a"] = project s ["a", "b", "a"] ∧ project u ["id", "ID", "Id"] = .ok u ∧
      drop u "ID" = project u ["id", "Id"] := by
  intro s t u
  have hsub : ["a", "b", "a"] ⊆ ["b", "a", "b"] := by decide
  have ht : project s ["b", "a", "b"] = .ok t := by decide +kernel
  have hu : (names u).Nodup := by decide +kernel
  have hname : "ID" ∈ names u := by decide +kernel
  obtain ⟨hcompose, -⟩ := projections_compose s
  obtain ⟨-, hdistinct⟩ := projections_compose u
  obtain ⟨hall, hothers⟩ := hdistinct hu
  exact ⟨⟨hsub, ht, hu, hname⟩, (hcompose _ _ t hsub ht).1, hall, (hothers _ hname).1⟩

end Schema
end RecordSchema
