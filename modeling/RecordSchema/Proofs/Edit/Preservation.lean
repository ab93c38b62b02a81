import RecordSchema.Proofs.Edit.Lowercase
import RecordSchema.Proofs.Edit.Projection
import RecordSchema.Proofs.Merge.WellFormed
import RecordSchema.Schema.Canonical

/-!
# Edits keep schemas valid

Few edits look at their result. Adding, renaming and lower-casing build one level anew and so see
repeated names there; the others, and all that is below that level, rely on what they were given.
`Edit.Admissible` says what an edit has to bring along for that: a field to be added is
well-formed but for its name, a schema to be merged is valid, a projection names no field twice,
and names are lower-cased only where they are not strict, since the delimiter may be the lower case
of a letter.

One edit keeps a schema well-formed (`Edit.Admissible.step_wellFormed`), by a lemma for each kind;
so a run of edits does, whichever of them fail (`Edit.run_wellFormed`).
-/

namespace RecordSchema

variable {p : Policy}

namespace Schema

variable {s t : Schema} {f g : Field} {before after : Schema} {name : String}

/-- An added field keeps a schema well-formed if its shape and its children are as they should be,
which adding does not check. -/
theorem WellFormed.add (hs : s.WellFormed p) (hshape : f.nested.isSome = f.type.isStruct)
    (hchildren : f.nested = some [] → p.allowEmptyStruct = true)
    (hbelow : ∀ u : Schema, f.nested = some u → u.WellFormed p) (h : s.add p f = .ok t) :
    t.WellFormed p := by
  obtain ⟨hname, rfl, hkeys⟩ := add_eq_ok_iff.mp h
  refine wellFormed_iff.mpr ⟨hkeys, fun g hg => ?_⟩
  rcases List.mem_append.mp hg with hg | hg
  · exact hs.field hg
  · obtain rfl := List.mem_singleton.mp hg
    exact ⟨⟨hname, hshape, hchildren⟩, hbelow⟩

/-- Without one of its fields a schema stays well-formed. -/
theorem WellFormed.drop (hs : s.WellFormed p) (h : s.drop name = .ok t) : t.WellFormed p := by
  obtain ⟨before, f, after, hfirst, rfl⟩ := drop_eq_ok_iff.mp h
  have hsub := hfirst.sublist
  refine wellFormed_iff.mpr ⟨hs.keys_nodup.sublist (hsub.map _), fun g hg => ?_⟩
  exact hs.field (hsub.subset hg)

/-- One field may be put in the place of another when its key is not taken. All edits of a single
field are of this kind. -/
theorem WellFormed.replace (hs : s.WellFormed p) (hfirst : s.FirstNamed name before f after)
    (hg : f.WellFormed p → g.WellFormed p) (hkeys : (keys p (before ++ g :: after)).Nodup) :
    WellFormed p (before ++ g :: after) := by
  rw [hfirst.split] at hs
  refine wellFormed_iff.mpr ⟨hkeys, fun x hx => ?_⟩
  rcases List.mem_append.mp hx with hx | hx
  · exact hs.field (List.mem_append_left _ hx)
  · rcases List.mem_cons.mp hx with rfl | hx
    · exact hg (hs.field (List.mem_append_right _ List.mem_cons_self))
    · exact hs.field (List.mem_append_right _ (List.mem_cons_of_mem _ hx))

/-- One field may be put in the place of another of the same name, as keys do not change then. Every
edit inside one field, renaming apart, is of this kind. -/
theorem WellFormed.replace_of_name_eq (hs : s.WellFormed p)
    (hfirst : s.FirstNamed name before f after) (hg : f.WellFormed p → g.WellFormed p)
    (hname : g.name = f.name) : WellFormed p (before ++ g :: after) := by
  refine hs.replace hfirst hg ?_
  have hkeys := hs.keys_nodup
  rwa [hfirst.split, keys_append, keys_cons, ← hname, ← keys_cons, ← keys_append] at hkeys

/-- A renamed field keeps a schema well-formed: the new name was checked, alone and beside the
others. -/
theorem WellFormed.rename {new : String} (hs : s.WellFormed p) (h : s.rename p name new = .ok t) :
    t.WellFormed p := by
  obtain ⟨before, f, after, hfirst, hnew, rfl, hkeys⟩ := rename_eq_ok_iff.mp h
  exact hs.replace hfirst (fun hf => hf.of_nested_eq hnew rfl rfl) hkeys

/-- A field of another type keeps a schema well-formed, since the type is a Struct only where it was
one. -/
theorem WellFormed.retype {type : FieldType} (hs : s.WellFormed p)
    (h : s.retype name type = .ok t) : t.WellFormed p := by
  obtain ⟨before, f, after, hfirst, htype, rfl⟩ := retype_eq_ok_iff.mp h
  exact hs.replace_of_name_eq hfirst (fun hf => hf.of_nested_eq hf.proper.name htype rfl) rfl

/-- Whether values may be missing has no part in well-formedness. -/
theorem WellFormed.setNullable {nullable : Bool} (hs : s.WellFormed p)
    (h : s.setNullable name nullable = .ok t) : t.WellFormed p := by
  obtain ⟨before, f, after, hfirst, rfl⟩ := setNullable_eq_ok_iff.mp h
  exact hs.replace_of_name_eq hfirst (fun hf => hf.of_nested_eq hf.proper.name rfl rfl) rfl

/-- A level without annotations is empty only when the level is. -/
theorem withoutMetadata_eq_nil_iff : s.withoutMetadata = [] ↔ s = [] := by
  rw [withoutMetadata_eq_map, List.map_eq_nil_iff]

end Schema

/-- Without its annotations a schema stays well-formed, level by level, since names, types and
shapes stay. -/
theorem Schema.WellFormed.withoutMetadata {s : Schema} (hs : s.WellFormed p) :
    s.withoutMetadata.WellFormed p := by
  induction s using levelInduction with
  | step s ih =>
    have hkeys : keys p s.withoutMetadata = s.keys p := by
      unfold keys
      rw [withoutMetadata_eq_map, List.map_map]
      refine List.map_congr_left fun f _ => ?_
      rw [Function.comp_apply, Field.withoutMetadata_eq]
    refine wellFormed_iff.mpr ⟨hkeys ▸ hs.keys_nodup, fun g hg => ?_⟩
    rw [withoutMetadata_eq_map] at hg
    obtain ⟨f, hf, rfl⟩ := List.mem_map.mp hg
    have hwell := hs.field hf
    rw [Field.withoutMetadata_eq]
    refine ⟨⟨hwell.proper.name, ?_, fun hnil => ?_⟩, fun u hu => ?_⟩
    · rw [← hwell.proper.shape, Option.isSome_map]
    · obtain ⟨t, ht, htnil⟩ := Option.map_eq_some_iff.mp hnil
      obtain rfl := withoutMetadata_eq_nil_iff.mp htnil
      exact hwell.proper.children ht
    · obtain ⟨t, ht, rfl⟩ := Option.map_eq_some_iff.mp hu
      exact ih f hf t ht (hwell.below t ht)

namespace Edit

variable {s t : Schema} {e : Edit} {edits : List Edit}

/-- What an edit brings along is as it should be: a field to be added has the right shape and
valid children, a projection names no field twice, a schema to be merged is valid, and names are
lower-cased only where they are not strict. -/
def Admissible (p : Policy) : Edit → Prop
  | add f => f.nested.isSome = f.type.isStruct ∧
    (f.nested = some [] → p.allowEmptyStruct = true) ∧
      ∀ u : Schema, f.nested = some u → u.isValid p = true
  | project names => names.Nodup
  | lowercase => p.strictNames = false
  | merge other => other.isValid p = true
  | drop _ | rename _ _ | retype _ _ | setNullable _ _ | stripMetadata => True

instance (p : Policy) : (e : Edit) → Decidable (e.Admissible p)
  | add f =>
    inferInstanceAs (Decidable (_ ∧ (_ → _) ∧ ∀ u ∈ f.nested, Schema.isValid p u = true))
  | project names => inferInstanceAs (Decidable names.Nodup)
  | lowercase => inferInstanceAs (Decidable (p.strictNames = false))
  | merge other => inferInstanceAs (Decidable (other.isValid p = true))
  | drop _ | rename _ _ | retype _ _ | setNullable _ _ | stripMetadata =>
    inferInstanceAs (Decidable True)

/-- An edit that succeeds gives a well-formed schema, if what it brings along is as it should be.
There is one lemma for each kind of edit. -/
theorem Admissible.apply_wellFormed (he : e.Admissible p) (hs : s.WellFormed p)
    (h : e.apply p s = .ok t) : t.WellFormed p := by
  cases e with
  | add f =>
    obtain ⟨hshape, hchildren, hbelow⟩ := he
    exact hs.add hshape hchildren (fun u hu => Schema.isValid_iff.mp (hbelow u hu)) h
  | drop name => exact hs.drop h
  | rename old new => exact hs.rename h
  | project names => exact hs.project he h
  | retype name type => exact hs.retype h
  | setNullable name nullable => exact hs.setNullable h
  | lowercase => exact hs.lowercase he h
  | stripMetadata =>
    obtain rfl := Except.ok.inj h
    exact hs.withoutMetadata
  | merge other => exact hs.merge (Schema.isValid_iff.mp he) h

/-- One edit keeps a schema well-formed, whether it succeeds or not: after a failure the schema is
the one it was. -/
theorem Admissible.step_wellFormed (he : e.Admissible p) (hs : s.WellFormed p) :
    (step p s e).WellFormed p := by
  unfold step
  split
  · rename_i t ht
    exact he.apply_wellFormed hs ht
  · exact hs

/-- A sequence of edits keeps a schema well-formed, by induction along the sequence with the schema
free. -/
theorem run_wellFormed (hedits : ∀ e ∈ edits, e.Admissible p) (hs : s.WellFormed p) :
    (run p s edits).WellFormed p := by
  induction edits generalizing s with
  | nil => exact hs
  | cons e edits ih =>
    obtain ⟨he, hedits⟩ := List.forall_mem_cons.mp hedits
    exact ih hedits (he.step_wellFormed hs)

/-- **Validity is an invariant of every run.** Starting from a valid schema, the schema after each
of the edits is valid, where edits that fail change nothing. The edits may be of all kinds and
follow each other in any order. -/
theorem isValid_run_take (p : Policy) (s : Schema) (edits : List Edit) (hs : s.isValid p = true)
    (hedits : ∀ e ∈ edits, e.Admissible p) (n : Nat) :
    (run p s (edits.take n)).isValid p = true := by
  have htaken : ∀ e ∈ edits.take n, e.Admissible p := fun e he => hedits e (List.mem_of_mem_take he)
  exact Schema.isValid_iff.mpr (run_wellFormed htaken (Schema.isValid_iff.mp hs))

/-- A run of all kinds of edits. The second field to be added repeats a name in other case and the
second one to be dropped is gone already; both edits change nothing. -/
theorem isValid_run_take_all_kinds :
    let p : Policy := { caseSensitive := false }
    let s := [(Field.scalar "ID" .int false).annotate "doc" "old"]
    let edits := [Edit.add (.struct "Owner" [.scalar "Name" .string false] true),
      .rename "ID" "Key", .add (.scalar "KEY" .short true), .retype "Key" .long,
      .merge [.scalar "key" .decimal false, .scalar "since" .date false], .lowercase,
      .project ["owner", "key"], .drop "since", .setNullable "key" true, .stripMetadata]
    (Schema.isValid p s = true ∧ ∀ e ∈ edits, e.Admissible p) ∧
      (run p s (edits.take 10)).isValid p = true ∧
        (run p s edits).text = "owner:Struct?<name:String>, key:Decimal?" := by
  intro p s edits
  have hs : Schema.isValid p s = true := by decide +kernel
  have hedits : ∀ e ∈ edits, e.Admissible p := by decide +kernel
  have htext : (run p s edits).text = "owner:Struct?<name:String>, key:Decimal?" := by
    decide +kernel
  exact ⟨⟨hs, hedits⟩, isValid_run_take p s edits hs hedits 10, htext⟩

end Edit
end RecordSchema
