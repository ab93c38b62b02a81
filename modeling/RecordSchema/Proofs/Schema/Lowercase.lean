import RecordSchema.Proofs.Edit.Outcomes
import RecordSchema.Proofs.Text.Lowercase

/-!
# Schemas in lower case

Lower-casing a schema does two things: it writes every name in lower case, and it refuses siblings
whose names have become the same. `Schema.lowered` does the first alone, and
`Schema.lowercase_eq_ok_iff_lowered` says that the second is all there is beside it.

Names in lower case are keys of the policies that pass case over (`Schema.keys_lowered`). So if
names are distinct under one of these, they are distinct in lower case, under any policy.
-/

namespace RecordSchema

/-- A name in lower case is its own key, whether the policy passes case over or not: to lower-case
it again changes nothing. -/
theorem Policy.nameKey_lowercase (p : Policy) (name : String) :
    p.nameKey (Text.lowercase name) = Text.lowercase name := by
  rw [nameKey, Text.lowercase_lowercase, ite_self]

mutual

/-- The field with its name and all names below it in lower case. -/
def Field.lowered : Field → Field
  | ⟨name, type, nullable, metadata, none⟩ =>
    ⟨Text.lowercase name, type, nullable, metadata, none⟩
  | ⟨name, type, nullable, metadata, some fields⟩ =>
    ⟨Text.lowercase name, type, nullable, metadata, some (Schema.lowered fields)⟩

/-- The schema with the names of all levels in lower case, whatever becomes the same by it. -/
def Schema.lowered : Schema → Schema
  | [] => []
  | f :: rest => f.lowered :: Schema.lowered rest

end

/-- In lower case a field keeps all but its name, and its children are in lower case. The equation
covers fields with and without children. -/
theorem Field.lowered_eq (f : Field) :
    f.lowered =
      { f with name := Text.lowercase f.name, nested := f.nested.map Schema.lowered } := by
  obtain ⟨name, type, nullable, metadata, nested⟩ := f
  cases nested with
  | none => rw [Field.lowered, Option.map_none]
  | some fields => rw [Field.lowered, Option.map_some]

/-- The name of a lower-cased field is its name in lower case. -/
@[simp]
theorem Field.lowered_name (f : Field) : f.lowered.name = Text.lowercase f.name := by
  rw [Field.lowered_eq]

/-- A lower-cased field keeps its type. -/
@[simp]
theorem Field.lowered_type (f : Field) : f.lowered.type = f.type := by rw [Field.lowered_eq]

/-- The children of a lower-cased field are its children in lower case. -/
@[simp]
theorem Field.lowered_nested (f : Field) : f.lowered.nested = f.nested.map Schema.lowered := by
  rw [Field.lowered_eq]

/-- Whether a field is made nullable before it is lower-cased or afterwards does not matter. -/
theorem Field.lowered_asNullable (f : Field) : f.asNullable.lowered = f.lowered.asNullable := by
  rw [Field.lowered_eq, Field.lowered_eq]
  rfl

namespace Schema

variable {p q : Policy} {s t : Schema}

/-- Each field of a level is lower-cased on its own, in place. -/
theorem lowered_eq_map (s : Schema) : s.lowered = s.map Field.lowered := by
  induction s with
  | nil => rfl
  | cons f rest ih => rw [lowered, ih, List.map_cons]

/-- **Lower-casing fails for repeated names alone**, and else gives the schema with all names in
lower case. Distinctness is asked of the result, at every level, since names may become the same on
the way. -/
theorem lowercase_eq_ok_iff_lowered :
    s.lowercase p = .ok t ↔ s.lowered = t ∧ t.DistinctNames p := by
  induction s using levelInduction generalizing t with
  | step s ih =>
    have hfield : ∀ f ∈ s, ∀ g : Field, f.lowercase p = .ok g ↔
        f.lowered = g ∧ ∀ u : Schema, g.nested = some u → u.DistinctNames p := by
      intro f hf g
      rw [Field.lowercase_eq_ok_iff, Field.lowered_eq]
      cases hnested : f.nested with
      | none =>
        constructor
        · rintro ⟨_, ⟨⟩, rfl⟩
          exact ⟨rfl, fun _ h => nomatch h⟩
        · rintro ⟨rfl, -⟩
          exact ⟨none, .none, rfl⟩
      | some ls =>
        constructor
        · rintro ⟨_, ⟨hm⟩, rfl⟩
          obtain ⟨rfl, hdistinct⟩ := (ih f hf ls hnested).mp hm
          exact ⟨rfl, fun u hu => Option.some.inj hu ▸ hdistinct⟩
        · rintro ⟨rfl, hdistinct⟩
          have hm := (ih f hf ls hnested).mpr ⟨rfl, hdistinct _ rfl⟩
          exact ⟨_, .some hm, rfl⟩
    rw [lowercase_eq_ok_iff, forall₂_iff_map hfield, ← lowered_eq_map, distinctNames_iff, and_assoc,
      and_comm (a := (keys p t).Nodup)]

/-- Names in lower case are their own keys under any policy. So whether they are distinct does not
depend on it. -/
theorem keys_lowered_eq (q : Policy) (s : Schema) :
    s.lowered.keys q = s.names.map Text.lowercase := by
  rw [lowered_eq_map, keys, names, List.map_map, List.map_map]
  refine List.map_congr_left fun f _ => ?_
  show q.nameKey f.lowered.name = Text.lowercase f.name
  rw [Field.lowered_name, Policy.nameKey_lowercase]

/-- Names in lower case are the keys of a policy that passes case over, and stay so under any.
Distinct keys of the one policy are distinct names after lower-casing. -/
theorem keys_lowered (hp : p.caseSensitive = false) (q : Policy) (s : Schema) :
    s.lowered.keys q = s.keys p := by
  rw [keys_lowered_eq, names, keys, List.map_map]
  refine List.map_congr_left fun f _ => ?_
  show Text.lowercase f.name = p.nameKey f.name
  rw [Policy.nameKey, hp]
  rfl

/-- Names that are distinct with case passed over are distinct in lower case, at every level and
under any policy. -/
theorem DistinctNames.lowered (hp : p.caseSensitive = false) (hs : s.DistinctNames p)
    (q : Policy) : s.lowered.DistinctNames q := by
  induction s using levelInduction with
  | step s ih =>
    refine distinctNames_iff.mpr ⟨?_, fun g hg u hu => ?_⟩
    · rw [keys_lowered hp]
      exact hs.keys_nodup
    · rw [lowered_eq_map] at hg
      obtain ⟨f, hf, rfl⟩ := List.mem_map.mp hg
      rw [Field.lowered_nested, Option.map_eq_some_iff] at hu
      obtain ⟨t, ht, rfl⟩ := hu
      exact ih f hf t ht (hs.nested hf ht)

/-- A schema is lower-cased when its names are distinct with case passed over. Any valid schema of
such a policy is one. -/
theorem DistinctNames.lowercase_eq (hp : p.caseSensitive = false) (hs : s.DistinctNames p)
    (q : Policy) : s.lowercase q = .ok s.lowered :=
  lowercase_eq_ok_iff_lowered.mpr ⟨rfl, hs.lowered hp q⟩

end Schema
end RecordSchema
