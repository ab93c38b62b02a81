import RecordSchema.Proofs.Schema.Lowercase

/-!
# Names that lower case makes the same

Lower-casing fails for one reason: two siblings, somewhere in the schema, have names of one lower
case. Children are lower-cased before the level they belong to, and each level is checked beside the
keys of the policy. Names in lower case are their own keys, whatever the policy, so the check is the
same under each.

Where a failure comes from is said by `Schema.repeated_of_lowercase`. So lower-casing succeeds when
there is no such level, and what it gives is in lower case already
(`Schema.lowercase_fails_exactly_on_collisions`).
-/

namespace RecordSchema

variable {p : Policy} {e : Error}

/-- Of names in lower case, one with the key of an earlier one is that name again, since each is its
own key. So it is counted twice. -/
theorem Policy.count_of_repeated_lowercase {names before after : List String} {name : String}
    (hnames : names.map Text.lowercase = before ++ name :: after)
    (hkey : p.nameKey name ∈ before.map p.nameKey) :
    1 < (names.map Text.lowercase).count name := by
  have hself : ∀ n ∈ before ++ name :: after, p.nameKey n = n := by
    intro n hn
    obtain ⟨m, -, rfl⟩ := List.mem_map.mp (hnames ▸ hn)
    exact p.nameKey_lowercase m
  obtain ⟨n, hn, heq⟩ := List.mem_map.mp hkey
  have hmem : name ∈ before := by
    rw [hself n (List.mem_append_left _ hn),
      hself name (List.mem_append_right _ List.mem_cons_self)] at heq
    exact heq ▸ hn
  have hcount := List.count_pos_iff.mpr hmem
  rw [hnames, List.count_append, List.count_cons_self]
  omega

/-- A field is not lower-cased when its children are not, and for no other reason: its own name is
not checked. -/
theorem Field.exists_nested_of_lowercase {f : Field} (h : f.lowercase p = .error e) :
    ∃ ls : Schema, f.nested = some ls ∧ ls.lowercase p = .error e := by
  obtain ⟨name, type, nullable, metadata, nested⟩ := f
  cases nested with
  | none =>
    rw [Field.lowercase] at h
    cases h
  | some fields =>
    rw [Field.lowercase_some] at h
    rcases bind_eq_error_iff.mp h with h | ⟨_, _, h⟩
    · exact ⟨fields, rfl, h⟩
    · cases h

namespace Schema

variable {s t : Schema}

/-- The fields of a level are not lower-cased when one of them is not, and the error is the one of
that field. By going down with it the level of a collision is found. -/
theorem exists_mem_of_lowercaseEach (h : s.lowercaseEach p = .error e) :
    ∃ f ∈ s, f.lowercase p = .error e := by
  induction s with
  | nil => exact nomatch h
  | cons f rest ih =>
    rw [lowercaseEach] at h
    rcases cons_eq_error_iff.mp h with h | ⟨-, h⟩
    · exact ⟨f, List.mem_cons_self, h⟩
    · obtain ⟨g, hg, h⟩ := ih h
      exact ⟨g, List.mem_cons_of_mem _ hg, h⟩

/-- Fields that are lower-cased have the lower case of their names, in their order. So a level
collides when two of its names have one lower-case form, whatever is below. -/
theorem names_of_lowercaseEach (h : s.lowercaseEach p = .ok t) :
    t.names = s.names.map Text.lowercase := by
  have hfields := lowercaseEach_eq_ok_iff.mp h
  clear h
  induction hfields with
  | nil => rfl
  | cons hf _ ih =>
    obtain ⟨children, -, rfl⟩ := Field.lowercase_eq_ok_iff.mp hf
    exact congrArg (List.cons _) ih

/-- **A schema is not lower-cased for a level on which a name in lower case is there twice.** The
error has this name, in lower case, whatever the spellings were. -/
theorem repeated_of_lowercase (h : s.lowercase p = .error e) :
    ∃ u name, s.HasLevel u ∧ 1 < (u.names.map Text.lowercase).count name ∧
      e = .duplicateName name := by
  induction s using levelInduction with
  | step s ih =>
    rcases bind_eq_error_iff.mp h with h | ⟨t, ht, h⟩
    · obtain ⟨f, hf, hfield⟩ := exists_mem_of_lowercaseEach h
      obtain ⟨ls, hls, hbelow⟩ := Field.exists_nested_of_lowercase hfield
      obtain ⟨u, name, hu, hcount, rfl⟩ := ih f hf ls hls hbelow
      exact ⟨u, name, .inner hf hls hu, hcount, rfl⟩
    · obtain ⟨before, name, after, hnames, hkey, rfl⟩ := repeated_of_build h
      rw [names_of_lowercaseEach ht] at hnames
      exact ⟨s, name, .top s, Policy.count_of_repeated_lowercase hnames hkey, rfl⟩

/-- The levels of a schema, in lower case, are levels of the schema in lower case. A collision at
any depth thus keeps the result from being well-formed under any policy. -/
theorem HasLevel.lowered (h : s.HasLevel t) : s.lowered.HasLevel t.lowered := by
  induction h with
  | top s => exact .top _
  | @inner s t u f hf ht _ ih =>
    have hmem : f.lowered ∈ s.lowered := by
      rw [lowered_eq_map]
      exact List.mem_map_of_mem hf
    refine .inner hmem ?_ ih
    rw [Field.lowered_nested, ht, Option.map_some]

/-- A schema has a lower-case form when at no level two names have one lower case. The policy has no
part in this. -/
theorem exists_lowercase_iff :
    (∃ t, s.lowercase p = .ok t) ↔ ∀ u, s.HasLevel u → (u.names.map Text.lowercase).Nodup := by
  constructor
  · rintro ⟨t, ht⟩ u hu
    obtain ⟨rfl, hdistinct⟩ := lowercase_eq_ok_iff_lowered.mp ht
    rw [← keys_lowered_eq p]
    exact hdistinct _ hu.lowered
  · intro hdistinct
    cases h : s.lowercase p with
    | ok t => exact ⟨t, rfl⟩
    | error e =>
      obtain ⟨u, name, hu, hcount, -⟩ := repeated_of_lowercase h
      have hle := List.nodup_iff_count_le_one.mp (hdistinct u hu) name
      omega

/-- A schema in lower case stays as it is. Two names with one lower-case form are thus not told
apart by lower-casing them again, at any level. -/
theorem lowered_lowered (s : Schema) : s.lowered.lowered = s.lowered := by
  induction s using levelInduction with
  | step s ih =>
    rw [lowered_eq_map, lowered_eq_map, List.map_map]
    refine List.map_congr_left fun f hf => ?_
    have hnested : (f.nested.map lowered).map lowered = f.nested.map lowered := by
      cases ht : f.nested with
      | none => rfl
      | some t => exact congrArg some (ih f hf t ht)
    rw [Function.comp_apply, Field.lowered_eq f.lowered, Field.lowered_nested, hnested,
      Field.lowered_name, Text.lowercase_lowercase, Field.lowered_eq f]

/-- **Lower-casing fails exactly where names collide, and is final.** A schema has a lower-case form
when at every level, those below fields that are no Structs included, the names differ in lower case,
whatever the policy. The form differs from the schema in its names alone, each in lower case, and is
its own lower-case form. A failure names a name in lower case that two siblings of one level share. -/
theorem lowercase_fails_exactly_on_collisions (p : Policy) (s : Schema) :
    ((∃ t, s.lowercase p = .ok t) ↔
      ∀ u, s.HasLevel u → (u.names.map Text.lowercase).Nodup) ∧
    (∀ t, s.lowercase p = .ok t → t = s.lowered ∧ ∀ q, t.lowercase q = .ok t) ∧
    ∀ e, s.lowercase p = .error e → ∃ u name, s.HasLevel u ∧
      1 < (u.names.map Text.lowercase).count name ∧ e = .duplicateName name := by
  refine ⟨exists_lowercase_iff, fun t ht => ?_, fun e he => repeated_of_lowercase he⟩
  obtain ⟨rfl, -⟩ := lowercase_eq_ok_iff_lowered.mp ht
  refine ⟨rfl, fun q => ?_⟩
  -- which policy it was does not matter to `s`, so it does not to its lower-case form
  obtain ⟨t, hq⟩ := (exists_lowercase_iff (p := q)).mpr (exists_lowercase_iff.mp ⟨_, ht⟩)
  obtain ⟨rfl, hdistinct⟩ := lowercase_eq_ok_iff_lowered.mp hq
  exact lowercase_eq_ok_iff_lowered.mpr ⟨lowered_lowered s, hdistinct⟩

end Schema
end RecordSchema
