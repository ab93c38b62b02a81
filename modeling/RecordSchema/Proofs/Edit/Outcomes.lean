import RecordSchema.Proofs.Pairing
import RecordSchema.Proofs.Result
import RecordSchema.Proofs.Schema.Building
import RecordSchema.Schema.Edit

/-!
# When edits succeed, and with what

One statement for each edit: it succeeds exactly under a condition on the schema and its
arguments, and then gives the schema that is named. Edits that look a name up speak of the first
field that has it, with the fields `before` and `after` it (`Schema.FirstNamed`).
-/

namespace RecordSchema

variable {p : Policy}

namespace Schema

variable {s t before after before' after' : Schema} {f f' : Field} {name old new : String} {i : Nat}

/-- The first field of `s` with the name is `f`; it stands between the other two parts. -/
structure FirstNamed (s : Schema) (name : String) (before : Schema) (f : Field)
    (after : Schema) : Prop where
  split : s = before ++ f :: after
  named : f.name = name
  first : ∀ g ∈ before, g.name ≠ name

/-- A field is found by a name when it is the first that has it. The level is split at that field,
which is what an edit of the field needs: a new level is the two parts with something else between
them. -/
theorem field?_eq_some_iff :
    s.field? name = some f ↔ ∃ before after, s.FirstNamed name before f after := by
  rw [field?, List.find?_eq_some_iff_append]
  constructor
  · rintro ⟨hname, before, after, hs, hbefore⟩
    refine ⟨before, after, hs, beq_iff_eq.mp hname, fun g hg hgn => ?_⟩
    have hne := hbefore g hg
    rw [beq_iff_eq.mpr hgn] at hne
    exact Bool.false_ne_true hne
  · rintro ⟨before, after, hs, hname, hbefore⟩
    refine ⟨beq_iff_eq.mpr hname, before, after, hs, fun g hg => ?_⟩
    rw [beq_eq_false_iff_ne.mpr (hbefore g hg)]
    rfl

/-- The position of a name is the number of fields before the first that has it. Field and position
are thus read off one split, though the program looks them up by two searches. -/
theorem indexOf?_eq_some_iff :
    s.indexOf? name = some i ↔
      ∃ before f after, s.FirstNamed name before f after ∧ before.length = i := by
  rw [indexOf?]
  constructor
  · intro h
    obtain ⟨hi, hname, hfirst⟩ := List.findIdx?_eq_some_iff_getElem.mp h
    refine ⟨List.take i s, s[i], List.drop (i + 1) s,
      ⟨?_, beq_iff_eq.mp hname, fun g hg hgn => ?_⟩, List.length_take_of_le (Nat.le_of_lt hi)⟩
    · rw [← List.drop_eq_getElem_cons hi, List.take_append_drop]
    · obtain ⟨j, hj, rfl⟩ := List.mem_take_iff_getElem.mp hg
      exact hfirst j (Nat.lt_of_lt_of_le hj (Nat.min_le_left _ _)) (beq_iff_eq.mpr hgn)
  · rintro ⟨before, f, after, ⟨rfl, hname, hfirst⟩, rfl⟩
    have hbefore : List.findIdx? (fun g => g.name == name) before = none :=
      List.findIdx?_eq_none_iff.mpr fun g hg => beq_eq_false_iff_ne.mpr (hfirst g hg)
    rw [List.findIdx?_append, hbefore, List.findIdx?_cons, if_pos (beq_iff_eq.mpr hname)]
    simp

/-- The first field of a name stands behind those before it, which gives its position. -/
theorem FirstNamed.indexOf? (h : s.FirstNamed name before f after) :
    s.indexOf? name = some before.length := indexOf?_eq_some_iff.mpr ⟨_, _, _, h, rfl⟩

/-- There is one first field with a name, and one way to split the level at it. So what an edit
finds on its own and what a hypothesis names are the same. -/
theorem FirstNamed.unique (h : s.FirstNamed name before f after)
    (h' : s.FirstNamed name before' f' after') : before = before' ∧ f = f' ∧ after = after' := by
  have hlength : before.length = before'.length :=
    Option.some.inj (h.indexOf?.symm.trans h'.indexOf?)
  obtain ⟨hbefore, hrest⟩ := List.append_inj (h.split.symm.trans h'.split) hlength
  obtain ⟨hf, hafter⟩ := List.cons.inj hrest
  exact ⟨hbefore, hf, hafter⟩

/-- Without the field, the schema has its other fields in their order. -/
theorem FirstNamed.sublist (h : s.FirstNamed name before f after) :
    (before ++ after).Sublist s := by
  rw [h.split]
  exact (List.Sublist.refl before).append (List.sublist_cons_self f after)

/-- To erase at the position of a field is to leave out the field. -/
theorem FirstNamed.eraseIdx (h : s.FirstNamed name before f after) :
    s.eraseIdx before.length = before ++ after := by
  rw [h.split, List.eraseIdx_append_of_length_le (Nat.le_refl _), Nat.sub_self, List.eraseIdx_cons_zero]

/-- A change at the position of a field leaves those before and after it alone. The position is the
length of what stands before the field, so no search is done again. -/
theorem FirstNamed.modify (h : s.FirstNamed name before f after) (g : Field → Field) :
    s.modify before.length g = before ++ g f :: after := by
  have hlt : before.length < s.length := by
    rw [h.split, List.length_append, List.length_cons]
    omega
  obtain ⟨l, x, r, hs, hl, hmodify⟩ := List.exists_of_modify g hlt
  obtain ⟨rfl, hrest⟩ := List.append_inj (hs.symm.trans h.split) hl
  obtain ⟨rfl, rfl⟩ := List.cons.inj hrest
  exact hmodify

/-- What is done at the position of a name is done at the first field that has it. All edits that
look up a name go through this. -/
theorem position_bind_eq_ok_iff {k : Nat → Except Error Schema} :
    (do let i ← s.position name; k i) = .ok t ↔
      ∃ before f after, s.FirstNamed name before f after ∧ k before.length = .ok t := by
  rw [bind_eq_ok_iff, position]
  constructor
  · rintro ⟨i, hi, ht⟩
    split at hi
    · rename_i j hj
      obtain rfl := Except.ok.inj hi
      obtain ⟨before, f, after, hs, rfl⟩ := indexOf?_eq_some_iff.mp hj
      exact ⟨before, f, after, hs, ht⟩
    · exact nomatch hi
  · rintro ⟨before, f, after, hs, ht⟩
    refine ⟨before.length, ?_, ht⟩
    rw [hs.indexOf?]

/-- A change at the position of a name changes the first field that has it. It succeeds whenever
there is one. -/
theorem position_modify_eq_ok_iff {g : Field → Field} :
    (do let i ← s.position name; return s.modify i g) = .ok t ↔
      ∃ before f after, s.FirstNamed name before f after ∧ before ++ g f :: after = t := by
  rw [position_bind_eq_ok_iff]
  simp only [pure_eq_ok_iff]
  refine exists_congr fun before => exists_congr fun f => exists_congr fun after =>
    and_congr_right fun hs => ?_
  rw [hs.modify]

/-- A field is added when its name is proper and no name is repeated then. Its shape and its
children are not looked at. -/
theorem add_eq_ok_iff :
    s.add p f = .ok t ↔
      p.nameFault? f.name = none ∧ s ++ [f] = t ∧ (keys p (s ++ [f])).Nodup := by
  rw [add, bind_eq_ok_iff]
  simp only [Policy.checkName_eq_ok_iff, build_eq_ok_iff, exists_const]

/-- A field is dropped when there is one of the name, and then the first is left out. Nothing is
checked afterwards. -/
theorem drop_eq_ok_iff :
    s.drop name = .ok t ↔
      ∃ before f after, s.FirstNamed name before f after ∧ before ++ after = t := by
  rw [drop, position_bind_eq_ok_iff]
  simp only [pure_eq_ok_iff]
  refine exists_congr fun before => exists_congr fun f => exists_congr fun after =>
    and_congr_right fun hs => ?_
  rw [hs.eraseIdx]

/-- A field is renamed when the new name is proper and no name is repeated then. A level that
repeats names elsewhere refuses every renaming. -/
theorem rename_eq_ok_iff :
    s.rename p old new = .ok t ↔
      ∃ before f after, s.FirstNamed old before f after ∧ p.nameFault? new = none ∧
        before ++ { f with name := new } :: after = t ∧ (t.keys p).Nodup := by
  rw [rename, position_bind_eq_ok_iff]
  simp only [bind_eq_ok_iff, Policy.checkName_eq_ok_iff, build_eq_ok_iff, exists_const]
  refine exists_congr fun before => exists_congr fun f => exists_congr fun after =>
    and_congr_right fun hs => and_congr_right fun _ => ?_
  rw [hs.modify]
  refine and_congr_right fun ht => ?_
  rw [ht]

/-- A field can be asked for by its name when the name is found. -/
theorem fieldNamed_eq_ok_iff : s.fieldNamed name = .ok f ↔ s.field? name = some f := by
  rw [fieldNamed]
  cases s.field? name with
  | none => simp
  | some g => simp

/-- A projection gives the first field of each name, in the order of the names. Names may be
repeated, and so are fields then. -/
theorem project_eq_ok_iff {names : List String} :
    s.project names = .ok t ↔ List.Forall₂ (fun name f => s.field? name = some f) names t := by
  rw [project, mapM_eq_ok_iff]
  simp only [fieldNamed_eq_ok_iff]

/-- The fields of a projection have the names that were asked for, so they are repeated when these
are. -/
theorem names_of_project {names : List String} (h : s.project names = .ok t) :
    t.names = names := by
  have hrel := project_eq_ok_iff.mp h
  clear h
  induction hrel with
  | nil => rfl
  | cons hname _ ih =>
    obtain ⟨before, after, hfirst⟩ := field?_eq_some_iff.mp hname
    exact congrArg₂ List.cons hfirst.named ih

/-- The fields of a projection are fields of the schema. -/
theorem mem_of_project {names : List String} (h : s.project names = .ok t) (hf : f ∈ t) :
    f ∈ s := by
  obtain ⟨name, -, hname⟩ := exists_mem_of_forall₂ (project_eq_ok_iff.mp h) hf
  exact List.mem_of_find?_eq_some hname

/-- A field takes another type when both are Structs or neither is. Its children stay as they
are. -/
theorem retype_eq_ok_iff {type : FieldType} :
    s.retype name type = .ok t ↔
      ∃ before f after, s.FirstNamed name before f after ∧ f.type.isStruct = type.isStruct ∧
        before ++ { f with type } :: after = t := by
  rw [retype, bind_eq_ok_iff]
  constructor
  · rintro ⟨f, hf, h⟩
    obtain ⟨before, after, hs⟩ := field?_eq_some_iff.mp (fieldNamed_eq_ok_iff.mp hf)
    split at h
    · rename_i hshape
      obtain ⟨before', f', after', hs', ht⟩ := position_modify_eq_ok_iff.mp h
      obtain ⟨rfl, rfl, rfl⟩ := hs.unique hs'
      exact ⟨before, f, after, hs, hshape, ht⟩
    · exact nomatch h
  · rintro ⟨before, f, after, hs, hshape, ht⟩
    have hf := fieldNamed_eq_ok_iff.mpr (field?_eq_some_iff.mpr ⟨before, after, hs⟩)
    refine ⟨f, hf, ?_⟩
    rw [if_pos hshape]
    exact position_modify_eq_ok_iff.mpr ⟨before, f, after, hs, ht⟩

/-- Whether values may be missing can be said of any field that there is. -/
theorem setNullable_eq_ok_iff {nullable : Bool} :
    s.setNullable name nullable = .ok t ↔
      ∃ before f after, s.FirstNamed name before f after ∧
        before ++ { f with nullable } :: after = t := by
  rw [setNullable, position_modify_eq_ok_iff]

end Schema

section Lowercase

variable {s t : Schema} {f g : Field}

/-- The children of a field are lower-cased as a schema of their own, repeated names included. This
holds whatever the type of the field is. -/
theorem Field.lowercase_some (name : String) (type : FieldType) (nullable : Bool)
    (metadata : Metadata) (fields : List Field) :
    Field.lowercase p ⟨name, type, nullable, metadata, some fields⟩ = (do
      let nested ← Schema.lowercase p fields
      return ⟨Text.lowercase name, type, nullable, metadata, some nested⟩) := by
  rw [Field.lowercase, Schema.lowercase, bind_assoc]

/-- A field has a lower-case form when its children have. Its own name is lower-cased without a
check. -/
theorem Field.lowercase_eq_ok_iff :
    f.lowercase p = .ok g ↔
      ∃ children, Option.Rel (fun ls m => Schema.lowercase p ls = .ok m) f.nested children ∧
        { f with name := Text.lowercase f.name, nested := children } = g := by
  obtain ⟨name, type, nullable, metadata, nested⟩ := f
  cases nested with
  | none =>
    rw [Field.lowercase]
    constructor
    · intro h
      exact ⟨none, .none, Except.ok.inj h⟩
    · rintro ⟨_, ⟨⟩, rfl⟩
      rfl
  | some fields =>
    rw [Field.lowercase_some, bind_eq_ok_iff]
    simp only [pure_eq_ok_iff]
    constructor
    · rintro ⟨m, hm, rfl⟩
      exact ⟨some m, .some hm, rfl⟩
    · rintro ⟨_, ⟨hm⟩, rfl⟩
      exact ⟨_, hm, rfl⟩

/-- Fields are lower-cased one by one when each of them is. The relation on lists is the form in
which the members are reasoned about afterwards. -/
theorem Schema.lowercaseEach_eq_ok_iff :
    s.lowercaseEach p = .ok t ↔ List.Forall₂ (fun f g => f.lowercase p = .ok g) s t := by
  induction s generalizing t with
  | nil =>
    rw [lowercaseEach, List.forall₂_nil_left_iff]
    exact ⟨fun h => (Except.ok.inj h).symm, fun h => h ▸ rfl⟩
  | cons f rest ih =>
    rw [lowercaseEach, cons_eq_ok_iff, List.forall₂_cons_left_iff]
    simp only [ih]

/-- A schema has a lower-case form when its fields have and no name is repeated then. Unlike a
projection it is built again, and that is where a collision shows. -/
theorem Schema.lowercase_eq_ok_iff :
    s.lowercase p = .ok t ↔
      List.Forall₂ (fun f g => f.lowercase p = .ok g) s t ∧ (t.keys p).Nodup := by
  rw [lowercase, bind_eq_ok_iff]
  simp only [lowercaseEach_eq_ok_iff, build_eq_ok_iff]
  constructor
  · rintro ⟨_, hfields, rfl, hkeys⟩
    exact ⟨hfields, hkeys⟩
  · rintro ⟨hfields, hkeys⟩
    exact ⟨t, hfields, rfl, hkeys⟩

end Lowercase
end RecordSchema
