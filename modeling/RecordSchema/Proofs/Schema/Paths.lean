import RecordSchema.Proofs.Schema.WellFormed

/-!
# Paths of fields

A field stands at a place: the indices on the way down to it through nested schemas. The names on
the same way, joined by the delimiter, are its path. Indices address every field of every schema;
a path does so only where no name contains the delimiter and siblings have different names.

`Schema.HasFieldAt` says which field stands at a place, and what the names on the way are. Looking
up these names one after the other leads to the field where names are distinct
(`Schema.WellFormed.fieldAlong?_iff`), and a path without delimiters in its names is the only text
with these names as pieces. `Schema.fieldAt?_exactly_paths` puts the two together.
-/

namespace RecordSchema
namespace Schema

variable {p : Policy} {s t : Schema} {f g : Field} {i j : Nat} {place place' : List Nat}
  {name : String} {way : List String}

/-- The field `f` stands at `place`, the indices on the way down to it, outermost first. The names
on this way are `way`, the last of them that of `f` itself. -/
inductive HasFieldAt : Schema → List Nat → List String → Field → Prop
  | top {s : Schema} {i : Nat} {name : String} {f : Field} :
    s[i]? = some f → f.name = name → HasFieldAt s [i] [name] f
  | inner {s t : Schema} {i : Nat} {name : String} {f g : Field} {place : List Nat}
      {way : List String} :
    s[i]? = some f → f.name = name → f.nested = some t → HasFieldAt t place way g →
      HasFieldAt s (i :: place) (name :: way) g

/-- There is a name on the way to a field, if only its own. -/
theorem HasFieldAt.way_ne_nil (h : s.HasFieldAt place way f) : way ≠ [] := by
  cases h with
  | top => exact List.cons_ne_nil _ _
  | inner => exact List.cons_ne_nil _ _

/-- The names on the way to a field of a well-formed schema are proper. Under strict names they are
without the delimiter, and so a path made of them can be cut again. -/
theorem HasFieldAt.nameFault? (h : s.HasFieldAt place way f) (hs : s.WellFormed p) :
    ∀ name ∈ way, p.nameFault? name = none := by
  induction h with
  | top hi hname =>
    have hf := hs.field (List.mem_of_getElem? hi)
    exact List.forall_mem_singleton.mpr (hname ▸ hf.proper.name)
  | inner hi hname ht _ ih =>
    have hf := hs.field (List.mem_of_getElem? hi)
    exact List.forall_mem_cons.mpr ⟨hname ▸ hf.proper.name, ih (hf.below _ ht)⟩

/-- What is found by a name has the name and stands at some index of the level. -/
theorem exists_index_of_field? (h : s.field? name = some f) :
    f.name = name ∧ ∃ i : Nat, s[i]? = some f := by
  have hname := List.find?_some h
  exact ⟨beq_iff_eq.mp hname, List.getElem?_of_mem (List.mem_of_find?_eq_some h)⟩

/-- With distinct names one index has a name, so fields of one name stand at one index. Fields with
equal content but different names may well be there more than once. -/
theorem index_eq_of_name_eq (hs : s.names.Nodup) (hi : s[i]? = some f) (hj : s[j]? = some g)
    (hname : f.name = g.name) : i = j := by
  have hlt : i < s.names.length := by
    rw [names, List.length_map]
    exact (List.getElem?_eq_some_iff.mp hi).1
  have hnames : s.names[i]? = s.names[j]? := by
    rw [names, List.getElem?_map, List.getElem?_map, hi, hj, Option.map_some, Option.map_some, hname]
  exact (List.getElem?_inj hlt hs).mp hnames

/-- With distinct names a field is found by its own, whatever its index. Without distinct names the
search would give the first field of that name, which may be another. -/
theorem field?_of_getElem? (hs : s.names.Nodup) (hi : s[i]? = some f) :
    s.field? f.name = some f := by
  cases h : s.field? f.name with
  | none =>
    have hne := List.find?_eq_none.mp h f (List.mem_of_getElem? hi)
    exact absurd (beq_self_eq_true f.name) hne
  | some g =>
    obtain ⟨hname, j, hj⟩ := exists_index_of_field? h
    obtain rfl := index_eq_of_name_eq hs hi hj hname.symm
    exact hj.symm.trans hi

/-- What names lead to has them on its way. Where names are repeated, this is the first of several
such places, so the schema need not be valid. -/
theorem exists_hasFieldAt_of_fieldAlong? (h : s.fieldAlong? way = some f) :
    ∃ place, s.HasFieldAt place way f := by
  induction way generalizing s with
  | nil => cases h
  | cons name rest ih =>
    cases rest with
    | nil =>
      obtain ⟨hname, i, hi⟩ := exists_index_of_field? h
      exact ⟨[i], .top hi hname⟩
    | cons next rest =>
      rw [fieldAlong?] at h
      split at h
      · rename_i g hg
        split at h
        · rename_i t ht
          obtain ⟨hname, i, hi⟩ := exists_index_of_field? hg
          obtain ⟨place, hf⟩ := ih h
          exact ⟨i :: place, .inner hi hname ht hf⟩
        · cases h
      · cases h

/-- In a well-formed schema names lead to the field that has them on its way: among siblings there
is only one of each name, at every level. -/
theorem WellFormed.fieldAlong?_iff (hs : s.WellFormed p) :
    s.fieldAlong? way = some f ↔ ∃ place, s.HasFieldAt place way f := by
  refine ⟨exists_hasFieldAt_of_fieldAlong?, ?_⟩
  rintro ⟨place, h⟩
  induction h with
  | top hi hname => exact hname ▸ field?_of_getElem? (names_nodup_of_wellFormed hs) hi
  | inner hi hname ht hg ih =>
    have hfield := field?_of_getElem? (names_nodup_of_wellFormed hs) hi
    rw [← hname, fieldAlong?_cons_of_nested hfield ht hg.way_ne_nil]
    exact ih (hs.nested (List.mem_of_getElem? hi) ht)

/-- In a well-formed schema the names on the way tell the place, one index after the other. At each
level the name has one index, its field one schema of children, and there the rest of the way goes
on. -/
theorem HasFieldAt.place_eq (h : s.HasFieldAt place way f) (h' : s.HasFieldAt place' way g)
    (hs : s.WellFormed p) : place = place' := by
  induction h generalizing place' with
  | top hi hname =>
    cases h' with
    | top hj hname' =>
      rw [index_eq_of_name_eq (names_nodup_of_wellFormed hs) hi hj (hname.trans hname'.symm)]
    | inner _ _ _ hg => exact absurd rfl hg.way_ne_nil
  | inner hi hname ht hf ih =>
    cases h' with
    | top => exact absurd rfl hf.way_ne_nil
    | inner hj hname' ht' hg =>
      obtain rfl :=
        index_eq_of_name_eq (names_nodup_of_wellFormed hs) hi hj (hname.trans hname'.symm)
      obtain rfl := Option.some.inj (hi.symm.trans hj)
      obtain rfl := Option.some.inj (ht.symm.trans ht')
      rw [ih hg (hs.nested (List.mem_of_getElem? hi) ht)]

/-- Under strict names a path is cut into the names on the way, since none of them contains the
delimiter. -/
theorem HasFieldAt.split_joinPath (h : s.HasFieldAt place way f) (hs : s.WellFormed p)
    (hstrict : p.strictNames = true) : Text.split p.delimiter (p.joinPath way) = way :=
  Text.split_join h.way_ne_nil fun name hname =>
    (Policy.nameFault?_eq_none_iff.mp (h.nameFault? hs name hname)).2 hstrict

/-- **Under strict names paths and fields correspond one to one.** In a valid schema the path of a
field, at whatever depth, is looked up to this field; fields at different places have different
paths; a text that is looked up to a field is the path of that field; and any other text is looked
up to nothing. -/
theorem fieldAt?_exactly_paths (p : Policy) (s : Schema) (hstrict : p.strictNames = true)
    (hs : s.isValid p = true) :
    (∀ place way f, s.HasFieldAt place way f →
      s.fieldAt? (p.joinPath way) p.delimiter = some f) ∧
    (∀ place way f place' way' f', s.HasFieldAt place way f → s.HasFieldAt place' way' f' →
      place ≠ place' → p.joinPath way ≠ p.joinPath way') ∧
    (∀ path f, s.fieldAt? path p.delimiter = some f →
      ∃ place way, s.HasFieldAt place way f ∧ p.joinPath way = path) ∧
    ∀ path, (∀ place way f, s.HasFieldAt place way f → p.joinPath way ≠ path) →
      s.fieldAt? path p.delimiter = none := by
  have hwell := isValid_iff.mp hs
  have hpath : ∀ path f, s.fieldAt? path p.delimiter = some f →
      ∃ place way, s.HasFieldAt place way f ∧ p.joinPath way = path := by
    intro path f h
    obtain ⟨place, hf⟩ := exists_hasFieldAt_of_fieldAlong? h
    exact ⟨place, _, hf, Text.join_split p.delimiter path⟩
  refine ⟨fun place way f hf => ?_, fun place way f place' way' f' hf hf' hne heq => hne ?_, hpath,
    fun path hother => ?_⟩
  · rw [fieldAt?, hf.split_joinPath hwell hstrict]
    exact hwell.fieldAlong?_iff.mpr ⟨place, hf⟩
  · have hway : way = way' := by
      rw [← hf.split_joinPath hwell hstrict, heq, hf'.split_joinPath hwell hstrict]
    subst hway
    exact hf.place_eq hf' hwell
  · refine Option.eq_none_iff_forall_ne_some.mpr fun f h => ?_
    obtain ⟨place, way, hf, heq⟩ := hpath path f h
    exact hother place way f hf heq

/-- Two fields that are equal but for their places, below siblings that tell them apart. The policy
passes case over, but paths are looked up as they are spelled. -/
theorem fieldAt?_exactly_paths_homes :
    let p : Policy := { strictNames := true, caseSensitive := false, delimiter := '/' }
    let zip := Field.scalar "zip" .string true
    let s := [Field.struct "home" [zip] false,
      .struct "work" [.scalar "since" .date false, zip] true]
    (p.strictNames = true ∧ isValid p s = true) ∧
      HasFieldAt s [0, 0] ["home", "zip"] zip ∧ HasFieldAt s [1, 1] ["work", "zip"] zip ∧
        fieldAt? s "home/zip" '/' = some zip ∧ fieldAt? s "work/zip" '/' = some zip ∧
          "home/zip" ≠ "work/zip" := by
  intro p zip s
  have hs : isValid p s = true := by decide
  have hhome : HasFieldAt s [0, 0] ["home", "zip"] zip := .inner rfl rfl rfl (.top rfl rfl)
  have hwork : HasFieldAt s [1, 1] ["work", "zip"] zip := .inner rfl rfl rfl (.top rfl rfl)
  obtain ⟨hfound, hdiffer, -, -⟩ := fieldAt?_exactly_paths p s rfl hs
  exact ⟨⟨rfl, hs⟩, hhome, hwork, hfound _ _ _ hhome, hfound _ _ _ hwork,
    hdiffer _ _ _ _ _ _ hhome hwork (by decide)⟩

end Schema
end RecordSchema
