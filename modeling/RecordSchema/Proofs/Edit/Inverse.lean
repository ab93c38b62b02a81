import RecordSchema.Proofs.Edit.Outcomes
import RecordSchema.Proofs.Schema.WellFormed

/-!
# Edits that undo one another

A field that was added can be dropped, a name that was changed can be changed back, and a field that
was dropped can be added again, though it comes last then. An edit finds a field by its exact name
and takes the first, but it refuses names by their keys, and looks at the whole level for that. So a
name that an edit has written is there once, however the policy compares names, and the edit that
undoes it finds the field that was edited and no earlier one
(`Schema.firstNamed_of_keys_nodup`). What the check of the second edit asks for, proper names and
distinct keys, is what a valid schema had before the first.
-/

namespace RecordSchema

variable {p : Policy}

/-- A field with another name, given its own again, is the field. -/
theorem Field.rename_rename (f : Field) (new : String) :
    { { f with name := new } with name := f.name } = f := by
  obtain ⟨name, type, nullable, metadata, nested⟩ := f
  rfl

namespace Schema

variable {s t before after : Schema} {f : Field} {old new : String}

/-- Where keys are distinct, a field is the first of its name: an earlier one would have the same
key, however names are compared. -/
theorem firstNamed_of_keys_nodup (h : (keys p (before ++ f :: after)).Nodup) :
    FirstNamed (before ++ f :: after) f.name before f after := by
  have hnames := names_nodup_of_keys_nodup h
  rw [names_append, names_cons, List.nodup_append] at hnames
  obtain ⟨-, -, hdisjoint⟩ := hnames
  refine ⟨rfl, rfl, fun g hg => ?_⟩
  exact hdisjoint g.name (List.mem_map_of_mem hg) f.name List.mem_cons_self

/-- A field that was added is dropped. The schema need not be valid, since adding a field looks at
the whole level: an earlier field of the name would have stopped it. -/
theorem drop_of_add (h : s.add p f = .ok t) : t.drop f.name = .ok s := by
  obtain ⟨-, rfl, hkeys⟩ := add_eq_ok_iff.mp h
  exact drop_eq_ok_iff.mpr ⟨s, f, [], firstNamed_of_keys_nodup hkeys, List.append_nil s⟩

/-- A field of a well-formed schema that was renamed gets its name back, which is proper and was not
taken. In other schemas the check of the old name could fail. -/
theorem WellFormed.rename_back (hs : s.WellFormed p) (hfirst : s.FirstNamed old before f after)
    (hkeys : (keys p (before ++ { f with name := new } :: after)).Nodup) :
    rename p (before ++ { f with name := new } :: after) new old = .ok s := by
  obtain ⟨rfl, rfl, -⟩ := hfirst
  have hf := hs.field (List.mem_append_right before List.mem_cons_self)
  refine rename_eq_ok_iff.mpr
    ⟨before, _, after, firstNamed_of_keys_nodup hkeys, hf.proper.name, ?_, hs.keys_nodup⟩
  rw [Field.rename_rename]

/-- A field of a well-formed schema that was dropped is added again, as the last. Its key is free,
as keys were distinct with it. -/
theorem WellFormed.add_back (hs : WellFormed p (before ++ f :: after)) :
    add p (before ++ after) f = .ok (before ++ after ++ [f]) := by
  have hf := hs.field (List.mem_append_right before List.mem_cons_self)
  have hmoved : (before ++ f :: after).Perm (before ++ after ++ [f]) :=
    List.perm_middle.trans (List.perm_append_singleton f (before ++ after)).symm
  have hkeys : (keys p (before ++ after ++ [f])).Nodup :=
    (hmoved.map _).nodup_iff.mp hs.keys_nodup
  exact add_eq_ok_iff.mpr ⟨hf.proper.name, rfl, hkeys⟩

/-- **Edits of fields can be undone.** Where adding a field to a schema, valid or not, succeeds,
dropping the name of the field gives the schema back. If the schema is valid, a renaming that
succeeds changes nothing but one name and is undone by the opposite renaming; and for each name
dropping the field and adding it again succeeds, and moves the field behind all others. -/
theorem edits_undo_each_other (p : Policy) (s : Schema) :
    (∀ f t, s.add p f = .ok t → t.drop f.name = .ok s) ∧
    (s.isValid p = true →
      (∀ old new t, s.rename p old new = .ok t →
        (∃ before f after, s = before ++ f :: after ∧ f.name = old ∧
          t = before ++ { f with name := new } :: after) ∧
        t.rename p new old = .ok s) ∧
      ∀ name ∈ s.names, ∃ before f after, s = before ++ f :: after ∧ f.name = name ∧
        s.drop name = .ok (before ++ after) ∧
        add p (before ++ after) f = .ok (before ++ after ++ [f])) := by
  refine ⟨fun f t h => drop_of_add h, fun hs => ⟨fun old new t h => ?_, fun name hname => ?_⟩⟩
  · obtain ⟨before, f, after, hfirst, -, rfl, hkeys⟩ := rename_eq_ok_iff.mp h
    refine ⟨⟨before, f, after, hfirst.split, hfirst.named, rfl⟩, ?_⟩
    exact (isValid_iff.mp hs).rename_back hfirst hkeys
  · obtain ⟨f, hf, rfl⟩ := List.mem_map.mp hname
    obtain ⟨before, after, rfl⟩ := List.append_of_mem hf
    have hwell := isValid_iff.mp hs
    have hfirst := firstNamed_of_keys_nodup hwell.keys_nodup
    exact ⟨before, f, after, rfl, rfl, drop_eq_ok_iff.mpr ⟨before, f, after, hfirst, rfl⟩,
      hwell.add_back⟩

/-- With case passed over: a field to be added, one to be given its own name in other case, and one
to be dropped and added again. The name in other case has the key of the old one, which is not
taken, as it is the key of the field itself. -/
theorem edits_undo_each_other_case :
    let p : Policy := { caseSensitive := false }
    let id := (Field.scalar "ID" .int false).annotate "doc" "key"
    let owner := Field.struct "Owner" [.scalar "Name" .string true] false
    let since := Field.scalar "since" .date true
    let s := [id, owner]
    (add p s since = .ok [id, owner, since] ∧ isValid p s = true ∧
      rename p s "ID" "id" = .ok [{ id with name := "id" }, owner] ∧ "ID" ∈ names s) ∧
    drop [id, owner, since] "since" = .ok s ∧
      rename p [{ id with name := "id" }, owner] "id" "ID" = .ok s ∧
        ∃ t f, drop s "ID" = .ok t ∧ f.name = "ID" ∧ add p t f = .ok (t ++ [f]) := by
  intro p id owner since s
  have hadd : add p s since = .ok [id, owner, since] := by decide +kernel
  have hs : isValid p s = true := by decide +kernel
  have hrename : rename p s "ID" "id" = .ok [{ id with name := "id" }, owner] := by decide +kernel
  have hname : "ID" ∈ names s := by decide +kernel
  obtain ⟨hundo, hvalid⟩ := edits_undo_each_other p s
  obtain ⟨hrenames, hmoves⟩ := hvalid hs
  obtain ⟨-, hback⟩ := hrenames _ _ _ hrename
  obtain ⟨before, f, after, -, hf, hdrop, hagain⟩ := hmoves _ hname
  exact ⟨⟨hadd, hs, hrename, hname⟩, hundo _ _ hadd, hback, before ++ after, f, hdrop, hf, hagain⟩

end Schema
end RecordSchema
