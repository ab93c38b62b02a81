import RecordSchema.Proofs.Schema.WellFormed

/-!
# What the report on a schema says

The examination of a schema walks down with the names on the way and the keys of the siblings it has
seen. What it reports can be said without either. A level is reported field by field: first what is
wrong with the field itself, beside the siblings before it (`Field.ownErrors`), then the report on
its children as a schema of their own, with the name of the field in front of every path
(`Field.violationsBelow`). `Schema.violations_eq_flatMap` says that this is the whole report, in its
order.

Putting a name in front of the paths is `Violation.relocate`. The path in the error of a mismatch
moves along with that of the violation; the problems of a name mention no path.
-/

namespace RecordSchema

/-- The error with the path that it mentions, if it does, replaced. -/
def Error.relocate (move : String → String) : Error → Error
  | structuralMismatch path type hasNested => structuralMismatch (move path) type hasNested
  | e => e

/-- The violation at another path, which its error mentions if it mentions the old one. -/
def Violation.relocate (move : String → String) (v : Violation) : Violation :=
  ⟨move v.path, v.error.relocate move⟩

/-- The path of a field below `name`, given its path from there. -/
def Policy.pathIn (p : Policy) (name path : String) : String :=
  name ++ String.singleton p.delimiter ++ path

section Paths

variable {p : Policy} {name child : String} {path seen : List String}

/-- A path that is not empty is put below a name by joining the name to it. The path without names
is the empty text, in front of which no delimiter belongs. -/
theorem Policy.pathIn_joinPath (hpath : path ≠ []) :
    p.pathIn name (p.joinPath path) = p.joinPath (name :: path) :=
  (Text.join_cons_of_ne_nil hpath).symm

/-- The problems of a name mention no path, so they are worded alike wherever the field stands. -/
theorem Policy.relocate_of_mem_nameErrors {e : Error} (move : String → String)
    (he : e ∈ p.nameErrors seen child) : e.relocate move = e := by
  rcases mem_nameErrors_iff.mp he with ⟨fault, -, rfl⟩ | ⟨-, rfl⟩
  · rfl
  · rfl

/-- The problems of a name, put below another one: their path moves and they stay as they are. No
error about a name mentions a path, unlike those about a shape. -/
theorem Policy.map_relocate_nameErrors (hpath : path ≠ []) :
    ((p.nameErrors seen child).map (Violation.mk (p.joinPath path))).map
        (Violation.relocate (p.pathIn name)) =
      (p.nameErrors seen child).map (Violation.mk (p.joinPath (name :: path))) := by
  rw [List.map_map]
  refine List.map_congr_left fun e he => ?_
  show Violation.mk _ _ = Violation.mk _ _
  rw [Policy.relocate_of_mem_nameErrors _ he, Policy.pathIn_joinPath hpath]

mutual

/-- The violations of a field's shape are the same below another name, put there. A mismatch has the
path in its error, too, and both move. -/
theorem Field.shapeViolations_cons (p : Policy) (name : String) (path : List String)
    (hpath : path ≠ []) :
    (f : Field) → f.shapeViolations p (name :: path) =
      (f.shapeViolations p path).map (Violation.relocate (p.pathIn name))
  | ⟨fieldName, type, nullable, metadata, none⟩ => by
    rw [Field.shapeViolations, Field.shapeViolations, ← Policy.pathIn_joinPath hpath]
    split <;> rfl
  | ⟨fieldName, type, nullable, metadata, some fields⟩ => by
    rw [Field.shapeViolations, Field.shapeViolations,
      Schema.levelViolations_cons p name path [] fields, ← Policy.pathIn_joinPath hpath]
    split
    · rw [List.map_append]
      congr 1
      split <;> rfl
    · rfl

/-- The violations of a level are the same below another name, put there. The keys that were seen
have nothing to do with the path and are free. -/
theorem Schema.levelViolations_cons (p : Policy) (name : String) (path seen : List String) :
    (s : List Field) → Schema.levelViolations p (name :: path) seen s =
      (Schema.levelViolations p path seen s).map (Violation.relocate (p.pathIn name))
  | [] => rfl
  | f :: rest => by
    have hpath : path ++ [f.name] ≠ [] := by simp
    rw [Schema.levelViolations, Schema.levelViolations, List.cons_append,
      Field.shapeViolations_cons p name _ hpath f,
      Schema.levelViolations_cons p name path (p.nameKey f.name :: seen) rest,
      List.map_append, List.map_append, Policy.map_relocate_nameErrors hpath]

end

end Paths

namespace Field

/-- What is wrong with the shape of a field, its children left aside. -/
def shapeError? (p : Policy) (f : Field) : Option Error :=
  match f.isStruct, f.nested with
  | true, none => some (.structuralMismatch f.name f.type false)
  | false, some _ => some (.structuralMismatch f.name f.type true)
  | true, some [] => if p.allowEmptyStruct then none else some (.invalidSchema (.emptyStruct f.name))
  | true, some (_ :: _) | false, none => none

/-- What is wrong with a field itself that stands after the siblings `before`: its name, that one of
these has the name already, its shape. -/
def ownErrors (p : Policy) (before : Schema) (f : Field) : List Error :=
  (match p.checkName f.name with
    | .error e => [e]
    | .ok _ => []) ++
  (if p.nameKey f.name ∈ before.keys p then [.duplicateName f.name] else []) ++
  (f.shapeError? p).toList

/-- The violations of the children of a Struct as a schema of their own, put below the Struct. -/
def violationsBelow (p : Policy) (f : Field) : List Violation :=
  match f.isStruct, f.nested with
  | true, some children =>
    (Schema.violations p children).map (Violation.relocate (p.pathIn f.name))
  | _, _ => []

/-- At its own name a field has the violations of its shape, then those of its children with the
name in front of them. -/
theorem shapeViolations_singleton (p : Policy) (f : Field) :
    f.shapeViolations p [f.name] =
      (f.shapeError? p).toList.map (Violation.mk f.name) ++ f.violationsBelow p := by
  obtain ⟨name, type, nullable, metadata, nested⟩ := f
  cases nested with
  | none =>
    rw [shapeViolations]
    cases htype : type.isStruct with
    | false => simp [shapeError?, violationsBelow, isStruct, htype]
    | true => simp [shapeError?, violationsBelow, isStruct, htype, Policy.joinPath, Text.join]
  | some fields =>
    rw [shapeViolations, Schema.levelViolations_cons, ← Schema.violations]
    cases htype : type.isStruct with
    | false => simp [shapeError?, violationsBelow, isStruct, htype, Policy.joinPath, Text.join]
    | true =>
      cases fields with
      | nil =>
        cases hallow : p.allowEmptyStruct with
        | false =>
          simp [shapeError?, violationsBelow, isStruct, htype, hallow, Policy.joinPath, Text.join]
        | true => simp [shapeError?, violationsBelow, isStruct, htype, hallow]
      | cons g fields => simp [shapeError?, violationsBelow, isStruct, htype]

/-- What is wrong with a field itself, as the examination says it beside the keys of the siblings
before it: the problems of the name and then that of the shape. -/
theorem ownErrors_eq {p : Policy} {before : Schema} {seen : List String} (f : Field)
    (hseen : ∀ k, k ∈ seen ↔ k ∈ before.keys p) :
    f.ownErrors p before = p.nameErrors seen f.name ++ (f.shapeError? p).toList := by
  have hname : (match p.checkName f.name with
      | .error e => [e]
      | .ok _ => []) = ((p.nameFault? f.name).map (Error.invalidField f.name)).toList := by
    unfold Policy.checkName
    cases p.nameFault? f.name <;> rfl
  rw [ownErrors, Policy.nameErrors, hname]
  simp only [List.contains_iff_mem, hseen]

end Field

namespace Schema

variable {p : Policy} {s t u : Schema} {f : Field}

/-- The report on the fields that follow `before`, one after the other. The siblings already
examined are part of the statement, since a repeated name is one that an earlier sibling has, and
the induction moves one field after the other into `before`. -/
theorem levelViolations_eq_flatMap {seen : List String} (before : Schema)
    (hseen : ∀ k, k ∈ seen ↔ k ∈ before.keys p) (s : Schema) :
    levelViolations p [] seen s = (s.zipIdx before.length).flatMap fun (f, i) =>
      (f.ownErrors p ((before ++ s).take i)).map (Violation.mk f.name) ++ f.violationsBelow p := by
  induction s generalizing before seen with
  | nil => rfl
  | cons f rest ih =>
    have hseen' : ∀ k, k ∈ p.nameKey f.name :: seen ↔ k ∈ (before ++ [f]).keys p := by
      intro k
      rw [List.mem_cons, hseen, or_comm, keys_append, List.mem_append]
      exact or_congr_right List.mem_singleton.symm
    have hrest := ih (before ++ [f]) hseen'
    rw [List.append_assoc, List.singleton_append, List.length_append, List.length_singleton] at hrest
    rw [levelViolations, List.zipIdx_cons, List.flatMap_cons, hrest, List.nil_append,
      Field.shapeViolations_singleton]
    dsimp only
    rw [List.take_left, Field.ownErrors_eq f hseen, List.map_append]
    simp only [List.append_assoc]
    rfl

/-- **The report on a schema, field by field.** For each field it has what is wrong with the field
itself, beside the siblings before it, and then the report on its children with the name of the
field in front of every path. -/
theorem violations_eq_flatMap (p : Policy) (s : Schema) :
    s.violations p = s.zipIdx.flatMap fun (f, i) =>
      (f.ownErrors p (s.take i)).map (Violation.mk f.name) ++ f.violationsBelow p :=
  levelViolations_eq_flatMap [] (fun _ => Iff.rfl) s

/-- `s.HasStructLevel t`: the fields `t` are those of `s` itself or the children of a Struct that
only Structs lead to. -/
inductive HasStructLevel : Schema → Schema → Prop
  | top (s : Schema) : HasStructLevel s s
  | inner {s t u : Schema} {f : Field} :
    f ∈ s → f.isStruct = true → f.nested = some t → HasStructLevel t u → HasStructLevel s u

/-- A level that Structs lead to is a level of the schema. The converse fails below a field that has
children and is no Struct. -/
theorem HasStructLevel.hasLevel (h : s.HasStructLevel t) : s.HasLevel t := by
  induction h with
  | top s => exact .top s
  | inner hf _ ht _ ih => exact .inner hf ht ih

/-- A level with proper names, distinct keys and fields of a proper shape: exactly Structs have
children, and none of them has an empty list of children unless the policy says so. -/
structure IsProperLevel (p : Policy) (t : Schema) : Prop where
  names : ∀ f ∈ t, p.checkName f.name = .ok ()
  keys : (t.keys p).Nodup
  shape : ∀ f ∈ t, f.isStruct = true ↔ ∃ u, f.nested = some u
  children : ∀ f ∈ t, f.isStruct = true → f.nested = some [] → p.allowEmptyStruct = true

/-- Well-formedness can be judged on the levels that Structs lead to. Where another field has
children, this is wrong at the level of the field already, and what is below need not be looked
at. -/
theorem wellFormed_iff_forall_hasStructLevel :
    s.WellFormed p ↔ ∀ t, s.HasStructLevel t → t.IsProperLevel p := by
  constructor
  · intro hs t ht
    obtain ⟨hkeys, hproper⟩ := hs t ht.hasLevel
    refine ⟨fun f hf => Policy.checkName_eq_ok_iff.mpr (hproper f hf).name, hkeys, fun f hf => ?_,
      fun f hf _ => (hproper f hf).children⟩
    rw [Field.isStruct, ← (hproper f hf).shape, Option.isSome_iff_exists]
  · intro hs
    induction s using levelInduction with
    | step s ih =>
      have htop := hs s (.top s)
      refine wellFormed_iff.mpr ⟨htop.keys, fun f hf => ⟨⟨?_, ?_, ?_⟩, fun t ht => ?_⟩⟩
      · exact Policy.checkName_eq_ok_iff.mp (htop.names f hf)
      · rw [Bool.eq_iff_iff, Option.isSome_iff_exists]
        exact (htop.shape f hf).symm
      · intro hnil
        exact htop.children f hf ((htop.shape f hf).mpr ⟨_, hnil⟩) hnil
      · have hstruct := (htop.shape f hf).mpr ⟨t, ht⟩
        exact ih f hf t ht fun u hu => hs u (.inner hf hstruct ht hu)

/-- **The report on a schema is exact and made of reports.** A schema is valid exactly when every
level that Structs lead to is proper. Its violations are, field by field, those of the field itself
at its name, followed, for a Struct, by the violations of its children as a schema of their own,
with the name of the Struct and the delimiter in front of every path. -/
theorem report_exact (p : Policy) (s : Schema) :
    (s.isValid p = true ↔ ∀ t, s.HasStructLevel t → t.IsProperLevel p) ∧
      s.violations p = s.zipIdx.flatMap fun (f, i) =>
        (f.ownErrors p (s.take i)).map (Violation.mk f.name) ++ f.violationsBelow p :=
  ⟨isValid_iff.trans wellFormed_iff_forall_hasStructLevel, violations_eq_flatMap p s⟩

end Schema
end RecordSchema
