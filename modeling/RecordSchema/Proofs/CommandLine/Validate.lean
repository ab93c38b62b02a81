import RecordSchema.CommandLine.Commands
import RecordSchema.Proofs.Catalog.Agreement

/-!
# Validating a document

`validateDocument` examines a catalog as a whole, or resolves one of its definitions. What is
resolved is examined once more, which finds nothing since an unfolding is well-formed. So both ways
come down to whether definitions unfold.
-/

namespace RecordSchema

variable {w : Surroundings} {o : CommonSettings} {path name : String} {c : Catalog} {p : Policy}
  {s : Schema}

/-- A result of the library is one of the command, and the other way round. -/
theorem orFail_eq_ok_iff {α : Type} {x : Except Error α} {a : α} : orFail x = .ok a ↔ x = .ok a := by
  cases x with
  | ok b => simp [orFail]
  | error e => simp [orFail]

/-- A fault of the library is no list of violations. Only an examination gives one. -/
theorem orFail_ne_improper {α : Type} {x : Except Error α} {vs : List Violation} :
    orFail x ≠ .error (.improper vs) := by
  cases x with
  | ok b => simp [orFail]
  | error e => simp [orFail]

/-- The examination of a resolved schema finds nothing, so only resolving can fail. -/
theorem resolveChecked_eq : resolveChecked p c name = orFail (c.resolve p name) := by
  rw [resolveChecked]
  cases h : c.resolve p name with
  | error e => rfl
  | ok s =>
    have hs := (Catalog.resolve_eq_ok_iff.mp h).wellFormed
    show (if s.isValid p = true then pure s else _) = Except.ok s
    rw [if_pos (Schema.isValid_iff.mpr hs)]
    rfl

/-- Resolving with an examination gives what resolving gives. -/
theorem resolveChecked_eq_ok_iff : resolveChecked p c name = .ok s ↔ c.resolve p name = .ok s := by
  rw [resolveChecked_eq, orFail_eq_ok_iff]

/-- **Whatever is resolved is valid.** A schema that a name of any catalog is resolved to has no
violations under the policy it was resolved with. So to examine it once more changes nothing, and
never ends a command. -/
theorem resolved_is_valid (p : Policy) (c : Catalog) (name : String) :
    (∀ s, c.resolve p name = .ok s → s.isValid p = true) ∧
      resolveChecked p c name = orFail (c.resolve p name) ∧
        ∀ vs, resolveChecked p c name ≠ .error (.improper vs) := by
  refine ⟨fun s hs => ?_, resolveChecked_eq, fun vs => ?_⟩
  · exact Schema.isValid_iff.mpr (Catalog.resolve_eq_ok_iff.mp hs).wellFormed
  · rw [resolveChecked_eq]
    exact orFail_ne_improper

/-- Beside a definition that repeats a name and one with a reference to nothing, a third one is
resolved to a valid schema. -/
theorem resolved_is_valid_beside_problems :
    let home : FieldDef :=
      { name := "home", type := "record", nullable := true
        children := some [{ name := "zip", type := "text" }] }
    let c : Catalog := { definitions := .ofList [
      ("keys", [{ name := "id", type := "int" }, { name := "id", type := "long" }]),
      ("lost", [{ name := "owner", type := "struct", reference := some "missing" }]),
      ("person", [home])] }
    let person : Schema := [.struct "home" [.scalar "zip" .string false] true]
    c.isValid {} = false ∧ c.resolve {} "person" = .ok person ∧ person.isValid {} = true ∧
      resolveChecked {} c "person" = .ok person := by
  intro home c person
  have h : c.resolve {} "person" = .ok person := by decide +kernel
  obtain ⟨hvalid, hchecked, -⟩ := resolved_is_valid {} c "person"
  refine ⟨by decide +kernel, h, hvalid person h, ?_⟩
  rw [hchecked, h]
  rfl

/-- One definition of a document passes exactly when the document is read, a policy is made for it,
and the definition is resolved under that policy. It is counted as one. -/
theorem validateDocument_some_eq_ok_iff {n : Nat} :
    validateDocument w o path (some name) = .ok n ↔
      ∃ c p s, loadCatalog w path = .ok c ∧ effectivePolicy w o c = .ok p ∧
        c.resolve p name = .ok s ∧ n = 1 := by
  rw [validateDocument]
  simp only [bind_eq_ok_iff, pure_eq_ok_iff, resolveChecked_eq_ok_iff]
  constructor
  · rintro ⟨c, hc, p, hp, s, hs, rfl⟩
    exact ⟨c, p, s, hc, hp, hs, rfl⟩
  · rintro ⟨c, p, s, hc, hp, hs, rfl⟩
    exact ⟨c, hc, p, hp, s, hs, rfl⟩

/-- A document passes as a whole exactly when it is read, a policy is made for it, and nothing is
improper about its catalog under that policy. All definitions are counted. They are resolved one by
one on top of that, which cannot fail any more (`Catalog.isValid_iff_forall_resolve`). -/
theorem validateDocument_none_eq_ok_iff {n : Nat} :
    validateDocument w o path none = .ok n ↔
      ∃ c p, loadCatalog w path = .ok c ∧ effectivePolicy w o c = .ok p ∧
        c.isValid p = true ∧ n = c.names.length := by
  rw [validateDocument]
  simp only [bind_eq_ok_iff]
  constructor
  · rintro ⟨c, hc, p, hp, h⟩
    split at h
    · rename_i hvalid
      obtain ⟨_, -, h⟩ := bind_eq_ok_iff.mp h
      exact ⟨c, p, hc, hp, hvalid, (pure_eq_ok_iff.mp h).symm⟩
    · cases h
  · rintro ⟨c, p, hc, hp, hvalid, rfl⟩
    refine ⟨c, hc, p, hp, ?_⟩
    obtain ⟨schemas, hschemas⟩ : ∃ schemas, c.names.mapM (resolveChecked p c) = .ok schemas := by
      simp only [exists_mapM_eq_ok_iff, resolveChecked_eq_ok_iff]
      exact Catalog.isValid_iff_forall_resolve.mp hvalid
    rw [if_pos hvalid]
    exact bind_eq_ok_iff.mpr ⟨schemas, hschemas, rfl⟩

/-- **Examination and resolution agree on every catalog.** Nothing is improper about a catalog
exactly when each of its names is resolved, that is, when all are resolved at once. And a document
that is read under a policy passes as a whole exactly when each of its definitions passes on its
own. Passing means for the whole that nothing is improper about the catalog, and for a definition
that it is resolved; the answer is the number of definitions that passed. -/
theorem validation_agrees_with_resolution :
    (∀ (c : Catalog) (p : Policy),
      (c.isValid p = true ↔ ∀ name ∈ c.names, ∃ s, c.resolve p name = .ok s) ∧
      (c.isValid p = true ↔ ∃ rows, c.resolveAll p = .ok rows)) ∧
    ∀ (w : Surroundings) (o : CommonSettings) (path : String),
      ((∃ n, validateDocument w o path none = .ok n) ↔
        ∃ c p, loadCatalog w path = .ok c ∧ effectivePolicy w o c = .ok p ∧
          ∀ name ∈ c.names, ∃ n, validateDocument w o path (some name) = .ok n) ∧
      (∀ n, validateDocument w o path none = .ok n ↔
        ∃ c p, loadCatalog w path = .ok c ∧ effectivePolicy w o c = .ok p ∧
          c.isValid p = true ∧ n = c.names.length) ∧
      ∀ name n, validateDocument w o path (some name) = .ok n ↔
        ∃ c p s, loadCatalog w path = .ok c ∧ effectivePolicy w o c = .ok p ∧
          c.resolve p name = .ok s ∧ n = 1 := by
  constructor
  · intro c p
    refine ⟨Catalog.isValid_iff_forall_resolve, ?_⟩
    rw [Catalog.isValid_iff_forall_resolve, Catalog.exists_resolveAll_iff]
  · intro w o path
    refine ⟨⟨?_, ?_⟩, fun n => validateDocument_none_eq_ok_iff,
      fun name n => validateDocument_some_eq_ok_iff⟩
    · rintro ⟨n, h⟩
      obtain ⟨c, p, hc, hp, hvalid, -⟩ := validateDocument_none_eq_ok_iff.mp h
      refine ⟨c, p, hc, hp, fun name hname => ?_⟩
      obtain ⟨s, hs⟩ := Catalog.isValid_iff_forall_resolve.mp hvalid name hname
      exact ⟨1, validateDocument_some_eq_ok_iff.mpr ⟨c, p, s, hc, hp, hs, rfl⟩⟩
    · rintro ⟨c, p, hc, hp, h⟩
      refine ⟨c.names.length, validateDocument_none_eq_ok_iff.mpr ⟨c, p, hc, hp, ?_, rfl⟩⟩
      refine Catalog.isValid_iff_forall_resolve.mpr fun name hname => ?_
      obtain ⟨n, hn⟩ := h name hname
      obtain ⟨c', p', s, hc', hp', hs, -⟩ := validateDocument_some_eq_ok_iff.mp hn
      obtain rfl := Except.ok.inj (hc.symm.trans hc')
      obtain rfl := Except.ok.inj (hp.symm.trans hp')
      exact ⟨s, hs⟩

end RecordSchema
