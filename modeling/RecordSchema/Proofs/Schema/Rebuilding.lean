import RecordSchema.Proofs.Result
import RecordSchema.Proofs.Schema.WellFormed

/-!
# Building a schema anew

`Schema.rebuild` takes a schema apart and builds it again from the leaves up: the children of a
field before the field, the fields of a level before the level. What is proper is written down
twice, in the constructors and in the examination of a finished schema. The constructors stop at
the first fault, look at a name and its shape together, and reach the children of a field that is
no Struct; the examination goes on, and does not look there.

Both come down to well-formedness, the constructors by `Schema.rebuild_eq_ok_iff`, so they accept
the same schemas.
-/

namespace RecordSchema

mutual

/-- Builds a field from its parts, its children first. -/
def Field.rebuild (p : Policy) : Field → Except Error Field
  | ⟨name, type, nullable, metadata, none⟩ =>
    Field.build p ⟨name, type, nullable, metadata, none⟩
  | ⟨name, type, nullable, metadata, some fields⟩ => do
    let children ← Field.rebuildEach p fields
    let nested ← Schema.build p children
    Field.build p ⟨name, type, nullable, metadata, some nested⟩

/-- Builds the fields of one level one after the other. -/
def Field.rebuildEach (p : Policy) : List Field → Except Error (List Field)
  | [] => .ok []
  | f :: rest => do
    let g ← f.rebuild p
    let fields ← Field.rebuildEach p rest
    return g :: fields

end

/-- Builds a schema from its parts, nested schemas first and the top level last. -/
def Schema.rebuild (p : Policy) (s : Schema) : Except Error Schema := do
  let fields ← Field.rebuildEach p s
  Schema.build p fields

variable {p : Policy}

mutual

/-- A field is built as it is when it is well-formed: its children are built first, and then it is
proper in itself. -/
theorem Field.rebuild_eq_ok_iff :
    (f g : Field) → (f.rebuild p = .ok g ↔ f = g ∧ f.WellFormed p)
  | ⟨name, type, nullable, metadata, none⟩, g => by
    rw [Field.rebuild, Field.build_eq_ok_iff]
    exact and_congr_right fun _ => ⟨fun h => ⟨h, fun _ ht => nomatch ht⟩, fun h => h.proper⟩
  | ⟨name, type, nullable, metadata, some fields⟩, g => by
    rw [Field.rebuild, bind_eq_ok_iff]
    simp only [bind_eq_ok_iff, Field.rebuildEach_eq_ok_iff fields, Schema.build_eq_ok_iff,
      Field.build_eq_ok_iff]
    constructor
    · rintro ⟨_, ⟨rfl, hfields⟩, _, ⟨rfl, hkeys⟩, rfl, hproper⟩
      have hwell : Schema.WellFormed p fields := Schema.wellFormed_iff.mpr ⟨hkeys, hfields⟩
      exact ⟨rfl, hproper, fun t ht => Option.some.inj ht ▸ hwell⟩
    · rintro ⟨rfl, hproper, hwell⟩
      obtain ⟨hkeys, hfields⟩ := Schema.wellFormed_iff.mp (hwell fields rfl)
      exact ⟨fields, ⟨rfl, hfields⟩, fields, ⟨rfl, hkeys⟩, rfl, hproper⟩

/-- The fields of a level are built as they are when each of them is. Whether they go together is
only judged when the level is built. -/
theorem Field.rebuildEach_eq_ok_iff :
    (fs gs : List Field) → (Field.rebuildEach p fs = .ok gs ↔
      fs = gs ∧ ∀ f ∈ fs, f.WellFormed p)
  | [], gs => by
    rw [Field.rebuildEach, Except.ok.injEq]
    exact (and_iff_left fun _ hf => nomatch hf).symm
  | f :: rest, gs => by
    rw [Field.rebuildEach, cons_eq_ok_iff, List.forall_mem_cons]
    simp only [Field.rebuild_eq_ok_iff f, Field.rebuildEach_eq_ok_iff rest]
    constructor
    · rintro ⟨_, _, ⟨rfl, hf⟩, ⟨rfl, hrest⟩, rfl⟩
      exact ⟨rfl, hf, hrest⟩
    · rintro ⟨rfl, hf, hrest⟩
      exact ⟨f, rest, ⟨rfl, hf⟩, ⟨rfl, hrest⟩, rfl⟩

end

namespace Schema

variable {s t : Schema}

/-- A schema is built as it is when it is well-formed. So the constructors, applied from the bottom,
accept what the examination finds nothing wrong with. -/
theorem rebuild_eq_ok_iff : s.rebuild p = .ok t ↔ s = t ∧ s.WellFormed p := by
  rw [rebuild, bind_eq_ok_iff]
  simp only [Field.rebuildEach_eq_ok_iff, build_eq_ok_iff]
  constructor
  · rintro ⟨_, ⟨rfl, hfields⟩, rfl, hkeys⟩
    exact ⟨rfl, wellFormed_iff.mpr ⟨hkeys, hfields⟩⟩
  · rintro ⟨rfl, hwell⟩
    obtain ⟨hkeys, hfields⟩ := wellFormed_iff.mp hwell
    exact ⟨s, ⟨rfl, hfields⟩, rfl, hkeys⟩

/-- A well-formed schema comes out of its construction as it was. -/
theorem WellFormed.rebuild (h : s.WellFormed p) : s.rebuild p = .ok s :=
  rebuild_eq_ok_iff.mpr ⟨rfl, h⟩

/-- **Construction and examination accept the same schemas.** A schema is found valid exactly when
it can be built again from its parts, nested schemas first, and then it is what was built. The
examination collects problems on its way down, whereas the construction stops at the first on its
way up; they agree on whether there is one. -/
theorem isValid_iff_exists_rebuild (p : Policy) (s : Schema) :
    (s.isValid p = true ↔ ∃ t, s.rebuild p = .ok t) ∧ ∀ t, s.rebuild p = .ok t → t = s := by
  refine ⟨?_, fun t ht => (rebuild_eq_ok_iff.mp ht).1.symm⟩
  rw [isValid_iff]
  constructor
  · intro hwell
    exact ⟨s, rebuild_eq_ok_iff.mpr ⟨rfl, hwell⟩⟩
  · rintro ⟨t, ht⟩
    exact (rebuild_eq_ok_iff.mp ht).2

/-- An Int with children of its own: examination passes over them and objects to the field, while
construction starts with them and objects to their names. -/
example :
    let s : Schema := [⟨"id", .int, false, TextMap.empty, some [.scalar "" .int false]⟩]
    s.violations {} = [⟨"id", .structuralMismatch "id" .int true⟩] ∧
      s.rebuild {} = .error (.invalidField "" .emptyName) := by decide +kernel

end Schema
end RecordSchema
