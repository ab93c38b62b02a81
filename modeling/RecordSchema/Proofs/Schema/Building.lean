import RecordSchema.Proofs.Schema.Levels
import RecordSchema.Schema.Checked

/-!
# What checked construction accepts

Checked construction changes nothing: it returns what it was given when that is proper and fails
otherwise. `Field.IsProper` says when a field is, apart from what is below its children;
a level is accepted when its keys are distinct.
-/

namespace RecordSchema

variable {p : Policy}

/-- The name has no fault, exactly Structs have children, and these are not empty unless the
policy says so. -/
structure Field.IsProper (p : Policy) (f : Field) : Prop where
  name : p.nameFault? f.name = none
  shape : f.nested.isSome = f.type.isStruct
  children : f.nested = some [] → p.allowEmptyStruct = true

/-- A field is built as it is when it is proper, and otherwise not at all. Nothing is mended on the
way. -/
theorem Field.build_eq_ok_iff {f g : Field} : Field.build p f = .ok g ↔ f = g ∧ f.IsProper p := by
  constructor
  · intro h
    unfold Field.build at h
    split at h
    · exact nomatch h
    · rename_i hname
      split at h
      · exact nomatch h
      · exact nomatch h
      · rename_i fields htype hnested
        split at h
        · exact nomatch h
        · rename_i hempty
          refine ⟨Except.ok.inj h, hname, by rw [hnested, htype]; rfl, fun hnil => ?_⟩
          obtain rfl : fields = [] := Option.some.inj (hnested.symm.trans hnil)
          simpa using hempty
      · rename_i htype hnested
        refine ⟨Except.ok.inj h, hname, by rw [hnested, htype]; rfl, fun hnil => ?_⟩
        exact nomatch hnested.symm.trans hnil
  · rintro ⟨rfl, hname, hshape, hchildren⟩
    unfold Field.build
    rw [hname, ← hshape]
    cases hnested : f.nested with
    | none => rfl
    | some fields =>
      cases fields with
      | nil =>
        rw [hchildren hnested]
        rfl
      | cons g fields => rfl

/-- The keys differ from each other and from those seen before. -/
def FreshKeys (seen keys : List String) : Prop := keys.Nodup ∧ ∀ k ∈ keys, k ∉ seen

/-- No keys are fresh beside any. -/
theorem freshKeys_nil {seen : List String} : FreshKeys seen [] := ⟨.nil, fun _ h => nomatch h⟩

/-- Keys are fresh when the first is, and the others are beside it, too. The walk over a level goes
by this, adding each key to those it has seen. -/
theorem freshKeys_cons_iff {seen keys : List String} {k : String} :
    FreshKeys seen (k :: keys) ↔ k ∉ seen ∧ FreshKeys (k :: seen) keys := by
  constructor
  · rintro ⟨hnodup, hseen⟩
    obtain ⟨hk, hkeys⟩ := List.nodup_cons.mp hnodup
    refine ⟨hseen k List.mem_cons_self, hkeys, fun k' hk' hmem => ?_⟩
    rcases List.mem_cons.mp hmem with rfl | hmem
    · exact hk hk'
    · exact hseen k' (List.mem_cons_of_mem _ hk') hmem
  · rintro ⟨hk, hkeys, hseen⟩
    refine ⟨List.nodup_cons.mpr ⟨fun hmem => hseen k hmem List.mem_cons_self, hkeys⟩, ?_⟩
    refine List.forall_mem_cons.mpr ⟨hk, fun k' hk' hmem => ?_⟩
    exact hseen k' hk' (List.mem_cons_of_mem _ hmem)

/-- Beside none seen before, keys are fresh when they are distinct. -/
theorem freshKeys_nil_iff {keys : List String} : FreshKeys [] keys ↔ keys.Nodup :=
  and_iff_left fun _ _ => List.not_mem_nil

/-- No name is repeated when the keys are fresh. So the walk, which compares each key with those
before it, decides distinctness of all. -/
theorem Policy.firstRepeated?_eq_none_iff {seen names : List String} :
    p.firstRepeated? seen names = none ↔ FreshKeys seen (names.map p.nameKey) := by
  induction names generalizing seen with
  | nil => exact ⟨fun _ => freshKeys_nil, fun _ => rfl⟩
  | cons name names ih =>
    rw [firstRepeated?, List.map_cons, freshKeys_cons_iff, ← List.contains_iff_mem]
    split
    · rename_i hseen
      exact ⟨fun h => (nomatch h), fun h => absurd hseen h.1⟩
    · rename_i hnew
      rw [ih, and_iff_right hnew]

/-- The name that is repeated has a key that was seen, or that of an earlier name. It is the second
of the two that is blamed. -/
theorem Policy.repeated_of_firstRepeated? {seen names : List String} {name : String}
    (h : p.firstRepeated? seen names = some name) :
    ∃ before after, names = before ++ name :: after ∧
      (p.nameKey name ∈ seen ∨ p.nameKey name ∈ before.map p.nameKey) := by
  induction names generalizing seen with
  | nil => exact nomatch h
  | cons n names ih =>
    rw [firstRepeated?] at h
    split at h
    · rename_i hseen
      obtain rfl := Option.some.inj h
      exact ⟨[], names, rfl, .inl (List.contains_iff_mem.mp hseen)⟩
    · obtain ⟨before, after, rfl, hkey⟩ := ih h
      refine ⟨n :: before, after, rfl, ?_⟩
      rw [List.map_cons]
      rcases hkey with hkey | hkey
      · rcases List.mem_cons.mp hkey with hkey | hkey
        · exact .inr (List.mem_cons.mpr (.inl hkey))
        · exact .inl hkey
      · exact .inr (List.mem_cons_of_mem _ hkey)

/-- A level is built as it is when its keys are distinct, and otherwise not at all. The scan for
a repeated name, with the names seen so far, is replaced here by a statement on the level as a
whole. -/
theorem Schema.build_eq_ok_iff {fields : List Field} {s : Schema} :
    Schema.build p fields = .ok s ↔ fields = s ∧ (Schema.keys p fields).Nodup := by
  have hnone : p.firstRepeated? [] (fields.map Field.name) = none ↔
      (Schema.keys p fields).Nodup := by
    have hkeys : (fields.map Field.name).map p.nameKey = Schema.keys p fields := List.map_map
    rw [Policy.firstRepeated?_eq_none_iff, hkeys, freshKeys_nil_iff]
  unfold Schema.build
  rw [← hnone]
  cases p.firstRepeated? [] (fields.map Field.name) with
  | none => exact ⟨fun h => ⟨Except.ok.inj h, rfl⟩, fun ⟨h, _⟩ => congrArg _ h⟩
  | some name => exact ⟨fun h => (nomatch h), fun ⟨_, h⟩ => (nomatch h)⟩

/-- A level is not built for a name that has the key of an earlier one, and there is no other
reason. The error has this name as it is spelled there. -/
theorem Schema.repeated_of_build {fields : List Field} {e : Error}
    (h : Schema.build p fields = .error e) :
    ∃ before name after, Schema.names fields = before ++ name :: after ∧
      p.nameKey name ∈ before.map p.nameKey ∧ e = .duplicateName name := by
  unfold Schema.build at h
  split at h
  · rename_i name hname
    obtain ⟨before, after, hnames, hkey⟩ := Policy.repeated_of_firstRepeated? hname
    exact ⟨before, name, after, hnames, hkey.resolve_left List.not_mem_nil,
      (Except.error.inj h).symm⟩
  · cases h

end RecordSchema
