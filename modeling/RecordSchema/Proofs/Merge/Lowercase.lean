import RecordSchema.Proofs.Merge.WellFormed
import RecordSchema.Proofs.Schema.Lowercase

/-!
# Merging with case passed over

There are two ways to merge schemas whose names differ in case: pass case over when names are
matched, or lower-case all names first and match them as they are. The first keeps spellings, the
second does not; beyond that they are the same. Names match in one way when they match in the
other, so under each name the two have the same slots to merge (`Field.MergedSlot`), and from the
children up these merge to the same in lower case (`Schema.merge_lowered_iff`).

Valid schemas, and what they merge to, can be lower-cased, since their names are distinct with case
passed over.
-/

namespace RecordSchema

/-- `p` passes case over and `q` does not. -/
structure Policy.CasePair (p q : Policy) : Prop where
  passes : p.caseSensitive = false
  counts : q.caseSensitive = true

variable {p q : Policy}

/-- With case passed over, the key of a name is the name in lower case. -/
theorem Policy.CasePair.nameKey_eq (h : Policy.CasePair p q) (name : String) :
    p.nameKey name = Text.lowercase name := by
  unfold Policy.nameKey
  rw [h.passes]
  rfl

/-- Where case counts, a name in lower case has the key that the name has with case passed over. So
the fields that are matched are the same under both policies. -/
theorem Policy.CasePair.nameKey_lowercase (h : Policy.CasePair p q) (name : String) :
    q.nameKey (Text.lowercase name) = p.nameKey name := by
  rw [h.nameKey_eq]
  unfold Policy.nameKey
  rw [h.counts]
  rfl

namespace Field

variable {l r g : Field} {t : FieldType} {x y d : Option Schema}

/-- In lower case the schemas merge to what they merge to, in lower case. -/
def MergeLowered (p q : Policy) (ls rs : Schema) : Prop :=
  ∀ n, Schema.merge q ls.lowered rs.lowered = .ok n ↔
    ∃ m, Schema.merge p ls rs = .ok m ∧ Schema.lowered m = n

/-- Two fields of one name combine in lower case to what they combine to, in lower case. The merged
names may be spelled differently before, but not in lower case. -/
theorem combine_lowered (h : Text.lowercase l.name = Text.lowercase r.name)
    (cs : Option Schema) :
    (l.combine r t cs).lowered = l.lowered.combine r.lowered t (cs.map Schema.lowered) := by
  have hname : Text.lowercase (Text.lesser l.name r.name) =
      Text.lesser (Text.lowercase l.name) (Text.lowercase r.name) := by
    rcases Text.lesser_eq_or l.name r.name with hlr | hlr
    · rw [hlr, ← h, Text.lesser_eq_min, min_self]
    · rw [hlr, h, Text.lesser_eq_min, min_self]
  rw [lowered_eq, lowered_eq l, lowered_eq r]
  unfold combine
  rw [hname]

/-- Children merge in lower case exactly when they do as they are, to the same in lower case, when
schemas below do. -/
theorem ChildrenMerged.lowered_iff
    (h : ∀ ls rs, x = some ls → y = some rs → MergeLowered p q ls rs) :
    ChildrenMerged q t (x.map Schema.lowered) (y.map Schema.lowered) d ↔
      ∃ c, ChildrenMerged p t x y c ∧ c.map Schema.lowered = d := by
  constructor
  · intro hd
    generalize hx : x.map Schema.lowered = x' at hd
    generalize hy : y.map Schema.lowered = y' at hd
    cases hd with
    | scalar _ _ ht => exact ⟨none, .scalar _ _ ht, rfl⟩
    | struct ht hn =>
      obtain ⟨ls, rfl, rfl⟩ := Option.map_eq_some_iff.mp hx
      obtain ⟨rs, rfl, rfl⟩ := Option.map_eq_some_iff.mp hy
      obtain ⟨m, hm, rfl⟩ := (h ls rs rfl rfl _).mp hn
      exact ⟨some m, .struct ht hm, rfl⟩
  · rintro ⟨c, hc, rfl⟩
    cases hc with
    | scalar _ _ ht => exact .scalar _ _ ht
    | struct ht hm => exact .struct ht ((h _ _ rfl rfl _).mpr ⟨_, hm, rfl⟩)

/-- Two fields of one name merge in lower case to what they merge to, in lower case. Read in both
directions this covers failure, too. -/
theorem Merged.lowered_iff (hname : Text.lowercase l.name = Text.lowercase r.name)
    (h : ∀ ls rs, l.nested = some ls → r.nested = some rs → MergeLowered p q ls rs) :
    Merged q l.lowered r.lowered g ↔ ∃ f, Merged p l r f ∧ f.lowered = g := by
  constructor
  · rintro ⟨ht, hd⟩
    rw [lowered_type, lowered_type] at ht
    rw [lowered_nested, lowered_nested] at hd
    obtain ⟨c, hc, rfl⟩ := (ChildrenMerged.lowered_iff h).mp hd
    exact ⟨_, .intro ht hc, combine_lowered hname c⟩
  · rintro ⟨_, ⟨ht, hc⟩, rfl⟩
    rw [combine_lowered hname]
    refine .intro ?_ ?_
    · rw [lowered_type, lowered_type]
      exact ht
    · rw [lowered_nested, lowered_nested]
      exact (ChildrenMerged.lowered_iff h).mpr ⟨_, hc, rfl⟩

/-- A slot with a field on the left merges in lower case to what it merges to, in lower case. With a
field on both sides this is the lemma on merged fields; with one on the left only, being made
nullable commutes with lower case. -/
theorem MergedSlot.lowered_iff {o : Option Field}
    (hname : ∀ r, o = some r → Text.lowercase l.name = Text.lowercase r.name)
    (h : ∀ r, o = some r → ∀ ls rs, l.nested = some ls → r.nested = some rs →
      MergeLowered p q ls rs) :
    MergedSlot q (some l.lowered) (o.map Field.lowered) (some g) ↔
      ∃ f, MergedSlot p (some l) o (some f) ∧ f.lowered = g := by
  cases o with
  | none =>
    constructor
    · rintro ⟨⟩
      exact ⟨_, .left l, lowered_asNullable l⟩
    · rintro ⟨_, ⟨⟩, rfl⟩
      rw [lowered_asNullable]
      exact .left l.lowered
  | some r =>
    have hlr := Merged.lowered_iff (g := g) (hname r rfl) (h r rfl)
    constructor
    · rintro (_ | _ | _ | hg)
      obtain ⟨f, hf, rfl⟩ := hlr.mp hg
      exact ⟨f, .both hf, rfl⟩
    · rintro ⟨f, _ | _ | _ | hf, hg⟩
      exact .both (hlr.mpr ⟨f, hf, hg⟩)

end Field

namespace Schema

variable {a b m s : Schema}

/-- In lower case a field stays under its key. -/
theorem nameKey_lowered (h : Policy.CasePair p q) (f : Field) :
    q.nameKey f.lowered.name = p.nameKey f.name := by
  rw [Field.lowered_name, h.nameKey_lowercase]

/-- Lower case keeps what stands under a key, so the same fields match. -/
theorem withKey?_lowered (h : Policy.CasePair p q) (s : Schema) (k : String) :
    s.lowered.withKey? q k = (s.withKey? p k).map Field.lowered := by
  rw [lowered_eq_map]
  exact withKey?_map (nameKey_lowered h) s k

/-- Lower case keeps which fields only the right side has. -/
theorem onlyIn_lowered (h : Policy.CasePair p q) (a b : Schema) :
    onlyIn q a.lowered b.lowered = (onlyIn p a b).map Field.lowered := by
  rw [lowered_eq_map, lowered_eq_map]
  exact onlyIn_map (nameKey_lowered h) Field.lowered_asNullable a b

/-- **Merging and lower-casing commute**, whichever is done first, also where merging fails. This
asks nothing of the schemas: the same fields match at each level, the first of several if names are
repeated. -/
theorem merge_lowered_iff (h : Policy.CasePair p q) (a b : Schema) :
    Field.MergeLowered p q a b := by
  induction a using levelInduction generalizing b with
  | step a ih =>
    intro n
    have hslots : ∀ l ∈ a, ∀ g : Field,
        Field.MergedSlot q (some l.lowered) (b.lowered.withKey? q (q.nameKey l.lowered.name))
            (some g) ↔
          ∃ f, Field.MergedSlot p (some l) (b.withKey? p (p.nameKey l.name)) (some f) ∧
            f.lowered = g := by
      intro l hl g
      rw [Field.lowered_name, h.nameKey_lowercase, withKey?_lowered h]
      refine Field.MergedSlot.lowered_iff (fun r hr => ?_) fun r _ ls rs hls _ => ih l hl ls hls rs
      have hkey := key_of_withKey? hr
      rwa [h.nameKey_eq, h.nameKey_eq, eq_comm] at hkey
    simp only [merge_eq_ok_iff]
    rw [onlyIn_lowered h, lowered_eq_map a]
    simp only [List.forall₂_map_left_iff, forall₂_iff_exists_map hslots]
    constructor
    · rintro ⟨_, ⟨shared, hshared, rfl⟩, rfl⟩
      exact ⟨_, ⟨shared, hshared, rfl⟩, by rw [lowered_eq_map, List.map_append]⟩
    · rintro ⟨_, ⟨shared, hshared, rfl⟩, rfl⟩
      exact ⟨_, ⟨shared, hshared, rfl⟩, by rw [lowered_eq_map, List.map_append]⟩

/-- **Merging with case passed over is merging in lower case.** Let two schemas be valid under a
policy that passes case over. They and, if they merge, the result can be lower-cased, whatever
policy is told to look for repeated names. They merge exactly when they merge after lower-casing
under the same policy with case counting, and then to the same in lower case, in the same order. -/
theorem merge_caseless_eq_merge_lowercase (p : Policy) (hp : p.caseSensitive = false) (a b : Schema)
    (ha : a.isValid p = true) (hb : b.isValid p = true) (q : Policy) :
    ∃ a' b', a.lowercase q = .ok a' ∧ b.lowercase q = .ok b' ∧
      ((∃ m, merge p a b = .ok m) ↔ ∃ n, merge { p with caseSensitive := true } a' b' = .ok n) ∧
      ∀ m, merge p a b = .ok m →
        ∃ n, m.lowercase q = .ok n ∧ merge { p with caseSensitive := true } a' b' = .ok n := by
  have hcase : Policy.CasePair p { p with caseSensitive := true } := ⟨hp, rfl⟩
  have hmerge := merge_lowered_iff hcase a b
  have hda := (isValid_iff.mp ha).distinctNames
  have hdb := (isValid_iff.mp hb).distinctNames
  refine ⟨_, _, hda.lowercase_eq hp q, hdb.lowercase_eq hp q, ?_, fun m hm => ?_⟩
  · constructor
    · rintro ⟨m, hm⟩
      exact ⟨_, (hmerge _).mpr ⟨m, hm, rfl⟩⟩
    · rintro ⟨n, hn⟩
      obtain ⟨m, hm, -⟩ := (hmerge n).mp hn
      exact ⟨m, hm⟩
  · exact ⟨_, (hda.merge hdb hm).lowercase_eq hp q, (hmerge _).mpr ⟨m, hm, rfl⟩⟩

/-- Partitions with names in several spellings at two levels, a sigma at the end of a word among
them, and with fields of one side only. -/
theorem merge_caseless_eq_merge_lowercase_partitions :
    let p : Policy := { strictNames := true, caseSensitive := false }
    let a := [Field.struct "Owner" [.scalar "ΟΔΟΣ" .string false, .scalar "Zip" .int false] false,
      (Field.scalar "ID" .short false).annotate "doc" "old"]
    let b := [(Field.scalar "Id" .decimal false).annotate "doc" "new", .scalar "Since" .date false,
      Field.struct "OWNER" [.scalar "οδος" .string true, .scalar "AGE" .int false] false]
    let m := [Field.struct "OWNER"
        [.scalar "ΟΔΟΣ" .string true, .scalar "Zip" .int true, .scalar "AGE" .int true] false,
      (Field.scalar "ID" .decimal false).annotate "doc" "old", .scalar "Since" .date true]
    (p.caseSensitive = false ∧ isValid p a = true ∧ isValid p b = true) ∧ merge p a b = .ok m ∧
      ∃ a' b' n, lowercase p a = .ok a' ∧ lowercase p b = .ok b' ∧ lowercase p m = .ok n ∧
        merge { p with caseSensitive := true } a' b' = .ok n := by
  intro p a b m
  have ha : isValid p a = true := by decide +kernel
  have hb : isValid p b = true := by decide +kernel
  have hm : merge p a b = .ok m := by decide +kernel
  obtain ⟨a', b', ha', hb', -, hmerge⟩ := merge_caseless_eq_merge_lowercase p rfl a b ha hb p
  obtain ⟨n, hn, hab⟩ := hmerge m hm
  exact ⟨⟨rfl, ha, hb⟩, hm, a', b', n, ha', hb', hn, hab⟩

end Schema
end RecordSchema
