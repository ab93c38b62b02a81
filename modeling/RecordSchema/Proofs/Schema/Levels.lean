import Mathlib.Data.List.Nodup
import RecordSchema.Schema.Basic

/-!
# The levels of a schema

A schema is a tree of levels: its own fields, the children of each of them, and so on.
`Schema.HasLevel` says which lists of fields are levels of a schema, and `Schema.levelInduction`
proves a property of all schemas from the levels right below: it is what every proof about a
recursion into nested schemas runs on.

Within a level a field is found by its key, which is what the policy compares names by
(`Schema.withKey?`). When no two siblings share a key (`Schema.DistinctNames`), the keys address
all fields.
-/

namespace RecordSchema

/-- The children of a field are smaller than the field. Induction over levels rests on this. -/
theorem Field.sizeOf_nested_lt {f : Field} {t : Schema} (h : f.nested = some t) :
    sizeOf t < sizeOf f := by
  obtain ⟨name, type, nullable, metadata, nested⟩ := f
  obtain rfl : nested = some t := h
  simp only [Field.mk.sizeOf_spec, Option.some.sizeOf_spec]
  omega

namespace Schema

variable {p : Policy} {s t u : Schema} {f g : Field} {k : String}

/-- The children of a field are smaller than the level the field is in. -/
theorem sizeOf_nested_lt (hf : f ∈ s) (h : f.nested = some t) : sizeOf t < sizeOf s :=
  Nat.lt_trans (Field.sizeOf_nested_lt h) (List.sizeOf_lt_of_mem hf)

/-- **Induction over levels.** A property of schemas holds of all when it holds of each whose fields
have only children with the property. Fields and schemas are one mutual type, and this spares every
proof a second statement about fields. -/
theorem levelInduction {motive : Schema → Prop}
    (step : ∀ s : Schema, (∀ f ∈ s, ∀ t, f.nested = some t → motive t) → motive s)
    (s : Schema) : motive s := by
  induction h : sizeOf s using Nat.strongRecOn generalizing s with
  | ind n ih => exact step s fun f hf t ht => ih _ (h ▸ sizeOf_nested_lt hf ht) t rfl

/-- `s.HasLevel t`: the fields `t` are those of `s` itself or the children of a field at some
depth below it. -/
inductive HasLevel : Schema → Schema → Prop
  | top (s : Schema) : HasLevel s s
  | inner {s t u : Schema} {f : Field} :
    f ∈ s → f.nested = some t → HasLevel t u → HasLevel s u

/-- What the names of a level are compared by, in order. -/
def keys (p : Policy) (s : Schema) : List String := s.map fun f => p.nameKey f.name

/-- The first field of a level whose name has the key. -/
def withKey? (p : Policy) (s : Schema) (key : String) : Option Field :=
  s.find? fun f => key == p.nameKey f.name

/-- Sibling names differ under the policy, at every level. -/
def DistinctNames (p : Policy) (s : Schema) : Prop := ∀ t, s.HasLevel t → (t.keys p).Nodup

/-- The keys of a level are the keys of the names of its fields. -/
theorem mem_keys : k ∈ s.keys p ↔ ∃ f ∈ s, p.nameKey f.name = k := List.mem_map

/-- What is found under a key has the key, though not always the spelling that was asked for. -/
theorem key_of_withKey? (h : s.withKey? p k = some f) : p.nameKey f.name = k := by
  have := List.find?_some h
  exact (beq_iff_eq.mp this).symm

/-- What is found under a key is a field of the level. -/
theorem mem_of_withKey? (h : s.withKey? p k = some f) : f ∈ s := List.mem_of_find?_eq_some h

/-- Nothing is found under a key exactly when no field of the level has it. -/
theorem withKey?_eq_none_iff : s.withKey? p k = none ↔ k ∉ s.keys p := by
  rw [withKey?, List.find?_eq_none, mem_keys]
  constructor
  · rintro h ⟨f, hf, rfl⟩
    exact h f hf (beq_self_eq_true _)
  · intro h f hf hk
    exact h ⟨f, hf, (beq_iff_eq.mp hk).symm⟩

/-- Under a key of a level there is a field; if several have the key, it is the first of them. -/
theorem exists_withKey?_of_mem_keys (h : k ∈ s.keys p) : ∃ f, s.withKey? p k = some f :=
  Option.ne_none_iff_exists'.mp fun hnone => withKey?_eq_none_iff.mp hnone h

/-- With distinct keys a field is found by its own. Without that it could stand behind another with
its key. -/
theorem withKey?_of_mem (hs : (s.keys p).Nodup) (hf : f ∈ s) :
    s.withKey? p (p.nameKey f.name) = some f := by
  cases h : s.withKey? p (p.nameKey f.name) with
  | none => exact absurd (mem_keys.mpr ⟨f, hf, rfl⟩) (withKey?_eq_none_iff.mp h)
  | some g =>
    have hfg := List.inj_on_of_nodup_map hs (mem_of_withKey? h) hf (key_of_withKey? h)
    rw [hfg]

/-- With distinct keys, what is found under a key is the one field of the level that has it. -/
theorem withKey?_eq_some_iff (hs : (s.keys p).Nodup) :
    s.withKey? p k = some f ↔ f ∈ s ∧ p.nameKey f.name = k := by
  refine ⟨fun h => ⟨mem_of_withKey? h, key_of_withKey? h⟩, ?_⟩
  rintro ⟨hf, rfl⟩
  exact withKey?_of_mem hs hf

/-- Two orders of the same fields have the same fields under the same keys, as long as these are
distinct: then there is no first among several. -/
theorem withKey?_perm (hs : (s.keys p).Nodup) (h : s.Perm t) (k : String) :
    s.withKey? p k = t.withKey? p k := by
  have ht : (t.keys p).Nodup := (h.map _).nodup_iff.mp hs
  ext f
  rw [withKey?_eq_some_iff hs, withKey?_eq_some_iff ht, h.mem_iff]

/-- The first field is found under its own key, whatever follows it. -/
theorem withKey?_cons_self (f : Field) (s : Schema) :
    withKey? p (f :: s) (p.nameKey f.name) = some f := by simp [withKey?]

/-- A look-up passes over a first field with another key. -/
theorem withKey?_cons_of_ne (s : Schema) (h : k ≠ p.nameKey f.name) :
    withKey? p (f :: s) k = s.withKey? p k := by simp [withKey?, h]

/-- In two levels put together, a key is looked up in the one and, if it is not there, in the
other. -/
theorem withKey?_append (s t : Schema) :
    withKey? p (s ++ t) k = (s.withKey? p k).or (t.withKey? p k) := List.find?_append

/-- A change of fields that keeps keys keeps what stands under a key. The policy may change along
with the fields, as it does when names are lower-cased. -/
theorem withKey?_map {q : Policy} {change : Field → Field}
    (hkey : ∀ f, q.nameKey (change f).name = p.nameKey f.name) (s : Schema) (k : String) :
    withKey? q (s.map change) k = (s.withKey? p k).map change := by
  unfold withKey?
  rw [List.find?_map]
  simp only [Function.comp_def, hkey]

/-- The key of the first field comes first. -/
theorem keys_cons (f : Field) (s : Schema) :
    keys p (f :: s) = p.nameKey f.name :: s.keys p := rfl

/-- The keys of two levels put together are the keys of the one and then of the other. -/
theorem keys_append (s t : Schema) : keys p (s ++ t) = s.keys p ++ t.keys p := List.map_append

/-- Names with distinct keys are distinct. The converse holds only where case counts. -/
theorem names_nodup_of_keys_nodup (h : (s.keys p).Nodup) : s.names.Nodup := by
  have hmap : s.names.map p.nameKey = s.keys p := List.map_map
  rw [← hmap] at h
  exact h.of_map _

/-- Where names are distinct at every level, the keys of the top level are. -/
theorem DistinctNames.keys_nodup (h : s.DistinctNames p) : (s.keys p).Nodup := h s (.top s)

/-- Where names are distinct at every level, they are so in the children of every field. -/
theorem DistinctNames.nested (h : s.DistinctNames p) (hf : f ∈ s) (ht : f.nested = some t) :
    t.DistinctNames p := fun u hu => h u (.inner hf ht hu)

/-- Names are distinct at every level exactly when keys are on the top level and names are below
each of its fields. An induction over levels uses it in both directions. -/
theorem distinctNames_iff :
    s.DistinctNames p ↔
      (s.keys p).Nodup ∧ ∀ f ∈ s, ∀ t : Schema, f.nested = some t → t.DistinctNames p := by
  refine ⟨fun h => ⟨h.keys_nodup, fun f hf t ht => h.nested hf ht⟩, fun ⟨hs, hn⟩ t ht => ?_⟩
  cases ht with
  | top => exact hs
  | inner hf hu ht => exact hn _ hf _ hu t ht

end Schema

mutual

/-- The levels below a field: its children and the levels below these. -/
def Field.levelsBelow : Field → List Schema
  | ⟨_, _, _, _, none⟩ => []
  | ⟨_, _, _, _, some fields⟩ => fields :: Schema.levelsBelow fields

/-- The levels below those of a list of fields. -/
def Schema.levelsBelow : List Field → List Schema
  | [] => []
  | f :: rest => f.levelsBelow ++ Schema.levelsBelow rest

end

section Levels

variable {s t : Schema} {f : Field}

/-- The levels below a field are its children and the levels below these. -/
theorem Field.mem_levelsBelow_iff :
    t ∈ f.levelsBelow ↔ ∃ u, f.nested = some u ∧ (t = u ∨ t ∈ Schema.levelsBelow u) := by
  obtain ⟨name, type, nullable, metadata, nested⟩ := f
  cases nested <;> simp [levelsBelow]

/-- The levels below a schema are those below its fields. -/
theorem Schema.mem_levelsBelow_iff : t ∈ levelsBelow s ↔ ∃ f ∈ s, t ∈ f.levelsBelow := by
  induction s with
  | nil => simp [levelsBelow]
  | cons f rest ih => simp [levelsBelow, ih]

/-- The levels of a schema can be listed: the schema itself and what is below it. So a statement
about all levels is decided by a walk. -/
theorem Schema.hasLevel_iff_mem : s.HasLevel t ↔ t ∈ s :: levelsBelow s := by
  rw [List.mem_cons]
  induction s using levelInduction with
  | step s ih =>
    constructor
    · rintro (_ | ⟨hf, hu, ht⟩)
      · exact .inl rfl
      · refine .inr (mem_levelsBelow_iff.mpr ⟨_, hf, Field.mem_levelsBelow_iff.mpr ⟨_, hu, ?_⟩⟩)
        exact (ih _ hf _ hu).mp ht
    · rintro (rfl | h)
      · exact .top _
      · obtain ⟨f, hf, h⟩ := mem_levelsBelow_iff.mp h
        obtain ⟨u, hu, h⟩ := Field.mem_levelsBelow_iff.mp h
        exact .inner hf hu ((ih f hf u hu).mpr h)

end Levels

/-- What holds at every level is decided level by level. -/
instance {P : Schema → Prop} [DecidablePred P] (s : Schema) :
    Decidable (∀ t, s.HasLevel t → P t) :=
  decidable_of_iff (∀ t ∈ s :: Schema.levelsBelow s, P t) (by simp only [Schema.hasLevel_iff_mem])

mutual

/-- Decides whether names are distinct at every level below a field. -/
def Field.decDistinctBelow (p : Policy) :
    (f : Field) → Decidable (∀ t : Schema, f.nested = some t → t.DistinctNames p)
  | ⟨_, _, _, _, none⟩ => isTrue fun _ h => nomatch h
  | ⟨_, _, _, _, some s⟩ =>
    @decidable_of_iff _ ((Schema.keys p s).Nodup ∧
        ∀ f ∈ s, ∀ t : Schema, f.nested = some t → t.DistinctNames p)
      (Schema.distinctNames_iff.symm.trans ⟨fun h _ ht => Option.some.inj ht ▸ h, fun h => h s rfl⟩)
      (@instDecidableAnd _ _ _ (Schema.decDistinctBelow p s))

/-- Decides whether names are distinct at every level below those of a list of fields. -/
def Schema.decDistinctBelow (p : Policy) :
    (s : List Field) → Decidable (∀ f ∈ s, ∀ t : Schema, f.nested = some t → t.DistinctNames p)
  | [] => isTrue fun _ h => nomatch h
  | f :: s =>
    @decidable_of_iff _ _ List.forall_mem_cons.symm
      (@instDecidableAnd _ _ (Field.decDistinctBelow p f) (Schema.decDistinctBelow p s))

end

instance (p : Policy) (s : Schema) : Decidable (s.DistinctNames p) :=
  @decidable_of_iff _ _ Schema.distinctNames_iff.symm
    (@instDecidableAnd _ _ _ (Schema.decDistinctBelow p s))

end RecordSchema
