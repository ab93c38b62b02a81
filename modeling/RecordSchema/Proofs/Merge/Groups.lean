import Mathlib.Data.List.Induction
import RecordSchema.Proofs.Merge.Parts
import RecordSchema.Proofs.Schema.WellFormed

/-!
# Groups of levels

Schemas that are merged form a group. Under a key some levels of a group have a field and others
lack one (`Schema.fieldsUnder`), and the children of the fields under one key form a group again
(`Schema.childrenUnder`): it is made of the parents that exist. The keys of a group stand in the
order in which they first appear (`Schema.keysOf`).

`Schema.ReachesGroup` says which groups are reached by going down from key to key, and
`Schema.Comparable` that in none of them two types under one key stand apart.
-/

namespace RecordSchema

/-- Without repetitions there are none to leave out. A level with distinct keys thus has its own
keys as the keys of the group that consists of it. -/
theorem eraseDups_eq_self {l : List String} (h : l.Nodup) : l.eraseDups = l := by
  induction l with
  | nil => rfl
  | cons k l ih =>
    obtain ⟨hk, hl⟩ := List.nodup_cons.mp h
    have hkeep : (l.filter fun j => !j == k) = l := by
      refine List.filter_eq_self.mpr fun j hj => ?_
      have hne : j ≠ k := fun hjk => hk (hjk ▸ hj)
      rw [beq_eq_false_iff_ne.mpr hne]
      rfl
    rw [List.eraseDups_cons, hkeep, ih hl]

/-- Repetitions left out, nothing is repeated. The induction is from the end of the list, where
`eraseDups` keeps or drops the last element by what stands before it. -/
theorem nodup_eraseDups (l : List String) : l.eraseDups.Nodup := by
  induction l using List.reverseRecOn with
  | nil => exact .nil
  | append_singleton l k ih =>
    rw [List.eraseDups_append]
    by_cases hk : k ∈ l
    · have hgone : [k].removeAll l = [] := by simp [List.removeAll, hk]
      rw [hgone, List.eraseDups_nil, List.append_nil]
      exact ih
    · have hkeep : [k].removeAll l = [k] := by simp [List.removeAll, hk]
      rw [hkeep, eraseDups_eq_self (List.nodup_singleton k)]
      refine ih.append (List.nodup_singleton k) fun j hj hjk => hk ?_
      obtain rfl := List.mem_singleton.mp hjk
      exact List.mem_eraseDups.mp hj

namespace Schema

variable {p : Policy} {group group' below : List Schema} {s t : Schema} {f : Field} {k : String}

/-- The fields that the levels of a group have under a key, in the order of the levels. -/
def fieldsUnder (p : Policy) (k : String) (group : List Schema) : List Field :=
  group.filterMap fun s => s.withKey? p k

/-- The children of the fields that the levels of a group have under a key. -/
def childrenUnder (p : Policy) (k : String) (group : List Schema) : List Schema :=
  (fieldsUnder p k group).filterMap Field.nested

/-- The keys of the levels of a group, in order of first appearance. -/
def keysOf (p : Policy) (group : List Schema) : List String :=
  (group.flatMap fun s => s.keys p).eraseDups

/-- The fields under a key are those that some level of the group has there. -/
theorem mem_fieldsUnder : f ∈ fieldsUnder p k group ↔ ∃ s ∈ group, s.withKey? p k = some f :=
  List.mem_filterMap

/-- The children under a key are those of some field that the group has there. -/
theorem mem_childrenUnder :
    t ∈ childrenUnder p k group ↔ ∃ f ∈ fieldsUnder p k group, f.nested = some t :=
  List.mem_filterMap

/-- The keys of a group are those of its levels. -/
theorem mem_keysOf : k ∈ keysOf p group ↔ ∃ s ∈ group, k ∈ s.keys p := by
  rw [keysOf, List.mem_eraseDups, List.mem_flatMap]

/-- The keys of a group are distinct, also where those of a level are not. -/
theorem keysOf_nodup : (keysOf p group).Nodup := nodup_eraseDups _

/-- A key is one of a group when some level has a field under it. Keys that are met only in some of
the levels count as well; these are the fields that a merge makes nullable. -/
theorem mem_keysOf_iff : k ∈ keysOf p group ↔ ∃ f, f ∈ fieldsUnder p k group := by
  rw [mem_keysOf]
  constructor
  · rintro ⟨s, hs, hk⟩
    obtain ⟨f, hf⟩ := exists_withKey?_of_mem_keys hk
    exact ⟨f, mem_fieldsUnder.mpr ⟨s, hs, hf⟩⟩
  · rintro ⟨f, hf⟩
    obtain ⟨s, hs, hsf⟩ := mem_fieldsUnder.mp hf
    exact ⟨s, hs, mem_keys.mpr ⟨f, mem_of_withKey? hsf, key_of_withKey? hsf⟩⟩

/-- Under a key that the group lacks there are no fields. -/
theorem fieldsUnder_eq_nil (h : k ∉ keysOf p group) : fieldsUnder p k group = [] :=
  List.eq_nil_iff_forall_not_mem.mpr fun f hf => h (mem_keysOf_iff.mpr ⟨f, hf⟩)

/-- One more level adds its field under a key, if it has one. -/
theorem fieldsUnder_concat :
    fieldsUnder p k (group ++ [s]) = fieldsUnder p k group ++ (s.withKey? p k).toList := by
  rw [fieldsUnder, List.filterMap_append]
  cases h : s.withKey? p k <;> simp [fieldsUnder, h]

/-- One more level adds the children of its field under a key, if it has one with children. This is
how the children of a group grow along the fold. -/
theorem childrenUnder_concat :
    childrenUnder p k (group ++ [s]) =
      childrenUnder p k group ++ ((s.withKey? p k).bind Field.nested).toList := by
  rw [childrenUnder, fieldsUnder_concat, List.filterMap_append]
  cases s.withKey? p k with
  | none => rfl
  | some f => cases h : f.nested <;> simp [childrenUnder, h]

/-- One more level adds those of its keys that are new, behind the others. This is the order in
which a merge has them. -/
theorem keysOf_concat (hs : (s.keys p).Nodup) :
    keysOf p (group ++ [s]) = keysOf p group ++ (s.keys p).filter fun k => k ∉ keysOf p group := by
  have hnew : (s.keys p).removeAll (group.flatMap fun s => s.keys p) =
      (s.keys p).filter fun k => k ∉ keysOf p group := by
    refine List.filter_congr fun k _ => ?_
    rw [keysOf, Bool.eq_iff_iff, decide_eq_true_iff, List.mem_eraseDups, Bool.not_eq_true',
      ← Bool.not_eq_true, List.elem_iff]
  rw [keysOf, List.flatMap_append, List.flatMap_singleton, List.eraseDups_append, hnew,
    eraseDups_eq_self (hs.filter _), ← keysOf]

/-- The keys of a single level are its own, in its order. -/
theorem keysOf_singleton (hs : (s.keys p).Nodup) : keysOf p [s] = s.keys p := by
  rw [keysOf, List.flatMap_singleton, eraseDups_eq_self hs]

/-- The fields under a key of a well-formed group are well-formed. -/
theorem WellFormed.of_mem_fieldsUnder (hgroup : ∀ s ∈ group, s.WellFormed p)
    (hf : f ∈ fieldsUnder p k group) : f.WellFormed p := by
  obtain ⟨s, hs, hsf⟩ := mem_fieldsUnder.mp hf
  exact (hgroup s hs).field (mem_of_withKey? hsf)

/-- The children under a key of a well-formed group are well-formed, so they are such a group
again. -/
theorem wellFormed_childrenUnder (hgroup : ∀ s ∈ group, s.WellFormed p) :
    ∀ t ∈ childrenUnder p k group, t.WellFormed p := by
  intro t ht
  obtain ⟨f, hf, hft⟩ := mem_childrenUnder.mp ht
  exact (WellFormed.of_mem_fieldsUnder hgroup hf).below t hft

/-- `ReachesGroup p group below`: the levels `below` are those of `group` itself or are reached
from them by taking the children under one key after another. -/
inductive ReachesGroup (p : Policy) : List Schema → List Schema → Prop
  | top (group : List Schema) : ReachesGroup p group group
  | inner {group below : List Schema} (k : String) :
    ReachesGroup p (childrenUnder p k group) below → ReachesGroup p group below

/-- In all groups that are reached, of any two types under one key one widens into the other. -/
def Comparable (p : Policy) (group : List Schema) : Prop :=
  ∀ below, ReachesGroup p group below → ∀ k, ∀ f ∈ fieldsUnder p k below,
    ∀ g ∈ fieldsUnder p k below, f.type.Comparable g.type

/-- A group that contains another contains its children under each key. -/
theorem childrenUnder_subset (h : group ⊆ group') :
    childrenUnder p k group ⊆ childrenUnder p k group' :=
  List.filterMap_subset _ (List.filterMap_subset _ h)

/-- What is reached in a group is reached in a larger one, with at least the same levels. So a
condition on the levels of a whole list holds on those of each part that was merged already. -/
theorem ReachesGroup.mono (hreach : ReachesGroup p group below) (h : group ⊆ group') :
    ∃ below', ReachesGroup p group' below' ∧ below ⊆ below' := by
  induction hreach generalizing group' with
  | top group => exact ⟨group', .top group', h⟩
  | inner k _ ih =>
    obtain ⟨below', hreach', hsub⟩ := ih (childrenUnder_subset h)
    exact ⟨below', .inner k hreach', hsub⟩

/-- What is comparable in a group is so among some of its levels. Order and repetitions do not
count. -/
theorem Comparable.subset (h : Comparable p group') (hsub : group ⊆ group') :
    Comparable p group := by
  intro below hreach k f hf g hg
  obtain ⟨below', hreach', hbelow⟩ := hreach.mono hsub
  exact h below' hreach' k f (List.filterMap_subset _ hbelow hf) g
    (List.filterMap_subset _ hbelow hg)

/-- What is comparable in a group is so among the children under each key, since these are reached
from it. -/
theorem Comparable.inner (h : Comparable p group) (k : String) :
    Comparable p (childrenUnder p k group) := fun below hreach => h below (.inner k hreach)

end Schema
end RecordSchema
