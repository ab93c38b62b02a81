import Mathlib.Data.List.Find
import RecordSchema.Proofs.Merge.Parts
import RecordSchema.Proofs.Result
import RecordSchema.Proofs.Schema.Reordering

/-!
# Merging key by key

What a merge makes of two levels is settled under each key apart from all others. Under a key
there is a field on the left or not, and one on the right or not; `Field.MergedSlot` lists the
four cases and what the merged level has there. `Schema.merge_withKey?` says that the look-ups of
a merged level are these, and `Schema.exists_merge` that the merge succeeds when under every key
there is a result.

The path below which a merge takes place shows in its errors alone (`Schema.mergeBelow_eq_ok_iff`),
so that children are merged like schemas of their own (`Field.merge_eq_ok_iff`). What a merge does
with two fields and with the fields of a level is said once, errors included (`Field.merge_eq`,
`Schema.mergeInto_cons`).
-/

namespace RecordSchema

/-- The field made of two matched ones once the type and the children are settled. -/
def Field.combine (l r : Field) (type : FieldType) (children : Option (List Field)) : Field where
  name := Text.lesser l.name r.name
  type := type
  nullable := l.nullable || r.nullable
  metadata := Metadata.union l.metadata r.metadata
  nested := children

/-- The children of a merged field: for a Struct what `merged` makes of the children of both
sides, else none. -/
inductive Field.MergedChildren (merged : Schema → Schema → Schema → Prop) :
    FieldType → Option Schema → Option Schema → Option Schema → Prop
  | struct {t : FieldType} {ls rs m : Schema} : t.isStruct = true → merged ls rs m →
    Field.MergedChildren merged t (some ls) (some rs) (some m)
  | scalar {t : FieldType} (x y : Option Schema) : t.isStruct = false →
    Field.MergedChildren merged t x y none

/-- Merges two levels below a path. -/
def Schema.mergeBelow (p : Policy) (parent : String) (a b : Schema) : Except Error Schema := do
  let shared ← mergeInto p parent b a
  return shared ++ onlyIn p a b

/-- Merges the children of two fields below their path `path`, where the merged field is of type
`type`. -/
def Field.mergeChildren (p : Policy) (path : String) (type : FieldType) (x y : Option Schema) :
    Except Error (Option Schema) :=
  if type.isStruct then
    match x, y with
    | some ls, some rs => some <$> Schema.mergeBelow p path ls rs
    | _, _ => .error (.structuralMismatch path type false)
  else .ok none

section Path

variable {p : Policy} {parent path : String} {l r f : Field}

/-- Merging two fields joins their types and then merges their children. The definition takes fields
apart to show that the recursion ends; here they stay whole, and each step has a name. -/
theorem Field.merge_eq (p : Policy) (parent : String) (l r : Field) :
    Field.merge p parent r l =
      match l.type.join? r.type with
      | none =>
        .error (.incompatibleTypes (p.subpath parent (Text.lesser l.name r.name)) l.type r.type)
      | some t =>
        l.combine r t <$>
          mergeChildren p (p.subpath parent (Text.lesser l.name r.name)) t l.nested r.nested := by
  obtain ⟨name, type, nullable, metadata, nested⟩ := l
  obtain ⟨name', type', nullable', metadata', nested'⟩ := r
  rw [Field.merge]
  cases type.join? type' with
  | none => rfl
  | some t =>
    simp only [mergeChildren, ok_bind]
    cases t.isStruct with
    | false => rfl
    | true =>
      cases nested with
      | none => rfl
      | some ls =>
        cases nested' with
        | none => rfl
        | some rs =>
          simp only [Schema.mergeBelow, ↓reduceIte]
          cases Schema.mergeInto p _ rs ls <;> rfl

/-- Merging children succeeds as the relation between them says: for a Struct both sides have some
and these merge, for any other type there are none afterwards. -/
theorem Field.mergeChildren_eq_ok_iff {t : FieldType} {x y cs : Option Schema} :
    Field.mergeChildren p path t x y = .ok cs ↔
      Field.MergedChildren (fun ls rs m => Schema.mergeBelow p path ls rs = .ok m) t x y cs := by
  unfold mergeChildren
  constructor
  · intro h
    split at h
    · rename_i ht
      split at h
      · obtain ⟨m, hm, rfl⟩ := map_eq_ok_iff.mp h
        exact .struct ht hm
      · cases h
    · rename_i ht
      obtain rfl := Except.ok.inj h
      exact .scalar x y (Bool.eq_false_iff.mpr ht)
  · intro h
    cases h with
    | struct ht hm =>
      rw [if_pos ht]
      exact map_eq_ok_iff.mpr ⟨_, hm, rfl⟩
    | scalar _ _ ht => rw [ht, if_neg Bool.false_ne_true]

/-- A merge of two fields, taken apart: the types join, the children merge below the path of the
field, and the other parts combine without a check. -/
theorem Field.merge_eq_ok_iff_below :
    Field.merge p parent r l = .ok f ↔
      ∃ t cs, l.type.join? r.type = some t ∧
        Field.MergedChildren
          (fun ls rs m =>
            Schema.mergeBelow p (p.subpath parent (Text.lesser l.name r.name)) ls rs = .ok m)
          t l.nested r.nested cs ∧ f = l.combine r t cs := by
  rw [Field.merge_eq]
  cases l.type.join? r.type with
  | none => simp
  | some t =>
    simp only [map_eq_ok_iff, Field.mergeChildren_eq_ok_iff, Option.some.injEq]
    constructor
    · rintro ⟨cs, hcs, rfl⟩
      exact ⟨t, cs, rfl, hcs, rfl⟩
    · rintro ⟨_, cs, rfl, hcs, rfl⟩
      exact ⟨cs, hcs, rfl⟩

/-- What merging makes of a field and the field of the other side that it matches, if any. -/
def Field.mergeMatched (p : Policy) (parent : String) (l : Field) :
    Option Field → Except Error Field
  | some r => Field.merge p parent r l
  | none => .ok l.asNullable

/-- The fields of a level are merged one after the other, each with its match. The look-up is by key
here, where the definition compares the names of two fields by the policy. -/
theorem Schema.mergeInto_cons {right rest : Schema} :
    Schema.mergeInto p parent right (l :: rest) = (do
      let f ← l.mergeMatched p parent (right.withKey? p (p.nameKey l.name))
      let fields ← Schema.mergeInto p parent right rest
      return f :: fields) := by
  rw [Schema.mergeInto]
  unfold Schema.withKey? Policy.sameName
  cases List.find? (fun r => p.nameKey l.name == p.nameKey r.name) right <;> rfl

/-- The fields of a level are merged when the first is and the others are. -/
theorem Schema.mergeInto_cons_eq_ok_iff {right rest fields : Schema} :
    Schema.mergeInto p parent right (l :: rest) = .ok fields ↔
      ∃ f fs, l.mergeMatched p parent (right.withKey? p (p.nameKey l.name)) = .ok f ∧
        Schema.mergeInto p parent right rest = .ok fs ∧ fields = f :: fs := by
  rw [Schema.mergeInto_cons, cons_eq_ok_iff]

/-- Children merged one way are merged another way that succeeds whenever the first does. Only the
children that are there need be considered, as an induction over levels gives it. -/
theorem Field.MergedChildren.imp {M N : Schema → Schema → Schema → Prop} {t : FieldType}
    {x y z : Option Schema} (h : ∀ ls rs m, x = some ls → M ls rs m → N ls rs m)
    (hM : Field.MergedChildren M t x y z) : Field.MergedChildren N t x y z := by
  cases hM with
  | struct ht hm => exact .struct ht (h _ _ _ rfl hm)
  | scalar x y ht => exact .scalar x y ht

/-- A merge that succeeds below one path gives the same below any other. Paths are built on the way
down and looked at only by errors. -/
theorem Schema.mergeInto_parent (p : Policy) (left : Schema) :
    ∀ (parent parent' : String) (right fields : Schema),
      Schema.mergeInto p parent right left = .ok fields →
        Schema.mergeInto p parent' right left = .ok fields := by
  induction left using Schema.levelInduction with
  | step left ih =>
    -- the outer induction goes down the levels, this one along the fields of one
    intro parent parent' right fields h
    induction left generalizing fields with
    | nil => exact h
    | cons l rest ihrest =>
      obtain ⟨f, fs, hf, hfs, rfl⟩ := Schema.mergeInto_cons_eq_ok_iff.mp h
      refine Schema.mergeInto_cons_eq_ok_iff.mpr ⟨f, fs, ?_,
        ihrest (fun g hg => ih g (List.mem_cons_of_mem _ hg)) fs hfs, rfl⟩
      cases hr : right.withKey? p (p.nameKey l.name) with
      | none => rwa [hr] at hf
      | some r =>
        rw [hr] at hf
        obtain ⟨t, cs, hj, hcs, rfl⟩ := Field.merge_eq_ok_iff_below.mp hf
        refine Field.merge_eq_ok_iff_below.mpr ⟨t, cs, hj, hcs.imp fun ls rs m hls hm => ?_, rfl⟩
        obtain ⟨shared, hs, hm⟩ := bind_eq_ok_iff.mp hm
        exact bind_eq_ok_iff.mpr ⟨shared, ih l List.mem_cons_self ls hls _ _ rs shared hs, hm⟩

/-- **The path shows in errors alone.** Below any path two levels merge to what they merge to as
schemas of their own. So what a merge gives can be said without paths from here on. -/
theorem Schema.mergeBelow_eq_ok_iff {a b m : Schema} :
    Schema.mergeBelow p parent a b = .ok m ↔ Schema.merge p a b = .ok m := by
  unfold Schema.mergeBelow Schema.merge
  simp only [bind_eq_ok_iff]
  constructor
  · rintro ⟨shared, hs, hm⟩
    exact ⟨shared, Schema.mergeInto_parent p a _ _ b shared hs, hm⟩
  · rintro ⟨shared, hs, hm⟩
    exact ⟨shared, Schema.mergeInto_parent p a _ _ b shared hs, hm⟩

/-- The children of a field of type `t` merged from two with the children `x` and `y`. -/
abbrev Field.ChildrenMerged (p : Policy) : (t : FieldType) → (x y z : Option Schema) → Prop :=
  Field.MergedChildren fun ls rs m => Schema.merge p ls rs = .ok m

/-- The field that merging `l` with `r` gives. -/
inductive Field.Merged (p : Policy) (l r : Field) : Field → Prop
  | intro {t : FieldType} {cs : Option Schema} : l.type.join? r.type = some t →
    Field.ChildrenMerged p t l.nested r.nested cs → Field.Merged p l r (l.combine r t cs)

/-- Merging two fields gives what the relation `Field.Merged` says, below any path. The path is for
errors only, so the relation does without it. -/
theorem Field.merge_eq_ok_iff : Field.merge p parent r l = .ok f ↔ Field.Merged p l r f := by
  rw [Field.merge_eq_ok_iff_below]
  constructor
  · rintro ⟨t, cs, hj, hcs, rfl⟩
    exact .intro hj (hcs.imp fun _ _ _ _ => Schema.mergeBelow_eq_ok_iff.mp)
  · rintro ⟨hj, hcs⟩
    exact ⟨_, _, hj, hcs.imp fun _ _ _ _ => Schema.mergeBelow_eq_ok_iff.mpr, rfl⟩

end Path

section Merged

variable {p : Policy} {l r f : Field} {t : Schema}

/-- A merged field has the lesser of the two names. -/
theorem Field.Merged.name_eq (h : Field.Merged p l r f) : f.name = Text.lesser l.name r.name := by
  obtain ⟨_, _⟩ := h
  rfl

/-- Exactly a merged Struct has children, even where the two fields were not of proper shape. Fields
without the children that their type requires are not merged at all. -/
theorem Field.Merged.shape (h : Field.Merged p l r f) : f.nested.isSome = f.type.isStruct := by
  obtain ⟨_, hcs⟩ := h
  generalize l.nested = x at hcs
  generalize r.nested = y at hcs
  cases hcs with
  | struct ht _ => exact ht.symm
  | scalar _ _ ht => exact ht.symm

/-- The children of a merged field are what the children of both sides merge to. There are children
on both sides then, as nothing is merged with children that are missing. -/
theorem Field.Merged.exists_merge_of_nested (h : Field.Merged p l r f) (ht : f.nested = some t) :
    ∃ ls rs, l.nested = some ls ∧ r.nested = some rs ∧ Schema.merge p ls rs = .ok t := by
  obtain ⟨_, hcs⟩ := h
  obtain rfl := show _ = some t from ht
  generalize l.nested = x at hcs
  generalize r.nested = y at hcs
  cases hcs with
  | struct _ hm => exact ⟨_, _, rfl, rfl, hm⟩

end Merged

/-- What a merged level has under a key, by what the two sides have there. -/
inductive Field.MergedSlot (p : Policy) : Option Field → Option Field → Option Field → Prop
  | neither : Field.MergedSlot p none none none
  | left (l : Field) : Field.MergedSlot p (some l) none (some l.asNullable)
  | right (r : Field) : Field.MergedSlot p none (some r) (some r.asNullable)
  | both {l r f : Field} : Field.Merged p l r f → Field.MergedSlot p (some l) (some r) (some f)

/-- There is one result of merging two fields, since there is one join of their types and one result
for their children. -/
theorem Field.Merged.unique {p : Policy} {l r f g : Field} (hf : Field.Merged p l r f)
    (hg : Field.Merged p l r g) : f = g :=
  Except.ok.inj ((Field.merge_eq_ok_iff.mpr hf : Field.merge p "" r l = .ok f).symm.trans
    (Field.merge_eq_ok_iff.mpr hg))

/-- There is one result of merging two slots. Which constructor applies is decided by which of the
slots are filled. -/
theorem Field.MergedSlot.unique {p : Policy} {x y o q : Option Field}
    (ho : Field.MergedSlot p x y o) (hq : Field.MergedSlot p x y q) : o = q := by
  cases ho with
  | neither | left | right =>
    cases hq
    rfl
  | both hf =>
    cases hq with
    | both hg => rw [hf.unique hg]

/-- A field is merged with what it matches as the relation between slots says: both sides are
merged, and a field without match is carried over as nullable. -/
theorem Field.mergeMatched_eq_ok_iff {p : Policy} {parent : String} {l f : Field}
    {r : Option Field} :
    l.mergeMatched p parent r = .ok f ↔ Field.MergedSlot p (some l) r (some f) := by
  cases r with
  | none =>
    constructor
    · intro h
      obtain rfl := Except.ok.inj h
      exact .left l
    · rintro ⟨⟩
      rfl
  | some r =>
    rw [Field.mergeMatched, Field.merge_eq_ok_iff]
    refine ⟨.both, ?_⟩
    rintro (_ | _ | _ | h)
    exact h

/-- The lesser of two names with one key has the key. -/
theorem Policy.nameKey_lesser {p : Policy} {x y : String} (h : p.nameKey x = p.nameKey y) :
    p.nameKey (Text.lesser x y) = p.nameKey x := by
  rcases Text.lesser_eq_or x y with hxy | hxy
  · rw [hxy]
  · rw [hxy, h]

/-- A slot keeps the key of the fields in it: whichever spelling a merge takes, the field is found
where the two were. -/
theorem Field.MergedSlot.nameKey_eq {p : Policy} {x y : Option Field} {f : Field} {k : String}
    (h : Field.MergedSlot p x y (some f)) (hx : ∀ l, x = some l → p.nameKey l.name = k)
    (hy : ∀ r, y = some r → p.nameKey r.name = k) : p.nameKey f.name = k := by
  cases h with
  | left l => exact hx l rfl
  | right r => exact hy r rfl
  | both h =>
    obtain ⟨_, _⟩ := h
    have hl := hx _ rfl
    exact (Policy.nameKey_lesser (hl.trans (hy _ rfl).symm)).trans hl

namespace Schema

variable {p : Policy} {a b m s t : Schema} {l r f : Field} {k : String}

/-- Merging a level into another gives, for each field of the left side in its place, what the field
and its match merge to. -/
theorem mergeInto_eq_ok_iff {parent : String} {fields : Schema} :
    mergeInto p parent b a = .ok fields ↔
      List.Forall₂ (fun l f =>
        Field.MergedSlot p (some l) (b.withKey? p (p.nameKey l.name)) (some f)) a fields := by
  induction a generalizing fields with
  | nil =>
    rw [mergeInto, List.forall₂_nil_left_iff]
    exact ⟨fun h => (Except.ok.inj h).symm, fun h => h ▸ rfl⟩
  | cons l rest ih =>
    rw [mergeInto_cons_eq_ok_iff, List.forall₂_cons_left_iff]
    simp only [Field.mergeMatched_eq_ok_iff, ih]

/-- A merged level is made of the merged fields of the left side and of the fields that only the
right side has. The former keep the order of the left side, the latter that of the right. -/
theorem merge_eq_ok_iff :
    merge p a b = .ok m ↔
      ∃ shared : Schema, List.Forall₂ (fun l f =>
          Field.MergedSlot p (some l) (b.withKey? p (p.nameKey l.name)) (some f)) a shared ∧
        shared ++ onlyIn p a b = m := by
  rw [merge, bind_eq_ok_iff]
  simp only [mergeInto_eq_ok_iff, pure_eq_ok_iff]

/-- The merged fields of the left side stay under their keys, since a field and its match have one
key. -/
theorem nameKey_eq_of_mergedSlot
    (h : Field.MergedSlot p (some l) (b.withKey? p (p.nameKey l.name)) (some f)) :
    p.nameKey f.name = p.nameKey l.name :=
  h.nameKey_eq (fun _ h => Option.some.inj h ▸ rfl) fun _ h => key_of_withKey? h

/-- Levels related field by field, by a relation that keeps keys, have related fields under each
key, or none on both sides. -/
theorem withKey?_forall₂ {R : Field → Field → Prop} (h : List.Forall₂ R s t)
    (hkey : ∀ f g, R f g → p.nameKey g.name = p.nameKey f.name) (k : String) :
    Option.Rel R (s.withKey? p k) (t.withKey? p k) := by
  induction h with
  | nil => exact .none
  | @cons f g s t hfg _ ih =>
    have hg := hkey f g hfg
    by_cases hk : k = p.nameKey f.name
    · rw [hk, withKey?_cons_self, ← hg, withKey?_cons_self]
      exact .some hfg
    · rw [withKey?_cons_of_ne _ hk, withKey?_cons_of_ne _ (hg ▸ hk)]
      exact ih

/-- A name is the same as that of some field exactly when its key is one of the level. -/
theorem any_sameName_iff {name : String} :
    (a.any fun l => p.sameName l.name name) = true ↔ p.nameKey name ∈ a.keys p := by
  rw [List.any_eq_true, mem_keys]
  simp only [Policy.sameName_iff]

/-- A change of fields that keeps keys keeps which fields only the right side has. It has to go
together with making fields nullable, as these are. -/
theorem onlyIn_map {q : Policy} {change : Field → Field}
    (hkey : ∀ f, q.nameKey (change f).name = p.nameKey f.name)
    (hnullable : ∀ f, change f.asNullable = (change f).asNullable) (a b : Schema) :
    onlyIn q (a.map change) (b.map change) = (onlyIn p a b).map change := by
  have hsame : ∀ l r : Field,
      q.sameName (change l).name (change r).name = p.sameName l.name r.name := by
    intro l r
    unfold Policy.sameName
    rw [hkey, hkey]
  unfold onlyIn
  rw [List.filter_map, List.map_map, List.map_map]
  simp only [Function.comp_def, List.any_map, hsame, hnullable]

/-- Under a key that the left side lacks stands what the right side has there, made nullable. The
fields left out have other keys, so that the search for this one does not miss them. -/
theorem onlyIn_withKey? (hk : a.withKey? p k = none) :
    withKey? p (onlyIn p a b) k = (b.withKey? p k).map Field.asNullable := by
  unfold onlyIn
  rw [withKey?, List.find?_map, List.find?_filter]
  congr 1
  refine List.find?_congr fun r _ => ?_
  by_cases hkr : k = p.nameKey r.name
  · have hnone : ¬ (a.any fun l => p.sameName l.name r.name) = true := by
      rw [any_sameName_iff, ← hkr]
      exact withKey?_eq_none_iff.mp hk
    simp [hnone, hkr, Field.asNullable]
  · simp [hkr, Field.asNullable]

/-- **A merged level is made key by key.** Under each key it has what the two sides have there merge
to. With distinct keys this determines the merge up to order, so its laws follow from those of
slots. -/
theorem merge_withKey? (h : merge p a b = .ok m) (k : String) :
    Field.MergedSlot p (a.withKey? p k) (b.withKey? p k) (m.withKey? p k) := by
  obtain ⟨shared, hshared, rfl⟩ := merge_eq_ok_iff.mp h
  have hrel := withKey?_forall₂ hshared (fun _ _ => nameKey_eq_of_mergedSlot) k
  rw [withKey?_append]
  cases hl : a.withKey? p k with
  | none =>
    rw [hl] at hrel
    generalize shared.withKey? p k = x at hrel ⊢
    cases hrel
    rw [onlyIn_withKey? hl]
    cases b.withKey? p k with
    | none => exact .neither
    | some r => exact .right r
  | some l =>
    rw [hl] at hrel
    generalize shared.withKey? p k = x at hrel ⊢
    cases hrel with
    | some h => rwa [key_of_withKey? hl] at h

/-- The keys of a merged level: those of the left side, then those that only the right has. In
particular merging keeps the order of the left side and appends. -/
theorem keys_merge (h : merge p a b = .ok m) :
    m.keys p = a.keys p ++ (b.keys p).filter fun k => k ∉ a.keys p := by
  obtain ⟨shared, hshared, rfl⟩ := merge_eq_ok_iff.mp h
  have hleft : keys p shared = a.keys p := by
    clear h
    induction hshared with
    | nil => rfl
    | cons hf _ ih => exact congrArg₂ List.cons (nameKey_eq_of_mergedSlot hf) ih
  have hright : keys p (onlyIn p a b) = (b.keys p).filter fun k => k ∉ a.keys p := by
    unfold onlyIn keys
    rw [List.map_map, List.filter_map]
    congr 1
    refine List.filter_congr fun r _ => ?_
    rw [Bool.eq_iff_iff, Bool.not_eq_true', ← Bool.not_eq_true, any_sameName_iff]
    exact decide_eq_true_iff.symm
  rw [keys_append, hleft, hright]

/-- A merge of two levels with distinct keys has distinct keys. -/
theorem keys_merge_nodup (h : merge p a b = .ok m) (ha : (a.keys p).Nodup)
    (hb : (b.keys p).Nodup) : (m.keys p).Nodup := by
  rw [keys_merge h]
  refine ha.append (hb.filter _) fun k hka hkb => ?_
  exact of_decide_eq_true (List.mem_filter.mp hkb).2 hka

/-- A field of a merged level is what two slots merge to, each of them empty or a field of its
side. -/
theorem exists_mergedSlot_of_mem (h : merge p a b = .ok m) (hm : (m.keys p).Nodup) (hf : f ∈ m) :
    ∃ x y, (∀ l, x = some l → l ∈ a) ∧ (∀ r, y = some r → r ∈ b) ∧
      Field.MergedSlot p x y (some f) := by
  have hslot := merge_withKey? h (p.nameKey f.name)
  rw [withKey?_of_mem hm hf] at hslot
  exact ⟨_, _, fun _ => mem_of_withKey?, fun _ => mem_of_withKey?, hslot⟩

/-- A merge without fields has a left side without fields. So a Struct becomes empty by a merge only
where it was before. -/
theorem eq_nil_of_merge (h : merge p a b = .ok []) : a = [] := by
  have hkeys := keys_merge h
  obtain ⟨ha, -⟩ := List.append_eq_nil_iff.mp hkeys.symm
  exact List.map_eq_nil_iff.mp ha

/-- A merge of levels with distinct names at every level is one, too. So it can be merged
further. -/
theorem DistinctNames.merge (ha : a.DistinctNames p) (hb : b.DistinctNames p)
    (h : Schema.merge p a b = .ok m) : m.DistinctNames p := by
  induction a using levelInduction generalizing b m with
  | step a ih =>
    have hm := keys_merge_nodup h ha.keys_nodup hb.keys_nodup
    refine distinctNames_iff.mpr ⟨hm, fun f hf t ht => ?_⟩
    obtain ⟨x, y, hx, hy, hslot⟩ := exists_mergedSlot_of_mem h hm hf
    cases hslot with
    | left l => exact ha.nested (hx l rfl) ht
    | right r => exact hb.nested (hy r rfl) ht
    | @both l r _ hlr =>
      obtain ⟨ls, rs, hls, hrs, hm⟩ := hlr.exists_merge_of_nested ht
      exact ih l (hx l rfl) ls hls (ha.nested (hx l rfl) hls) (hb.nested (hy r rfl) hrs) hm

/-- A merge succeeds when there is a result under every key: no field stands in the way of
another. -/
theorem exists_merge (ha : (a.keys p).Nodup)
    (h : ∀ k, ∃ o, Field.MergedSlot p (a.withKey? p k) (b.withKey? p k) o) :
    ∃ m, merge p a b = .ok m := by
  have hfields : ∀ l ∈ a, ∃ f,
      Field.MergedSlot p (some l) (b.withKey? p (p.nameKey l.name)) (some f) := by
    intro l hl
    obtain ⟨o, ho⟩ := h (p.nameKey l.name)
    rw [withKey?_of_mem ha hl] at ho
    cases o with
    | none =>
      generalize b.withKey? p (p.nameKey l.name) = y at ho
      cases ho
    | some f => exact ⟨f, ho⟩
  have hshared : ∃ shared : Schema, List.Forall₂ (fun l f =>
      Field.MergedSlot p (some l) (b.withKey? p (p.nameKey l.name)) (some f)) a shared := by
    clear h ha
    induction a with
    | nil => exact ⟨[], .nil⟩
    | cons l rest ih =>
      obtain ⟨f, hf⟩ := hfields l List.mem_cons_self
      obtain ⟨fs, hfs⟩ := ih fun g hg => hfields g (List.mem_cons_of_mem _ hg)
      exact ⟨f :: fs, .cons hf hfs⟩
  obtain ⟨shared, hshared⟩ := hshared
  exact ⟨_, merge_eq_ok_iff.mpr ⟨shared, hshared, rfl⟩⟩

/-- A merge whose slots are known up to order succeeds, with these slots. Each law of merges that
holds up to order ends here: it shows what the other side of the law has under a key. -/
theorem exists_merge_sameUpToOrder (ha : (a.keys p).Nodup) (hb : (b.keys p).Nodup)
    (hm : (m.keys p).Nodup)
    (h : ∀ k, ∃ q, Field.MergedSlot p (a.withKey? p k) (b.withKey? p k) q ∧
      Option.Rel Field.SameUpToOrder (m.withKey? p k) q) :
    ∃ n, merge p a b = .ok n ∧ SameUpToOrder m n := by
  obtain ⟨n, hn⟩ : ∃ n, merge p a b = .ok n :=
    exists_merge ha fun k =>
      let ⟨q, hq, _⟩ := h k
      ⟨q, hq⟩
  refine ⟨n, hn, sameUpToOrder_of_withKey? hm (keys_merge_nodup hn ha hb) fun k => ?_⟩
  obtain ⟨q, hq, hsame⟩ := h k
  rwa [hq.unique (merge_withKey? hn k)] at hsame

end Schema
end RecordSchema
