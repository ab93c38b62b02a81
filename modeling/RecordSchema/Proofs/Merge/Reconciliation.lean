import RecordSchema.Proofs.Merge.Groups
import RecordSchema.Proofs.Schema.Reordering

/-!
# What a group of schemas has in common

What many schemas merge to can be said without merging any two of them. Under each key that
occurs stands one field, whose parts are read off all fields under that key at once: the least
name, the widest type, the greatest values of annotations, values missing where a field says so or
a level lacks the key (`Field.Reconciles`). Its children are what the children of those fields
have in common in turn (`Schema.Reconciles`).

This determines a schema (`Schema.Reconciles.unique`), up to order even for the members of the
group in another order (`Schema.Reconciles.sameUpToOrder`), and there is one only if types under
one key are comparable throughout (`Schema.Reconciles.comparable`).
-/

namespace RecordSchema

section Extremes

variable {xs ys : List String}

/-- The least of some texts depends on which there are, not on their order. -/
theorem min?_congr (h : ∀ v, v ∈ xs ↔ v ∈ ys) : xs.min? = ys.min? := by
  ext v
  simp only [List.min?_eq_some_iff, h]

/-- The greatest of some texts depends on which there are, not on their order. -/
theorem max?_congr (h : ∀ v, v ∈ xs ↔ v ∈ ys) : xs.max? = ys.max? := by
  ext v
  simp only [List.max?_eq_some_iff, h]

end Extremes

/-- `f` has in each part what the fields `fs` come to together; `lacking` says that beside them
there is a level without such a field. -/
structure Field.Reconciles (fs : List Field) (lacking : Prop) (f : Field) : Prop where
  name : (fs.map Field.name).min? = some f.name
  type_mem : ∃ g ∈ fs, g.type = f.type
  type_widest : ∀ g ∈ fs, g.type.widensTo f.type = true
  nullable : f.nullable = true ↔ (∃ g ∈ fs, g.nullable = true) ∨ lacking
  metadata : ∀ k, f.metadata.find? k = (fs.filterMap fun g => g.metadata.find? k).max?
  shape : f.nested.isSome = f.type.isStruct

/-- Some level of the group has no field under the key. -/
def Schema.Lacking (p : Policy) (k : String) (group : List Schema) : Prop :=
  ∃ s ∈ group, k ∉ s.keys p

/-- `Schema.Reconciles p group m`: under each key of the group, in order of first appearance, `m`
has the field that reconciles those of the group, over children that reconcile theirs. -/
inductive Schema.Reconciles (p : Policy) : List Schema → Schema → Prop
  | intro {group : List Schema} {m : Schema} : m.keys p = keysOf p group →
    (∀ f ∈ m, f.Reconciles (fieldsUnder p (p.nameKey f.name) group)
      (Lacking p (p.nameKey f.name) group)) →
    (∀ f ∈ m, ∀ t : Schema, f.nested = some t →
      Schema.Reconciles p (childrenUnder p (p.nameKey f.name) group) t) →
    Schema.Reconciles p group m

namespace Field

variable {fs gs : List Field} {lacking lacking' : Prop} {f g : Field}

/-- The order of the fields that are reconciled does not count, since each part is read off all of
them at once. -/
theorem Reconciles.of_perm (h : f.Reconciles fs lacking) (hfs : fs.Perm gs)
    (hlacking : lacking ↔ lacking') : f.Reconciles gs lacking' where
  name := by
    rw [← h.name]
    exact min?_congr fun v => (hfs.map Field.name).symm.mem_iff
  type_mem := by
    obtain ⟨g, hg, hgf⟩ := h.type_mem
    exact ⟨g, hfs.mem_iff.mp hg, hgf⟩
  type_widest g hg := h.type_widest g (hfs.mem_iff.mpr hg)
  nullable := by simp only [h.nullable, hfs.mem_iff, hlacking]
  metadata k := by
    rw [h.metadata k]
    exact max?_congr fun v => (hfs.filterMap _).mem_iff
  shape := h.shape

/-- Fields that reconcile the same fields differ in their children at most. The widest type is one
of the types, so two of them widen into each other. -/
theorem Reconciles.agree (hf : f.Reconciles fs lacking) (hg : g.Reconciles fs lacking) :
    f.name = g.name ∧ f.type = g.type ∧ f.nullable = g.nullable ∧ f.metadata = g.metadata := by
  have hname : f.name = g.name := Option.some.inj (hf.name.symm.trans hg.name)
  have htype : f.type = g.type := by
    obtain ⟨x, hx, hxf⟩ := hf.type_mem
    obtain ⟨y, hy, hyg⟩ := hg.type_mem
    exact FieldType.widensTo_antisymm (hxf ▸ hg.type_widest x hx) (hyg ▸ hf.type_widest y hy)
  have hnullable : f.nullable = g.nullable :=
    Bool.eq_iff_iff.mpr (hf.nullable.trans hg.nullable.symm)
  have hmetadata : f.metadata = g.metadata :=
    TextMap.ext_find? fun k => (hf.metadata k).trans (hg.metadata k).symm
  exact ⟨hname, htype, hnullable, hmetadata⟩

/-- Fields that reconcile the same fields and have the same children are equal. Name, type,
nullability and metadata are each determined by the fields, in whatever order these come. -/
theorem Reconciles.eq_of_nested_eq (hf : f.Reconciles fs lacking) (hg : g.Reconciles fs lacking)
    (h : f.nested = g.nested) : f = g := by
  have hagree := hf.agree hg
  obtain ⟨name, type, nullable, metadata, nested⟩ := f
  obtain ⟨name', type', nullable', metadata', nested'⟩ := g
  obtain ⟨rfl, rfl, rfl, rfl⟩ := hagree
  obtain rfl : nested = nested' := h
  rfl

/-- Fields that reconcile the same fields are the same up to order when their children are. The
order of a merged level follows that of the schemas, which is all that a permutation of them
changes. -/
theorem Reconciles.sameUpToOrder_of_nested (hf : f.Reconciles fs lacking)
    (hg : g.Reconciles fs lacking) (h : Option.Rel Schema.SameUpToOrder f.nested g.nested) :
    f.SameUpToOrder g := by
  have hagree := hf.agree hg
  obtain ⟨name, type, nullable, metadata, nested⟩ := f
  obtain ⟨name', type', nullable', metadata', nested'⟩ := g
  obtain ⟨rfl, rfl, rfl, rfl⟩ := hagree
  exact .of_nested h

/-- Both of two fields that reconcile the same fields have children, or neither has, as their type
is the same and exactly Structs have them. -/
theorem Reconciles.nested_rel {R : List Field → List Field → Prop} (hf : f.Reconciles fs lacking)
    (hg : g.Reconciles fs lacking)
    (h : ∀ t u : Schema, f.nested = some t → g.nested = some u → R t u) :
    Option.Rel R f.nested g.nested := by
  have hshape : g.nested.isSome = f.nested.isSome := by
    rw [hg.shape, hf.shape, (hf.agree hg).2.1]
  generalize f.nested = x at h hshape
  generalize g.nested = y at h hshape
  cases x with
  | none =>
    cases y with
    | none => exact .none
    | some u => exact nomatch hshape
  | some t =>
    cases y with
    | none => exact nomatch hshape
    | some u => exact .some (h t u rfl rfl)

end Field

namespace Schema

variable {p : Policy} {group group' below : List Schema} {m n : Schema} {f : Field} {k : String}

/-- `f` is what a group comes to under a key: it reconciles the fields there, and its children
those of these fields. -/
def ReconcilesAt (p : Policy) (k : String) (group : List Schema) (f : Field) : Prop :=
  f.Reconciles (fieldsUnder p k group) (Lacking p k group) ∧
    ∀ t : Schema, f.nested = some t → Reconciles p (childrenUnder p k group) t

/-- A schema reconciles a group exactly when it has the keys of the group in their order and under
each the field that reconciles there, with all below it. -/
theorem reconciles_iff :
    Reconciles p group m ↔
      m.keys p = keysOf p group ∧ ∀ f ∈ m, ReconcilesAt p (p.nameKey f.name) group f := by
  constructor
  · rintro ⟨hkeys, hfields, hbelow⟩
    exact ⟨hkeys, fun f hf => ⟨hfields f hf, hbelow f hf⟩⟩
  · rintro ⟨hkeys, hat⟩
    exact .intro hkeys (fun f hf => (hat f hf).1) fun f hf => (hat f hf).2

/-- What reconciles a group has distinct keys. -/
theorem Reconciles.keys_nodup (h : Reconciles p group m) : (m.keys p).Nodup := by
  rw [(reconciles_iff.mp h).1]
  exact keysOf_nodup

/-- What is found under a key of a reconciled schema reconciles the group under that key. -/
theorem Reconciles.at_withKey? (h : Reconciles p group m) (hf : m.withKey? p k = some f) :
    ReconcilesAt p k group f := by
  have hat := (reconciles_iff.mp h).2 f (mem_of_withKey? hf)
  rwa [key_of_withKey? hf] at hat

/-- Under a key of the group there is a field in the schema that reconciles it. -/
theorem Reconciles.exists_withKey? (h : Reconciles p group m) (hk : k ∈ keysOf p group) :
    ∃ f, m.withKey? p k = some f := by
  rw [← (reconciles_iff.mp h).1] at hk
  exact exists_withKey?_of_mem_keys hk

/-- Levels with the same keys in the same order are equal when the fields under each key are.
Distinct keys are not needed, as the hypothesis covers any two fields with one key. -/
theorem eq_of_keys_eq (hkeys : m.keys p = n.keys p)
    (h : ∀ f ∈ m, ∀ g ∈ n, p.nameKey f.name = p.nameKey g.name → f = g) : m = n := by
  induction m generalizing n with
  | nil => exact (List.map_eq_nil_iff.mp hkeys.symm).symm
  | cons f m ih =>
    cases n with
    | nil => exact nomatch hkeys
    | cons g n =>
      obtain ⟨hkey, hrest⟩ := List.cons.inj hkeys
      have hfg : f = g := h f List.mem_cons_self g List.mem_cons_self hkey
      have hmn : m = n := ih hrest fun x hx y hy =>
        h x (List.mem_cons_of_mem _ hx) y (List.mem_cons_of_mem _ hy)
      rw [hfg, hmn]

/-- One schema reconciles a group. So the relation is as good as a function, though it merges
nothing. -/
theorem Reconciles.unique (hm : Reconciles p group m) (hn : Reconciles p group n) : m = n := by
  induction hm generalizing n with
  | intro hkeys hfields _ ih =>
    obtain ⟨hkeys', hat⟩ := reconciles_iff.mp hn
    refine eq_of_keys_eq (hkeys.trans hkeys'.symm) fun f hf g hg hfg => ?_
    obtain ⟨hgr, hbelow⟩ := hat g hg
    rw [← hfg] at hgr hbelow
    have hrel : Option.Rel Eq f.nested g.nested :=
      (hfields f hf).nested_rel hgr fun t u ht hu => ih f hf t ht (hbelow u hu)
    have hnested : f.nested = g.nested := by
      generalize f.nested = x at hrel
      generalize g.nested = y at hrel
      cases hrel with
      | none => rfl
      | some htu => rw [htu]
    exact (hfields f hf).eq_of_nested_eq hgr hnested

/-- Whether some level lacks a key does not depend on the order of the levels. -/
theorem lacking_perm (h : group.Perm group') : Lacking p k group ↔ Lacking p k group' := by
  simp only [Lacking, h.mem_iff]

/-- The schema of a group stays the same up to order when the group is put in another order: keys
appear in another order then, and nothing else changes. -/
theorem Reconciles.sameUpToOrder (hm : Reconciles p group m) (hn : Reconciles p group' n)
    (h : group.Perm group') : SameUpToOrder m n := by
  induction hm generalizing group' n with
  | @intro group m hkeys hfields hbelow ih =>
    have hm := (Reconciles.intro hkeys hfields hbelow).keys_nodup
    refine sameUpToOrder_of_withKey? hm hn.keys_nodup fun k => ?_
    have hkey : k ∈ m.keys p ↔ k ∈ n.keys p := by
      simp only [hkeys, (reconciles_iff.mp hn).1, mem_keysOf, h.mem_iff]
    cases hf : m.withKey? p k with
    | none =>
      have hk := withKey?_eq_none_iff.mp hf
      rw [withKey?_eq_none_iff.mpr fun hkn => hk (hkey.mpr hkn)]
      exact .none
    | some f =>
      obtain ⟨hfm, rfl⟩ := (withKey?_eq_some_iff hm).mp hf
      obtain ⟨g, hg⟩ := exists_withKey?_of_mem_keys (hkey.mp (mem_keys.mpr ⟨f, hfm, rfl⟩))
      obtain ⟨hgr, hgbelow⟩ := hn.at_withKey? hg
      have hgr' := hgr.of_perm (h.symm.filterMap _) (lacking_perm h.symm)
      have hrel := (hfields f hfm).nested_rel hgr' fun t u ht hu =>
        ih f hfm t ht (hgbelow u hu) ((h.filterMap _).filterMap _)
      rw [hg]
      exact .some ((hfields f hfm).sameUpToOrder_of_nested hgr' hrel)

/-- From no levels only no levels are reached. The cases in which a group is empty need no condition
on types. -/
theorem ReachesGroup.eq_nil (h : ReachesGroup p group below) (hnil : group = []) : below = [] := by
  induction h with
  | top => exact hnil
  | inner k _ ih =>
    subst hnil
    exact ih rfl

/-- Children in a group have a field that stands over them in the schema that reconciles it. It is a
Struct, since one of the fields it reconciles is. -/
theorem Reconciles.exists_above (h : Reconciles p group m)
    (hgroup : ∀ s ∈ group, s.WellFormed p) {t : Schema} (ht : t ∈ childrenUnder p k group) :
    ∃ f u, m.withKey? p k = some f ∧ f.nested = some u := by
  obtain ⟨g, hg, hgt⟩ := mem_childrenUnder.mp ht
  obtain ⟨f, hf⟩ := h.exists_withKey? (mem_keysOf_iff.mpr ⟨g, hg⟩)
  obtain ⟨hfr, -⟩ := h.at_withKey? hf
  have hstruct : f.nested.isSome = true := by
    have hg' := WellFormed.of_mem_fieldsUnder hgroup hg
    rw [hfr.shape, ← FieldType.isStruct_of_widensTo (hfr.type_widest g hg), ← hg'.proper.shape, hgt]
    rfl
  obtain ⟨u, hu⟩ := Option.isSome_iff_exists.mp hstruct
  exact ⟨f, u, hf, hu⟩

/-- A group that can be reconciled has comparable types under each key, on every level that is
reached: the types there widen into one type, and so form a chain. -/
theorem Reconciles.comparable (h : Reconciles p group m) (hgroup : ∀ s ∈ group, s.WellFormed p) :
    Comparable p group := by
  induction h with
  | @intro group m hkeys hfields hbelow ih =>
    have hm := Reconciles.intro hkeys hfields hbelow
    intro below hreach
    cases hreach with
    | top =>
      intro k f hf g hg
      obtain ⟨x, hx⟩ := hm.exists_withKey? (mem_keysOf_iff.mpr ⟨f, hf⟩)
      obtain ⟨hxr, -⟩ := hm.at_withKey? hx
      exact FieldType.comparable_of_widensTo (hxr.type_widest f hf) (hxr.type_widest g hg)
    | inner k hreach =>
      cases hchildren : childrenUnder p k group with
      | nil =>
        obtain rfl := hreach.eq_nil hchildren
        exact fun _ _ hf => nomatch hf
      | cons t ts =>
        have ht : t ∈ childrenUnder p k group := hchildren ▸ List.mem_cons_self
        obtain ⟨x, u, hx, hu⟩ := hm.exists_above hgroup ht
        obtain ⟨hxm, rfl⟩ := (withKey?_eq_some_iff hm.keys_nodup).mp hx
        exact ih x hxm u hu (wellFormed_childrenUnder hgroup) below hreach

end Schema
end RecordSchema
