import RecordSchema.Proofs.Catalog.Cycles
import RecordSchema.Proofs.Catalog.Unfolding
import RecordSchema.Proofs.TextMap

/-!
# Examination and resolution agree

A catalog is examined without building anything and resolved without looking around; still one
finds nothing exactly when the other succeeds for every name.

On one definition the two do the same work field by field, as long as what it refers to unfolds
(`Definition.exists_unfolds_iff`). What is left are the references. Without cycles the names can be
put in an order in which each refers only to later ones, and unfoldings are found along it from
the end. With a cycle there are none, since what a name unfolds to gets smaller with each
reference followed.
-/

namespace RecordSchema

section Shapes

variable {c : Catalog} {p : Policy} {path name text : String} {nullable : Bool}
  {metadata : Metadata} {ds : List FieldDef}

/-- A field without reference and children must have a type that can be read and is no Struct. This
is one of the three shapes of a field definition for which building and examining are compared. -/
theorem FieldDef.shapeViolations_plain_iff :
    FieldDef.shapeViolations c p path ⟨name, text, nullable, metadata, none, none⟩ = [] ↔
      ∃ type, FieldType.ofText text = .ok type ∧ type.isStruct = false := by
  rw [FieldDef.shapeViolations]
  cases FieldType.ofText text with
  | error e => simp
  | ok type => cases h : type.isStruct <;> simp [h]

/-- A field with a reference must be a Struct, and its target defined and not empty unless that is
allowed. What else is wrong with the target is reported there. -/
theorem FieldDef.shapeViolations_reference_iff {target : String} :
    FieldDef.shapeViolations c p path ⟨name, text, nullable, metadata, some target, none⟩ = [] ↔
      ∃ type d, FieldType.ofText text = .ok type ∧ type.isStruct = true ∧
        c.find? target = some d ∧ (d = [] → p.allowEmptyStruct = true) := by
  rw [FieldDef.shapeViolations]
  cases FieldType.ofText text with
  | error e => simp
  | ok type =>
    cases h : type.isStruct with
    | false => simp [h]
    | true =>
      cases c.find? target with
      | none => simp [h]
      | some d => simp [h]

/-- A field with children in place must be a Struct, and these be without violations and some unless
that is not needed. -/
theorem FieldDef.shapeViolations_inline_iff :
    FieldDef.shapeViolations c p path ⟨name, text, nullable, metadata, none, some ds⟩ = [] ↔
      ∃ type, FieldType.ofText text = .ok type ∧ type.isStruct = true ∧
        (ds = [] → p.allowEmptyStruct = true) ∧ Definition.levelViolations c p path [] ds = [] := by
  rw [FieldDef.shapeViolations]
  cases FieldType.ofText text with
  | error e => simp
  | ok type =>
    cases h : type.isStruct with
    | false => simp [h]
    | true => simp [h]

/-- A field must not have both a reference and children in place, whatever its type. Building such a
field fails as well, so neither accepts it. -/
theorem FieldDef.shapeViolations_both {target : String} :
    FieldDef.shapeViolations c p path ⟨name, text, nullable, metadata, some target, some ds⟩ ≠
      [] := by
  rw [FieldDef.shapeViolations]
  cases FieldType.ofText text with
  | error e => simp
  | ok type => simp

end Shapes

/-- Every reference among `refs` to a defined name is to one that unfolds. -/
def Catalog.Resolvable (c : Catalog) (p : Policy) (refs : List Reference) : Prop :=
  ∀ r ∈ refs, r.target ∈ c.names → ∃ s, c.Unfolds p r.target s

mutual

/-- A field is without violations exactly when it unfolds, if what is referenced from it does. The
examination does not follow references, so what they lead to is a hypothesis. -/
theorem FieldDef.exists_unfolds_iff (c : Catalog) (p : Policy) (parent : String) :
    (d : FieldDef) → c.Resolvable p (d.references p parent) →
      (p.nameFault? d.name = none ∧ d.shapeViolations c p (p.subpath parent d.name) = [] ↔
        ∃ f, d.Unfolds c p f)
  | ⟨name, text, nullable, metadata, none, none⟩ => by
    intro _
    rw [FieldDef.shapeViolations_plain_iff]
    constructor
    · rintro ⟨hname, type, htext, htype⟩
      have hproper : Field.IsProper p ⟨name, type, nullable, metadata, none⟩ :=
        ⟨hname, htype.symm, fun h => nomatch h⟩
      exact ⟨_, .plain htext (Field.build_eq_ok_iff.mpr ⟨rfl, hproper⟩)⟩
    · rintro ⟨f, h⟩
      cases h with
      | plain htext hf =>
        obtain ⟨rfl, hproper⟩ := Field.build_eq_ok_iff.mp hf
        exact ⟨hproper.name, _, htext, hproper.shape.symm⟩
  | ⟨name, text, nullable, metadata, some target, none⟩ => by
    intro hrefs
    rw [FieldDef.shapeViolations_reference_iff]
    constructor
    · rintro ⟨hname, type, d, htext, htype, hd, hempty⟩
      obtain ⟨s, hs⟩ := hrefs ⟨p.subpath parent name, target⟩ List.mem_cons_self
        (Catalog.mem_names_of_find? hd)
      have hds := (Catalog.unfolds_iff hd).mp hs
      have hproper : Field.IsProper p ⟨name, type, nullable, metadata, some s⟩ :=
        ⟨hname, htype.symm, fun h => hempty (hds.eq_nil_iff.mp (Option.some.inj h))⟩
      exact ⟨_, .reference htext hs (Field.build_eq_ok_iff.mpr ⟨rfl, hproper⟩)⟩
    · rintro ⟨f, h⟩
      cases h with
      | reference htext hs hf =>
        obtain ⟨rfl, hproper⟩ := Field.build_eq_ok_iff.mp hf
        obtain ⟨hd, hds⟩ := hs
        exact ⟨hproper.name, _, _, htext, hproper.shape.symm, hd,
          fun h => hproper.children (congrArg some (hds.eq_nil_iff.mpr h))⟩
  | ⟨name, text, nullable, metadata, some target, some ds⟩ => by
    intro _
    constructor
    · rintro ⟨-, h⟩
      exact absurd h FieldDef.shapeViolations_both
    · rintro ⟨f, h⟩
      exact nomatch h
  | ⟨name, text, nullable, metadata, none, some ds⟩ => by
    intro hrefs
    have hbelow := FieldDef.exists_forall₂_unfolds_iff c p (p.subpath parent name) [] ds hrefs
    rw [FieldDef.shapeViolations_inline_iff, hbelow]
    constructor
    · rintro ⟨hname, type, htext, htype, hempty, s, hs, hkeys⟩
      have hds := Definition.unfolds_iff.mpr ⟨hs, freshKeys_nil_iff.mp hkeys⟩
      have hproper : Field.IsProper p ⟨name, type, nullable, metadata, some s⟩ :=
        ⟨hname, htype.symm, fun h => hempty (hds.eq_nil_iff.mp (Option.some.inj h))⟩
      exact ⟨_, .inline htext hds (Field.build_eq_ok_iff.mpr ⟨rfl, hproper⟩)⟩
    · rintro ⟨f, h⟩
      cases h with
      | inline htext hds hf =>
        obtain ⟨rfl, hproper⟩ := Field.build_eq_ok_iff.mp hf
        have hempty := fun h => hproper.children (congrArg some (hds.eq_nil_iff.mpr h))
        obtain ⟨hs, hkeys⟩ := Definition.unfolds_iff.mp hds
        exact ⟨hproper.name, _, htext, hproper.shape.symm, hempty, _, hs,
          freshKeys_nil_iff.mpr hkeys⟩

/-- A level is without violations exactly when its fields unfold to fields with fresh keys, if what
is referenced from it does. -/
theorem FieldDef.exists_forall₂_unfolds_iff (c : Catalog) (p : Policy) (parent : String)
    (seen : List String) : (ds : List FieldDef) →
      c.Resolvable p (Definition.references p parent ds) →
      (Definition.levelViolations c p parent seen ds = [] ↔
        ∃ fs, List.Forall₂ (FieldDef.Unfolds c p) ds fs ∧ FreshKeys seen (Schema.keys p fs))
  | [] => fun _ => ⟨fun _ => ⟨[], .nil, freshKeys_nil⟩, fun _ => rfl⟩
  | d :: ds => by
    intro hrefs
    have hd := FieldDef.exists_unfolds_iff c p parent d fun r hr =>
      hrefs r (List.mem_append_left _ hr)
    have hds := FieldDef.exists_forall₂_unfolds_iff c p parent (p.nameKey d.name :: seen) ds
      fun r hr => hrefs r (List.mem_append_right _ hr)
    rw [Definition.levelViolations, List.append_eq_nil_iff, List.append_eq_nil_iff,
      List.map_eq_nil_iff, Policy.nameErrors_eq_nil_iff, hds]
    constructor
    · rintro ⟨⟨⟨hname, hkey⟩, hshape⟩, fs, hfs, hkeys⟩
      obtain ⟨f, hf⟩ := hd.mp ⟨hname, hshape⟩
      refine ⟨f :: fs, .cons hf hfs, ?_⟩
      rw [Schema.keys_cons, hf.name_eq]
      exact freshKeys_cons_iff.mpr ⟨hkey, hkeys⟩
    · rintro ⟨_, hall, hkeys⟩
      cases hall with
      | cons hf hfs =>
        rw [Schema.keys_cons, hf.name_eq, freshKeys_cons_iff] at hkeys
        obtain ⟨hname, hshape⟩ := hd.mpr ⟨_, hf⟩
        exact ⟨⟨⟨hname, hkeys.1⟩, hshape⟩, _, hfs, hkeys.2⟩

end

/-- A definition is without violations exactly when it unfolds, if what it refers to does. -/
theorem Definition.exists_unfolds_iff {c : Catalog} {p : Policy} {parent : String}
    {ds : List FieldDef} (h : c.Resolvable p (Definition.references p parent ds)) :
    Definition.levelViolations c p parent [] ds = [] ↔ ∃ s, Definition.Unfolds c p ds s := by
  simp only [FieldDef.exists_forall₂_unfolds_iff c p parent [] ds h, freshKeys_nil_iff,
    Definition.unfolds_iff]

section Size

variable {f g : Field} {s : Schema} {position : List Nat}

/-- What is at a position below a field is no larger than the field. Going through a reference is a
step down in what is built, so that no name can unfold to something that holds its own unfolding. -/
theorem Field.sizeOf_le_of_at? (h : f.at? position = some g) : sizeOf g ≤ sizeOf f := by
  induction position generalizing f with
  | nil => rw [Option.some.inj h]
  | cons i position ih =>
    obtain ⟨s, hs, h⟩ := Option.bind_eq_some_iff.mp h
    obtain ⟨f', hf', h⟩ := Option.bind_eq_some_iff.mp h
    have hlt : sizeOf f' < sizeOf s := List.sizeOf_lt_of_mem (List.mem_of_getElem? hf')
    exact Nat.le_trans (ih h) (Nat.le_of_lt (Nat.lt_trans hlt (Field.sizeOf_nested_lt hs)))

/-- What is at a position of a schema is smaller than the schema. The position has at least one
index, which is where it gets smaller. -/
theorem Schema.sizeOf_lt_of_at? (h : s.at? position = some g) : sizeOf g < sizeOf s := by
  cases position with
  | nil => exact nomatch h
  | cons i position =>
    obtain ⟨f, hf, h⟩ := Option.bind_eq_some_iff.mp h
    have hlt : sizeOf f < sizeOf s := List.sizeOf_lt_of_mem (List.mem_of_getElem? hf)
    exact Nat.lt_of_le_of_lt (Field.sizeOf_le_of_at? h) hlt

end Size

namespace Catalog

variable {c : Catalog} {p : Policy} {d e name : String} {s : Schema}

/-- What a name unfolds to gets smaller along a reference, since it contains what the reference
unfolds to. -/
theorem Edge.exists_smaller (h : c.Edge p d e) (hs : c.Unfolds p d s) :
    ∃ t, c.Unfolds p e t ∧ sizeOf t < sizeOf s := by
  obtain ⟨site, path, rfl, f, hf, htarget, -⟩ := h
  obtain ⟨g, t, hg, hgt, ht⟩ := hs.reference hf htarget
  exact ⟨t, ht, Nat.lt_trans (Field.sizeOf_nested_lt hgt) (Schema.sizeOf_lt_of_at? hg)⟩

/-- What a name unfolds to gets smaller along one or more references. A name on a cycle would unfold
to something smaller than itself, which is why it has no unfolding. -/
theorem exists_smaller_of_transGen (h : Relation.TransGen (c.Edge p) d e) (hs : c.Unfolds p d s) :
    ∃ t, c.Unfolds p e t ∧ sizeOf t < sizeOf s := by
  induction h with
  | single h => exact h.exists_smaller hs
  | tail _ h ih =>
    obtain ⟨t, ht, hts⟩ := ih
    obtain ⟨u, hu, hut⟩ := h.exists_smaller ht
    exact ⟨u, hu, Nat.lt_trans hut hts⟩

/-- A name on a cycle has no unfolding: it would be smaller than itself. -/
theorem not_unfolds_of_transGen (h : Relation.TransGen (c.Edge p) d d) : ¬c.Unfolds p d s := by
  intro hs
  obtain ⟨t, ht, hlt⟩ := exists_smaller_of_transGen h hs
  rw [hs.unique ht] at hlt
  exact Nat.lt_irrefl _ hlt

/-- Nothing is improper about a catalog when nothing is about any definition and there are no
cycles. -/
theorem violations_eq_nil_iff :
    c.violations p = [] ↔
      (∀ name ds, c.find? name = some ds → Definition.levelViolations c p name [] ds = []) ∧
        c.cycles p = [] := by
  rw [violations, List.append_eq_nil_iff, List.flatMap_eq_nil_iff]
  refine and_congr_left fun _ => ⟨fun h name ds hds => ?_, fun h e he => ?_⟩
  · exact h (name, ds) (TextMap.find?_eq_some_iff.mp hds)
  · exact h e.1 e.2 (TextMap.find?_eq_some_iff.mpr he)

/-- The names of a catalog are those with a definition. -/
theorem mem_names_iff : name ∈ c.names ↔ ∃ ds, c.find? name = some ds := TextMap.mem_keys_iff

/-- What a name refers to is resolvable when every edge from it leads to a name that unfolds.
References to nothing make no edges, and the examination reports them where they are made. -/
theorem resolvable_references (h : ∀ e, c.EdgeOutside p [] d e → ∃ s, c.Unfolds p e s) :
    c.Resolvable p (c.references p d) := by
  intro r hr hdef
  rw [← map_snd_placed] at hr
  obtain ⟨⟨position, _⟩, hplaced, rfl⟩ := List.mem_map.mp hr
  obtain ⟨f, hf, htarget⟩ := mem_placed_iff.mp hplaced
  exact h _ ⟨⟨d, position⟩, _, rfl, ⟨f, hf, htarget, hdef⟩, List.not_mem_nil⟩

/-- A name whose references are resolvable is without violations exactly when it unfolds. -/
theorem exists_unfolds_iff {ds : Definition} (hds : c.find? name = some ds)
    (h : c.Resolvable p (c.references p name)) :
    Definition.levelViolations c p name [] ds = [] ↔ ∃ s, c.Unfolds p name s := by
  rw [references, hds, Option.getD_some] at h
  simp only [Definition.exists_unfolds_iff h, unfolds_iff hds]

/-- Names in an order in which each refers only to later ones unfold, from the last one on. The
search for cycles gives such an order when it reports nothing. -/
theorem exists_unfolds_of_settled {order : List String} (h : c.Settled p [] order)
    (hlocal : ∀ name ds, c.find? name = some ds → Definition.levelViolations c p name [] ds = []) :
    ∀ name ∈ order, name ∈ c.names → ∃ s, c.Unfolds p name s := by
  induction order with
  | nil => exact fun _ hname => nomatch hname
  | cons d done ih =>
    obtain ⟨hd, hdone⟩ := h
    intro name hname hdef
    rcases List.mem_cons.mp hname with rfl | hname
    · obtain ⟨ds, hds⟩ := mem_names_iff.mp hdef
      have hrefs := resolvable_references fun e he => ih hdone e (hd e he) he.target_defined
      exact (exists_unfolds_iff hds hrefs).mp (hlocal name ds hds)
    · exact ih hdone name hname hdef

/-- Nothing is improper about a catalog exactly when every name unfolds. From left to right names
are taken in the order that the search for cycles leaves; from right to left each definition is
judged by what it unfolds to, and a cycle would leave its names without unfolding. -/
theorem isValid_iff_forall_unfolds :
    c.isValid p = true ↔ ∀ name ∈ c.names, ∃ s, c.Unfolds p name s := by
  rw [isValid, List.isEmpty_iff, violations_eq_nil_iff]
  constructor
  · rintro ⟨hlocal, hcycles⟩ name hname
    obtain ⟨sites, order, -, hcloses, hsettled, hall⟩ := exists_settled_cycles c p
    -- without a report no field is left out, so the names are in order as they are
    rw [hcycles] at hcloses
    obtain rfl := List.forall₂_nil_right_iff.mp hcloses
    exact exists_unfolds_of_settled hsettled hlocal name (hall hname) hname
  · intro h
    refine ⟨fun name ds hds => ?_, List.eq_nil_iff_forall_not_mem.mpr fun v hv => ?_⟩
    · have hrefs : c.Resolvable p (c.references p name) := fun r _ hdef => h r.target hdef
      exact (exists_unfolds_iff hds hrefs).mpr (h name (mem_names_of_find? hds))
    · obtain ⟨site, hcloses⟩ := exists_closes_of_mem_cycles hv
      obtain ⟨d, hcycle⟩ := hcloses.transGen
      obtain ⟨e, hde, -⟩ := Relation.TransGen.head'_iff.mp hcycle
      obtain ⟨_, _, rfl, hr⟩ := hde
      obtain ⟨s, hs⟩ := h _ hr.definition_mem
      exact not_unfolds_of_transGen hcycle hs

/-- Nothing is improper about a catalog exactly when every name is resolved. -/
theorem isValid_iff_forall_resolve :
    c.isValid p = true ↔ ∀ name ∈ c.names, ∃ s, c.resolve p name = .ok s := by
  simp only [isValid_iff_forall_unfolds, resolve_eq_ok_iff]

/-- All definitions are resolved at once exactly when each of them is on its own. The first that
fails ends the traversal, but whether one fails does not depend on the order. -/
theorem exists_resolveAll_iff :
    (∃ rows, c.resolveAll p = .ok rows) ↔ ∀ name ∈ c.names, ∃ s, c.resolve p name = .ok s := by
  rw [resolveAll, exists_mapM_eq_ok_iff]
  refine forall₂_congr fun name _ => ?_
  constructor
  · rintro ⟨_, h⟩
    obtain ⟨s, hs, -⟩ := bind_eq_ok_iff.mp h
    exact ⟨s, hs⟩
  · rintro ⟨s, hs⟩
    exact ⟨(name, s), bind_eq_ok_iff.mpr ⟨s, hs, rfl⟩⟩

end Catalog
end RecordSchema
