import RecordSchema.Catalog.Resolution
import RecordSchema.Proofs.Catalog.References
import RecordSchema.Proofs.Pairing
import RecordSchema.Proofs.Result
import RecordSchema.Proofs.Schema.WellFormed

/-!
# Resolution is unfolding

`Catalog.Unfolds` says what a name stands for without saying how to find it: each field has the
type its text names, the children of a reference are what the referenced name stands for, and
every field and level is proper. There is no branch in it; a name that leads back to itself just
has no finite unfolding.

The program keeps a branch. What it resolves is an unfolding, since it follows the rules
(`Catalog.unfolds_of_follow`). That it resolves every unfolding needs two facts: a name has one
unfolding at most (`Catalog.Unfolds.unique`), and what a reference inside stands for is smaller. So
a name met again on the branch would have an unfolding inside itself.
-/

namespace RecordSchema

/-- The field at a position below a field, itself at the empty one. -/
def Field.at? (f : Field) : List Nat → Option Field
  | [] => some f
  | i :: position => f.nested.bind fun s => s[i]?.bind fun g => g.at? position

/-- The field at a position of a schema, the indices on the way down. -/
def Schema.at? (s : Schema) : List Nat → Option Field
  | [] => none
  | i :: position => s[i]?.bind fun f => f.at? position

mutual

/-- A field definition unfolds to a field. -/
inductive FieldDef.Unfolds (c : Catalog) (p : Policy) : FieldDef → Field → Prop
  | plain {name text : String} {nullable : Bool} {metadata : Metadata} {type : FieldType}
      {f : Field} :
    FieldType.ofText text = .ok type → Field.build p ⟨name, type, nullable, metadata, none⟩ = .ok f →
    FieldDef.Unfolds c p ⟨name, text, nullable, metadata, none, none⟩ f
  | reference {name text target : String} {nullable : Bool} {metadata : Metadata}
      {type : FieldType} {s : List Field} {f : Field} :
    FieldType.ofText text = .ok type → Catalog.Unfolds c p target s →
    Field.build p ⟨name, type, nullable, metadata, some s⟩ = .ok f →
    FieldDef.Unfolds c p ⟨name, text, nullable, metadata, some target, none⟩ f
  | inline {name text : String} {nullable : Bool} {metadata : Metadata} {ds : List FieldDef}
      {type : FieldType} {s : List Field} {f : Field} :
    FieldType.ofText text = .ok type → Definition.Unfolds c p ds s →
    Field.build p ⟨name, type, nullable, metadata, some s⟩ = .ok f →
    FieldDef.Unfolds c p ⟨name, text, nullable, metadata, none, some ds⟩ f

/-- The field definitions of a level unfold one by one to the fields of a schema. -/
inductive Definition.Unfolds (c : Catalog) (p : Policy) : List FieldDef → List Field → Prop
  | intro {ds : List FieldDef} {fs s : List Field} :
    List.Forall₂ (FieldDef.Unfolds c p) ds fs → Schema.build p fs = .ok s →
    Definition.Unfolds c p ds s

/-- A name unfolds to a schema: its definition does. -/
inductive Catalog.Unfolds (c : Catalog) (p : Policy) : String → List Field → Prop
  | intro {name : String} {d : Definition} {s : List Field} :
    c.find? name = some d → Definition.Unfolds c p d s → Catalog.Unfolds c p name s

end

section Build

variable {c : Catalog} {p : Policy} {follow : String → String → Except Error Schema}

mutual

/-- What is built for a field is an unfolding, if what references are replaced by is. How references
are followed is left open, so the branch does not come in here. -/
theorem FieldDef.unfolds_of_build
    (hfollow : ∀ path target t, follow path target = .ok t → c.Unfolds p target t)
    (parent : String) : (d : FieldDef) → ∀ f, d.build p follow parent = .ok f → d.Unfolds c p f
  | ⟨name, text, nullable, metadata, none, none⟩ => by
    intro f h
    obtain ⟨type, htype, h⟩ := bind_eq_ok_iff.mp h
    exact .plain htype h
  | ⟨name, text, nullable, metadata, some target, none⟩ => by
    intro f h
    obtain ⟨type, htype, h⟩ := bind_eq_ok_iff.mp h
    obtain ⟨_, hmap, h⟩ := bind_eq_ok_iff.mp h
    obtain ⟨s, hs, rfl⟩ := map_eq_ok_iff.mp hmap
    exact .reference htype (hfollow _ _ _ hs) h
  | ⟨name, text, nullable, metadata, some target, some ds⟩ => by
    intro f h
    obtain ⟨type, htype, h⟩ := bind_eq_ok_iff.mp h
    exact nomatch h
  | ⟨name, text, nullable, metadata, none, some ds⟩ => by
    intro f h
    obtain ⟨type, htype, h⟩ := bind_eq_ok_iff.mp h
    obtain ⟨fields, hfields, h⟩ := bind_eq_ok_iff.mp h
    obtain ⟨s, hs, h⟩ := bind_eq_ok_iff.mp h
    exact .inline htype (.intro (FieldDef.unfolds_of_buildEach hfollow _ ds fields hfields) hs) h

/-- What is built for a list of fields are unfoldings, under the same condition. This is the list
half of the mutual recursion on a definition: a list is built where its head and its rest are. -/
theorem FieldDef.unfolds_of_buildEach
    (hfollow : ∀ path target t, follow path target = .ok t → c.Unfolds p target t)
    (parent : String) : (ds : List FieldDef) → ∀ fs, FieldDef.buildEach p follow parent ds = .ok fs →
      List.Forall₂ (FieldDef.Unfolds c p) ds fs
  | [] => by
    intro fs h
    obtain rfl := Except.ok.inj h
    exact .nil
  | d :: ds => by
    intro fs h
    obtain ⟨f, gs, hf, hgs, rfl⟩ := cons_eq_ok_iff.mp h
    exact .cons (FieldDef.unfolds_of_build hfollow parent d f hf)
      (FieldDef.unfolds_of_buildEach hfollow parent ds gs hgs)

end

end Build

section Levels

variable {c : Catalog} {p : Policy} {d : FieldDef} {f : Field} {ds : List FieldDef} {s t : Schema}

/-- A level unfolds field by field to a level with distinct keys. This form, with the list relation
and the condition on keys apart, is what most proofs start from. -/
theorem Definition.unfolds_iff :
    Definition.Unfolds c p ds s ↔
      List.Forall₂ (FieldDef.Unfolds c p) ds s ∧ (Schema.keys p s).Nodup := by
  constructor
  · rintro ⟨hfs, hs⟩
    obtain ⟨rfl, hkeys⟩ := Schema.build_eq_ok_iff.mp hs
    exact ⟨hfs, hkeys⟩
  · rintro ⟨hfs, hkeys⟩
    exact .intro hfs (Schema.build_eq_ok_iff.mpr ⟨rfl, hkeys⟩)

/-- A defined name unfolds as its definition does. A name has one definition, so there is no choice
in how it unfolds. -/
theorem Catalog.unfolds_iff {name : String} (hd : c.find? name = some ds) :
    c.Unfolds p name s ↔ Definition.Unfolds c p ds s := by
  constructor
  · rintro ⟨hd', hs⟩
    rwa [Option.some.inj (hd.symm.trans hd')]
  · intro hs
    exact .intro hd hs

/-- A field keeps its name, so a level and what it unfolds to have the same keys. -/
theorem FieldDef.Unfolds.name_eq (h : d.Unfolds c p f) : f.name = d.name := by
  cases h with
  | plain _ hf | reference _ _ hf | inline _ _ hf =>
    obtain ⟨rfl, -⟩ := Field.build_eq_ok_iff.mp hf
    rfl

/-- What a field unfolds to is proper: it is part of what unfolding means, as each field is checked
when it is built. -/
theorem FieldDef.Unfolds.isProper (h : d.Unfolds c p f) : f.IsProper p := by
  cases h with
  | plain _ hf | reference _ _ hf | inline _ _ hf =>
    obtain ⟨rfl, hproper⟩ := Field.build_eq_ok_iff.mp hf
    exact hproper

/-- Only a level without definitions unfolds to one without fields. -/
theorem Definition.Unfolds.eq_nil_iff (h : Definition.Unfolds c p ds s) :
    s = [] ↔ ds = [] := by
  obtain ⟨hs, -⟩ := Definition.unfolds_iff.mp h
  exact eq_nil_iff_of_forall₂ hs

/-- What a definition unfolds to is well-formed at every level, those behind references included.
The induction is on the levels of what is built and not on the definition, which is smaller than the
tree it stands for. -/
theorem Definition.Unfolds.wellFormed (h : Definition.Unfolds c p ds s) : s.WellFormed p := by
  induction s using Schema.levelInduction generalizing ds with
  | step s ih =>
    obtain ⟨hs, hkeys⟩ := Definition.unfolds_iff.mp h
    refine Schema.wellFormed_iff.mpr ⟨hkeys, fun f hf => ?_⟩
    obtain ⟨d, -, hd⟩ := exists_mem_of_forall₂ hs hf
    refine ⟨hd.isProper, fun t ht => ?_⟩
    cases hd with
    | plain _ hbf =>
      obtain ⟨rfl, -⟩ := Field.build_eq_ok_iff.mp hbf
      exact nomatch ht
    | reference _ hsf hbf =>
      obtain ⟨rfl, -⟩ := Field.build_eq_ok_iff.mp hbf
      obtain ⟨-, hsf⟩ := hsf
      exact ih _ hf t ht (Option.some.inj ht ▸ hsf)
    | inline _ hsf hbf =>
      obtain ⟨rfl, -⟩ := Field.build_eq_ok_iff.mp hbf
      exact ih _ hf t ht (Option.some.inj ht ▸ hsf)

/-- Lists whose members have one unfolding each have one. The members are those of the list of
fields, since the induction that uses this lemma goes by the fields and reaches their children. -/
theorem FieldDef.Unfolds.forall₂_unique {fs gs : List Field}
    (h : ∀ f ∈ fs, ∀ d g, FieldDef.Unfolds c p d f → FieldDef.Unfolds c p d g → f = g)
    (hfs : List.Forall₂ (FieldDef.Unfolds c p) ds fs)
    (hgs : List.Forall₂ (FieldDef.Unfolds c p) ds gs) : fs = gs := by
  induction hfs generalizing gs with
  | nil =>
    cases hgs with
    | nil => rfl
  | cons hf _ ih =>
    cases hgs with
    | cons hg hgs =>
      rw [h _ List.mem_cons_self _ _ hf hg, ih (fun f hf => h f (List.mem_cons_of_mem _ hf)) hgs]

/-- A definition has one unfolding at most. The induction is over the levels of the unfolding, since
the definitions behind references are not parts of the definition. -/
theorem Definition.Unfolds.unique (hs : Definition.Unfolds c p ds s)
    (ht : Definition.Unfolds c p ds t) : s = t := by
  induction s using Schema.levelInduction generalizing ds t with
  | step s ih =>
    obtain ⟨hs, -⟩ := Definition.unfolds_iff.mp hs
    obtain ⟨ht, -⟩ := Definition.unfolds_iff.mp ht
    refine FieldDef.Unfolds.forall₂_unique (fun f hf d g hdf hdg => ?_) hs ht
    cases hdf with
    | plain htype hbf =>
      cases hdg with
      | plain htype' hbg =>
        obtain rfl := Except.ok.inj (htype.symm.trans htype')
        exact Except.ok.inj (hbf.symm.trans hbg)
    | reference htype hsf hbf =>
      cases hdg with
      | reference htype' hsg hbg =>
        obtain rfl := Except.ok.inj (htype.symm.trans htype')
        obtain ⟨hd, hsf⟩ := hsf
        rw [Catalog.unfolds_iff hd] at hsg
        obtain ⟨rfl, -⟩ := Field.build_eq_ok_iff.mp hbf
        obtain rfl := ih _ hf _ rfl hsf hsg
        exact Except.ok.inj (hbf.symm.trans hbg)
    | inline htype hsf hbf =>
      cases hdg with
      | inline htype' hsg hbg =>
        obtain rfl := Except.ok.inj (htype.symm.trans htype')
        obtain ⟨rfl, -⟩ := Field.build_eq_ok_iff.mp hbf
        obtain rfl := ih _ hf _ rfl hsf hsg
        exact Except.ok.inj (hbf.symm.trans hbg)

/-- Lists whose members are built are built. Together with the other direction this makes building a
level a statement on its fields, whatever the order in which errors would show. -/
theorem FieldDef.buildEach_of_forall₂ {follow : String → String → Except Error Schema}
    {parent : String} {fs : List Field}
    (h : ∀ f ∈ fs, ∀ d, FieldDef.Unfolds c p d f → d.build p follow parent = .ok f)
    (hfs : List.Forall₂ (FieldDef.Unfolds c p) ds fs) :
    FieldDef.buildEach p follow parent ds = .ok fs := by
  induction hfs with
  | nil => rfl
  | cons hf _ ih =>
    exact cons_eq_ok_iff.mpr ⟨_, _, h _ List.mem_cons_self _ hf,
      ih fun f hf => h f (List.mem_cons_of_mem _ hf), rfl⟩

/-- An unfolding is what is built, if references to anything smaller are replaced by their
unfoldings. Those inside an unfolding are smaller than the whole. -/
theorem Definition.Unfolds.build {follow : String → String → Except Error Schema} {parent : String}
    (hs : Definition.Unfolds c p ds s)
    (hfollow : ∀ path target t, c.Unfolds p target t → sizeOf t < sizeOf s →
      follow path target = .ok t) :
    Definition.build p follow parent ds = .ok s := by
  induction s using Schema.levelInduction generalizing ds parent with
  | step s ih =>
    obtain ⟨hs, hkeys⟩ := Definition.unfolds_iff.mp hs
    have hs' := Schema.build_eq_ok_iff.mpr ⟨rfl, hkeys⟩
    refine bind_eq_ok_iff.mpr ⟨_, FieldDef.buildEach_of_forall₂ (fun f hf d hdf => ?_) hs, hs'⟩
    cases hdf with
    | plain htype hbf => exact bind_eq_ok_iff.mpr ⟨_, htype, hbf⟩
    | reference htype hsf hbf =>
      obtain ⟨rfl, -⟩ := Field.build_eq_ok_iff.mp hbf
      have hlt := Schema.sizeOf_nested_lt hf rfl
      refine bind_eq_ok_iff.mpr ⟨_, htype, bind_eq_ok_iff.mpr ⟨_, ?_, hbf⟩⟩
      exact map_eq_ok_iff.mpr ⟨_, hfollow _ _ _ hsf hlt, rfl⟩
    | inline htype hsf hbf =>
      obtain ⟨rfl, -⟩ := Field.build_eq_ok_iff.mp hbf
      have hlt := Schema.sizeOf_nested_lt hf rfl
      obtain ⟨fields, hfields, hsf⟩ := bind_eq_ok_iff.mp <|
        ih _ hf _ rfl hsf fun path target t ht htlt =>
          hfollow path target t ht (Nat.lt_trans htlt hlt)
      refine bind_eq_ok_iff.mpr ⟨_, htype, bind_eq_ok_iff.mpr ⟨fields, hfields, ?_⟩⟩
      exact bind_eq_ok_iff.mpr ⟨_, hsf, hbf⟩

end Levels

section Positions

variable {c : Catalog} {p : Policy} {ds : List FieldDef} {fs : List Field} {d e : FieldDef}
  {f : Field} {parent path : String} {position : List Nat}

/-- What is at a position below a field definition unfolds to what is there below its field. Only
inline children have positions below them, so the cases of a plain field and of a reference do not
arise. -/
theorem FieldDef.Unfolds.at? (h : d.Unfolds c p f) (he : d.at? p parent position = some (path, e)) :
    ∃ g, f.at? position = some g ∧ e.Unfolds c p g := by
  induction position generalizing d f parent with
  | nil =>
    obtain ⟨-, rfl⟩ := Prod.mk.inj (Option.some.inj he)
    exact ⟨f, rfl, h⟩
  | cons i position ih =>
    obtain ⟨ds, hds, hbelow⟩ := Option.bind_eq_some_iff.mp he
    obtain ⟨d', hd', he'⟩ := Option.bind_eq_some_iff.mp hbelow
    cases h with
    | plain => exact nomatch hds
    | reference => exact nomatch hds
    | inline _ hs hf =>
      obtain rfl := Option.some.inj hds
      obtain ⟨rfl, -⟩ := Field.build_eq_ok_iff.mp hf
      obtain ⟨hs, -⟩ := Definition.unfolds_iff.mp hs
      obtain ⟨f', hf', h'⟩ := exists_getElem?_of_forall₂ hs hd'
      obtain ⟨g, hg, hunf⟩ := ih h' he'
      refine ⟨g, ?_, hunf⟩
      rw [Field.at?, Option.bind_some, hf', Option.bind_some, hg]

/-- What is at a position of a definition unfolds to what is there in its schema. Positions are kept
as far as the definition goes, and lead on behind references. -/
theorem Definition.Unfolds.at? (h : Definition.Unfolds c p ds fs)
    (he : Definition.at? p parent ds position = some (path, e)) :
    ∃ g, Schema.at? fs position = some g ∧ e.Unfolds c p g := by
  cases position with
  | nil => exact nomatch he
  | cons i position =>
    obtain ⟨d, hd, he⟩ := Option.bind_eq_some_iff.mp he
    obtain ⟨hfs, -⟩ := Definition.unfolds_iff.mp h
    obtain ⟨f, hf, h⟩ := exists_getElem?_of_forall₂ hfs hd
    obtain ⟨g, hg, hunf⟩ := h.at? he
    exact ⟨g, by rw [Schema.at?, hf, Option.bind_some, hg], hunf⟩

/-- The children of a reference are what its target unfolds to. The field keeps its own name, type
and metadata, and takes over nothing else of the target. -/
theorem FieldDef.Unfolds.nested_eq {target : String} (h : d.Unfolds c p f)
    (htarget : d.reference = some target) : ∃ t, f.nested = some t ∧ c.Unfolds p target t := by
  cases h with
  | plain => exact nomatch htarget
  | inline => exact nomatch htarget
  | reference _ hs hf =>
    obtain rfl := Option.some.inj htarget
    obtain ⟨rfl, -⟩ := Field.build_eq_ok_iff.mp hf
    exact ⟨_, rfl, hs⟩

end Positions

namespace Catalog

variable {c : Catalog} {p : Policy} {name target path : String} {branch : List String}
  {s t : Schema}

/-- A name has one unfolding at most. -/
theorem Unfolds.unique (hs : c.Unfolds p name s) (ht : c.Unfolds p name t) : s = t := by
  obtain ⟨hd, hs⟩ := hs
  exact hs.unique ((unfolds_iff hd).mp ht)

/-- A name that unfolds has a definition that does. -/
theorem Unfolds.exists_definition (hs : c.Unfolds p name s) :
    ∃ d, c.find? name = some d ∧ Definition.Unfolds c p d s := by
  obtain ⟨hd, hs⟩ := hs
  exact ⟨_, hd, hs⟩

/-- A name that unfolds is defined. -/
theorem Unfolds.mem_names (hs : c.Unfolds p name s) : name ∈ c.names := by
  obtain ⟨d, hd, -⟩ := hs.exists_definition
  exact mem_names_of_find? hd

/-- What a name unfolds to is well-formed. -/
theorem Unfolds.wellFormed (hs : c.Unfolds p name s) : s.WellFormed p := by
  obtain ⟨d, -, hds⟩ := hs.exists_definition
  exact hds.wellFormed

/-- What is built for a defined name is an unfolding of it, if what references are replaced by
is. -/
theorem unfolds_of_build {d : Definition} {follow : String → String → Except Error Schema}
    {parent : String} (hd : c.find? name = some d)
    (hfollow : ∀ path target t, follow path target = .ok t → c.Unfolds p target t)
    (h : d.build p follow parent = .ok s) : c.Unfolds p name s := by
  obtain ⟨fields, hfields, hs⟩ := bind_eq_ok_iff.mp h
  exact .intro hd (.intro (FieldDef.unfolds_of_buildEach hfollow parent d fields hfields) hs)

/-- What a reference is replaced by is an unfolding of its target, whatever the branch is. The
induction is on the recursion of `follow`, which ends since the branch grows. -/
theorem unfolds_of_follow (h : c.follow p branch path target = .ok s) : c.Unfolds p target s := by
  induction branch, path, target using follow.induct (c := c) generalizing s with
  | case1 branch path target hback =>
    rw [follow_of_mem hback] at h
    exact nomatch h
  | case2 branch path target hnew hnone =>
    rw [follow_of_undefined hnew hnone] at h
    exact nomatch h
  | case3 branch path target hnew d hd ih =>
    rw [follow_of_find? hnew hd] at h
    exact unfolds_of_build hd (fun path target t ht => ih path target ht) h

/-- Every unfolding is what references are replaced by, on a branch of names whose unfoldings are
all larger. Such a branch does not have the target on it, since the unfolding of that is not larger
than itself. -/
theorem follow_of_unfolds (hs : c.Unfolds p target s)
    (hbranch : ∀ b ∈ branch, ∀ t, c.Unfolds p b t → sizeOf s < sizeOf t) :
    c.follow p branch path target = .ok s := by
  induction hn : sizeOf s using Nat.strongRecOn generalizing branch path target s with
  | ind n ih =>
    subst hn
    have hnew : target ∉ branch := fun hback => Nat.lt_irrefl _ (hbranch target hback s hs)
    obtain ⟨d, hd, hds⟩ := hs.exists_definition
    rw [follow_of_find? hnew hd]
    refine hds.build fun path' target' t ht hlt =>
      ih _ hlt ht (fun b hb u hu => ?_) rfl
    rcases List.mem_cons.mp hb with rfl | hb
    · -- the name just entered has no other unfolding than `s`
      rwa [hu.unique hs]
    · exact Nat.lt_trans hlt (hbranch b hb u hu)

/-- Resolving is unfolding. The branch that it keeps excludes no unfolding and admits nothing
else. -/
theorem resolve_eq_ok_iff : c.resolve p name = .ok s ↔ c.Unfolds p name s := by
  cases hd : c.find? name with
  | none =>
    rw [resolve_of_undefined p hd]
    refine iff_of_false (fun h => nomatch h) fun h => ?_
    obtain ⟨d, hd', -⟩ := h.exists_definition
    exact nomatch hd.symm.trans hd'
  | some d =>
    rw [resolve_of_find? p hd]
    constructor
    · intro h
      exact unfolds_of_build hd (fun _ _ _ => unfolds_of_follow) h
    · intro h
      refine ((unfolds_iff hd).mp h).build fun path target t ht hlt =>
        follow_of_unfolds ht fun b hb u hu => ?_
      obtain rfl := List.mem_singleton.mp hb
      rwa [hu.unique h]

/-- The children of a reference in a definition that unfolds are what its target unfolds to. The
reference may be at any depth below children in place, and its site tells where. -/
theorem Unfolds.reference {site : Site} {f : FieldDef} (hs : c.Unfolds p site.definition s)
    (hf : c.fieldAt? p site = some (path, f)) (htarget : f.reference = some target) :
    ∃ g t, s.at? site.position = some g ∧ g.nested = some t ∧ c.Unfolds p target t := by
  obtain ⟨d, hd, hf⟩ := Option.bind_eq_some_iff.mp hf
  obtain ⟨g, hg, hunf⟩ := ((unfolds_iff hd).mp hs).at? hf
  obtain ⟨t, ht, hunf⟩ := hunf.nested_eq htarget
  exact ⟨g, t, hg, ht, hunf⟩

/-- **Resolution computes exactly the finite unfolding.** A name is resolved to a schema when it
unfolds to it, and then the schema has under each reference of its definition what the reference
itself is resolved to. -/
theorem resolve_exactly_unfolds (c : Catalog) (p : Policy) (name : String) :
    (∀ s, c.resolve p name = .ok s ↔ c.Unfolds p name s) ∧
      ∀ s position path f target, c.resolve p name = .ok s →
        c.fieldAt? p ⟨name, position⟩ = some (path, f) → f.reference = some target →
        ∃ g t, s.at? position = some g ∧ g.nested = some t ∧ c.resolve p target = .ok t := by
  refine ⟨fun s => resolve_eq_ok_iff, fun s position path f target hs hf htarget => ?_⟩
  obtain ⟨g, t, hg, hgt, ht⟩ := (resolve_eq_ok_iff.mp hs).reference hf htarget
  exact ⟨g, t, hg, hgt, resolve_eq_ok_iff.mpr ht⟩

/-- A definition that is shared is no cycle. -/
example :
    let point : Definition := [{ name := "x", type := "int" }]
    let line : Definition :=
      [{ name := "from", type := "struct", reference := some "point" },
        { name := "to", type := "record", reference := some "point" }]
    let c : Catalog := { definitions := .ofList [("line", line), ("point", point)] }
    (c.resolve {} "line").toOption =
      some [.struct "from" [.scalar "x" .int false] false,
        .struct "to" [.scalar "x" .int false] false] := by
  decide +kernel

end Catalog
end RecordSchema
