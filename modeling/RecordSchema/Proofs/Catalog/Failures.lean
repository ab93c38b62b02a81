import RecordSchema.Proofs.Catalog.Agreement

/-!
# Where resolving fails

The first fault ends the resolution of a name, and it may lie in a definition far away. It has one
of three origins (`Catalog.Origin`): a reference back into the branch, a reference to nothing, or a
definition that the examination of the catalog takes exception to as well.

Building a level fails for a reason that the examination of this level knows of
(`Definition.accounted_of_build`). A reference that fails hands the question on to the definition it
leads to, so the origin of a failure is found along the recursion of `Catalog.follow`
(`Catalog.Meets.origin`). On the way the branch stays a branch of the reference graph, and whatever
is on it is reached from the name that is being resolved.

That the examination sees a reference to nothing takes some care. It does not look below a field
whose shape does not fit its type, while resolution follows references before it looks at shapes.
So the reference is reported where it is made, unless a shape is reported.
-/

namespace RecordSchema

/-- Whether an error says where a reference leads. -/
def Error.isReferenceFault : Error → Bool
  | .cyclicSchema _ => true
  | .unknownReference _ _ => true
  | _ => false

/-- Whether a violation is a shape that does not fit its type. -/
def Violation.isMismatch (v : Violation) : Bool :=
  match v.error with
  | .structuralMismatch .. => true
  | _ => false

/-- A cycle is not a shape. Catalogs of which all violations are cycles are thus a special case of
those without a shape among them. -/
theorem Violation.isMismatch_eq_false {v : Violation} (h : v.isCycle = true) :
    v.isMismatch = false := by
  obtain ⟨path, error⟩ := v
  cases error with
  | cyclicSchema cycle => rfl
  | _ => exact nomatch h

/-- A reference to nothing is among the violations, or a shape is. -/
def Reference.Reported (r : Reference) (vs : List Violation) : Prop :=
  ⟨r.path, .unknownReference r.path r.target⟩ ∈ vs ∨ ∃ v ∈ vs, v.isMismatch = true

/-- The failure `e` of building what has the references `refs` is accounted for by the violations
`vs`: one of the references fails so, and it is reported should it lead nowhere; or something is
improper. -/
def Catalog.Accounted (c : Catalog) (follow : String → String → Except Error Schema)
    (refs : List Reference) (vs : List Violation) (e : Error) : Prop :=
  (∃ r ∈ refs, follow r.path r.target = .error e ∧ (c.find? r.target = none → r.Reported vs)) ∨
    e.isReferenceFault = false ∧ vs ≠ []

section Faults

variable {p : Policy} {e : Error}

/-- A word that is read as no type fails as an unknown type, and with the word. In particular it is
never a fault about a reference. -/
theorem FieldType.eq_unknownType_of_ofText {text : String} (h : ofText text = .error e) :
    e = .unknownType text := by
  unfold ofText at h
  split at h
  · exact nomatch h
  · exact (Except.error.inj h).symm

/-- Building a field from its parts follows no reference, so it fails for no reference either: each
of its three errors is about the name or the shape of the field. -/
theorem Field.isReferenceFault_eq_false_of_build {f : Field} (h : Field.build p f = .error e) :
    e.isReferenceFault = false := by
  unfold Field.build at h
  split at h
  · obtain rfl := Except.error.inj h
    rfl
  · split at h
    · obtain rfl := Except.error.inj h
      rfl
    · obtain rfl := Except.error.inj h
      rfl
    · split at h
      · obtain rfl := Except.error.inj h
        rfl
      · exact nomatch h
    · exact nomatch h

/-- A level is refused for a repeated name only. -/
theorem Schema.exists_duplicateName_of_build {fields : List Field}
    (h : Schema.build p fields = .error e) : ∃ name, e = .duplicateName name := by
  obtain ⟨_, name, _, _, _, he⟩ := Schema.repeated_of_build h
  exact ⟨name, he⟩

end Faults

section Accounted

variable {c : Catalog} {p : Policy} {follow : String → String → Except Error Schema}
  {refs refs' : List Reference} {vs vs' : List Violation} {e : Error} {parent : String}
  {seen : List String} {ds : List FieldDef} {fs : List Field}

/-- What is reported among some violations is so among more. -/
theorem Reference.Reported.mono {r : Reference} (h : r.Reported vs) (hvs : vs ⊆ vs') :
    r.Reported vs' := by
  rcases h with h | ⟨v, hv, hmismatch⟩
  · exact .inl (hvs h)
  · exact .inr ⟨v, hvs hv, hmismatch⟩

/-- A failure that is accounted for stays so beside more references and violations. -/
theorem Catalog.Accounted.mono (h : c.Accounted follow refs vs e) (hrefs : refs ⊆ refs')
    (hvs : vs ⊆ vs') : c.Accounted follow refs' vs' e := by
  rcases h with ⟨r, hr, hfail, hreported⟩ | ⟨hlocal, hne⟩
  · exact .inl ⟨r, hrefs hr, hfail, fun hnone => (hreported hnone).mono hvs⟩
  · exact .inr ⟨hlocal, fun hnil => hne (List.subset_nil.mp (hnil ▸ hvs))⟩

/-- What is below a field whose shape does not fit is accounted for by its shape. The examination
does not look below such a field, whereas resolution may have done so. -/
theorem Catalog.Accounted.of_mismatch (h : c.Accounted follow refs vs e) {v : Violation} (hv : v ∈ vs')
    (hmismatch : v.isMismatch = true) : c.Accounted follow refs vs' e := by
  rcases h with ⟨r, hr, hfail, -⟩ | ⟨hlocal, -⟩
  · exact .inl ⟨r, hr, hfail, fun _ => .inr ⟨v, hv, hmismatch⟩⟩
  · exact .inr ⟨hlocal, List.ne_nil_of_mem hv⟩

/-- A level without violations has distinct keys, beside those seen before. The examination compares
each name with all the names before it, as building the level does. -/
theorem Definition.freshKeys_of_levelViolations
    (h : Definition.levelViolations c p parent seen ds = []) :
    FreshKeys seen (ds.map fun d => p.nameKey d.name) := by
  induction ds generalizing seen with
  | nil => exact freshKeys_nil
  | cons d ds ih =>
    rw [Definition.levelViolations, List.append_eq_nil_iff, List.append_eq_nil_iff,
      List.map_eq_nil_iff, Policy.nameErrors_eq_nil_iff] at h
    obtain ⟨⟨⟨-, hkey⟩, -⟩, hds⟩ := h
    exact freshKeys_cons_iff.mpr ⟨hkey, ih hds⟩

/-- A level has the keys of the fields it unfolds to. -/
theorem FieldDef.keys_eq_of_forall₂ (h : List.Forall₂ (FieldDef.Unfolds c p) ds fs) :
    Schema.keys p fs = ds.map fun d => p.nameKey d.name := by
  induction h with
  | nil => rfl
  | cons hf _ ih => rw [Schema.keys_cons, ih, hf.name_eq, List.map_cons]

/-- When the fields of a level are built and the level is not, a name is repeated, and this is a
violation. -/
theorem Definition.repeated_of_build
    (hfollow : ∀ path target t, follow path target = .ok t → c.Unfolds p target t)
    (hfs : FieldDef.buildEach p follow parent ds = .ok fs) (h : Schema.build p fs = .error e) :
    e.isReferenceFault = false ∧ Definition.levelViolations c p parent [] ds ≠ [] := by
  obtain ⟨name, rfl⟩ := Schema.exists_duplicateName_of_build h
  refine ⟨rfl, fun hnil => ?_⟩
  have hkeys : (Schema.keys p fs).Nodup := by
    rw [FieldDef.keys_eq_of_forall₂ (FieldDef.unfolds_of_buildEach hfollow parent ds fs hfs)]
    exact freshKeys_nil_iff.mp (Definition.freshKeys_of_levelViolations hnil)
  rw [Schema.build_eq_ok_iff.mpr ⟨rfl, hkeys⟩] at h
  exact nomatch h

/-- When the parts of a field are there and the field is not built, it is improper. -/
theorem Field.not_isProper_of_build {f : Field} (h : Field.build p f = .error e) :
    e.isReferenceFault = false ∧ ¬f.IsProper p := by
  refine ⟨Field.isReferenceFault_eq_false_of_build h, fun hproper => ?_⟩
  rw [Field.build_eq_ok_iff.mpr ⟨rfl, hproper⟩] at h
  exact nomatch h

/-- The violations of a field beside siblings with the keys `seen`: those of its name and those of
its shape. -/
def FieldDef.violations (c : Catalog) (p : Policy) (parent : String) (seen : List String)
    (d : FieldDef) : List Violation :=
  (p.nameErrors seen d.name).map (Violation.mk (p.subpath parent d.name)) ++
    d.shapeViolations c p (p.subpath parent d.name)

/-- A field without violations has a name without fault and a shape without violations. -/
theorem FieldDef.violations_eq_nil {d : FieldDef} (h : d.violations c p parent seen = []) :
    p.nameFault? d.name = none ∧ d.shapeViolations c p (p.subpath parent d.name) = [] := by
  rw [FieldDef.violations, List.append_eq_nil_iff, List.map_eq_nil_iff,
    Policy.nameErrors_eq_nil_iff] at h
  exact ⟨h.1.1, h.2⟩

section Field

variable {name text target : String} {nullable : Bool} {metadata : Metadata} {type : FieldType}

/-- Of a field whose type is not readable this is all that is examined. Building it stops there,
too. -/
theorem FieldDef.shapeViolations_of_unreadable {d : FieldDef} (path : String)
    (h : FieldType.ofText d.type = .error e) : d.shapeViolations c p path = [⟨path, e⟩] := by
  obtain ⟨name, text, nullable, metadata, reference, children⟩ := d
  cases children with
  | some ds => rw [FieldDef.shapeViolations, h]
  | none =>
    cases reference with
    | some target => rw [FieldDef.shapeViolations, h]
    | none => rw [FieldDef.shapeViolations, h]

/-- Of a field whose type is not readable this is a violation, and building it fails with the same
error. -/
theorem FieldDef.accounted_of_unreadable {d : FieldDef} (h : FieldType.ofText d.type = .error e) :
    c.Accounted follow refs (d.violations c p parent seen) e := by
  obtain rfl := FieldType.eq_unknownType_of_ofText h
  refine .inr ⟨rfl, fun hnil => ?_⟩
  have hshape := (FieldDef.violations_eq_nil hnil).2
  rw [FieldDef.shapeViolations_of_unreadable _ h] at hshape
  exact nomatch hshape

/-- A reference to nothing is reported with the field that makes it, unless a shape is reported in
its place. -/
theorem FieldDef.reported_reference (htype : FieldType.ofText text = .ok type)
    (hnone : c.find? target = none) :
    Reference.Reported ⟨p.subpath parent name, target⟩
      (FieldDef.violations c p parent seen ⟨name, text, nullable, metadata, some target, none⟩) := by
  rw [FieldDef.violations, FieldDef.shapeViolations]
  simp only [htype, hnone]
  split
  · exact .inl (List.mem_append_right _ List.mem_cons_self)
  · exact .inr ⟨_, List.mem_append_right _ List.mem_cons_self, rfl⟩

/-- What is accounted for by children in place is accounted for by their parent: either they are
examined with it, or it must not have any. -/
theorem FieldDef.accounted_of_children (htype : FieldType.ofText text = .ok type)
    (h : c.Accounted follow refs
      (Definition.levelViolations c p (p.subpath parent name) [] ds) e) :
    c.Accounted follow refs
      (FieldDef.violations c p parent seen ⟨name, text, nullable, metadata, none, some ds⟩) e := by
  rw [FieldDef.violations, FieldDef.shapeViolations]
  simp only [htype]
  split
  · refine h.mono (List.Subset.refl _) ?_
    exact List.subset_append_of_subset_right _ (List.subset_append_right _ _)
  · exact h.of_mismatch (List.mem_append_right _ List.mem_cons_self) rfl

end Field

mutual

/-- When building a field fails, this is accounted for by its violations: one of its references
failed, or something in the field is improper in itself. -/
theorem FieldDef.accounted_of_build
    (hfollow : ∀ path target t, follow path target = .ok t → c.Unfolds p target t)
    (parent : String) (seen : List String) (e : Error) :
    (d : FieldDef) → d.build p follow parent = .error e →
      c.Accounted follow (d.references p parent) (d.violations c p parent seen) e
  | ⟨name, text, nullable, metadata, none, none⟩ => by
    intro h
    rcases bind_eq_error_iff.mp h with htype | ⟨type, htype, h⟩
    · exact FieldDef.accounted_of_unreadable htype
    obtain ⟨hlocal, hproper⟩ := Field.not_isProper_of_build h
    refine .inr ⟨hlocal, fun hnil => hproper ?_⟩
    obtain ⟨hname, hshape⟩ := FieldDef.violations_eq_nil hnil
    obtain ⟨type', htype', hstruct⟩ := FieldDef.shapeViolations_plain_iff.mp hshape
    obtain rfl := Except.ok.inj (htype.symm.trans htype')
    exact ⟨hname, hstruct.symm, fun h => nomatch h⟩
  | ⟨name, text, nullable, metadata, some target, none⟩ => by
    intro h
    rcases bind_eq_error_iff.mp h with htype | ⟨type, htype, h⟩
    · exact FieldDef.accounted_of_unreadable htype
    rcases bind_eq_error_iff.mp h with htarget | ⟨nested, htarget, h⟩
    · have hfail := map_eq_error_iff.mp htarget
      refine .inl ⟨⟨p.subpath parent name, target⟩, List.mem_cons_self, hfail, fun hnone => ?_⟩
      exact FieldDef.reported_reference htype hnone
    obtain ⟨s, hs, rfl⟩ := map_eq_ok_iff.mp htarget
    obtain ⟨d, hd, hds⟩ := (hfollow _ _ _ hs).exists_definition
    obtain ⟨hlocal, hproper⟩ := Field.not_isProper_of_build h
    refine .inr ⟨hlocal, fun hnil => hproper ?_⟩
    obtain ⟨hname, hshape⟩ := FieldDef.violations_eq_nil hnil
    obtain ⟨type', d', htype', hstruct, hd', hempty⟩ :=
      FieldDef.shapeViolations_reference_iff.mp hshape
    obtain rfl := Except.ok.inj (htype.symm.trans htype')
    obtain rfl := Option.some.inj (hd.symm.trans hd')
    exact ⟨hname, hstruct.symm, fun h => hempty (hds.eq_nil_iff.mp (Option.some.inj h))⟩
  | ⟨name, text, nullable, metadata, some target, some ds⟩ => by
    intro h
    rcases bind_eq_error_iff.mp h with htype | ⟨type, -, h⟩
    · exact FieldDef.accounted_of_unreadable htype
    obtain rfl := Except.error.inj h
    refine .inr ⟨rfl, fun hnil => ?_⟩
    exact FieldDef.shapeViolations_both (FieldDef.violations_eq_nil hnil).2
  | ⟨name, text, nullable, metadata, none, some ds⟩ => by
    intro h
    rcases bind_eq_error_iff.mp h with htype | ⟨type, htype, h⟩
    · exact FieldDef.accounted_of_unreadable htype
    rcases bind_eq_error_iff.mp h with hds | ⟨fs, hfs, h⟩
    · exact FieldDef.accounted_of_children htype
        (FieldDef.accounted_of_buildEach hfollow (p.subpath parent name) [] e ds hds)
    rcases bind_eq_error_iff.mp h with hs | ⟨s, hs, h⟩
    · exact FieldDef.accounted_of_children htype (.inr (Definition.repeated_of_build hfollow hfs hs))
    obtain ⟨rfl, -⟩ := Schema.build_eq_ok_iff.mp hs
    have hempty := eq_nil_iff_of_forall₂ (FieldDef.unfolds_of_buildEach hfollow _ ds fs hfs)
    obtain ⟨hlocal, hproper⟩ := Field.not_isProper_of_build h
    refine .inr ⟨hlocal, fun hnil => hproper ?_⟩
    obtain ⟨hname, hshape⟩ := FieldDef.violations_eq_nil hnil
    obtain ⟨type', htype', hstruct, hallowed, -⟩ := FieldDef.shapeViolations_inline_iff.mp hshape
    obtain rfl := Except.ok.inj (htype.symm.trans htype')
    exact ⟨hname, hstruct.symm, fun h => hallowed (hempty.mp (Option.some.inj h))⟩

/-- When building the fields of a level fails, this is accounted for by the violations of the level.
The fields before the one that failed have nothing to do with it. -/
theorem FieldDef.accounted_of_buildEach
    (hfollow : ∀ path target t, follow path target = .ok t → c.Unfolds p target t)
    (parent : String) (seen : List String) (e : Error) :
    (ds : List FieldDef) → FieldDef.buildEach p follow parent ds = .error e →
      c.Accounted follow (Definition.references p parent ds)
        (Definition.levelViolations c p parent seen ds) e
  | [] => fun h => nomatch h
  | d :: ds => by
    intro h
    rw [Definition.references, Definition.levelViolations]
    rcases cons_eq_error_iff.mp h with hd | ⟨-, hds⟩
    · exact (FieldDef.accounted_of_build hfollow parent seen e d hd).mono
        (List.subset_append_left _ _) (List.subset_append_left _ _)
    · exact (FieldDef.accounted_of_buildEach hfollow parent _ e ds hds).mono
        (List.subset_append_right _ _) (List.subset_append_right _ _)

end

/-- When building a definition fails, this is accounted for by its violations: either a field of it
cannot be built, or all of them can and a key is there twice. -/
theorem Definition.accounted_of_build
    (hfollow : ∀ path target t, follow path target = .ok t → c.Unfolds p target t)
    (h : Definition.build p follow parent ds = .error e) :
    c.Accounted follow (Definition.references p parent ds)
      (Definition.levelViolations c p parent [] ds) e := by
  rcases bind_eq_error_iff.mp h with hds | ⟨fs, hfs, hs⟩
  · exact FieldDef.accounted_of_buildEach hfollow parent [] e ds hds
  · exact .inr (Definition.repeated_of_build hfollow hfs hs)

end Accounted

namespace Catalog

variable {c : Catalog} {p : Policy} {name x path target : String} {branch rest : List String}
  {r : Reference} {ds : Definition} {e : Error}

/-- The reference `r` is met on `branch` when `name` is resolved. The name in front of the branch
makes it, every name on the branch is reached from `name`, and if it leads nowhere, the examination
of the catalog says so or finds a shape that does not fit. -/
structure Meets (c : Catalog) (p : Policy) (name : String) (branch : List String)
    (r : Reference) : Prop where
  isBranch : c.IsBranch p branch
  reached : ∀ b ∈ branch, Relation.ReflTransGen (c.Edge p) name b
  made : ∃ x rest, branch = x :: rest ∧ r ∈ c.references p x
  reported : c.find? r.target = none → r.Reported (c.violations p)

/-- What a failure of resolving `name` comes from. -/
inductive Origin (c : Catalog) (p : Policy) (name : String) : Error → Prop
  /-- A reference leads back into the branch that it was met on. -/
  | back {branch : List String} {r : Reference} :
    c.Meets p name branch r → r.target ∈ branch →
    Origin c p name (.cyclicSchema (cycleAlong branch r.target))
  /-- A reference leads nowhere. -/
  | nowhere {branch : List String} {r : Reference} :
    c.Meets p name branch r → c.find? r.target = none →
    Origin c p name (.unknownReference r.path r.target)
  /-- A definition is improper in itself. -/
  | improper {d : String} {ds : Definition} {e : Error} :
    c.find? d = some ds → Definition.levelViolations c p d [] ds ≠ [] →
    e.isReferenceFault = false → Origin c p name e

/-- What the search for cycles finds are cycles. -/
theorem isCycle_of_mem_cycles {v : Violation} (hv : v ∈ c.cycles p) : v.isCycle = true := by
  obtain ⟨site, hcloses⟩ := exists_closes_of_mem_cycles hv
  exact hcloses.isCycle

/-- The violations of a definition are among those of the catalog. -/
theorem levelViolations_subset (hds : c.find? name = some ds) :
    Definition.levelViolations c p name [] ds ⊆ c.violations p := by
  intro v hv
  have hentry : (name, ds) ∈ c.definitions.entries := TextMap.find?_eq_some_iff.mp hds
  exact List.mem_append_left _ (List.mem_flatMap.mpr ⟨_, hentry, hv⟩)

/-- When building a name fails on a branch, one of its references, met there, fails in the same way,
or the name is improper. Whatever is on the branch is reached from the name that is resolved, and
stays so. -/
theorem IsBranch.exists_meets (hb : c.IsBranch p (x :: rest))
    (hreached : ∀ b ∈ x :: rest, Relation.ReflTransGen (c.Edge p) name b)
    (hds : c.find? x = some ds) (h : ds.build p (c.follow p (x :: rest)) x = .error e) :
    (∃ r, c.Meets p name (x :: rest) r ∧
      c.follow p (x :: rest) r.path r.target = .error e) ∨ c.Origin p name e := by
  rcases Definition.accounted_of_build (fun _ _ _ => unfolds_of_follow) h with
    ⟨r, hr, hfail, hreported⟩ | ⟨hlocal, hne⟩
  · rw [← references_of_find? hds] at hr
    refine .inl ⟨r, ⟨hb, hreached, ⟨x, rest, rfl, hr⟩, fun hnone => ?_⟩, hfail⟩
    exact (hreported hnone).mono (levelViolations_subset hds)
  · exact .inr (.improper hds hne hlocal)

/-- **A reference that fails has an origin for it**, by the recursion of `follow`: it leads back, it
leads nowhere, or the definition it leads to fails, and then so does one of the references met
there, unless the definition is improper. -/
theorem Meets.origin (h : c.Meets p name branch ⟨path, target⟩)
    (hfail : c.follow p branch path target = .error e) : c.Origin p name e := by
  induction branch, path, target using follow.induct (c := c) with
  | case1 branch path target hback =>
    rw [follow_of_mem hback] at hfail
    obtain rfl := Except.error.inj hfail
    exact .back h hback
  | case2 branch path target hnew hnone =>
    rw [follow_of_undefined hnew hnone] at hfail
    obtain rfl := Except.error.inj hfail
    exact .nowhere h hnone
  | case3 branch path target hnew ds hds ih =>
    rw [follow_of_find? hnew hds] at hfail
    obtain ⟨x, rest, rfl, hr⟩ := h.made
    have hedge : c.Edge p x target := edge_of_mem_references hr (mem_names_of_find? hds)
    have hreached : ∀ b ∈ target :: x :: rest, Relation.ReflTransGen (c.Edge p) name b :=
      List.forall_mem_cons.mpr ⟨(h.reached x List.mem_cons_self).tail hedge, h.reached⟩
    rcases (h.isBranch.cons hedge hnew).exists_meets hreached hds hfail with
      ⟨r, hmeets, hfail⟩ | horigin
    · exact ih r.path r.target hmeets hfail
    · exact horigin

/-- **Every failure to resolve a defined name has an origin** among the references that are met and
the definitions that they lead to. -/
theorem origin_of_resolve (hdef : name ∈ c.names) (h : c.resolve p name = .error e) :
    c.Origin p name e := by
  obtain ⟨ds, hds⟩ := mem_names_iff.mp hdef
  rw [resolve_of_find? p hds] at h
  have hb : c.IsBranch p [name] :=
    ⟨List.nodup_singleton _, List.forall_mem_singleton.mpr hdef, .singleton _⟩
  rcases hb.exists_meets (List.forall_mem_singleton.mpr .refl) hds h with
    ⟨r, hmeets, hfail⟩ | horigin
  · exact hmeets.origin hfail
  · exact horigin

/-- A fault about a reference says that a defined name is resolved. For any other name the fault is
that it is not defined. -/
theorem mem_names_of_isReferenceFault (h : c.resolve p name = .error e)
    (he : e.isReferenceFault = true) : name ∈ c.names := by
  cases hds : c.find? name with
  | none =>
    rw [resolve_of_undefined p hds] at h
    obtain rfl := Except.error.inj h
    exact nomatch he
  | some ds => exact mem_names_of_find? hds

/-- **References to nothing are reported where resolution finds them.** Unless a shape is among the
violations of a catalog, the reference to nothing that ends the resolution of a name is a violation
of the catalog, at the path that the error mentions and with this error. -/
theorem unknown_reference_reported (hshape : ∀ v ∈ c.violations p, v.isMismatch = false)
    (h : c.resolve p name = .error (.unknownReference path target)) :
    ⟨path, .unknownReference path target⟩ ∈ c.violations p := by
  have horigin := origin_of_resolve (mem_names_of_isReferenceFault h rfl) h
  generalize he : Error.unknownReference path target = e at horigin
  cases horigin with
  | back => exact nomatch he
  | improper _ _ hlocal => exact nomatch he ▸ hlocal
  | nowhere hmeets hnone =>
    obtain ⟨rfl, rfl⟩ := Error.unknownReference.inj he
    rcases hmeets.reported hnone with hreported | ⟨v, hv, hmismatch⟩
    · exact hreported
    · exact nomatch hmismatch.symm.trans (hshape v hv)

/-- A reference to nothing below children in place, in a definition that the resolved name refers
to; the catalog has a repeated name and a circle besides. -/
theorem unknown_reference_reported_across_definitions :
    let struct (name target : String) : FieldDef :=
      { name, type := "struct", reference := some target }
    let c : Catalog := { definitions := .ofList [
      ("book", [{ name := "id", type := "long" }, struct "author" "person"]),
      ("person", [{ name := "id", type := "long" },
        { name := "home", type := "struct", children := some [struct "city" "place"] }]),
      ("ring", [struct "next" "ring", struct "next" "person"])] }
    (∀ v ∈ c.violations {}, v.isMismatch = false) ∧
      c.resolve {} "book" = .error (.unknownReference "person.home.city" "place") ∧
        ⟨"person.home.city", .unknownReference "person.home.city" "place"⟩ ∈ c.violations {} := by
  intro struct c
  have hlocal : ∀ v ∈ c.definitions.entries.flatMap fun e =>
      Definition.levelViolations c {} e.1 [] e.2, v.isMismatch = false := by
    decide +kernel
  have hshape : ∀ v ∈ c.violations {}, v.isMismatch = false := fun v hv =>
    (List.mem_append.mp hv).elim (hlocal v) fun hv =>
      Violation.isMismatch_eq_false (isCycle_of_mem_cycles hv)
  have h : c.resolve {} "book" = .error (.unknownReference "person.home.city" "place") := by
    decide +kernel
  exact ⟨hshape, h, unknown_reference_reported hshape h⟩

/-- A shape that does not fit hides the reference from the examination, not from resolution. -/
example :
    let row : Definition := [{ name := "n", type := "int", reference := some "place" }]
    let c : Catalog := { definitions := .ofList [("row", row)] }
    c.resolve {} "row" = .error (.unknownReference "row.n" "place") ∧
      Definition.levelViolations c {} "row" [] row =
        [⟨"row.n", .structuralMismatch "row.n" .int true⟩] := by
  decide +kernel

end Catalog
end RecordSchema
