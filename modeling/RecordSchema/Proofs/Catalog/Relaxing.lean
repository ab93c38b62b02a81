import Mathlib.Data.List.Flatten
import RecordSchema.Catalog.Violations
import RecordSchema.Proofs.Catalog.Unfolding
import RecordSchema.Proofs.Schema.Relaxing

/-!
# Relaxing the policy of a catalog

A relaxed policy over the same delimiter takes violations away from a catalog and adds none, and
what could be resolved is resolved to the same schema.

The problems of definitions are compared like those of schemas, level by level. The search for
cycles asks a policy for paths only, so the cycles are the same (`Catalog.cycles_congr`). Resolution
is compared as unfolding: an unfolding is one under the relaxed policy, too, since all its fields
and levels stay proper.
-/

namespace RecordSchema

variable {c : Catalog} {p q : Policy}

section Paths

/-- Paths are extended alike over one delimiter. -/
theorem Policy.subpath_congr (hd : q.delimiter = p.delimiter) (parent name : String) :
    q.subpath parent name = p.subpath parent name := by
  rw [subpath, subpath, hd]

mutual

/-- A field makes the same references over one delimiter, at the same paths. Nothing else of the
policy shows in them. -/
theorem FieldDef.references_congr (hd : q.delimiter = p.delimiter) (parent : String) :
    (d : FieldDef) → d.references q parent = d.references p parent
  | ⟨name, _, _, _, reference, none⟩ => by
    rw [FieldDef.references, FieldDef.references, Policy.subpath_congr hd]
  | ⟨name, _, _, _, reference, some children⟩ => by
    rw [FieldDef.references, FieldDef.references, Policy.subpath_congr hd,
      Definition.references_congr hd _ children]

/-- A level makes the same references over one delimiter. -/
theorem Definition.references_congr (hd : q.delimiter = p.delimiter) (parent : String) :
    (ds : List FieldDef) → Definition.references q parent ds = Definition.references p parent ds
  | [] => rfl
  | d :: ds => by
    rw [Definition.references, Definition.references, FieldDef.references_congr hd parent d,
      Definition.references_congr hd parent ds]

end

end Paths

section Violations

mutual

/-- The violations of a field's type, shape and reference go away or stay as they are. A policy has
a say only in whether a Struct may be empty, and in the children. -/
theorem FieldDef.shapeViolations_sublist (c : Catalog) (h : q.Relaxes p)
    (hd : q.delimiter = p.delimiter) (path : String) :
    (d : FieldDef) → (d.shapeViolations c q path).Sublist (d.shapeViolations c p path)
  | ⟨name, text, nullable, metadata, none, none⟩ => by
    rw [FieldDef.shapeViolations, FieldDef.shapeViolations]
  | ⟨name, text, nullable, metadata, some target, none⟩ => by
    rw [FieldDef.shapeViolations, FieldDef.shapeViolations]
    split
    · exact List.Sublist.refl _
    · split
      · split
        · exact List.Sublist.refl _
        · exact h.emptyStruct_sublist _ _
      · exact List.Sublist.refl _
  | ⟨name, text, nullable, metadata, reference, some children⟩ => by
    rw [FieldDef.shapeViolations, FieldDef.shapeViolations]
    split
    · exact List.Sublist.refl _
    · split
      · exact (h.emptyStruct_sublist _ _).append
          (Definition.levelViolations_sublist c h hd path [] children)
      · exact List.Sublist.refl _

/-- The violations of a level beside the siblings `names` go away or stay as they are. The siblings
are given by their names, since keys differ under the two policies. -/
theorem Definition.levelViolations_sublist (c : Catalog) (h : q.Relaxes p)
    (hd : q.delimiter = p.delimiter) (parent : String) (names : List String) :
    (ds : List FieldDef) →
      (Definition.levelViolations c q parent (names.map q.nameKey) ds).Sublist
        (Definition.levelViolations c p parent (names.map p.nameKey) ds)
  | [] => List.Sublist.refl _
  | d :: ds => by
    have hshape := FieldDef.shapeViolations_sublist c h hd (p.subpath parent d.name) d
    have hds := Definition.levelViolations_sublist c h hd parent (d.name :: names) ds
    have hname := (h.nameErrors_sublist hd names d.name).map
      (Violation.mk (p.subpath parent d.name))
    rw [Definition.levelViolations, Definition.levelViolations, Policy.subpath_congr hd]
    exact (hname.append hshape).append hds

end

end Violations

section Unfolding

variable {d : FieldDef} {f g : Field} {ds : List FieldDef} {s : Schema}

/-- A field that is built is built under a relaxed policy. -/
theorem Field.build_relax (h : q.Relaxes p) (hf : Field.build p f = .ok g) :
    Field.build q f = .ok g := by
  obtain ⟨rfl, hproper⟩ := Field.build_eq_ok_iff.mp hf
  exact Field.build_eq_ok_iff.mpr ⟨rfl, hproper.relax h⟩

/-- An unfolding of a definition is one under a relaxed policy, by induction over the levels of what
it unfolds to. -/
theorem Definition.Unfolds.relax (h : q.Relaxes p) (hs : Definition.Unfolds c p ds s) :
    Definition.Unfolds c q ds s := by
  induction s using Schema.levelInduction generalizing ds with
  | step s ih =>
    obtain ⟨hfs, hkeys⟩ := Definition.unfolds_iff.mp hs
    refine Definition.unfolds_iff.mpr ⟨?_, Schema.keys_nodup_of_relaxes h hkeys⟩
    refine List.forall₂_iff_zip.mpr ⟨hfs.length_eq, fun {d f} hmem => ?_⟩
    have hf : f ∈ s := (List.of_mem_zip hmem).2
    cases List.forall₂_zip hfs hmem with
    | plain htype hbf => exact .plain htype (Field.build_relax h hbf)
    | reference htype ht hbf =>
      obtain ⟨hds, ht⟩ := ht
      obtain ⟨rfl, -⟩ := Field.build_eq_ok_iff.mp hbf
      exact .reference htype (.intro hds (ih _ hf _ rfl ht)) (Field.build_relax h hbf)
    | inline htype ht hbf =>
      obtain ⟨rfl, -⟩ := Field.build_eq_ok_iff.mp hbf
      exact .inline htype (ih _ hf _ rfl ht) (Field.build_relax h hbf)

end Unfolding

namespace Catalog

variable {name : String} {s : Schema}

/-- A name has the same references over one delimiter. -/
theorem references_congr (c : Catalog) (hd : q.delimiter = p.delimiter) (name : String) :
    c.references q name = c.references p name :=
  Definition.references_congr hd name _

/-- The walk along references is the same over one delimiter. Nothing else of a policy comes into
it. -/
theorem followAll_congr (c : Catalog) (hd : q.delimiter = p.delimiter) (branch : List String)
    (refs : List Reference) (s : CycleSearch) :
    c.followAll q branch refs s = c.followAll p branch refs s := by
  induction branch, refs, s using followAll.induct (c := c) (p := p) with
  | case1 branch s => rw [followAll, followAll]
  | case2 branch r rest s hback ih => rw [followAll, followAll, if_pos hback, if_pos hback, ih]
  | case3 branch r rest s hout hdone ih =>
    rw [followAll, followAll, if_neg hout, if_neg hout, if_pos hdone, if_pos hdone, ih]
  | case4 branch r rest s hout hfresh hdef t ihenter =>
    rename_i ih
    rw [followAll, followAll, if_neg hout, if_neg hout, if_neg hfresh, if_neg hfresh,
      if_pos hdef, if_pos hdef, references_congr c hd, ihenter]
    exact ih
  | case5 branch r rest s hout hfresh hundef ih =>
    rw [followAll, followAll, if_neg hout, if_neg hout, if_neg hfresh, if_neg hfresh,
      if_neg hundef, if_neg hundef, ih]

/-- The cycles are the same over one delimiter. -/
theorem cycles_congr (c : Catalog) (hd : q.delimiter = p.delimiter) : c.cycles q = c.cycles p := by
  have henter : c.enter q = c.enter p := by
    funext s name
    rw [enter, enter, references_congr c hd, followAll_congr c hd]
  rw [cycles, cycles, henter]

/-- The violations of a catalog under a relaxed policy are some of those it had: definition by
definition, and then the cycles. -/
theorem violations_sublist (c : Catalog) (h : q.Relaxes p) (hd : q.delimiter = p.delimiter) :
    (c.violations q).Sublist (c.violations p) := by
  rw [violations, violations, cycles_congr c hd]
  refine List.Sublist.append_right (List.Sublist.flatMap_right _ fun e _ => ?_) _
  exact Definition.levelViolations_sublist c h hd e.1 [] e.2

/-- An unfolding is one under a relaxed policy. -/
theorem Unfolds.relax (h : q.Relaxes p) (hs : c.Unfolds p name s) : c.Unfolds q name s := by
  obtain ⟨hds, hs⟩ := hs
  exact .intro hds (hs.relax h)

/-- **A relaxed policy adds no problem.** Under a policy with the same delimiter that is nowhere
stricter, the violations of a schema are a sublist of those it had, the violations of a catalog are,
and what a name was resolved to it is still resolved to. -/
theorem relaxing_adds_no_problem (h : q.Relaxes p) (hd : q.delimiter = p.delimiter) :
    (∀ s : Schema, (s.violations q).Sublist (s.violations p)) ∧
      ∀ c : Catalog, (c.violations q).Sublist (c.violations p) ∧
        ∀ name s, c.resolve p name = .ok s → c.resolve q name = .ok s := by
  refine ⟨Schema.violations_sublist h hd, fun c => ⟨c.violations_sublist h hd, ?_⟩⟩
  intro name s hs
  exact resolve_eq_ok_iff.mpr ((resolve_eq_ok_iff.mp hs).relax h)

/-- Strict names without regard to case, and then neither. Of the problems of a schema and of a
catalog one stays, in each; and the definition that had none is resolved as before. -/
theorem relaxing_adds_no_problem_names :
    let p : Policy := { strictNames := true, caseSensitive := false, delimiter := '/' }
    let q : Policy := { allowEmptyStruct := true, delimiter := '/' }
    let s : Schema := [.scalar "a/b" .int false, .struct "c" [] false,
      .struct "d" [.scalar "X" .int false, .scalar "x" .int false, .scalar "x" .int false] false]
    let c : Catalog := { definitions := .ofList [
      ("none", []),
      ("point", [{ name := "x", type := "int" }, { name := "y", type := "int" }]),
      ("shape", [{ name := "Center", type := "struct", reference := some "point" },
        { name := "center", type := "struct", reference := some "none" },
        { name := "next/one", type := "struct", reference := some "shape" }])] }
    (q.Relaxes p ∧ q.delimiter = p.delimiter) ∧
      ((s.violations q).Sublist (s.violations p) ∧
        s.violations q = [⟨"d/x", .duplicateName "x"⟩] ∧ (s.violations p).length = 4) ∧
      ((c.violations q).Sublist (c.violations p) ∧
        c.violations q = [⟨"shape/next/one", .cyclicSchema ["shape", "shape"]⟩] ∧
          (c.violations p).length = 4) ∧
      c.resolve q "point" = .ok [.scalar "x" .int false, .scalar "y" .int false] := by
  intro p q s c
  have h : q.Relaxes p := ⟨by decide, by decide, by decide⟩
  have hd : q.delimiter = p.delimiter := rfl
  have hpoint : c.resolve p "point" = .ok [.scalar "x" .int false, .scalar "y" .int false] := by
    decide +kernel
  have hcycles : c.cycles p = [⟨"shape/next/one", .cyclicSchema ["shape", "shape"]⟩] := by
    have hnames : c.names = ["none", "point", "shape"] := by decide +kernel
    have hrefs : c.references p "none" = [] ∧ c.references p "point" = [] ∧
        c.references p "shape" = [⟨"shape/Center", "point"⟩, ⟨"shape/center", "none"⟩,
          ⟨"shape/next/one", "shape"⟩] := by decide +kernel
    simp [cycles, hnames, enter, hrefs, followAll, cycleAlong]
  obtain ⟨hschema, hcatalog⟩ := relaxing_adds_no_problem h hd
  refine ⟨⟨h, hd⟩, ⟨hschema s, ?_, ?_⟩, ⟨(hcatalog c).1, ?_, ?_⟩, (hcatalog c).2 _ _ hpoint⟩
  · decide +kernel
  · decide +kernel
  · rw [violations, cycles_congr c hd, hcycles]
    decide +kernel
  · rw [violations, hcycles]
    decide +kernel

end Catalog
end RecordSchema
