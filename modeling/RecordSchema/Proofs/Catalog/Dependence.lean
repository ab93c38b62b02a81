import RecordSchema.Catalog.Resolution
import RecordSchema.Proofs.Catalog.References

/-!
# What resolution depends on

To build a definition one has to know what its own references stand for, and nothing else about the
catalog (`Definition.build_congr`). So two catalogs resolve a name alike when they agree on what is
met on the way: at each branch and target, either both have the same definition there and agree on
its references in turn, or both follow the reference to the same result (`Catalog.follow_congr`).
The results are compared as a whole, with the first fault and its place.
-/

namespace RecordSchema

section Build

variable {p : Policy} {follow follow' : String → String → Except Error Schema}

mutual

/-- A field is built alike by two ways of following that agree on its references, to the same field
or with the same fault. -/
theorem FieldDef.build_congr (parent : String) :
    (d : FieldDef) → (∀ r ∈ d.references p parent, follow r.path r.target = follow' r.path r.target) →
      d.build p follow parent = d.build p follow' parent
  | ⟨_, _, _, _, none, none⟩ => fun _ => rfl
  | ⟨name, _, _, _, some target, none⟩ => by
    intro h
    have hr : follow (p.subpath parent name) target = follow' (p.subpath parent name) target :=
      h ⟨_, target⟩ List.mem_cons_self
    rw [FieldDef.build, FieldDef.build]
    simp only [hr]
  | ⟨_, _, _, _, some _, some _⟩ => fun _ => rfl
  | ⟨name, _, _, _, none, some children⟩ => by
    intro h
    rw [FieldDef.build, FieldDef.build,
      FieldDef.buildEach_congr (p.subpath parent name) children h]

/-- The fields of a level are built alike, under the same condition. The references of a level are
those of its head and of its rest, so the condition splits as the list does. -/
theorem FieldDef.buildEach_congr (parent : String) :
    (ds : List FieldDef) →
      (∀ r ∈ Definition.references p parent ds, follow r.path r.target = follow' r.path r.target) →
      FieldDef.buildEach p follow parent ds = FieldDef.buildEach p follow' parent ds
  | [] => fun _ => rfl
  | d :: ds => by
    intro h
    rw [FieldDef.buildEach, FieldDef.buildEach,
      FieldDef.build_congr parent d fun r hr => h r (List.mem_append_left _ hr),
      FieldDef.buildEach_congr parent ds fun r hr => h r (List.mem_append_right _ hr)]

end

/-- A definition is built alike by two ways of following that agree on its references. -/
theorem Definition.build_congr {parent : String} {d : Definition}
    (h : ∀ r ∈ Definition.references p parent d, follow r.path r.target = follow' r.path r.target) :
    d.build p follow parent = d.build p follow' parent := by
  rw [Definition.build, Definition.build, FieldDef.buildEach_congr parent d h]

end Build

namespace Catalog

variable {c c' : Catalog} {p : Policy} {branch : List String} {path target name : String}

/-- **References are followed alike by catalogs that agree on the way.** `Agree` holds of the
branches and targets that are met: unless a target closes a cycle, it is followed to the same
result, or it is defined alike and the references of its definition are met next. -/
theorem follow_congr (Agree : List String → String → Prop)
    (hstep : ∀ branch target, Agree branch target → target ∉ branch →
      (∀ path, c.follow p branch path target = c'.follow p branch path target) ∨
        c.find? target = c'.find? target ∧
          ∀ r ∈ c.references p target, Agree (target :: branch) r.target)
    (h : Agree branch target) :
    c.follow p branch path target = c'.follow p branch path target := by
  induction branch, path, target using follow.induct (c := c) with
  | case1 branch path target hback => rw [follow_of_mem hback, follow_of_mem hback]
  | case2 branch path target hnew hnone =>
    rcases hstep branch target h hnew with hsame | ⟨hfind, -⟩
    · exact hsame path
    · rw [follow_of_undefined hnew hnone, follow_of_undefined hnew (hfind ▸ hnone)]
  | case3 branch path target hnew d hd ih =>
    rcases hstep branch target h hnew with hsame | ⟨hfind, hrefs⟩
    · exact hsame path
    · rw [follow_of_find? hnew hd, follow_of_find? hnew (hfind ▸ hd)]
      rw [references_of_find? hd] at hrefs
      exact Definition.build_congr fun r hr => ih r.path r.target (hrefs r hr)

/-- A name is resolved alike by catalogs that define it alike and follow its references alike. What
else they define does not matter. -/
theorem resolve_congr (hfind : c.find? name = c'.find? name)
    (hrefs : ∀ r ∈ c.references p name,
      c.follow p [name] r.path r.target = c'.follow p [name] r.path r.target) :
    c.resolve p name = c'.resolve p name := by
  cases hd : c.find? name with
  | none => rw [resolve_of_undefined p hd, resolve_of_undefined p (hfind ▸ hd)]
  | some d =>
    rw [resolve_of_find? p hd, resolve_of_find? p (hfind ▸ hd)]
    rw [references_of_find? hd] at hrefs
    exact Definition.build_congr hrefs

end Catalog
end RecordSchema
