import RecordSchema.Proofs.Catalog.Agreement
import RecordSchema.Proofs.Catalog.Dependence
import RecordSchema.Proofs.Catalog.Inserting

/-!
# Inlining a definition

A definition that can be resolved may be replaced by what it is resolved to, the references in it
spelled out, without any change to what the catalog stands for: every name is resolved to the same
schema, or fails with the same fault at the same place.

References to the definition are where the two catalogs differ. After the replacement such a
reference is followed by building a schema anew, which succeeds. Before it, the references of the
definition are followed in turn, on a branch that has other names on it already, and one of them
might lead back to these. None does: each name on a branch leads to the target along references
(`Catalog.LeadsTo`), so what it unfolds to, if anything, is larger than what the target unfolds to
(`Catalog.LeadsTo.follow_eq_ok`).
-/

namespace RecordSchema
namespace Catalog

variable {c : Catalog} {p : Policy} {branch : List String} {name path target : String}
  {s : Schema}

/-- The target, if it is defined, is reached along references from every name on the branch. -/
def LeadsTo (c : Catalog) (p : Policy) (branch : List String) (target : String) : Prop :=
  target ∈ c.names → ∀ b ∈ branch, Relation.TransGen (c.Edge p) b target

/-- The empty branch leads anywhere. -/
theorem leadsTo_nil : c.LeadsTo p [] target := fun _ _ h => nomatch h

/-- A branch that leads to a target leads on to the references of the target. This is the step of
the walk, and it keeps the names that are met below a branch within reach of every name on it. -/
theorem LeadsTo.cons {r : Reference} (h : c.LeadsTo p branch target)
    (hr : r ∈ c.references p target) : c.LeadsTo p (target :: branch) r.target := by
  intro hdef b hb
  have hedge : c.Edge p target r.target := edge_of_mem_references hr hdef
  rcases List.mem_cons.mp hb with rfl | hb
  · exact .single hedge
  · exact (h (mem_names_of_mem_references hr) b hb).tail hedge

/-- A target that unfolds is followed to its unfolding on every branch that leads to it. The names
on the branch unfold to something larger, if to anything, so none of them is the target. -/
theorem LeadsTo.follow_eq_ok (h : c.LeadsTo p branch target) (hs : c.Unfolds p target s) :
    c.follow p branch path target = .ok s := by
  refine follow_of_unfolds hs fun b hb t ht => ?_
  obtain ⟨u, hu, hlt⟩ := exists_smaller_of_transGen (h hs.mem_names b hb) ht
  rwa [hs.unique hu]

/-- On a branch that leads to its target, a reference is followed alike before and after a name is
defined as what it unfolds to. Where the name itself is met, it unfolds; anywhere else definitions
are the same. -/
theorem LeadsTo.follow_insert (h : c.LeadsTo p branch target) (hs : c.Unfolds p name s) :
    (c.insert name s).follow p branch path target = c.follow p branch path target := by
  refine (follow_congr (c.LeadsTo p) (fun branch target h hnew => ?_) h).symm
  by_cases htarget : target = name
  · subst htarget
    refine .inl fun path => ?_
    rw [h.follow_eq_ok hs, follow_insert_self c s hnew, hs.wellFormed.rebuild]
  · exact .inr ⟨(find?_insert_of_ne c s htarget).symm, fun r hr => h.cons hr⟩

/-- Every name is resolved alike before and after one is defined as what it unfolds to. For that
name it is building the schema again, and for the others the walk meets the same answers. -/
theorem resolve_insert_of_unfolds (hs : c.Unfolds p name s) (other : String) :
    (c.insert name s).resolve p other = c.resolve p other := by
  by_cases hother : other = name
  · subst hother
    rw [resolve_insert_self, resolve_eq_ok_iff.mpr hs, hs.wellFormed.rebuild]
  · refine (resolve_congr (find?_insert_of_ne c s hother).symm fun r hr => ?_).symm
    exact ((leadsTo_nil.cons hr).follow_insert hs).symm

/-- **Inlining keeps the meaning of a catalog.** When a definition is replaced by the schema it is
resolved to, every name is resolved as before, to the same schema or with the same fault, and
something is improper about the catalog exactly when it was before. -/
theorem inlining_keeps_resolution (h : c.resolve p name = .ok s) :
    (∀ other, (c.insert name s).resolve p other = c.resolve p other) ∧
      ((c.insert name s).isValid p = true ↔ c.isValid p = true) := by
  have hs := resolve_eq_ok_iff.mp h
  refine ⟨resolve_insert_of_unfolds hs, ?_⟩
  have hnames : ∀ n, n ∈ (c.insert name s).names ↔ n ∈ c.names := fun n => by
    rw [mem_names_insert_iff, or_iff_right_of_imp fun hn => hn ▸ hs.mem_names]
  simp only [isValid_iff_forall_resolve, hnames, resolve_insert_of_unfolds hs]

/-- A definition that refers to another one twice and is referred to by three: one that is fine,
one with a reference to nothing after it, and one in a circle with itself. -/
theorem inlining_keeps_resolution_drawing :
    let struct (name target : String) : FieldDef :=
      { name, type := "struct", reference := some target }
    let c : Catalog := { definitions := .ofList [
      ("box", [struct "edge" "line", struct "lid" "cover"]),
      ("line", [struct "from" "point", struct "to" "point"]),
      ("path", [struct "first" "line"]),
      ("point", [{ name := "x", type := "int" }]),
      ("ring", [struct "edge" "line", struct "next" "ring"])] }
    let point : Schema := [.scalar "x" .int false]
    let line : Schema := [.struct "from" point false, .struct "to" point false]
    c.resolve {} "line" = .ok line ∧
      (∀ other, (c.insert "line" line).resolve {} other = c.resolve {} other) ∧
        (c.insert "line" line).resolve {} "path" = .ok [.struct "first" line false] ∧
        (c.insert "line" line).resolve {} "box" = .error (.unknownReference "box.lid" "cover") ∧
        (c.insert "line" line).resolve {} "ring" = .error (.cyclicSchema ["ring", "ring"]) := by
  intro struct c point line
  have h : c.resolve {} "line" = .ok line := by decide +kernel
  refine ⟨h, (inlining_keeps_resolution h).1, ?_⟩
  decide +kernel

end Catalog
end RecordSchema
