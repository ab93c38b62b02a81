import Mathlib.Logic.Relation
import RecordSchema.Proofs.Catalog.Dependence
import RecordSchema.Proofs.Catalog.Inserting

/-!
# Resolution looks at what it reaches

The names that resolving `name` can look up are `name` itself and those that references name, in its
definition or in one that is reached from it (`Catalog.IsMet`). Some of them may not be defined.
Catalogs that agree on these names resolve `name` alike, to the same schema or with the same fault
(`Catalog.resolve_congr_of_isMet`): each step of the walk stays among them. So a definition can be
added or replaced under any other name without an effect.
-/

namespace RecordSchema
namespace Catalog

variable {c c' : Catalog} {p : Policy} {name other : String} {r : Reference} {s : Schema}

/-- The name `other` is `name`, or a reference names it that is made in a definition reached from
`name`. -/
def IsMet (c : Catalog) (p : Policy) (name other : String) : Prop :=
  other = name ∨
    ∃ d, Relation.ReflTransGen (c.Edge p) name d ∧ ∃ r ∈ c.references p d, r.target = other

/-- A defined name that is met is reached along edges of the graph. Names without a definition can
be met, too, but make no edges. -/
theorem IsMet.reached (h : c.IsMet p name other) (hdef : other ∈ c.names) :
    Relation.ReflTransGen (c.Edge p) name other := by
  rcases h with rfl | ⟨d, hd, r, hr, rfl⟩
  · exact .refl
  · exact hd.tail (edge_of_mem_references hr hdef)

/-- What a name that is met refers to is met. -/
theorem IsMet.reference (h : c.IsMet p name other) (hr : r ∈ c.references p other) :
    c.IsMet p name r.target :=
  .inr ⟨other, h.reached (mem_names_of_mem_references hr), r, hr, rfl⟩

/-- Names that are closed under references hold all that is met from one of them. This shows of a
concrete catalog that a name is not met. -/
theorem IsMet.mem_of_closed {names : List String} (h : c.IsMet p name other) (hname : name ∈ names)
    (hclosed : ∀ d ∈ names, ∀ r ∈ c.references p d, r.target ∈ names) : other ∈ names := by
  rcases h with rfl | ⟨d, hd, r, hr, rfl⟩
  · exact hname
  · have hreached : d ∈ names := by
      clear hr
      induction hd with
      | refl => exact hname
      | tail _ hedge ih =>
        obtain ⟨r', hr', rfl⟩ := hedge.exists_reference
        exact hclosed _ ih r' hr'
    exact hclosed d hreached r hr

/-- **A name is resolved alike by catalogs that define alike what is met**, to the same schema or
with the same fault. Names without a definition count: they have to be without one in both. -/
theorem resolve_congr_of_isMet (h : ∀ other, c.IsMet p name other → c.find? other = c'.find? other) :
    c.resolve p name = c'.resolve p name := by
  have hname : c.IsMet p name name := .inl rfl
  refine resolve_congr (h name hname) fun r hr => ?_
  refine follow_congr (fun _ target => c.IsMet p name target) ?_ (hname.reference hr)
  intro branch target htarget _
  exact .inr ⟨h target htarget, fun r hr => htarget.reference hr⟩

/-- **Resolution depends on what it reaches only.** A schema inserted under a name that is not met,
whether this was defined before or not, leaves the result of resolving as it is, be it a schema or a
fault. -/
theorem resolve_insert_of_not_met (s : Schema) (hout : ¬c.IsMet p name other) :
    (c.insert other s).resolve p name = c.resolve p name := by
  refine (resolve_congr_of_isMet fun n hn => ?_).symm
  have hne : n ≠ other := fun heq => hout (heq ▸ hn)
  exact (find?_insert_of_ne c s hne).symm

/-- A definition that refers to another one, which has a reference to nothing. What refers to the
first is not met from it and can be replaced. The name that nothing stands under is met; once it is
defined, the result is another one. -/
theorem resolve_insert_of_not_met_dangling :
    let struct (name target : String) : FieldDef :=
      { name, type := "struct", reference := some target }
    let c : Catalog := { definitions := .ofList [
      ("book", [struct "author" "person"]),
      ("person", [{ name := "home", type := "struct", children := some [struct "city" "place"] }]),
      ("shelf", [struct "first" "book"])] }
    let s : Schema := [.scalar "size" .int false]
    ¬c.IsMet {} "book" "shelf" ∧
      (c.insert "shelf" s).resolve {} "book" = c.resolve {} "book" ∧
        c.resolve {} "book" = .error (.unknownReference "person.home.city" "place") ∧
          (c.insert "place" s).resolve {} "book" =
            .ok [.struct "author" [.struct "home" [.struct "city" s false] false] false] := by
  intro struct c s
  have hclosed : ∀ d ∈ ["book", "person", "place"], ∀ r ∈ c.references {} d,
      r.target ∈ ["book", "person", "place"] := by
    decide +kernel
  have hout : ¬c.IsMet {} "book" "shelf" := fun h =>
    absurd (h.mem_of_closed List.mem_cons_self hclosed) (by decide)
  refine ⟨hout, resolve_insert_of_not_met s hout, ?_⟩
  decide +kernel

end Catalog
end RecordSchema
