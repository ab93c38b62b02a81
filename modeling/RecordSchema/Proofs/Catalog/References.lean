import Mathlib.Data.List.Nodup
import RecordSchema.Catalog.Basic

/-!
# The graph of references

A field of a catalog is addressed by a `Site`: the definition it stands in and its position there,
the list of indices on the way down through children. Paths made of names are no addresses, since
siblings may share a name. `Catalog.fieldAt?` looks a site up.

A field that references a defined name is an edge of the reference graph from its definition to
that name (`Catalog.Refers`). Walks of the program see references as a list in the order of
fields; `Definition.placed` is this list with the positions kept, and `mem_placed_iff` says that
it has each referencing field once.
-/

namespace RecordSchema

/-- The address of a field in a catalog. -/
structure Site where
  definition : String
  /-- Indices of the fields on the way down, outermost first. -/
  position : List Nat
  deriving DecidableEq

/-- The field at a position below `d`, itself at the empty one, with its path; `d` is below
`parent`. -/
def FieldDef.at? (p : Policy) (parent : String) (d : FieldDef) :
    List Nat → Option (String × FieldDef)
  | [] => some (p.subpath parent d.name, d)
  | i :: position =>
    d.children.bind fun ds => ds[i]?.bind fun e => e.at? p (p.subpath parent d.name) position

/-- The field at a position among the fields below `parent`, with its path. -/
def Definition.at? (p : Policy) (parent : String) (ds : List FieldDef) :
    List Nat → Option (String × FieldDef)
  | [] => none
  | i :: position => ds[i]?.bind fun d => d.at? p parent position

mutual

/-- The references of a field and of those below it, each with its position from the field. -/
def FieldDef.placed (p : Policy) (parent : String) : FieldDef → List (List Nat × Reference)
  | ⟨name, _, _, _, reference, none⟩ =>
    (reference.map fun target => ([], ⟨p.subpath parent name, target⟩)).toList
  | ⟨name, _, _, _, reference, some children⟩ =>
    (reference.map fun target => ([], ⟨p.subpath parent name, target⟩)).toList ++
      Definition.placed p (p.subpath parent name) 0 children

/-- The references of the fields of a level from index `i` on, each with its position. -/
def Definition.placed (p : Policy) (parent : String) (i : Nat) :
    List FieldDef → List (List Nat × Reference)
  | [] => []
  | d :: rest =>
    (d.placed p parent).map (fun e => (i :: e.1, e.2)) ++ Definition.placed p parent (i + 1) rest

end

section Placed

variable {p : Policy} {parent : String} {r : Reference} {position : List Nat}
  {d : FieldDef} {ds cs : List FieldDef} {i : Nat}

/-- A position below a field with children is one among the children, whose path is that of the
field. -/
theorem FieldDef.at?_cons_of_children (h : d.children = some cs) (i : Nat) (position : List Nat) :
    d.at? p parent (i :: position) =
      Definition.at? p (p.subpath parent d.name) cs (i :: position) := by
  rw [at?, h]
  rfl

mutual

/-- Without positions the placed references are the references of a field, in their order. The walks
use the plain list; where a reference stands is needed in statements only. -/
theorem FieldDef.map_snd_placed (p : Policy) (parent : String) :
    (d : FieldDef) → (d.placed p parent).map Prod.snd = d.references p parent
  | ⟨_, _, _, _, none, none⟩ => rfl
  | ⟨_, _, _, _, some _, none⟩ => rfl
  | ⟨_, _, _, _, none, some children⟩ => by
    simpa [FieldDef.placed, FieldDef.references] using Definition.map_snd_placed p _ 0 children
  | ⟨_, _, _, _, some _, some children⟩ => by
    simpa [FieldDef.placed, FieldDef.references] using Definition.map_snd_placed p _ 0 children

/-- Without positions the placed references are the references of a level. So what a walk sees in
its list can be said with positions. -/
theorem Definition.map_snd_placed (p : Policy) (parent : String) (i : Nat) :
    (ds : List FieldDef) → (Definition.placed p parent i ds).map Prod.snd =
      Definition.references p parent ds
  | [] => rfl
  | d :: rest => by
    rw [Definition.placed, Definition.references, List.map_append, List.map_map,
      ← FieldDef.map_snd_placed p parent d, ← Definition.map_snd_placed p parent (i + 1) rest]
    rfl

end

mutual

/-- The placed references of a field are the references at its positions, its own at the empty
one. -/
theorem FieldDef.mem_placed_iff (p : Policy) (r : Reference) (parent : String)
    (position : List Nat) : (d : FieldDef) → ((position, r) ∈ d.placed p parent ↔
      ∃ f, d.at? p parent position = some (r.path, f) ∧ f.reference = some r.target)
  | ⟨name, type, nullable, metadata, reference, none⟩ => by
    cases position with
    | nil =>
      obtain ⟨path, target⟩ := r
      simp [FieldDef.placed, FieldDef.at?, and_comm]
    | cons i position => simp [FieldDef.placed, FieldDef.at?]
  | ⟨name, type, nullable, metadata, reference, some children⟩ => by
    rw [FieldDef.placed, List.mem_append,
      Definition.mem_placed_iff p r (p.subpath parent name) position 0 children]
    cases position with
    | nil =>
      obtain ⟨path, target⟩ := r
      simp [FieldDef.at?, and_comm]
    | cons i position =>
      rw [FieldDef.at?_cons_of_children rfl]
      simp

/-- The placed references of a level from index `i` on are the references at its positions, the
first index counted from `i`. The induction along the level moves the index, so that it cannot be
fixed at zero. -/
theorem Definition.mem_placed_iff (p : Policy) (r : Reference) (parent : String)
    (position : List Nat) (i : Nat) : (ds : List FieldDef) → ((position, r) ∈ Definition.placed p parent i ds ↔
      ∃ j rest f, position = (i + j) :: rest ∧
        Definition.at? p parent ds (j :: rest) = some (r.path, f) ∧ f.reference = some r.target)
  | [] => by simp [Definition.placed, Definition.at?]
  | d :: ds => by
    rw [Definition.placed, List.mem_append, Definition.mem_placed_iff p r parent position (i + 1) ds]
    constructor
    · rintro (h | ⟨j, rest, f, rfl, hf, hr⟩)
      · obtain ⟨⟨rest, r'⟩, hd, heq⟩ := List.mem_map.mp h
        obtain ⟨rfl, rfl⟩ := Prod.mk.inj heq
        obtain ⟨f, hf, hr⟩ := (FieldDef.mem_placed_iff p _ parent rest d).mp hd
        exact ⟨0, rest, f, rfl, hf, hr⟩
      · exact ⟨j + 1, rest, f, by rw [Nat.add_right_comm, Nat.add_assoc], hf, hr⟩
    · rintro ⟨_ | j, rest, f, rfl, hf, hr⟩
      · have hd := (FieldDef.mem_placed_iff p r parent rest d).mpr ⟨f, hf, hr⟩
        exact .inl (List.mem_map.mpr ⟨_, hd, rfl⟩)
      · exact .inr ⟨j, rest, f, by rw [Nat.add_right_comm, Nat.add_assoc], hf, hr⟩

end

/-- The placed references of a level are the references at its positions. Counting from zero the
shift of the general lemma disappears; the empty position is no place of a field. -/
theorem Definition.mem_placed_zero_iff :
    (position, r) ∈ Definition.placed p parent 0 ds ↔
      ∃ f, Definition.at? p parent ds position = some (r.path, f) ∧
        f.reference = some r.target := by
  rw [Definition.mem_placed_iff]
  constructor
  · rintro ⟨j, rest, f, rfl, hf, hr⟩
    rw [Nat.zero_add]
    exact ⟨f, hf, hr⟩
  · rintro ⟨f, hf, hr⟩
    cases position with
    | nil => exact nomatch hf
    | cons j rest => exact ⟨j, rest, f, by rw [Nat.zero_add], hf, hr⟩

mutual

/-- No position below a field has two references, as a field has one at most. A reference of the
field itself is at the empty position, and those of its children are not. -/
theorem FieldDef.placed_positions_nodup (p : Policy) (parent : String) :
    (d : FieldDef) → ((d.placed p parent).map Prod.fst).Nodup
  | ⟨_, _, _, _, none, none⟩ => .nil
  | ⟨_, _, _, _, some _, none⟩ => List.nodup_singleton _
  | ⟨_, _, _, _, none, some children⟩ => Definition.placed_positions_nodup p _ 0 children
  | ⟨name, _, _, _, some target, some children⟩ => by
    refine List.nodup_cons.mpr ⟨fun h => ?_, Definition.placed_positions_nodup p _ 0 children⟩
    obtain ⟨⟨_, r⟩, hr, rfl⟩ := List.mem_map.mp h
    obtain ⟨_, _, _, heq, _⟩ := (Definition.mem_placed_iff p r _ _ 0 children).mp hr
    exact nomatch heq

/-- No position in a level has two references: those of different fields differ in their first
index. -/
theorem Definition.placed_positions_nodup (p : Policy) (parent : String) (i : Nat) :
    (ds : List FieldDef) → ((Definition.placed p parent i ds).map Prod.fst).Nodup
  | [] => .nil
  | d :: ds => by
    rw [Definition.placed, List.map_append, List.map_map]
    refine List.Nodup.append ?_ (Definition.placed_positions_nodup p parent (i + 1) ds) ?_
    · have h := (FieldDef.placed_positions_nodup p parent d).map (List.cons_injective (a := i))
      rwa [List.map_map] at h
    · intro position hd hds
      obtain ⟨e, _, rfl⟩ := List.mem_map.mp hd
      obtain ⟨⟨_, r⟩, hr, heq⟩ := List.mem_map.mp hds
      obtain ⟨j, rest, _, rfl, _⟩ := (Definition.mem_placed_iff p r parent _ (i + 1) ds).mp hr
      have hhead : i + 1 + j = i := (List.cons.inj heq).1
      omega

end

end Placed

namespace Catalog

variable {c : Catalog} {p : Policy} {site : Site} {path d e name : String}

/-- The field at a site, with its path. -/
def fieldAt? (c : Catalog) (p : Policy) (site : Site) : Option (String × FieldDef) :=
  (c.find? site.definition).bind fun ds => Definition.at? p site.definition ds site.position

/-- The field at the site, whose path is `path`, references the defined name `target`. -/
def Refers (c : Catalog) (p : Policy) (site : Site) (path target : String) : Prop :=
  ∃ f, c.fieldAt? p site = some (path, f) ∧ f.reference = some target ∧ target ∈ c.names

/-- Some field of the definition `d` references the defined name `e`. -/
def Edge (c : Catalog) (p : Policy) (d e : String) : Prop :=
  ∃ site path, site.definition = d ∧ c.Refers p site path e

/-- The references of a name with their positions. -/
def placed (c : Catalog) (p : Policy) (name : String) : List (List Nat × Reference) :=
  Definition.placed p name 0 ((c.find? name).getD [])

/-- Without positions the placed references of a name are its references. -/
theorem map_snd_placed : (c.placed p name).map Prod.snd = c.references p name :=
  Definition.map_snd_placed p name 0 _

/-- No position in a definition has two references. -/
theorem placed_positions_nodup : ((c.placed p name).map Prod.fst).Nodup :=
  Definition.placed_positions_nodup p name 0 _

/-- The placed references of a name are those of the fields at its sites. So a report can be traced
from the site to the field and its path. -/
theorem mem_placed_iff {position : List Nat} {r : Reference} :
    (position, r) ∈ c.placed p name ↔
      ∃ f, c.fieldAt? p ⟨name, position⟩ = some (r.path, f) ∧ f.reference = some r.target := by
  rw [placed, Definition.mem_placed_zero_iff, fieldAt?]
  cases c.find? name with
  | none => cases position <;> simp [Definition.at?]
  | some ds => rfl

/-- What a field refers to, in the sense of the graph, is defined. -/
theorem Refers.defined (h : c.Refers p site path e) : e ∈ c.names :=
  let ⟨_, _, _, he⟩ := h
  he

/-- A field that references a name stands in a definition. -/
theorem Refers.definition_mem (h : c.Refers p site path e) : site.definition ∈ c.names := by
  obtain ⟨f, hf, _⟩ := h
  obtain ⟨ds, hds, _⟩ := Option.bind_eq_some_iff.mp hf
  exact mem_names_of_find? hds

/-- An edge leads to a defined name. -/
theorem Edge.defined (h : c.Edge p d e) : e ∈ c.names :=
  let ⟨_, _, _, hr⟩ := h
  hr.defined

/-- The references of a name are those of its definition. -/
theorem references_of_find? {ds : Definition} (h : c.find? d = some ds) :
    c.references p d = Definition.references p d ds := by
  rw [references, h, Option.getD_some]

/-- Only defined names have references. The target of one need not be defined, which is where edges
and references differ. -/
theorem mem_names_of_mem_references {r : Reference} (hr : r ∈ c.references p d) : d ∈ c.names := by
  cases hd : c.find? d with
  | none =>
    rw [references, hd] at hr
    exact nomatch hr
  | some ds => exact mem_names_of_find? hd

/-- A placed reference of a definition to a defined name is an edge. -/
theorem edge_of_mem_placed {e : List Nat × Reference} (he : e ∈ c.placed p d)
    (hdef : e.2.target ∈ c.names) : c.Edge p d e.2.target := by
  obtain ⟨f, hf, htarget⟩ := mem_placed_iff.mp he
  exact ⟨⟨d, e.1⟩, e.2.path, rfl, f, hf, htarget, hdef⟩

/-- A reference of a definition to a defined name is an edge. Walks of the program go along
these. -/
theorem edge_of_mem_references {r : Reference} (hr : r ∈ c.references p d)
    (hdef : r.target ∈ c.names) : c.Edge p d r.target := by
  rw [← map_snd_placed] at hr
  obtain ⟨e, he, rfl⟩ := List.mem_map.mp hr
  exact edge_of_mem_placed he hdef

/-- Every edge is made by a reference of the definition that it starts from. -/
theorem Edge.exists_reference (h : c.Edge p d e) : ∃ r ∈ c.references p d, r.target = e := by
  obtain ⟨⟨d, position⟩, path, rfl, f, hf, htarget, -⟩ := h
  have hplaced : (position, ⟨path, e⟩) ∈ c.placed p d := mem_placed_iff.mpr ⟨f, hf, htarget⟩
  rw [← map_snd_placed]
  exact ⟨⟨path, e⟩, List.mem_map_of_mem hplaced, rfl⟩

end Catalog
end RecordSchema
