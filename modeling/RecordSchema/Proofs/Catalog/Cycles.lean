import RecordSchema.Proofs.Catalog.CycleSearch
import RecordSchema.Proofs.Pairing

/-!
# Cycles are reported exactly

The examination of a catalog reports a reference cycle at the field that closes it. Each report is
true, no field is reported twice, and the fields that are not reported lead around no cycle; so a
catalog without cycles has no report. The problems of single definitions are of other kinds, and
the cycle reports among all violations are those of the search.
-/

namespace RecordSchema

variable {c : Catalog} {p : Policy} {v : Violation} {path parent : String} {seen : List String}

/-- A problem of a name is no cycle. -/
theorem Policy.isCycle_eq_false_of_nameErrors {name : String} {e : Error}
    (he : e ∈ p.nameErrors seen name) : Violation.isCycle ⟨path, e⟩ = false := by
  rcases mem_nameErrors_iff.mp he with ⟨fault, -, rfl⟩ | ⟨-, rfl⟩
  · rfl
  · rfl

/-- A word that is no type is no cycle. So the violations of a single definition, of which this is
one kind, contain no cycles. -/
theorem FieldType.isCycle_eq_false_of_ofText {text : String} {e : Error} (h : ofText text = .error e) :
    Violation.isCycle ⟨path, e⟩ = false := by
  unfold ofText at h
  split at h
  · exact nomatch h
  · obtain rfl := Except.error.inj h
    rfl

mutual

/-- The problems of a field's type, shape and reference are no cycles, those of its children
included. -/
theorem FieldDef.isCycle_eq_false_of_shapeViolations (c : Catalog) (p : Policy) (path : String) :
    (d : FieldDef) → ∀ v ∈ d.shapeViolations c p path, v.isCycle = false
  | ⟨name, type, _, _, reference, some children⟩ => by
    intro v h
    rw [FieldDef.shapeViolations] at h
    split at h
    · obtain rfl := List.mem_singleton.mp h
      exact FieldType.isCycle_eq_false_of_ofText ‹_›
    · split at h
      · rcases List.mem_append.mp h with h | h
        · split at h
          · obtain rfl := List.mem_singleton.mp h
            rfl
          · exact nomatch h
        · exact Definition.isCycle_eq_false_of_levelViolations c p path [] children v h
      · obtain rfl := List.mem_singleton.mp h
        rfl
  | ⟨name, type, _, _, some reference, none⟩ => by
    intro v h
    rw [FieldDef.shapeViolations] at h
    split at h
    · obtain rfl := List.mem_singleton.mp h
      exact FieldType.isCycle_eq_false_of_ofText ‹_›
    · split at h
      · split at h
        · obtain rfl := List.mem_singleton.mp h
          rfl
        · split at h
          · obtain rfl := List.mem_singleton.mp h
            rfl
          · exact nomatch h
      · obtain rfl := List.mem_singleton.mp h
        rfl
  | ⟨_, type, _, _, none, none⟩ => by
    intro v h
    rw [FieldDef.shapeViolations] at h
    split at h
    · obtain rfl := List.mem_singleton.mp h
      exact FieldType.isCycle_eq_false_of_ofText ‹_›
    · split at h
      · obtain rfl := List.mem_singleton.mp h
        rfl
      · exact nomatch h

/-- The problems of the fields of one level are no cycles. Only the search along references reports
these. -/
theorem Definition.isCycle_eq_false_of_levelViolations (c : Catalog) (p : Policy) (parent : String)
    (seen : List String) :
    (ds : List FieldDef) → ∀ v ∈ Definition.levelViolations c p parent seen ds, v.isCycle = false
  | [] => by
    intro v h
    exact nomatch h
  | d :: rest => by
    intro v h
    rw [Definition.levelViolations, List.mem_append, List.mem_append] at h
    rcases h with (h | h) | h
    · obtain ⟨e, he, rfl⟩ := List.mem_map.mp h
      exact Policy.isCycle_eq_false_of_nameErrors he
    · exact FieldDef.isCycle_eq_false_of_shapeViolations c p (p.subpath parent d.name) d v h
    · exact Definition.isCycle_eq_false_of_levelViolations c p parent _ rest v h

end

namespace Catalog

variable {sites walk : List Site} {d e : String} {site : Site}

/-- The fields at the sites lead from the definition `d` to the definition `e`: each stands in the
definition that the one before it references. -/
inductive Walk (c : Catalog) (p : Policy) : String → String → List Site → Prop
  | nil (d : String) : Walk c p d d []
  | cons {site : Site} {path d e : String} {walk : List Site} :
    c.Refers p site path d → Walk c p d e walk → Walk c p site.definition e (site :: walk)

/-- A walk that keeps away from `sites` follows edges outside them. A closed walk that met none of
the reported fields would thus be a cycle among the edges that are left, and there are none. -/
theorem Walk.reflTransGen (h : c.Walk p d e walk) (hout : ∀ site ∈ walk, site ∉ sites) :
    Relation.ReflTransGen (c.EdgeOutside p sites) d e := by
  induction h with
  | nil => exact .refl
  | cons hr _ ih =>
    have hedge := hout _ List.mem_cons_self
    exact .head ⟨_, _, rfl, hr, hedge⟩ (ih fun site hsite => hout site (List.mem_cons_of_mem _ hsite))

/-- A walk of at least one step that keeps away from `sites` follows one or more edges outside
them. -/
theorem Walk.transGen (h : c.Walk p d e walk) (hne : walk ≠ [])
    (hout : ∀ site ∈ walk, site ∉ sites) :
    Relation.TransGen (c.EdgeOutside p sites) d e := by
  cases h with
  | nil => exact absurd rfl hne
  | cons hr hwalk =>
    have hedge := hout _ List.mem_cons_self
    exact .head' ⟨_, _, rfl, hr, hedge⟩
      (hwalk.reflTransGen fun site hsite => hout site (List.mem_cons_of_mem _ hsite))

/-- The report of a field that closes a cycle is one of a cycle. -/
theorem Closes.isCycle (h : c.Closes p site v) : v.isCycle = true := by
  obtain ⟨first, rest, -, -, -, -, herror, -⟩ := h
  rw [Violation.isCycle, herror]

/-- What is reported as a cycle is one: its first name reaches itself along references. -/
theorem Closes.transGen (h : c.Closes p site v) : ∃ d, Relation.TransGen (c.Edge p) d d := by
  obtain ⟨first, rest, -, hchain, hlast, hr, -⟩ := h
  rw [List.getLast?_eq_some_getLast (List.cons_ne_nil _ _)] at hlast
  have hwalk := List.relationReflTransGen_of_exists_isChain_cons rest hchain (Option.some.inj hlast)
  exact ⟨first, .tail' hwalk ⟨site, v.path, rfl, hr⟩⟩

/-- Each report of the search is that of some field that closes a cycle. -/
theorem exists_closes_of_mem_cycles (hv : v ∈ c.cycles p) : ∃ site, c.Closes p site v := by
  obtain ⟨sites, _, -, hcloses, -⟩ := exists_settled_cycles c p
  obtain ⟨r, -, hr⟩ := exists_mem_of_forall₂ hcloses hv
  exact ⟨r, hr⟩

/-- The cycle reports among the violations are those of the search, in its order. The examination of
the definitions comes first in the list and names other problems only, so a filter for cycles takes
the search's part as a whole. -/
theorem filter_isCycle_violations (c : Catalog) (p : Policy) :
    (c.violations p).filter Violation.isCycle = c.cycles p := by
  have hlocal : (c.definitions.entries.flatMap fun e =>
      Definition.levelViolations c p e.1 [] e.2).filter Violation.isCycle = [] := by
    refine List.filter_eq_nil_iff.mpr fun v hv => ?_
    obtain ⟨e, _, hv⟩ := List.mem_flatMap.mp hv
    rw [Definition.isCycle_eq_false_of_levelViolations c p e.1 [] e.2 v hv]
    exact Bool.false_ne_true
  rw [violations, List.filter_append, hlocal, List.nil_append]
  refine List.filter_eq_self.mpr fun v hv => ?_
  obtain ⟨site, h⟩ := exists_closes_of_mem_cycles hv
  exact h.isCycle

/-- **Cycle reports are sound and complete.** The cycle violations of a catalog are made at
distinct fields. Each names a cycle of distinct definitions, joined with arrows, and stands at the
path of a field of the last one that references the first. Every closed walk along references
passes one of these fields; without them the graph has no cycle; and a graph without cycles has no
report. -/
theorem cycles_reported (c : Catalog) (p : Policy) :
    ∃ sites : List Site, sites.Nodup ∧
      List.Forall₂ (c.Closes p) sites ((c.violations p).filter Violation.isCycle) ∧
      (∀ d walk, c.Walk p d d walk → walk ≠ [] → ∃ site ∈ walk, site ∈ sites) ∧
      (∀ d, ¬Relation.TransGen (c.EdgeOutside p sites) d d) ∧
      ((∀ d, ¬Relation.TransGen (c.Edge p) d d) →
        (c.violations p).filter Violation.isCycle = []) := by
  obtain ⟨sites, order, hnodup, hcloses, hsettled, hall⟩ := exists_settled_cycles c p
  have hacyclic : ∀ d, ¬Relation.TransGen (c.EdgeOutside p sites) d d := by
    intro d hcycle
    obtain ⟨e, hde, _⟩ := Relation.TransGen.head'_iff.mp hcycle
    exact hsettled.acyclic (hall hde.defined) hcycle
  rw [filter_isCycle_violations]
  refine ⟨sites, hnodup, hcloses, fun d walk hwalk hne => ?_, hacyclic, fun hnone => ?_⟩
  · by_contra hout
    push Not at hout
    exact hacyclic d (hwalk.transGen hne hout)
  · refine List.eq_nil_iff_forall_not_mem.mpr fun v hv => ?_
    obtain ⟨site, h⟩ := exists_closes_of_mem_cycles hv
    obtain ⟨d, hd⟩ := h.transGen
    exact hnone d hd

end Catalog
end RecordSchema
