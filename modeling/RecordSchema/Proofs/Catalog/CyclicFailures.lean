import RecordSchema.Proofs.Catalog.Failures

/-!
# Resolution fails on cycles

Resolution says that it ran into a cycle when a reference leads back into the branch that it was
met on. The branch holds names that each refer to the one in front of it, so turned around from the
target on, and closed with it, it is a cycle of the reference graph (`Catalog.Meets.reachesCycle`).
Children in place put nothing on the branch, and need not: their references are those of the
definition they stand in.

That no cycle is missed does not depend on the order in which references are followed. A name that
reaches a cycle has no finite unfolding, so its resolution fails somewhere; and where a catalog has
no violations but cycles, the only origin left for a failure is a reference back into the branch.
-/

namespace RecordSchema
namespace Catalog

variable {c : Catalog} {p : Policy} {name target d : String} {branch cycle : List String}
  {r : Reference} {s : Schema} {e : Error}

/-- `cycle` is a cycle of the reference graph within reach of `name`: it leads from a name through
others, all of them defined and distinct, back to the first, each of them refers to the next, and
the first is reached from `name`. -/
def ReachesCycle (c : Catalog) (p : Policy) (name : String) (cycle : List String) : Prop :=
  ∃ first rest, cycle = first :: rest ++ [first] ∧ (first :: rest).Nodup ∧
    first :: rest ⊆ c.names ∧ Relation.ReflTransGen (c.Edge p) name first ∧
    (first :: rest ++ [first]).IsChain (c.Edge p)

/-- A cycle along a branch has only names on the branch, since it is the part of the branch above
the target, with the target at both ends. -/
theorem cycleAlong_subset (h : target ∈ branch) : cycleAlong branch target ⊆ branch := by
  intro x hx
  rw [cycleAlong, List.mem_append, List.mem_cons, List.mem_reverse, List.mem_singleton] at hx
  rcases hx with (rfl | hx) | rfl
  · exact h
  · exact (List.takeWhile_prefix _).subset hx
  · exact h

/-- The definitions of a reported cycle refer to each other all the way round, the last of them to
the first. -/
theorem Closes.exists_isChain {site : Site} {v : Violation} (h : c.Closes p site v) :
    ∃ first rest, (first :: rest).Nodup ∧ (first :: rest ++ [first]).IsChain (c.Edge p) ∧
      v.error = .cyclicSchema (first :: rest ++ [first]) := by
  obtain ⟨first, rest, hnodup, hchain, hlast, hr, herror, -⟩ := h
  refine ⟨first, rest, hnodup, hchain.append (.singleton _) fun x hx y hy => ?_, herror⟩
  obtain rfl := Option.some.inj hy
  obtain rfl := Option.some.inj (hlast.symm.trans hx)
  exact ⟨site, v.path, rfl, hr⟩

/-- A reference back into the branch that it is met on closes a cycle, and the name that is resolved
reaches it, as it reaches whatever is on the branch. -/
theorem Meets.reachesCycle (h : c.Meets p name branch r) (hback : r.target ∈ branch) :
    c.ReachesCycle p name (cycleAlong branch r.target) := by
  obtain ⟨x, rest, rfl, hr⟩ := h.made
  rw [← map_snd_placed] at hr
  obtain ⟨⟨position, r⟩, hplaced, rfl⟩ := List.mem_map.mp hr
  obtain ⟨f, hf, htarget⟩ := mem_placed_iff.mp hplaced
  have hrefers : c.Refers p ⟨x, position⟩ r.path r.target :=
    ⟨f, hf, htarget, h.isBranch.defined _ hback⟩
  obtain ⟨first, rest', hnodup, hchain, herror⟩ :=
    (h.isBranch.closes hback rfl hrefers).exists_isChain
  have hcycle : cycleAlong (x :: rest) r.target = first :: rest' ++ [first] :=
    Error.cyclicSchema.inj herror
  have hbranch : first :: rest' ⊆ x :: rest := by
    intro n hn
    refine cycleAlong_subset hback ?_
    rw [hcycle]
    exact List.mem_append_left _ hn
  have hdefined : first :: rest' ⊆ c.names := fun n hn => h.isBranch.defined n (hbranch hn)
  exact ⟨first, rest', hcycle, hnodup, hdefined, h.reached first (hbranch List.mem_cons_self),
    hchain⟩

/-- On a cycle within reach a name reaches itself. The names of the cycle, closed by the first of
them, are a chain of references, and a chain from a name back to it is never empty. -/
theorem ReachesCycle.exists_transGen (h : c.ReachesCycle p name cycle) :
    ∃ d, Relation.ReflTransGen (c.Edge p) name d ∧ Relation.TransGen (c.Edge p) d d := by
  obtain ⟨first, rest, -, -, -, hreached, hchain⟩ := h
  refine ⟨first, hreached, ?_⟩
  cases hrest : rest ++ [first] with
  | nil => exact absurd hrest (by simp)
  | cons y l =>
    rw [List.cons_append, hrest] at hchain
    obtain ⟨hedge, hl⟩ := List.isChain_cons_cons.mp hchain
    have hlast : (y :: l).getLast (List.cons_ne_nil _ _) = first := by
      simp only [← hrest, List.getLast_append_singleton]
    exact .head' hedge (List.relationReflTransGen_of_exists_isChain_cons l hl hlast)

/-- A name that reaches a cycle has no unfolding: what names unfold to gets smaller along
references, which would go on for ever. -/
theorem not_unfolds_of_reaches (hreached : Relation.ReflTransGen (c.Edge p) name d)
    (hcycle : Relation.TransGen (c.Edge p) d d) : ¬c.Unfolds p name s := by
  intro hs
  rcases Relation.reflTransGen_iff_eq_or_transGen.mp hreached with rfl | hreached
  · exact not_unfolds_of_transGen hcycle hs
  · obtain ⟨t, ht, -⟩ := exists_smaller_of_transGen hreached hs
    exact not_unfolds_of_transGen hcycle ht

/-- A cycle that resolution reports is one, within reach of the name. Its origin is a reference that
was met, and only one back into the branch fails in this way. -/
theorem reachesCycle_of_resolve (h : c.resolve p name = .error (.cyclicSchema cycle)) :
    c.ReachesCycle p name cycle := by
  have horigin := origin_of_resolve (mem_names_of_isReferenceFault h rfl) h
  generalize he : Error.cyclicSchema cycle = e at horigin
  cases horigin with
  | nowhere => exact nomatch he
  | improper _ _ hlocal => exact nomatch he ▸ hlocal
  | back hmeets hback =>
    rw [Error.cyclicSchema.inj he]
    exact hmeets.reachesCycle hback

/-- Where all violations are cycles, resolution fails for cycles only. Other failures have origins
that the examination reports in other words. -/
theorem exists_cyclicSchema_of_resolve (hcycles : ∀ v ∈ c.violations p, v.isCycle = true)
    (hname : name ∈ c.names) (h : c.resolve p name = .error e) :
    ∃ cycle, e = .cyclicSchema cycle := by
  cases origin_of_resolve hname h with
  | back => exact ⟨_, rfl⟩
  | nowhere hmeets hnone =>
    rcases hmeets.reported hnone with hreported | ⟨v, hv, hmismatch⟩
    · exact nomatch hcycles _ hreported
    · exact nomatch hmismatch.symm.trans (Violation.isMismatch_eq_false (hcycles v hv))
  | @improper d ds _ hds hne _ =>
    obtain ⟨v, hv⟩ := List.exists_mem_of_ne_nil _ hne
    have hlocal := Definition.isCycle_eq_false_of_levelViolations c p d [] ds v hv
    exact nomatch hlocal.symm.trans (hcycles v (levelViolations_subset hds hv))

/-- **Resolution reports real cycles and misses none.** When it reports a cycle, this leads along
references through distinct defined names, the first of them the resolved one or reached from it,
and the wording is these names joined with arrows. And where all violations of a catalog are
cycles, a defined name cannot be resolved exactly when it reaches a cycle along references, and
then a cycle is reported. -/
theorem resolve_fails_exactly_on_cycles (c : Catalog) (p : Policy) :
    (∀ name cycle, c.resolve p name = .error (.cyclicSchema cycle) →
      c.ReachesCycle p name cycle ∧
        (Error.cyclicSchema cycle).message = "cyclic schema: " ++ Text.join " -> " cycle) ∧
    ((∀ v ∈ c.violations p, v.isCycle = true) → ∀ name ∈ c.names,
      ((∃ e, c.resolve p name = .error e) ↔
        ∃ d, Relation.ReflTransGen (c.Edge p) name d ∧ Relation.TransGen (c.Edge p) d d) ∧
      ∀ e, c.resolve p name = .error e → ∃ cycle, e = .cyclicSchema cycle) := by
  refine ⟨fun name cycle h => ⟨reachesCycle_of_resolve h, rfl⟩, fun hcycles name hname => ?_⟩
  have hcyclic : ∀ e, c.resolve p name = .error e → ∃ cycle, e = .cyclicSchema cycle :=
    fun e h => exists_cyclicSchema_of_resolve hcycles hname h
  refine ⟨⟨?_, ?_⟩, hcyclic⟩
  · rintro ⟨e, h⟩
    obtain ⟨cycle, rfl⟩ := hcyclic e h
    exact (reachesCycle_of_resolve h).exists_transGen
  · rintro ⟨d, hreached, hcycle⟩
    cases h : c.resolve p name with
    | error e => exact ⟨e, rfl⟩
    | ok s => exact absurd (resolve_eq_ok_iff.mp h) (not_unfolds_of_reaches hreached hcycle)

/-- Two definitions that refer to each other, one of them below children in place, a third that
refers to them, and a fourth that does not. -/
theorem resolve_fails_exactly_on_cycles_people :
    let struct (name target : String) : FieldDef :=
      { name, type := "struct", reference := some target }
    let c : Catalog := { definitions := .ofList [
      ("address", [{ name := "zip", type := "string" },
        { name := "people", type := "struct", children := some [struct "first" "person"] }]),
      ("date", [{ name := "day", type := "int" }]),
      ("person", [struct "born" "date", struct "home" "address"]),
      ("team", [struct "founded" "date", struct "lead" "person"])] }
    (∀ v ∈ c.violations {}, v.isCycle = true) ∧
      c.resolve {} "team" = .error (.cyclicSchema ["person", "address", "person"]) ∧
      c.ReachesCycle {} "team" ["person", "address", "person"] ∧
      ¬∃ d, Relation.ReflTransGen (c.Edge {}) "date" d ∧ Relation.TransGen (c.Edge {}) d d := by
  intro struct c
  have hlocal : (c.definitions.entries.flatMap fun e =>
      Definition.levelViolations c {} e.1 [] e.2) = [] := by
    decide +kernel
  have hcycles : ∀ v ∈ c.violations {}, v.isCycle = true := by
    intro v hv
    rw [violations, hlocal, List.nil_append] at hv
    exact isCycle_of_mem_cycles hv
  have hteam : c.resolve {} "team" = .error (.cyclicSchema ["person", "address", "person"]) := by
    decide +kernel
  have hdate : c.resolve {} "date" = .ok [.scalar "day" .int false] := by decide +kernel
  obtain ⟨hreal, hmissed⟩ := resolve_fails_exactly_on_cycles c {}
  refine ⟨hcycles, hteam, (hreal _ _ hteam).1, fun hreach => ?_⟩
  obtain ⟨e, he⟩ := (hmissed hcycles "date" (by decide +kernel)).1.mpr hreach
  exact nomatch hdate.symm.trans he

end Catalog
end RecordSchema
