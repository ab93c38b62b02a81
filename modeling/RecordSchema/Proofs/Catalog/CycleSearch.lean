import Mathlib.Data.List.Chain
import Mathlib.Data.List.Forall2
import Mathlib.Logic.Relation
import RecordSchema.Catalog.Violations
import RecordSchema.Proofs.Catalog.References

/-!
# The search for cycles

The walk along references keeps a branch of names, the names it is done with, and the cycles met.
Its invariant adds what the program does not keep: for each report the site of the field that
closes the cycle. Each reference of a name that is done is either reported or leads to a name
that was done before (`Catalog.Settled`). So the names in the order they were done with sort the
graph without the reported fields, and it has no cycle.

A walk along some references of one name is described by `CycleSearch.Advance`. Following a single
reference advances the search in one of four ways; advances compose; and the walk is an advance by
induction on its own recursion (`Catalog.exists_advance`).
-/

namespace RecordSchema

/-- Whether a violation is a reference cycle. -/
def Violation.isCycle (v : Violation) : Bool :=
  match v.error with
  | .cyclicSchema _ => true
  | _ => false

namespace Catalog

variable {c : Catalog} {p : Policy}

/-- Some field of the definition `d`, none of those at `sites`, references the defined name `e`. -/
def EdgeOutside (c : Catalog) (p : Policy) (sites : List Site) (d e : String) : Prop :=
  ∃ site path, site.definition = d ∧ c.Refers p site path e ∧ site ∉ sites

/-- `v` reports the field at `site`: this field stands in the last of the distinct definitions
`first :: rest`, each of which refers to the next, and references the first of them. -/
def Closes (c : Catalog) (p : Policy) (site : Site) (v : Violation) : Prop :=
  ∃ first rest, (first :: rest).Nodup ∧ (first :: rest).IsChain (c.Edge p) ∧
    (first :: rest).getLast? = some site.definition ∧ c.Refers p site v.path first ∧
    v.error = .cyclicSchema (first :: rest ++ [first]) ∧
    v.error.message = "cyclic schema: " ++ Text.join " -> " (first :: rest ++ [first])

/-- The names on a branch are distinct, defined, and each is referred to by the one after it. -/
structure IsBranch (c : Catalog) (p : Policy) (branch : List String) : Prop where
  nodup : branch.Nodup
  defined : ∀ name ∈ branch, name ∈ c.names
  chain : branch.IsChain fun d e => c.Edge p e d

/-- Fields outside `sites` refer from each of the names only to later ones. -/
def Settled (c : Catalog) (p : Policy) (sites : List Site) : List String → Prop
  | [] => True
  | d :: done => (∀ e, c.EdgeOutside p sites d e → e ∈ done) ∧ c.Settled p sites done

section Settled

variable {sites more : List Site} {done : List String} {d e : String}

/-- An edge starts from a defined name, whichever fields are left out. -/
theorem EdgeOutside.defined (h : c.EdgeOutside p sites d e) : d ∈ c.names := by
  obtain ⟨site, path, rfl, hr, _⟩ := h
  exact hr.definition_mem

/-- An edge leads to a defined name, whichever fields are left out. -/
theorem EdgeOutside.target_defined (h : c.EdgeOutside p sites d e) : e ∈ c.names := by
  obtain ⟨_, _, _, hr, _⟩ := h
  exact hr.defined

/-- With fewer fields left out there are more edges. -/
theorem EdgeOutside.anti (h : c.EdgeOutside p more d e) (hsub : sites ⊆ more) :
    c.EdgeOutside p sites d e := by
  obtain ⟨site, path, hd, hr, hsite⟩ := h
  exact ⟨site, path, hd, hr, fun hmem => hsite (hsub hmem)⟩

/-- Names that are settled stay so when more fields are reported. There are then fewer edges that
the condition is about. -/
theorem Settled.mono (h : c.Settled p sites done) (hsub : sites ⊆ more) :
    c.Settled p more done := by
  induction done with
  | nil => trivial
  | cons d done ih =>
    obtain ⟨hd, hdone⟩ := h
    exact ⟨fun e he => hd e (he.anti hsub), ih hdone⟩

/-- Settled names refer to settled names only, in one step or in many. One step goes by the list,
since a name refers to those that were done before it and the list grows at its head; the many steps
go by the chain. -/
theorem Settled.closed (h : c.Settled p sites done) (hd : d ∈ done)
    (hde : Relation.TransGen (c.EdgeOutside p sites) d e) : e ∈ done := by
  have hstep : ∀ {l : List String} {d e : String}, c.Settled p sites l → d ∈ l →
      c.EdgeOutside p sites d e → e ∈ l := by
    intro l d e hl hd hde
    induction l with
    | nil => exact nomatch hd
    | cons x l ih =>
      rcases List.mem_cons.mp hd with rfl | hd
      · exact List.mem_cons_of_mem _ (hl.1 e hde)
      · exact List.mem_cons_of_mem _ (ih hl.2 hd)
  induction hde with
  | single hde => exact hstep h hd hde
  | tail _ hef ih => exact hstep h ih hef

/-- No settled name refers to itself along fields outside `sites`: references lead to names that
were done before, and never back. -/
theorem Settled.acyclic (h : c.Settled p sites done) (hd : d ∈ done) :
    ¬Relation.TransGen (c.EdgeOutside p sites) d d := by
  induction done with
  | nil => exact nomatch hd
  | cons x done ih =>
    obtain ⟨hx, hdone⟩ := h
    by_cases hmem : d ∈ done
    · exact ih hdone hmem
    · -- a cycle through the first name would enter the later ones, and they lead nowhere else
      obtain rfl : d = x := (List.mem_cons.mp hd).resolve_right hmem
      intro hcycle
      obtain ⟨e, hde, hed⟩ := Relation.TransGen.head'_iff.mp hcycle
      rcases Relation.reflTransGen_iff_eq_or_transGen.mp hed with heq | hed
      · exact hmem (heq ▸ hx e hde)
      · exact hmem (hdone.closed (hx e hde) hed)

end Settled

/-- A branch is cut in two where a name of it stands first: the part above is the way from that name
to the reference that closes a cycle, and the part below is not on the cycle. -/
theorem exists_eq_takeWhile_append {target : String} {branch : List String}
    (h : target ∈ branch) :
    ∃ older, branch = branch.takeWhile (· ≠ target) ++ target :: older := by
  induction branch with
  | nil => exact nomatch h
  | cons y branch ih =>
    by_cases hy : y = target
    · exact ⟨branch, by simp [hy]⟩
    · obtain ⟨older, holder⟩ := ih ((List.mem_cons.mp h).resolve_left (Ne.symm hy))
      refine ⟨older, ?_⟩
      rw [List.takeWhile_cons_of_pos (by simpa using hy), List.cons_append, ← holder]

/-- A branch, turned around from `target` on, is the cycle that a reference back to `target` closes.
The branch has the newest name first, whereas the report goes along the references. -/
theorem IsBranch.closes {x target path : String} {branch : List String} {site : Site}
    (hb : c.IsBranch p (x :: branch)) (htarget : target ∈ x :: branch)
    (hx : site.definition = x) (hsite : c.Refers p site path target) :
    c.Closes p site ⟨path, .cyclicSchema (cycleAlong (x :: branch) target)⟩ := by
  obtain ⟨older, holder⟩ := exists_eq_takeWhile_append htarget
  generalize hnewer : (x :: branch).takeWhile (· ≠ target) = newer at holder
  have hback : x :: branch = (newer ++ [target]) ++ older := by
    rw [holder, List.append_assoc, List.singleton_append]
  have hpre : newer ++ [target] <+: x :: branch := ⟨older, hback.symm⟩
  have hrev : target :: newer.reverse = (newer ++ [target]).reverse := by simp
  have hcycle : cycleAlong (x :: branch) target = target :: newer.reverse ++ [target] := by
    rw [cycleAlong, hnewer]
  rw [hcycle]
  refine ⟨target, newer.reverse, ?_, ?_, ?_, hsite, rfl, rfl⟩
  · rw [hrev, List.nodup_reverse]
    exact hpre.sublist.nodup hb.nodup
  · rw [hrev, List.isChain_reverse]
    exact hb.chain.prefix hpre
  · have hhead : (newer ++ [target]).head? = ((newer ++ [target]) ++ older).head? := by
      cases newer <;> rfl
    rw [hrev, List.getLast?_reverse, hx, hhead, ← hback]
    rfl

end Catalog

open Catalog

/-- What holds between two steps of a walk: the reports are those of distinct `sites`, which stand
in names that are done or on the branch, and the names that are done are settled. -/
structure CycleSearch.Invariant (c : Catalog) (p : Policy) (sites : List Site)
    (branch : List String) (s : CycleSearch) : Prop where
  reports : List.Forall₂ (c.Closes p) sites s.found
  nodup : sites.Nodup
  settled : c.Settled p sites s.finished
  within : ∀ site ∈ sites, site.definition ∈ s.finished ∨ site.definition ∈ branch

/-- What following the references `refs` of the name `x`, in front of `branch`, does to a search
`s` with the reported `sites`: it ends in `t` and reports `new` besides. -/
structure CycleSearch.Advance (c : Catalog) (p : Policy) (x : String) (branch : List String)
    (refs : List (List Nat × Reference)) (sites : List Site) (s : CycleSearch) (new : List Site)
    (t : CycleSearch) : Prop where
  invariant : t.Invariant c p (sites ++ new) (x :: branch)
  finished : s.finished ⊆ t.finished
  /-- Of the branch only fields among those followed are reported. -/
  fresh : ∀ site ∈ new, (∃ e ∈ refs, site = ⟨x, e.1⟩) ∨ site.definition ∉ x :: branch
  followed : ∀ e ∈ refs, e.2.target ∈ c.names →
    ⟨x, e.1⟩ ∈ sites ++ new ∨ e.2.target ∈ t.finished

namespace CycleSearch

variable {c : Catalog} {p : Policy} {x : String} {branch : List String} {e : List Nat × Reference}
  {refs : List (List Nat × Reference)} {sites new new' : List Site} {s t u : CycleSearch}

/-- A search that has not begun has the invariant, with nothing reported and nothing done. -/
theorem Invariant.start (c : Catalog) (p : Policy) : Invariant c p [] [] {} :=
  ⟨.nil, .nil, trivial, fun _ h => nomatch h⟩

/-- Following nothing changes nothing. This is the start of an induction on the references that are
still to be followed. -/
theorem Advance.nil (h : s.Invariant c p sites (x :: branch)) :
    Advance c p x branch [] sites s [] s where
  invariant := by rwa [List.append_nil]
  finished := List.Subset.refl _
  fresh := fun _ hsite => nomatch hsite
  followed := fun _ he => nomatch he

/-- Following one reference and then others follows them all. What is reported on the way is put
together in this order. -/
theorem Advance.cons (h : Advance c p x branch [e] sites s new t)
    (h' : Advance c p x branch refs (sites ++ new) t new' u) :
    Advance c p x branch (e :: refs) sites s (new ++ new') u where
  invariant := by
    rw [← List.append_assoc]
    exact h'.invariant
  finished := List.Subset.trans h.finished h'.finished
  fresh := by
    intro site hsite
    rcases List.mem_append.mp hsite with hsite | hsite
    · refine (h.fresh site hsite).imp_left ?_
      rintro ⟨e', he', heq⟩
      exact ⟨e', List.mem_cons.mpr (.inl (List.mem_singleton.mp he')), heq⟩
    · refine (h'.fresh site hsite).imp_left ?_
      rintro ⟨e', he', heq⟩
      exact ⟨e', List.mem_cons_of_mem _ he', heq⟩
  followed := by
    intro e' he' hdef
    rw [← List.append_assoc]
    rcases List.mem_cons.mp he' with rfl | he'
    · exact (h.followed e' List.mem_cons_self hdef).imp (List.mem_append_left _)
        fun ht => h'.finished ht
    · exact h'.followed e' he' hdef

/-- After one reference is followed, the others at sites of their own are still not reported. So the
walk along them goes on from the same kind of state. -/
theorem Advance.exists_cons (h : Advance c p x branch [e] sites s new t)
    (hnodup : ((e :: refs).map Prod.fst).Nodup) (hnew : ∀ e' ∈ e :: refs, ⟨x, e'.1⟩ ∉ sites)
    (hrest : (∀ e' ∈ refs, ⟨x, e'.1⟩ ∉ sites ++ new) →
      ∃ new', Advance c p x branch refs (sites ++ new) t new' u) :
    ∃ new', Advance c p x branch (e :: refs) sites s new' u := by
  obtain ⟨new', h'⟩ := hrest fun e' he' hmem => by
    rcases List.mem_append.mp hmem with hmem | hmem
    · exact hnew e' (List.mem_cons_of_mem _ he') hmem
    · rcases h.fresh _ hmem with ⟨e'', he'', heq⟩ | hout
      · obtain rfl := List.mem_singleton.mp he''
        obtain ⟨-, heq⟩ := Site.mk.inj heq
        exact (List.nodup_cons.mp hnodup).1 (List.mem_map.mpr ⟨e', he', heq⟩)
      · exact hout List.mem_cons_self
  exact ⟨new ++ new', h.cons h'⟩

/-- A reference that leads nowhere new is passed over: its target is done already, or not
defined. -/
theorem Advance.skip (h : s.Invariant c p sites (x :: branch))
    (he : e.2.target ∈ c.names → e.2.target ∈ s.finished) :
    Advance c p x branch [e] sites s [] s where
  invariant := by rwa [List.append_nil]
  finished := List.Subset.refl _
  fresh := fun _ hsite => nomatch hsite
  followed := by
    intro e' he' hdef
    obtain rfl := List.mem_singleton.mp he'
    exact .inr (he hdef)

/-- A reference back into the branch is reported. Its site is a new one, and the field there closes
the cycle. -/
theorem Advance.report (h : s.Invariant c p sites (x :: branch)) (hb : c.IsBranch p (x :: branch))
    (he : e ∈ c.placed p x) (hnew : ⟨x, e.1⟩ ∉ sites) (htarget : e.2.target ∈ x :: branch) :
    Advance c p x branch [e] sites s [⟨x, e.1⟩]
      { s with found := s.found ++
          [⟨e.2.path, .cyclicSchema (cycleAlong (x :: branch) e.2.target)⟩] } where
  invariant := by
    have hsite : c.Refers p ⟨x, e.1⟩ e.2.path e.2.target := by
      obtain ⟨f, hf, hr⟩ := mem_placed_iff.mp he
      exact ⟨f, hf, hr, hb.defined _ htarget⟩
    refine ⟨?_, ?_, ?_, ?_⟩
    · exact List.rel_append h.reports (.cons (hb.closes htarget rfl hsite) .nil)
    · rw [List.nodup_append_comm]
      exact List.nodup_cons.mpr ⟨hnew, h.nodup⟩
    · exact h.settled.mono (List.subset_append_left _ _)
    · intro site hsite
      rcases List.mem_append.mp hsite with hsite | hsite
      · exact h.within site hsite
      · obtain rfl := List.mem_singleton.mp hsite
        exact .inr List.mem_cons_self
  finished := List.Subset.refl _
  fresh := by
    intro site hsite
    exact .inl ⟨e, List.mem_singleton_self e, List.mem_singleton.mp hsite⟩
  followed := by
    intro e' he' _
    obtain rfl := List.mem_singleton.mp he'
    exact .inl (List.mem_append_right _ (List.mem_singleton_self _))

/-- A name whose references have all been followed is done. Each of them is reported or leads to a
name that was done before, so the names stay settled. -/
theorem Invariant.finish {y : String} (h : t.Invariant c p sites (y :: branch))
    (hfollowed : ∀ e ∈ c.placed p y, e.2.target ∈ c.names →
      ⟨y, e.1⟩ ∈ sites ∨ e.2.target ∈ t.finished) :
    Invariant c p sites branch { t with finished := y :: t.finished } where
  reports := h.reports
  nodup := h.nodup
  settled := by
    refine ⟨fun target hedge => ?_, h.settled⟩
    obtain ⟨⟨z, position⟩, path, rfl, ⟨f, hf, hr, hdef⟩, hsite⟩ := hedge
    have he : (position, ⟨path, target⟩) ∈ c.placed p z := mem_placed_iff.mpr ⟨f, hf, hr⟩
    exact (hfollowed _ he hdef).resolve_left hsite
  within := by
    intro site hsite
    rcases h.within site hsite with hfin | hbr
    · exact .inl (List.mem_cons_of_mem _ hfin)
    · rcases List.mem_cons.mp hbr with heq | hbr
      · exact .inl (List.mem_cons.mpr (.inl heq))
      · exact .inr hbr

/-- A reference to a name not seen before is followed by entering it, following all its references
with the name on the branch, and leaving it. -/
theorem Advance.enter (hout : e.2.target ∉ x :: branch)
    (h : Advance c p e.2.target (x :: branch) (c.placed p e.2.target) sites s new t) :
    Advance c p x branch [e] sites s new { t with finished := e.2.target :: t.finished } where
  invariant := h.invariant.finish h.followed
  finished := List.Subset.trans h.finished (List.subset_cons_self _ _)
  fresh := by
    intro site hsite
    rcases h.fresh site hsite with ⟨e', _, rfl⟩ | hsite
    · exact .inr hout
    · exact .inr fun hmem => hsite (List.mem_cons_of_mem _ hmem)
  followed := by
    intro e' he' _
    obtain rfl := List.mem_singleton.mp he'
    exact .inr List.mem_cons_self

/-- A new name may be entered from the front of the branch, before anything of it is reported. Only
the condition on where reports lie mentions the branch, and it gets weaker. -/
theorem Invariant.branchOff {y : String} (h : s.Invariant c p sites branch) :
    s.Invariant c p sites (y :: branch) where
  reports := h.reports
  nodup := h.nodup
  settled := h.settled
  within := fun site hsite => (h.within site hsite).imp_right (List.mem_cons_of_mem _)

/-- Of a name that is neither done nor on the branch nothing has been reported. -/
theorem Invariant.not_reported {y : String} {position : List Nat} (h : s.Invariant c p sites branch)
    (hout : y ∉ branch) (hnew : y ∉ s.finished) : ⟨y, position⟩ ∉ sites :=
  fun hmem => (h.within _ hmem).elim hnew hout

end CycleSearch

namespace Catalog

variable {c : Catalog} {p : Policy} {branch : List String} {x y path : String}

/-- A branch grows by following a reference to a name off it. The name is defined, since only
references to defined names are edges. -/
theorem IsBranch.cons (hb : c.IsBranch p (x :: branch)) (hedge : c.Edge p x y)
    (hout : y ∉ x :: branch) : c.IsBranch p (y :: x :: branch) where
  nodup := List.nodup_cons.mpr ⟨hout, hb.nodup⟩
  defined := by
    intro name hname
    rcases List.mem_cons.mp hname with rfl | hname
    · exact hedge.defined
    · exact hb.defined name hname
  chain := List.isChain_cons_cons.mpr ⟨hedge, hb.chain⟩

/-- **The walk keeps its invariant.** Following references of the name in front of a branch, at
sites that are not reported yet, advances the search. The walk itself sees references without their
positions, so these are added in the statement. -/
theorem exists_advance {rs : List Reference} {s : CycleSearch} (hb : c.IsBranch p (x :: branch))
    (refs : List (List Nat × Reference)) (hrs : rs = refs.map Prod.snd)
    (hmem : ∀ e ∈ refs, e ∈ c.placed p x) (hnodup : (refs.map Prod.fst).Nodup)
    (sites : List Site) (hnew : ∀ e ∈ refs, ⟨x, e.1⟩ ∉ sites)
    (hs : s.Invariant c p sites (x :: branch)) :
    ∃ new, CycleSearch.Advance c p x branch refs sites s new (c.followAll p (x :: branch) rs s) := by
  -- the induction is the recursion of the walk; `sites` grows with it and is not part of its state
  induction hbr : x :: branch, rs, s using followAll.induct (c := c) (p := p)
    generalizing x branch refs sites with
  | case1 b s =>
    obtain rfl := List.map_eq_nil_iff.mp hrs.symm
    rw [followAll]
    exact ⟨[], .nil hs⟩
  | case2 b r rest s hback ih =>
    obtain ⟨e, refs, rfl, rfl, rfl⟩ := List.map_eq_cons_iff.mp hrs.symm
    subst hbr
    rw [followAll, if_pos hback]
    have he := CycleSearch.Advance.report hs hb (hmem e List.mem_cons_self)
      (hnew e List.mem_cons_self) hback
    refine he.exists_cons hnodup hnew fun hnew' => ?_
    exact ih hb refs rfl (fun e' he' => hmem e' (List.mem_cons_of_mem _ he'))
      (List.nodup_cons.mp hnodup).2 _ hnew' he.invariant rfl
  | case3 b r rest s hout hdone ih =>
    obtain ⟨e, refs, rfl, rfl, rfl⟩ := List.map_eq_cons_iff.mp hrs.symm
    subst hbr
    rw [followAll, if_neg hout, if_pos hdone]
    have he := CycleSearch.Advance.skip (e := e) hs fun _ => hdone
    refine he.exists_cons hnodup hnew fun hnew' => ?_
    exact ih hb refs rfl (fun e' he' => hmem e' (List.mem_cons_of_mem _ he'))
      (List.nodup_cons.mp hnodup).2 _ hnew' he.invariant rfl
  | case4 b r rest s hout hfresh hdef t ihenter =>
    rename_i ih
    obtain ⟨e, refs, rfl, rfl, rfl⟩ := List.map_eq_cons_iff.mp hrs.symm
    subst hbr
    rw [followAll, if_neg hout, if_neg hfresh, if_pos hdef]
    have hedge : c.Edge p x e.2.target := edge_of_mem_placed (hmem e List.mem_cons_self) hdef
    obtain ⟨new, hentered⟩ := ihenter (hb.cons hedge hout) (c.placed p e.2.target)
      map_snd_placed.symm (fun _ he' => he') placed_positions_nodup sites
      (fun _ _ => hs.not_reported hout hfresh) hs.branchOff rfl
    have he := CycleSearch.Advance.enter hout hentered
    refine he.exists_cons hnodup hnew fun hnew' => ?_
    exact ih hb refs rfl (fun e' he' => hmem e' (List.mem_cons_of_mem _ he'))
      (List.nodup_cons.mp hnodup).2 _ hnew' he.invariant rfl
  | case5 b r rest s hout hfresh hundef ih =>
    obtain ⟨e, refs, rfl, rfl, rfl⟩ := List.map_eq_cons_iff.mp hrs.symm
    subst hbr
    rw [followAll, if_neg hout, if_neg hfresh, if_neg hundef]
    have he := CycleSearch.Advance.skip (e := e) hs fun hdef => absurd hdef hundef
    refine he.exists_cons hnodup hnew fun hnew' => ?_
    exact ih hb refs rfl (fun e' he' => hmem e' (List.mem_cons_of_mem _ he'))
      (List.nodup_cons.mp hnodup).2 _ hnew' he.invariant rfl

/-- Entering a defined name keeps the invariant of a search without a branch. The name is done
afterwards, and what was done stays so. -/
theorem exists_enter {s : CycleSearch} {sites : List Site} {name : String}
    (hname : name ∈ c.names) (hs : s.Invariant c p sites []) :
    ∃ sites', (c.enter p s name).Invariant c p sites' [] ∧
      name ∈ (c.enter p s name).finished ∧ s.finished ⊆ (c.enter p s name).finished := by
  unfold enter
  split
  · exact ⟨sites, hs, ‹_›, List.Subset.refl _⟩
  · rename_i hfresh
    have hb : c.IsBranch p [name] :=
      ⟨List.nodup_singleton _, fun n hn => List.mem_singleton.mp hn ▸ hname, .singleton _⟩
    obtain ⟨new, h⟩ := exists_advance hb (c.placed p name) map_snd_placed.symm (fun _ he => he)
      placed_positions_nodup sites (fun _ _ => hs.not_reported List.not_mem_nil hfresh) hs.branchOff
    exact ⟨sites ++ new, h.invariant.finish h.followed, List.mem_cons_self,
      List.Subset.trans h.finished (List.subset_cons_self _ _)⟩

/-- Entering defined names one after the other settles them all, and what was done stays done.
Between two of them the branch is empty again, so that each entry starts like the first one. -/
theorem exists_enterAll {names : List String} (hnames : ∀ name ∈ names, name ∈ c.names)
    {s : CycleSearch} {sites : List Site} (hs : s.Invariant c p sites []) :
    ∃ sites', (names.foldl (c.enter p) s).Invariant c p sites' [] ∧
      names ⊆ (names.foldl (c.enter p) s).finished ∧
      s.finished ⊆ (names.foldl (c.enter p) s).finished := by
  induction names generalizing s sites with
  | nil => exact ⟨sites, hs, List.nil_subset _, List.Subset.refl _⟩
  | cons name names ih =>
    obtain ⟨sites₁, h₁, hdone, hsub₁⟩ := exists_enter (hnames name List.mem_cons_self) hs
    obtain ⟨sites₂, h₂, hall, hsub₂⟩ :=
      ih (fun n hn => hnames n (List.mem_cons_of_mem _ hn)) h₁
    exact ⟨sites₂, h₂, List.cons_subset.mpr ⟨hsub₂ hdone, hall⟩, List.Subset.trans hsub₁ hsub₂⟩

/-- When the search ends, all defined names are done. -/
theorem names_subset_finished (c : Catalog) (p : Policy) :
    c.names ⊆ (c.names.foldl (c.enter p) {}).finished := by
  obtain ⟨_, _, hall, _⟩ := exists_enterAll (fun _ hn => hn) (CycleSearch.Invariant.start c p)
  exact hall

/-- **What the search for cycles finds.** Each report is that of a field of its own that closes a
cycle, and the defined names can be ordered so that every other field refers to a later one. -/
theorem exists_settled_cycles (c : Catalog) (p : Policy) :
    ∃ sites order, sites.Nodup ∧ List.Forall₂ (c.Closes p) sites (c.cycles p) ∧
      c.Settled p sites order ∧ c.names ⊆ order := by
  obtain ⟨sites, h, hall, _⟩ := exists_enterAll (fun _ hn => hn) (CycleSearch.Invariant.start c p)
  exact ⟨sites, _, h.nodup, h.reports, h.settled, hall⟩

end Catalog
end RecordSchema
