import RecordSchema.Proofs.Catalog.CycleSearch
import RecordSchema.Proofs.Catalog.StackedResolution
import RecordSchema.Proofs.TextMap

/-!
# The search for cycles on one stack

`Catalog.followAll` hands the branch of names from call to call. Here all calls share a stack
instead: `Catalog.findCycles` puts a name on it, follows the references of the name, takes the name
off and is done with it. It has no result when it is called more than `limit` levels deep.

One invariant holds between any two steps (`StackedSearch.Sound`): the stack is sound and always
was, and the names that were ever entered are, each once, those on the stack and those that are
done. Entering a new name keeps it, and so do a report and leaving the name on top. The search with
a stack then follows the search without one step by step (`Catalog.exists_follow`), and at its end,
where the stack is empty and all defined names are done, these are the names entered.
-/

namespace RecordSchema

/-- A search for cycles with its stack, and the names that were entered, newest first. -/
structure StackedSearch where
  calls : CallStack := {}
  entered : List String := []
  search : CycleSearch := {}

namespace StackedSearch

/-- Puts a name on the stack. -/
def enter (name : String) (s : StackedSearch) : StackedSearch :=
  { s with calls := s.calls.push name, entered := name :: s.entered }

/-- Reports the cycle that a reference to a name on the stack closes. -/
def report (r : Reference) (s : StackedSearch) : StackedSearch :=
  { s with search := { s.search with
      found := s.search.found ++ [⟨r.path, .cyclicSchema (cycleAlong s.calls.names r.target)⟩] } }

/-- Takes the newest name off the stack and is done with `name`. -/
def leave (name : String) (s : StackedSearch) : StackedSearch :=
  { s with
    calls := s.calls.pop
    search := { s.search with finished := name :: s.search.finished } }

/-- The stack is sound and always was, and the names entered are, each once, those on the stack
and those that are done. -/
structure Sound (c : Catalog) (s : StackedSearch) : Prop where
  calls : s.calls.Sound c
  entered : s.entered.Perm (s.calls.names ++ s.search.finished)
  nodup : s.entered.Nodup
  defined : s.entered ⊆ c.names

end StackedSearch

namespace Catalog

/-- Follows one reference of the name on top of the stack; `descend` enters a new name. -/
def followOne (c : Catalog) (descend : String → StackedSearch → Option StackedSearch)
    (s : StackedSearch) (r : Reference) : Option StackedSearch :=
  if r.target ∈ s.calls.names then some (s.report r)
  else if r.target ∉ s.search.finished ∧ r.target ∈ c.names then descend r.target s
  else some s

/-- Enters a name and follows its references, at most `limit` levels deep. -/
def findCycles (c : Catalog) (p : Policy) : Nat → String → StackedSearch → Option StackedSearch
  | 0, _, _ => none
  | limit + 1, name, s => do
    let t ← (c.references p name).foldlM (c.followOne (c.findCycles p limit)) (s.enter name)
    return t.leave name

/-- Enters a name unless it is done. -/
def enterStacked (c : Catalog) (p : Policy) (limit : Nat) (s : StackedSearch) (name : String) :
    Option StackedSearch :=
  if name ∈ s.search.finished then some s else c.findCycles p limit name s

/-- `Catalog.violations` with a search for cycles on one stack. -/
def violationsStacked (c : Catalog) (p : Policy) (limit : Nat) :
    Option (List Violation × StackedSearch) := do
  let s ← c.names.foldlM (c.enterStacked p limit) {}
  return (c.definitions.entries.flatMap (fun e => Definition.levelViolations c p e.1 [] e.2) ++
    s.search.found, s)

end Catalog

namespace StackedSearch

variable {c : Catalog} {s : StackedSearch} {name : String}

/-- A report changes neither the stack nor what has been entered. -/
theorem Sound.report (h : s.Sound c) (r : Reference) : (s.report r).Sound c :=
  ⟨h.calls, h.entered, h.nodup, h.defined⟩

/-- A name that is neither on the stack nor done has not been entered. -/
theorem Sound.not_entered (h : s.Sound c) (hnew : name ∉ s.calls.names)
    (hfresh : name ∉ s.search.finished) : name ∉ s.entered := by
  rw [h.entered.mem_iff, List.mem_append]
  exact fun hmem => hmem.elim hnew hfresh

/-- A defined name that is neither on the stack nor done can be entered; it is entered for the first
time. -/
theorem Sound.enter (h : s.Sound c) (hdef : name ∈ c.names) (hnew : name ∉ s.calls.names)
    (hfresh : name ∉ s.search.finished) : (s.enter name).Sound c where
  calls := h.calls.push hdef hnew
  entered := h.entered.cons name
  nodup := List.nodup_cons.mpr ⟨h.not_entered hnew hfresh, h.nodup⟩
  defined := List.cons_subset.mpr ⟨hdef, h.defined⟩

/-- The name in front of the stack can be left; it is done then, and what has been entered stays the
same. -/
theorem Sound.leave {rest : List String} (h : s.Sound c) (hnames : s.calls.names = name :: rest) :
    (s.leave name).Sound c where
  calls := h.calls.pop
  entered := by
    have hentered := h.entered
    rw [hnames] at hentered
    have hpop : (s.leave name).calls.names = rest := congrArg List.tail hnames
    rw [hpop]
    exact hentered.trans List.perm_middle.symm
  nodup := h.nodup
  defined := h.defined

end StackedSearch

namespace Catalog

variable {c : Catalog} {p : Policy}

/-- **The search on one stack takes the steps of the search without one.** With as many levels to
go as there are names off the stack, following references ends, with the stack as it was. -/
theorem exists_follow (branch : List String) (refs : List Reference) (search : CycleSearch)
    {s : StackedSearch} {limit : Nat} (hs : s.Sound c) (hbranch : s.calls.names = branch)
    (hsearch : s.search = search) (hlimit : c.unvisited branch ≤ limit) :
    ∃ t, refs.foldlM (c.followOne (c.findCycles p limit)) s = some t ∧ t.Sound c ∧
      t.calls.names = branch ∧ t.search = c.followAll p branch refs search := by
  induction branch, refs, search using followAll.induct (c := c) (p := p)
    generalizing s limit with
  | case1 branch search =>
    rw [followAll]
    exact ⟨s, rfl, hs, hbranch, hsearch⟩
  | case2 branch r rest search hback ih =>
    rw [followAll, if_pos hback]
    have hstep : c.followOne (c.findCycles p limit) s r = some (s.report r) :=
      if_pos (hbranch ▸ hback)
    have hreport : (s.report r).search = { search with
        found := search.found ++ [⟨r.path, .cyclicSchema (cycleAlong branch r.target)⟩] } := by
      rw [StackedSearch.report, hbranch, hsearch]
    rw [List.foldlM_cons, hstep]
    exact ih (hs.report r) hbranch hreport hlimit
  | case3 branch r rest search hout hdone ih =>
    rw [followAll, if_neg hout, if_pos hdone]
    have hstep : c.followOne (c.findCycles p limit) s r = some s := by
      rw [followOne, hbranch, if_neg hout, hsearch, if_neg (fun h => h.1 hdone)]
    rw [List.foldlM_cons, hstep]
    exact ih hs hbranch hsearch hlimit
  | case4 branch r rest search hout hfresh hdef t ihenter =>
    rename_i ih
    rw [followAll, if_neg hout, if_neg hfresh, if_pos hdef]
    have hlt := unvisited_cons_lt hdef hout
    obtain ⟨limit, rfl⟩ : ∃ k, limit = k + 1 := ⟨limit - 1, by omega⟩
    have hbelow : c.unvisited (r.target :: branch) ≤ limit := by omega
    have henter : (s.enter r.target).Sound c :=
      hs.enter hdef (hbranch ▸ hout) (hsearch ▸ hfresh)
    obtain ⟨u, hu, hsound, hnames, hfollowed⟩ :=
      ihenter henter (congrArg (List.cons r.target) hbranch) hsearch hbelow
    have hstep : c.followOne (c.findCycles p (limit + 1)) s r = some (u.leave r.target) := by
      rw [followOne, hbranch, if_neg hout, hsearch, if_pos ⟨hfresh, hdef⟩, findCycles, hu]
      rfl
    rw [List.foldlM_cons, hstep]
    refine ih (hsound.leave hnames) (congrArg List.tail hnames) ?_ hlimit
    rw [StackedSearch.leave, hfollowed]
  | case5 branch r rest search hout hfresh hundef ih =>
    rw [followAll, if_neg hout, if_neg hfresh, if_neg hundef]
    have hstep : c.followOne (c.findCycles p limit) s r = some s := by
      rw [followOne, hbranch, if_neg hout, if_neg (fun h => hundef h.2)]
    rw [List.foldlM_cons, hstep]
    exact ih hs hbranch hsearch hlimit

/-- With nothing on the stack a name is entered and left again, unless it is done. The depth
allowed, the number of definitions, is enough since the name itself is no longer unvisited: below it
one call fewer is left, and one name fewer to meet. -/
theorem exists_enterStacked {name : String} {s : StackedSearch} (hs : s.Sound c)
    (hempty : s.calls.names = []) (hdef : name ∈ c.names) :
    ∃ t, c.enterStacked p c.names.length s name = some t ∧ t.Sound c ∧ t.calls.names = [] ∧
      t.search = c.enter p s.search name := by
  unfold enterStacked enter
  by_cases hdone : name ∈ s.search.finished
  · rw [if_pos hdone, if_pos hdone]
    exact ⟨s, rfl, hs, hempty, rfl⟩
  · rw [if_neg hdone, if_neg hdone]
    have hnew : name ∉ ([] : List String) := List.not_mem_nil
    have hlt : c.unvisited [name] < c.unvisited [] := unvisited_cons_lt hdef hnew
    have hle : c.unvisited [] ≤ c.names.length := List.countP_le_length
    obtain ⟨limit, hlimit⟩ : ∃ k, c.names.length = k + 1 := ⟨c.names.length - 1, by omega⟩
    have hbelow : c.unvisited [name] ≤ limit := by omega
    obtain ⟨t, ht, hsound, hnames, hfollowed⟩ :=
      exists_follow (p := p) [name] (c.references p name) s.search
        (hs.enter hdef (hempty ▸ hnew) hdone) (congrArg (List.cons name) hempty) rfl hbelow
    refine ⟨t.leave name, ?_, hsound.leave hnames, congrArg List.tail hnames, ?_⟩
    · rw [hlimit, findCycles, ht]
      rfl
    · rw [StackedSearch.leave, hfollowed]

/-- Defined names are entered one after the other, each with nothing on the stack. What the walk on
one stack keeps in its search is what the search with a branch of its own keeps. -/
theorem exists_enterEach {names : List String} {s : StackedSearch} (hnames : names ⊆ c.names)
    (hs : s.Sound c) (hempty : s.calls.names = []) :
    ∃ t, names.foldlM (c.enterStacked p c.names.length) s = some t ∧ t.Sound c ∧
      t.calls.names = [] ∧ t.search = names.foldl (c.enter p) s.search := by
  induction names generalizing s with
  | nil => exact ⟨s, rfl, hs, hempty, rfl⟩
  | cons name names ih =>
    obtain ⟨hdef, hnames⟩ := List.cons_subset.mp hnames
    obtain ⟨t, ht, hsound, hnone, hsearch⟩ := exists_enterStacked (p := p) hs hempty hdef
    rw [List.foldlM_cons, List.foldl_cons, ht, ← hsearch]
    exact ih hnames hsound hnone

/-- Following references leaves the stack as it was when what they lead to does: a reference that
closes a cycle is only noted, and one that leads nowhere new is passed over. -/
theorem names_eq_of_foldlM {descend : String → StackedSearch → Option StackedSearch}
    {refs : List Reference} {s t : StackedSearch}
    (hdescend : ∀ name s t, descend name s = some t → t.calls.names = s.calls.names)
    (h : refs.foldlM (c.followOne descend) s = some t) : t.calls.names = s.calls.names := by
  induction refs generalizing s with
  | nil => rw [Option.some.inj h]
  | cons r refs ih =>
    rw [List.foldlM_cons] at h
    obtain ⟨u, hu, hrest⟩ := Option.bind_eq_some_iff.mp h
    rw [ih hrest]
    unfold followOne at hu
    split at hu
    · obtain rfl := Option.some.inj hu
      rfl
    · split at hu
      · exact hdescend _ _ _ hu
      · rw [Option.some.inj hu]

/-- **A call leaves the stack as it found it**, whatever there was on it, sound or not: each name
that is put on is taken off at the end of its call. -/
theorem names_eq_of_findCycles {limit : Nat} {name : String} {s t : StackedSearch}
    (h : c.findCycles p limit name s = some t) : t.calls.names = s.calls.names := by
  induction limit generalizing name s t with
  | zero => exact nomatch h
  | succ limit ih =>
    obtain ⟨u, hu, hleave⟩ := Option.bind_eq_some_iff.mp h
    obtain rfl := Option.some.inj hleave
    have hnames : u.calls.names = name :: s.calls.names :=
      names_eq_of_foldlM (fun _ _ _ hcall => ih hcall) hu
    exact congrArg List.tail hnames

end Catalog

end RecordSchema
