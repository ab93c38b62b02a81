import Mathlib.Data.List.Nodup
import Mathlib.Data.List.Perm.Subperm
import RecordSchema.Catalog.Resolution

/-!
# Resolution on one stack

`Catalog.follow` hands each call the branch of names that led to it, and it ends because fewer and
fewer names are off the branch. Here the same work is done on one stack that all calls share: a
reference puts its target on the stack, builds the definition, and takes the target off again,
whether the building failed or not. Nothing in the recursion says that it ends. It may go `limit`
references deep, and there is no result when that is not enough.

A run that shares a stack is compared with a computation that has none by `Walk.Performs`: from a
sound stack the run ends, with what the computation gives, leaves the stack as it was, and has had
sound stacks only. Sequences of runs perform sequences of computations, so building performs
building by recursion over a definition, whatever the references do (`FieldDef.performs_build`).
References perform references by induction on the limit, as long as it is not below the number of
names off the stack (`Catalog.performs_follow`).
-/

namespace RecordSchema

/-- A stack of names, newest first, with a record of what it was before. -/
structure CallStack where
  names : List String := []
  past : List (List String) := []
  deriving DecidableEq

namespace CallStack

/-- Everything that the stack is or was, newest first. -/
def states (s : CallStack) : List (List String) := s.names :: s.past

/-- The stack with a name put on it. -/
def push (name : String) (s : CallStack) : CallStack := ⟨name :: s.names, s.states⟩

/-- The stack with the newest name taken off. -/
def pop (s : CallStack) : CallStack := ⟨s.names.tail, s.states⟩

end CallStack

/-- The names on a stack are defined, and none is there twice. -/
structure Catalog.IsStack (c : Catalog) (names : List String) : Prop where
  nodup : names.Nodup
  defined : names ⊆ c.names

/-- The stack is sound, and it always was. -/
def CallStack.Sound (c : Catalog) (s : CallStack) : Prop := ∀ names ∈ s.states, c.IsStack names

section CallStack

variable {c : Catalog} {s : CallStack} {name : String} {names : List String}

/-- A stack holds at most as many names as there are definitions, since it holds none of them
twice. -/
theorem Catalog.IsStack.length_le (h : c.IsStack names) : names.length ≤ c.names.length :=
  (h.nodup.subperm h.defined).length_le

/-- A stack without its newest name is one, too. -/
theorem Catalog.IsStack.tail (h : c.IsStack names) : c.IsStack names.tail :=
  ⟨h.nodup.sublist (List.tail_sublist names), fun _ hmem => h.defined (List.mem_of_mem_tail hmem)⟩

/-- What is on a sound stack now are defined names, none of them twice. -/
theorem CallStack.Sound.isStack (h : s.Sound c) : c.IsStack s.names := h _ List.mem_cons_self

/-- A defined name that is not on the stack can be put on it. -/
theorem CallStack.Sound.push (h : s.Sound c) (hdef : name ∈ c.names) (hnew : name ∉ s.names) :
    (s.push name).Sound c := by
  refine List.forall_mem_cons.mpr ⟨⟨?_, ?_⟩, h⟩
  · exact List.nodup_cons.mpr ⟨hnew, h.isStack.nodup⟩
  · exact List.cons_subset.mpr ⟨hdef, h.isStack.defined⟩

/-- The newest name can be taken off the stack. -/
theorem CallStack.Sound.pop (h : s.Sound c) : s.pop.Sound c :=
  List.forall_mem_cons.mpr ⟨h.isStack.tail, h⟩

end CallStack

/-- A computation that may fail, on a stack that is kept when it fails, and that may have no end. -/
abbrev Walk := ExceptT Error (StateT CallStack Option)

namespace Walk

variable {α β : Type}

/-- A computation that does not look at the stack. -/
def lift (x : Except Error α) : Walk α := ExceptT.mk (pure x)

/-- The names on the stack. -/
def stack : Walk (List String) := ExceptT.mk do return .ok (← get).names

/-- Puts a name on the stack, does `x`, and takes the name off, also when `x` has failed. -/
def within (name : String) (x : Walk α) : Walk α := ExceptT.mk do
  modify (CallStack.push name)
  let result ← x.run
  modify CallStack.pop
  return result

/-- There is no result. -/
def outOfDepth : Walk α := ExceptT.mk fun _ => none

/-- Where the stack is `names` and sound, `x` ends and gives what `y` gives. It leaves the stack as
it was, and what the stack was in between was sound. -/
def Performs (c : Catalog) (names : List String) (x : Walk α) (y : Except Error α) : Prop :=
  ∀ s : CallStack, s.names = names → s.Sound c →
    ∃ t : CallStack, x.run.run s = some (y, t) ∧ t.names = names ∧ t.Sound c

variable {c : Catalog} {name : String} {names : List String} {x : Walk α} {y : Except Error α}
variable {f : α → Walk β} {g : α → Except Error β}

/-- A result that is given at once is performed by giving it, with the stack untouched. -/
theorem Performs.lift (y : Except Error α) : Performs c names (Walk.lift y) y :=
  fun s hs hsound => ⟨s, rfl, hs, hsound⟩

/-- One run after another performs one computation after another. When the first fails, the second
is not run, and the stack is as it was all the same. -/
theorem Performs.bind (hx : Performs c names x y) (hf : ∀ a, Performs c names (f a) (g a)) :
    Performs c names (x >>= f) (y >>= g) := by
  intro s hs hsound
  obtain ⟨t, hrun, ht, htsound⟩ := hx s hs hsound
  cases y with
  | error e =>
    have hfails : (Except.error e >>= g) = .error e := rfl
    refine ⟨t, ?_, ht, htsound⟩
    simp [ExceptT.run_bind, hrun, hfails]
  | ok a =>
    have hcontinues : (Except.ok a >>= g) = g a := rfl
    obtain ⟨u, hrest, hu⟩ := hf a t ht htsound
    refine ⟨u, ?_, hu⟩
    simp [ExceptT.run_bind, hrun, hrest, hcontinues]

/-- A run whose result is changed performs the computation whose result is changed. -/
theorem Performs.map (f : α → β) (h : Performs c names x y) :
    Performs c names (f <$> x) (f <$> y) := by
  rw [← bind_pure_comp, ← bind_pure_comp]
  exact h.bind fun a => .lift (.ok (f a))

/-- A run may go on with what is on the stack. The names are those that the statement is about, so
they can be put in for what was read. -/
theorem Performs.stack_bind {f : List String → Walk β} {y : Except Error β}
    (h : Performs c names (f names) y) : Performs c names (stack >>= f) y := by
  intro s hs hsound
  obtain ⟨t, hrun, ht⟩ := h s hs hsound
  refine ⟨t, ?_, ht⟩
  subst hs
  simpa [ExceptT.run_bind, stack] using hrun

/-- What runs with one more defined name on the stack runs within that name. The name is taken off
again whether the run failed or not. -/
theorem Performs.within (hdef : name ∈ c.names) (hnew : name ∉ names)
    (h : Performs c (name :: names) x y) : Performs c names (Walk.within name x) y := by
  intro s hs hsound
  subst hs
  obtain ⟨t, hrun, ht, htsound⟩ := h (s.push name) rfl (hsound.push hdef hnew)
  refine ⟨t.pop, ?_, ?_, htsound.pop⟩
  · simp [Walk.within, hrun]
  · rw [CallStack.pop, ht, List.tail_cons]

end Walk

mutual

/-- `FieldDef.build` on a shared stack. -/
def FieldDef.buildStacked (p : Policy) (follow : String → String → Walk Schema)
    (parent : String) : FieldDef → Walk Field
  | ⟨name, type, nullable, metadata, reference, none⟩ => do
    let type ← Walk.lift (FieldType.ofText type)
    let nested ← match reference with
      | some r => some <$> follow (p.subpath parent name) r
      | none => pure none
    Walk.lift (Field.build p { name, type, nullable, metadata, nested })
  | ⟨name, type, nullable, metadata, reference, some children⟩ => do
    let type ← Walk.lift (FieldType.ofText type)
    match reference with
    | some _ => throw (.invalidField name .ambiguousNested)
    | none =>
      let fields ← FieldDef.buildEachStacked p follow (p.subpath parent name) children
      let nested ← Walk.lift (Schema.build p fields)
      Walk.lift (Field.build p { name, type, nullable, metadata, nested := some nested })

/-- `FieldDef.buildEach` on a shared stack. -/
def FieldDef.buildEachStacked (p : Policy) (follow : String → String → Walk Schema)
    (parent : String) : List FieldDef → Walk (List Field)
  | [] => return []
  | d :: rest => do
    let f ← d.buildStacked p follow parent
    let fields ← FieldDef.buildEachStacked p follow parent rest
    return f :: fields

end

/-- `Definition.build` on a shared stack. -/
def Definition.buildStacked (p : Policy) (follow : String → String → Walk Schema)
    (parent : String) (d : Definition) : Walk Schema := do
  let fields ← FieldDef.buildEachStacked p follow parent d
  Walk.lift (Schema.build p fields)

namespace Catalog

/-- What a reference to `target` at `path` stands for; `descend` goes into a definition. -/
def followVia (c : Catalog) (descend : String → Definition → Walk Schema) (path target : String) :
    Walk Schema := do
  let branch ← Walk.stack
  if target ∈ branch then throw (.cyclicSchema (cycleAlong branch target))
  else
    match c.find? target with
    | none => throw (.unknownReference path target)
    | some d => descend target d

/-- `Catalog.follow` on a shared stack, where references lead at most `limit` levels deep. -/
def followStacked (c : Catalog) (p : Policy) : Nat → String → String → Walk Schema
  | 0 => c.followVia fun _ _ => Walk.outOfDepth
  | limit + 1 => c.followVia fun target d =>
    Walk.within target (d.buildStacked p (c.followStacked p limit) target)

/-- `Catalog.resolve` on a shared stack, where references lead at most `limit` levels deep. -/
def resolveStacked (c : Catalog) (p : Policy) (limit : Nat) (name : String) :
    Option (Except Error Schema × CallStack) :=
  match c.find? name with
  | none => some (.error (.invalidSchema (.undefined name)), {})
  | some d => (d.buildStacked p (c.followStacked p limit) name).run.run { names := [name] }

end Catalog

section Performing

variable {c : Catalog} {p : Policy} {names : List String}
variable {follow : String → String → Walk Schema} {follow' : String → String → Except Error Schema}

mutual

/-- Building on a shared stack builds, when references do what they stand for. Each step of the
stacked walk is a bind, a lift or a reference, so the proof reads like the walk, and the mutual
recursion is that of a field and its children. -/
theorem FieldDef.performs_build
    (hfollow : ∀ path r, Walk.Performs c names (follow path r) (follow' path r)) (parent : String) :
    (d : FieldDef) → Walk.Performs c names (d.buildStacked p follow parent) (d.build p follow' parent)
  | ⟨name, type, nullable, metadata, reference, none⟩ => by
    rw [FieldDef.buildStacked, FieldDef.build]
    refine .bind (.lift _) fun type => ?_
    cases reference with
    | none => exact .bind (.lift (.ok none)) fun nested => .lift _
    | some r => exact .bind ((hfollow _ r).map some) fun nested => .lift _
  | ⟨name, type, nullable, metadata, reference, some children⟩ => by
    rw [FieldDef.buildStacked, FieldDef.build]
    refine .bind (.lift _) fun type => ?_
    cases reference with
    | some r => exact .lift (.error _)
    | none =>
      exact .bind (FieldDef.performs_buildEach hfollow _ children) fun fields =>
        .bind (.lift _) fun nested => .lift _

/-- Building one field after the other on a shared stack does so, too. After each field the stack is
as it was before, so the next one finds the same names on it. -/
theorem FieldDef.performs_buildEach
    (hfollow : ∀ path r, Walk.Performs c names (follow path r) (follow' path r)) (parent : String) :
    (d : List FieldDef) → Walk.Performs c names (FieldDef.buildEachStacked p follow parent d)
      (FieldDef.buildEach p follow' parent d)
  | [] => .lift (.ok [])
  | d :: rest => by
    rw [FieldDef.buildEachStacked, FieldDef.buildEach]
    exact .bind (d.performs_build hfollow parent) fun f =>
      .bind (FieldDef.performs_buildEach hfollow parent rest) fun fields => .lift (.ok (f :: fields))

end

/-- Building a definition on a shared stack builds the definition, when references do what they
stand for. -/
theorem Definition.performs_build
    (hfollow : ∀ path r, Walk.Performs c names (follow path r) (follow' path r)) (parent : String)
    (d : Definition) :
    Walk.Performs c names (d.buildStacked p follow parent) (d.build p follow' parent) :=
  .bind (FieldDef.performs_buildEach hfollow parent d) fun _ => .lift _

namespace Catalog

/-- A reference that leads to no new definition is a fault, on a shared stack as well. What remains
is the descent into a new one. -/
theorem performs_followVia {descend : String → Definition → Walk Schema} {path target : String}
    (h : ∀ d, target ∉ names → c.find? target = some d →
      Walk.Performs c names (descend target d) (c.follow p names path target)) :
    Walk.Performs c names (c.followVia descend path target) (c.follow p names path target) := by
  refine .stack_bind ?_
  by_cases hmem : target ∈ names
  · rw [if_pos hmem, follow_of_mem hmem]
    exact .lift (.error _)
  · rw [if_neg hmem]
    cases hfind : c.find? target with
    | none =>
      rw [follow_of_undefined hmem hfind]
      exact .lift (.error _)
    | some d => exact h d hmem hfind

/-- **A reference on a shared stack is followed**, when it may lead as many levels deep as there are
names off the stack. The induction is on the limit, and each level puts one of these names on the
stack. -/
theorem performs_follow {limit : Nat} (hlimit : c.unvisited names ≤ limit) (path target : String) :
    Walk.Performs c names (c.followStacked p limit path target) (c.follow p names path target) := by
  induction limit generalizing names path target with
  | zero =>
    refine performs_followVia fun d hnew hfind => ?_
    have hlt := unvisited_cons_lt (mem_names_of_find? hfind) hnew
    omega
  | succ limit ih =>
    refine performs_followVia fun d hnew hfind => ?_
    have hdef := mem_names_of_find? hfind
    have hlt := unvisited_cons_lt hdef hnew
    have hbelow : c.unvisited (target :: names) ≤ limit := by omega
    rw [follow_of_find? hnew hfind]
    exact .within hdef hnew (d.performs_build (ih hbelow) target)

/-- **Resolution on one stack.** It ends with what `resolve` gives, and at every time the stack
holds defined names, none of them twice. -/
theorem exists_resolveStacked (c : Catalog) (p : Policy) (name : String) :
    ∃ s, c.resolveStacked p c.names.length name = some (c.resolve p name, s) ∧ s.Sound c := by
  unfold resolveStacked
  cases hfind : c.find? name with
  | none =>
    refine ⟨{}, by rw [resolve_of_undefined p hfind], ?_⟩
    exact List.forall_mem_singleton.mpr ⟨List.nodup_nil, List.nil_subset _⟩
  | some d =>
    have hsound : CallStack.Sound c { names := [name] } :=
      List.forall_mem_singleton.mpr ⟨List.nodup_singleton name,
        List.cons_subset.mpr ⟨mem_names_of_find? hfind, List.nil_subset _⟩⟩
    have hlimit : c.unvisited [name] ≤ c.names.length := List.countP_le_length
    obtain ⟨s, hrun, -, hs⟩ := d.performs_build (performs_follow hlimit) name _ rfl hsound
    refine ⟨s, ?_, hs⟩
    rw [resolve_of_find? p hfind]
    exact hrun

/-- A definition `a` that refers to `b`, which refers back. -/
example :
    let toB : FieldDef := { name := "x", type := "struct", reference := some "b" }
    let toA : FieldDef := { name := "y", type := "struct", reference := some "a" }
    let c : Catalog := { definitions := TextMap.ofList [("a", [toB]), ("b", [toA])] }
    c.resolveStacked {} 2 "a" =
      some (.error (.cyclicSchema ["a", "b", "a"]), ⟨["a"], [["b", "a"], ["a"]]⟩) := by
  decide +kernel

end Catalog

end Performing

end RecordSchema
