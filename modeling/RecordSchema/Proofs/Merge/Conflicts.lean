import Mathlib.Data.List.Lex
import RecordSchema.Proofs.Merge.WellFormed

/-!
# Where a merge fails

Two schemas conflict where a chain of matched Structs leads from both of them to a matched pair of
fields whose types do not reconcile. `Schema.ConflictAt` says so without running a merge. It also
says where on the left side the pair stands: the position lists, level by level, how many fields
come before the one to go on with. Of two positions the one that comes first in a walk over the left
side, depth first, is the lesser one in lexicographic order (`Conflict.IsFirst`).

A merge of valid schemas fails exactly when they conflict, and it reports the first conflict
(`Schema.merge_fails_at_first_conflict`). The path that it reports is written down while it goes
down: below a path that is not empty a name is joined to what is there, and names of valid schemas
are never empty. Where case counts and no name contains the delimiter, the path leads back to the
two fields.
-/

namespace RecordSchema

/-- Two types that do not reconcile, and the names that lead to the fields that have them. -/
structure Conflict where
  names : List String
  left : FieldType
  right : FieldType

namespace Conflict

/-- The conflict as seen from the level of the field above it. -/
def under (name : String) (c : Conflict) : Conflict := { c with names := name :: c.names }

/-- The report of the conflict by a merge below a path. -/
def report (p : Policy) (path : List String) (c : Conflict) : Error :=
  .incompatibleTypes (p.joinPath (path ++ c.names)) c.left c.right

/-- Of the conflicts that there are, each at a position, none comes before `c`. -/
def IsFirst (conflicts : List Nat → Conflict → Prop) (c : Conflict) : Prop :=
  ∃ position, conflicts position c ∧
    ∀ position' c', conflicts position' c' → ¬ List.Lex (· < ·) position' position

/-- Where at most one conflict stands at a position, at most one is the first, since positions are
in a linear order. -/
theorem IsFirst.unique {conflicts : List Nat → Conflict → Prop} {c c' : Conflict}
    (hone : ∀ position c c', conflicts position c → conflicts position c' → c = c')
    (h : IsFirst conflicts c) (h' : IsFirst conflicts c') : c = c' := by
  obtain ⟨position, hc, hfirst⟩ := h
  obtain ⟨position', hc', hfirst'⟩ := h'
  have heq : position = position' :=
    Std.Trichotomous.trichotomous position position' (hfirst' _ _ hc) (hfirst _ _ hc')
  subst heq
  exact hone position c c' hc hc'

end Conflict

mutual

/-- Two matched fields conflict, in their own types or further down. -/
inductive Field.ConflictAt (p : Policy) : Field → Field → List Nat → Conflict → Prop
  | types {l r : Field} : ¬ l.type.Comparable r.type →
    Field.ConflictAt p l r [] ⟨[Text.lesser l.name r.name], l.type, r.type⟩
  | children {l r : Field} {ls rs : List Field} {position : List Nat} {c : Conflict} :
    l.isStruct = true → r.isStruct = true → l.nested = some ls → r.nested = some rs →
    Schema.ConflictAt p ls rs position c →
    Field.ConflictAt p l r position (c.under (Text.lesser l.name r.name))

/-- Two fields of these levels that match conflict; the one on the left is the `i`-th. -/
inductive Schema.ConflictAt (p : Policy) : List Field → List Field → List Nat → Conflict → Prop
  | matched {a b : List Field} {i : Nat} {l r : Field} {position : List Nat} {c : Conflict} :
    a[i]? = some l → r ∈ b → p.nameKey l.name = p.nameKey r.name →
    Field.ConflictAt p l r position c → Schema.ConflictAt p a b (i :: position) c

end

mutual

/-- At each position two fields have at most one conflict. The field on the right is told by the one
on the left, for which names have to be distinct among its siblings. -/
theorem Field.ConflictAt.unique {p : Policy} {l r : Field} {position : List Nat}
    {c c' : Conflict} : Field.ConflictAt p l r position c →
      (∀ t : Schema, r.nested = some t → t.DistinctNames p) →
        Field.ConflictAt p l r position c' → c = c'
  | .types hnot, _, h' => by
    cases h' with
    | types => rfl
    | children hl hr => exact absurd (FieldType.comparable_of_isStruct hl hr) hnot
  | .children hl hr hls hrs h, hdistinct, h' => by
    cases h' with
    | types hnot => exact absurd (FieldType.comparable_of_isStruct hl hr) hnot
    | children _ _ hls' hrs' h' =>
      obtain rfl := Option.some.inj (hls.symm.trans hls')
      obtain rfl := Option.some.inj (hrs.symm.trans hrs')
      rw [h.unique (hdistinct _ hrs) h']

/-- At each position two schemas have at most one conflict, when names are distinct on the right.
The position tells the field of the left side, and its key the one of the right. -/
theorem Schema.ConflictAt.unique {p : Policy} {a b : Schema} {position : List Nat}
    {c c' : Conflict} : Schema.ConflictAt p a b position c → b.DistinctNames p →
      Schema.ConflictAt p a b position c' → c = c'
  | .matched hi hr hkey h, hb, h' => by
    obtain ⟨hi', hr', hkey', h'⟩ := h'
    obtain rfl := Option.some.inj (hi.symm.trans hi')
    obtain rfl := List.inj_on_of_nodup_map hb.keys_nodup hr hr' (hkey.symm.trans hkey')
    exact h.unique (fun t ht => hb.nested hr ht) h'

end

section NoConflict

variable {p : Policy} {a b m : Schema} {l r f : Field} {x : Option Field}

/-- Fields that merge do not conflict, when their children do not as far as these merge. Their types
have a join and so are comparable; a conflict below needs children on both sides, which then were
merged. -/
theorem Field.Merged.not_conflictAt (h : Field.Merged p l r f)
    (hbelow : ∀ ls rs m : Schema, l.nested = some ls → r.nested = some rs →
      Schema.merge p ls rs = .ok m → ∀ position c, ¬ Schema.ConflictAt p ls rs position c)
    (position : List Nat) (c : Conflict) : ¬ Field.ConflictAt p l r position c := by
  obtain ⟨hjoin, hchildren⟩ := h
  intro hconflict
  cases hconflict with
  | types hnot => exact hnot (FieldType.comparable_of_join? hjoin)
  | @children _ _ ls rs _ _ hl hr hls hrs hconflict =>
    rw [hls, hrs] at hchildren
    cases hchildren with
    | struct _ hm => exact hbelow ls rs _ hls hrs hm _ _ hconflict
    | scalar _ _ ht =>
      have hstruct := (FieldType.isStruct_of_join? hjoin).1.symm.trans hl
      exact absurd (ht.symm.trans hstruct) Bool.false_ne_true

/-- A field whose slot has a result merges with each field that it matches; with distinct keys this
is one field. -/
theorem Field.MergedSlot.exists_merged
    (h : Field.MergedSlot p (some l) (b.withKey? p (p.nameKey l.name)) x)
    (hb : (b.keys p).Nodup) (hr : r ∈ b) (hkey : p.nameKey l.name = p.nameKey r.name) :
    ∃ f, Field.Merged p l r f := by
  rw [hkey, Schema.withKey?_of_mem hb hr] at h
  cases h with
  | both hmerged => exact ⟨_, hmerged⟩

/-- Schemas that merge do not conflict, at any depth. So a conflict anywhere makes a merge fail.
Distinct keys are needed, since under a key a merge looks at the first field of the right side
only. -/
theorem Schema.not_conflictAt_of_merge (ha : a.DistinctNames p) (hb : b.DistinctNames p)
    (h : Schema.merge p a b = .ok m) (position : List Nat) (c : Conflict) :
    ¬ Schema.ConflictAt p a b position c := by
  induction a using Schema.levelInduction generalizing b m position c with
  | step a ih =>
    rintro ⟨hi, hr, hkey, hconflict⟩
    rename_i i l r position
    have hl := List.mem_of_getElem? hi
    have hslot := Schema.merge_withKey? h (p.nameKey l.name)
    rw [Schema.withKey?_of_mem ha.keys_nodup hl] at hslot
    obtain ⟨f, hf⟩ := hslot.exists_merged hb.keys_nodup hr hkey
    refine hf.not_conflictAt (fun ls rs m hls hrs hm => ?_) _ _ hconflict
    exact ih l hl ls hls (ha.nested hl hls) (hb.nested hr hrs) hm

end NoConflict

section First

variable {p : Policy} {a b rest : Schema} {l r : Field} {c : Conflict} {e : Error}
variable {parent : String} {path : List String}

/-- A merge of two fields of proper shape fails at their types or below them. The third reason, a
Struct without children on one side, is excluded by the shape. -/
theorem Field.merge_eq_error (hl : l.nested.isSome = l.isStruct)
    (hr : r.nested.isSome = r.isStruct) (h : Field.merge p parent r l = .error e) :
    (¬ l.type.Comparable r.type ∧
        e = .incompatibleTypes (p.subpath parent (Text.lesser l.name r.name)) l.type r.type) ∨
      ∃ ls rs, l.isStruct = true ∧ r.isStruct = true ∧ l.nested = some ls ∧ r.nested = some rs ∧
        Schema.mergeInto p (p.subpath parent (Text.lesser l.name r.name)) rs ls = .error e := by
  rw [Field.merge_eq] at h
  cases hjoin : l.type.join? r.type with
  | none =>
    rw [hjoin] at h
    exact .inl ⟨FieldType.join?_eq_none_iff.mp hjoin, (Except.error.inj h).symm⟩
  | some t =>
    obtain ⟨hstruct, hstruct'⟩ := FieldType.isStruct_of_join? hjoin
    rw [hjoin] at h
    have hchildren := map_eq_error_iff.mp h
    unfold Field.mergeChildren at hchildren
    cases ht : t.isStruct with
    | false =>
      rw [ht, if_neg Bool.false_ne_true] at hchildren
      cases hchildren
    | true =>
      obtain ⟨ls, hls⟩ := Option.isSome_iff_exists.mp (hl.trans (hstruct.trans ht))
      obtain ⟨rs, hrs⟩ := Option.isSome_iff_exists.mp (hr.trans (hstruct'.trans ht))
      refine .inr ⟨ls, rs, hstruct.trans ht, hstruct'.trans ht, hls, hrs, ?_⟩
      rw [hls, hrs, if_pos ht, map_eq_error_iff] at hchildren
      rcases bind_eq_error_iff.mp hchildren with hinto | ⟨_, _, hpure⟩
      · exact hinto
      · cases hpure

/-- Merging a level fails at its first field or, if this merges, at the others. The error is thus
that of the first field that does not merge. -/
theorem Schema.mergeInto_cons_eq_error_iff :
    Schema.mergeInto p parent b (l :: rest) = .error e ↔
      l.mergeMatched p parent (b.withKey? p (p.nameKey l.name)) = .error e ∨
        (∃ f, l.mergeMatched p parent (b.withKey? p (p.nameKey l.name)) = .ok f) ∧
          Schema.mergeInto p parent b rest = .error e := by
  rw [Schema.mergeInto_cons, cons_eq_error_iff]

/-- A conflict in the types of two fields is their first one: it stands at the empty position, and
nothing comes before that. -/
theorem Field.isFirst_types (h : ¬ l.type.Comparable r.type) :
    Conflict.IsFirst (Field.ConflictAt p l r)
      ⟨[Text.lesser l.name r.name], l.type, r.type⟩ :=
  ⟨[], .types h, fun _ _ _ => List.not_lex_nil⟩

/-- The first conflict among the children of two Structs is their first one, since their types do
not conflict. -/
theorem Field.isFirst_children {ls rs : Schema} (hl : l.isStruct = true) (hr : r.isStruct = true)
    (hls : l.nested = some ls) (hrs : r.nested = some rs)
    (h : Conflict.IsFirst (Schema.ConflictAt p ls rs) c) :
    Conflict.IsFirst (Field.ConflictAt p l r) (c.under (Text.lesser l.name r.name)) := by
  obtain ⟨position, hc, hfirst⟩ := h
  refine ⟨position, .children hl hr hls hrs hc, fun position' c' hc' => ?_⟩
  cases hc' with
  | types hnot => exact absurd (FieldType.comparable_of_isStruct hl hr) hnot
  | children _ _ hls' hrs' hc' =>
    obtain rfl := Option.some.inj (hls.symm.trans hls')
    obtain rfl := Option.some.inj (hrs.symm.trans hrs')
    exact hfirst _ _ hc'

/-- The first conflict of the first field of a level is the first one of the level. A conflict at
another position comes after it, and at position zero the field of the other side is determined by
its key. -/
theorem Schema.isFirst_head (hb : (b.keys p).Nodup) (hr : r ∈ b)
    (hkey : p.nameKey l.name = p.nameKey r.name)
    (h : Conflict.IsFirst (Field.ConflictAt p l r) c) :
    Conflict.IsFirst (Schema.ConflictAt p (l :: rest) b) c := by
  obtain ⟨position, hc, hfirst⟩ := h
  refine ⟨0 :: position, .matched rfl hr hkey hc, ?_⟩
  rintro _ c' ⟨hi, hr', hkey', hc'⟩
  rename_i i l' r' position'
  cases i with
  | zero =>
    obtain rfl : l = l' := Option.some.inj hi
    obtain rfl := List.inj_on_of_nodup_map hb hr hr' (hkey.symm.trans hkey')
    rw [List.cons_lex_cons_iff]
    rintro (hlt | ⟨-, hlex⟩)
    · exact absurd hlt (Nat.lt_irrefl 0)
    · exact hfirst _ _ hc' hlex
  | succ i =>
    rw [List.cons_lex_cons_iff]
    omega

/-- Where the first field of a level has no conflict, the first one among the other fields is the
first one of the level. -/
theorem Schema.isFirst_tail
    (hl : ∀ r ∈ b, p.nameKey l.name = p.nameKey r.name →
      ∀ position c, ¬ Field.ConflictAt p l r position c)
    (h : Conflict.IsFirst (Schema.ConflictAt p rest b) c) :
    Conflict.IsFirst (Schema.ConflictAt p (l :: rest) b) c := by
  obtain ⟨_, ⟨hi, hr, hkey, hc⟩, hfirst⟩ := h
  rename_i i l₀ r₀ position
  refine ⟨(i + 1) :: position, .matched hi hr hkey hc, ?_⟩
  rintro _ c' ⟨hi', hr', hkey', hc'⟩
  rename_i i' l' r' position'
  cases i' with
  | zero =>
    obtain rfl : l = l' := Option.some.inj hi'
    exact absurd hc' (hl r' hr' hkey' _ _)
  | succ i' =>
    have hlater := hfirst _ _ (.matched hi' hr' hkey' hc')
    rwa [List.cons_lex_cons_iff, Nat.succ_lt_succ_iff, Nat.succ_inj, ← List.cons_lex_cons_iff]

end First

section Report

variable {p : Policy} {a b : Schema} {l r : Field} {e : Error} {path : List String}

/-- A merge of two fields that fails reports their first conflict, when merges of their children do.
The path is given by its names, none of which is the empty text for the root. -/
theorem Field.exists_first_of_merge (hl : l.WellFormed p) (hr : r.WellFormed p)
    (hpath : path.head? ≠ some "") (h : Field.merge p (p.joinPath path) r l = .error e)
    (hbelow : ∀ (ls rs : Schema) (path : List String), l.nested = some ls → r.nested = some rs →
      path.head? ≠ some "" → Schema.mergeInto p (p.joinPath path) rs ls = .error e →
        ∃ c, Conflict.IsFirst (Schema.ConflictAt p ls rs) c ∧ e = c.report p path) :
    ∃ c, Conflict.IsFirst (Field.ConflictAt p l r) c ∧ e = c.report p path := by
  have hsub : p.subpath (p.joinPath path) (Text.lesser l.name r.name) =
      p.joinPath (path ++ [Text.lesser l.name r.name]) := Policy.subpath_joinPath hpath
  rcases Field.merge_eq_error hl.proper.shape hr.proper.shape h with
    ⟨hnot, rfl⟩ | ⟨ls, rs, hls, hrs, hln, hrn, hrest⟩
  · exact ⟨_, Field.isFirst_types hnot, by rw [hsub]; rfl⟩
  · have hname := Policy.nameFault?_lesser hl.proper.name hr.proper.name
    have hhead : (path ++ [Text.lesser l.name r.name]).head? ≠ some "" := by
      cases path with
      | nil => exact fun h => (Policy.nameFault?_eq_none_iff.mp hname).1 (Option.some.inj h)
      | cons first path => exact hpath
    rw [hsub] at hrest
    obtain ⟨c, hfirst, rfl⟩ := hbelow ls rs _ hln hrn hhead hrest
    refine ⟨_, Field.isFirst_children hls hrs hln hrn hfirst, ?_⟩
    rw [Conflict.report, Conflict.report, Conflict.under, List.append_assoc, List.singleton_append]

/-- **A merge that fails reports the first conflict.** The walk over the left side, depth first,
meets positions in their order, so the first field that does not merge has the first conflict. -/
theorem Schema.exists_first_of_mergeInto (ha : ∀ l ∈ a, l.WellFormed p) (hb : b.WellFormed p)
    (hpath : path.head? ≠ some "") (h : Schema.mergeInto p (p.joinPath path) b a = .error e) :
    ∃ c, Conflict.IsFirst (Schema.ConflictAt p a b) c ∧ e = c.report p path := by
  induction a using Schema.levelInduction generalizing b path e with
  | step a ih =>
    -- the outer induction goes down the levels, this one along the fields of one
    induction a with
    | nil => exact nomatch h
    | cons l rest ihrest =>
      obtain ⟨hl, hrest⟩ := List.forall_mem_cons.mp ha
      rcases Schema.mergeInto_cons_eq_error_iff.mp h with h | ⟨⟨f, hf⟩, h⟩
      · cases hr : b.withKey? p (p.nameKey l.name) with
        | none =>
          rw [hr] at h
          exact nomatch h
        | some r =>
          rw [hr] at h
          have hmem := Schema.mem_of_withKey? hr
          obtain ⟨c, hfirst, he⟩ := Field.exists_first_of_merge hl (hb.field hmem) hpath h
            fun ls rs path hls hrs hpath h =>
              ih l List.mem_cons_self ls hls (fun f hf => (hl.below ls hls).field hf)
                (hb.nested hmem hrs) hpath h
          have hkey := (Schema.key_of_withKey? hr).symm
          exact ⟨c, Schema.isFirst_head hb.keys_nodup hmem hkey hfirst, he⟩
      · obtain ⟨c, hfirst, he⟩ := ihrest (fun f hf => ih f (List.mem_cons_of_mem _ hf)) hrest h
        refine ⟨c, Schema.isFirst_tail (fun r hr hkey position c => ?_) hfirst, he⟩
        have hslot := Field.mergeMatched_eq_ok_iff.mp hf
        obtain ⟨g, hg⟩ := hslot.exists_merged hb.keys_nodup hr hkey
        refine hg.not_conflictAt (fun ls rs m hls hrs hm => ?_) position c
        exact Schema.not_conflictAt_of_merge (hl.below ls hls).distinctNames
          (hb.nested hr hrs).distinctNames hm

end Report

section Place

variable {p : Policy} {a b : Schema} {l r : Field} {position : List Nat} {c : Conflict}

/-- Where case counts, a name is its own key, and look-ups by name and by key are the same. Paths
are looked up by name, but merging goes by key. -/
theorem Schema.field?_eq_withKey? (hcase : p.caseSensitive = true) (s : Schema) (name : String) :
    s.field? name = s.withKey? p name := by
  unfold Schema.field? Schema.withKey? Policy.nameKey
  refine List.find?_congr fun f _ => ?_
  rw [if_pos hcase]
  exact Bool.beq_comm

/-- A conflict of two fields names at least these. -/
theorem Field.ConflictAt.names_ne_nil (h : Field.ConflictAt p l r position c) : c.names ≠ [] := by
  cases h with
  | types => exact List.cons_ne_nil _ _
  | children => exact List.cons_ne_nil _ _

/-- A conflict of two schemas names at least one field. -/
theorem Schema.ConflictAt.names_ne_nil (h : Schema.ConflictAt p a b position c) :
    c.names ≠ [] := by
  obtain ⟨-, -, -, h⟩ := h
  exact h.names_ne_nil

mutual

/-- The names that lead to a conflict of well-formed fields are proper, as each is the name of a
field on one of the sides. -/
theorem Field.ConflictAt.nameFault? {l r : Field} {position : List Nat} {c : Conflict} :
    Field.ConflictAt p l r position c → l.WellFormed p → r.WellFormed p →
      ∀ name ∈ c.names, p.nameFault? name = none
  | .types _, hl, hr => by
    have hname := Policy.nameFault?_lesser hl.proper.name hr.proper.name
    exact List.forall_mem_singleton.mpr hname
  | .children _ _ hls hrs h, hl, hr => by
    have hname := Policy.nameFault?_lesser hl.proper.name hr.proper.name
    exact List.forall_mem_cons.mpr ⟨hname, h.nameFault? (hl.below _ hls) (hr.below _ hrs)⟩

/-- The names that lead to a conflict of well-formed schemas are proper. Under strict names their
path can be cut again. -/
theorem Schema.ConflictAt.nameFault? {a b : Schema} {position : List Nat} {c : Conflict} :
    Schema.ConflictAt p a b position c → a.WellFormed p → b.WellFormed p →
      ∀ name ∈ c.names, p.nameFault? name = none
  | .matched hi hr _ h, ha, hb =>
    h.nameFault? (ha.field (List.mem_of_getElem? hi)) (hb.field hr)

end

mutual

/-- Where case counts, the names that lead to a conflict of two fields lead from any levels that
these are on to fields of the two types. The levels are arbitrary, so that the induction can go down
from either side. -/
theorem Field.ConflictAt.fieldAlong? {l r : Field} {position : List Nat} {c : Conflict} :
    Field.ConflictAt p l r position c → p.caseSensitive = true → l.WellFormed p →
      r.WellFormed p → l.name = r.name → ∀ s t : Schema, s.field? l.name = some l →
        t.field? r.name = some r → (s.fieldAlong? c.names).map Field.type = some c.left ∧
          (t.fieldAlong? c.names).map Field.type = some c.right
  | .types _, _, _, _, hname, s, t, hs, ht => by
    rw [← hname] at ht ⊢
    rw [Text.lesser_self, Schema.fieldAlong?, Schema.fieldAlong?, hs, ht]
    exact ⟨rfl, rfl⟩
  | .children _ _ hls hrs h, hcase, hl, hr, hname, s, t, hs, ht => by
    rw [← hname] at ht ⊢
    rw [Conflict.under, Text.lesser_self,
      Schema.fieldAlong?_cons_of_nested hs hls h.names_ne_nil,
      Schema.fieldAlong?_cons_of_nested ht hrs h.names_ne_nil]
    exact h.fieldAlong? hcase (hl.below _ hls) (hr.below _ hrs)

/-- Where case counts, the names that lead to a conflict lead to fields of the two types, in both
schemas. -/
theorem Schema.ConflictAt.fieldAlong? {a b : Schema} {position : List Nat} {c : Conflict} :
    Schema.ConflictAt p a b position c → p.caseSensitive = true → a.WellFormed p →
      b.WellFormed p → (a.fieldAlong? c.names).map Field.type = some c.left ∧
        (b.fieldAlong? c.names).map Field.type = some c.right
  | @Schema.ConflictAt.matched _ _ _ _ l r _ _ hi hr hkey h, hcase, ha, hb => by
    have hl := List.mem_of_getElem? hi
    have hname : ∀ name, p.nameKey name = name := fun _ => if_pos hcase
    refine h.fieldAlong? hcase (ha.field hl) (hb.field hr) ?_ a b ?_ ?_
    · rwa [hname, hname] at hkey
    · have hfound := Schema.withKey?_of_mem ha.keys_nodup hl
      rwa [hname, ← Schema.field?_eq_withKey? hcase] at hfound
    · have hfound := Schema.withKey?_of_mem hb.keys_nodup hr
      rwa [hname, ← Schema.field?_eq_withKey? hcase] at hfound

end

end Place

namespace Schema

/-- **A merge fails exactly where two valid schemas conflict, and it says where.** There is an error
exactly when a chain of matched Structs leads to a matched pair of fields of which neither type
widens into the other. The error names the one that comes first in a walk over the left side, depth
first, with the two types; so it is never one about the shape of a field. Where case counts and
names are strict, its path leads in both schemas to fields of these types. -/
theorem merge_fails_at_first_conflict (p : Policy) (a b : Schema) (ha : a.isValid p = true)
    (hb : b.isValid p = true) :
    ((∃ e, merge p a b = .error e) ↔ ∃ position c, ConflictAt p a b position c) ∧
      ∀ e, merge p a b = .error e →
        (∀ path type hasNested, e ≠ .structuralMismatch path type hasNested) ∧
        ∃ c, Conflict.IsFirst (ConflictAt p a b) c ∧
          (∀ c', Conflict.IsFirst (ConflictAt p a b) c' → c' = c) ∧
          e = .incompatibleTypes (p.joinPath c.names) c.left c.right ∧
          (p.caseSensitive = true → p.strictNames = true →
            (a.fieldAt? (p.joinPath c.names) p.delimiter).map Field.type = some c.left ∧
              (b.fieldAt? (p.joinPath c.names) p.delimiter).map Field.type = some c.right) := by
  have hwa := isValid_iff.mp ha
  have hwb := isValid_iff.mp hb
  have hfirst : ∀ e, merge p a b = .error e →
      ∃ c, Conflict.IsFirst (ConflictAt p a b) c ∧ e = c.report p [] := by
    intro e he
    rcases bind_eq_error_iff.mp he with h | ⟨_, _, h⟩
    · exact exists_first_of_mergeInto (fun l hl => hwa.field hl) hwb nofun h
    · exact nomatch h
  refine ⟨⟨?_, ?_⟩, fun e he => ?_⟩
  · rintro ⟨e, he⟩
    obtain ⟨c, ⟨position, hc, -⟩, -⟩ := hfirst e he
    exact ⟨position, c, hc⟩
  · rintro ⟨position, c, hc⟩
    cases h : merge p a b with
    | error e => exact ⟨e, rfl⟩
    | ok m =>
      exact absurd hc (not_conflictAt_of_merge hwa.distinctNames hwb.distinctNames h position c)
  · obtain ⟨c, hc, rfl⟩ := hfirst e he
    have hone : ∀ c', Conflict.IsFirst (ConflictAt p a b) c' → c' = c := fun c' hc' =>
      hc'.unique (fun _ _ _ h h' => h.unique hwb.distinctNames h') hc
    refine ⟨fun _ _ _ => nofun, c, hc, hone, rfl, fun hcase hstrict => ?_⟩
    obtain ⟨position, hat, -⟩ := hc
    have hsplit : Text.split p.delimiter (p.joinPath c.names) = c.names :=
      Text.split_join hat.names_ne_nil fun name hname =>
        (Policy.nameFault?_eq_none_iff.mp (hat.nameFault? hwa hwb name hname)).2 hstrict
    rw [fieldAt?, fieldAt?, hsplit]
    exact hat.fieldAlong? hcase hwa hwb

/-- Two conflicts, of which the one that is deeper down comes first on the left and last on the
right. The one that is first on the left is reported. -/
theorem merge_fails_at_first_conflict_nested :
    let p : Policy := { strictNames := true, delimiter := '/' }
    let a := [Field.struct "owner" [.scalar "since" .date true,
      .struct "home" [.scalar "zip" .int false] false] false, .scalar "id" .long false]
    let b := [Field.scalar "id" .boolean false, .struct "owner" [.scalar "name" .string false,
      .struct "home" [.scalar "zip" .string false] true, .scalar "since" .date false] false]
    let e := Error.incompatibleTypes "owner/home/zip" .int .string
    (isValid p a = true ∧ isValid p b = true) ∧ merge p a b = .error e ∧
      (∃ position c, ConflictAt p a b position c) ∧
      (fieldAt? a "owner/home/zip" '/').map Field.type = some .int ∧
      (fieldAt? b "owner/home/zip" '/').map Field.type = some .string := by
  intro p a b e
  have ha : isValid p a = true := by decide +kernel
  have hb : isValid p b = true := by decide +kernel
  have he : merge p a b = .error e := by decide +kernel
  obtain ⟨hiff, hreport⟩ := merge_fails_at_first_conflict p a b ha hb
  obtain ⟨-, c, -, -, hpath, hplace⟩ := hreport e he
  obtain ⟨hpath, hleft, hright⟩ := Error.incompatibleTypes.inj hpath
  rw [← hpath, ← hleft, ← hright] at hplace
  exact ⟨⟨ha, hb⟩, he, hiff.mp ⟨e, he⟩, hplace rfl rfl⟩

end Schema

end RecordSchema
