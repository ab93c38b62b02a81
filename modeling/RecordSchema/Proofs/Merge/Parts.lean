import RecordSchema.Proofs.TextMap
import RecordSchema.Schema.Merge

/-!
# The parts of a merged field

A merge combines fields part by part: the lesser name, the join of the types, the union of the
annotations. Each of these operations on its own is idempotent, commutative and associative, and the
join is so where it is undefined: `a ∨ b` and `(a ∨ b) ∨ c` exist exactly when `b ∨ c` and
`a ∨ (b ∨ c)` do.
This holds because the types below any type form a chain, so that two of them are never
incompatible.

A union of annotations is determined by its look-ups (`TextMap.ext_find?`): under each key it has
the greater of the values that are there (`Metadata.find?_union`).
-/

namespace RecordSchema

namespace Text

/-- The lesser of two texts is their minimum, so the laws of a linear order are at hand for it. -/
theorem lesser_eq_min (a b : String) : lesser a b = min a b := by
  unfold lesser
  split
  · rename_i h
    exact (min_eq_right h.le).symm
  · rename_i h
    exact (min_eq_left (not_lt.mp h)).symm

/-- The greater of two texts is their maximum. -/
theorem greater_eq_max (a b : String) : greater a b = max a b := by
  unfold greater
  split
  · rename_i h
    exact (max_eq_right h.le).symm
  · rename_i h
    exact (max_eq_left (not_lt.mp h)).symm

/-- A merged name does not depend on which side is the left one. -/
theorem lesser_comm (a b : String) : lesser a b = lesser b a := by
  simp only [lesser_eq_min, min_comm]

/-- The greater of two texts does not depend on their order. -/
theorem greater_comm (a b : String) : greater a b = greater b a := by
  simp only [greater_eq_max, max_comm]

/-- The least of three texts does not depend on which two are compared first. -/
theorem lesser_assoc (a b c : String) : lesser (lesser a b) c = lesser a (lesser b c) := by
  simp only [lesser_eq_min, min_assoc]

/-- The greatest of three texts does not depend on which two are compared first. -/
theorem greater_assoc (a b c : String) : greater (greater a b) c = greater a (greater b c) := by
  simp only [greater_eq_max, max_assoc]

/-- A text is the lesser of itself and itself. -/
theorem lesser_self (s : String) : lesser s s = s := ite_self _

/-- A text is the greater of itself and itself. -/
theorem greater_self (s : String) : greater s s = s := ite_self _

/-- The lesser of two texts is one of them. So a merged name is spelled as on one of the sides and
needs no check of its own. -/
theorem lesser_eq_or (a b : String) : lesser a b = a ∨ lesser a b = b := by
  unfold lesser
  split
  · exact .inr rfl
  · exact .inl rfl

end Text

namespace FieldType

variable {a b c t u v : FieldType}

/-- One of the two types widens into the other. -/
def Comparable (a b : FieldType) : Prop := a.widensTo b = true ∨ b.widensTo a = true

/-- The types that widen into one type form a chain: of two of them one widens into the other. This
is what makes the join associative, and it is all that is checked by going through the types. -/
theorem comparable_of_widensTo (ha : a.widensTo t = true) (hb : b.widensTo t = true) :
    a.Comparable b := by
  have h : ∀ a ∈ all, ∀ t ∈ a.targets, ∀ b ∈ all, t ∈ b.targets →
      a = b ∨ b ∈ a.targets ∨ a ∈ b.targets := by decide
  rcases widensTo_iff.mp ha with rfl | hat
  · exact .inr hb
  · rcases widensTo_iff.mp hb with rfl | hbt
    · exact .inl ha
    · rcases h a (mem_all a) t hat b (mem_all b) hbt with rfl | hab | hba
      · exact .inl (widensTo_refl a)
      · exact .inl (widensTo_iff.mpr (.inr hab))
      · exact .inr (widensTo_iff.mpr (.inr hba))

/-- Only Structs widen into Structs, and they widen into nothing else. -/
theorem isStruct_of_widensTo (h : a.widensTo b = true) : a.isStruct = b.isStruct := by
  have htargets : ∀ a ∈ all, ∀ b ∈ a.targets, a.isStruct = b.isStruct := by decide
  rcases widensTo_iff.mp h with rfl | hb
  · rfl
  · exact htargets a (mem_all a) b hb

/-- There is one type of Structs. -/
theorem eq_struct_of_isStruct (h : a.isStruct = true) : a = struct := by
  cases a <;> first | rfl | exact nomatch h

/-- Any two Structs reconcile, so a conflict is never between them but only below them. -/
theorem comparable_of_isStruct (ha : a.isStruct = true) (hb : b.isStruct = true) :
    a.Comparable b := by
  rw [eq_struct_of_isStruct ha, eq_struct_of_isStruct hb]
  exact .inl (widensTo_refl struct)

/-- The join of two types is the one of them that the other widens into. It is a least upper bound
in the order of widening, where there is one. -/
theorem join?_eq_some_iff :
    a.join? b = some t ↔ a.widensTo t = true ∧ b.widensTo t = true ∧ (t = a ∨ t = b) := by
  have hjoin : a.join? b =
      if a.widensTo b then some b else if b.widensTo a then some a else none := by
    unfold join? widen widensTo
    by_cases hab : a = b
    · simp [hab]
    · cases ha : a.targets.contains b <;> cases hb : b.targets.contains a <;>
        simp [hab, Ne.symm hab]
  rw [hjoin]
  constructor
  · intro h
    split at h
    · rename_i hab
      cases h
      exact ⟨hab, widensTo_refl b, .inr rfl⟩
    · split at h
      · rename_i hba
        cases h
        exact ⟨widensTo_refl a, hba, .inl rfl⟩
      · exact nomatch h
  · rintro ⟨hat, hbt, rfl | rfl⟩
    · split
      · rename_i hab
        rw [widensTo_antisymm hab hbt]
      · rfl
    · rw [if_pos hat]

/-- The join of types is commutative, also in being undefined. -/
theorem join?_comm (a b : FieldType) : a.join? b = b.join? a := by
  ext t
  rw [join?_eq_some_iff, join?_eq_some_iff, Or.comm]
  exact and_left_comm

/-- A type joins with itself. -/
theorem join?_self (a : FieldType) : a.join? a = some a :=
  join?_eq_some_iff.mpr ⟨widensTo_refl a, widensTo_refl a, .inl rfl⟩

/-- Types of which one widens into the other have a join. -/
theorem Comparable.exists_join? (h : a.Comparable b) : ∃ t, a.join? b = some t := by
  rcases h with h | h
  · exact ⟨b, join?_eq_some_iff.mpr ⟨h, widensTo_refl b, .inr rfl⟩⟩
  · exact ⟨a, join?_eq_some_iff.mpr ⟨widensTo_refl a, h, .inl rfl⟩⟩

/-- Types with a join are comparable: the join is one of the two, and the other widens into it. -/
theorem comparable_of_join? (h : a.join? b = some t) : a.Comparable b := by
  obtain ⟨ha, hb, rfl | rfl⟩ := join?_eq_some_iff.mp h
  · exact .inr hb
  · exact .inl ha

/-- Types without a join are those of which neither widens into the other. Where two of them meet, a
merge fails with both types in its error. -/
theorem join?_eq_none_iff : a.join? b = none ↔ ¬ a.Comparable b := by
  constructor
  · intro h hcomparable
    obtain ⟨t, ht⟩ := hcomparable.exists_join?
    exact nomatch h.symm.trans ht
  · intro h
    rw [Option.eq_none_iff_forall_ne_some]
    exact fun t ht => h (comparable_of_join? ht)

/-- The join of three types, taken from the left, is the one that the others widen into. Stated
without brackets, the condition is the same for any way to bracket. -/
theorem join?_bind_eq_some_iff : ((a.join? b).bind fun t => t.join? c) = some u ↔
    a.widensTo u = true ∧ b.widensTo u = true ∧ c.widensTo u = true ∧ (u = a ∨ u = b ∨ u = c) := by
  rw [Option.bind_eq_some_iff]
  constructor
  · rintro ⟨t, ht, hu⟩
    obtain ⟨hat, hbt, htab⟩ := join?_eq_some_iff.mp ht
    obtain ⟨htu, hcu, hutc⟩ := join?_eq_some_iff.mp hu
    refine ⟨widensTo_trans hat htu, widensTo_trans hbt htu, hcu, ?_⟩
    rcases hutc with rfl | rfl
    · exact htab.imp_right .inl
    · exact .inr (.inr rfl)
  · rintro ⟨hau, hbu, hcu, hu⟩
    -- both lie below `u`, so one of them is the wider, and it lies below `u` too
    obtain ⟨t, ht⟩ := (comparable_of_widensTo hau hbu).exists_join?
    obtain ⟨hat, hbt, htab⟩ := join?_eq_some_iff.mp ht
    have htu : t.widensTo u = true := by rcases htab with rfl | rfl <;> assumption
    refine ⟨t, ht, join?_eq_some_iff.mpr ⟨htu, hcu, ?_⟩⟩
    rcases hu with rfl | rfl | rfl
    · exact .inl (widensTo_antisymm hat htu)
    · exact .inl (widensTo_antisymm hbt htu)
    · exact .inr rfl

/-- **The join of types is associative**, also in being undefined: if two of three types conflict,
no order of joining goes through. -/
theorem join?_assoc (a b c : FieldType) :
    ((a.join? b).bind fun t => t.join? c) = (b.join? c).bind fun t => a.join? t := by
  simp only [join?_comm a]
  ext u
  rw [join?_bind_eq_some_iff, join?_bind_eq_some_iff]
  tauto

/-- Only Structs join to a Struct, and they join to nothing else. -/
theorem isStruct_of_join? (h : a.join? b = some t) :
    a.isStruct = t.isStruct ∧ b.isStruct = t.isStruct := by
  obtain ⟨ha, hb, -⟩ := join?_eq_some_iff.mp h
  exact ⟨isStruct_of_widensTo ha, isStruct_of_widensTo hb⟩

/-- Types joined from the left can be joined from the right, to the same. -/
theorem join?_assoc_right (ht : a.join? b = some t) (hu : t.join? c = some u) :
    ∃ v, b.join? c = some v ∧ a.join? v = some u := by
  have hassoc := join?_assoc a b c
  rw [ht, Option.bind_some, hu] at hassoc
  exact Option.bind_eq_some_iff.mp hassoc.symm

/-- Types joined from the right can be joined from the left, to the same. -/
theorem join?_assoc_left (hv : b.join? c = some v) (hu : a.join? v = some u) :
    ∃ t, a.join? b = some t ∧ t.join? c = some u := by
  have hassoc := join?_assoc a b c
  rw [hv, Option.bind_some, hu] at hassoc
  exact Option.bind_eq_some_iff.mp hassoc

end FieldType

namespace Metadata

/-- The greater of two values that may be missing. -/
def greater? : Option String → Option String → Option String
  | none, y => y
  | x, none => x
  | some v, some w => some (Text.greater v w)

/-- A value beside a missing one stays. -/
theorem greater?_none (x : Option String) : greater? x none = x := by cases x <;> rfl

/-- A value beside itself stays, and a missing one stays missing. -/
theorem greater?_self (x : Option String) : greater? x x = x := by
  cases x <;> simp [greater?, Text.greater_self]

/-- The greater of two values, either of which may be missing, does not depend on their order. -/
theorem greater?_comm (x y : Option String) : greater? x y = greater? y x := by
  cases x <;> cases y <;> simp [greater?, Text.greater_comm]

/-- The greatest of three values, any of which may be missing, does not depend on which two are
compared first. -/
theorem greater?_assoc (x y z : Option String) :
    greater? (greater? x y) z = greater? x (greater? y z) := by
  cases x <;> cases y <;> cases z <;> simp [greater?, Text.greater_assoc]

/-- After entries with distinct keys have been united with what was there, each key has the greater
of the two values. The map that is written into is arbitrary, which carries the induction along the
entries. -/
theorem find?_foldl_update (k : String) :
    ∀ {l : List (String × String)} (m : Metadata), (l.Pairwise fun x y => x.1 < y.1) →
      (l.foldl (fun m e => m.update e.1 e.2 fun v => Text.greater v e.2) m).find? k =
        greater? (m.find? k) (TextMap.findIn k l)
  | [], m, _ => by rw [List.foldl_nil, TextMap.findIn, greater?_none]
  | (key, w) :: rest, m, h => by
    rw [List.pairwise_cons] at h
    rw [List.foldl_cons, find?_foldl_update k _ h.2, TextMap.findIn]
    split
    · rename_i hk
      subst hk
      rw [TextMap.findIn_eq_none_of_lt h.1, greater?_none, TextMap.find?_update_self]
      cases m.find? key <;> rfl
    · rename_i hk
      rw [TextMap.find?_update_of_ne _ _ _ (Ne.symm hk)]

/-- **A union has the greater of the values under each key**, and the only one where a side lacks
the key. The laws of unions follow from those of two values, key by key. -/
theorem find?_union (a b : Metadata) (k : String) :
    (union a b).find? k = greater? (a.find? k) (b.find? k) :=
  find?_foldl_update k a b.ascending

/-- Annotations united with themselves stay as they are. -/
theorem union_self (a : Metadata) : union a a = a := by
  refine TextMap.ext_find? fun k => ?_
  rw [find?_union, greater?_self]

/-- Which side's annotations come first does not matter. -/
theorem union_comm (a b : Metadata) : union a b = union b a := by
  refine TextMap.ext_find? fun k => ?_
  rw [find?_union, find?_union, greater?_comm]

/-- Which of three sides' annotations are united first does not matter. -/
theorem union_assoc (a b c : Metadata) : union (union a b) c = union a (union b c) := by
  refine TextMap.ext_find? fun k => ?_
  simp only [find?_union, greater?_assoc]

end Metadata
end RecordSchema
