import RecordSchema.Proofs.Schema.WellFormed

/-!
# Relaxing a policy

A policy relaxes another when it takes nothing for wrong that the other allows: not a name, not two
names side by side, not a Struct without children. So whatever is well-formed stays so when the
policy is relaxed.

When the delimiter stays, too, what is left of the violations of a schema are some of those it had,
in their order and with their paths (`Schema.violations_sublist`). A repeated name is one whose key
an earlier sibling has, and keys are not the same under the two policies: so the two runs over a
level are compared beside the names of the earlier siblings, not beside their keys.
-/

namespace RecordSchema

/-- `q` is nowhere stricter than `p`. Strict names may stay only over the same delimiter. -/
structure Policy.Relaxes (q p : Policy) : Prop where
  strictNames : q.strictNames = true → p.strictNames = true ∧ q.delimiter = p.delimiter
  allowEmptyStruct : p.allowEmptyStruct = true → q.allowEmptyStruct = true
  caseSensitive : p.caseSensitive = true → q.caseSensitive = true

variable {p q : Policy}

namespace Policy

/-- A name without fault stays so. Strict names of a relaxed policy reserve the delimiter that was
reserved before. -/
theorem Relaxes.nameFault? {name : String} (h : q.Relaxes p) (hname : p.nameFault? name = none) :
    q.nameFault? name = none := by
  obtain ⟨hempty, hstrict⟩ := nameFault?_eq_none_iff.mp hname
  refine nameFault?_eq_none_iff.mpr ⟨hempty, fun hq => ?_⟩
  obtain ⟨hp, hdelimiter⟩ := h.strictNames hq
  exact hdelimiter ▸ hstrict hp

/-- Names that are told apart stay so: two names with one key under the relaxed policy had one key
before. -/
theorem Relaxes.nameKey_eq {a b : String} (h : q.Relaxes p) (hkey : q.nameKey a = q.nameKey b) :
    p.nameKey a = p.nameKey b := by
  unfold nameKey at *
  cases hq : q.caseSensitive with
  | true =>
    rw [hq, if_pos rfl, if_pos rfl] at hkey
    rw [hkey]
  | false =>
    have hp : p.caseSensitive = false :=
      Bool.eq_false_iff.mpr fun hp => Bool.false_ne_true (hq.symm.trans (h.caseSensitive hp))
    rw [hp]
    rwa [hq] at hkey

end Policy

/-- Keys that are distinct stay so when the policy is relaxed. -/
theorem Schema.keys_nodup_of_relaxes {s : Schema} (h : q.Relaxes p) (hs : (s.keys p).Nodup) :
    (s.keys q).Nodup :=
  List.pairwise_map.mpr <| (List.pairwise_map.mp hs).imp fun hne hkey => hne (h.nameKey_eq hkey)

/-- A field that is proper in itself stays so when the policy is relaxed. -/
theorem Field.IsProper.relax {f : Field} (h : q.Relaxes p) (hf : f.IsProper p) : f.IsProper q where
  name := h.nameFault? hf.name
  shape := hf.shape
  children hnil := h.allowEmptyStruct (hf.children hnil)

/-- **A well-formed schema stays so when the policy is relaxed.** At each level names, keys and
shapes are looked at one by one, and none of the three becomes wrong. -/
theorem Schema.WellFormed.relax {s : Schema} (h : q.Relaxes p) (hs : s.WellFormed p) :
    s.WellFormed q := by
  intro t ht
  obtain ⟨hkeys, hproper⟩ := hs t ht
  exact ⟨keys_nodup_of_relaxes h hkeys, fun f hf => (hproper f hf).relax h⟩

section Violations

variable {name : String} {names : List String}

namespace Policy

/-- Paths are joined alike over one delimiter, whatever else the policies say. -/
theorem joinPath_congr (hd : q.delimiter = p.delimiter) (path : List String) :
    q.joinPath path = p.joinPath path := by
  rw [joinPath, joinPath, hd]

/-- The fault of a name goes away or stays as it is. That it does not become another fault needs the
same delimiter, which the fault mentions. -/
theorem Relaxes.nameFault?_eq (h : q.Relaxes p) (hd : q.delimiter = p.delimiter) :
    q.nameFault? name = none ∨ q.nameFault? name = p.nameFault? name := by
  rw [Policy.nameFault?, Policy.nameFault?, hd]
  cases hq : q.strictNames with
  | true =>
    obtain ⟨hp, -⟩ := h.strictNames hq
    rw [hp]
    exact .inr rfl
  | false =>
    by_cases hempty : name.isEmpty = true
    · rw [if_pos hempty, if_pos hempty]
      exact .inr rfl
    · rw [if_neg hempty]
      exact .inl rfl

/-- The problems of a name beside earlier siblings go away or stay as they are. The siblings are
given by their names, since the two policies may give them different keys. -/
theorem Relaxes.nameErrors_sublist (h : q.Relaxes p) (hd : q.delimiter = p.delimiter)
    (names : List String) (name : String) :
    (q.nameErrors (names.map q.nameKey) name).Sublist
      (p.nameErrors (names.map p.nameKey) name) := by
  refine List.Sublist.append ?_ ?_
  · rcases h.nameFault?_eq hd with hnone | heq
    · rw [hnone]
      exact List.nil_sublist _
    · rw [heq]
  · split
    · rename_i hrepeated
      obtain ⟨n, hn, hkey⟩ := List.mem_map.mp (List.contains_iff_mem.mp hrepeated)
      have hmem : p.nameKey name ∈ names.map p.nameKey :=
        List.mem_map.mpr ⟨n, hn, h.nameKey_eq hkey⟩
      rw [if_pos (List.contains_iff_mem.mpr hmem)]
    · exact List.nil_sublist _

/-- That a Struct has no children goes away or stays as it is. It goes away when the relaxed policy
allows this and the other did not. -/
theorem Relaxes.emptyStruct_sublist (h : q.Relaxes p) (isEmpty : Bool) (v : Violation) :
    (if isEmpty && !q.allowEmptyStruct then [v] else []).Sublist
      (if isEmpty && !p.allowEmptyStruct then [v] else []) := by
  cases hq : q.allowEmptyStruct with
  | true =>
    rw [Bool.not_true, Bool.and_false]
    exact List.nil_sublist _
  | false =>
    have hp : p.allowEmptyStruct = false :=
      Bool.eq_false_iff.mpr fun hp => Bool.false_ne_true (hq.symm.trans (h.allowEmptyStruct hp))
    rw [hp]

end Policy

mutual

/-- The violations of a field's shape and of what is below it go away or stay as they are. A
mismatch of type and children is wrong under any policy, so it is the same in both reports. -/
theorem Field.shapeViolations_sublist (h : q.Relaxes p) (hd : q.delimiter = p.delimiter)
    (path : List String) :
    (f : Field) → (f.shapeViolations q path).Sublist (f.shapeViolations p path)
  | ⟨name, type, nullable, metadata, none⟩ => by
    rw [Field.shapeViolations, Field.shapeViolations, Policy.joinPath_congr hd]
  | ⟨name, type, nullable, metadata, some fields⟩ => by
    rw [Field.shapeViolations, Field.shapeViolations, Policy.joinPath_congr hd]
    split
    · exact (h.emptyStruct_sublist _ _).append (Schema.levelViolations_sublist h hd path [] fields)
    · exact List.Sublist.refl _

/-- The violations of a level beside the siblings `names` go away or stay as they are, in their
order: at each field the name, the shape and what is below are reported one after the other by both
policies. -/
theorem Schema.levelViolations_sublist (h : q.Relaxes p) (hd : q.delimiter = p.delimiter)
    (path names : List String) :
    (s : List Field) → (Schema.levelViolations q path (names.map q.nameKey) s).Sublist
      (Schema.levelViolations p path (names.map p.nameKey) s)
  | [] => List.Sublist.refl _
  | f :: rest => by
    have hf := Field.shapeViolations_sublist h hd (path ++ [f.name]) f
    have hrest := Schema.levelViolations_sublist h hd path (f.name :: names) rest
    have hname := (h.nameErrors_sublist hd names f.name).map
      (Violation.mk (p.joinPath (path ++ [f.name])))
    rw [Schema.levelViolations, Schema.levelViolations, Policy.joinPath_congr hd]
    exact (hname.append hf).append hrest

end

/-- **The violations of a schema under a relaxed policy are some of those it had.** They keep their
order, their paths and their wording. -/
theorem Schema.violations_sublist (h : q.Relaxes p) (hd : q.delimiter = p.delimiter) (s : Schema) :
    (s.violations q).Sublist (s.violations p) :=
  Schema.levelViolations_sublist h hd [] [] s

end Violations

end RecordSchema
