import RecordSchema.Proofs.Merge.Pointwise

/-!
# Merging is commutative

A merge treats its sides unequally: it runs through the left one and looks for partners on the
right, then adds what is left over. Key by key the difference is gone. What two sides have under a
key merges to the same in either order, since the parts of a merged field are commutative and the
children are so by induction over levels. Only the order of fields and the wording of failures
tell which side was the left one.
-/

namespace RecordSchema

variable {p : Policy}

namespace Field

variable {l r f : Field} {t : FieldType} {cs ds : Option (List Field)}

/-- Two fields combined in either order are the same up to order when the children are: the lesser
name, the join of types and the union of annotations have no sides. -/
theorem combine_comm (h : Option.Rel Schema.SameUpToOrder cs ds) :
    (l.combine r t cs).SameUpToOrder (r.combine l t ds) := by
  have hname := Text.lesser_comm l.name r.name
  have hnullable := Bool.or_comm l.nullable r.nullable
  have hmetadata := Metadata.union_comm l.metadata r.metadata
  unfold combine
  rw [hname, hnullable, hmetadata]
  exact .of_nested h

/-- What the children of two fields merge to, they merge to in the other order, too. -/
def CommBelow (p : Policy) (x y : Option Schema) : Prop :=
  ∀ ls rs m : Schema, x = some ls → y = some rs → Schema.merge p ls rs = .ok m →
    ∃ n, Schema.merge p rs ls = .ok n ∧ Schema.SameUpToOrder m n

/-- Children merge in either order, to the same up to order, when schemas below do. For a type that
is no struct the result has no children, whichever side comes first. -/
theorem ChildrenMerged.comm {x y c : Option Schema} (h : CommBelow p x y)
    (hc : ChildrenMerged p t x y c) :
    ∃ d, ChildrenMerged p t y x d ∧ Option.Rel Schema.SameUpToOrder c d := by
  cases hc with
  | scalar _ _ ht => exact ⟨none, .scalar _ _ ht, .none⟩
  | struct ht hm =>
    obtain ⟨n, hn, hsame⟩ := h _ _ _ rfl rfl hm
    exact ⟨some n, .struct ht hn, .some hsame⟩

/-- Two fields merge in either order, to the same up to order, when their children do. Name,
nullability and metadata are combined by symmetric operations, so in these parts the results are
equal. -/
theorem Merged.comm (h : CommBelow p l.nested r.nested) (hlr : Merged p l r f) :
    ∃ g, Merged p r l g ∧ f.SameUpToOrder g := by
  obtain ⟨ht, hc⟩ := hlr
  obtain ⟨d, hd, hsame⟩ := hc.comm h
  rw [FieldType.join?_comm] at ht
  exact ⟨_, .intro ht hd, combine_comm hsame⟩

/-- Two slots merge to the same in either order. A field of one side only is carried over from
either. -/
theorem MergedSlot.comm {x y o : Option Field}
    (h : ∀ l r, x = some l → y = some r → CommBelow p l.nested r.nested)
    (ho : MergedSlot p x y o) : ∃ q, MergedSlot p y x q ∧ Option.Rel SameUpToOrder o q := by
  cases ho with
  | neither => exact ⟨_, .neither, .none⟩
  | left l => exact ⟨_, .right l, .some (.refl _)⟩
  | right r => exact ⟨_, .left r, .some (.refl _)⟩
  | both hlr =>
    obtain ⟨g, hg, hsame⟩ := hlr.comm (h _ _ rfl rfl)
    exact ⟨_, .both hg, .some hsame⟩

end Field

namespace Schema

variable {a b m : Schema}

/-- A merge that succeeds does so with its sides exchanged, to the same up to order. Used twice,
this is all of commutativity. -/
theorem exists_merge_swap (ha : a.DistinctNames p) (hb : b.DistinctNames p)
    (h : merge p a b = .ok m) : ∃ n, merge p b a = .ok n ∧ SameUpToOrder m n := by
  induction a using levelInduction generalizing b m with
  | step a ih =>
    have hna := ha.keys_nodup
    have hnb := hb.keys_nodup
    have hbelow : ∀ k l r, a.withKey? p k = some l → b.withKey? p k = some r →
        Field.CommBelow p l.nested r.nested :=
      fun k l r hl hr ls rs m hls hrs hm =>
        ih l (mem_of_withKey? hl) ls hls (ha.nested (mem_of_withKey? hl) hls)
          (hb.nested (mem_of_withKey? hr) hrs) hm
    exact exists_merge_sameUpToOrder hnb hna (keys_merge_nodup h hna hnb) fun k =>
      (merge_withKey? h k).comm (hbelow k)

/-- **Merging is commutative up to the order of fields, failures included.** Of two schemas
without repeated names at any level, either order merges when the other does, and then to the same
fields up to order, at every level. -/
theorem merge_comm (p : Policy) (a b : Schema) (ha : a.DistinctNames p) (hb : b.DistinctNames p) :
    SameOutcome (merge p a b) (merge p b a) := by
  refine .of_ok (fun m h => exists_merge_swap ha hb h) (fun m h => ?_)
  obtain ⟨n, hn, -⟩ := exists_merge_swap hb ha h
  exact ⟨n, hn⟩

/-- Two partitions that spell a name and the one of a Struct differently, disagree on an annotation
and have fields of their own at both levels. -/
theorem merge_comm_partitions :
    let p : Policy := { caseSensitive := false }
    let a := [(Field.scalar "ID" .int false).annotate "doc" "old",
      .struct "Owner" [.scalar "Name" .string false, .scalar "zip" .int false] false]
    let b := [Field.struct "owner" [.scalar "age" .short false, .scalar "NAME" .string true] false,
      (Field.scalar "id" .decimal false).annotate "doc" "new", .scalar "since" .date false]
    (DistinctNames p a ∧ DistinctNames p b) ∧ SameOutcome (merge p a b) (merge p b a) := by
  intro p a b
  have ha : DistinctNames p a := by decide +kernel
  have hb : DistinctNames p b := by decide +kernel
  exact ⟨⟨ha, hb⟩, merge_comm p a b ha hb⟩

end Schema
end RecordSchema
