import RecordSchema.Proofs.Merge.Pointwise

/-!
# Merging is associative

Merging three schemas from the left or from the right comes to the same up to the order of fields,
also in failing. Since a merge is settled key by key, it is enough to look at three slots. Where
one of them is empty, what counts is that a mark for missing values, once set, stays. Where all
three hold fields, the parts of the merged field are associative one by one, and the children are
so by induction over levels.
-/

namespace RecordSchema

variable {p : Policy}

namespace Field

variable {l m r f g : Field} {t u : FieldType} {cs ds : Option (List Field)}

/-- Marking the right side as nullable marks what the two fields combine to. -/
theorem combine_asNullable_right : l.combine r.asNullable t cs = (l.combine r t cs).asNullable := by
  simp [combine, asNullable]

/-- Marking the left side as nullable marks the merged field. This is needed where one of three
schemas lacks a field: it does not matter when that was noticed. -/
theorem merged_asNullable_left_iff :
    Merged p l.asNullable r f ↔ ∃ g, Merged p l r g ∧ f = g.asNullable := by
  constructor
  · rintro ⟨hj, hcs⟩
    exact ⟨_, .intro hj hcs, rfl⟩
  · rintro ⟨_, ⟨hj, hcs⟩, rfl⟩
    exact .intro (l := l.asNullable) hj hcs

/-- Marking the right side as nullable marks the merged field. Nothing else depends on the mark, so
whether the fields merge is the same question. -/
theorem merged_asNullable_right_iff :
    Merged p l r.asNullable f ↔ ∃ g, Merged p l r g ∧ f = g.asNullable := by
  constructor
  · rintro ⟨hj, hcs⟩
    exact ⟨_, .intro (r := r) hj hcs, combine_asNullable_right⟩
  · rintro ⟨_, ⟨hj, hcs⟩, rfl⟩
    rw [← combine_asNullable_right]
    exact .intro (r := r.asNullable) hj hcs

/-- Two ways to combine three fields give the same up to order when the children are. The types that
are joined on the way do not show in the result. -/
theorem combine_combine (h : Option.Rel Schema.SameUpToOrder cs ds) (t' u' : FieldType)
    (cs' ds' : Option (List Field)) :
    ((l.combine m t' cs').combine r t cs).SameUpToOrder (l.combine (m.combine r u' ds') t ds) := by
  have hname := Text.lesser_assoc l.name m.name r.name
  have hnullable := Bool.or_assoc l.nullable m.nullable r.nullable
  have hmetadata := Metadata.union_assoc l.metadata m.metadata r.metadata
  unfold combine
  simp only [hname, hnullable, hmetadata]
  exact .of_nested h

/-- The children of three fields, where all have some, are merged associatively. -/
def AssocBelow (p : Policy) (x y z : Option Schema) : Prop :=
  ∀ ls ms rs : Schema, x = some ls → y = some ms → z = some rs →
    Schema.SameOutcome (do let ab ← Schema.merge p ls ms; Schema.merge p ab rs)
      (do let bc ← Schema.merge p ms rs; Schema.merge p ls bc)

section Children

variable {x y z c d : Option Schema} {v : FieldType}

/-- Children of three fields merged from the left can be merged from the right, to the same up to
order, when schemas below can. That the types on the way are alike Structs says whether there are
children. -/
theorem ChildrenMerged.assoc_right (h : AssocBelow p x y z) (hvu : v.isStruct = u.isStruct)
    (hc : ChildrenMerged p t x y c) (hd : ChildrenMerged p u c z d) :
    ∃ c' d', ChildrenMerged p v y z c' ∧ ChildrenMerged p u x c' d' ∧
      Option.Rel Schema.SameUpToOrder d d' := by
  cases hd with
  | scalar _ _ hu => exact ⟨none, none, .scalar _ _ (hvu.trans hu), .scalar _ _ hu, .none⟩
  | struct hu habc =>
    cases hc with
    | struct _ hab =>
      obtain ⟨abc', hm, hsame⟩ :=
        (h _ _ _ rfl rfl rfl).ok_left (bind_eq_ok_iff.mpr ⟨_, hab, habc⟩)
      obtain ⟨bc, hbc, habc'⟩ := bind_eq_ok_iff.mp hm
      exact ⟨some bc, some abc', .struct (hvu.trans hu) hbc, .struct hu habc', .some hsame⟩

/-- Children of three fields merged from the right can be merged from the left. What this gives need
not be said, as it follows from the other direction. -/
theorem ChildrenMerged.assoc_left (h : AssocBelow p x y z) (htu : t.isStruct = u.isStruct)
    (hc : ChildrenMerged p v y z c) (hd : ChildrenMerged p u x c d) :
    ∃ c' d', ChildrenMerged p t x y c' ∧ ChildrenMerged p u c' z d' := by
  cases hd with
  | scalar _ _ hu => exact ⟨none, none, .scalar _ _ (htu.trans hu), .scalar _ _ hu⟩
  | struct hu habc =>
    cases hc with
    | struct _ hbc =>
      obtain ⟨abc', hm⟩ := (h _ _ _ rfl rfl rfl).ok_right (bind_eq_ok_iff.mpr ⟨_, hbc, habc⟩)
      obtain ⟨ab, hab, habc'⟩ := bind_eq_ok_iff.mp hm
      exact ⟨some ab, some abc', .struct (htu.trans hu) hab, .struct hu habc'⟩

end Children

/-- Three fields merged from the left can be merged from the right, to the same up to order: their
types join, and their children merge, in either way. -/
theorem Merged.assoc_right (h : AssocBelow p l.nested m.nested r.nested) (hlm : Merged p l m g)
    (hgr : Merged p g r f) : ∃ g' f', Merged p m r g' ∧ Merged p l g' f' ∧ f.SameUpToOrder f' := by
  obtain ⟨ht, hc⟩ := hlm
  obtain ⟨hu, hd⟩ := hgr
  obtain ⟨v, hv, hu'⟩ := FieldType.join?_assoc_right ht hu
  have hvu := (FieldType.isStruct_of_join? hu').2
  obtain ⟨c', d', hc', hd', hsame⟩ := hc.assoc_right h hvu hd
  exact ⟨_, _, .intro hv hc', .intro (r := m.combine r v c') hu' hd', combine_combine hsame ..⟩

/-- Three fields merged from the right can be merged from the left. Types go by the associativity of
joins and children by the hypothesis; name, nullability and metadata are combined whatever the
order. -/
theorem Merged.assoc_left (h : AssocBelow p l.nested m.nested r.nested) (hmr : Merged p m r g)
    (hlg : Merged p l g f) : ∃ g' f', Merged p l m g' ∧ Merged p g' r f' := by
  obtain ⟨hv, hc⟩ := hmr
  obtain ⟨hu, hd⟩ := hlg
  obtain ⟨t, ht, hu'⟩ := FieldType.join?_assoc_left hv hu
  have htu := (FieldType.isStruct_of_join? hu').1
  obtain ⟨c', d', hc', hd'⟩ := hc.assoc_left h htu hd
  exact ⟨_, _, .intro ht hc', .intro (l := l.combine m t c') hu' hd'⟩

section Slots

variable {x y z o q : Option Field}

/-- Three slots merged from the left can be merged from the right. There are eight cases by which
slots are empty, and only that of three fields asks for anything below. -/
theorem MergedSlot.assoc_right
    (h : ∀ l m r, x = some l → y = some m → z = some r → AssocBelow p l.nested m.nested r.nested)
    (hxy : MergedSlot p x y o) (hoz : MergedSlot p o z q) :
    ∃ o' q', MergedSlot p y z o' ∧ MergedSlot p x o' q' ∧ Option.Rel SameUpToOrder q q' := by
  cases hxy with
  | neither =>
    cases hoz with
    | neither => exact ⟨_, _, .neither, .neither, .none⟩
    | right r => exact ⟨_, _, .right r, .right _, .some (.refl _)⟩
  | left l =>
    cases hoz with
    | left => exact ⟨_, _, .neither, .left l, .some (.refl _)⟩
    | both hlr =>
      obtain ⟨f, hf, rfl⟩ := merged_asNullable_left_iff.mp hlr
      exact ⟨_, _, .right _, .both (merged_asNullable_right_iff.mpr ⟨f, hf, rfl⟩),
        .some (.refl _)⟩
  | right m =>
    cases hoz with
    | left => exact ⟨_, _, .left m, .right _, .some (.refl _)⟩
    | both hmr =>
      obtain ⟨f, hf, rfl⟩ := merged_asNullable_left_iff.mp hmr
      exact ⟨_, _, .both hf, .right f, .some (.refl _)⟩
  | both hlm =>
    cases hoz with
    | left =>
      exact ⟨_, _, .left _, .both (merged_asNullable_right_iff.mpr ⟨_, hlm, rfl⟩),
        .some (.refl _)⟩
    | both hgr =>
      obtain ⟨g', f', hg', hf', hsame⟩ := hlm.assoc_right (h _ _ _ rfl rfl rfl) hgr
      exact ⟨_, _, .both hg', .both hf', .some hsame⟩

/-- Three slots merged from the right can be merged from the left. Where a side is missing the field
of the other two is made nullable, once or twice, and where none is missing it is the associativity
of merging fields, assumed here of their children. -/
theorem MergedSlot.assoc_left
    (h : ∀ l m r, x = some l → y = some m → z = some r → AssocBelow p l.nested m.nested r.nested)
    (hyz : MergedSlot p y z o) (hxo : MergedSlot p x o q) :
    ∃ o' q', MergedSlot p x y o' ∧ MergedSlot p o' z q' := by
  cases hyz with
  | neither =>
    cases hxo with
    | neither => exact ⟨_, _, .neither, .neither⟩
    | left l => exact ⟨_, _, .left l, .left _⟩
  | left m =>
    cases hxo with
    | right => exact ⟨_, _, .right m, .left _⟩
    | both hlm =>
      obtain ⟨f, hf, rfl⟩ := merged_asNullable_right_iff.mp hlm
      exact ⟨_, _, .both hf, .left f⟩
  | right r =>
    cases hxo with
    | right => exact ⟨_, _, .neither, .right r⟩
    | both hlr =>
      obtain ⟨f, hf, rfl⟩ := merged_asNullable_right_iff.mp hlr
      exact ⟨_, _, .left _, .both (merged_asNullable_left_iff.mpr ⟨f, hf, rfl⟩)⟩
  | both hmr =>
    cases hxo with
    | right => exact ⟨_, _, .right _, .both (merged_asNullable_left_iff.mpr ⟨_, hmr, rfl⟩)⟩
    | both hlg =>
      obtain ⟨g', f', hg', hf'⟩ := hmr.assoc_left (h _ _ _ rfl rfl rfl) hlg
      exact ⟨_, _, .both hg', .both hf'⟩

end Slots

end Field

namespace Schema

variable {a b c : Schema}

/-- **Merging is associative up to the order of fields, failures included.** Of three schemas
without repeated names at any level, merging the first two and then the third succeeds exactly
when merging the first with the merge of the others does, and then both give the same fields up
to order, at every level. -/
theorem merge_assoc (p : Policy) (a b c : Schema) (ha : a.DistinctNames p)
    (hb : b.DistinctNames p) (hc : c.DistinctNames p) :
    SameOutcome (do let ab ← merge p a b; merge p ab c) (do let bc ← merge p b c; merge p a bc) := by
  induction a using levelInduction generalizing b c with
  | step a ih =>
    have hbelow : ∀ k l m r, a.withKey? p k = some l → b.withKey? p k = some m →
        c.withKey? p k = some r → Field.AssocBelow p l.nested m.nested r.nested :=
      fun k l m r hl hm hr ls ms rs hls hms hrs =>
        ih l (mem_of_withKey? hl) ls hls ms rs (ha.nested (mem_of_withKey? hl) hls)
          (hb.nested (mem_of_withKey? hm) hms) (hc.nested (mem_of_withKey? hr) hrs)
    have hna := ha.keys_nodup
    have hnb := hb.keys_nodup
    have hnc := hc.keys_nodup
    refine .of_ok (fun m h => ?_) (fun m h => ?_)
    · obtain ⟨ab, hab, hm⟩ := bind_eq_ok_iff.mp h
      -- under each key the three slots can be regrouped, and the regrouped results are the merges
      have hslots := fun k => Field.MergedSlot.assoc_right (hbelow k)
        (merge_withKey? hab k) (merge_withKey? hm k)
      obtain ⟨bc, hbc⟩ : ∃ bc, merge p b c = .ok bc :=
        exists_merge hnb fun k =>
          let ⟨o, _, ho, _⟩ := hslots k
          ⟨o, ho⟩
      have hnm := keys_merge_nodup hm (keys_merge_nodup hab hna hnb) hnc
      obtain ⟨n, hn, hsame⟩ : ∃ n, merge p a bc = .ok n ∧ SameUpToOrder m n := by
        refine exists_merge_sameUpToOrder hna (keys_merge_nodup hbc hnb hnc) hnm fun k => ?_
        obtain ⟨o, q, ho, hq, hsame⟩ := hslots k
        obtain rfl := ho.unique (merge_withKey? hbc k)
        exact ⟨q, hq, hsame⟩
      exact ⟨n, bind_eq_ok_iff.mpr ⟨bc, hbc, hn⟩, hsame⟩
    · obtain ⟨bc, hbc, hm⟩ := bind_eq_ok_iff.mp h
      have hslots := fun k => Field.MergedSlot.assoc_left (hbelow k)
        (merge_withKey? hbc k) (merge_withKey? hm k)
      obtain ⟨ab, hab⟩ : ∃ ab, merge p a b = .ok ab :=
        exists_merge hna fun k =>
          let ⟨o, _, ho, _⟩ := hslots k
          ⟨o, ho⟩
      obtain ⟨n, hn⟩ : ∃ n, merge p ab c = .ok n := by
        refine exists_merge (keys_merge_nodup hab hna hnb) fun k => ?_
        obtain ⟨o, q, ho, hq⟩ := hslots k
        obtain rfl := ho.unique (merge_withKey? hab k)
        exact ⟨q, hq⟩
      exact ⟨n, bind_eq_ok_iff.mpr ⟨ab, hab, hn⟩⟩

/-- Three partitions of one source that spell their names differently, nest a Struct in two of them
and meet in Decimal. Both ways to merge them succeed. -/
theorem merge_assoc_partitions :
    let p : Policy := { caseSensitive := false }
    let a := [Field.scalar "ID" .long false,
      .struct "Owner" [.scalar "Name" .string false] false]
    let b := [Field.struct "owner" [.scalar "NAME" .string true, .scalar "age" .short false] false,
      .scalar "id" .int false]
    let c := [Field.scalar "Id" .decimal false, .scalar "since" .date false]
    (DistinctNames p a ∧ DistinctNames p b ∧ DistinctNames p c) ∧
      SameOutcome (do let ab ← merge p a b; merge p ab c)
        (do let bc ← merge p b c; merge p a bc) := by
  intro p a b c
  have ha : DistinctNames p a := by decide +kernel
  have hb : DistinctNames p b := by decide +kernel
  have hc : DistinctNames p c := by decide +kernel
  exact ⟨⟨ha, hb, hc⟩, merge_assoc p a b c ha hb hc⟩

end Schema
end RecordSchema
