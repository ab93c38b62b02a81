import RecordSchema.Proofs.Merge.Reconciliation
import RecordSchema.Proofs.Merge.WellFormed

/-!
# Merging many schemas

`Schema.mergeAll` folds the merge of two over a list and so decides everything from what has been
merged so far and the next schema. It comes to what the list as a whole says: one field for each
key that occurs, with parts read off all fields under the key (`Schema.Reconciles`).

The fold is followed from left to right. What has been merged reconciles the group so far; one
more schema is looked at under each key, where the group has a field or not and the schema has one
or not (`Schema.Reconciles.merge`). The merge goes through as long as types are comparable
(`Schema.Reconciles.exists_merge`), since the type of a merged field is one of those that occur.
-/

namespace RecordSchema

variable {p : Policy}

section Extremes

variable {xs : List String} {v w : String}

/-- One more text makes the lesser of it and the least so far the least. A step of the fold keeps in
this way what the reconciled metadata say of all the schemas so far. -/
theorem min?_concat (h : xs.min? = some v) : (xs ++ [w]).min? = some (Text.lesser v w) := by
  obtain ⟨hv, hle⟩ := List.min?_eq_some_iff.mp h
  rw [Text.lesser_eq_min]
  refine List.min?_eq_some_iff.mpr ⟨?_, fun u hu => ?_⟩
  · rcases min_choice v w with hmin | hmin
    · rw [hmin]
      exact List.mem_append_left _ hv
    · rw [hmin]
      exact List.mem_append_right _ (List.mem_singleton_self w)
  · rcases List.mem_append.mp hu with hu | hu
    · exact (min_le_left v w).trans (hle u hu)
    · obtain rfl := List.mem_singleton.mp hu
      exact min_le_right v u

/-- One more value, if there is one, makes the greater of it and the greatest so far the
greatest. -/
theorem max?_append_toList (y : Option String) :
    (xs ++ y.toList).max? = Metadata.greater? xs.max? y := by
  cases y with
  | none => rw [Option.toList_none, List.append_nil, Metadata.greater?_none]
  | some w =>
    rw [Option.toList_some]
    cases h : xs.max? with
    | none =>
      obtain rfl := List.max?_eq_none_iff.mp h
      rfl
    | some v =>
      obtain ⟨hv, hle⟩ := List.max?_eq_some_iff.mp h
      rw [Metadata.greater?, Text.greater_eq_max]
      refine List.max?_eq_some_iff.mpr ⟨?_, fun u hu => ?_⟩
      · rcases max_choice v w with hmax | hmax
        · rw [hmax]
          exact List.mem_append_left _ hv
        · rw [hmax]
          exact List.mem_append_right _ (List.mem_singleton_self w)
      · rcases List.mem_append.mp hu with hu | hu
        · exact (hle u hu).trans (le_max_left v w)
        · obtain rfl := List.mem_singleton.mp hu
          exact le_max_right v u

end Extremes

namespace Field

variable {fs : List Field} {lacking lacking' : Prop} {l r f : Field}

/-- A field carried over as nullable reconciles the same fields beside a level that lacks them. Only
its nullability is affected by a level that has no field under the key. -/
theorem Reconciles.asNullable (h : l.Reconciles fs lacking) (hl : lacking') :
    l.asNullable.Reconciles fs lacking' where
  name := h.name
  type_mem := h.type_mem
  type_widest := h.type_widest
  nullable := iff_of_true rfl (.inr hl)
  metadata := h.metadata
  shape := h.shape

/-- A field alone reconciles itself, if it is of proper shape and no level lacks it: its type is the
widest, its metadata the least, and nothing makes it nullable. -/
theorem reconciles_singleton (hshape : r.nested.isSome = r.type.isStruct) (hl : ¬lacking) :
    r.Reconciles [r] lacking where
  name := rfl
  type_mem := ⟨r, List.mem_singleton_self r, rfl⟩
  type_widest g hg := by
    obtain rfl := List.mem_singleton.mp hg
    exact FieldType.widensTo_refl g.type
  nullable := by simp [hl]
  metadata k := by
    rw [List.filterMap_cons, List.filterMap_nil]
    cases r.metadata.find? k <;> rfl
  shape := hshape

/-- A field that reconciles others, merged with one more, reconciles them all. Each part of a merge
of two is the step by which the same part of the whole is found. -/
theorem Reconciles.combine {t : FieldType} {cs : Option (List Field)}
    (h : l.Reconciles fs lacking) (ht : l.type.join? r.type = some t)
    (hcs : cs.isSome = t.isStruct) (hl : lacking ↔ lacking') :
    (l.combine r t cs).Reconciles (fs ++ [r]) lacking' where
  name := by
    rw [List.map_append]
    exact min?_concat h.name
  type_mem := by
    obtain ⟨-, -, rfl | rfl⟩ := FieldType.join?_eq_some_iff.mp ht
    · obtain ⟨g, hg, hgt⟩ := h.type_mem
      exact ⟨g, List.mem_append_left _ hg, hgt⟩
    · exact ⟨r, List.mem_append_right _ (List.mem_singleton_self r), rfl⟩
  type_widest g hg := by
    obtain ⟨hlt, hrt, -⟩ := FieldType.join?_eq_some_iff.mp ht
    rcases List.mem_append.mp hg with hg | hg
    · exact FieldType.widensTo_trans (h.type_widest g hg) hlt
    · obtain rfl := List.mem_singleton.mp hg
      exact hrt
  nullable := by
    have hnullable : (l.combine r t cs).nullable = true ↔ l.nullable = true ∨ r.nullable = true :=
      Bool.or_eq_true _ _ ▸ Iff.rfl
    simp only [hnullable, h.nullable, List.mem_append, List.mem_singleton, or_and_right,
      exists_or, exists_eq_left, hl]
    exact or_right_comm
  metadata k := by
    rw [List.filterMap_append]
    have hr : [r].filterMap (fun g => g.metadata.find? k) = (r.metadata.find? k).toList := by
      rw [List.filterMap_cons, List.filterMap_nil]
      cases r.metadata.find? k <;> rfl
    rw [hr, max?_append_toList, ← h.metadata k]
    exact Metadata.find?_union l.metadata r.metadata k
  shape := hcs

end Field

namespace Schema

variable {group : List Schema} {s acc m : Schema} {l r f : Field} {k : String}

/-- After one more level the key is lacked where it was before or by this level. -/
theorem lacking_concat : Lacking p k (group ++ [s]) ↔ Lacking p k group ∨ k ∉ s.keys p := by
  simp only [Lacking, List.mem_append, List.mem_singleton, or_and_right, exists_or, exists_eq_left]

/-- Under a key that the next level lacks the field of the group is carried over. Its children stay,
as no others come in. -/
theorem ReconcilesAt.left (h : ReconcilesAt p k group l) (hs : s.withKey? p k = none) :
    ReconcilesAt p k (group ++ [s]) l.asNullable := by
  have hlacking : Lacking p k (group ++ [s]) :=
    lacking_concat.mpr (.inr (withKey?_eq_none_iff.mp hs))
  have hfields : fieldsUnder p k (group ++ [s]) = fieldsUnder p k group := by
    rw [fieldsUnder_concat, hs, Option.toList_none, List.append_nil]
  have hchildren : childrenUnder p k (group ++ [s]) = childrenUnder p k group := by
    rw [childrenUnder, hfields, childrenUnder]
  obtain ⟨hl, hbelow⟩ := h
  refine ⟨?_, fun t ht => ?_⟩
  · rw [hfields]
    exact hl.asNullable hlacking
  · rw [hchildren]
    exact hbelow t ht

/-- Under a key that no level has had so far the field of the next one is carried over. The group is
not empty, so some level lacks the key. -/
theorem reconcilesAt_right (hgroup : group ≠ []) (hk : k ∉ keysOf p group)
    (hr : s.withKey? p k = some r) (hshape : r.nested.isSome = r.type.isStruct)
    (hbelow : ∀ t : Schema, r.nested = some t → Reconciles p [t] t) :
    ReconcilesAt p k (group ++ [s]) r.asNullable := by
  have hlacking : Lacking p k (group ++ [s]) := by
    obtain ⟨u, hu⟩ := List.exists_mem_of_ne_nil group hgroup
    exact lacking_concat.mpr (.inl ⟨u, hu, fun hku => hk (mem_keysOf.mpr ⟨u, hu, hku⟩)⟩)
  have hfields : fieldsUnder p k (group ++ [s]) = [r] := by
    rw [fieldsUnder_concat, fieldsUnder_eq_nil hk, hr]
    rfl
  refine ⟨?_, fun t (ht : r.nested = some t) => ?_⟩
  · rw [hfields]
    exact (Field.reconciles_singleton hshape not_false).asNullable hlacking
  · have hchildren : childrenUnder p k (group ++ [s]) = [t] := by
      rw [childrenUnder, hfields, List.filterMap_cons_some ht, List.filterMap_nil]
    rw [hchildren]
    exact hbelow t ht

/-- Under a key that the group and the next level have their fields are merged, and their children
are one step of the fold in turn. -/
theorem ReconcilesAt.both (h : ReconcilesAt p k group l) (hr : s.withKey? p k = some r)
    (hlr : Field.Merged p l r f)
    (hbelow : ∀ ls rs t : Schema, l.nested = some ls → r.nested = some rs →
      merge p ls rs = .ok t → Reconciles p (childrenUnder p k group ++ [rs]) t) :
    ReconcilesAt p k (group ++ [s]) f := by
  have hlacking : Lacking p k group ↔ Lacking p k (group ++ [s]) := by
    have hk : k ∈ s.keys p := mem_keys.mpr ⟨r, mem_of_withKey? hr, key_of_withKey? hr⟩
    rw [lacking_concat, or_iff_left (not_not_intro hk)]
  rw [ReconcilesAt, fieldsUnder_concat, childrenUnder_concat, hr, Option.bind_some]
  refine ⟨?_, fun t ht => ?_⟩
  · have hshape := hlr.shape
    obtain ⟨ht, -⟩ := hlr
    exact h.1.combine ht hshape hlacking
  · obtain ⟨ls, rs, hls, hrs, hm⟩ := hlr.exists_merge_of_nested ht
    rw [hrs]
    exact hbelow ls rs t hls hrs hm

/-- A well-formed schema alone is what it reconciles to. This starts the fold. Under each of its
keys the group has one field, with one schema of children, and the induction goes down by these. -/
theorem WellFormed.reconciles_singleton (hs : s.WellFormed p) : Reconciles p [s] s := by
  induction s using levelInduction with
  | step s ih =>
    refine reconciles_iff.mpr ⟨(keysOf_singleton hs.keys_nodup).symm, fun f hf => ?_⟩
    have hwell := hs.field hf
    have hfields : fieldsUnder p (p.nameKey f.name) [s] = [f] :=
      List.filterMap_cons_some (withKey?_of_mem hs.keys_nodup hf)
    have hlacking : ¬Lacking p (p.nameKey f.name) [s] := by
      rintro ⟨t, ht, hk⟩
      obtain rfl := List.mem_singleton.mp ht
      exact hk (mem_keys.mpr ⟨f, hf, rfl⟩)
    refine ⟨?_, fun t ht => ?_⟩
    · rw [hfields]
      exact Field.reconciles_singleton hwell.proper.shape hlacking
    · have hchildren : childrenUnder p (p.nameKey f.name) [s] = [t] := by
        rw [childrenUnder, hfields, List.filterMap_cons_some ht, List.filterMap_nil]
      rw [hchildren]
      exact ih f hf t ht (hwell.below t ht)

/-- A Struct that reconciles fields of a group stands over children of theirs, so the fold below it
has a start. -/
theorem ReconcilesAt.childrenUnder_ne_nil (h : ReconcilesAt p k group l)
    (hgroup : ∀ s ∈ group, s.WellFormed p) {ls : Schema} (hls : l.nested = some ls) :
    childrenUnder p k group ≠ [] := by
  obtain ⟨g, hg, hgl⟩ := h.1.type_mem
  have hstruct : g.nested.isSome = true := by
    rw [(WellFormed.of_mem_fieldsUnder hgroup hg).proper.shape, hgl, ← h.1.shape, hls]
    rfl
  obtain ⟨t, ht⟩ := Option.isSome_iff_exists.mp hstruct
  exact List.ne_nil_of_mem (mem_childrenUnder.mpr ⟨g, hg, ht⟩)

/-- **One step of the fold.** What reconciles a group, merged with one more schema, reconciles the
group with this schema. The induction is over the levels of what was merged so far, with the group
free. -/
theorem Reconciles.merge (hacc : Reconciles p group acc) (hne : group ≠ [])
    (hgroup : ∀ s ∈ group, s.WellFormed p) (hs : s.WellFormed p)
    (h : Schema.merge p acc s = .ok m) : Reconciles p (group ++ [s]) m := by
  induction s using levelInduction generalizing group acc m with
  | step s ih =>
    have hmkeys := keys_merge_nodup h hacc.keys_nodup hs.keys_nodup
    have hkeys : m.keys p = keysOf p (group ++ [s]) := by
      rw [keys_merge h, keysOf_concat hs.keys_nodup, (reconciles_iff.mp hacc).1]
    refine reconciles_iff.mpr ⟨hkeys, fun f hf => ?_⟩
    have hslot := merge_withKey? h (p.nameKey f.name)
    rw [withKey?_of_mem hmkeys hf] at hslot
    generalize p.nameKey f.name = k at hslot
    generalize hx : acc.withKey? p k = x at hslot
    generalize hy : s.withKey? p k = y at hslot
    cases hslot with
    | left l => exact (hacc.at_withKey? hx).left hy
    | right r =>
      have hwell := hs.field (mem_of_withKey? hy)
      have hk : k ∉ keysOf p group := by
        rw [← (reconciles_iff.mp hacc).1]
        exact withKey?_eq_none_iff.mp hx
      exact reconcilesAt_right hne hk hy hwell.proper.shape fun t ht =>
        (hwell.below t ht).reconciles_singleton
    | @both l r _ hlr =>
      have hl := hacc.at_withKey? hx
      refine hl.both hy hlr fun ls rs t hls hrs hm => ?_
      exact ih r (mem_of_withKey? hy) rs hrs (hl.2 ls hls) (hl.childrenUnder_ne_nil hgroup hls)
        (wellFormed_childrenUnder hgroup) ((hs.field (mem_of_withKey? hy)).below rs hrs) hm

/-- **The step succeeds** where types stay comparable. The widest type of a group is comparable to
one more when all the types in it are, as these form a chain. -/
theorem Reconciles.exists_merge (hacc : Reconciles p group acc) (hs : s.WellFormed p)
    (h : Comparable p (group ++ [s])) : ∃ m, Schema.merge p acc s = .ok m := by
  induction s using levelInduction generalizing group acc with
  | step s ih =>
    refine Schema.exists_merge hacc.keys_nodup fun k => ?_
    cases hx : acc.withKey? p k with
    | none =>
      cases s.withKey? p k with
      | none => exact ⟨_, .neither⟩
      | some r => exact ⟨_, .right r⟩
    | some l =>
      cases hy : s.withKey? p k with
      | none => exact ⟨_, .left l⟩
      | some r =>
        obtain ⟨hl, hbelow⟩ := hacc.at_withKey? hx
        have hr := hs.field (mem_of_withKey? hy)
        obtain ⟨t, ht⟩ : ∃ t, l.type.join? r.type = some t := by
          obtain ⟨g, hg, hgl⟩ := hl.type_mem
          have hfields : fieldsUnder p k (group ++ [s]) = fieldsUnder p k group ++ [r] := by
            rw [fieldsUnder_concat, hy, Option.toList_some]
          have hgr := h _ (.top _) k g (hfields ▸ List.mem_append_left _ hg) r
            (hfields ▸ List.mem_append_right _ (List.mem_singleton_self r))
          exact (hgl ▸ hgr).exists_join?
        obtain ⟨hlt, hrt⟩ := FieldType.isStruct_of_join? ht
        rw [← hl.shape] at hlt
        rw [← hr.proper.shape] at hrt
        suffices hcs : ∃ cs, Field.ChildrenMerged p t l.nested r.nested cs by
          obtain ⟨cs, hcs⟩ := hcs
          exact ⟨_, .both (.intro ht hcs)⟩
        cases hstruct : t.isStruct with
        | false => exact ⟨none, .scalar _ _ hstruct⟩
        | true =>
          obtain ⟨ls, hls⟩ := Option.isSome_iff_exists.mp (hlt.trans hstruct)
          obtain ⟨rs, hrs⟩ := Option.isSome_iff_exists.mp (hrt.trans hstruct)
          have hcomparable := h.inner k
          rw [childrenUnder_concat, hy, Option.bind_some, hrs] at hcomparable
          obtain ⟨m, hm⟩ := ih r (mem_of_withKey? hy) rs hrs (hbelow ls hls) (hr.below rs hrs)
            hcomparable
          rw [hls, hrs]
          exact ⟨some m, .struct hstruct hm⟩

/-- One more schema is merged with what the others have been merged to. -/
theorem mergeAll_concat (h : group ≠ []) :
    mergeAll p (group ++ [s]) = (do let acc ← mergeAll p group; Schema.merge p acc s) := by
  cases group with
  | nil => exact absurd rfl h
  | cons t rest => simp [mergeAll, List.foldlM_append]

/-- What a list of well-formed schemas is merged to is well-formed. The last schema is split off, as
the fold merges it last, and a single merge keeps well-formedness. -/
theorem WellFormed.mergeAll (hgroup : ∀ s ∈ group, s.WellFormed p)
    (h : Schema.mergeAll p group = .ok m) : m.WellFormed p := by
  induction group using List.reverseRecOn generalizing m with
  | nil =>
    obtain rfl := Except.ok.inj h
    exact wellFormed_iff.mpr ⟨.nil, fun _ hf => nomatch hf⟩
  | append_singleton group s ih =>
    have hs := hgroup s (List.mem_append_right _ (List.mem_singleton_self s))
    have hgroup := fun t ht => hgroup t (List.mem_append_left _ ht)
    by_cases hne : group = []
    · subst hne
      obtain rfl := Except.ok.inj h
      exact hs
    · rw [mergeAll_concat hne] at h
      obtain ⟨acc, hacc, hm⟩ := bind_eq_ok_iff.mp h
      exact (ih hgroup hacc).merge hs hm

/-- What a list of well-formed schemas is merged to reconciles it: the first schema reconciles
itself, and each further one is a step. -/
theorem reconciles_of_mergeAll (hgroup : ∀ s ∈ group, s.WellFormed p)
    (h : mergeAll p group = .ok m) : Reconciles p group m := by
  induction group using List.reverseRecOn generalizing m with
  | nil =>
    obtain rfl := Except.ok.inj h
    exact reconciles_iff.mpr ⟨rfl, fun _ hf => nomatch hf⟩
  | append_singleton group s ih =>
    have hs := hgroup s (List.mem_append_right _ (List.mem_singleton_self s))
    have hgroup := fun t ht => hgroup t (List.mem_append_left _ ht)
    by_cases hne : group = []
    · subst hne
      obtain rfl := Except.ok.inj h
      exact hs.reconciles_singleton
    · rw [mergeAll_concat hne] at h
      obtain ⟨acc, hacc, hm⟩ := bind_eq_ok_iff.mp h
      exact (ih hgroup hacc).merge hne hgroup hs hm

/-- A list of well-formed schemas is merged where types are comparable, since then they are so for
each part of the list from the start, and no step fails. -/
theorem exists_mergeAll (hgroup : ∀ s ∈ group, s.WellFormed p) (h : Comparable p group) :
    ∃ m, mergeAll p group = .ok m := by
  induction group using List.reverseRecOn with
  | nil => exact ⟨[], rfl⟩
  | append_singleton group s ih =>
    have hs := hgroup s (List.mem_append_right _ (List.mem_singleton_self s))
    have hgroup := fun t ht => hgroup t (List.mem_append_left _ ht)
    by_cases hne : group = []
    · subst hne
      exact ⟨s, rfl⟩
    · obtain ⟨acc, hacc⟩ := ih hgroup (h.subset (List.subset_append_left _ _))
      obtain ⟨m, hm⟩ := (reconciles_of_mergeAll hgroup hacc).exists_merge hs h
      exact ⟨m, (mergeAll_concat hne).trans (bind_eq_ok_iff.mpr ⟨acc, hacc, hm⟩)⟩

/-- **Merging many schemas is the merge of all at once.** A list of valid schemas is merged exactly
if types are comparable under each key, on all levels that are reached through matched Structs. The
result is then the one schema that reconciles the list, and another order of the list gives the
same up to the order of fields, failures included. -/
theorem mergeAll_exactly_reconciles (p : Policy) (group : List Schema)
    (hgroup : ∀ s ∈ group, s.isValid p = true) :
    ((∃ m, mergeAll p group = .ok m) ↔ Comparable p group) ∧
      (∀ m, mergeAll p group = .ok m ↔ Reconciles p group m) ∧
        ∀ group', group'.Perm group → SameOutcome (mergeAll p group) (mergeAll p group') := by
  have hwell : ∀ s ∈ group, s.WellFormed p := fun s hs => isValid_iff.mp (hgroup s hs)
  have hmerged : ∀ m, mergeAll p group = .ok m → Reconciles p group m :=
    fun _ => reconciles_of_mergeAll hwell
  have hcomparable : ∀ m, Reconciles p group m → Comparable p group :=
    fun _ hm => hm.comparable hwell
  refine ⟨⟨?_, exists_mergeAll hwell⟩, fun m => ⟨hmerged m, fun hm => ?_⟩, fun group' hperm => ?_⟩
  · rintro ⟨m, hm⟩
    exact hcomparable m (hmerged m hm)
  · obtain ⟨n, hn⟩ := exists_mergeAll hwell (hcomparable m hm)
    obtain rfl := hm.unique (hmerged n hn)
    exact hn
  · have hwell' : ∀ s ∈ group', s.WellFormed p := fun s hs => hwell s (hperm.subset hs)
    refine .of_ok (fun m hm => ?_) (fun n hn => ?_)
    · have hm := hmerged m hm
      obtain ⟨n, hn⟩ := exists_mergeAll hwell' ((hcomparable m hm).subset hperm.subset)
      exact ⟨n, hn, hm.sameUpToOrder (reconciles_of_mergeAll hwell' hn) hperm.symm⟩
    · have hn := (reconciles_of_mergeAll hwell' hn).comparable hwell'
      exact exists_mergeAll hwell (hn.subset hperm.symm.subset)

/-- Three partitions of one source: one key is spelt in three ways over three types, and the Struct
that the second lacks has its children from the other two alone. -/
theorem mergeAll_exactly_reconciles_partitions :
    let p : Policy := { caseSensitive := false }
    let group : List Schema := [
      [.scalar "Id" .short false, .struct "Owner" [.scalar "name" .string false] false],
      [.scalar "since" .date false, (Field.scalar "id" .decimal false).annotate "doc" "key"],
      [.struct "owner" [.scalar "NAME" .string false, .scalar "age" .int false] false,
        (Field.scalar "ID" .long false).annotate "doc" "number"]]
    let m : Schema := [(Field.scalar "ID" .decimal false).annotate "doc" "number",
      .struct "Owner" [.scalar "NAME" .string false, .scalar "age" .int true] true,
      .scalar "since" .date true]
    (∀ s ∈ group, s.isValid p = true) ∧ mergeAll p group = .ok m ∧
      Comparable p group ∧ Reconciles p group m ∧
        SameOutcome (mergeAll p group) (mergeAll p group.reverse) := by
  intro p group m
  have hgroup : ∀ s ∈ group, s.isValid p = true := by decide +kernel
  have hm : mergeAll p group = .ok m := by decide +kernel
  obtain ⟨hcomparable, hexact, hperm⟩ := mergeAll_exactly_reconciles p group hgroup
  exact ⟨hgroup, hm, hcomparable.mp ⟨m, hm⟩, (hexact m).mp hm, hperm _ group.reverse_perm⟩

end Schema
end RecordSchema
