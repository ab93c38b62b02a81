import RecordSchema.Proofs.Schema.Levels

/-!
# Equality up to the order of fields

`Schema.SameUpToOrder s t` says that `s` becomes `t` when fields are put into another order, at
any level. Names, types, marks for missing values, annotations and the tree of levels stay.

Between levels with distinct keys the relation is read off the keys: it is enough that under each
key both have a field or neither has, and that the fields are the same up to order themselves
(`Schema.sameUpToOrder_of_withKey?`).

`Schema.SameOutcome` compares operations that may fail: both fail, whatever the errors, or both
give schemas that are the same up to order.
-/

namespace RecordSchema

mutual

/-- The fields differ at most in the order of the fields below them. -/
inductive Field.SameUpToOrder : Field → Field → Prop
  | plain (name : String) (type : FieldType) (nullable : Bool) (metadata : Metadata) :
    Field.SameUpToOrder ⟨name, type, nullable, metadata, none⟩ ⟨name, type, nullable, metadata, none⟩
  | nested (name : String) (type : FieldType) (nullable : Bool) (metadata : Metadata)
      {s t : List Field} : Schema.SameUpToOrder s t →
    Field.SameUpToOrder ⟨name, type, nullable, metadata, some s⟩
      ⟨name, type, nullable, metadata, some t⟩

/-- The levels differ at most in the order of fields, their own or further below. -/
inductive Schema.SameUpToOrder : List Field → List Field → Prop
  | nil : Schema.SameUpToOrder [] []
  | cons {f g : Field} {s t : List Field} : Field.SameUpToOrder f g → Schema.SameUpToOrder s t →
    Schema.SameUpToOrder (f :: s) (g :: t)
  | swap (f g : Field) (s : List Field) : Schema.SameUpToOrder (f :: g :: s) (g :: f :: s)
  | trans {s t u : List Field} : Schema.SameUpToOrder s t → Schema.SameUpToOrder t u →
    Schema.SameUpToOrder s u

end

/-- Fields that agree but for their children are the same up to order when these are, or when
neither has any. -/
theorem Field.SameUpToOrder.of_nested {name : String} {type : FieldType} {nullable : Bool}
    {metadata : Metadata} {x y : Option (List Field)} (h : Option.Rel Schema.SameUpToOrder x y) :
    Field.SameUpToOrder ⟨name, type, nullable, metadata, x⟩ ⟨name, type, nullable, metadata, y⟩ := by
  cases h with
  | none => exact .plain ..
  | some h => exact .nested _ _ _ _ h

/-- A level whose fields are the same as themselves is so, too. This is one half of reflexivity,
which goes through fields and levels in turn. -/
theorem Schema.SameUpToOrder.of_fields_refl {s : Schema} (h : ∀ f ∈ s, f.SameUpToOrder f) :
    SameUpToOrder s s := by
  induction s with
  | nil => exact .nil
  | cons f s ih =>
    exact .cons (h f List.mem_cons_self) (ih fun g hg => h g (List.mem_cons_of_mem _ hg))

/-- Every level is the same as itself up to order. No permutation takes place at any level, and the
induction goes down by the children of each field. -/
theorem Schema.SameUpToOrder.refl (s : Schema) : SameUpToOrder s s := by
  induction s using levelInduction with
  | step s ih =>
    refine .of_fields_refl fun f hf => ?_
    obtain ⟨name, type, nullable, metadata, nested⟩ := f
    cases nested with
    | none => exact .plain ..
    | some t => exact .nested _ _ _ _ (ih _ hf t rfl)

/-- Every field is the same as itself up to order. -/
theorem Field.SameUpToOrder.refl : (f : Field) → f.SameUpToOrder f
  | ⟨_, _, _, _, none⟩ => .plain ..
  | ⟨_, _, _, _, some s⟩ => .nested _ _ _ _ (Schema.SameUpToOrder.refl s)

namespace Schema

variable {p : Policy} {s t : Schema}

/-- A permutation of the fields of one level, with all below them left as it is, keeps the level up
to order. -/
theorem SameUpToOrder.of_perm (h : s.Perm t) : SameUpToOrder s t := by
  induction h with
  | nil => exact .nil
  | cons f _ ih => exact .cons (.refl f) ih
  | swap f g s => exact .swap g f s
  | trans _ _ ih₁ ih₂ => exact .trans ih₁ ih₂

/-- **Levels are compared key by key.** Two levels with distinct keys are the same up to order when
the fields under each key are. So an equation between merges needs no permutation to be named: it is
enough to know what each merge has under a key. -/
theorem sameUpToOrder_of_withKey? (hs : (s.keys p).Nodup) (ht : (t.keys p).Nodup)
    (h : ∀ k, Option.Rel Field.SameUpToOrder (s.withKey? p k) (t.withKey? p k)) :
    SameUpToOrder s t := by
  induction s generalizing t with
  | nil =>
    cases t with
    | nil => exact .nil
    | cons g t =>
      have hg := h (p.nameKey g.name)
      rw [withKey?_cons_self] at hg
      cases hg
  | cons f s ih =>
    obtain ⟨g, hg, hfg⟩ : ∃ g, t.withKey? p (p.nameKey f.name) = some g ∧ f.SameUpToOrder g := by
      have hf := h (p.nameKey f.name)
      rw [withKey?_cons_self] at hf
      generalize t.withKey? p (p.nameKey f.name) = x at hf
      cases hf with
      | some hfg => exact ⟨_, rfl, hfg⟩
    have hkey : p.nameKey g.name = p.nameKey f.name := key_of_withKey? hg
    obtain ⟨t₁, t₂, rfl⟩ := List.append_of_mem (mem_of_withKey? hg)
    have hperm : (t₁ ++ g :: t₂).Perm (g :: (t₁ ++ t₂)) := List.perm_middle
    have ht' : (keys p (g :: (t₁ ++ t₂))).Nodup := (hperm.map _).nodup_iff.mp ht
    have hrest : SameUpToOrder s (t₁ ++ t₂) := by
      refine ih (List.nodup_cons.mp hs).2 (List.nodup_cons.mp ht').2 fun k => ?_
      by_cases hk : k = p.nameKey f.name
      · -- the key is used up: no other field of either level has it
        rw [hk, withKey?_eq_none_iff.mpr (List.nodup_cons.mp hs).1, ← hkey,
          withKey?_eq_none_iff.mpr (List.nodup_cons.mp ht').1]
        exact .none
      · have hk' := h k
        rwa [withKey?_perm ht hperm, withKey?_cons_of_ne _ hk,
          withKey?_cons_of_ne _ (hkey ▸ hk)] at hk'
    exact (SameUpToOrder.cons hfg hrest).trans (.of_perm hperm.symm)

/-- Both operations fail, or both succeed with schemas that are the same up to order. -/
inductive SameOutcome : Except Error Schema → Except Error Schema → Prop
  | ok {s t : Schema} : SameUpToOrder s t → SameOutcome (.ok s) (.ok t)
  | error (e e' : Error) : SameOutcome (.error e) (.error e')

section Outcome

variable {x y : Except Error Schema}

/-- Outcomes are the same when what the first operation gives, the second gives up to order, and the
first gives something whenever the second does. Which errors there are does not matter. -/
theorem SameOutcome.of_ok (hxy : ∀ s, x = .ok s → ∃ t, y = .ok t ∧ SameUpToOrder s t)
    (hyx : ∀ t, y = .ok t → ∃ s, x = .ok s) : SameOutcome x y := by
  cases x with
  | ok s =>
    obtain ⟨t, rfl, hst⟩ := hxy s rfl
    exact .ok hst
  | error e =>
    cases y with
    | ok t =>
      obtain ⟨_, h⟩ := hyx t rfl
      exact nomatch h
    | error e' => exact .error e e'

/-- If the first of two operations with the same outcome succeeds, the second gives its result up to
order. -/
theorem SameOutcome.ok_left (h : SameOutcome x y) (hx : x = .ok s) :
    ∃ t, y = .ok t ∧ SameUpToOrder s t := by
  subst hx
  cases h with
  | ok hst => exact ⟨_, rfl, hst⟩

/-- If the second of two operations with the same outcome succeeds, the first does. -/
theorem SameOutcome.ok_right (h : SameOutcome x y) (hy : y = .ok t) : ∃ s, x = .ok s := by
  subst hy
  cases h with
  | ok _ => exact ⟨_, rfl⟩

end Outcome

end Schema
end RecordSchema
