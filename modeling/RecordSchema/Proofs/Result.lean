import RecordSchema.Error
import Mathlib.Data.List.Forall2

/-!
# Results of fallible steps

A sequence of steps succeeds when each of them does, and fails where the first of them does.
`bind_eq_ok_iff` and `bind_eq_error_iff` take a sequence apart, and `cons_eq_ok_iff` and
`cons_eq_error_iff` take apart the step that every walk over a list repeats: deal with the first
member, then with the rest, and put the two results together. Where the walk does the same with all
members, `mapM_eq_ok_iff` says what it gives, and `exists_mapM_eq_ok_iff` when it gives anything.
-/

namespace RecordSchema

variable {ε α β : Type}

/-- A step after one that succeeds starts from its result. -/
theorem ok_bind (a : α) (f : α → Except ε β) : (Except.ok a >>= f) = f a := rfl

/-- A step after another succeeds when both do. Read from left to right this takes a command or a
build apart into its steps; read from right to left it puts them together. -/
theorem bind_eq_ok_iff {x : Except ε α} {f : α → Except ε β} {b : β} :
    (x >>= f) = .ok b ↔ ∃ a, x = .ok a ∧ f a = .ok b := by
  cases x with
  | error e => simp [bind, Except.bind]
  | ok a => simp [bind, Except.bind]

/-- A step after another fails when the first does, or when it does not and the second one does. Of
two faults the first is reported. -/
theorem bind_eq_error_iff {x : Except ε α} {f : α → Except ε β} {e : ε} :
    (x >>= f) = .error e ↔ x = .error e ∨ ∃ a, x = .ok a ∧ f a = .error e := by
  cases x with
  | error e => simp [bind, Except.bind]
  | ok a => simp [bind, Except.bind]

/-- A result that is given as it is succeeds with itself alone. -/
theorem pure_eq_ok_iff {a b : α} : (pure a : Except ε α) = .ok b ↔ a = b := by
  simp [pure, Except.pure]

/-- A result that is changed afterwards is one that was there before, changed. -/
theorem map_eq_ok_iff {x : Except ε α} {f : α → β} {b : β} :
    f <$> x = .ok b ↔ ∃ a, x = .ok a ∧ f a = b := by
  cases x with
  | error e => simp [Functor.map, Except.map]
  | ok a => simp [Functor.map, Except.map]

/-- To change a result leaves a failure as it is, and makes none. -/
theorem map_eq_error_iff {x : Except ε α} {f : α → β} {e : ε} :
    f <$> x = .error e ↔ x = .error e := by
  cases x with
  | error e => simp [Functor.map, Except.map]
  | ok a => simp [Functor.map, Except.map]

/-- A list is produced when its first member and the rest of it are. Every walk over the fields of a
level takes this step. -/
theorem cons_eq_ok_iff {x : Except ε α} {xs : Except ε (List α)} {l : List α} :
    (do let a ← x; let as ← xs; return a :: as) = .ok l ↔
      ∃ a as, x = .ok a ∧ xs = .ok as ∧ l = a :: as := by
  simp only [bind_eq_ok_iff, pure_eq_ok_iff]
  constructor
  · rintro ⟨a, ha, as, has, rfl⟩
    exact ⟨a, as, ha, has, rfl⟩
  · rintro ⟨a, as, ha, has, rfl⟩
    exact ⟨a, ha, as, has, rfl⟩

/-- A list is not produced when its first member is not, or when the rest is not though the first
member is. So a walk over a list reports the first fault on its way. -/
theorem cons_eq_error_iff {x : Except ε α} {xs : Except ε (List α)} {e : ε} :
    (do let a ← x; let as ← xs; return a :: as) = .error e ↔
      x = .error e ∨ (∃ a, x = .ok a) ∧ xs = .error e := by
  simp only [bind_eq_error_iff]
  constructor
  · rintro (hx | ⟨a, ha, hxs | ⟨as, -, hpure⟩⟩)
    · exact .inl hx
    · exact .inr ⟨⟨a, ha⟩, hxs⟩
    · exact nomatch hpure
  · rintro (hx | ⟨⟨a, ha⟩, hxs⟩)
    · exact .inl hx
    · exact .inr ⟨a, ha, .inl hxs⟩

/-- A step that is taken for each member of a list gives the results of the members in their order.
Nothing else comes into it, so that what holds of one result holds along the whole list. -/
theorem mapM_eq_ok_iff {f : α → Except ε β} {as : List α} {bs : List β} :
    as.mapM f = .ok bs ↔ List.Forall₂ (fun a b => f a = .ok b) as bs := by
  induction as generalizing bs with
  | nil =>
    rw [List.mapM_nil, pure_eq_ok_iff, List.forall₂_nil_left_iff]
    exact eq_comm
  | cons a as ih =>
    rw [List.mapM_cons, cons_eq_ok_iff, List.forall₂_cons_left_iff]
    simp only [ih]

/-- A step can be taken for all members of a list when it can for each of them: what one member gives
has no influence on the others. -/
theorem exists_mapM_eq_ok_iff {f : α → Except ε β} {as : List α} :
    (∃ bs, as.mapM f = .ok bs) ↔ ∀ a ∈ as, ∃ b, f a = .ok b := by
  induction as with
  | nil => exact ⟨fun _ _ h => (nomatch h), fun _ => ⟨[], rfl⟩⟩
  | cons a as ih =>
    rw [List.forall_mem_cons, ← ih]
    simp only [List.mapM_cons, cons_eq_ok_iff]
    constructor
    · rintro ⟨_, b, bs, hb, hbs, rfl⟩
      exact ⟨⟨b, hb⟩, bs, hbs⟩
    · rintro ⟨⟨b, hb⟩, bs, hbs⟩
      exact ⟨_, b, bs, hb, hbs, rfl⟩

end RecordSchema
