import Mathlib.Data.List.Forall2

/-!
# Lists related member by member

What `List.Forall₂` says of single members: each has its counterpart, at the same index. And what
it comes to when the counterpart of a member is a value of the member (`forall₂_iff_map`), or the
value of something else that is related to it (`forall₂_iff_exists_map`).
-/

namespace RecordSchema

variable {α β γ : Type} {r : α → β → Prop} {as : List α} {bs : List β} {a : α} {b : β} {i : Nat}

/-- Members at the same index are related. The two lists are equally long, so an index of the first
is one of the second. -/
theorem exists_getElem?_of_forall₂ (h : List.Forall₂ r as bs) (ha : as[i]? = some a) :
    ∃ b, bs[i]? = some b ∧ r a b := by
  induction h generalizing i with
  | nil => exact nomatch ha
  | cons hab _ ih =>
    cases i with
    | zero =>
      obtain rfl := Option.some.inj ha
      exact ⟨_, rfl, hab⟩
    | succ i => exact ih ha

/-- A member of the second list has a counterpart among the first. What it inherits from that is
what the relation says. -/
theorem exists_mem_of_forall₂ (h : List.Forall₂ r as bs) (hb : b ∈ bs) : ∃ a ∈ as, r a b := by
  induction h with
  | nil => exact nomatch hb
  | cons hab _ ih =>
    rcases List.mem_cons.mp hb with rfl | hb
    · exact ⟨_, List.mem_cons_self, hab⟩
    · obtain ⟨a, ha, hr⟩ := ih hb
      exact ⟨a, List.mem_cons_of_mem _ ha, hr⟩

/-- Of two lists that are related member by member, one is empty only when the other is. -/
theorem eq_nil_iff_of_forall₂ (h : List.Forall₂ r as bs) : bs = [] ↔ as = [] := by
  cases h <;> simp

/-- Where counterparts are values of a function that pass a test, the second list is made of the
values. The relation need only be of this form for members of the first list, as an induction over
levels gives it. -/
theorem forall₂_iff_map {f : α → β} {t : β → Prop} (h : ∀ a ∈ as, ∀ b, r a b ↔ f a = b ∧ t b) :
    List.Forall₂ r as bs ↔ as.map f = bs ∧ ∀ b ∈ bs, t b := by
  induction as generalizing bs with
  | nil =>
    rw [List.forall₂_nil_left_iff, List.map_nil]
    constructor
    · rintro rfl
      exact ⟨rfl, fun _ h => nomatch h⟩
    · rintro ⟨rfl, -⟩
      rfl
  | cons a as ih =>
    obtain ⟨ha, has⟩ := List.forall_mem_cons.mp h
    rw [List.forall₂_cons_left_iff]
    simp only [ha, ih has]
    constructor
    · rintro ⟨_, _, ⟨rfl, hb⟩, ⟨rfl, hbs⟩, rfl⟩
      exact ⟨rfl, List.forall_mem_cons.mpr ⟨hb, hbs⟩⟩
    · rintro ⟨rfl, ht⟩
      obtain ⟨hb, hbs⟩ := List.forall_mem_cons.mp ht
      exact ⟨_, _, ⟨rfl, hb⟩, ⟨rfl, hbs⟩, rfl⟩

/-- Where counterparts are values of what is related, the second list is made of the values of a
related list. So a function can be taken out of a relation between lists as out of one between
members. -/
theorem forall₂_iff_exists_map {q : α → γ → Prop} {f : β → γ} {cs : List γ}
    (h : ∀ a ∈ as, ∀ c, q a c ↔ ∃ b, r a b ∧ f b = c) :
    List.Forall₂ q as cs ↔ ∃ bs, List.Forall₂ r as bs ∧ bs.map f = cs := by
  induction as generalizing cs with
  | nil =>
    simp only [List.forall₂_nil_left_iff]
    constructor
    · rintro rfl
      exact ⟨[], rfl, rfl⟩
    · rintro ⟨_, rfl, rfl⟩
      rfl
  | cons a as ih =>
    obtain ⟨ha, has⟩ := List.forall_mem_cons.mp h
    simp only [List.forall₂_cons_left_iff, ha, ih has]
    constructor
    · rintro ⟨_, _, ⟨b, hb, rfl⟩, ⟨bs, hbs, rfl⟩, rfl⟩
      exact ⟨b :: bs, ⟨b, bs, hb, hbs, rfl⟩, rfl⟩
    · rintro ⟨_, ⟨b, bs, hb, hbs, rfl⟩, rfl⟩
      exact ⟨_, _, ⟨b, hb, rfl⟩, ⟨bs, hbs, rfl⟩, rfl⟩

end RecordSchema
