import Mathlib.Data.List.Nodup
import RecordSchema.Document.Json
import RecordSchema.Proofs.Json.Reading

/-!
# Records in JSON

A record is written as a list of members of which some may be left out (`present`). Asked for a
member by name, it gives what was written or says that it is absent.

What a decoder finds in a collection comes with the bound on depth that is left for it. A value that
is nested no deeper than its bound is taken apart into values that are nested no deeper than theirs
(`items_of_depth_le`, `entries_of_depth_le`, `record_of_depth_le`), so no decoder runs out.
-/

namespace RecordSchema

namespace Json

mutual

/-- How deep the collections of a value are nested; one that holds none counts 1. -/
def depth : Json → Nat
  | null => 0
  | bool _ => 0
  | number _ => 0
  | string _ => 0
  | array items => depthOfItems items + 1
  | object members => depthOfMembers members + 1

/-- The greatest depth of the items. -/
def depthOfItems : List Json → Nat
  | [] => 0
  | item :: items => max (depth item) (depthOfItems items)

/-- The greatest depth of the members. -/
def depthOfMembers : List (Option String × Json) → Nat
  | [] => 0
  | (_, value) :: members => max (depth value) (depthOfMembers members)

end

variable {n : Nat} {j : Json} {items : List Json} {members : List (String × Json)}

/-- An array is nested one deeper than its items. -/
theorem depth_array_le_iff : (array items).depth ≤ n + 1 ↔ ∀ j ∈ items, j.depth ≤ n := by
  rw [depth, Nat.add_le_add_iff_right]
  induction items with
  | nil => exact iff_of_true (Nat.zero_le n) fun _ h => nomatch h
  | cons item items ih => rw [depthOfItems, max_le_iff, ih, List.forall_mem_cons]

/-- An object is nested one deeper than the values of its members. A reader that goes one level down
thus leaves the bound of each member intact. -/
theorem depth_record_le_iff : (record members).depth ≤ n + 1 ↔ ∀ e ∈ members, e.2.depth ≤ n := by
  show (object (withTexts members)).depth ≤ n + 1 ↔ _
  rw [depth, Nat.add_le_add_iff_right]
  induction members with
  | nil => exact iff_of_true (Nat.zero_le n) fun _ h => nomatch h
  | cons e members ih =>
    rw [List.forall_mem_cons, ← ih]
    exact max_le_iff

/-- Asked for its items, an array gives them all, each with a bound on depth that is enough. The
bound of the whole is not used up, as the array takes one of it. -/
theorem items_of_depth_le (h : (array items).depth ≤ n) :
    ∃ k, n = k + 1 ∧ format.items n (array items) = some items ∧ ∀ j ∈ items, j.depth ≤ k := by
  obtain ⟨k, rfl⟩ := Nat.exists_eq_add_of_le' (Nat.le_trans (Nat.le_add_left 1 _) h)
  exact ⟨k, rfl, rfl, depth_array_le_iff.mp h⟩

/-- A list is read when each of its members is. What is asked of reading a member is asked for
members only, so that their depth may come in. -/
theorem mapM_map_eq_some {α γ : Type} {write : α → γ} {read : γ → Option α} {l : List α}
    (h : ∀ a ∈ l, read (write a) = some a) : (l.map write).mapM read = some l := by
  induction l with
  | nil => rfl
  | cons a l ih =>
    obtain ⟨ha, hl⟩ := List.forall_mem_cons.mp h
    rw [List.map_cons, List.mapM_cons, ha, ih hl]
    rfl

/-- The names of members that were written as texts are texts. -/
theorem named?_withTexts (members : List (String × Json)) :
    named? (withTexts members) = some members := by
  rw [named?, withTexts]
  exact mapM_map_eq_some fun _ _ => rfl

/-- Asked for its entries, an object gives them all, each with a bound on depth that is enough. -/
theorem entries_of_depth_le (h : (record members).depth ≤ n) :
    ∃ k, n = k + 1 ∧ format.entries n (record members) = some members ∧
      ∀ e ∈ members, e.2.depth ≤ k := by
  obtain ⟨k, rfl⟩ := Nat.exists_eq_add_of_le' (Nat.le_trans (Nat.le_add_left 1 _) h)
  exact ⟨k, rfl, named?_withTexts members, depth_record_le_iff.mp h⟩

/-- The members that are not left out. -/
def present (members : List (String × Option Json)) : List (String × Json) :=
  members.filterMap fun e => e.2.map (e.1, ·)

/-- A member that is left out is not there. -/
theorem present_cons_none (name : String) (members : List (String × Option Json)) :
    present ((name, none) :: members) = present members := rfl

/-- A member with a value is there, in its place. -/
theorem present_cons_some (name : String) (j : Json) (members : List (String × Option Json)) :
    present ((name, some j) :: members) = (name, j) :: present members := rfl

/-- The names that are there are some of all names, in their order. So they are distinct when these
are. -/
theorem names_present_sublist :
    ∀ members : List (String × Option Json),
      ((present members).map Prod.fst).Sublist (members.map Prod.fst)
  | [] => List.Sublist.refl _
  | (name, none) :: members => (names_present_sublist members).cons name
  | (name, some _) :: members => (names_present_sublist members).cons_cons name

/-- A member is found by its name, names being distinct: with its value, or not at all where it was
left out. -/
theorem find?_present {name : String} {value : Option Json} :
    ∀ {members : List (String × Option Json)}, (members.map Prod.fst).Nodup →
      (name, value) ∈ members →
        ((present members).find? fun e => e.1 == name).map Prod.snd = value
  | (key, o) :: members, hnames, h => by
    obtain ⟨hkey, hrest⟩ := List.nodup_cons.mp hnames
    rcases List.mem_cons.mp h with heq | hmem
    · obtain ⟨rfl, rfl⟩ := Prod.mk.inj heq
      cases value with
      | none =>
        rw [present_cons_none, Option.map_eq_none_iff, List.find?_eq_none]
        intro e he heq
        obtain rfl := beq_iff_eq.mp heq
        exact hkey ((names_present_sublist members).subset (List.mem_map_of_mem he))
      | some j =>
        rw [present_cons_some]
        simp only [List.find?_cons, beq_self_eq_true, Option.map_some]
    · have hne : (key == name) = false :=
        beq_eq_false_iff_ne.mpr fun heq => hkey (List.mem_map.mpr ⟨_, hmem, heq.symm⟩)
      cases o with
      | none =>
        rw [present_cons_none]
        exact find?_present hrest hmem
      | some j =>
        rw [present_cons_some]
        simp only [List.find?_cons, hne]
        exact find?_present hrest hmem

/-- Something holds of the values that are there when it holds of all values that were not left
out. -/
theorem forall_mem_present_iff {P : Json → Prop} {members : List (String × Option Json)} :
    (∀ e ∈ present members, P e.2) ↔ ∀ e ∈ members, ∀ j, e.2 = some j → P j := by
  constructor
  · intro h e he j hj
    refine h (e.1, j) (List.mem_filterMap.mpr ⟨e, he, ?_⟩)
    rw [hj]
    rfl
  · intro h e he
    obtain ⟨m, hm, heq⟩ := List.mem_filterMap.mp he
    obtain ⟨j, hj, rfl⟩ := Option.map_eq_some_iff.mp heq
    exact h m hm j hj

/-- Members put together are left out as they are apart. -/
theorem present_append (xs ys : List (String × Option Json)) :
    present (xs ++ ys) = present xs ++ present ys := List.filterMap_append

/-- **A record is asked for its members by name.** Where names differ, each has the value that the
record was written with, or none where it was left out, with a bound on depth that is enough. Which
names the reader knows does not matter, beyond that none of them is there twice. -/
theorem record_of_depth_le {members : List (String × Option Json)}
    (hnames : (members.map Prod.fst).Nodup) (h : (record (present members)).depth ≤ n)
    (names : List String) :
    ∃ k get, n = k + 1 ∧ format.record n names (record (present members)) = some get ∧
      ∀ e ∈ members, get e.1 = e.2 ∧ ∀ j, e.2 = some j → j.depth ≤ k := by
  obtain ⟨k, rfl, -, hdepth⟩ := entries_of_depth_le h
  have hcount : ∀ name, (present members).countP (fun m => m.1 == name) ≤ 1 := by
    intro name
    have hle := List.nodup_iff_count_le_one.mp (hnames.sublist (names_present_sublist members)) name
    rwa [List.count, List.countP_map] at hle
  refine ⟨k, fun name => ((present members).find? fun e => e.1 == name).map Prod.snd, rfl, ?_,
    fun e he => ⟨find?_present hnames he, fun j hj => ?_⟩⟩
  · show ((named? (withTexts (present members))).bind fun ms : List (String × Json) =>
      if names.all fun name => ms.countP (fun e => e.1 == name) ≤ 1 then
        some fun name => (ms.find? fun e => e.1 == name).map Prod.snd
      else none) = _
    rw [named?_withTexts, Option.bind_some]
    exact if_pos (List.all_eq_true.mpr fun name _ => decide_eq_true (hcount name))
  · exact forall_mem_present_iff (P := fun j => j.depth ≤ k).mp hdepth e he j hj

/-- A record is plain when the values in it are. -/
theorem plain_present {members : List (String × Option Json)}
    (h : ∀ e ∈ members, ∀ j, e.2 = some j → j.Plain) : (record (present members)).Plain :=
  .record (forall_mem_present_iff.mpr h)

end Json

end RecordSchema
