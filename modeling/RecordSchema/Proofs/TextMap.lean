import Mathlib.Data.List.Sort
import Mathlib.Data.String.Basic
import RecordSchema.TextMap

/-!
# What a map is determined by

The entries of a map are its look-ups: a key has at most one entry, and since the keys ascend there
is one order for the entries of a set. So maps with the same look-ups are equal, and a map is the
one that its entries make.
-/

namespace RecordSchema
namespace TextMap

variable {α : Type}

/-- An entry is found by its key, keys being distinct. Of two entries with one key only the first
would be found. -/
theorem findIn_eq_some_iff {k : String} {v : α} :
    ∀ {l : List (String × α)}, (l.Pairwise fun x y => x.1 < y.1) →
      (findIn k l = some v ↔ (k, v) ∈ l)
  | [], _ => by simp [findIn]
  | (key, old) :: rest, h => by
    rw [List.pairwise_cons] at h
    rw [findIn]
    split
    · rename_i hk
      constructor
      · intro hv
        obtain rfl := Option.some.inj hv
        exact hk ▸ List.mem_cons_self
      · intro hv
        rcases List.mem_cons.mp hv with hv | hv
        · rw [(Prod.mk.inj hv).2]
        · exact absurd hk (h.1 _ hv).ne
    · rename_i hk
      rw [findIn_eq_some_iff h.2, List.mem_cons]
      exact ⟨.inr, fun hv => hv.resolve_left fun he => hk (Prod.mk.inj he).1.symm⟩

/-- A key below all others is not found among them. So in ascending entries nothing in front of the
first is found. -/
theorem findIn_eq_none_of_lt {k : String} {l : List (String × α)} (h : ∀ e ∈ l, k < e.1) :
    findIn k l = none := by
  cases hv : findIn k l with
  | none => rfl
  | some v => exact absurd rfl (h _ (mem_of_findIn hv)).ne

/-- Maps with the same look-ups are equal, since entries are kept in the order of their keys. So an
equation between maps is proved key by key. -/
theorem ext_find? {m n : TextMap α} (h : ∀ k, m.find? k = n.find? k) : m = n := by
  obtain ⟨l, hl⟩ := m
  obtain ⟨l', hl'⟩ := n
  have hmem : ∀ e, e ∈ l ↔ e ∈ l' := fun ⟨k, v⟩ => by
    rw [← findIn_eq_some_iff hl, ← findIn_eq_some_iff hl']
    exact ⟨fun he => (h k).symm.trans he, fun he => (h k).trans he⟩
  have hnodup : ∀ {l : List (String × α)}, (l.Pairwise fun x y => x.1 < y.1) → l.Nodup :=
    fun hl => hl.imp fun hlt he => hlt.ne (congrArg Prod.fst he)
  have hperm : l.Perm l' := (List.perm_ext_iff_of_nodup (hnodup hl) (hnodup hl')).mpr hmem
  have heq : l = l' := hperm.eq_of_pairwise (fun x y _ _ hxy hyx => absurd hyx hxy.asymm) hl hl'
  subst heq
  rfl

/-- A look-up finds a value exactly when key and value are an entry of the map. -/
theorem find?_eq_some_iff {m : TextMap α} {k : String} {v : α} :
    m.find? k = some v ↔ (k, v) ∈ m.entries := findIn_eq_some_iff m.ascending

/-- No key is there twice, since keys ascend strictly. -/
theorem keys_nodup (m : TextMap α) : m.keys.Nodup :=
  List.pairwise_map.mpr (m.ascending.imp fun hlt => hlt.ne)

/-- The keys are those with a value, so that to ask for a key is to ask for what it has. An entry is
never there without being found. -/
theorem mem_keys_iff {m : TextMap α} {k : String} : k ∈ m.keys ↔ ∃ v, m.find? k = some v := by
  constructor
  · intro h
    obtain ⟨⟨_, v⟩, hv, rfl⟩ := List.mem_map.mp h
    exact ⟨v, find?_eq_some_iff.mpr hv⟩
  · rintro ⟨v, hv⟩
    exact mem_keys_of_find? hv

/-- After entries with distinct keys have been written, these count, and else what was there. The
map that is written into is arbitrary, which carries the induction along the entries. -/
theorem find?_foldl_insert (k : String) :
    ∀ {l : List (String × α)} (m : TextMap α), (l.Pairwise fun x y => x.1 < y.1) →
      (l.foldl (fun m e => m.insert e.1 e.2) m).find? k = (findIn k l).or (m.find? k)
  | [], _, _ => by rw [List.foldl_nil, findIn, Option.none_or]
  | (key, v) :: rest, m, h => by
    rw [List.pairwise_cons] at h
    rw [List.foldl_cons, find?_foldl_insert k _ h.2, findIn]
    split
    · rename_i hk
      subst hk
      rw [findIn_eq_none_of_lt h.1, Option.none_or, find?_insert_self, Option.some_or]
    · rename_i hk
      rw [find?_insert_of_ne _ _ (Ne.symm hk)]

/-- A map is the one that its entries make. So a map that is written as its entries is read back. -/
theorem ofList_entries (m : TextMap α) : ofList m.entries = m := by
  refine ext_find? fun k => ?_
  rw [ofList, find?_foldl_insert k _ m.ascending]
  exact Option.or_none

/-- A map without entries is the empty map; its proof of order does not distinguish it. -/
theorem eq_empty_of_isEmpty {m : TextMap α} (h : m.isEmpty = true) : m = empty := by
  obtain ⟨entries, _⟩ := m
  obtain rfl := List.isEmpty_iff.mp h
  rfl

end TextMap
end RecordSchema
