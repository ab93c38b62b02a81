/-!
# Maps from texts, kept in key order

A `TextMap` is a list of entries whose keys strictly ascend in code point order, so there is one
map for each set of entries and reading the entries off needs no sorting. Annotations of a field
and the definitions of a catalog are such maps.

`find?` looks a key up; `update` writes a key, combining with the value that is there; `insert`
replaces it. `find?_update_self` and `find?_update_of_ne` say what a look-up sees afterwards.
-/

namespace RecordSchema

/-- Entries whose keys strictly ascend. -/
structure TextMap (α : Type) where
  entries : List (String × α)
  ascending : entries.Pairwise fun x y => x.1 < y.1
  deriving DecidableEq

namespace TextMap

variable {α : Type}

/-- The map without entries. -/
def empty : TextMap α := ⟨[], .nil⟩

instance : Inhabited (TextMap α) := ⟨empty⟩

/-- Whether the map has no entry. -/
def isEmpty (m : TextMap α) : Bool := m.entries.isEmpty

/-- The keys in ascending order. -/
def keys (m : TextMap α) : List String := m.entries.map Prod.fst

/-- The value that a list of entries has for a key. -/
def findIn (k : String) : List (String × α) → Option α
  | [] => none
  | (key, v) :: rest => if key = k then some v else findIn k rest

/-- The value of a key. -/
def find? (m : TextMap α) (k : String) : Option α := findIn k m.entries

/-- Writes `k` into ascending entries: a value `old` that is there becomes `combine old`. -/
def updateIn (k : String) (v : α) (combine : α → α) : List (String × α) → List (String × α)
  | [] => [(k, v)]
  | (key, old) :: rest =>
    if k = key then (key, combine old) :: rest
    else if k < key then (k, v) :: (key, old) :: rest
    else (key, old) :: updateIn k v combine rest

/-- Writing a key makes no other key appear: an entry of the written list has the key `k` or a key
that was there before. So whatever bounds the old keys bounds the new ones, but for `k`. -/
theorem mem_updateIn_key {k : String} {v : α} {combine : α → α} {e : String × α} :
    ∀ {l : List (String × α)}, e ∈ updateIn k v combine l → e.1 = k ∨ ∃ d ∈ l, d.1 = e.1
  | [], h => by
    simp only [updateIn, List.mem_singleton] at h
    exact .inl (h ▸ rfl)
  | (key, old) :: rest, h => by
    simp only [updateIn] at h
    split at h
    · rename_i hk
      rcases List.mem_cons.mp h with rfl | h
      · exact .inl hk.symm
      · exact .inr ⟨e, List.mem_cons_of_mem _ h, rfl⟩
    · split at h
      · rcases List.mem_cons.mp h with rfl | h
        · exact .inl rfl
        · exact .inr ⟨e, h, rfl⟩
      · rcases List.mem_cons.mp h with rfl | h
        · exact .inr ⟨(key, old), List.mem_cons_self, rfl⟩
        · rcases mem_updateIn_key h with h | ⟨d, hd, he⟩
          · exact .inl h
          · exact .inr ⟨d, List.mem_cons_of_mem _ hd, he⟩

/-- Writing a key keeps the keys in strict order. A new key goes in front of the first greater one,
and a key that is there keeps its place and takes another value. -/
theorem updateIn_ascending (k : String) (v : α) (combine : α → α) :
    ∀ {l : List (String × α)}, (l.Pairwise fun x y => x.1 < y.1) →
      (updateIn k v combine l).Pairwise fun x y => x.1 < y.1
  | [], _ => by simp [updateIn]
  | (key, old) :: rest, h => by
    rw [List.pairwise_cons] at h
    simp only [updateIn]
    split
    · exact List.pairwise_cons.mpr ⟨h.1, h.2⟩
    · split
      · rename_i hk
        refine List.pairwise_cons.mpr ⟨fun e he => ?_, List.pairwise_cons.mpr ⟨h.1, h.2⟩⟩
        rcases List.mem_cons.mp he with rfl | he
        · exact hk
        · exact String.lt_trans hk (h.1 e he)
      · rename_i hne hlt
        refine List.pairwise_cons.mpr ⟨fun e he => ?_, updateIn_ascending k v combine h.2⟩
        rcases mem_updateIn_key he with hk | ⟨d, hd, hk⟩
        · rw [hk]
          exact String.not_le.mp fun hle => hne (String.le_antisymm (String.not_lt.mp hlt) hle).symm
        · exact hk ▸ h.1 d hd

/-- Writes a key: an absent one gets `v`, a value `old` that is there becomes `combine old`. -/
def update (m : TextMap α) (k : String) (v : α) (combine : α → α) : TextMap α :=
  ⟨updateIn k v combine m.entries, updateIn_ascending k v combine m.ascending⟩

/-- Gives a key the value `v`, whatever it had. -/
def insert (m : TextMap α) (k : String) (v : α) : TextMap α := m.update k v fun _ => v

/-- The map of a list of entries; of two entries with one key the later counts. -/
def ofList (l : List (String × α)) : TextMap α := l.foldl (fun m e => m.insert e.1 e.2) empty

/-- A key that was written has `v` when it was absent, and else its old value combined. That it was
absent shows in front of the first greater key, since keys behind that are greater still. -/
theorem findIn_updateIn_self (k : String) (v : α) (combine : α → α) :
    ∀ {l : List (String × α)}, (l.Pairwise fun x y => x.1 < y.1) →
      findIn k (updateIn k v combine l) = some (((findIn k l).map combine).getD v)
  | [], _ => by simp [updateIn, findIn]
  | (key, old) :: rest, h => by
    rw [List.pairwise_cons] at h
    simp only [updateIn]
    split
    · rename_i hk
      simp [findIn, hk]
    · rename_i hne
      split
      · rename_i hlt
        have hrest : findIn k rest = none := by
          have habove : ∀ e ∈ rest, e.1 ≠ k := fun e he heq =>
            String.lt_asymm (h.1 e he) (heq ▸ hlt)
          clear h
          induction rest with
          | nil => rfl
          | cons e rest ih =>
            simp only [findIn, if_neg (habove e List.mem_cons_self)]
            exact ih fun e he => habove e (List.mem_cons_of_mem _ he)
        simp [findIn, Ne.symm hne, hrest]
      · simp only [findIn, if_neg (Ne.symm hne)]
        exact findIn_updateIn_self k v combine h.2

/-- Writing a key changes no look-up of another, whether or not keys ascend. A search for the other
key passes the written entry in the same way at whatever place it was put in. -/
theorem findIn_updateIn_of_ne {j k : String} (v : α) (combine : α → α) (h : j ≠ k) :
    ∀ l : List (String × α), findIn j (updateIn k v combine l) = findIn j l
  | [] => by simp [updateIn, findIn, Ne.symm h]
  | (key, old) :: rest => by
    simp only [updateIn]
    split
    · rename_i hk
      simp [findIn, ← hk, Ne.symm h]
    · split
      · simp [findIn, Ne.symm h]
      · simp only [findIn]
        split
        · rfl
        · exact findIn_updateIn_of_ne v combine h rest

/-- What was written under a key is found there: `v` if the key was absent, and what `combine` makes
of its value if it was not. -/
@[simp]
theorem find?_update_self (m : TextMap α) (k : String) (v : α) (combine : α → α) :
    (m.update k v combine).find? k = some (((m.find? k).map combine).getD v) :=
  findIn_updateIn_self k v combine m.ascending

/-- Every key but the one that was written has what it had. -/
theorem find?_update_of_ne {j k : String} (m : TextMap α) (v : α) (combine : α → α) (h : j ≠ k) :
    (m.update k v combine).find? j = m.find? j :=
  findIn_updateIn_of_ne v combine h m.entries

/-- An inserted value replaces what its key had, so it is found as it was given. -/
@[simp]
theorem find?_insert_self (m : TextMap α) (k : String) (v : α) : (m.insert k v).find? k = some v := by
  unfold insert
  rw [find?_update_self]
  cases m.find? k <;> rfl

/-- Every key but the one that was inserted has what it had. -/
theorem find?_insert_of_ne {j k : String} (m : TextMap α) (v : α) (h : j ≠ k) :
    (m.insert k v).find? j = m.find? j :=
  m.find?_update_of_ne v _ h

/-- What is found under a key is one of the entries. The keys need not ascend for this: the search
stops at the first entry with the key, wherever it stands. -/
theorem mem_of_findIn {k : String} {v : α} :
    ∀ {l : List (String × α)}, findIn k l = some v → (k, v) ∈ l
  | (key, old) :: rest, h => by
    simp only [findIn] at h
    split at h
    · rename_i hk
      obtain rfl := Option.some.inj h
      exact hk ▸ List.mem_cons_self
    · exact List.mem_cons_of_mem _ (mem_of_findIn h)

/-- A key under which something is found is one of the keys of the map. -/
theorem mem_keys_of_find? {m : TextMap α} {k : String} {v : α} (h : m.find? k = some v) :
    k ∈ m.keys :=
  List.mem_map.mpr ⟨(k, v), mem_of_findIn h, rfl⟩

example : (ofList [("b", 1), ("a", 2), ("b", 3)]).entries = [("a", 2), ("b", 3)] := by
  decide +kernel

end TextMap
end RecordSchema
