/-!
# Joining and splitting

`join sep xs` writes texts one after the other with `sep` between neighbours; `split d s` cuts a
text at every `d`. A text without `d` is one piece, the empty text included, so `split` never gives
an empty list. Cutting takes apart what was joined by `d` (`split_join`), and joining the pieces of
a text gives it back (`join_split`). `lesser` and `greater` pick one of two texts by code points.
-/

namespace RecordSchema
namespace Text

/-- The texts one after the other, `sep` between neighbours. -/
def join (sep : String) : List String → String
  | [] => ""
  | [s] => s
  | s :: t :: rest => s ++ sep ++ join sep (t :: rest)

/-- The pieces of a list of characters between the occurrences of `d`. -/
def splitChars (d : Char) : List Char → List (List Char)
  | [] => [[]]
  | c :: cs =>
    if c = d then [] :: splitChars d cs
    else
      match splitChars d cs with
      | piece :: rest => (c :: piece) :: rest
      | [] => [[c]]

/-- The pieces of a text between the occurrences of `d`. -/
def split (d : Char) (s : String) : List String := (splitChars d s.toList).map String.ofList

/-- The first of two texts in code point order. -/
def lesser (a b : String) : String := if b < a then b else a

/-- The last of two texts in code point order. -/
def greater (a b : String) : String := if a < b then b else a

/-- Before further texts, the first stands with the separator behind it. With no text to follow
there would be no separator, hence the condition. -/
theorem join_cons_of_ne_nil {sep s : String} {xs : List String} (h : xs ≠ []) :
    join sep (s :: xs) = s ++ sep ++ join sep xs := by
  cases xs with
  | nil => exact absurd rfl h
  | cons t rest => rfl

/-- Behind other texts, the last stands with the separator in front of it. A path grows by a name in
this way. -/
theorem join_concat_of_ne_nil {sep s : String} {xs : List String} (h : xs ≠ []) :
    join sep (xs ++ [s]) = join sep xs ++ sep ++ s := by
  induction xs with
  | nil => exact absurd rfl h
  | cons t rest ih =>
    by_cases hrest : rest = []
    · subst hrest
      rfl
    · have hconcat : rest ++ [s] ≠ [] := by simp
      rw [List.cons_append, join_cons_of_ne_nil hconcat, ih hrest, join_cons_of_ne_nil hrest]
      simp only [String.append_assoc]

/-- Joined texts are not empty when the first of them is not, however many follow. -/
theorem join_cons_ne_empty {sep s : String} {xs : List String} (h : s ≠ "") :
    join sep (s :: xs) ≠ "" := by
  cases xs with
  | nil => exact h
  | cons t rest => simp [join, h]

/-- What the first of the joined texts starts with, the joined text starts with. So the start can be
taken off before the texts are joined. -/
theorem join_append_cons (sep s t : String) (xs : List String) :
    join sep ((s ++ t) :: xs) = s ++ join sep (t :: xs) := by
  cases xs with
  | nil => rfl
  | cons u rest => simp only [join, String.append_assoc]

/-- Cutting always gives a piece: without a separator it is the whole, which may be empty. So there
is always a first piece that a character in front of the text can join. -/
theorem splitChars_ne_nil (d : Char) (cs : List Char) : splitChars d cs ≠ [] := by
  cases cs with
  | nil => simp [splitChars]
  | cons c cs =>
    simp only [splitChars]
    split
    · simp
    · split <;> simp

/-- Without the separator there is nothing to cut, and the characters are the only piece. -/
theorem splitChars_of_not_mem {d : Char} {cs : List Char} (h : d ∉ cs) :
    splitChars d cs = [cs] := by
  induction cs with
  | nil => rfl
  | cons c cs ih =>
    rw [List.mem_cons, not_or] at h
    rw [splitChars, if_neg (Ne.symm h.1), ih h.2]

/-- Characters without the separator, with a separator behind them, are the first piece. What
follows the separator is cut on its own. -/
theorem splitChars_append {d : Char} {piece cs : List Char} (h : d ∉ piece) :
    splitChars d (piece ++ d :: cs) = piece :: splitChars d cs := by
  induction piece with
  | nil => rw [List.nil_append, splitChars, if_pos rfl]
  | cons c piece ih =>
    rw [List.mem_cons, not_or] at h
    rw [List.cons_append, splitChars, if_neg (Ne.symm h.1), ih h.2]

/-- Texts without the separator, joined by it and cut again, are the texts. No texts at all would
come back as one empty text, so there has to be one. -/
theorem split_join {d : Char} {xs : List String} (hne : xs ≠ [])
    (h : ∀ s ∈ xs, d ∉ s.toList) : split d (join (String.singleton d) xs) = xs := by
  induction xs with
  | nil => exact absurd rfl hne
  | cons s rest ih =>
    obtain ⟨hs, hrest⟩ := List.forall_mem_cons.mp h
    by_cases hnil : rest = []
    · subst hnil
      rw [join, split, splitChars_of_not_mem hs, List.map_singleton, String.ofList_toList]
    · have hchars : (join (String.singleton d) (s :: rest)).toList =
          s.toList ++ d :: (join (String.singleton d) rest).toList := by
        rw [join_cons_of_ne_nil hnil]
        simp
      have hih := ih hnil hrest
      rw [split] at hih
      rw [split, hchars, splitChars_append hs, List.map_cons, String.ofList_toList, hih]

/-- The pieces between the occurrences of `d`, joined by `d`, are the characters again. This asks
for nothing, since no two texts are cut into the same pieces. -/
theorem join_splitChars (d : Char) (cs : List Char) :
    join (String.singleton d) ((splitChars d cs).map String.ofList) = String.ofList cs := by
  induction cs with
  | nil => rfl
  | cons c cs ih =>
    rw [splitChars, String.ofList_cons]
    split
    · rename_i hc
      have hpieces : (splitChars d cs).map String.ofList ≠ [] := by
        simpa using splitChars_ne_nil d cs
      rw [List.map_cons, join_cons_of_ne_nil hpieces, ih, hc]
      rfl
    · cases hsplit : splitChars d cs with
      | nil => exact absurd hsplit (splitChars_ne_nil d cs)
      | cons piece rest =>
        rw [hsplit, List.map_cons] at ih
        show join _ (String.ofList (c :: piece) :: rest.map String.ofList) = _
        rw [String.ofList_cons, join_append_cons, ih]

/-- The pieces of a text, joined by what it was cut at, are the text. Together with `split_join`,
texts and lists of pieces without the separator are one to one. -/
theorem join_split (d : Char) (s : String) : join (String.singleton d) (split d s) = s := by
  rw [split, join_splitChars, String.ofList_toList]

example : split '.' "a..b" = ["a", "", "b"] ∧ join "." ["a", "", "b"] = "a..b" := by decide +kernel

end Text
end RecordSchema
