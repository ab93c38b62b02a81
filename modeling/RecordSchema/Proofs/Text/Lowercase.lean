import RecordSchema.Text.Lowercase

/-!
# Laws of lower case

No letter is lost: the lower case of a letter has at least one, so only the empty text has an
empty lower case.

A text in lower case stays as it is (`lowercase_lowercase`). Every letter that lower-casing writes
is one that it leaves alone wherever it stands (`IsLower`): the forms in `lowerRuns` have no row of
their own, and the two forms of sigma are not the capital. That is settled row against row
(`apart`), not letter by letter.

Which letters a lower-cased text can contain is said by `IsFormOf`: each of them is a form of a
letter of the text, and each form of a letter is one that some text is given.
-/

namespace RecordSchema
namespace Text

/-- No letter is written as nothing. -/
theorem lowerChar_ne_nil (c : Char) : lowerChar c ≠ [] := by
  unfold lowerChar
  split
  · exact List.cons_ne_nil _ _
  · split
    · exact List.cons_ne_nil _ _
    · split <;> exact List.cons_ne_nil _ _

/-- Lower-casing leaves nothing of a text only when there was nothing. Every letter has a form of
one character at least, the two forms of sigma included. -/
theorem lowerFrom_eq_nil_iff {before cs : List Char} : lowerFrom before cs = [] ↔ cs = [] := by
  cases cs with
  | nil => exact iff_of_true rfl rfl
  | cons c cs =>
    refine iff_of_false (fun h => ?_) (List.cons_ne_nil _ _)
    rw [lowerFrom] at h
    obtain ⟨hc, -⟩ := List.append_eq_nil_iff.mp h
    split at hc
    · split at hc <;> exact List.cons_ne_nil _ _ hc
    · exact lowerChar_ne_nil c hc

/-- A text in lower case is empty only when the text is. So a name that is not empty stays so. -/
theorem lowercase_eq_empty_iff {s : String} : lowercase s = "" ↔ s = "" := by
  rw [lowercase, ← String.toList_eq_nil_iff, String.toList_ofList, lowerFrom_eq_nil_iff,
    String.toList_eq_nil_iff]

/-- A letter that lower-casing leaves alone wherever it stands. -/
def IsLower (c : Char) : Prop := lowerChar c = [c] ∧ c ≠ capitalSigma

instance (c : Char) : Decidable (IsLower c) := inferInstanceAs (Decidable (_ ∧ _))

/-- The row has a form for the letter with the number `n`. -/
def Covers (r : Nat × Nat × Nat × Nat) (n : Nat) : Prop :=
  r.1 ≤ n ∧ n ≤ r.2.1 ∧ (n - r.1) % r.2.2.1 = 0

instance (r : Nat × Nat × Nat × Nat) (n : Nat) : Decidable (Covers r n) :=
  inferInstanceAs (Decidable (_ ∧ _))

/-- Whether the forms that `r` gives lie outside the letters that `q` has forms for: below them,
above them, or between them, when only every second number is such a letter. -/
def apart (r q : Nat × Nat × Nat × Nat) : Bool :=
  Nat.blt (r.2.2.2 + (r.2.1 - r.1)) q.1 || Nat.blt q.2.1 r.2.2.2 ||
    ((r.2.2.1 == 2 || r.1 == r.2.1) && q.2.2.1 == 2 && r.2.2.2 % 2 != q.1 % 2)

section Rows

variable {r q : Nat × Nat × Nat × Nat} {n : Nat} {c d : Char}

/-- A form of a row that lies apart from another row is no letter of that one: it is below its first
letter, above its last, or between two letters of a row that takes every other one. -/
theorem not_covers_of_apart (h : apart r q = true) (hn : Covers r n) :
    ¬ Covers q (r.2.2.2 + (n - r.1)) := by
  obtain ⟨first, last, step, image⟩ := r
  obtain ⟨first', last', step', image'⟩ := q
  rintro ⟨hfirst', hlast', hstep'⟩
  obtain ⟨hfirst, hlast, hstep⟩ := hn
  simp only [apart, Bool.or_eq_true, Bool.and_eq_true, Nat.blt_eq, beq_iff_eq, bne_iff_ne] at *
  rcases h with (hbelow | habove) | ⟨⟨rfl | rfl, rfl⟩, hparity⟩
  · omega
  · omega
  · omega
  · omega

/-- No form in `lowerRuns` has a form of its own there. The rows are compared in pairs: going
through the letters one by one would take far longer. -/
theorem apart_of_mem_lowerRuns (hr : r ∈ lowerRuns) (hq : q ∈ lowerRuns) : apart r q = true := by
  have h : (lowerRuns.all fun r => lowerRuns.all (apart r)) = true := by decide +kernel
  simp only [List.all_eq_true] at h
  exact h r hr q hq

/-- The forms in `lowerRuns` are numbers of characters, and `İ` is not among them. That letter has
no row, as its form has two characters. -/
theorem forms_of_mem_lowerRuns (hr : r ∈ lowerRuns) :
    (r.2.2.2 + (r.2.1 - r.1) < 0xD800 ∨ 0xDFFF < r.2.2.2 ∧ r.2.2.2 + (r.2.1 - r.1) < 0x110000) ∧
      apart r (0x130, 0x130, 2, 0x69) = true := by
  have h : ∀ r ∈ lowerRuns,
      (r.2.2.2 + (r.2.1 - r.1) < 0xD800 ∨
        0xDFFF < r.2.2.2 ∧ r.2.2.2 + (r.2.1 - r.1) < 0x110000) ∧
      apart r (0x130, 0x130, 2, 0x69) = true := by decide +kernel
  exact h r hr

/-- A letter without a row is left alone, `İ` apart. The ASCII capitals have a row but are converted
without it, so below 0x80 this is settled by going through all of ASCII. -/
theorem isLower_of_not_covers (hdot : c.toNat ≠ 0x130)
    (h : ∀ r ∈ lowerRuns, ¬ Covers r c.toNat) : IsLower c := by
  have hsigma : c ≠ capitalSigma := by
    rintro rfl
    exact h (0x3A3, 0x3AB, 1, 0x3C3) (by decide) (by decide)
  refine ⟨?_, hsigma⟩
  unfold lowerChar
  split
  · rename_i hascii
    have hsmall : ∀ n < 0x80, ¬ Covers (0x41, 0x5A, 1, 0x61) n →
        (Char.ofNat n).toLower = Char.ofNat n := by decide
    have hself := hsmall c.toNat hascii (h _ (by decide))
    rw [Char.ofNat_toNat] at hself
    rw [hself]
  · rw [if_neg fun hc => hdot (by rw [hc]; rfl)]
    split
    · rename_i r hr
      have hc := List.find?_some hr
      simp only [Bool.and_eq_true, decide_eq_true_eq, beq_iff_eq] at hc
      exact absurd ⟨hc.1.1, hc.1.2, hc.2⟩ (h r (List.mem_of_find?_eq_some hr))
    · rfl

/-- The form that a row gives is left alone: no row covers it, and it is not `İ`. Since rows are
compared as rows, the table is gone through once for each pair of them and never letter by
letter. -/
theorem isLower_of_covers (hr : r ∈ lowerRuns) (h : Covers r n) :
    IsLower (Char.ofNat (r.2.2.2 + (n - r.1))) := by
  obtain ⟨hchar, hdot⟩ := forms_of_mem_lowerRuns hr
  have hnumber : (Char.ofNat (r.2.2.2 + (n - r.1))).toNat = r.2.2.2 + (n - r.1) := by
    have hvalid : (r.2.2.2 + (n - r.1)).isValidChar := by
      obtain ⟨hfirst, hlast, -⟩ := h
      unfold Nat.isValidChar
      omega
    rw [Char.ofNat, dif_pos hvalid]
    rfl
  refine isLower_of_not_covers (fun heq => ?_) fun q hq => ?_
  · rw [hnumber] at heq
    refine not_covers_of_apart hdot h ?_
    rw [heq]
    decide
  · rw [hnumber]
    exact not_covers_of_apart (apart_of_mem_lowerRuns hr hq) h

/-- What lower-casing writes for a letter is left alone, whether a row gives it or the letter has
none. -/
theorem isLower_of_mem_lowerChar (h : d ∈ lowerChar c) : IsLower d := by
  unfold lowerChar at h
  split at h
  · rename_i hascii
    have hsmall : ∀ n < 0x80, IsLower (Char.ofNat n).toLower := by decide
    have hlower := hsmall c.toNat hascii
    rw [Char.ofNat_toNat] at hlower
    rwa [List.mem_singleton.mp h]
  · split at h
    · obtain ⟨hi, hdot⟩ : IsLower 'i' ∧ IsLower '\u0307' := by decide
      exact List.forall_mem_cons.mpr ⟨hi, List.forall_mem_singleton.mpr hdot⟩ d h
    · rename_i hdot
      split at h
      · rename_i r hr
        have hc := List.find?_some hr
        simp only [Bool.and_eq_true, decide_eq_true_eq, beq_iff_eq] at hc
        rw [List.mem_singleton.mp h]
        exact isLower_of_covers (List.mem_of_find?_eq_some hr) ⟨hc.1.1, hc.1.2, hc.2⟩
      · rename_i hnone
        rw [List.mem_singleton.mp h]
        refine isLower_of_not_covers (fun heq => hdot ?_) fun r hr hcovers => ?_
        · exact Char.toNat_inj.mp heq
        · have hc := List.find?_eq_none.mp hnone r hr
          simp only [Bool.and_eq_true, decide_eq_true_eq, beq_iff_eq] at hc
          exact hc ⟨⟨hcovers.1, hcovers.2.1⟩, hcovers.2.2⟩

end Rows

section Letters

variable {before cs : List Char}

/-- Every letter of a text in lower case is left alone wherever it stands. The two forms of a
capital sigma are, too. -/
theorem isLower_of_mem_lowerFrom {d : Char} (h : d ∈ lowerFrom before cs) : IsLower d := by
  induction cs generalizing before with
  | nil => exact nomatch h
  | cons c cs ih =>
    rw [lowerFrom] at h
    rcases List.mem_append.mp h with h | h
    · split at h
      · obtain ⟨hfinal, hinner⟩ : IsLower '\u03c2' ∧ IsLower '\u03c3' := by decide
        split at h
        · exact List.mem_singleton.mp h ▸ hfinal
        · exact List.mem_singleton.mp h ▸ hinner
      · exact isLower_of_mem_lowerChar h
    · exact ih h

/-- A text of letters that are left alone is left as it is. -/
theorem lowerFrom_eq_self (h : ∀ c ∈ cs, IsLower c) : lowerFrom before cs = cs := by
  induction cs generalizing before with
  | nil => rfl
  | cons c cs ih =>
    obtain ⟨⟨hself, hsigma⟩, hcs⟩ := List.forall_mem_cons.mp h
    rw [lowerFrom, if_neg hsigma, hself, ih hcs]
    rfl

end Letters

/-- `d` is written for the letter `c` at some place in a text. -/
def IsFormOf (d c : Char) : Prop := d ∈ lowerChar c ∨ c = capitalSigma ∧ d = '\u03c2'

section Forms

variable {before cs : List Char} {c d : Char}

/-- Lower-casing writes forms of the letters that are there, and nothing else. A capital sigma has
two forms, one of them for the end of a word, and both are its forms here wherever it stands. -/
theorem exists_isFormOf_of_mem_lowerFrom (h : d ∈ lowerFrom before cs) : ∃ c ∈ cs, IsFormOf d c := by
  induction cs generalizing before with
  | nil => exact nomatch h
  | cons c cs ih =>
    rw [lowerFrom] at h
    rcases List.mem_append.mp h with h | h
    · refine ⟨c, List.mem_cons_self, ?_⟩
      split at h
      · rename_i hsigma
        have hinner : '\u03c3' ∈ lowerChar capitalSigma := by decide
        split at h
        · exact .inr ⟨hsigma, List.mem_singleton.mp h⟩
        · rw [hsigma, List.mem_singleton.mp h]
          exact .inl hinner
      · exact .inl h
    · obtain ⟨c', hc', hform⟩ := ih h
      exact ⟨c', List.mem_cons_of_mem _ hc', hform⟩

/-- A letter with another letter as a form stands in a text in which that one does not, until it
is written in lower case. For a sigma the text needs a letter in front, so that the sigma ends a
word. -/
theorem exists_text_of_isFormOf (h : IsFormOf d c) (hne : c ≠ d) :
    ∃ s : String, s ≠ "" ∧ d ∉ s.toList ∧ d ∈ (lowercase s).toList := by
  by_cases hsigma : c = capitalSigma
  · subst hsigma
    have hone : lowerChar capitalSigma = ['\u03c3'] := by decide
    rcases h with h | ⟨-, rfl⟩
    · rw [hone, List.mem_singleton] at h
      subst h
      exact ⟨"\u03a3", by decide⟩
    · -- at the end of a word only, so another letter has to come first
      exact ⟨"A\u03a3", by decide +kernel⟩
  · have hform : d ∈ lowerChar c := h.resolve_right fun h => hsigma h.1
    refine ⟨String.singleton c, ?_, ?_, ?_⟩
    · simp [← String.toList_inj]
    · simpa using hne.symm
    · rw [lowercase, String.toList_ofList, String.toList_singleton, lowerFrom, if_neg hsigma]
      exact List.mem_append_left _ hform

end Forms

/-- **Lower case is final.** A text in lower case is its own lower case. Keys of a policy that
passes case over are made in this way, so a key is its own key. -/
theorem lowercase_lowercase (s : String) : lowercase (lowercase s) = lowercase s := by
  unfold lowercase
  rw [String.toList_ofList, lowerFrom_eq_self fun _ h => isLower_of_mem_lowerFrom h]

end Text
end RecordSchema
