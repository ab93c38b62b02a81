import RecordSchema.Proofs.Schema.Levels
import RecordSchema.Schema.Canonical

/-!
# What the canonical text tells apart

The canonical text is read from the left. A name ends at the first `:`, a type at the first character
that is no letter, and what comes next says whether values may be missing and whether there are
children. After the last child there is a `>`, after a field a `,`, a `>` or the end. So two texts
that start a longer one alike are of fields, or schemas, that differ in annotations alone, and what
comes after them is alike, too (`Field.text_append_inj`, `Schema.text_append_inj`).

For that no name may contain a `:`, and none a `>`, with which a level without fields would be
mistaken for one that starts with such a name.
-/

namespace RecordSchema

namespace Text

variable {q : Char → Bool} {xs ys r₁ r₂ : List Char}

/-- What passes a test up to where something does not is read off the text. With `c ≠ ':'` for the
test this reads a name, with `Char.isAlpha` a type. -/
theorem append_inj_of_forall (hxs : ∀ c ∈ xs, q c = true) (hys : ∀ c ∈ ys, q c = true)
    (hr₁ : ∀ c ∈ r₁.head?, q c = false) (hr₂ : ∀ c ∈ r₂.head?, q c = false)
    (h : xs ++ r₁ = ys ++ r₂) : xs = ys ∧ r₁ = r₂ := by
  have hstop : ∀ {l : List Char}, (∀ c ∈ l.head?, q c = false) → l.takeWhile q = [] := by
    intro l hl
    cases l with
    | nil => rfl
    | cons c l => rw [List.takeWhile_cons, hl c rfl, if_neg Bool.false_ne_true]
  have hread := congrArg (List.takeWhile q) h
  rw [List.takeWhile_append_of_pos hxs, List.takeWhile_append_of_pos hys, hstop hr₁, hstop hr₂,
    List.append_nil, List.append_nil] at hread
  subst hread
  exact ⟨rfl, List.append_cancel_left h⟩

end Text

/-- The tag of a type is made of letters, so it ends at the first character that is none. -/
theorem FieldType.isAlpha_of_mem_name {t : FieldType} : ∀ c ∈ t.name.toList, c.isAlpha = true :=
  List.all_eq_true.mp (by cases t <;> decide)

/-- A text that can come after a field: the end, or one that starts with `,` or `>`. -/
def FollowsField (r : List Char) : Prop := ∀ c ∈ r.head?, c = ',' ∨ c = '>'

/-- A text that can come after a schema: the end, or one that starts with `>`. -/
def FollowsSchema (r : List Char) : Prop := ∀ c ∈ r.head?, c = '>'

/-- The text of the children of a field, if it has any. -/
def Field.childrenText (f : Field) : List Char :=
  match f.nested with
  | none => []
  | some fields => '<' :: (Schema.text fields).toList ++ ['>']

/-- The text of the fields of a level that come after the first. -/
def Schema.furtherText : Schema → List Char
  | [] => []
  | f :: rest => ',' :: ' ' :: (Schema.text (f :: rest)).toList

/-- The mark of a field whose values may be missing. -/
def Field.markText (f : Field) : List Char := if f.nullable then ['?'] else []

section Parts

variable {f g : Field} {r r₁ r₂ : List Char}

/-- The parts of the text of a field: name, colon, type, mark and children, of which the last two
may be empty. -/
theorem Field.toList_text (f : Field) :
    f.text.toList =
      f.name.toList ++ ':' :: (f.type.name.toList ++ (f.markText ++ f.childrenText)) := by
  obtain ⟨name, type, nullable, metadata, nested⟩ := f
  cases nested <;> cases nullable <;> simp [Field.text, markText, childrenText, Schema.text]

/-- The text of a level is that of its first field, then that of the others with a separator in
front. -/
theorem Schema.toList_text_cons (f : Field) (rest : Schema) :
    (Schema.text (f :: rest)).toList = f.text.toList ++ furtherText rest := by
  cases rest <;> simp [Schema.text, Field.texts, Text.join, furtherText]

/-- After a field come the other fields, with a comma in front, or what comes after the schema. -/
theorem Schema.followsField_furtherText (rest : Schema) (hr : FollowsSchema r) :
    FollowsField (furtherText rest ++ r) := by
  cases rest with
  | nil => exact fun c hc => .inr (hr c hc)
  | cons g rest => exact fun c hc => .inl (Option.some.inj hc).symm

/-- Whether there are further fields is read off what comes after the first one: they start with a
comma, which does not come after a schema. -/
theorem Schema.text_eq_of_furtherText {s t : Schema} (hr₁ : FollowsSchema r₁)
    (hr₂ : FollowsSchema r₂) (h : furtherText s ++ r₁ = furtherText t ++ r₂) :
    (Schema.text s).toList ++ r₁ = (Schema.text t).toList ++ r₂ := by
  cases s with
  | nil =>
    cases t with
    | nil => exact h
    | cons g t => exact absurd (hr₁ ',' (congrArg List.head? h)) (by decide)
  | cons f s =>
    cases t with
    | nil => exact absurd (hr₂ ',' (congrArg List.head? h.symm)) (by decide)
    | cons g t => exact (List.cons.inj (List.cons.inj h).2).2

/-- What comes after the mark of a field is no mark and no letter: an opening bracket, or what comes
after the field. -/
theorem Field.head?_childrenText (f : Field) (hr : FollowsField r) :
    ∀ c ∈ (f.childrenText ++ r).head?, c ≠ '?' ∧ c.isAlpha = false := by
  intro c hc
  unfold childrenText at hc
  split at hc
  · rcases hr c hc with rfl | rfl <;> decide
  · rw [← Option.some.inj hc]
    decide

/-- What comes after the type of a field is no letter: a mark, or what comes after a mark. So the
name of the type ends where the first character that is no letter stands. -/
theorem Field.head?_markText (f : Field) (hr : FollowsField r) :
    ∀ c ∈ (f.markText ++ (f.childrenText ++ r)).head?, c.isAlpha = false := by
  intro c hc
  unfold markText at hc
  split at hc
  · rw [← Option.some.inj hc]
    decide
  · exact (f.head?_childrenText hr c hc).2

/-- The mark is read off a text that starts with it, or is seen to be missing, since what follows
starts with no mark. -/
theorem Field.nullable_eq_of_markText (hr₁ : ∀ c ∈ r₁.head?, c ≠ '?')
    (hr₂ : ∀ c ∈ r₂.head?, c ≠ '?') (h : f.markText ++ r₁ = g.markText ++ r₂) :
    f.nullable = g.nullable ∧ r₁ = r₂ := by
  unfold markText at h
  cases hf : f.nullable <;> cases hg : g.nullable <;> rw [hf, hg] at h
  · exact ⟨rfl, h⟩
  · exact absurd rfl (hr₁ '?' (congrArg List.head? h))
  · exact absurd rfl (hr₂ '?' (congrArg List.head? h.symm))
  · exact ⟨rfl, (List.cons.inj h).2⟩

/-- Name, type and mark of a field are read off a text that starts with its own, one after the
other. What is left starts with the children, if there are any. -/
theorem Field.parts_of_text (hf : ':' ∉ f.name.toList) (hg : ':' ∉ g.name.toList)
    (hr₁ : FollowsField r₁) (hr₂ : FollowsField r₂)
    (h : f.text.toList ++ r₁ = g.text.toList ++ r₂) :
    f.name = g.name ∧ f.type = g.type ∧ f.nullable = g.nullable ∧
      f.childrenText ++ r₁ = g.childrenText ++ r₂ := by
  have hcolon : ∀ {name : String}, ':' ∉ name.toList → ∀ c ∈ name.toList, (c != ':') = true :=
    fun hname c hc => bne_iff_ne.mpr fun heq => hname (heq ▸ hc)
  have hstop : ∀ {l : List Char}, ∀ c ∈ (':' :: l).head?, (c != ':') = false :=
    fun c hc => by rw [← Option.some.inj hc]; rfl
  rw [toList_text, toList_text] at h
  simp only [List.append_assoc, List.cons_append] at h
  obtain ⟨hname, h⟩ := Text.append_inj_of_forall (hcolon hf) (hcolon hg) hstop hstop h
  obtain ⟨htype, h⟩ := Text.append_inj_of_forall FieldType.isAlpha_of_mem_name
    FieldType.isAlpha_of_mem_name (f.head?_markText hr₁) (g.head?_markText hr₂)
    (List.cons.inj h).2
  obtain ⟨hnullable, h⟩ := nullable_eq_of_markText
    (fun c hc => (f.head?_childrenText hr₁ c hc).1) (fun c hc => (g.head?_childrenText hr₂ c hc).1) h
  exact ⟨String.toList_inj.mp hname, FieldType.name_injective (String.toList_inj.mp htype),
    hnullable, h⟩

end Parts

/-- None of the characters stands in a name of the schema, at any level. -/
def Schema.NamesAvoid (cs : List Char) (s : Schema) : Prop :=
  ∀ t, s.HasLevel t → ∀ f ∈ t, ∀ c ∈ cs, c ∉ f.name.toList

/-- None of the characters stands in the name of the field, nor in the names below it. -/
structure Field.NamesAvoid (cs : List Char) (f : Field) : Prop where
  name : ∀ c ∈ cs, c ∉ f.name.toList
  below : ∀ t : Schema, f.nested = some t → t.NamesAvoid cs

/-- The names of a schema avoid characters when those of each of its fields do, with all that is
below it. -/
theorem Schema.namesAvoid_iff {cs : List Char} {s : Schema} :
    s.NamesAvoid cs ↔ ∀ f ∈ s, f.NamesAvoid cs := by
  constructor
  · intro h f hf
    exact ⟨h s (.top s) f hf, fun t ht u hu => h u (.inner hf ht hu)⟩
  · intro h t ht
    cases ht with
    | top => exact fun f hf => (h f hf).name
    | inner hf hu ht => exact (h _ hf).below _ hu _ ht

instance (cs : List Char) (s : Schema) : Decidable (s.NamesAvoid cs) :=
  -- along the list `cs`: the search may prefer an instance that goes through all characters
  letI (f : Field) : Decidable (∀ c ∈ cs, c ∉ f.name.toList) := List.decidableBAll _ cs
  inferInstanceAs (Decidable (∀ t, s.HasLevel t → ∀ f ∈ t, ∀ c ∈ cs, c ∉ f.name.toList))

section Reading

variable {r : List Char}

/-- A text that starts with a field does not come after a schema: it starts with a name that
contains no `>`, or with the colon behind an empty one. -/
theorem Field.not_followsSchema_text {f : Field} (hf : '>' ∉ f.name.toList) :
    ¬ FollowsSchema (f.text.toList ++ r) := by
  intro h
  rw [toList_text] at h
  cases hname : f.name.toList with
  | nil =>
    rw [hname] at h
    exact absurd (h ':' rfl) (by decide)
  | cons c name =>
    rw [hname] at h hf
    exact hf (h c rfl ▸ List.mem_cons_self)

mutual

/-- A field is read off a text that starts with its own, but for annotations. What may come after a
field is part of the statement: only so does the induction know where the text of a nested field
ends. -/
theorem Field.text_append_inj :
    (f g : Field) → {r₁ r₂ : List Char} → f.NamesAvoid [':', '>'] → g.NamesAvoid [':', '>'] →
      FollowsField r₁ → FollowsField r₂ → f.text.toList ++ r₁ = g.text.toList ++ r₂ →
        f.withoutMetadata = g.withoutMetadata ∧ r₁ = r₂
  | ⟨name, type, nullable, metadata, none⟩, ⟨_, _, _, _, none⟩, r₁, r₂, hf, hg, hr₁, hr₂, h => by
    obtain ⟨rfl, rfl, rfl, h⟩ := Field.parts_of_text (hf.name ':' (by decide))
      (hg.name ':' (by decide)) hr₁ hr₂ h
    exact ⟨rfl, h⟩
  | ⟨_, _, _, _, none⟩, ⟨_, _, _, _, some gs⟩, r₁, r₂, hf, hg, hr₁, hr₂, h => by
    obtain ⟨-, -, -, h⟩ := Field.parts_of_text (hf.name ':' (by decide))
      (hg.name ':' (by decide)) hr₁ hr₂ h
    exact absurd (hr₁ '<' (congrArg List.head? h)) (by decide)
  | ⟨_, _, _, _, some fs⟩, ⟨_, _, _, _, none⟩, r₁, r₂, hf, hg, hr₁, hr₂, h => by
    obtain ⟨-, -, -, h⟩ := Field.parts_of_text (hf.name ':' (by decide))
      (hg.name ':' (by decide)) hr₁ hr₂ h
    exact absurd (hr₂ '<' (congrArg List.head? h.symm)) (by decide)
  | ⟨name, type, nullable, metadata, some fs⟩, ⟨_, _, _, _, some gs⟩, r₁, r₂, hf, hg, hr₁, hr₂,
      h => by
    obtain ⟨rfl, rfl, rfl, h⟩ := Field.parts_of_text (hf.name ':' (by decide))
      (hg.name ':' (by decide)) hr₁ hr₂ h
    have hclose : ∀ {r : List Char}, FollowsSchema ('>' :: r) :=
      fun c hc => (Option.some.inj hc).symm
    have hchildren :
        (Schema.text fs).toList ++ '>' :: r₁ = (Schema.text gs).toList ++ '>' :: r₂ := by
      simpa [Field.childrenText] using h
    obtain ⟨hfields, hrest⟩ := Schema.text_append_inj fs gs (hf.below fs rfl) (hg.below gs rfl)
      hclose hclose hchildren
    refine ⟨?_, (List.cons.inj hrest).2⟩
    rw [Field.withoutMetadata, Field.withoutMetadata, hfields]

/-- A schema is read off a text that starts with its own, but for annotations. An empty level and
one that starts with a field are told apart by what can come after a schema. -/
theorem Schema.text_append_inj :
    (s t : List Field) → {r₁ r₂ : List Char} → Schema.NamesAvoid [':', '>'] s →
      Schema.NamesAvoid [':', '>'] t → FollowsSchema r₁ → FollowsSchema r₂ →
        (Schema.text s).toList ++ r₁ = (Schema.text t).toList ++ r₂ →
          Schema.withoutMetadata s = Schema.withoutMetadata t ∧ r₁ = r₂
  | [], [], _, _, _, _, _, _, h => ⟨rfl, h⟩
  | [], g :: t, r₁, r₂, _, ht, hr₁, _, h => by
    have hg := Schema.namesAvoid_iff.mp ht g List.mem_cons_self
    rw [Schema.toList_text_cons, List.append_assoc] at h
    have hr₁ : FollowsSchema (g.text.toList ++ (Schema.furtherText t ++ r₂)) := h ▸ hr₁
    exact absurd hr₁ (Field.not_followsSchema_text (hg.name '>' (by decide)))
  | f :: s, [], r₁, r₂, hs, _, _, hr₂, h => by
    have hf := Schema.namesAvoid_iff.mp hs f List.mem_cons_self
    rw [Schema.toList_text_cons, List.append_assoc] at h
    have hr₂ : FollowsSchema (f.text.toList ++ (Schema.furtherText s ++ r₁)) := h ▸ hr₂
    exact absurd hr₂ (Field.not_followsSchema_text (hf.name '>' (by decide)))
  | f :: s, g :: t, r₁, r₂, hs, ht, hr₁, hr₂, h => by
    obtain ⟨hf, hs⟩ := List.forall_mem_cons.mp (Schema.namesAvoid_iff.mp hs)
    obtain ⟨hg, ht⟩ := List.forall_mem_cons.mp (Schema.namesAvoid_iff.mp ht)
    rw [Schema.toList_text_cons, Schema.toList_text_cons, List.append_assoc, List.append_assoc] at h
    obtain ⟨hfirst, h⟩ := Field.text_append_inj f g hf hg (Schema.followsField_furtherText s hr₁)
      (Schema.followsField_furtherText t hr₂) h
    obtain ⟨hrest, h⟩ := Schema.text_append_inj s t (Schema.namesAvoid_iff.mpr hs)
      (Schema.namesAvoid_iff.mpr ht) hr₁ hr₂ (Schema.text_eq_of_furtherText hr₁ hr₂ h)
    refine ⟨?_, h⟩
    rw [Schema.withoutMetadata, Schema.withoutMetadata, hfirst, hrest]

end

end Reading

mutual

/-- Annotations do not show in the text of a field, nor in those of its children. -/
theorem Field.text_withoutMetadata : (f : Field) → f.withoutMetadata.text = f.text
  | ⟨_, _, _, _, none⟩ => rfl
  | ⟨name, type, nullable, metadata, some fields⟩ => by
    rw [Field.withoutMetadata, Field.text, Field.text, Field.texts_withoutMetadata fields]

/-- Annotations do not show in the texts of the fields of a level. -/
theorem Field.texts_withoutMetadata :
    (fields : List Field) → Field.texts (Schema.withoutMetadata fields) = Field.texts fields
  | [] => rfl
  | f :: rest => by
    rw [Schema.withoutMetadata, Field.texts, Field.texts, Field.text_withoutMetadata f,
      Field.texts_withoutMetadata rest]

end

namespace Schema

variable {s t : Schema} {cs cs' : List Char}

/-- Annotations do not show in the text of a schema. This is the easy half of what the text
tells. -/
theorem text_withoutMetadata (s : Schema) : s.withoutMetadata.text = s.text := by
  rw [text, text, Field.texts_withoutMetadata]

/-- Names that avoid some characters avoid fewer, too. -/
theorem NamesAvoid.of_subset (h : s.NamesAvoid cs) (hcs : cs' ⊆ cs) : s.NamesAvoid cs' :=
  fun t ht f hf c hc => h t ht f hf c (hcs hc)

/-- **The canonical text is unambiguous.** Where no name, at any level, contains a `:`, a `,` or an
angle bracket, two schemas have the same text exactly when they are the same but for annotations. So
texts can be compared, or digested, in place of schemas. -/
theorem text_eq_iff_withoutMetadata_eq (s t : Schema) (hs : s.NamesAvoid [':', ',', '<', '>'])
    (ht : t.NamesAvoid [':', ',', '<', '>']) :
    s.text = t.text ↔ s.withoutMetadata = t.withoutMetadata := by
  constructor
  · intro h
    have hread : s.text.toList ++ [] = t.text.toList ++ [] := by rw [h]
    have hsub : [':', '>'] ⊆ [':', ',', '<', '>'] := by decide
    have hend : FollowsSchema [] := fun _ hc => nomatch hc
    exact (text_append_inj s t (hs.of_subset hsub) (ht.of_subset hsub) hend hend hread).1
  · intro h
    rw [← text_withoutMetadata s, h, text_withoutMetadata]

/-- Names with marks and blanks in them and an empty one, over children, no children and none. None
of the four characters is in a name, and the schemas differ in annotations. -/
theorem text_eq_iff_withoutMetadata_eq_marks :
    let s : Schema := [(Field.scalar "a?" .int true).annotate "doc" "key",
      .struct "" [.struct " b" [] false, (Field.scalar "" .date false).annotate "doc" "day"] true]
    let t : Schema := [.scalar "a?" .int true,
      (Field.struct "" [.struct " b" [] false, .scalar "" .date false] true).annotate "from" "b"]
    (s.NamesAvoid [':', ',', '<', '>'] ∧ t.NamesAvoid [':', ',', '<', '>']) ∧
      s.text = "a?:Int?, :Struct?< b:Struct<>, :Date>" ∧ s.text = t.text ∧
        s.withoutMetadata = t.withoutMetadata := by
  intro s t
  have hs : s.NamesAvoid [':', ',', '<', '>'] := by decide
  have ht : t.NamesAvoid [':', ',', '<', '>'] := by decide
  have htext : s.text = "a?:Int?, :Struct?< b:Struct<>, :Date>" := by decide
  have hsame : s.text = t.text := by decide
  exact ⟨⟨hs, ht⟩, htext, hsame, (text_eq_iff_withoutMetadata_eq s t hs ht).mp hsame⟩

end Schema
end RecordSchema
