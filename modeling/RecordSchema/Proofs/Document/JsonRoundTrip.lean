import RecordSchema.Document.Encoding
import RecordSchema.Proofs.Json.Records
import RecordSchema.Proofs.Schema.Levels
import RecordSchema.Proofs.TextMap

/-!
# Decoding undoes encoding

A schema or a catalog written as JSON is read back as it was, whatever it holds, as long as it is
not nested deeper than the reader allows.

Each kind of value is a record or an array of what is in it, which a reader takes apart again from
the members: the depth that is left to the reader of a value is enough for what is in it, and below
the fields of a level that holds by the recursion through the levels. No limit on depth enters but
at the end, so schemas of any depth differ in JSON when they differ (`Schema.toJson_injective`).
-/

namespace RecordSchema

section Members

variable {α : Type} {get : String → Option Json} {name : String} {read : Json → Option α}

/-- A member that has to be there is read by its value. -/
theorem Format.need_eq {v : Json} (h : get name = some v) :
    Json.format.need get name read = read v := by rw [need, h]

/-- A member that need not be there is read as it was written, or found missing. A value that is
written as `null` would be taken for a missing one. -/
theorem Format.allow_optional_eq {o : Option α} {write : α → Json}
    (h : get name = o.map write) (hread : ∀ a, o = some a → read (write a) = some a)
    (hnull : ∀ a, write a ≠ .null) :
    Format.allow get name none (Json.format.optional read) = some o := by
  rw [allow, h]
  cases o with
  | none => rfl
  | some a =>
    have hoptional : ∀ j : Json, j ≠ .null → Json.format.optional read j = (read j).map some := by
      intro j hj
      cases j with
      | null => exact absurd rfl hj
      | _ => rfl
    show Json.format.optional read (write a) = _
    rw [hoptional _ (hnull a), hread a rfl]
    rfl

end Members

namespace Metadata

variable {n : Nat} {m : Metadata}

/-- The annotations of a field in JSON, unless there are none. -/
def toJson? (m : Metadata) : Option Json := if m.isEmpty then none else some m.toJson

/-- Annotations are left out of a field when there are none. -/
theorem member_eq (m : Metadata) : m.member = Json.present [("metadata", m.toJson?)] := by
  unfold member toJson?
  split <;> rfl

/-- Annotations that are there are as they are in JSON. -/
theorem eq_of_toJson? {j : Json} (h : m.toJson? = some j) : m.toJson = j := by
  unfold toJson? at h
  split at h
  · exact nomatch h
  · exact Option.some.inj h

/-- Annotations that are left out are none. So the default of a reader, no annotations, is the right
one for a field without this member. -/
theorem eq_empty_of_toJson? (h : m.toJson? = none) : m = TextMap.empty := by
  unfold toJson? at h
  split at h
  · rename_i hempty
    exact TextMap.eq_empty_of_isEmpty hempty
  · exact nomatch h

/-- Annotations are read back from their object, key by key. The keys of a map ascend when it is
written, so writing them one by one into an empty map gives the map again. -/
theorem texts_toJson (h : m.toJson.depth ≤ n) : Json.format.texts n m.toJson = some m := by
  obtain ⟨n, rfl, hentries, -⟩ := Json.entries_of_depth_le h
  have hread : (m.entries.map fun e => (e.1, Json.text e.2)).mapM
      (fun e => (Json.format.text e.2).bind fun s => some (e.1, s)) = some m.entries :=
    Json.mapM_map_eq_some fun _ _ => rfl
  show (Json.format.entries (n + 1) m.toJson).bind (fun entries =>
    (entries.mapM fun e => (Json.format.text e.2).bind fun s => some (e.1, s)).bind fun read =>
      some (TextMap.ofList read)) = _
  rw [toJson, hentries, Option.bind_some, hread, Option.bind_some, TextMap.ofList_entries]

/-- The annotations of a field are read as they were written, or found missing, and then there are
none. -/
theorem allow_texts_eq {get : String → Option Json} (h : get "metadata" = m.toJson?)
    (hdepth : ∀ j, m.toJson? = some j → j.depth ≤ n) :
    Format.allow get "metadata" TextMap.empty (Json.format.texts n) = some m := by
  rw [Format.allow, h]
  cases hm : m.toJson? with
  | none =>
    rw [eq_empty_of_toJson? hm]
    rfl
  | some j =>
    obtain rfl := eq_of_toJson? hm
    exact texts_toJson (hdepth _ hm)

/-- Annotations are written without numbers. -/
theorem plain_toJson (m : Metadata) : m.toJson.Plain := by
  refine .record fun e he => ?_
  obtain ⟨d, -, rfl⟩ := List.mem_map.mp he
  exact .text d.2

/-- Annotations that are there are written without numbers. -/
theorem plain_of_toJson? {j : Json} (h : m.toJson? = some j) : j.Plain :=
  eq_of_toJson? h ▸ m.plain_toJson

end Metadata

section Schemas

/-- A schema is a record of its fields. The definition spells the recursion out, since it goes
through nested schemas. -/
theorem Schema.toJson_eq (s : Schema) :
    s.toJson = .record (Json.present [("fields", some (.array (s.map Field.toJson)))]) := by
  have hmap : ∀ fields : List Field, Field.toJsonEach fields = fields.map Field.toJson := by
    intro fields
    induction fields with
    | nil => rfl
    | cons f rest ih => rw [Field.toJsonEach, ih, List.map_cons]
  rw [Schema.toJson, hmap]
  rfl

/-- The members of a field in JSON. -/
def Field.members (f : Field) : List (String × Option Json) := [
  ("name", some (.text f.name)), ("field_type", some f.type.toJson),
  ("nullable", some (.bool f.nullable)), ("metadata", f.metadata.toJson?),
  ("nested", f.nested.map Schema.toJson)]

/-- A field is a record of its members, without those that are left out. In this form what a reader
finds under a name follows from the lemmas on records, whichever members are missing. -/
theorem Field.toJson_eq (f : Field) : f.toJson = .record (Json.present f.members) := by
  obtain ⟨name, type, nullable, metadata, nested⟩ := f
  cases nested with
  | none =>
    rw [Field.toJson, Metadata.member_eq]
    unfold members Metadata.toJson?
    split <;> rfl
  | some fields =>
    rw [Field.toJson, Metadata.member_eq]
    unfold members Metadata.toJson?
    split <;> rfl

/-- A field is written without numbers when its children are. -/
theorem Field.plain_toJson {f : Field}
    (hbelow : ∀ t : Schema, f.nested = some t → t.toJson.Plain) : f.toJson.Plain := by
  rw [Field.toJson_eq]
  refine Json.plain_present ?_
  simp only [members, List.forall_mem_cons, Option.some.injEq, forall_eq']
  refine ⟨.text f.name, .text f.type.name, .bool f.nullable, fun j hj => ?_, fun j hj => ?_,
    fun _ h => nomatch h⟩
  · exact Metadata.plain_of_toJson? hj
  · obtain ⟨t, ht, rfl⟩ := Option.map_eq_some_iff.mp hj
    exact hbelow t ht

/-- A schema is written without numbers, so its text is read back as the value. -/
theorem Schema.plain_toJson (s : Schema) : s.toJson.Plain := by
  induction s using levelInduction with
  | step s ih =>
    rw [Schema.toJson_eq]
    refine Json.plain_present ?_
    simp only [List.forall_mem_cons, Option.some.injEq, forall_eq']
    refine ⟨.array fun j hj => ?_, fun _ h => nomatch h⟩
    obtain ⟨f, hf, rfl⟩ := List.mem_map.mp hj
    exact Field.plain_toJson (ih f hf)

/-- A type is read back from its tag. -/
theorem Format.fieldType_toJson (n : Nat) (t : FieldType) :
    Json.format.fieldType n t.toJson = some t := by
  show (Json.format.found (FieldType.ofName? t.name)).bind some = some t
  rw [FieldType.ofName?_name]
  rfl

/-- A field is read back when its children are, at any depth that covers it. Each member is found by
its name, as the names of members differ. -/
theorem Field.read_toJson {f : Field} {n : Nat}
    (hbelow : ∀ t : Schema, f.nested = some t → ∀ k, t.toJson.depth ≤ k →
      Json.format.schema k t.toJson = some t)
    (h : f.toJson.depth ≤ n) : Json.format.field n f.toJson = some f := by
  rw [Field.toJson_eq] at *
  have hnames : (f.members.map Prod.fst).Nodup := by
    show ["name", "field_type", "nullable", "metadata", "nested"].Nodup
    decide
  obtain ⟨n, get, rfl, hrecord, hmembers⟩ := Json.record_of_depth_le hnames h
    ["name", "field_type", "nullable", "metadata", "nested"]
  simp only [members, List.forall_mem_cons] at hmembers
  obtain ⟨⟨gname, -⟩, ⟨gtype, -⟩, ⟨gnullable, -⟩, ⟨gmetadata, hmetadata⟩, ⟨gnested, hnested⟩, -⟩ :=
    hmembers
  have rname : Json.format.need get "name" Json.format.text = some f.name := Format.need_eq gname
  have rtype : Json.format.need get "field_type" (Json.format.fieldType n) = some f.type :=
    (Format.need_eq gtype).trans (Format.fieldType_toJson n f.type)
  have rnullable : Json.format.need get "nullable" Json.format.flag = some f.nullable :=
    Format.need_eq gnullable
  have rmetadata := Metadata.allow_texts_eq gmetadata hmetadata
  have rnested : Format.allow get "nested" none (Json.format.optional (Json.format.schema n)) =
      some f.nested := by
    refine Format.allow_optional_eq gnested (fun t ht => ?_) fun t h => nomatch h
    exact hbelow t ht n (hnested _ (by rw [ht, Option.map_some]))
  rw [Format.field]
  simp only [hrecord, rname, rtype, rnullable, rmetadata, rnested, Option.bind_eq_bind,
    Option.bind_some]
  cases f
  rfl

/-- A schema is read back at any depth that its reader is allowed, as long as it covers the
schema. -/
theorem Schema.read_toJson {s : Schema} {n : Nat} (h : s.toJson.depth ≤ n) :
    Json.format.schema n s.toJson = some s := by
  induction s using levelInduction generalizing n with
  | step s ih =>
    -- a level takes two from the bound, one for its record and one for the list in it
    rw [Schema.toJson_eq] at *
    have hnames : ([("fields", some (Json.array (s.map Field.toJson)))].map Prod.fst).Nodup :=
      List.nodup_singleton _
    obtain ⟨n, get, rfl, hrecord, hmembers⟩ := Json.record_of_depth_le hnames h ["fields"]
    obtain ⟨gfields, hfields⟩ := hmembers _ List.mem_cons_self
    obtain ⟨n, rfl, hitems, hdepth⟩ := Json.items_of_depth_le (hfields _ rfl)
    have hread : (s.map Field.toJson).mapM (Json.format.field n) = some s :=
      Json.mapM_map_eq_some fun f hf =>
        Field.read_toJson (fun t ht k hk => ih f hf t ht hk) (hdepth _ (List.mem_map_of_mem hf))
    rw [Format.schema]
    simp only [hrecord, Format.need_eq gfields, hitems, Option.bind_eq_bind, Option.bind_some]
    exact hread

/-- **Schemas that are the same in JSON are equal.** They are read back, at the depth they have. -/
theorem Schema.toJson_injective {s t : Schema} (h : s.toJson = t.toJson) : s = t := by
  have hs := Schema.read_toJson (s := s) (Nat.le_refl _)
  rw [h, Schema.read_toJson (Nat.le_refl _)] at hs
  exact (Option.some.inj hs).symm

end Schemas

section Catalogs

/-- **Induction over levels.** A property of definitions holds of all when it holds of each whose
fields have only children with the property. -/
theorem Definition.levelInduction {motive : Definition → Prop}
    (step : ∀ d : Definition, (∀ f ∈ d, ∀ e, f.children = some e → motive e) → motive d)
    (d : Definition) : motive d := by
  induction h : sizeOf d using Nat.strongRecOn generalizing d with
  | ind n ih =>
    refine step d fun f hf e he => ih _ ?_ e rfl
    have hfield : sizeOf e < sizeOf f := by
      obtain ⟨name, type, nullable, metadata, reference, children⟩ := f
      obtain rfl : children = some e := he
      simp only [FieldDef.mk.sizeOf_spec, Option.some.sizeOf_spec]
      omega
    exact h ▸ Nat.lt_trans hfield (List.sizeOf_lt_of_mem hf)

/-- A member that need not be there is left out when it has no value. -/
theorem memberIf_eq {α : Type} (name : String) (write : α → Json) (o : Option α) :
    memberIf name write o = Json.present [(name, o.map write)] := by cases o <;> rfl

/-- The members of settings in JSON. -/
def Overrides.members (o : Overrides) : List (String × Option Json) := [
  ("strict_names", o.strictNames.map .bool), ("allow_empty_struct", o.allowEmptyStruct.map .bool),
  ("case_sensitive_names", o.caseSensitive.map .bool),
  ("name_delimiter", o.delimiter.map fun c => .text (String.singleton c))]

/-- Settings are a record of those that are made. -/
theorem Overrides.toJson_eq (o : Overrides) : o.toJson = .record (Json.present o.members) := by
  unfold toJson
  rw [memberIf_eq, memberIf_eq, memberIf_eq, memberIf_eq]
  simp only [← Json.present_append]
  rfl

/-- Settings are written without numbers: a delimiter is a text of one character, and the others are
switches. -/
theorem Overrides.plain_toJson (o : Overrides) : o.toJson.Plain := by
  rw [Overrides.toJson_eq]
  refine Json.plain_present ?_
  simp only [members, List.forall_mem_cons, Option.map_eq_some_iff, forall_exists_index, and_imp,
    forall_apply_eq_imp_iff₂]
  exact ⟨fun b _ => .bool b, fun b _ => .bool b, fun b _ => .bool b, fun c _ => .text _,
    fun _ h => nomatch h⟩

/-- Settings are read back as they were written; one that is not made is found missing, not
false. -/
theorem Overrides.read_toJson {o : Overrides} {n : Nat} (h : o.toJson.depth ≤ n) :
    Json.format.overrides n o.toJson = some o := by
  rw [Overrides.toJson_eq] at *
  have hnames : (o.members.map Prod.fst).Nodup := by
    show ["strict_names", "allow_empty_struct", "case_sensitive_names", "name_delimiter"].Nodup
    decide
  obtain ⟨n, get, rfl, hrecord, hmembers⟩ := Json.record_of_depth_le hnames h
    ["strict_names", "allow_empty_struct", "case_sensitive_names", "name_delimiter"]
  simp only [members, List.forall_mem_cons] at hmembers
  obtain ⟨⟨gstrict, -⟩, ⟨gempty, -⟩, ⟨gcase, -⟩, ⟨gdelimiter, -⟩, -⟩ := hmembers
  have rstrict : Format.allow get "strict_names" none (Json.format.optional Json.format.flag) =
      some o.strictNames := Format.allow_optional_eq gstrict (fun _ _ => rfl) fun _ h => nomatch h
  have rempty : Format.allow get "allow_empty_struct" none
      (Json.format.optional Json.format.flag) = some o.allowEmptyStruct :=
    Format.allow_optional_eq gempty (fun _ _ => rfl) fun _ h => nomatch h
  have rcase : Format.allow get "case_sensitive_names" none
      (Json.format.optional Json.format.flag) = some o.caseSensitive :=
    Format.allow_optional_eq gcase (fun _ _ => rfl) fun _ h => nomatch h
  have rdelimiter : Format.allow get "name_delimiter" none
      (Json.format.optional Json.format.char) = some o.delimiter := by
    refine Format.allow_optional_eq gdelimiter (fun c _ => ?_) fun _ h => nomatch h
    have htext : Json.format.text (.text (String.singleton c)) = some (String.singleton c) := rfl
    rw [Format.char, htext]
    simp only [Option.bind_eq_bind, Option.bind_some, String.toList_singleton]
    rfl
  rw [Format.overrides]
  simp only [hrecord, rstrict, rempty, rcase, rdelimiter, Option.bind_eq_bind, Option.bind_some]
  rfl

/-- A definition in JSON. -/
def Definition.toJson (d : Definition) : Json := .array (d.map FieldDef.toJson)

/-- A definition is the array of its fields. The definition of the one spells the recursion out,
since it goes by the constructors of the other. -/
theorem FieldDef.toJsonEach_eq (d : Definition) :
    .array (FieldDef.toJsonEach d) = Definition.toJson d := by
  have hmap : ∀ fields : List FieldDef, FieldDef.toJsonEach fields = fields.map FieldDef.toJson := by
    intro fields
    induction fields with
    | nil => rfl
    | cons f rest ih => rw [FieldDef.toJsonEach, ih, List.map_cons]
  rw [Definition.toJson, hmap]

/-- The members of a field of a definition in JSON. -/
def FieldDef.members (f : FieldDef) : List (String × Option Json) := [
  ("name", some (.text f.name)), ("type", some (.text f.type)),
  ("nullable", some (.bool f.nullable)), ("metadata", f.metadata.toJson?),
  ("schema", f.reference.map .text), ("fields", f.children.map Definition.toJson)]

/-- A field of a definition is a record of its members, without those that are left out: its
metadata when empty, and a reference or children when there are none. -/
theorem FieldDef.toJson_eq (f : FieldDef) : f.toJson = .record (Json.present f.members) := by
  obtain ⟨name, type, nullable, metadata, reference, children⟩ := f
  cases children with
  | none =>
    rw [FieldDef.toJson, Metadata.member_eq, memberIf_eq]
    unfold members Metadata.toJson?
    cases reference <;> split <;> rfl
  | some d =>
    rw [FieldDef.toJson, FieldDef.toJsonEach_eq, Metadata.member_eq, memberIf_eq]
    unfold members Metadata.toJson?
    cases reference <;> split <;> rfl

/-- A field of a definition is written without numbers when its children are. Values without numbers
are those whose compact form is known to be read back. -/
theorem FieldDef.plain_toJson {f : FieldDef}
    (hbelow : ∀ d : Definition, f.children = some d → (Definition.toJson d).Plain) :
    f.toJson.Plain := by
  rw [FieldDef.toJson_eq]
  refine Json.plain_present ?_
  simp only [members, List.forall_mem_cons, Option.some.injEq, forall_eq']
  refine ⟨.text f.name, .text f.type, .bool f.nullable, fun j hj => ?_, fun j hj => ?_,
    fun j hj => ?_, fun _ h => nomatch h⟩
  · exact Metadata.plain_of_toJson? hj
  · obtain ⟨r, -, rfl⟩ := Option.map_eq_some_iff.mp hj
    exact .text r
  · obtain ⟨d, hd, rfl⟩ := Option.map_eq_some_iff.mp hj
    exact hbelow d hd

/-- A definition is written without numbers, at any depth. The induction is on the levels of
children in place, as references are written by name. -/
theorem Definition.plain_toJson (d : Definition) : (Definition.toJson d).Plain := by
  induction d using Definition.levelInduction with
  | step d ih =>
    refine .array fun j hj => ?_
    obtain ⟨f, hf, rfl⟩ := List.mem_map.mp hj
    exact FieldDef.plain_toJson (ih f hf)

/-- A field of a definition is read back when its children are. Its reader takes a reference and
children both, if both were written; that this is improper is for the examination to say. -/
theorem FieldDef.read_toJson {f : FieldDef} {n : Nat}
    (hbelow : ∀ d : Definition, f.children = some d → ∀ k,
      (∀ g ∈ d, g.toJson.depth ≤ k) → (d.map FieldDef.toJson).mapM (Json.format.fieldDef k) = some d)
    (h : f.toJson.depth ≤ n) : Json.format.fieldDef n f.toJson = some f := by
  rw [FieldDef.toJson_eq] at *
  have hnames : (f.members.map Prod.fst).Nodup := by
    show ["name", "type", "nullable", "metadata", "schema", "fields"].Nodup
    decide
  obtain ⟨n, get, rfl, hrecord, hmembers⟩ := Json.record_of_depth_le hnames h
    ["name", "type", "nullable", "metadata", "schema", "fields"]
  simp only [members, List.forall_mem_cons] at hmembers
  obtain ⟨⟨gname, -⟩, ⟨gtype, -⟩, ⟨gnullable, -⟩, ⟨gmetadata, hmetadata⟩, ⟨greference, -⟩,
    ⟨gchildren, hchildren⟩, -⟩ := hmembers
  have rname : Json.format.need get "name" Json.format.text = some f.name := Format.need_eq gname
  have rtype : Json.format.need get "type" Json.format.text = some f.type := Format.need_eq gtype
  have rnullable : Format.allow get "nullable" false Json.format.flag = some f.nullable := by
    rw [Format.allow, gnullable]
    rfl
  have rmetadata := Metadata.allow_texts_eq gmetadata hmetadata
  have rreference : Format.allow get "schema" none (Json.format.optional Json.format.text) =
      some f.reference :=
    Format.allow_optional_eq greference (fun _ _ => rfl) fun _ h => nomatch h
  rw [Format.fieldDef]
  simp only [hrecord, rname, rtype, rnullable, rmetadata, rreference, Option.bind_eq_bind,
    Option.bind_some]
  rw [Format.allow_optional_eq gchildren (fun d hd => ?_) fun _ h => nomatch h]
  · cases f
    rfl
  · obtain ⟨n, rfl, -, hdepth⟩ :=
      Json.items_of_depth_le (hchildren (Definition.toJson d) (by rw [hd, Option.map_some]))
    exact hbelow d hd n fun g hg => hdepth _ (List.mem_map_of_mem hg)

/-- The fields of a definition are read back at any depth that their reader is allowed. The bound is
generalized in the induction, since it gets smaller with each level. -/
theorem Definition.read_fields {d : Definition} {n : Nat} (h : ∀ f ∈ d, f.toJson.depth ≤ n) :
    (d.map FieldDef.toJson).mapM (Json.format.fieldDef n) = some d := by
  induction d using Definition.levelInduction generalizing n with
  | step d ih =>
    refine Json.mapM_map_eq_some fun f hf => ?_
    exact FieldDef.read_toJson (fun e he k hk => ih f hf e he hk) (h f hf)

/-- A definition is read back at any depth that covers it. -/
theorem Definition.read_toJson {d : Definition} {n : Nat} (h : (Definition.toJson d).depth ≤ n) :
    Json.format.definition n (Definition.toJson d) = some d := by
  obtain ⟨n, rfl, -, hdepth⟩ := Json.items_of_depth_le h
  exact Definition.read_fields fun f hf => hdepth _ (List.mem_map_of_mem hf)

/-- The members of a catalog in JSON. -/
def Catalog.members (c : Catalog) : List (String × Option Json) := [
  ("config", some ((c.overrides.map Overrides.toJson).getD .null)),
  ("schemas", some (.record (c.definitions.entries.map fun e => (e.1, Definition.toJson e.2))))]

/-- A catalog is a record of its settings, left out if there are none, and of its definitions. -/
theorem Catalog.toJson_eq (c : Catalog) : c.toJson = .record (Json.present c.members) := by
  unfold toJson
  simp only [FieldDef.toJsonEach_eq]
  rfl

/-- A catalog is written without numbers: its overrides are switches and a character, and its
definitions are arrays of fields. -/
theorem Catalog.plain_toJson (c : Catalog) : c.toJson.Plain := by
  rw [Catalog.toJson_eq]
  refine Json.plain_present ?_
  simp only [members, List.forall_mem_cons, Option.some.injEq, forall_eq']
  refine ⟨?_, .record fun e he => ?_, fun _ h => nomatch h⟩
  · cases c.overrides with
    | none => exact .null
    | some o => exact o.plain_toJson
  · obtain ⟨d, -, rfl⟩ := List.mem_map.mp he
    exact Definition.plain_toJson d.2

/-- A catalog is read back at any depth that its reader is allowed. Its definitions are entries,
whose order is that of their names. -/
theorem Catalog.read_toJson {c : Catalog} {n : Nat} (h : c.toJson.depth ≤ n) :
    Json.format.catalog n c.toJson = some c := by
  rw [Catalog.toJson_eq] at *
  have hnames : (c.members.map Prod.fst).Nodup := by
    show ["config", "schemas"].Nodup
    decide
  obtain ⟨n, get, rfl, hrecord, hmembers⟩ :=
    Json.record_of_depth_le hnames h ["config", "schemas"]
  simp only [members, List.forall_mem_cons] at hmembers
  obtain ⟨⟨gconfig, hconfig⟩, ⟨gschemas, hschemas⟩, -⟩ := hmembers
  have roverrides : Format.allow get "config" none
      (Json.format.optional (Json.format.overrides n)) = some c.overrides := by
    rw [Format.allow, gconfig]
    cases ho : c.overrides with
    | none => rfl
    | some o =>
      have hread := Overrides.read_toJson (hconfig o.toJson (by rw [ho]; rfl))
      show (Json.format.overrides n o.toJson).map some = _
      rw [hread, Option.map_some]
  obtain ⟨n, rfl, hentries, hdepth⟩ := Json.entries_of_depth_le (hschemas _ rfl)
  have hread : (c.definitions.entries.map fun e => (e.1, Definition.toJson e.2)).mapM
      (fun e => (Json.format.definition n e.2).bind fun d => some (e.1, d)) =
        some c.definitions.entries := by
    refine Json.mapM_map_eq_some fun e he => ?_
    rw [Definition.read_toJson (hdepth _ (List.mem_map_of_mem he)), Option.bind_some]
  rw [Format.catalog]
  simp only [hrecord, Nat.add_sub_cancel, roverrides, Format.need_eq gschemas, hentries,
    Option.bind_eq_bind, Option.bind_some]
  show ((c.definitions.entries.map fun e => (e.1, Definition.toJson e.2)).mapM fun e =>
    (Json.format.definition n e.2).bind fun d => some (e.1, d)).bind
      (fun definitions => some (Catalog.mk c.overrides (TextMap.ofList definitions))) = _
  rw [hread, Option.bind_some, TextMap.ofList_entries]

/-- Catalogs that are the same in JSON are equal. -/
theorem Catalog.toJson_injective {c d : Catalog} (h : c.toJson = d.toJson) : c = d := by
  have hc := Catalog.read_toJson (c := c) (Nat.le_refl _)
  rw [h, Catalog.read_toJson (Nat.le_refl _)] at hc
  exact (Option.some.inj hc).symm

end Catalogs

/-- **Decoding undoes encoding.** A schema, and a catalog, with or without settings, is read back
from its JSON text as it was, when collections are nested no deeper than 127 in it. The reader
refuses a text that is deeper, though the writer writes it. -/
theorem decodeJson_compact :
    (∀ s : Schema, s.toJson.depth ≤ 127 →
      decodeJson (fun F => F.schema) s.toJson.compact = some s) ∧
    ∀ c : Catalog, c.toJson.depth ≤ 127 →
      decodeJson (fun F => F.catalog) c.toJson.compact = some c := by
  constructor
  · intro s h
    rw [decodeJson, s.plain_toJson.read?_compact]
    exact Schema.read_toJson h
  · intro c h
    rw [decodeJson, c.plain_toJson.read?_compact]
    exact Catalog.read_toJson h

/-- A schema with names and annotations that have to be escaped, with children and with an empty
list of them; and a catalog with settings and without a definition's fields, with a reference, and
with children in place. -/
theorem decodeJson_compact_escapes :
    let note : Metadata := .ofList [("\"π\"\n", "\x01\\\t"), ("", "😀")]
    let inner : Schema := [.scalar "é/\x7f" .decimal true, ⟨"none", .struct, false, note, some []⟩]
    let s : Schema := [⟨"a\"b", .struct, true, .empty, some inner⟩, .scalar "" .long false]
    let line : FieldDef :=
      { name := "línea", type := "Struct", nullable := true, metadata := note,
        reference := some "\\point\r" }
    let box : FieldDef :=
      { name := "box", type := "any word",
        children := some [line, { name := "", type := "int", children := some [] }] }
    let c : Catalog :=
      { overrides := some { allowEmptyStruct := some false, delimiter := some '→' },
        definitions := .ofList [("\x7b\x7d[]", []), ("ΣΑΣ", [box, line])] }
    (s.toJson.depth = 8 ∧ decodeJson (fun F => F.schema) s.toJson.compact = some s) ∧
      c.toJson.depth = 7 ∧ decodeJson (fun F => F.catalog) c.toJson.compact = some c := by
  intro note inner s line box c
  have hs : s.toJson.depth = 8 := by decide +kernel
  have hc : c.toJson.depth = 7 := by decide +kernel
  obtain ⟨hschemas, hcatalogs⟩ := decodeJson_compact
  exact ⟨⟨hs, hschemas s (by rw [hs]; decide)⟩, hc, hcatalogs c (by rw [hc]; decide)⟩

end RecordSchema
