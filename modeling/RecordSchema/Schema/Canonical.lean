import RecordSchema.Schema.Basic

/-!
# Canonical text

A schema in one line: fields are separated by `, `, a field is `name:Type`, followed by `?` when
values may be missing and by its children in angle brackets. Annotations do not show.
-/

namespace RecordSchema

mutual

/-- The canonical text of a field. -/
def Field.text : Field → String
  | ⟨name, type, nullable, _, none⟩ => name ++ ":" ++ type.name ++ (if nullable then "?" else "")
  | ⟨name, type, nullable, _, some fields⟩ =>
    name ++ ":" ++ type.name ++ (if nullable then "?" else "") ++ "<" ++
      Text.join ", " (Field.texts fields) ++ ">"

/-- The canonical texts of the fields of one level. -/
def Field.texts : List Field → List String
  | [] => []
  | f :: rest => f.text :: Field.texts rest

end

/-- The canonical text of a schema. -/
def Schema.text (s : Schema) : String := Text.join ", " (Field.texts s)

/-- The texts of a level are the texts of its fields in their order. The definition spells the
recursion out, since it goes through nested schemas. -/
theorem Field.texts_eq_map (fields : List Field) : Field.texts fields = fields.map Field.text := by
  induction fields with
  | nil => rfl
  | cons f rest ih => rw [Field.texts, ih, List.map_cons]

example :
    Schema.text [.scalar "id" .int false, .struct "home" [.scalar "zip" .string true] true] =
      "id:Int, home:Struct?<zip:String?>" := by decide +kernel

end RecordSchema
