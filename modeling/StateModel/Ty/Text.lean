import StateModel.Ty

/-!
The text of a type: its name if it has one, else its structure with the texts
of its parts.
-/
namespace StateModel

namespace RangeType

def text (type : RangeType) : String :=
  match type.header.name with
  | some name => name
  | none => type.interval.text

end RangeType

namespace EitherType

/-- Payloads are left out: variant names alone tell the alternatives. -/
def text (type : EitherType) : String :=
  match type.header.name with
  | some name => name
  | none => "either \x7b " ++ ", ".intercalate (type.variants.map (·.name)) ++ " \x7d"

end EitherType

namespace Tag

def text (tag : Tag) : String := tag.name

def qualifiedText (tag : Tag) : String := tag.either.text ++ "::" ++ tag.name

end Tag

mutual

def Ty.text : Ty → String
  | .range type => type.text
  | .record type => type.text
  | .either type => type.text
  | .array type => type.text
  termination_by structural type => type

def RecordType.text : RecordType → String
  | ⟨header, fields, _⟩ =>
      match header.name with
      | some name => name
      | none => "record \x7b " ++ ", ".intercalate (Field.texts fields) ++ " \x7d"
  termination_by structural type => type

def Field.text : Field → String
  | ⟨name, type⟩ => name ++ ": " ++ type.text
  termination_by structural field => field

def Field.texts : List Field → List String
  | [] => []
  | field :: rest => field.text :: Field.texts rest
  termination_by structural fields => fields

def ArrayType.text : ArrayType → String
  | ⟨header, element, index, _⟩ =>
      match header.name with
      | some name => name
      | none => "Array<" ++ element.text ++ ">[" ++ index.interval.text ++ "]"
  termination_by structural type => type

end

theorem Field.texts_eq_map (fields : List Field) :
    Field.texts fields = fields.map Field.text := by
  induction fields with
  | nil => rfl
  | cons field rest ih => simp [Field.texts, ih]

theorem Field.text_eq (field : Field) : field.text = field.name ++ ": " ++ field.type.text := by
  cases field; rfl

theorem RecordType.text_eq (type : RecordType) :
    type.text = match type.header.name with
      | some name => name
      | none => "record \x7b " ++ ", ".intercalate (type.fields.map Field.text) ++ " \x7d" := by
  cases type; simp [RecordType.text, Field.texts_eq_map]

theorem ArrayType.text_eq (type : ArrayType) :
    type.text = match type.header.name with
      | some name => name
      | none => "Array<" ++ type.element.text ++ ">[" ++ type.index.interval.text ++ "]" := by
  cases type; rfl

end StateModel
