import StateModel.Value
import StateModel.Ty.Text

/-!
The two texts of a value. The canonical one names the type where it has a name,
and the bare one is for the inside of another text. Children are always written
canonically.
-/
namespace StateModel

namespace RangeValue

def bareText (range : RangeValue) : String := range.number.toInt.repr

def text (range : RangeValue) : String :=
  match range.type.header.name with
  | some name => name ++ "(" ++ range.bareText ++ ")"
  | none => range.bareText

end RangeValue

def RecordType.join (type : RecordType) (children : List String) : String :=
  ", ".intercalate (List.zipWith (fun field child => field.name ++ ": " ++ child)
    type.fields children)

def RecordType.braced (type : RecordType) (inside : String) : String :=
  match type.header.name with
  | some name => name ++ " \x7b " ++ inside ++ " \x7d"
  | none => "\x7b " ++ inside ++ " \x7d"

def ArrayType.bracketed (type : ArrayType) (items : List String) : String :=
  "[" ++ ", ".intercalate (List.zipWith (fun (index : Int64) item =>
    index.toInt.repr ++ ": " ++ item) type.index.interval.values items) ++ "]"

mutual

def Value.text : Value → String
  | .range value => value.text
  | .record value => value.text
  | .either value => value.text
  | .tag constant => constant.text
  | .array value => value.text
  termination_by structural value => value

def Value.texts : List Value → List String
  | [] => []
  | value :: rest => value.text :: Value.texts rest
  termination_by structural values => values

def RecordValue.text : RecordValue → String
  | ⟨type, children⟩ => type.braced (type.join (Value.texts children))
  termination_by structural record => record

/-- A payload type bears the name of its variant, so the payload's own text
already starts with the tag. -/
def EitherValue.text : EitherValue → String
  | ⟨tag, none⟩ => tag.text
  | ⟨_, some payload⟩ => payload.text
  termination_by structural either => either

def ArrayValue.text : ArrayValue → String
  | ⟨type, items⟩ => type.bracketed (Value.texts items)
  termination_by structural array => array

end

theorem Value.texts_eq_map (values : List Value) : Value.texts values = values.map Value.text := by
  induction values with
  | nil => rfl
  | cons value rest ih => simp [Value.texts, ih]

namespace RecordValue

def bareText (record : RecordValue) : String :=
  record.type.join (record.children.map Value.text)

theorem text_eq (record : RecordValue) : record.text = record.type.braced record.bareText := by
  cases record; simp [RecordValue.text, bareText, Value.texts_eq_map]

end RecordValue

namespace EitherValue

def bareText (either : EitherValue) : String := either.text

theorem text_eq (either : EitherValue) :
    either.text = match either.payload with
      | some payload => payload.text
      | none => either.tag.text := by
  obtain ⟨_, _ | _⟩ := either <;> rfl

end EitherValue

theorem ArrayValue.text_eq (array : ArrayValue) :
    array.text = array.type.bracketed (array.items.map Value.text) := by
  cases array; simp [ArrayValue.text, Value.texts_eq_map]

def Value.bareText : Value → String
  | .range value => value.bareText
  | .record value => value.bareText
  | .either value => value.bareText
  | .tag constant => constant.text
  | .array value => value.text

end StateModel
