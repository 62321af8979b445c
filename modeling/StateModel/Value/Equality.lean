import StateModel.Value

/-!
Equality of values: the same type object and equal content. Structure alone
never makes two values equal, nor does an either value ever equal a bare tag.
-/
namespace StateModel

namespace RangeValue

def equals (left right : RangeValue) : Bool :=
  left.type.header.id == right.type.header.id && left.number == right.number

end RangeValue

mutual

def Value.equals : Value → Value → Bool
  | .range left, .range right => left.equals right
  | .record left, .record right => left.equals right
  | .either left, .either right => left.equals right
  | .tag left, .tag right => left.same right
  | .array left, .array right => left.equals right
  | _, _ => false
  termination_by structural left => left

def Value.equalLists : List Value → List Value → Bool
  | [], [] => true
  | left :: lefts, right :: rights => left.equals right && Value.equalLists lefts rights
  | _, _ => false
  termination_by structural lefts => lefts

def RecordValue.equals : RecordValue → RecordValue → Bool
  | ⟨type, children⟩, right =>
      type.header.id == right.type.header.id && Value.equalLists children right.children
  termination_by structural left => left

def EitherValue.equals : EitherValue → EitherValue → Bool
  | ⟨tag, some payload⟩, right =>
      tag.same right.tag &&
        match right.payload with
        | some other => payload.equals other
        | none => false
  | ⟨tag, none⟩, right => tag.same right.tag && right.payload.isNone
  termination_by structural left => left

def ArrayValue.equals : ArrayValue → ArrayValue → Bool
  | ⟨type, items⟩, right =>
      type.header.id == right.type.header.id && Value.equalLists items right.items
  termination_by structural left => left

end

end StateModel
