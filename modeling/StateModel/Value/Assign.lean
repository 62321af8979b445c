import StateModel.Problem
import StateModel.Ty.Text
import StateModel.Value.Default

/-!
Assignment. A range takes any integer within its own bounds, and an either takes
a value or a tag of its own type; nothing else is assigned as a whole. An
assignment answers the new value, so a failed one has changed nothing.
-/
namespace StateModel

namespace RangeValue

def assign (range : RangeValue) (number : Int64) : Except Problem RangeValue :=
  if range.type.interval.contains number then
    .ok { range with number }
  else
    .error (.outOfRange number range.type.low range.type.high range.type.text)

end RangeValue

namespace EitherValue

/-- A tag installs a fresh default payload, even in the variant that is active
already. -/
def assign (either : EitherValue) (source : Value) : Except Problem EitherValue :=
  let mismatch := .error (.typeMismatch either.type.text source.type.text)
  match source with
  | .either other => if other.tag.belongsTo either.type then .ok other else mismatch
  | .tag tag => if tag.belongsTo either.type then .ok (ofTag tag) else mismatch
  | _ => mismatch

end EitherValue

namespace Value

def assign (target source : Value) : Except Problem Value :=
  match target, source with
  | .range target, .range source => .range <$> target.assign source.number
  | .either target, source => .either <$> target.assign source
  | target, source => .error (.typeMismatch target.type.text source.type.text)

def assignInt (target : Value) (number : Int64) : Except Problem Value :=
  match target with
  | .range target => .range <$> target.assign number
  | target => .error (.typeMismatch target.type.text number.toInt.repr)

end Value

inductive Mutation where
  | assign (source : Value)
  | assignInt (number : Int64)

def Mutation.apply : Mutation → Value → Except Problem Value
  | .assign source, target => target.assign source
  | .assignInt number, target => target.assignInt number

end StateModel
