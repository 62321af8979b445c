import StateModel.Ty

/-!
Values. Each one holds the type it was built from, and containers own their
children, so that a copy shares nothing that an assignment could reach.
-/
namespace StateModel

structure RangeValue where
  type : RangeType
  number : Int64

mutual

/-- A bare tag is a constant such as `True`, and differs from an either value
that is in that variant. -/
inductive Value where
  | range (value : RangeValue)
  | record (value : RecordValue)
  | either (value : EitherValue)
  | tag (tag : Tag)
  | array (value : ArrayValue)

structure RecordValue where
  type : RecordType
  children : List Value

structure EitherValue where
  tag : Tag
  payload : Option RecordValue

structure ArrayValue where
  type : ArrayType
  items : List Value

end

namespace RecordValue

def entries (record : RecordValue) : List (String × Value) :=
  (record.type.fields.map (·.name)).zip record.children

end RecordValue

namespace ArrayValue

def entries (array : ArrayValue) : List (Int64 × Value) :=
  array.type.index.interval.values.zip array.items

end ArrayValue

inductive Active where
  | constant (tag : Tag)
  | record (tag : Tag) (payload : RecordValue)

namespace EitherValue

def type (either : EitherValue) : EitherType := either.tag.either

def active (either : EitherValue) : Active :=
  match either.payload with
  | some payload => .record either.tag payload
  | none => .constant either.tag

end EitherValue

namespace Value

def type : Value → Ty
  | .range value => .range value.type
  | .record value => .record value.type
  | .either value => .either value.type
  | .tag constant => .either constant.either
  | .array value => .array value.type

def isTag : Value → Bool
  | .tag _ => true
  | .range _ | .record _ | .either _ | .array _ => false

end Value

end StateModel
