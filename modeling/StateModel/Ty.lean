import StateModel.Interval
import StateModel.Layout
import StateModel.Span

/-!
Declared types. A type is known by the number it was given when it was built
and never by its structure: two declarations of one shape are two types.
-/
namespace StateModel

abbrev TypeId := Nat

/-- What every type carries. The name is for rendering only. -/
structure Header where
  id : TypeId
  name : Option String
  span : Span

structure RangeType where
  header : Header
  interval : Interval

/-- Every slot of an array is built with its default, so the index is kept well
below what a store could hold. -/
def maxArrayLength : UInt64 := 0x1000000

mutual

inductive Ty where
  | range (type : RangeType)
  | record (type : RecordType)
  | either (type : EitherType)
  | array (type : ArrayType)

structure Field where
  name : String
  type : Ty

structure RecordType where
  header : Header
  fields : List Field
  layout : Layout

/-- A variant knows its either type by number, since it is a part of it. -/
structure Variant where
  name : String
  index : Nat
  parent : TypeId
  payload : Option RecordType

/-- There is always a first variant: a default value needs one. -/
structure EitherType where
  header : Header
  first : Variant
  rest : List Variant

structure ArrayType where
  header : Header
  element : Ty
  index : RangeType
  index_le_max : index.interval.length ≤ maxArrayLength

end

namespace RangeType

def low (type : RangeType) : Int64 := type.interval.low

def high (type : RangeType) : Int64 := type.interval.high

end RangeType

namespace RecordType

def fieldIndex? (type : RecordType) (name : String) : Option Nat :=
  type.layout.find? name

def fieldType? (type : RecordType) (name : String) : Option Ty :=
  (type.fieldIndex? name).bind fun place => (type.fields[place]?).map (·.type)

def InStep (type : RecordType) : Prop := type.layout.InStep (type.fields.map (·.name))

end RecordType

structure Tag where
  either : EitherType
  index : Fin (either.rest.length + 1)

namespace Variant

def isConstant (variant : Variant) : Bool := variant.payload.isNone

end Variant

namespace EitherType

def variants (type : EitherType) : List Variant := type.first :: type.rest

@[simp] theorem length_variants (type : EitherType) :
    type.variants.length = type.rest.length + 1 := rfl

def variant? (type : EitherType) (name : String) : Option Variant :=
  type.variants.find? (·.name == name)

def firstTag (type : EitherType) : Tag := ⟨type, 0⟩

def tag? (type : EitherType) (index : Nat) : Option Tag :=
  if inside : index < type.variants.length then some ⟨type, index, inside⟩ else none

theorem tag?_eq_some_iff {type : EitherType} {index : Nat} {tag : Tag} :
    type.tag? index = some tag ↔ tag.either = type ∧ tag.index.val = index := by
  unfold tag?
  constructor
  · split
    · rintro ⟨⟩
      exact ⟨rfl, rfl⟩
    · simp
  · rintro ⟨rfl, rfl⟩
    exact dif_pos tag.index.isLt

def tagNamed? (type : EitherType) (name : String) : Option Tag :=
  (type.variant? name).bind fun variant => type.tag? variant.index

def tagOf? (type : EitherType) (variant : Variant) : Option Tag :=
  if variant.parent = type.header.id then type.tag? variant.index else none

def tags (type : EitherType) : List Tag := List.ofFn fun index => ⟨type, index⟩

end EitherType

namespace Tag

def variant (tag : Tag) : Variant := tag.either.variants[tag.index]

def name (tag : Tag) : String := tag.variant.name

def belongsTo (tag : Tag) (type : EitherType) : Bool := tag.either.header.id == type.header.id

def same (left right : Tag) : Bool :=
  left.belongsTo right.either && left.index.val == right.index.val

theorem eq_of_index {left right : Tag} (either : left.either = right.either)
    (index : left.index.val = right.index.val) : left = right := by
  obtain ⟨type, place⟩ := left
  obtain ⟨other, otherPlace⟩ := right
  cases either
  exact congrArg (Tag.mk type) (Fin.ext index)

end Tag

def EitherType.constants (type : EitherType) : List Tag :=
  type.tags.filter fun tag => tag.variant.isConstant

namespace Ty

def header : Ty → Header
  | .range type => type.header
  | .record type => type.header
  | .either type => type.header
  | .array type => type.header

def id (type : Ty) : TypeId := type.header.id

def name (type : Ty) : Option String := type.header.name

def span (type : Ty) : Span := type.header.span

/-- Identity, never structure. -/
def same (left right : Ty) : Bool := left.id == right.id

@[simp] theorem same_iff {left right : Ty} : left.same right = true ↔ left.id = right.id := by
  simp [same]

end Ty

end StateModel
