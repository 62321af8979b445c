import StateModel.Value.Assign

/-!
Paths into values. Reading and writing descend by the same steps: a field of a
record or of an active payload, or an index of an array.
-/
namespace StateModel

inductive Step where
  | field (name : String)
  | index (index : Int64)
  deriving DecidableEq

abbrev Path := List Step

namespace RecordValue

def field (record : RecordValue) (name : String) : Except Problem Value :=
  match (record.type.fieldIndex? name).bind fun place => record.children[place]? with
  | some child => .ok child
  | none => .error (.unknownField name record.type.text)

theorem field_eq_ok_iff {record : RecordValue} {name : String} {child : Value} :
    record.field name = .ok child ↔
      ∃ place, record.type.fieldIndex? name = some place ∧
        record.children[place]? = some child := by
  unfold field
  rw [← Option.bind_eq_some_iff]
  split
  · next found => simp [found]
  · next absent => simp [absent]

def modifyField (record : RecordValue) (name : String)
    (change : Value → Except Problem Value) : Except Problem RecordValue :=
  match record.type.fieldIndex? name with
  | none => .error (.unknownField name record.type.text)
  | some place =>
      if inside : place < record.children.length then do
        let child ← change record.children[place]
        return { record with children := record.children.set place child }
      else
        .error (.unknownField name record.type.text)

end RecordValue

namespace ArrayValue

def outside (array : ArrayValue) (index : Int64) : Problem :=
  .indexOutOfRange index array.type.index.low array.type.index.high array.type.text

def item (array : ArrayValue) (index : Int64) : Except Problem Value :=
  match (array.type.index.interval.offset? index).bind fun place => array.items[place]? with
  | some child => .ok child
  | none => .error (array.outside index)

theorem item_eq_ok_iff {array : ArrayValue} {index : Int64} {child : Value} :
    array.item index = .ok child ↔ ∃ place,
      array.type.index.interval.offset? index = some place ∧ array.items[place]? = some child := by
  unfold item
  rw [← Option.bind_eq_some_iff]
  split
  · next found => simp [found]
  · next absent => simp [absent]

def modifyItem (array : ArrayValue) (index : Int64)
    (change : Value → Except Problem Value) : Except Problem ArrayValue :=
  match array.type.index.interval.offset? index with
  | none => .error (array.outside index)
  | some place =>
      if inside : place < array.items.length then do
        let child ← change array.items[place]
        return { array with items := array.items.set place child }
      else
        .error (array.outside index)

end ArrayValue

namespace EitherValue

/-- A constant has no fields, and is named in the problem by its tag. -/
def field (either : EitherValue) (name : String) : Except Problem Value :=
  match either.active with
  | .record _ payload => payload.field name
  | .constant tag => .error (.unknownField name tag.text)

theorem field_eq_ok_iff {either : EitherValue} {name : String} {child : Value} :
    either.field name = .ok child ↔
      ∃ payload, either.payload = some payload ∧ payload.field name = .ok child := by
  obtain ⟨tag, _ | payload⟩ := either <;> simp [field, active]

/-- The tag stays as it is: only an assignment changes the variant. -/
def modifyField (either : EitherValue) (name : String)
    (change : Value → Except Problem Value) : Except Problem EitherValue :=
  match either.payload with
  | some payload => do return { either with payload := some (← payload.modifyField name change) }
  | none => .error (.unknownField name either.tag.text)

end EitherValue

namespace Value

def child (value : Value) (step : Step) : Except Problem Value :=
  match step, value with
  | .field name, .record content => content.field name
  | .field name, .either content => content.field name
  | .field name, other => .error (.unknownField name other.type.text)
  | .index index, .array content => content.item index
  | .index _, other => .error (.typeMismatch "an array" other.type.text)

def modifyChild (value : Value) (step : Step)
    (change : Value → Except Problem Value) : Except Problem Value :=
  match step, value with
  | .field name, .record content => .record <$> content.modifyField name change
  | .field name, .either content => .either <$> content.modifyField name change
  | .field name, other => .error (.unknownField name other.type.text)
  | .index index, .array content => .array <$> content.modifyItem index change
  | .index _, other => .error (.typeMismatch "an array" other.type.text)

def get (value : Value) : Path → Except Problem Value
  | [] => .ok value
  | step :: rest => do (← value.child step).get rest

theorem get_cons (value : Value) (step : Step) (rest : Path) :
    value.get (step :: rest) = value.child step >>= (·.get rest) := rfl

theorem get_cons_eq_ok_iff {value node : Value} {step : Step} {rest : Path} :
    value.get (step :: rest) = .ok node ↔
      ∃ child, value.child step = .ok child ∧ child.get rest = .ok node := by
  rw [get_cons]
  cases value.child step <;> simp [bind, Except.bind]

def update (value : Value) (change : Value → Except Problem Value) :
    Path → Except Problem Value
  | [] => change value
  | step :: rest => value.modifyChild step fun child => child.update change rest

def mutate (value : Value) (path : Path) (mutation : Mutation) : Except Problem Value :=
  value.update mutation.apply path

end Value

end StateModel
