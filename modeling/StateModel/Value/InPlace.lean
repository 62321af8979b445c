import StateModel.Value.Path

/-!
Values changed where they are. Work on a value answers whether it has succeeded, and
what it has written stays written if it fails later. Assignments check before they
write, so they end as those that answer the new value, and a failed one leaves the
value at the end of its path, and all around it, as it was.
-/
namespace StateModel

/-- Work on one value, which stays as the work leaves it. -/
abbrev InPlace (α β : Type) := ExceptT Problem (StateM α) β

namespace InPlace

variable {α β γ : Type}

def run (work : InPlace α β) (value : α) : Except Problem β × α :=
  StateT.run (ExceptT.run work) value

@[simp] theorem run_throw (problem : Problem) (value : α) :
    run (throw problem : InPlace α β) value = (.error problem, value) := rfl

@[simp] theorem run_set (after value : α) : run (set after) value = (.ok (), after) := rfl

@[simp] theorem run_modify (change : α → α) (value : α) :
    run (modify change) value = (.ok (), change value) := rfl

@[simp] theorem run_get_bind (next : α → InPlace α β) (value : α) :
    run (get >>= next) value = run (next value) value := rfl

@[simp] theorem run_modify_bind (change : α → α) (next : InPlace α β) (value : α) :
    run (do modify change; next) value = run next (change value) := rfl

def within (part : α) (putBack : α → β) (work : InPlace α γ) : InPlace β γ := do
  set (putBack (work.run part).2)
  match (work.run part).1 with
  | .ok answer => return answer
  | .error problem => throw problem

def outcome (value : α) : Except Problem α → Except Problem Unit × α
  | .ok after => (.ok (), after)
  | .error problem => (.error problem, value)

/-- The work leaves the new value, and where there is none the old one. -/
def Performs (work : InPlace α Unit) (change : α → Except Problem α) : Prop :=
  ∀ value, work.run value = outcome value (change value)

variable {work : InPlace α Unit} {change : α → Except Problem α}

theorem Performs.run_within (performs : work.Performs change) {part : α} {putBack : α → β}
    {value : β} (whole : putBack part = value) :
    run (work.within part putBack) value = outcome value (putBack <$> change part) := by
  rw [within, performs part, ← whole]
  cases change part <;> rfl

end InPlace

/-! Assignments. -/

namespace RangeValue

def assignInPlace (number : Int64) : InPlace RangeValue Unit := do
  let range ← get
  if !range.type.interval.contains number then
    throw (.outOfRange number range.type.low range.type.high range.type.text)
  set { range with number }

theorem performs_assignInPlace (number : Int64) :
    (assignInPlace number).Performs (·.assign number) := by
  intro range
  change _ = InPlace.outcome range (range.assign number)
  rw [assignInPlace, InPlace.run_get_bind, assign]
  cases range.type.interval.contains number <;> simp [InPlace.outcome]

end RangeValue

namespace EitherValue

/-- The tag is written before the payload, and both after the only check. -/
def assignInPlace (source : Value) : InPlace EitherValue Unit := do
  let either ← get
  let mismatch := throw (.typeMismatch either.type.text source.type.text)
  match source with
  | .either other =>
      if other.tag.belongsTo either.type then
        modify ({ · with tag := other.tag })
        modify ({ · with payload := other.payload })
      else mismatch
  | .tag tag => if tag.belongsTo either.type then set (ofTag tag) else mismatch
  | _ => mismatch

theorem performs_assignInPlace (source : Value) :
    (assignInPlace source).Performs (·.assign source) := by
  intro either
  change _ = InPlace.outcome either (either.assign source)
  rw [assignInPlace, InPlace.run_get_bind]
  cases source with
  | range | record | array => rfl
  | either other =>
      obtain ⟨tag, payload⟩ := other
      cases same : tag.belongsTo either.type <;> simp [assign, same, InPlace.outcome]
  | tag tag => cases same : tag.belongsTo either.type <;> simp [assign, same, InPlace.outcome]

end EitherValue

namespace Value

def assignInPlace (source : Value) : InPlace Value Unit := do
  let target ← MonadState.get
  match target, source with
  | .range target, .range source =>
      (RangeValue.assignInPlace source.number).within target .range
  | .either target, source => (EitherValue.assignInPlace source).within target .either
  | target, source => throw (.typeMismatch target.type.text source.type.text)

def assignIntInPlace (number : Int64) : InPlace Value Unit := do
  let target ← MonadState.get
  match target with
  | .range target => (RangeValue.assignInPlace number).within target .range
  | target => throw (.typeMismatch target.type.text number.toInt.repr)

theorem performs_assignInPlace (source : Value) :
    (assignInPlace source).Performs (·.assign source) := by
  intro target
  rw [assignInPlace, InPlace.run_get_bind]
  cases target with
  | either target => exact (EitherValue.performs_assignInPlace source).run_within rfl
  | record | tag | array => rfl
  | range target =>
      cases source with
      | range source => exact (RangeValue.performs_assignInPlace source.number).run_within rfl
      | record | either | tag | array => rfl

theorem performs_assignIntInPlace (number : Int64) :
    (assignIntInPlace number).Performs (·.assignInt number) := by
  intro target
  rw [assignIntInPlace, InPlace.run_get_bind]
  cases target with
  | range target => exact (RangeValue.performs_assignInPlace number).run_within rfl
  | record | either | tag | array => rfl

end Value

def Mutation.inPlace : Mutation → InPlace Value Unit
  | .assign source => Value.assignInPlace source
  | .assignInt number => Value.assignIntInPlace number

theorem Mutation.performs_inPlace : (mutation : Mutation) → mutation.inPlace.Performs mutation.apply
  | .assign source => Value.performs_assignInPlace source
  | .assignInt number => Value.performs_assignIntInPlace number

/-! Work at the end of a path. -/

section

variable (work : InPlace Value Unit)

def RecordValue.fieldInPlace (name : String) : InPlace RecordValue Unit := do
  let record ← get
  match record.type.fieldIndex? name with
  | none => throw (.unknownField name record.type.text)
  | some place =>
      if inside : place < record.children.length then
        work.within record.children[place] fun child =>
          { record with children := record.children.set place child }
      else
        throw (.unknownField name record.type.text)

def ArrayValue.itemInPlace (index : Int64) : InPlace ArrayValue Unit := do
  let array ← get
  match array.type.index.interval.offset? index with
  | none => throw (array.outside index)
  | some place =>
      if inside : place < array.items.length then
        work.within array.items[place] fun item =>
          { array with items := array.items.set place item }
      else
        throw (array.outside index)

def EitherValue.fieldInPlace (name : String) : InPlace EitherValue Unit := do
  let either ← get
  match either.payload with
  | some payload =>
      (RecordValue.fieldInPlace work name).within payload fun payload =>
        { either with payload := some payload }
  | none => throw (.unknownField name either.tag.text)

def Value.childInPlace (step : Step) : InPlace Value Unit := do
  let value ← MonadState.get
  match step, value with
  | .field name, .record content => (RecordValue.fieldInPlace work name).within content .record
  | .field name, .either content => (EitherValue.fieldInPlace work name).within content .either
  | .field name, other => throw (.unknownField name other.type.text)
  | .index index, .array content => (ArrayValue.itemInPlace work index).within content .array
  | .index _, other => throw (.typeMismatch "an array" other.type.text)

def Value.atInPlace : Path → InPlace Value Unit
  | [] => work
  | step :: rest => Value.childInPlace (Value.atInPlace rest) step

end

def Value.mutateInPlace (path : Path) (mutation : Mutation) : InPlace Value Unit :=
  Value.atInPlace mutation.inPlace path

section

variable {work : InPlace Value Unit} {change : Value → Except Problem Value}

theorem RecordValue.performs_fieldInPlace (performs : work.Performs change) (name : String) :
    (fieldInPlace work name).Performs (·.modifyField name change) := by
  rintro ⟨type, children⟩
  change _ = InPlace.outcome _ (modifyField _ name change)
  rw [fieldInPlace, InPlace.run_get_bind, modifyField]
  cases type.fieldIndex? name with
  | none => rfl
  | some place =>
      dsimp only
      split
      · rw [bind_pure_comp]
        exact performs.run_within (by rw [List.set_getElem_self])
      · rfl

theorem ArrayValue.performs_itemInPlace (performs : work.Performs change) (index : Int64) :
    (itemInPlace work index).Performs (·.modifyItem index change) := by
  rintro ⟨type, items⟩
  change _ = InPlace.outcome _ (modifyItem _ index change)
  rw [itemInPlace, InPlace.run_get_bind, modifyItem]
  cases type.index.interval.offset? index with
  | none => rfl
  | some place =>
      dsimp only
      split
      · rw [bind_pure_comp]
        exact performs.run_within (by rw [List.set_getElem_self])
      · rfl

theorem EitherValue.performs_fieldInPlace (performs : work.Performs change) (name : String) :
    (fieldInPlace work name).Performs (·.modifyField name change) := by
  rintro ⟨tag, _ | payload⟩
  · rfl
  · change _ = InPlace.outcome _ (modifyField _ name change)
    rw [fieldInPlace, InPlace.run_get_bind, modifyField]
    dsimp only
    rw [bind_pure_comp]
    exact (RecordValue.performs_fieldInPlace performs name).run_within rfl

theorem Value.performs_childInPlace (performs : work.Performs change) (step : Step) :
    (childInPlace work step).Performs (·.modifyChild step change) := by
  intro value
  rw [childInPlace, InPlace.run_get_bind]
  cases step with
  | field name =>
      cases value with
      | record content => exact (RecordValue.performs_fieldInPlace performs name).run_within rfl
      | either content => exact (EitherValue.performs_fieldInPlace performs name).run_within rfl
      | range | tag | array => rfl
  | index index =>
      cases value with
      | array content => exact (ArrayValue.performs_itemInPlace performs index).run_within rfl
      | range | record | either | tag => rfl

theorem Value.performs_atInPlace (performs : work.Performs change) (path : Path) :
    (atInPlace work path).Performs (·.update change path) := by
  induction path with
  | nil => exact performs
  | cons step rest ih => exact performs_childInPlace ih step

end

/-- At the end of every path, an assignment is made as a whole or not at all. -/
theorem Value.performs_mutateInPlace (path : Path) (mutation : Mutation) :
    (mutateInPlace path mutation).Performs (·.mutate path mutation) :=
  performs_atInPlace mutation.performs_inPlace path

end StateModel
