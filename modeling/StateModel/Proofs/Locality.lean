import StateModel.Value.InPlace
import StateModel.Variable

/-!
What a write leaves alone. To change the value at the end of a path is to read it,
change it and put it back, and what is put back is read again at that path only:
every path that leads elsewhere gives what it gave before. A change that fails
anywhere on the way leaves all as it was.
-/
namespace StateModel

/-! Putting a child back. Where there is no such child, nothing is put. -/

namespace RecordType

theorem fieldIndex?_inj {type : RecordType} {left right : String} {place : Nat}
    (atLeft : type.fieldIndex? left = some place) (atRight : type.fieldIndex? right = some place) :
    left = right :=
  type.layout.injective left right place atLeft atRight

end RecordType

namespace Interval

theorem offset?_inj {interval : Interval} {left right : Int64} {place : Nat}
    (atLeft : interval.offset? left = some place) (atRight : interval.offset? right = some place) :
    left = right := by
  have hleft := (offset?_eq_some_iff.1 atLeft).2
  have hright := (offset?_eq_some_iff.1 atRight).2
  exact Int64.toInt_inj.1 (hleft.trans hright.symm)

end Interval

namespace RecordValue

def setField (record : RecordValue) (name : String) (child : Value) : RecordValue :=
  match record.type.fieldIndex? name with
  | some place => { record with children := record.children.set place child }
  | none => record

@[simp] theorem type_setField (record : RecordValue) (name : String) (child : Value) :
    (record.setField name child).type = record.type := by
  unfold setField
  split <;> rfl

theorem field_setField_self {record : RecordValue} {name : String} {old : Value}
    (found : record.field name = .ok old) (child : Value) :
    (record.setField name child).field name = .ok child := by
  obtain ⟨place, hplace, hchild⟩ := field_eq_ok_iff.1 found
  have hinside := (List.getElem?_eq_some_iff.1 hchild).1
  refine field_eq_ok_iff.2 ⟨place, by rw [type_setField, hplace], ?_⟩
  simp [setField, hplace, hinside]

theorem field_setField_of_ne {record : RecordValue} {name other : String}
    (different : other ≠ name) (child : Value) :
    (record.setField name child).field other = record.field other := by
  unfold setField
  split
  · next place hplace =>
    unfold field
    cases hother : record.type.fieldIndex? other with
    | none => simp
    | some elsewhere =>
        have hne : place ≠ elsewhere := by
          rintro rfl
          exact different (RecordType.fieldIndex?_inj hother hplace)
        simp [List.getElem?_set_ne hne]
  · rfl

theorem modifyField_eq (record : RecordValue) (name : String)
    (change : Value → Except Problem Value) :
    record.modifyField name change = do
      return record.setField name (← change (← record.field name)) := by
  unfold modifyField field setField
  cases record.type.fieldIndex? name with
  | none => rfl
  | some place =>
      by_cases inside : place < record.children.length
      · have hchild := List.getElem?_eq_getElem inside
        simp only [dif_pos inside, Option.bind_some, hchild]
        rfl
      · have habsent := List.getElem?_eq_none (Nat.not_lt.1 inside)
        simp only [dif_neg inside, Option.bind_some, habsent]
        rfl

end RecordValue

namespace ArrayValue

def setItem (array : ArrayValue) (index : Int64) (child : Value) : ArrayValue :=
  match array.type.index.interval.offset? index with
  | some place => { array with items := array.items.set place child }
  | none => array

@[simp] theorem type_setItem (array : ArrayValue) (index : Int64) (child : Value) :
    (array.setItem index child).type = array.type := by
  unfold setItem
  split <;> rfl

theorem item_setItem_self {array : ArrayValue} {index : Int64} {old : Value}
    (found : array.item index = .ok old) (child : Value) :
    (array.setItem index child).item index = .ok child := by
  obtain ⟨place, hplace, hchild⟩ := item_eq_ok_iff.1 found
  have hinside := (List.getElem?_eq_some_iff.1 hchild).1
  refine item_eq_ok_iff.2 ⟨place, by rw [type_setItem, hplace], ?_⟩
  simp [setItem, hplace, hinside]

theorem item_setItem_of_ne {array : ArrayValue} {index other : Int64} (different : other ≠ index)
    (child : Value) : (array.setItem index child).item other = array.item other := by
  unfold setItem
  split
  · next place hplace =>
    unfold item outside
    cases hother : array.type.index.interval.offset? other with
    | none => simp
    | some elsewhere =>
        have hne : place ≠ elsewhere := by
          rintro rfl
          exact different (Interval.offset?_inj hother hplace)
        simp [List.getElem?_set_ne hne]
  · rfl

theorem modifyItem_eq (array : ArrayValue) (index : Int64)
    (change : Value → Except Problem Value) :
    array.modifyItem index change = do
      return array.setItem index (← change (← array.item index)) := by
  unfold modifyItem item setItem
  cases array.type.index.interval.offset? index with
  | none => rfl
  | some place =>
      by_cases inside : place < array.items.length
      · have hchild := List.getElem?_eq_getElem inside
        simp only [dif_pos inside, Option.bind_some, hchild]
        rfl
      · have habsent := List.getElem?_eq_none (Nat.not_lt.1 inside)
        simp only [dif_neg inside, Option.bind_some, habsent]
        rfl

end ArrayValue

namespace EitherValue

def setField (either : EitherValue) (name : String) (child : Value) : EitherValue :=
  { either with payload := either.payload.map (·.setField name child) }

theorem field_setField_self {either : EitherValue} {name : String} {old : Value}
    (found : either.field name = .ok old) (child : Value) :
    (either.setField name child).field name = .ok child := by
  obtain ⟨tag, _ | payload⟩ := either
  · simp [field, active] at found
  · exact RecordValue.field_setField_self found child

theorem field_setField_of_ne {either : EitherValue} {name other : String}
    (different : other ≠ name) (child : Value) :
    (either.setField name child).field other = either.field other := by
  obtain ⟨tag, _ | payload⟩ := either
  · rfl
  · exact RecordValue.field_setField_of_ne different child

theorem modifyField_eq (either : EitherValue) (name : String)
    (change : Value → Except Problem Value) :
    either.modifyField name change = do
      return either.setField name (← change (← either.field name)) := by
  obtain ⟨tag, _ | payload⟩ := either
  · rfl
  · simp only [modifyField, RecordValue.modifyField_eq, bind_assoc, pure_bind]
    rfl

end EitherValue

/-- Two paths part where neither goes on along the other. -/
def Path.Diverge (left right : Path) : Prop := ¬left <+: right ∧ ¬right <+: left

namespace Value

def setChild (value : Value) (step : Step) (child : Value) : Value :=
  match step, value with
  | .field name, .record content => .record (content.setField name child)
  | .field name, .either content => .either (content.setField name child)
  | .index index, .array content => .array (content.setItem index child)
  | _, other => other

def activeTag? : Value → Option Tag
  | .either content => some content.tag
  | .range _ | .record _ | .tag _ | .array _ => none

@[simp] theorem type_setChild (value : Value) (step : Step) (child : Value) :
    (value.setChild step child).type = value.type := by
  cases step <;> cases value <;> simp [setChild, type, EitherValue.type, EitherValue.setField]

@[simp] theorem activeTag?_setChild (value : Value) (step : Step) (child : Value) :
    (value.setChild step child).activeTag? = value.activeTag? := by
  cases step <;> cases value <;> rfl

theorem child_setChild_self {value old : Value} {step : Step} (found : value.child step = .ok old)
    (child : Value) : (value.setChild step child).child step = .ok child := by
  cases step with
  | field name =>
      cases value with
      | record content => exact RecordValue.field_setField_self found child
      | either content => exact EitherValue.field_setField_self found child
      | range | tag | array => cases found
  | index index =>
      cases value with
      | array content => exact ArrayValue.item_setItem_self found child
      | range | record | either | tag => cases found

theorem child_setChild_of_ne (value : Value) {step other : Step} (different : other ≠ step)
    (child : Value) : (value.setChild step child).child other = value.child other := by
  cases step with
  | field name =>
      cases other with
      | field asked =>
          have hne : asked ≠ name := fun same => different (congrArg Step.field same)
          cases value with
          | record content => exact RecordValue.field_setField_of_ne hne child
          | either content => exact EitherValue.field_setField_of_ne hne child
          | range | tag | array => rfl
      | index asked =>
          cases value with
          | record content => simp [setChild, Value.child, type]
          | either content => rfl
          | range | tag | array => rfl
  | index index =>
      cases other with
      | index asked =>
          have hne : asked ≠ index := fun same => different (congrArg Step.index same)
          cases value with
          | array content => exact ArrayValue.item_setItem_of_ne hne child
          | range | record | either | tag => rfl
      | field asked =>
          cases value with
          | array content => simp [setChild, Value.child, type]
          | range | record | either | tag => rfl

theorem modifyChild_eq (value : Value) (step : Step) (change : Value → Except Problem Value) :
    value.modifyChild step change = do
      return value.setChild step (← change (← value.child step)) := by
  cases step with
  | field name =>
      cases value with
      | record content =>
          simp only [modifyChild, RecordValue.modifyField_eq, map_bind, map_pure]
          rfl
      | either content =>
          simp only [modifyChild, EitherValue.modifyField_eq, map_bind, map_pure]
          rfl
      | range | tag | array => rfl
  | index index =>
      cases value with
      | array content =>
          simp only [modifyChild, ArrayValue.modifyItem_eq, map_bind, map_pure]
          rfl
      | range | record | either | tag => rfl

/-! The same along paths. -/

def setAt (value : Value) (new : Value) : Path → Value
  | [] => new
  | step :: rest =>
      match value.child step with
      | .ok child => value.setChild step (child.setAt new rest)
      | .error _ => value

theorem get_setAt_self {value old : Value} {path : Path} (found : value.get path = .ok old)
    (new : Value) : (value.setAt new path).get path = .ok new := by
  induction path generalizing value with
  | nil => rfl
  | cons step rest ih =>
      obtain ⟨child, hchild, hrest⟩ := get_cons_eq_ok_iff.1 found
      simp only [setAt, hchild]
      exact get_cons_eq_ok_iff.2 ⟨_, child_setChild_self hchild _, ih hrest⟩

theorem get_setAt_of_diverge {value old : Value} {path other : Path}
    (found : value.get path = .ok old) (diverge : path.Diverge other) (new : Value) :
    (value.setAt new path).get other = value.get other := by
  induction path generalizing value other with
  | nil => exact absurd (List.nil_prefix) diverge.1
  | cons step rest ih =>
      obtain ⟨child, hchild, hrest⟩ := get_cons_eq_ok_iff.1 found
      simp only [setAt, hchild]
      cases other with
      | nil => exact absurd (List.nil_prefix) diverge.2
      | cons asked others =>
          rw [get_cons, get_cons]
          by_cases same : asked = step
          · subst same
            rw [child_setChild_self hchild, hchild]
            refine ih hrest ⟨fun inside => ?_, fun inside => ?_⟩
            · exact diverge.1 (List.cons_prefix_cons.2 ⟨rfl, inside⟩)
            · exact diverge.2 (List.cons_prefix_cons.2 ⟨rfl, inside⟩)
          · rw [child_setChild_of_ne value same]

theorem get_setAt_of_front {value old : Value} {front rest : Path} (further : rest ≠ [])
    (found : value.get (front ++ rest) = .ok old) (new : Value) :
    ∃ before after, value.get front = .ok before ∧
      (value.setAt new (front ++ rest)).get front = .ok after ∧
      after.type = before.type ∧ after.activeTag? = before.activeTag? := by
  induction front generalizing value with
  | nil =>
      cases rest with
      | nil => exact absurd rfl further
      | cons step others =>
          obtain ⟨child, hchild, -⟩ := get_cons_eq_ok_iff.1 found
          refine ⟨value, value.setChild step (child.setAt new others), rfl, ?_, by simp, by simp⟩
          simp [setAt, hchild, get]
  | cons step others ih =>
      obtain ⟨child, hchild, hrest⟩ := get_cons_eq_ok_iff.1 found
      obtain ⟨before, after, hbefore, hafter, hkept⟩ := ih hrest
      refine ⟨before, after, get_cons_eq_ok_iff.2 ⟨child, hchild, hbefore⟩, ?_, hkept⟩
      simp only [List.cons_append, setAt, hchild]
      exact get_cons_eq_ok_iff.2 ⟨_, child_setChild_self hchild _, hafter⟩

theorem update_eq (value : Value) (change : Value → Except Problem Value) (path : Path) :
    value.update change path = do
      return value.setAt (← change (← value.get path)) path := by
  induction path generalizing value with
  | nil =>
      change change value = change value >>= pure
      rw [bind_pure]
  | cons step rest ih =>
      rw [update, modifyChild_eq, get_cons, bind_assoc]
      cases hchild : value.child step with
      | error problem => rfl
      | ok child =>
          change ((child.update change rest) >>= fun new => pure (value.setChild step new)) = _
          simp only [ih, bind_assoc, pure_bind, setAt, hchild]
          rfl

end Value

/-- How a mutation ends. Made in place, it leaves the new value or the old one; and where
the value is the content of a cell, the store is left with the new value in that cell, or
is left as it was. -/
def Value.Mutates (root : Value) (path : Path) (mutation : Mutation)
    (outcome : Except Problem Value) : Prop :=
  root.mutate path mutation = outcome ∧
    (mutateInPlace path mutation).run root = InPlace.outcome root outcome ∧
    ∀ (store : Store) id, store.cell? id = some root →
      Build.run (Store.updateCell id path mutation.apply) store =
        match outcome with
        | .ok after => (.ok (), { store with cells := store.cells.setIfInBounds id after })
        | .error problem => (.error { problem }, store)

theorem Value.mutates (root : Value) (path : Path) (mutation : Mutation) :
    root.Mutates path mutation (root.mutate path mutation) := by
  refine ⟨rfl, performs_mutateInPlace path mutation root, fun store id held => ?_⟩
  unfold Store.updateCell Value.mutate
  simp only [Build.run_bind, Build.run_get, held]
  cases root.update mutation.apply path <;> rfl

/-- A mutation at the end of a path fails as the path does, or as it does on what the
path leads to, and then nothing has changed. If it succeeds, the path leads to what it
made of the old node, everything on the way keeps its type and its variant, and every
path that parts from this one gives the child or the problem that it gave before. -/
theorem Value.mutation_is_local (root : Value) (path : Path) (mutation : Mutation) :
    (∀ problem, root.get path = .error problem → root.Mutates path mutation (.error problem)) ∧
    (∀ node problem, root.get path = .ok node → mutation.apply node = .error problem →
      root.Mutates path mutation (.error problem)) ∧
    ∀ node new, root.get path = .ok node → mutation.apply node = .ok new →
      ∃ after, root.Mutates path mutation (.ok after) ∧ after.get path = .ok new ∧
        (∀ front rest, path = front ++ rest → rest ≠ [] → ∃ earlier later,
          root.get front = .ok earlier ∧ after.get front = .ok later ∧
          later.type = earlier.type ∧ later.activeTag? = earlier.activeTag?) ∧
        ∀ other, path.Diverge other → after.get other = root.get other := by
  have hmutate : root.mutate path mutation = do
      return root.setAt (← mutation.apply (← root.get path)) path :=
    root.update_eq mutation.apply path
  have hall := root.mutates path mutation
  rw [hmutate] at hall
  refine ⟨fun problem failed => ?_, fun node problem found failed => ?_,
    fun node new found changed => ?_⟩
  · rwa [failed] at hall
  · rw [found] at hall
    change root.Mutates path mutation (mutation.apply node >>= _) at hall
    rwa [failed] at hall
  · rw [found] at hall
    change root.Mutates path mutation (mutation.apply node >>= _) at hall
    rw [changed] at hall
    refine ⟨root.setAt new path, hall, get_setAt_self found new, ?_, fun other diverge =>
      get_setAt_of_diverge found diverge new⟩
    rintro front rest rfl further
    exact get_setAt_of_front further found new

end StateModel
