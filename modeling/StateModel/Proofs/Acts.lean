import StateModel.Scope

/-!
Acts: the few changes that declarations make to a store. Cells are only added,
only the frame of the scope is written, and a constant that is allowed never
takes the place of a variable.
-/
namespace StateModel

/-- A name that is bound in a frame. Constants and variables share their names
and types have names of their own. -/
inductive Binding where
  | type (name : String)
  | constant (name : String)
  | variable (name : String)

namespace Binding

def typeName? : Binding → Option String
  | .type name => some name
  | .constant _ | .variable _ => none

def varName? : Binding → Option String
  | .type _ => none
  | .constant name | .variable name => some name

end Binding

inductive Act where
  | number
  /-- A cell is made that no name is bound to. -/
  | spare (value : Value)
  | bind (name : String) (value : Value)
  | type (name : String) (type : Ty)

namespace Scope

def HoldsVariable (scope : Scope) (store : Store) (name : String) : Prop :=
  ∃ value, scope.localValue? store name = some value ∧ value.isTag = false

structure Settled (scope : Scope) (store : Store) : Prop where
  made : scope.frame < store.frames.size
  bound : ∀ name cell, scope.localVar? store name = some cell → cell < store.cells.size

def Distinct (scope : Scope) (store : Store) : Prop :=
  ∀ left right cell, scope.localVar? store left = some cell →
    scope.localVar? store right = some cell → left = right

theorem Settled.localValue? {scope : Scope} {store : Store} (settled : scope.Settled store)
    {name : String} {cell : CellId} (found : scope.localVar? store name = some cell) :
    ∃ value, scope.localValue? store name = some value := by
  have hcell := settled.bound name cell found
  exact ⟨store.cells[cell], by simp [Scope.localValue?, found, Store.cell?, hcell]⟩

end Scope

namespace Act

def binding? : Act → Option Binding
  | .number | .spare _ => none
  | .bind name value => some (if value.isTag then .constant name else .variable name)
  | .type name _ => some (.type name)

def apply (scope : Scope) : Act → Store → Store
  | .number, store => { store with nextType := store.nextType + 1 }
  | .spare value, store => { store with cells := store.cells.push value }
  | .bind name value, store =>
      let frame := store.frame scope.frame
      { store with cells := store.cells.push value }.setFrame scope.frame
        { frame with vars := frame.vars.put name store.cells.size }
  | .type name built, store =>
      let frame := store.frame scope.frame
      store.setFrame scope.frame { frame with types := frame.types.put name built }

def Allowed (scope : Scope) (store : Store) (act : Act) : Prop :=
  ∀ name tag, act = .bind name (.tag tag) → ¬scope.HoldsVariable store name

variable {scope : Scope} {store : Store} {act : Act}

@[simp] theorem size_frames_apply : (act.apply scope store).frames.size = store.frames.size := by
  cases act <;> simp [apply, Store.setFrame]

theorem frame_apply_of_ne {id : FrameId} (other : id ≠ scope.frame) :
    (act.apply scope store).frame id = store.frame id := by
  cases act with
  | number | spare => rfl
  | bind | type => exact Store.frame_setFrame_of_ne other _

theorem size_cells_apply : store.cells.size ≤ (act.apply scope store).cells.size := by
  cases act <;> simp [apply, Store.setFrame]

theorem nextType_apply : store.nextType ≤ (act.apply scope store).nextType := by
  cases act <;> simp [apply, Store.setFrame]

theorem cell?_apply {cell : CellId} (old : cell < store.cells.size) :
    (act.apply scope store).cell? cell = store.cell? cell := by
  cases act with
  | number | type => rfl
  | spare | bind => simp [apply, Store.setFrame, Store.cell?, Array.getElem?_push_lt old, old]

@[simp] theorem cell?_bind {name : String} {value : Value} :
    ((Act.bind name value).apply scope store).cell? store.cells.size = some value := by
  simp [apply, Store.setFrame, Store.cell?]

theorem frame_bind (made : scope.frame < store.frames.size) (name : String) (value : Value) :
    ((Act.bind name value).apply scope store).frame scope.frame =
      { store.frame scope.frame with
        vars := (store.frame scope.frame).vars.put name store.cells.size } :=
  Store.frame_setFrame_self made _

theorem frame_type (made : scope.frame < store.frames.size) (name : String) (built : Ty) :
    ((Act.type name built).apply scope store).frame scope.frame =
      { store.frame scope.frame with
        types := (store.frame scope.frame).types.put name built } :=
  Store.frame_setFrame_self made _

theorem localVar?_bind (made : scope.frame < store.frames.size) (bound : String) (value : Value)
    (name : String) :
    scope.localVar? ((Act.bind bound value).apply scope store) name =
      if name = bound then some store.cells.size else scope.localVar? store name := by
  unfold Scope.localVar?
  rw [frame_bind made]
  split
  · next same => rw [same, Bindings.find?_put_self]
  · next different => rw [Bindings.find?_put_of_ne _ _ different]

theorem localVar?_apply (made : scope.frame < store.frames.size)
    (free : ∀ name value, act ≠ .bind name value) (name : String) :
    scope.localVar? (act.apply scope store) name = scope.localVar? store name := by
  cases act with
  | number | spare => rfl
  | bind bound value => exact absurd rfl (free bound value)
  | type bound built =>
      unfold Scope.localVar?
      rw [frame_type made]

theorem localValue?_bind (settled : scope.Settled store) (bound : String) (value : Value)
    (name : String) :
    scope.localValue? ((Act.bind bound value).apply scope store) name =
      if name = bound then some value else scope.localValue? store name := by
  unfold Scope.localValue?
  rw [localVar?_bind settled.made]
  split
  · exact cell?_bind
  · cases found : scope.localVar? store name with
    | none => rfl
    | some cell => exact cell?_apply (settled.bound name cell found)

theorem localValue?_apply (settled : scope.Settled store)
    (free : ∀ name value, act ≠ .bind name value) (name : String) :
    scope.localValue? (act.apply scope store) name = scope.localValue? store name := by
  unfold Scope.localValue?
  rw [localVar?_apply settled.made free]
  cases found : scope.localVar? store name with
  | none => rfl
  | some cell => exact cell?_apply (settled.bound name cell found)

theorem localVar?_apply_of_ne (made : scope.frame < store.frames.size) {name : String}
    (other : ∀ value, act ≠ .bind name value) :
    scope.localVar? (act.apply scope store) name = scope.localVar? store name := by
  cases act with
  | number | spare | type => exact localVar?_apply made (by simp) name
  | bind bound value =>
      rw [localVar?_bind made, if_neg]
      rintro rfl
      exact other value rfl

theorem localVarNames_bind (made : scope.frame < store.frames.size) (bound : String)
    (value : Value) :
    scope.localVarNames ((Act.bind bound value).apply scope store) =
      if bound ∈ scope.localVarNames store then scope.localVarNames store
      else scope.localVarNames store ++ [bound] := by
  unfold Scope.localVarNames
  rw [frame_bind made, Bindings.names_put]

theorem settled_apply (settled : scope.Settled store) :
    scope.Settled (act.apply scope store) := by
  refine ⟨by simpa using settled.made, fun name cell found => ?_⟩
  by_cases binds : ∃ value, act = .bind name value
  · obtain ⟨value, rfl⟩ := binds
    rw [localVar?_bind settled.made, if_pos rfl] at found
    rw [← Option.some.inj found]
    simp [apply, Store.setFrame]
  · rw [localVar?_apply_of_ne settled.made fun value same => binds ⟨value, same⟩] at found
    exact Nat.lt_of_lt_of_le (settled.bound name cell found) size_cells_apply

theorem settled_number (settled : scope.Settled store) :
    scope.Settled { store with nextType := store.nextType + 1 } := by
  change scope.Settled (Act.number.apply scope store)
  exact settled_apply settled

theorem hasLocalType_apply (made : scope.frame < store.frames.size) (name : String) :
    scope.hasLocalType (act.apply scope store) name = true ↔
      scope.hasLocalType store name = true ∨
        act.binding?.bind Binding.typeName? = some name := by
  unfold Scope.hasLocalType
  cases act with
  | number | spare => simp [apply, binding?, Store.frame]
  | bind bound value =>
      have hname : (Act.bind bound value).binding?.bind Binding.typeName? = none := by
        cases h : value.isTag <;> simp [binding?, Binding.typeName?, h]
      rw [frame_bind made, hname]
      simp
  | type bound built =>
      rw [frame_type made, Bindings.contains_iff, Bindings.contains_iff, Bindings.names_put]
      by_cases same : bound = name
      · subst same
        split <;> simp [binding?, Binding.typeName?, *]
      · split <;> simp [binding?, Binding.typeName?, same, Ne.symm same]

theorem hasLocalVar_apply (made : scope.frame < store.frames.size) (name : String) :
    scope.hasLocalVar (act.apply scope store) name = true ↔
      scope.hasLocalVar store name = true ∨ act.binding?.bind Binding.varName? = some name := by
  unfold Scope.hasLocalVar
  cases act with
  | number | spare => simp [apply, binding?, Store.frame]
  | type bound built =>
      rw [frame_type made]
      simp [binding?, Binding.varName?]
  | bind bound value =>
      have hname : (Act.bind bound value).binding?.bind Binding.varName? = some bound := by
        cases h : value.isTag <;> simp [binding?, Binding.varName?, h]
      rw [frame_bind made, hname, Bindings.contains_iff, Bindings.contains_iff,
        Bindings.names_put]
      by_cases same : bound = name
      · subst same
        split <;> simp [*]
      · split <;> simp [same, Ne.symm same]

theorem holdsVariable_apply (settled : scope.Settled store) (allowed : act.Allowed scope store)
    (name : String) :
    scope.HoldsVariable (act.apply scope store) name ↔
      scope.HoldsVariable store name ∨ act.binding? = some (.variable name) := by
  unfold Scope.HoldsVariable
  cases act with
  | number | spare | type =>
      rw [localValue?_apply settled (by simp)]
      simp [binding?]
  | bind bound value =>
      rw [localValue?_bind settled]
      by_cases same : name = bound
      · subst same
        cases value with
        | tag tag =>
            have hfree := allowed name tag rfl
            unfold Scope.HoldsVariable at hfree
            rw [if_pos rfl, or_iff_right hfree]
            simp [binding?, Value.isTag]
        | range | record | either | array => simp [binding?, Value.isTag]
      · cases h : value.isTag <;> simp [binding?, same, Ne.symm same, h]

theorem localVar?_apply_of_holds (settled : scope.Settled store)
    (allowed : act.Allowed scope store) {name : String} (held : scope.HoldsVariable store name)
    (other : act.binding? ≠ some (.variable name)) :
    scope.localVar? (act.apply scope store) name = scope.localVar? store name := by
  apply localVar?_apply_of_ne settled.made
  rintro value rfl
  cases value with
  | tag tag => exact allowed name tag rfl held
  | range | record | either | array => exact other rfl

theorem localValue?_apply_tag (settled : scope.Settled store) {name : String} {tag : Tag}
    (found : scope.localValue? (act.apply scope store) name = some (.tag tag)) :
    scope.localValue? store name = some (.tag tag) ∨ act = .bind name (.tag tag) := by
  cases act with
  | number | spare | type =>
      rw [localValue?_apply settled (by simp)] at found
      exact .inl found
  | bind bound value =>
      rw [localValue?_bind settled] at found
      split at found
      · next same =>
        rw [same, Option.some.inj found]
        exact .inr rfl
      · exact .inl found

theorem distinct_apply (settled : scope.Settled store) (distinct : scope.Distinct store) :
    scope.Distinct (act.apply scope store) := by
  by_cases binds : ∃ bound value, act = .bind bound value
  · obtain ⟨bound, value, rfl⟩ := binds
    have hfresh : ∀ name, scope.localVar? store name ≠ some store.cells.size :=
      fun name found => Nat.lt_irrefl _ (settled.bound name _ found)
    intro left right cell hleft hright
    rw [localVar?_bind settled.made] at hleft hright
    split at hleft <;> split at hright
    · next first second => rw [first, second]
    · rw [← hleft] at hright
      exact absurd hright (hfresh right)
    · rw [← hright] at hleft
      exact absurd hleft (hfresh left)
    · exact distinct left right cell hleft hright
  · intro left right cell hleft hright
    have hkept := localVar?_apply settled.made fun bound value same =>
      binds ⟨bound, value, same⟩
    rw [hkept] at hleft hright
    exact distinct left right cell hleft hright

end Act

end StateModel
