import StateModel.Proofs.Simulation

/-!
Stores without places. All spans in them are the dummy one, and nothing else is other than
before. Every step that is taken in a store is taken in the store without places alike.
-/
namespace StateModel

def Relabelling.unplaced : Relabelling := ⟨id, fun _ => .dummy⟩

def Failure.unplaced (failure : Failure) : Failure := { problem := failure.problem }

theorem Failure.unplaced_located (span : Span) (failure : Failure) :
    (failure.located span).unplaced = failure.unplaced.located .dummy := by
  rw [unplaced, unplaced, located_problem, located_dummy]

def Frame.unplaced (frame : Frame) : Frame :=
  ⟨frame.types.map (·.relabel .unplaced), frame.vars⟩

namespace Store

def unplaced (store : Store) : Store where
  frames := store.frames.map Frame.unplaced
  cells := store.cells.map (·.relabel .unplaced)
  nextType := store.nextType

variable (store : Store)

@[simp] theorem frame_unplaced (id : FrameId) :
    store.unplaced.frame id = (store.frame id).unplaced := by
  simp only [Store.frame, unplaced, Array.getElem?_map]
  cases store.frames[id]? <;> rfl

@[simp] theorem cell?_unplaced (id : CellId) :
    store.unplaced.cell? id = (store.cell? id).map (·.relabel .unplaced) := by
  simp [Store.cell?, unplaced]

theorem setFrame_unplaced (id : FrameId) (frame : Frame) :
    (store.setFrame id frame).unplaced = store.unplaced.setFrame id frame.unplaced := by
  simp [setFrame, unplaced]

end Store

namespace Scope

variable (scope : Scope) (store : Store) (name : String)

@[simp] theorem type?_unplaced : scope.type? store.unplaced name =
    (scope.type? store name).map (·.relabel .unplaced) := by
  simp [type?, Frame.unplaced, List.map_findSome?, Function.comp_def]

@[simp] theorem var?_unplaced : scope.var? store.unplaced name = scope.var? store name := by
  simp [var?, Frame.unplaced]

@[simp] theorem value?_unplaced : scope.value? store.unplaced name =
    (scope.value? store name).map (·.relabel .unplaced) := by
  cases found : scope.var? store name <;> simp [value?, found]

@[simp] theorem localVar?_unplaced :
    scope.localVar? store.unplaced name = scope.localVar? store name := by
  simp [localVar?, Frame.unplaced]

@[simp] theorem localValue?_unplaced : scope.localValue? store.unplaced name =
    (scope.localValue? store name).map (·.relabel .unplaced) := by
  cases found : scope.localVar? store name <;> simp [localValue?, found]

@[simp] theorem localVarNames_unplaced :
    scope.localVarNames store.unplaced = scope.localVarNames store := by
  simp [localVarNames, Frame.unplaced]

end Scope

/-! The steps. -/

def Pairing.unplaced : Pairing where
  related store twin := twin = store.unplaced
  labels := .unplaced
  cell := id
  failure := Failure.unplaced
  failure_problem _ := rfl
  failure_located := Failure.unplaced_located

namespace Build.Paired

variable {scope : Scope}

theorem unplaced_newCell (value : Value) :
    Build.Paired .unplaced id (Store.newCell value)
      (Store.newCell (value.relabel .unplaced)) := by
  rintro store _ rfl
  rw [Store.run_newCell, Store.run_newCell]
  refine ⟨?_, ?_⟩
  · rw [Store.unplaced, Array.size_map]
    rfl
  · change Store.mk _ _ _ = Store.mk _ ((store.cells.push value).map _) _
    rw [Array.map_push]
    rfl

theorem unplaced_resolveType (name : String) :
    Build.Paired .unplaced (·.relabel .unplaced) (scope.resolveType name)
      (scope.resolveType name) := by
  rintro store _ rfl
  rw [Scope.run_resolveType, Scope.run_resolveType, Scope.type?_unplaced]
  cases scope.type? store name <;> exact ⟨rfl, rfl⟩

theorem unplaced_resolveVar (name : String) :
    Build.Paired .unplaced id (scope.resolveVar name) (scope.resolveVar name) := by
  rintro store _ rfl
  rw [Scope.run_resolveVar, Scope.run_resolveVar, Scope.var?_unplaced]
  cases scope.var? store name <;> exact ⟨rfl, rfl⟩

theorem unplaced_resolveValue (name : String) :
    Build.Paired .unplaced (·.relabel .unplaced) (scope.resolveValue name)
      (scope.resolveValue name) := by
  rintro store _ rfl
  rw [Scope.run_resolveValue, Scope.run_resolveValue, Scope.value?_unplaced]
  cases scope.value? store name <;> exact ⟨rfl, rfl⟩

theorem unplaced_bindType (name : String) (type : Ty) :
    Build.Paired .unplaced id (scope.bindType name type)
      (scope.bindType name (type.relabel .unplaced)) := by
  rintro store _ rfl
  rw [Scope.run_bindType, Scope.run_bindType]
  simp only [Store.frame_unplaced, Frame.unplaced, Bindings.contains_map, ← Bindings.map_put]
  split
  · exact ⟨rfl, rfl⟩
  · have hset := store.setFrame_unplaced scope.frame
      ⟨(store.frame scope.frame).types.put name type, (store.frame scope.frame).vars⟩
    exact ⟨rfl, hset.symm⟩

theorem unplaced_bindVar (name : String) (cell : CellId) :
    Build.Paired .unplaced id (scope.bindVar name cell) (scope.bindVar name cell) := by
  rintro store _ rfl
  rw [Scope.run_bindVar, Scope.run_bindVar]
  simp only [Store.frame_unplaced, Frame.unplaced]
  split
  · exact ⟨rfl, rfl⟩
  · have hset := store.setFrame_unplaced scope.frame
      ⟨(store.frame scope.frame).types, (store.frame scope.frame).vars.put name cell⟩
    exact ⟨rfl, hset.symm⟩

theorem unplaced_requireConstantOrFree (name : String) :
    Build.Paired .unplaced id (scope.requireConstantOrFree name)
      (scope.requireConstantOrFree name) := by
  rintro store _ rfl
  rw [Scope.run_requireConstantOrFree, Scope.run_requireConstantOrFree,
    Scope.localValue?_unplaced]
  rcases scope.localValue? store name with _ | value
  · exact ⟨rfl, rfl⟩
  · cases value <;> exact ⟨rfl, rfl⟩

end Build.Paired

/-- The scope is the same on both sides, since it has no places. -/
def Simulation.unplaced (scope : Scope) : Simulation scope scope where
  toPairing := .unplaced
  injective := Function.injective_id
  header _ _ := by
    rintro store _ rfl
    exact ⟨rfl, rfl⟩
  newCell := Build.Paired.unplaced_newCell
  resolveType := Build.Paired.unplaced_resolveType
  resolveVar := Build.Paired.unplaced_resolveVar
  resolveValue := Build.Paired.unplaced_resolveValue
  bindType := Build.Paired.unplaced_bindType
  bindVar := Build.Paired.unplaced_bindVar
  requireConstantOrFree := Build.Paired.unplaced_requireConstantOrFree

end StateModel
