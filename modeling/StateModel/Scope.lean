import StateModel.Store

/-!
Scopes: chains of frames. New bindings go to the innermost frame, and a name
means its innermost binding. Frames belong to the store, so every scope that has
a frame in its chain sees what any other binds there; the policy on names bound
twice belongs to the scope alone.
-/
namespace StateModel

inductive Redefinition where
  | overwrite
  | reject
  deriving DecidableEq

structure Scope where
  frame : FrameId
  /-- The frames around the innermost one, nearest first. -/
  outer : List FrameId
  policy : Redefinition

namespace Scope

def root : Build Scope := return ⟨← Store.newFrame, [], .overwrite⟩

def frames (scope : Scope) : List FrameId := scope.frame :: scope.outer

def depth (scope : Scope) : Nat := scope.frames.length

def child (scope : Scope) : Build Scope :=
  return ⟨← Store.newFrame, scope.frames, scope.policy⟩

def withPolicy (scope : Scope) (policy : Redefinition) : Scope := { scope with policy }

/-! Looking names up. -/

def type? (scope : Scope) (store : Store) (name : String) : Option Ty :=
  scope.frames.findSome? fun id => (store.frame id).types.find? name

def var? (scope : Scope) (store : Store) (name : String) : Option CellId :=
  scope.frames.findSome? fun id => (store.frame id).vars.find? name

def value? (scope : Scope) (store : Store) (name : String) : Option Value :=
  (scope.var? store name).bind store.cell?

def localVar? (scope : Scope) (store : Store) (name : String) : Option CellId :=
  (store.frame scope.frame).vars.find? name

def localValue? (scope : Scope) (store : Store) (name : String) : Option Value :=
  (scope.localVar? store name).bind store.cell?

def hasLocalType (scope : Scope) (store : Store) (name : String) : Bool :=
  (store.frame scope.frame).types.contains name

def hasLocalVar (scope : Scope) (store : Store) (name : String) : Bool :=
  (store.frame scope.frame).vars.contains name

theorem findSome?_congr {α β : Type} {first second : α → Option β} {chain : List α}
    (same : ∀ item ∈ chain, first item = second item) :
    chain.findSome? first = chain.findSome? second := by
  induction chain with
  | nil => rfl
  | cons item rest ih =>
      rw [List.forall_mem_cons] at same
      rw [List.findSome?_cons, List.findSome?_cons, same.1, ih same.2]

theorem type?_congr {scope : Scope} {store after : Store} {name : String}
    (same : ∀ id ∈ scope.frames,
      (after.frame id).types.find? name = (store.frame id).types.find? name) :
    scope.type? after name = scope.type? store name := findSome?_congr same

def localVarNames (scope : Scope) (store : Store) : List String :=
  (store.frame scope.frame).vars.names

def resolveType (scope : Scope) (name : String) : Build Ty := do
  match scope.type? (← get) name with
  | some type => return type
  | none => Build.fail (.unknownType name)

def resolveVar (scope : Scope) (name : String) : Build CellId := do
  match scope.var? (← get) name with
  | some cell => return cell
  | none => Build.fail (.unknownVariable name)

def resolveValue (scope : Scope) (name : String) : Build Value := do
  match scope.value? (← get) name with
  | some value => return value
  | none => Build.fail (.unknownVariable name)

theorem run_resolveType (scope : Scope) (name : String) (store : Store) :
    Build.run (scope.resolveType name) store =
      match scope.type? store name with
      | some type => (.ok type, store)
      | none => (.error { problem := .unknownType name }, store) := by
  simp only [resolveType, Build.run_bind, Build.run_get]
  split <;> rfl

theorem run_resolveVar (scope : Scope) (name : String) (store : Store) :
    Build.run (scope.resolveVar name) store =
      match scope.var? store name with
      | some cell => (.ok cell, store)
      | none => (.error { problem := .unknownVariable name }, store) := by
  simp only [resolveVar, Build.run_bind, Build.run_get]
  split <;> rfl

theorem run_resolveValue (scope : Scope) (name : String) (store : Store) :
    Build.run (scope.resolveValue name) store =
      match scope.value? store name with
      | some value => (.ok value, store)
      | none => (.error { problem := .unknownVariable name }, store) := by
  simp only [resolveValue, Build.run_bind, Build.run_get]
  split <;> rfl

/-! Binding names. Types and variables never collide. -/

def bindType (scope : Scope) (name : String) (type : Ty) : Build Unit := do
  let frame := (← get).frame scope.frame
  if scope.policy = .reject ∧ frame.types.contains name then
    Build.fail (.duplicateDeclaration name)
  modify (·.setFrame scope.frame { frame with types := frame.types.put name type })

def bindVar (scope : Scope) (name : String) (cell : CellId) : Build Unit := do
  let frame := (← get).frame scope.frame
  if scope.policy = .reject ∧ frame.vars.contains name then
    Build.fail (.duplicateDeclaration name)
  modify (·.setFrame scope.frame { frame with vars := frame.vars.put name cell })

theorem run_bindType (scope : Scope) (name : String) (type : Ty) (store : Store) :
    Build.run (scope.bindType name type) store =
      let frame := store.frame scope.frame
      if scope.policy = .reject ∧ frame.types.contains name then
        (.error { problem := .duplicateDeclaration name }, store)
      else
        (.ok (), store.setFrame scope.frame { frame with types := frame.types.put name type }) := by
  simp only [bindType, Build.run_bind, Build.run_get]
  split <;> rfl

theorem run_bindVar (scope : Scope) (name : String) (cell : CellId) (store : Store) :
    Build.run (scope.bindVar name cell) store =
      let frame := store.frame scope.frame
      if scope.policy = .reject ∧ frame.vars.contains name then
        (.error { problem := .duplicateDeclaration name }, store)
      else
        (.ok (), store.setFrame scope.frame { frame with vars := frame.vars.put name cell }) := by
  simp only [bindVar, Build.run_bind, Build.run_get]
  split <;> rfl

theorem frame_bindType_of_ne {scope : Scope} {id : FrameId} (other : id ≠ scope.frame)
    (name : String) (type : Ty) (store : Store) :
    (Build.run (scope.bindType name type) store).2.frame id = store.frame id := by
  rw [run_bindType]
  dsimp only
  split
  · rfl
  · exact Store.frame_setFrame_of_ne other _

theorem frame_bindVar_of_ne {scope : Scope} {id : FrameId} (other : id ≠ scope.frame)
    (name : String) (cell : CellId) (store : Store) :
    (Build.run (scope.bindVar name cell) store).2.frame id = store.frame id := by
  rw [run_bindVar]
  dsimp only
  split
  · rfl
  · exact Store.frame_setFrame_of_ne other _

end Scope

end StateModel
