import Mathlib.Data.List.Nodup
import StateModel.Scope

/-!
Frames kept as separate records: types and variables by name, and beside the variables
the order in which their names were first bound. Every binding writes the records one
after the other, a new name to the order and then its cell to the variables. They stay in
step, and give the types, the variables and the names that the bindings of a frame give.
-/
namespace StateModel

structure FrameRecords where
  types : String → Option Ty := fun _ => none
  vars : String → Option CellId := fun _ => none
  order : List String := []

inductive FrameWrite where
  | type (name : String) (type : Ty)
  | var (name : String) (cell : CellId)

namespace FrameRecords

def push (records : FrameRecords) (name : String) : FrameRecords :=
  { records with order := records.order ++ [name] }

def insert (records : FrameRecords) (name : String) (cell : CellId) : FrameRecords :=
  { records with vars := fun other => if other = name then some cell else records.vars other }

def insertType (records : FrameRecords) (name : String) (type : Ty) : FrameRecords :=
  { records with types := fun other => if other = name then some type else records.types other }

def bindVar (records : FrameRecords) (policy : Redefinition) (name : String) (cell : CellId) :
    Except Problem Unit × FrameRecords :=
  let known := (records.vars name).isSome
  if known ∧ policy = .reject then
    (.error (.duplicateDeclaration name), records)
  else
    (.ok (), (if known then records else records.push name).insert name cell)

def bindType (records : FrameRecords) (policy : Redefinition) (name : String) (type : Ty) :
    Except Problem Unit × FrameRecords :=
  if policy = .reject ∧ (records.types name).isSome then
    (.error (.duplicateDeclaration name), records)
  else
    (.ok (), records.insertType name type)

def write (records : FrameRecords) (policy : Redefinition) :
    FrameWrite → Except Problem Unit × FrameRecords
  | .type name type => records.bindType policy name type
  | .var name cell => records.bindVar policy name cell

def after (records : FrameRecords) (policy : Redefinition) (writes : List FrameWrite) :
    FrameRecords :=
  writes.foldl (fun records write => (records.write policy write).2) records

structure InStep (records : FrameRecords) : Prop where
  distinct : records.order.Nodup
  bound : ∀ name, name ∈ records.order ↔ (records.vars name).isSome = true

theorem inStep_empty : InStep {} where
  distinct := List.nodup_nil
  bound := by simp

variable {records : FrameRecords}

theorem InStep.bindVar (inStep : records.InStep) (policy : Redefinition) (name : String)
    (cell : CellId) : (records.bindVar policy name cell).2.InStep := by
  unfold FrameRecords.bindVar
  dsimp only
  split
  · exact inStep
  · split
    · next known =>
      refine ⟨inStep.distinct, fun other => ?_⟩
      by_cases same : other = name
      · simpa [insert, same] using (inStep.bound name).2 known
      · simpa [insert, same] using inStep.bound other
    · next new =>
      have absent : name ∉ records.order := fun old => new ((inStep.bound name).1 old)
      refine ⟨?_, fun other => ?_⟩
      · change (records.order ++ [name]).Nodup
        rw [← List.concat_eq_append]
        exact inStep.distinct.concat absent
      · by_cases same : other = name
        · simp [push, insert, same]
        · simpa [push, insert, same] using inStep.bound other

theorem InStep.write (inStep : records.InStep) (policy : Redefinition) :
    (write : FrameWrite) → (records.write policy write).2.InStep
  | .var name cell => inStep.bindVar policy name cell
  | .type name type => by
      change (records.bindType policy name type).2.InStep
      unfold bindType
      split
      · exact inStep
      · exact ⟨inStep.distinct, inStep.bound⟩

theorem InStep.after (inStep : records.InStep) (policy : Redefinition)
    (writes : List FrameWrite) : (records.after policy writes).InStep := by
  induction writes generalizing records with
  | nil => exact inStep
  | cons first rest ih => exact ih (inStep.write policy first)

end FrameRecords

theorem Bindings.find?_put {α : Type} (bindings : Bindings α) (name : String) (value : α) :
    (bindings.put name value).find? = fun other =>
      if other = name then some value else bindings.find? other := by
  funext other
  split
  · next same => rw [same, find?_put_self]
  · next different => exact find?_put_of_ne _ _ different

namespace Frame

def records (frame : Frame) : FrameRecords where
  types := frame.types.find?
  vars := frame.vars.find?
  order := frame.vars.names

variable (frame : Frame)

theorem records_putVar (name : String) (cell : CellId) :
    records { frame with vars := frame.vars.put name cell } =
      (if (frame.records.vars name).isSome then frame.records
        else frame.records.push name).insert name cell := by
  have hknown : (frame.records.vars name).isSome = true ↔ name ∈ frame.vars.names :=
    Bindings.contains_iff
  by_cases known : name ∈ frame.vars.names
  · rw [if_pos (hknown.2 known)]
    simp [records, FrameRecords.insert, Bindings.find?_put, Bindings.names_put, known]
  · rw [if_neg (mt hknown.1 known)]
    simp [records, FrameRecords.insert, FrameRecords.push, Bindings.find?_put,
      Bindings.names_put, known]

theorem records_putType (name : String) (type : Ty) :
    records { frame with types := frame.types.put name type } =
      frame.records.insertType name type := by
  simp [records, FrameRecords.insertType, Bindings.find?_put]

end Frame

namespace Scope

def write (scope : Scope) : FrameWrite → Build Unit
  | .type name type => scope.bindType name type
  | .var name cell => scope.bindVar name cell

def after (scope : Scope) (store : Store) (writes : List FrameWrite) : Store :=
  writes.foldl (fun store write => (Build.run (scope.write write) store).2) store

def records (scope : Scope) (store : Store) : FrameRecords := (store.frame scope.frame).records

variable {scope : Scope} {store : Store}

theorem records_setFrame (made : scope.frame < store.frames.size) (frame : Frame) :
    scope.records (store.setFrame scope.frame frame) = frame.records := by
  rw [records, Store.frame_setFrame_self made]

theorem write_records (made : scope.frame < store.frames.size) (write : FrameWrite) :
    (scope.records store).write scope.policy write =
      ((Build.run (scope.write write) store).1.mapError (·.problem),
        scope.records (Build.run (scope.write write) store).2) := by
  cases write with
  | var name cell =>
      rw [Scope.write, run_bindVar]
      change FrameRecords.bindVar _ _ _ _ = _
      unfold FrameRecords.bindVar
      by_cases refused : scope.policy = .reject ∧
          (store.frame scope.frame).vars.contains name = true
      · rw [if_pos refused]
        exact if_pos refused.symm
      · rw [if_neg refused]
        refine (if_neg (mt And.symm refused)).trans (Prod.ext rfl ?_)
        refine Eq.trans ?_ (records_setFrame made _).symm
        exact (Frame.records_putVar _ name cell).symm
  | type name type =>
      rw [Scope.write, run_bindType]
      change FrameRecords.bindType _ _ _ _ = _
      unfold FrameRecords.bindType
      by_cases refused : scope.policy = .reject ∧
          (store.frame scope.frame).types.contains name = true
      · rw [if_pos refused]
        exact if_pos refused
      · rw [if_neg refused]
        refine (if_neg refused).trans (Prod.ext rfl ?_)
        refine Eq.trans ?_ (records_setFrame made _).symm
        exact (Frame.records_putType _ name type).symm

theorem size_frames_write (write : FrameWrite) :
    (Build.run (scope.write write) store).2.frames.size = store.frames.size := by
  cases write with
  | var name cell =>
      rw [Scope.write, run_bindVar]
      dsimp only
      split <;> simp [Store.setFrame]
  | type name type =>
      rw [Scope.write, run_bindType]
      dsimp only
      split <;> simp [Store.setFrame]

/-- After any run of bindings the records are what the bindings of the frame say. -/
theorem records_after (made : scope.frame < store.frames.size) (writes : List FrameWrite) :
    scope.records (scope.after store writes) =
      (scope.records store).after scope.policy writes := by
  induction writes generalizing store with
  | nil => rfl
  | cons first rest ih =>
      have hfirst := congrArg Prod.snd (write_records made first)
      have hmade : scope.frame < (Build.run (scope.write first) store).2.frames.size := by
        rw [size_frames_write]
        exact made
      change scope.records (scope.after (Build.run (scope.write first) store).2 rest) =
        FrameRecords.after ((scope.records store).write scope.policy first).2 scope.policy rest
      rw [ih hmade, hfirst]

/-- The names of a frame that is made empty stay in step with its variables. -/
theorem inStep_newFrame (store : Store) (outer : List FrameId) (policy : Redefinition)
    (writes : List FrameWrite) :
    let scope : Scope := ⟨store.frames.size, outer, policy⟩
    (scope.records (scope.after { store with frames := store.frames.push {} } writes)).InStep := by
  intro scope
  have hmade : scope.frame < (store.frames.push {}).size := by simp [scope]
  have hempty : scope.records { store with frames := store.frames.push {} } = {} := by
    simp only [records, scope, Store.frame_push]
    simp [Store.frame]
    rfl
  rw [records_after hmade, hempty]
  exact FrameRecords.inStep_empty.after policy writes

end Scope

end StateModel
