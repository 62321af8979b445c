import StateModel.Bindings
import StateModel.Problem
import StateModel.Value

/-!
The store behind all scopes: frames of bindings, cells that hold the values of
variables, and the count of the types built so far. A frame binds variables to
cells, so that two names can share one. Nothing is ever removed.
-/
namespace StateModel

abbrev FrameId := Nat

abbrev CellId := Nat

structure Frame where
  types : Bindings Ty := {}
  vars : Bindings CellId := {}

structure Store where
  frames : Array Frame := #[]
  cells : Array Value := #[]
  nextType : TypeId := 0

/-- Work on the store that may fail. What was done before a failure stays. -/
abbrev Build := ExceptT Failure (StateM Store)

namespace Build

variable {α β : Type}

def run (work : Build α) (store : Store) : Except Failure α × Store :=
  StateT.run (ExceptT.run work) store

def fail (problem : Problem) : Build α := throw { problem }

def ofExcept : Except Problem α → Build α
  | .ok result => pure result
  | .error problem => fail problem

def locate (span : Span) (work : Build α) : Build α := work.adapt (·.located span)

@[simp] theorem run_pure (result : α) (store : Store) :
    run (pure result) store = (.ok result, store) := rfl

@[simp] theorem run_fail (problem : Problem) (store : Store) :
    run (fail problem : Build α) store = (.error { problem }, store) := rfl

@[simp] theorem run_get (store : Store) : run get store = (.ok store, store) := rfl

@[simp] theorem run_modify (change : Store → Store) (store : Store) :
    run (modify change) store = (.ok (), change store) := rfl

@[simp] theorem run_modifyGet (change : Store → α × Store) (store : Store) :
    run (modifyGet change) store = (.ok (change store).1, (change store).2) := rfl

@[simp] theorem run_bind (work : Build α) (next : α → Build β) (store : Store) :
    run (work >>= next) store =
      match run work store with
      | (.ok result, after) => run (next result) after
      | (.error failure, after) => (.error failure, after) := by
  change StateT.run ((ExceptT.run work) >>= ExceptT.bindCont next) store = _
  rw [StateT.run_bind]
  change (fun (result, after) => StateT.run (ExceptT.bindCont next result) after)
    (run work store) = _
  rcases run work store with ⟨_ | _, _⟩ <;> rfl

theorem run_bind_eq_ok {work : Build α} {next : α → Build β} {store after : Store} {last : β} :
    run (work >>= next) store = (.ok last, after) ↔
      ∃ result middle, run work store = (.ok result, middle) ∧
        run (next result) middle = (.ok last, after) := by
  rw [run_bind]
  rcases run work store with ⟨_ | result, middle⟩
  · simp
  · constructor
    · exact fun ends => ⟨result, middle, rfl, ends⟩
    · rintro ⟨_, _, same, ends⟩
      cases same
      exact ends

theorem run_bind_eq_error {work : Build α} {next : α → Build β} {store : Store}
    {failure : Failure} :
    (run (work >>= next) store).1 = .error failure ↔
      (run work store).1 = .error failure ∨
        ∃ result middle, run work store = (.ok result, middle) ∧
          (run (next result) middle).1 = .error failure := by
  rw [run_bind]
  rcases run work store with ⟨_ | result, middle⟩
  · simp
  · constructor
    · exact fun fails => .inr ⟨result, middle, rfl, fails⟩
    · rintro (fails | ⟨_, _, same, fails⟩)
      · cases fails
      · cases same
        exact fails

theorem run_forM_cons (item : α) (rest : List α) (work : α → Build Unit) (store : Store) :
    run ((item :: rest).forM work) store =
      match run (work item) store with
      | (.ok (), after) => run (rest.forM work) after
      | (.error failure, after) => (.error failure, after) := by
  change run (work item >>= fun _ => rest.forM work) store = _
  rw [run_bind]
  rcases run (work item) store with ⟨_ | _, _⟩ <;> rfl

@[simp] theorem run_locate (span : Span) (work : Build α) (store : Store) :
    run (locate span work) store =
      ((run work store).1.mapError (·.located span), (run work store).2) := rfl

theorem mapError_eq_ok {place : Failure → Failure} {outcome : Except Failure α} {result : α} :
    outcome.mapError place = .ok result ↔ outcome = .ok result := by
  cases outcome with
  | error failure => exact ⟨nofun, nofun⟩
  | ok value => rfl

theorem run_locate_eq_ok {span : Span} {work : Build α} {store after : Store} {result : α} :
    run (locate span work) store = (.ok result, after) ↔
      run work store = (.ok result, after) := by
  rw [run_locate, Prod.ext_iff, Prod.ext_iff, mapError_eq_ok]

theorem mapError_eq_error {place : Failure → Failure} {outcome : Except Failure α}
    {failure : Failure} :
    outcome.mapError place = .error failure ↔
      ∃ inner, outcome = .error inner ∧ failure = place inner := by
  cases outcome with
  | error inner =>
      constructor
      · rintro ⟨⟩
        exact ⟨inner, rfl, rfl⟩
      · rintro ⟨_, ⟨⟩, rfl⟩
        rfl
  | ok value =>
      constructor
      · rintro ⟨⟩
      · rintro ⟨_, ⟨⟩, _⟩

theorem run_locate_eq_error {span : Span} {work : Build α} {store : Store} {failure : Failure} :
    (run (locate span work) store).1 = .error failure ↔
      ∃ inner, (run work store).1 = .error inner ∧ failure = inner.located span := by
  rw [run_locate, mapError_eq_error]

end Build

namespace Store

/-- A frame that was never made is empty. -/
def frame (store : Store) (id : FrameId) : Frame := store.frames[id]?.getD {}

def cell? (store : Store) (id : CellId) : Option Value := store.cells[id]?

def setFrame (store : Store) (id : FrameId) (frame : Frame) : Store :=
  { store with frames := store.frames.setIfInBounds id frame }

theorem frame_setFrame_self {store : Store} {id : FrameId} (made : id < store.frames.size)
    (frame : Frame) : (store.setFrame id frame).frame id = frame := by
  simp [Store.frame, setFrame, made]

theorem frame_setFrame_of_ne {store : Store} {id other : FrameId} (different : other ≠ id)
    (frame : Frame) : (store.setFrame id frame).frame other = store.frame other := by
  simp [Store.frame, setFrame, Ne.symm different]

theorem frame_setFrame_eq_or (store : Store) (id other : FrameId) (frame : Frame) :
    (store.setFrame id frame).frame other = frame ∨
      (store.setFrame id frame).frame other = store.frame other := by
  by_cases same : other = id
  · subst same
    by_cases made : other < store.frames.size
    · exact .inl (frame_setFrame_self made frame)
    · right
      simp [Store.frame, setFrame, made]
  · exact .inr (frame_setFrame_of_ne same frame)

@[simp] theorem frame_push (store : Store) (id : FrameId) :
    ({ store with frames := store.frames.push {} } : Store).frame id = store.frame id := by
  rcases Nat.lt_trichotomy id store.frames.size with old | rfl | absent
  · simp [Store.frame, Array.getElem?_push_lt old, old]
  · simp [Store.frame]
  · have hbeyond : ¬id < store.frames.size := Nat.not_lt_of_gt absent
    have hnew : id ≠ store.frames.size := Nat.ne_of_gt absent
    simp [Store.frame, Array.getElem?_push, hbeyond, hnew]

def newFrame : Build FrameId :=
  modifyGet fun store => (store.frames.size, { store with frames := store.frames.push {} })

def newCell (value : Value) : Build CellId :=
  modifyGet fun store => (store.cells.size, { store with cells := store.cells.push value })

def setCell (id : CellId) (value : Value) : Build Unit :=
  modify fun store => { store with cells := store.cells.setIfInBounds id value }

def newHeader (name : Option String) (span : Span) : Build Header :=
  modifyGet fun store =>
    (⟨store.nextType, name, span⟩, { store with nextType := store.nextType + 1 })

@[simp] theorem run_newFrame (store : Store) :
    Build.run newFrame store =
      (.ok store.frames.size, { store with frames := store.frames.push {} }) := rfl

@[simp] theorem run_newCell (value : Value) (store : Store) :
    Build.run (newCell value) store =
      (.ok store.cells.size, { store with cells := store.cells.push value }) := rfl

@[simp] theorem run_setCell (id : CellId) (value : Value) (store : Store) :
    Build.run (setCell id value) store =
      (.ok (), { store with cells := store.cells.setIfInBounds id value }) := rfl

@[simp] theorem run_newHeader (name : Option String) (span : Span) (store : Store) :
    Build.run (newHeader name span) store =
      (.ok ⟨store.nextType, name, span⟩, { store with nextType := store.nextType + 1 }) := rfl

end Store

end StateModel
