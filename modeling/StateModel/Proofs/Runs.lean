import StateModel.Proofs.Acts

/-!
Runs of acts. Each fact about a run follows from the same fact about one act, by
induction on the run, and together they are what a load leaves of a frame.
-/
namespace StateModel

namespace Scope

/-- A run of acts, each allowed in the store that it finds. -/
inductive Performs (scope : Scope) : Store → List Act → Store → Prop where
  | done (store : Store) : scope.Performs store [] store
  | act {store after : Store} {act : Act} {rest : List Act} (allowed : act.Allowed scope store)
      (performs : scope.Performs (act.apply scope store) rest after) :
      scope.Performs store (act :: rest) after

namespace Performs

variable {scope : Scope} {store middle after : Store} {acts more : List Act}

theorem single {act : Act} (allowed : act.Allowed scope store) :
    scope.Performs store [act] (act.apply scope store) :=
  .act allowed (.done _)

theorem append (performs : scope.Performs store acts middle)
    (later : scope.Performs middle more after) : scope.Performs store (acts ++ more) after := by
  induction performs with
  | done => exact later
  | act allowed _ ih => exact .act allowed (ih later)

theorem size_frames (performs : scope.Performs store acts after) :
    after.frames.size = store.frames.size := by
  induction performs with
  | done => rfl
  | act _ _ ih => rw [ih, Act.size_frames_apply]

theorem frame_of_ne (performs : scope.Performs store acts after) {id : FrameId}
    (other : id ≠ scope.frame) : after.frame id = store.frame id := by
  induction performs with
  | done => rfl
  | act _ _ ih => rw [ih, Act.frame_apply_of_ne other]

theorem size_cells (performs : scope.Performs store acts after) :
    store.cells.size ≤ after.cells.size := by
  induction performs with
  | done => exact Nat.le_refl _
  | act _ _ ih => exact Nat.le_trans Act.size_cells_apply ih

theorem nextType_le (performs : scope.Performs store acts after) :
    store.nextType ≤ after.nextType := by
  induction performs with
  | done => exact Nat.le_refl _
  | act _ _ ih => exact Nat.le_trans Act.nextType_apply ih

theorem cell? (performs : scope.Performs store acts after) {cell : CellId}
    (old : cell < store.cells.size) : after.cell? cell = store.cell? cell := by
  induction performs with
  | done => rfl
  | act _ _ ih => rw [ih (Nat.lt_of_lt_of_le old Act.size_cells_apply), Act.cell?_apply old]

theorem settled (performs : scope.Performs store acts after) (settled : scope.Settled store) :
    scope.Settled after := by
  induction performs with
  | done => exact settled
  | act _ _ ih => exact ih (Act.settled_apply settled)

theorem distinct (performs : scope.Performs store acts after) (settled : scope.Settled store)
    (distinct : scope.Distinct store) : scope.Distinct after := by
  induction performs with
  | done => exact distinct
  | act _ _ ih => exact ih (Act.settled_apply settled) (Act.distinct_apply settled distinct)

theorem localVar?_eq_or_new (performs : scope.Performs store acts after)
    (settled : scope.Settled store) {name : String} {cell : CellId}
    (found : scope.localVar? after name = some cell) :
    scope.localVar? store name = some cell ∨ store.cells.size ≤ cell := by
  induction performs with
  | done => exact .inl found
  | @act store after act rest allowed performs ih =>
      rcases ih (Act.settled_apply settled) found with old | new
      · by_cases binds : ∃ value, act = .bind name value
        · obtain ⟨value, rfl⟩ := binds
          rw [Act.localVar?_bind settled.made, if_pos rfl, Option.some.injEq] at old
          exact .inr (Nat.le_of_eq old)
        · rw [Act.localVar?_apply_of_ne settled.made fun value same => binds ⟨value, same⟩] at old
          exact .inl old
      · exact .inr (Nat.le_trans Act.size_cells_apply new)

theorem hasLocalType_iff (performs : scope.Performs store acts after)
    (made : scope.frame < store.frames.size) (name : String) :
    scope.hasLocalType after name = true ↔ scope.hasLocalType store name = true ∨
      name ∈ (acts.filterMap Act.binding?).filterMap Binding.typeName? := by
  induction performs with
  | done => simp
  | @act store after act rest allowed performs ih =>
      rw [ih (by simpa using made), Act.hasLocalType_apply made]
      simp only [List.filterMap_filterMap, List.mem_filterMap, List.mem_cons, exists_eq_or_imp,
        or_assoc]

theorem hasLocalVar_iff (performs : scope.Performs store acts after)
    (made : scope.frame < store.frames.size) (name : String) :
    scope.hasLocalVar after name = true ↔ scope.hasLocalVar store name = true ∨
      name ∈ (acts.filterMap Act.binding?).filterMap Binding.varName? := by
  induction performs with
  | done => simp
  | @act store after act rest allowed performs ih =>
      rw [ih (by simpa using made), Act.hasLocalVar_apply made]
      simp only [List.filterMap_filterMap, List.mem_filterMap, List.mem_cons, exists_eq_or_imp,
        or_assoc]

theorem holdsVariable_iff (performs : scope.Performs store acts after)
    (settled : scope.Settled store) (name : String) :
    scope.HoldsVariable after name ↔
      scope.HoldsVariable store name ∨ .variable name ∈ acts.filterMap Act.binding? := by
  induction performs with
  | done => simp
  | @act store after act rest allowed performs ih =>
      rw [ih (Act.settled_apply settled), Act.holdsVariable_apply settled allowed]
      simp only [List.mem_filterMap, List.mem_cons, exists_eq_or_imp, or_assoc]

theorem localVar?_of_holds (performs : scope.Performs store acts after)
    (settled : scope.Settled store) {name : String} (held : scope.HoldsVariable store name)
    (other : .variable name ∉ acts.filterMap Act.binding?) :
    scope.localVar? after name = scope.localVar? store name := by
  induction performs with
  | done => rfl
  | @act store after act rest allowed performs ih =>
      simp only [List.mem_filterMap, List.mem_cons, exists_eq_or_imp, not_or] at other
      rw [ih (Act.settled_apply settled)
          ((Act.holdsVariable_apply settled allowed name).2 (.inl held))
          (by simpa using other.2),
        Act.localVar?_apply_of_holds settled allowed held other.1]

theorem localValue?_of_holds (performs : scope.Performs store acts after)
    (settled : scope.Settled store) {name : String} (held : scope.HoldsVariable store name)
    (other : .variable name ∉ acts.filterMap Act.binding?) :
    scope.localValue? after name = scope.localValue? store name := by
  unfold localValue?
  rw [performs.localVar?_of_holds settled held other]
  cases found : scope.localVar? store name with
  | none => rfl
  | some cell => exact performs.cell? (settled.bound name cell found)

theorem localValue?_tag (performs : scope.Performs store acts after)
    (settled : scope.Settled store) {name : String} {tag : Tag}
    (found : scope.localValue? after name = some (.tag tag)) :
    scope.localValue? store name = some (.tag tag) ∨ .bind name (.tag tag) ∈ acts := by
  induction performs with
  | done => exact .inl found
  | @act store after act rest allowed performs ih =>
      rcases ih (Act.settled_apply settled) found with old | later
      · rcases Act.localValue?_apply_tag settled old with older | rfl
        · exact .inl older
        · exact .inr List.mem_cons_self
      · exact .inr (List.mem_cons_of_mem _ later)

end Performs

end Scope

end StateModel
