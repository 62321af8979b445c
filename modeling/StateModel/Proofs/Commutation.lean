import StateModel.Proofs.Locality

/-!
Mutations at paths that part from each other. What one of them writes, the other
neither reads nor writes, so they can be done in either order: both are told the same
as before, and the same value is left. So a run of such mutations may be taken in any
order at all.
-/
namespace StateModel

/-! Putting two children back. -/

namespace RecordValue

theorem setField_comm (record : RecordValue) {name other : String} (different : other ≠ name)
    (child otherChild : Value) :
    (record.setField name child).setField other otherChild =
      (record.setField other otherChild).setField name child := by
  obtain ⟨type, children⟩ := record
  unfold setField
  cases hname : type.fieldIndex? name with
  | none => cases hother : type.fieldIndex? other <;> simp [hname]
  | some place =>
      cases hother : type.fieldIndex? other with
      | none => simp [hname]
      | some elsewhere =>
          have hne : place ≠ elsewhere := by
            rintro rfl
            exact different (RecordType.fieldIndex?_inj hother hname)
          simp only [hname, List.set_comm _ _ hne]

theorem setField_setField (record : RecordValue) (name : String) (child new : Value) :
    (record.setField name child).setField name new = record.setField name new := by
  obtain ⟨type, children⟩ := record
  unfold setField
  cases hname : type.fieldIndex? name <;> simp [hname]

end RecordValue

namespace ArrayValue

theorem setItem_comm (array : ArrayValue) {index other : Int64} (different : other ≠ index)
    (child otherChild : Value) :
    (array.setItem index child).setItem other otherChild =
      (array.setItem other otherChild).setItem index child := by
  obtain ⟨type, items⟩ := array
  unfold setItem
  cases hindex : type.index.interval.offset? index with
  | none => cases hother : type.index.interval.offset? other <;> simp [hindex]
  | some place =>
      cases hother : type.index.interval.offset? other with
      | none => simp [hindex]
      | some elsewhere =>
          have hne : place ≠ elsewhere := by
            rintro rfl
            exact different (Interval.offset?_inj hother hindex)
          simp only [hindex, List.set_comm _ _ hne]

theorem setItem_setItem (array : ArrayValue) (index : Int64) (child new : Value) :
    (array.setItem index child).setItem index new = array.setItem index new := by
  obtain ⟨type, items⟩ := array
  unfold setItem
  cases hindex : type.index.interval.offset? index <;> simp [hindex]

end ArrayValue

namespace EitherValue

theorem setField_comm (either : EitherValue) {name other : String} (different : other ≠ name)
    (child otherChild : Value) :
    (either.setField name child).setField other otherChild =
      (either.setField other otherChild).setField name child := by
  obtain ⟨tag, _ | payload⟩ := either
  · rfl
  · simp only [setField, Option.map_some, payload.setField_comm different]

theorem setField_setField (either : EitherValue) (name : String) (child new : Value) :
    (either.setField name child).setField name new = either.setField name new := by
  obtain ⟨tag, _ | payload⟩ := either
  · rfl
  · simp only [setField, Option.map_some, payload.setField_setField]

end EitherValue

namespace Value

theorem setChild_comm (value : Value) {step other : Step} (different : other ≠ step)
    (child otherChild : Value) :
    (value.setChild step child).setChild other otherChild =
      (value.setChild other otherChild).setChild step child := by
  cases step with
  | field name =>
      cases other with
      | index asked => cases value <;> rfl
      | field asked =>
          have hne : asked ≠ name := fun same => different (congrArg Step.field same)
          cases value with
          | record content => exact congrArg record (content.setField_comm hne ..)
          | either content => exact congrArg either (content.setField_comm hne ..)
          | range | tag | array => rfl
  | index index =>
      cases other with
      | field asked => cases value <;> rfl
      | index asked =>
          have hne : asked ≠ index := fun same => different (congrArg Step.index same)
          cases value with
          | array content => exact congrArg array (content.setItem_comm hne ..)
          | range | record | either | tag => rfl

theorem setChild_setChild (value : Value) (step : Step) (child new : Value) :
    (value.setChild step child).setChild step new = value.setChild step new := by
  cases step with
  | field name =>
      cases value with
      | record content => exact congrArg record (content.setField_setField ..)
      | either content => exact congrArg either (content.setField_setField ..)
      | range | tag | array => rfl
  | index index =>
      cases value with
      | array content => exact congrArg array (content.setItem_setItem ..)
      | range | record | either | tag => rfl

end Value

/-! Paths that part. -/

namespace Path.Diverge

variable {left right : Path}

theorem symm (diverge : left.Diverge right) : right.Diverge left := ⟨diverge.2, diverge.1⟩

theorem tail {step : Step} (diverge : Path.Diverge (step :: left) (step :: right)) :
    left.Diverge right :=
  ⟨fun inside => diverge.1 (List.cons_prefix_cons.2 ⟨rfl, inside⟩),
    fun inside => diverge.2 (List.cons_prefix_cons.2 ⟨rfl, inside⟩)⟩

end Path.Diverge

namespace Value

/-- Where the two paths part they go on to different children, and before that both put
back one and the same child. -/
theorem setAt_comm {value old otherOld : Value} {path other : Path}
    (found : value.get path = .ok old) (foundOther : value.get other = .ok otherOld)
    (diverge : path.Diverge other) (new otherNew : Value) :
    (value.setAt new path).setAt otherNew other = (value.setAt otherNew other).setAt new path := by
  induction path generalizing value other with
  | nil => exact absurd List.nil_prefix diverge.1
  | cons step rest ih =>
      cases other with
      | nil => exact absurd List.nil_prefix diverge.2
      | cons asked others =>
          obtain ⟨child, hchild, hrest⟩ := get_cons_eq_ok_iff.1 found
          obtain ⟨otherChild, hasked, hothers⟩ := get_cons_eq_ok_iff.1 foundOther
          by_cases same : asked = step
          · subst same
            cases hchild.symm.trans hasked
            simp only [setAt, hchild, child_setChild_self hchild, setChild_setChild,
              ih hrest hothers diverge.tail]
          · simp only [setAt, hchild, hasked, child_setChild_of_ne value same,
              child_setChild_of_ne value (Ne.symm same), value.setChild_comm same]

def perform (value : Value) (path : Path) (mutation : Mutation) : Except Problem Unit × Value :=
  (mutateInPlace path mutation).run value

theorem perform_eq_outcome (value : Value) (path : Path) (mutation : Mutation) :
    value.perform path mutation = InPlace.outcome value (value.mutate path mutation) :=
  performs_mutateInPlace path mutation value

theorem perform_eq (value : Value) (path : Path) (mutation : Mutation) :
    value.perform path mutation =
      match value.get path >>= mutation.apply with
      | .ok new => (.ok (), value.setAt new path)
      | .error problem => (.error problem, value) := by
  rw [perform_eq_outcome, mutate, update_eq, ← bind_assoc]
  cases value.get path >>= mutation.apply <;> rfl

theorem get_perform_of_diverge (value : Value) {path other : Path} (diverge : path.Diverge other)
    (mutation : Mutation) : (value.perform path mutation).2.get other = value.get other := by
  rw [perform_eq]
  cases found : value.get path with
  | error problem => rfl
  | ok node =>
      rw [show Except.ok node >>= mutation.apply = mutation.apply node from rfl]
      cases mutation.apply node with
      | error problem => rfl
      | ok new => exact get_setAt_of_diverge found diverge new

theorem answer_perform_of_diverge (value : Value) {path other : Path}
    (diverge : path.Diverge other) (mutation otherMutation : Mutation) :
    ((value.perform path mutation).2.perform other otherMutation).1 =
      (value.perform other otherMutation).1 := by
  rw [perform_eq _ other, perform_eq _ other, value.get_perform_of_diverge diverge]
  cases value.get other >>= otherMutation.apply <;> rfl

theorem perform_comm (value : Value) {path other : Path} (diverge : path.Diverge other)
    (mutation otherMutation : Mutation) :
    ((value.perform path mutation).2.perform other otherMutation).2 =
      ((value.perform other otherMutation).2.perform path mutation).2 := by
  rw [perform_eq _ other, value.get_perform_of_diverge diverge,
    perform_eq (value.perform other otherMutation).2 path,
    value.get_perform_of_diverge diverge.symm, perform_eq, perform_eq]
  cases found : value.get path with
  | error problem => rfl
  | ok node =>
      cases foundOther : value.get other with
      | error problem => rfl
      | ok otherNode =>
          rw [show Except.ok node >>= mutation.apply = mutation.apply node from rfl,
            show Except.ok otherNode >>= otherMutation.apply = otherMutation.apply otherNode
              from rfl]
          cases mutation.apply node with
          | error problem => cases otherMutation.apply otherNode <;> rfl
          | ok new =>
              cases otherMutation.apply otherNode with
              | error problem => rfl
              | ok otherNew => exact setAt_comm found foundOther diverge new otherNew

/-! Runs of mutations. -/

def answers (value : Value) : List (Path × Mutation) → List (Except Problem Unit)
  | [] => []
  | (path, mutation) :: rest =>
      (value.perform path mutation).1 :: (value.perform path mutation).2.answers rest

def performAll (value : Value) (run : List (Path × Mutation)) : Value :=
  run.foldl (fun value edit => (value.perform edit.1 edit.2).2) value

theorem answers_of_diverge (value : Value) {run : List (Path × Mutation)}
    (diverge : run.Pairwise fun left right => left.1.Diverge right.1) :
    value.answers run = run.map fun edit => (value.perform edit.1 edit.2).1 := by
  induction run generalizing value with
  | nil => rfl
  | cons edit rest ih =>
      obtain ⟨hfirst, hrest⟩ := List.pairwise_cons.1 diverge
      rw [answers, ih _ hrest, List.map_cons]
      refine congrArg _ (List.map_congr_left fun other inside => ?_)
      exact value.answer_perform_of_diverge (hfirst other inside) _ _

theorem performAll_perm (value : Value) {run reordered : List (Path × Mutation)}
    (reorders : run.Perm reordered)
    (diverge : run.Pairwise fun left right => left.1.Diverge right.1) :
    value.performAll run = value.performAll reordered := by
  induction reorders generalizing value with
  | nil => rfl
  | cons edit _ ih => exact ih _ (List.pairwise_cons.1 diverge).2
  | swap first second rest =>
      have hparts := (List.pairwise_cons.1 diverge).1 first List.mem_cons_self
      exact congrArg (performAll · rest) (value.perform_comm hparts _ _)
  | trans earlier _ ih ihLater =>
      have hmiddle := earlier.pairwise diverge fun parts => parts.symm
      exact (ih value diverge).trans (ihLater value hmiddle)

end Value

/-! Values that are the content of a cell. -/

namespace Store

def perform (store : Store) (id : CellId) (path : Path) (mutation : Mutation) :
    Except Failure Unit × Store :=
  Build.run (Store.updateCell id path mutation.apply) store

def setCellValue (store : Store) (id : CellId) (value : Value) : Store :=
  { store with cells := store.cells.setIfInBounds id value }

variable {store : Store} {id : CellId} {value : Value}

theorem setCellValue_self (held : store.cell? id = some value) :
    store.setCellValue id value = store := by
  obtain ⟨inside, rfl⟩ := Array.getElem?_eq_some_iff.1 held
  rw [setCellValue, Array.setIfInBounds, dif_pos inside, Array.set_getElem_self]

@[simp] theorem setCellValue_setCellValue (new : Value) :
    (store.setCellValue id value).setCellValue id new = store.setCellValue id new := by
  simp [setCellValue]

theorem cell?_setCellValue_self (held : store.cell? id = some value) (new : Value) :
    (store.setCellValue id new).cell? id = some new := by
  have hinside := (Array.getElem?_eq_some_iff.1 held).1
  simp [Store.cell?, setCellValue, hinside]

theorem perform_eq_of_held (held : store.cell? id = some value) (path : Path)
    (mutation : Mutation) :
    store.perform id path mutation =
      ((value.perform path mutation).1.mapError fun problem => { problem },
        store.setCellValue id (value.perform path mutation).2) := by
  obtain ⟨-, hplace, hcell⟩ := value.mutates path mutation
  rw [perform, hcell store id held, Value.perform, hplace]
  cases value.mutate path mutation with
  | ok after => rfl
  | error problem => exact Prod.ext rfl (setCellValue_self held).symm

theorem perform_of_absent (absent : store.cell? id = none) (path : Path) (mutation : Mutation) :
    store.perform id path mutation = (.ok (), store) := by
  simp [perform, Store.updateCell, absent]

end Store

/-- Of two mutations at paths that part, each is told the same whether it comes first or
second, and the same value is left, or the same store if they are done in a cell. This
holds whatever the value, also where a path leads nowhere or a mutation fails. -/
theorem Value.mutations_commute {path other : Path} (diverge : path.Diverge other)
    (mutation otherMutation : Mutation) :
    (∀ root : Value,
      ((root.perform path mutation).2.perform other otherMutation).2 =
        ((root.perform other otherMutation).2.perform path mutation).2 ∧
      ((root.perform path mutation).2.perform other otherMutation).1 =
        (root.perform other otherMutation).1 ∧
      ((root.perform other otherMutation).2.perform path mutation).1 =
        (root.perform path mutation).1) ∧
    ∀ (store : Store) id,
      ((store.perform id path mutation).2.perform id other otherMutation).2 =
        ((store.perform id other otherMutation).2.perform id path mutation).2 ∧
      ((store.perform id path mutation).2.perform id other otherMutation).1 =
        (store.perform id other otherMutation).1 ∧
      ((store.perform id other otherMutation).2.perform id path mutation).1 =
        (store.perform id path mutation).1 := by
  refine ⟨fun root => ⟨root.perform_comm diverge _ _, root.answer_perform_of_diverge diverge _ _,
    root.answer_perform_of_diverge diverge.symm _ _⟩, fun store id => ?_⟩
  cases held : store.cell? id with
  | none => simp only [Store.perform_of_absent held, and_self]
  | some root =>
      have hcell := Store.cell?_setCellValue_self held
      simp only [Store.perform_eq_of_held held, Store.perform_eq_of_held (hcell _),
        Store.setCellValue_setCellValue, root.perform_comm diverge,
        root.answer_perform_of_diverge diverge, root.answer_perform_of_diverge diverge.symm,
        and_self]

theorem Value.mutations_commute_failing :
    ∃ root after : Value, Path.Diverge [.field "a"] [.field "b"] ∧
      root.perform [.field "a"] (.assignInt 7) = (.ok (), after) ∧
      (root.perform [.field "b"] (.assignInt 12)).1 = .error (.outOfRange 12 0 9 "Digit") ∧
      (after.perform [.field "b"] (.assignInt 12)).1 = .error (.outOfRange 12 0 9 "Digit") ∧
      ((root.perform [.field "b"] (.assignInt 12)).2.perform [.field "a"] (.assignInt 7)).2 =
        after := by
  let digit : RangeType := ⟨⟨0, some "Digit", .dummy⟩, ⟨0, 9, by decide⟩⟩
  let pair : RecordType := ⟨⟨1, none, .dummy⟩, [⟨"a", .range digit⟩, ⟨"b", .range digit⟩],
    (Layout.empty.enter "a").enter "b"⟩
  have hdiverge : Path.Diverge [.field "a"] [.field "b"] := by simp [Path.Diverge]
  obtain ⟨hvalue, hanswer, -⟩ :=
    (mutations_commute hdiverge (.assignInt 7) (.assignInt 12)).1 (.record pair.default)
  let after : Value := .record ⟨pair, [.range ⟨digit, 7⟩, .range ⟨digit, 0⟩]⟩
  have hfirst : (Value.record pair.default).perform [.field "a"] (.assignInt 7) =
      (.ok (), after) := (perform_eq_outcome ..).trans rfl
  have hother : (Value.record pair.default).perform [.field "b"] (.assignInt 12) =
      (.error (.outOfRange 12 0 9 "Digit"), .record pair.default) :=
    (perform_eq_outcome ..).trans rfl
  have hlater : after.perform [.field "b"] (.assignInt 12) =
      (.error (.outOfRange 12 0 9 "Digit"), after) := (perform_eq_outcome ..).trans rfl
  rw [hfirst, hlater] at hvalue
  rw [hfirst] at hanswer
  exact ⟨.record pair.default, after, hdiverge, hfirst, congrArg Prod.fst hother,
    hanswer.trans (congrArg Prod.fst hother), hvalue.symm⟩

end StateModel
