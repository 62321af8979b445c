import StateModel.Proofs.Renumbering
import StateModel.Proofs.Simulation

/-!
Twin stores. One of them has more frames, cells and types than the other, none of which
the scope can see. What is done in the scope of one can be done in the same scope of the
other, with the same outcome under other numbers, and leaves twins.
-/
namespace StateModel

/-- Numbers below `old` are shared, and from there on one count is ahead of another. -/
structure Lead where
  old : Nat
  ahead : Nat

namespace Lead

variable {lead : Lead}

def move (lead : Lead) (id : Nat) : Nat := if id < lead.old then id else id + lead.ahead

theorem move_of_lt {id : Nat} (shared : id < lead.old) : lead.move id = id := if_pos shared

theorem move_of_le {id : Nat} (new : lead.old ≤ id) : lead.move id = id + lead.ahead :=
  if_neg (Nat.not_lt.2 new)

theorem move_injective (lead : Lead) : Function.Injective lead.move := by
  intro left right same
  unfold move at same
  split at same <;> split at same <;> omega

structure Between (lead : Lead) (count other : Nat) : Prop where
  old : lead.old ≤ count
  ahead : other = count + lead.ahead

theorem Between.move_eq {count other : Nat} (between : lead.Between count other) :
    lead.move count = other := by
  rw [move_of_le between.old, between.ahead]

theorem Between.succ {count other : Nat} (between : lead.Between count other) :
    lead.Between (count + 1) (other + 1) where
  old := Nat.le_succ_of_le between.old
  ahead := by rw [between.ahead, Nat.add_right_comm]

theorem Between.move_lt_iff {count other id : Nat} (between : lead.Between count other) :
    lead.move id < other ↔ id < count := by
  obtain ⟨hold, rfl⟩ := between
  unfold move
  split <;> omega

end Lead

structure Renaming where
  types : Lead
  cells : Lead
  frames : Lead

def Scope.rename (ren : Renaming) (scope : Scope) : Scope :=
  ⟨ren.frames.move scope.frame, scope.outer.map ren.frames.move, scope.policy⟩

/-- Two stores that a scope cannot tell apart but by numbers. -/
structure Twins (ren : Renaming) (scope : Scope) (store twin : Store) : Prop where
  made : scope.frame < store.frames.size
  frames : ren.frames.Between store.frames.size twin.frames.size
  nextType : ren.types.Between store.nextType twin.nextType
  size : ren.cells.Between store.cells.size twin.cells.size
  types : ∀ id ∈ scope.frames, ∀ name,
    (twin.frame (ren.frames.move id)).types.find? name =
      ((store.frame id).types.find? name).map (·.renumber ren.types.move)
  vars : ∀ id ∈ scope.frames, ∀ name,
    (twin.frame (ren.frames.move id)).vars.find? name =
      ((store.frame id).vars.find? name).map ren.cells.move
  names : (twin.frame (ren.frames.move scope.frame)).vars.names =
    (store.frame scope.frame).vars.names
  cells : ∀ id, twin.cell? (ren.cells.move id) =
    (store.cell? id).map (·.renumber ren.types.move)

variable {ren : Renaming} {scope : Scope} {store twin : Store}

theorem Scope.frames_rename (ren : Renaming) (scope : Scope) :
    (scope.rename ren).frames = scope.frames.map ren.frames.move := rfl

theorem Scope.findSome?_map {α β : Type} {first : FrameId → Option α}
    {second : FrameId → Option β} {move : FrameId → FrameId} {image : α → β}
    {chain : List FrameId} (same : ∀ id ∈ chain, second (move id) = (first id).map image) :
    (chain.map move).findSome? second = (chain.findSome? first).map image := by
  induction chain with
  | nil => rfl
  | cons id rest ih =>
      rw [List.forall_mem_cons] at same
      rw [List.map_cons, List.findSome?_cons, List.findSome?_cons, same.1, ih same.2]
      cases first id <;> rfl

namespace Twins

theorem type? (twins : Twins ren scope store twin) (name : String) :
    (scope.rename ren).type? twin name =
      (scope.type? store name).map (·.renumber ren.types.move) := by
  unfold Scope.type?
  rw [Scope.frames_rename]
  exact Scope.findSome?_map fun id inside => twins.types id inside name

theorem var? (twins : Twins ren scope store twin) (name : String) :
    (scope.rename ren).var? twin name = (scope.var? store name).map ren.cells.move := by
  unfold Scope.var?
  rw [Scope.frames_rename]
  exact Scope.findSome?_map fun id inside => twins.vars id inside name

theorem value? (twins : Twins ren scope store twin) (name : String) :
    (scope.rename ren).value? twin name =
      (scope.value? store name).map (·.renumber ren.types.move) := by
  unfold Scope.value?
  rw [twins.var?]
  cases scope.var? store name with
  | none => rfl
  | some cell => exact twins.cells cell

theorem localVar? (twins : Twins ren scope store twin) (name : String) :
    (scope.rename ren).localVar? twin name = (scope.localVar? store name).map ren.cells.move :=
  twins.vars scope.frame List.mem_cons_self name

theorem localValue? (twins : Twins ren scope store twin) (name : String) :
    (scope.rename ren).localValue? twin name =
      (scope.localValue? store name).map (·.renumber ren.types.move) := by
  unfold Scope.localValue?
  rw [twins.localVar?]
  cases scope.localVar? store name with
  | none => rfl
  | some cell => exact twins.cells cell

theorem contains_types (twins : Twins ren scope store twin) (name : String) :
    (twin.frame (scope.rename ren).frame).types.contains name =
      (store.frame scope.frame).types.contains name := by
  unfold Bindings.contains
  rw [Scope.rename, twins.types scope.frame List.mem_cons_self, Option.isSome_map]

theorem contains_vars (twins : Twins ren scope store twin) (name : String) :
    (twin.frame (scope.rename ren).frame).vars.contains name =
      (store.frame scope.frame).vars.contains name := by
  unfold Bindings.contains
  rw [Scope.rename, twins.vars scope.frame List.mem_cons_self, Option.isSome_map]

theorem number (twins : Twins ren scope store twin) :
    Twins ren scope { store with nextType := store.nextType + 1 }
      { twin with nextType := twin.nextType + 1 } :=
  { twins with nextType := twins.nextType.succ }

theorem newCell (twins : Twins ren scope store twin) (value : Value) :
    Twins ren scope { store with cells := store.cells.push value }
      { twin with cells := twin.cells.push (value.renumber ren.types.move) } where
  made := twins.made
  frames := twins.frames
  nextType := twins.nextType
  size := by
    rw [Array.size_push, Array.size_push]
    exact twins.size.succ
  types := twins.types
  vars := twins.vars
  names := twins.names
  cells := by
    intro id
    have hsame : ren.cells.move id = twin.cells.size ↔ id = store.cells.size := by
      rw [← twins.size.move_eq]
      exact ren.cells.move_injective.eq_iff
    simp only [Store.cell?, Array.getElem?_push, hsame]
    split
    · rfl
    · exact twins.cells id

theorem setFrame (twins : Twins ren scope store twin) {frame other : Frame}
    (types : ∀ name, other.types.find? name =
      (frame.types.find? name).map (·.renumber ren.types.move))
    (vars : ∀ name, other.vars.find? name = (frame.vars.find? name).map ren.cells.move)
    (names : other.vars.names = frame.vars.names) :
    Twins ren scope (store.setFrame scope.frame frame)
      (twin.setFrame (scope.rename ren).frame other) := by
  have hmade : (scope.rename ren).frame < twin.frames.size :=
    twins.frames.move_lt_iff.2 twins.made
  have hself := Store.frame_setFrame_self twins.made frame
  have hother := Store.frame_setFrame_self hmade other
  have hframes : ∀ id ∈ scope.frames,
      (store.setFrame scope.frame frame).frame id = frame ∧
        (twin.setFrame (scope.rename ren).frame other).frame (ren.frames.move id) = other ∨
      (store.setFrame scope.frame frame).frame id = store.frame id ∧
        (twin.setFrame (scope.rename ren).frame other).frame (ren.frames.move id) =
          twin.frame (ren.frames.move id) := by
    intro id _
    by_cases same : id = scope.frame
    · subst same
      exact .inl ⟨hself, hother⟩
    · have hne : ren.frames.move id ≠ (scope.rename ren).frame :=
        fun equal => same (ren.frames.move_injective equal)
      exact .inr ⟨Store.frame_setFrame_of_ne same frame, Store.frame_setFrame_of_ne hne other⟩
  constructor
  case made => simpa [Store.setFrame] using twins.made
  case frames => simpa [Store.setFrame] using twins.frames
  case nextType => exact twins.nextType
  case size => exact twins.size
  case types =>
    intro id inside name
    rcases hframes id inside with ⟨hframe, htwin⟩ | ⟨hframe, htwin⟩
    · rw [hframe, htwin, types]
    · rw [hframe, htwin, twins.types id inside]
  case vars =>
    intro id inside name
    rcases hframes id inside with ⟨hframe, htwin⟩ | ⟨hframe, htwin⟩
    · rw [hframe, htwin, vars]
    · rw [hframe, htwin, twins.vars id inside]
  case names =>
    change ((twin.setFrame (scope.rename ren).frame other).frame
      (scope.rename ren).frame).vars.names = _
    rw [hself, hother, names]
  case cells => exact twins.cells

end Twins

/-! What has no numbers is the same under others. -/

section

variable (move : TypeId → TypeId)

mutual

theorem TypeExpr.relabel_ofNumbers : (expression : TypeExpr) →
    expression.relabel (.ofNumbers move) = expression
  | .alias .. => rfl
  | .range .. => rfl
  | .record fields span => congrArg (TypeExpr.record · span) (FieldDecl.relabelAll_ofNumbers fields)
  | .either variants span =>
      congrArg (TypeExpr.either · span) (VariantDecl.relabelAll_ofNumbers variants)
  | .generic base arguments none span =>
      congrArg (TypeExpr.generic base · none span) (TypeExpr.relabelAll_ofNumbers arguments)
  | .generic base arguments (some index) span => by
      rw [TypeExpr.relabel, TypeExpr.relabelAll_ofNumbers arguments,
        TypeExpr.relabel_ofNumbers index]
      rfl
  | .unknown .. => rfl
  termination_by structural expression => expression

theorem TypeExpr.relabelAll_ofNumbers : (expressions : List TypeExpr) →
    TypeExpr.relabelAll (.ofNumbers move) expressions = expressions
  | [] => rfl
  | expression :: rest => by
      rw [TypeExpr.relabelAll, TypeExpr.relabel_ofNumbers expression,
        TypeExpr.relabelAll_ofNumbers rest]
  termination_by structural expressions => expressions

theorem FieldDecl.relabel_ofNumbers : (field : FieldDecl) →
    field.relabel (.ofNumbers move) = field
  | ⟨name, type, span⟩ => congrArg (FieldDecl.mk name · span) (TypeExpr.relabel_ofNumbers type)
  termination_by structural field => field

theorem FieldDecl.relabelAll_ofNumbers : (fields : List FieldDecl) →
    FieldDecl.relabelAll (.ofNumbers move) fields = fields
  | [] => rfl
  | field :: rest => by
      rw [FieldDecl.relabelAll, FieldDecl.relabel_ofNumbers field,
        FieldDecl.relabelAll_ofNumbers rest]
  termination_by structural fields => fields

theorem VariantDecl.relabel_ofNumbers : (variant : VariantDecl) →
    variant.relabel (.ofNumbers move) = variant
  | ⟨_, none, _⟩ => rfl
  | ⟨name, some fields, span⟩ =>
      congrArg (fun fields => VariantDecl.mk name (some fields) span)
        (FieldDecl.relabelAll_ofNumbers fields)
  termination_by structural variant => variant

theorem VariantDecl.relabelAll_ofNumbers : (variants : List VariantDecl) →
    VariantDecl.relabelAll (.ofNumbers move) variants = variants
  | [] => rfl
  | variant :: rest => by
      rw [VariantDecl.relabelAll, VariantDecl.relabel_ofNumbers variant,
        VariantDecl.relabelAll_ofNumbers rest]
  termination_by structural variants => variants

end

theorem Rule.relabel_ofNumbers (rule : Rule) : rule.relabel (.ofNumbers move) = rule := by
  cases rule <;> rfl

theorem Decl.relabel_ofNumbers (decl : Decl) : decl.relabel (.ofNumbers move) = decl := by
  have hinitial : ∀ initial : Option Literal,
      initial.map (·.relabel (.ofNumbers move)) = initial := by
    rintro (_ | _ | _) <;> rfl
  cases decl with
  | type name expression span =>
      rw [relabel, TypeExpr.relabel_ofNumbers]
      rfl
  | param name expression initial span | var name expression initial span =>
      rw [relabel, TypeExpr.relabel_ofNumbers, hinitial]
      rfl
  | rule content span =>
      rw [relabel, Rule.relabel_ofNumbers]
      rfl
  | unknown kind span => rfl

end

/-! Twins are a simulation. -/

def Renaming.pairing (ren : Renaming) (scope : Scope) : Pairing where
  related := Twins ren scope
  labels := .ofNumbers ren.types.move
  cell := ren.cells.move
  failure := id
  failure_problem _ := rfl
  failure_located _ _ := rfl

namespace Twins

theorem paired_header (name : Option String) (span : Span) :
    Build.Paired (ren.pairing scope) (·.relabel (.ofNumbers ren.types.move))
      (Store.newHeader name span) (Store.newHeader name span) := by
  intro store twin twins
  have hnext : ren.types.move store.nextType = twin.nextType := twins.nextType.move_eq
  refine ⟨?_, twins.number⟩
  rw [Store.run_newHeader, Store.run_newHeader, ← hnext]
  rfl

theorem paired_newCell (value : Value) :
    Build.Paired (ren.pairing scope) ren.cells.move (Store.newCell value)
      (Store.newCell (value.relabel (.ofNumbers ren.types.move))) := by
  intro store twin twins
  have hsize : ren.cells.move store.cells.size = twin.cells.size := twins.size.move_eq
  rw [← Value.renumber_eq_relabel]
  refine ⟨?_, twins.newCell value⟩
  rw [Store.run_newCell, Store.run_newCell, ← hsize]
  rfl

theorem paired_resolveType (name : String) :
    Build.Paired (ren.pairing scope) (·.relabel (.ofNumbers ren.types.move))
      (scope.resolveType name) ((scope.rename ren).resolveType name) := by
  intro store twin twins
  rw [Scope.run_resolveType, Scope.run_resolveType, twins.type?]
  cases scope.type? store name with
  | none => exact ⟨rfl, twins⟩
  | some type => exact ⟨congrArg Except.ok (type.renumber_eq_relabel _), twins⟩

theorem paired_resolveVar (name : String) :
    Build.Paired (ren.pairing scope) ren.cells.move (scope.resolveVar name)
      ((scope.rename ren).resolveVar name) := by
  intro store twin twins
  rw [Scope.run_resolveVar, Scope.run_resolveVar, twins.var?]
  cases scope.var? store name <;> exact ⟨rfl, twins⟩

theorem paired_resolveValue (name : String) :
    Build.Paired (ren.pairing scope) (·.relabel (.ofNumbers ren.types.move))
      (scope.resolveValue name) ((scope.rename ren).resolveValue name) := by
  intro store twin twins
  rw [Scope.run_resolveValue, Scope.run_resolveValue, twins.value?]
  cases scope.value? store name with
  | none => exact ⟨rfl, twins⟩
  | some value => exact ⟨congrArg Except.ok (value.renumber_eq_relabel _), twins⟩

theorem paired_bindType (name : String) (type : Ty) :
    Build.Paired (ren.pairing scope) id (scope.bindType name type)
      ((scope.rename ren).bindType name (type.relabel (.ofNumbers ren.types.move))) := by
  intro store twin twins
  rw [← Ty.renumber_eq_relabel, Scope.run_bindType, Scope.run_bindType]
  dsimp only
  rw [twins.contains_types, show (scope.rename ren).policy = scope.policy from rfl]
  split
  · exact ⟨rfl, twins⟩
  · refine ⟨rfl, twins.setFrame (fun asked => ?_)
      (twins.vars scope.frame List.mem_cons_self) twins.names⟩
    by_cases same : asked = name
    · rw [same, Bindings.find?_put_self, Bindings.find?_put_self]
      rfl
    · rw [Bindings.find?_put_of_ne _ _ same, Bindings.find?_put_of_ne _ _ same]
      exact twins.types scope.frame List.mem_cons_self asked

theorem paired_bindVar (name : String) (cell : CellId) :
    Build.Paired (ren.pairing scope) id (scope.bindVar name cell)
      ((scope.rename ren).bindVar name (ren.cells.move cell)) := by
  intro store twin twins
  rw [Scope.run_bindVar, Scope.run_bindVar]
  dsimp only
  rw [twins.contains_vars, show (scope.rename ren).policy = scope.policy from rfl]
  split
  · exact ⟨rfl, twins⟩
  · refine ⟨rfl, twins.setFrame (twins.types scope.frame List.mem_cons_self)
      (fun asked => ?_) ?_⟩
    · by_cases same : asked = name
      · rw [same, Bindings.find?_put_self, Bindings.find?_put_self]
        rfl
      · rw [Bindings.find?_put_of_ne _ _ same, Bindings.find?_put_of_ne _ _ same]
        exact twins.vars scope.frame List.mem_cons_self asked
    · rw [Bindings.names_put, Bindings.names_put, Scope.rename, twins.names]

theorem paired_requireConstantOrFree (name : String) :
    Build.Paired (ren.pairing scope) id (scope.requireConstantOrFree name)
      ((scope.rename ren).requireConstantOrFree name) := by
  intro store twin twins
  rw [Scope.run_requireConstantOrFree, Scope.run_requireConstantOrFree, twins.localValue?]
  rcases scope.localValue? store name with _ | value
  · exact ⟨rfl, twins⟩
  · cases value <;> exact ⟨rfl, twins⟩

end Twins

def Renaming.simulation (ren : Renaming) (scope : Scope) :
    Simulation scope (scope.rename ren) where
  toPairing := ren.pairing scope
  injective := ren.types.move_injective
  header := Twins.paired_header
  newCell := Twins.paired_newCell
  resolveType := Twins.paired_resolveType
  resolveVar := Twins.paired_resolveVar
  resolveValue := Twins.paired_resolveValue
  bindType := Twins.paired_bindType
  bindVar := Twins.paired_bindVar
  requireConstantOrFree := Twins.paired_requireConstantOrFree

end StateModel
