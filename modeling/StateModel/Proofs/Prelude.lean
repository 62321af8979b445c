import StateModel.Prelude
import StateModel.Proofs.Isolation

/-!
What clients can do to the prelude. Every module sees the prelude's frame and finds the
very cells that it binds, and yet nothing that is done through modules changes either: a
scope binds in its own frame only, and there is no way to change a tag in place.
-/
namespace StateModel

namespace Store

structure Shields (id : FrameId) (store after : Store) : Prop where
  frame : after.frame id = store.frame id
  tags : ∀ cell tag, store.cell? cell = some (.tag tag) → after.cell? cell = some (.tag tag)
  frames : store.frames.size ≤ after.frames.size
  settled : after.Settled

variable {id : FrameId} {store middle after : Store}

theorem Settled.shields (settled : store.Settled) : store.Shields id store :=
  ⟨rfl, fun _ _ held => held, Nat.le_refl _, settled⟩

theorem Shields.trans (first : store.Shields id middle) (rest : middle.Shields id after) :
    store.Shields id after where
  frame := rest.frame.trans first.frame
  tags := fun cell tag held => rest.tags cell tag (first.tags cell tag held)
  frames := Nat.le_trans first.frames rest.frames
  settled := rest.settled

theorem Grown.shields (grown : store.Grown after) (frame : after.frame id = store.frame id) :
    store.Shields id after :=
  ⟨frame, fun cell tag => grown.cells cell (.tag tag), grown.frames, grown.settled⟩

theorem Settled.shields_loadIn {σ : Type} [RuleSink σ] (settled : store.Settled)
    (old : id < store.frames.size) (parent : Option Scope) (policy : Redefinition)
    (decls : List Decl) (sink : σ) :
    store.Shields id (loadIn parent policy decls sink store).store :=
  (settled.grown_loadIn parent policy decls sink).shields
    ((loadIn_extends parent policy decls sink store).frames id old)

theorem Settled.shields_elaborate (settled : store.Settled) {scope : Scope}
    (made : scope.frame < store.frames.size) (other : id ≠ scope.frame)
    (expression : TypeExpr) (name : Option String) :
    store.Shields id (Build.run (expression.elaborate scope name) store).2 := by
  obtain ⟨acts, hacts, -, -⟩ := TypeExpr.traced_elaborate scope expression.eithers expression
    (List.Subset.refl _) name store (settled.scope made)
  exact (settled.grown_performs made hacts).shields (hacts.frame_of_ne other)

theorem Settled.shields_bindType (settled : store.Settled) {scope : Scope}
    (other : id ≠ scope.frame) (name : String) (type : Ty) :
    store.Shields id (Build.run (scope.bindType name type) store).2 :=
  (settled.grown_bindType scope name type).shields
    (Scope.frame_bindType_of_ne other name type store)

theorem Settled.shields_bindVar (settled : store.Settled) {scope : Scope}
    (other : id ≠ scope.frame) (name : String) {cell : CellId} (made : cell < store.cells.size) :
    store.Shields id (Build.run (scope.bindVar name cell) store).2 :=
  (settled.grown_bindVar scope name made).shields (Scope.frame_bindVar_of_ne other name cell store)

theorem Settled.shields_bindNew (settled : store.Settled) {scope : Scope}
    (other : id ≠ scope.frame) (name : String) (value : Value) :
    store.Shields id
      (Build.run (do scope.bindVar name (← Store.newCell value)) store).2 := by
  have hcell := settled.grown_newCell value
  have hmade : store.cells.size < (store.cells.push value).size := by simp
  rw [Build.run_bind, run_newCell]
  exact (hcell.shields rfl).trans (hcell.settled.shields_bindVar other name hmade)

end Store

/-! Changing what a cell holds. -/

theorem Value.mutate_tag (tag : Tag) (path : Path) (mutation : Mutation) :
    ∃ problem, (Value.tag tag).mutate path mutation = .error problem := by
  cases path with
  | nil => cases mutation <;> exact ⟨_, rfl⟩
  | cons step rest => cases step <;> exact ⟨_, rfl⟩

theorem Store.Settled.shields_updateCell {id : FrameId} {store : Store} (settled : store.Settled)
    (cell : CellId) (path : Path) (mutation : Mutation) :
    store.Shields id (Build.run (Store.updateCell cell path mutation.apply) store).2 := by
  unfold Store.updateCell
  rw [Build.run_bind, Build.run_get]
  simp only
  cases held : store.cell? cell with
  | none => exact settled.shields
  | some value =>
      simp only [Build.run_bind]
      cases updated : value.update mutation.apply path with
      | error problem => exact settled.shields
      | ok result =>
          refine ⟨rfl, fun other tag hother => ?_, Nat.le_refl _, fun frame name known found => ?_⟩
          · have hne : cell ≠ other := by
              rintro rfl
              rw [held, Option.some.injEq] at hother
              subst hother
              obtain ⟨problem, hproblem⟩ := Value.mutate_tag tag path mutation
              rw [Value.mutate, updated] at hproblem
              cases hproblem
            exact (Array.getElem?_setIfInBounds_ne hne).trans hother
          · exact Nat.lt_of_lt_of_eq (settled frame name known found)
              (Array.size_setIfInBounds ..).symm

theorem Store.Settled.shields_updateVar {id : FrameId} {store : Store} (settled : store.Settled)
    (scope : Scope) (name : String) (path : Path) (mutation : Mutation) :
    store.Shields id (Build.run (scope.updateVar name path mutation.apply) store).2 := by
  unfold Scope.updateVar
  rw [Build.run_bind, Scope.run_resolveVar]
  cases scope.var? store name with
  | none => exact settled.shields
  | some cell => exact settled.shields_updateCell cell path mutation

namespace Prelude

/-- What a client of the prelude has: the prelude, and the modules that it loaded inside the
prelude or inside each other. -/
structure Client where
  store : Store
  prelude : Scope
  modules : List Scope := []

/-- Where a client looks names up. It binds them in modules only. -/
inductive Place where
  | prelude
  | module (number : Nat)

inductive Op (σ : Type) where
  | load (parent : Place) (policy : Redefinition) (decls : List Decl) (sink : σ)
  | makeType (module : Nat) (name : Option String) (expression : TypeExpr)
  | bindType (module : Nat) (name : String) (type : Ty)
  | bindVar (module : Nat) (name : String) (cell : CellId)
  | bindNew (module : Nat) (name : String) (value : Value)
  | mutate (place : Place) (name : String) (path : Path) (mutation : Mutation)

namespace Client

variable {σ : Type} [RuleSink σ]

def scope? (client : Client) : Place → Option Scope
  | .prelude => some client.prelude
  | .module number => client.modules[number]?

def after {α : Type} (client : Client) (work : Build α) : Client :=
  { client with store := (Build.run work client.store).2 }

def load (client : Client) (parent : Scope) (policy : Redefinition) (decls : List Decl)
    (sink : σ) : Client :=
  let outcome := loadIn (some parent) policy decls sink client.store
  match outcome.result with
  | .ok loaded =>
      { client with store := outcome.store, modules := client.modules ++ [loaded.scope] }
  | .error _ => { client with store := outcome.store }

def perform? (client : Client) : Op σ → Option Client
  | .load parent policy decls sink => do
      return client.load (← client.scope? parent) policy decls sink
  | .makeType module name expression => do
      return client.after (expression.elaborate (← client.modules[module]?) name)
  | .bindType module name type => do
      return client.after ((← client.modules[module]?).bindType name type)
  | .bindVar module name cell => do
      let _ ← client.store.cell? cell
      return client.after ((← client.modules[module]?).bindVar name cell)
  | .bindNew module name value => do
      let scope ← client.modules[module]?
      return client.after do scope.bindVar name (← Store.newCell value)
  | .mutate place name path mutation => do
      return client.after ((← client.scope? place).updateVar name path mutation.apply)

def perform (client : Client) (op : Op σ) : Client := (client.perform? op).getD client

def runFrom (client : Client) (ops : List (Op σ)) : Client := ops.foldl perform client

/-- The prelude and each module have frames of their own. -/
structure Apart (client : Client) : Prop where
  settled : client.store.Settled
  made : client.prelude.frame < client.store.frames.size
  modules : ∀ scope ∈ client.modules,
    scope.frame < client.store.frames.size ∧ client.prelude.frame ≠ scope.frame

structure Shields (client later : Client) : Prop where
  prelude : later.prelude = client.prelude
  store : client.store.Shields client.prelude.frame later.store
  apart : later.Apart

variable {client : Client}

theorem Apart.shields (apart : client.Apart) : client.Shields client :=
  ⟨rfl, apart.settled.shields, apart⟩

theorem Shields.trans {middle later : Client} (first : client.Shields middle)
    (rest : middle.Shields later) : client.Shields later where
  prelude := rest.prelude.trans first.prelude
  store := first.store.trans (first.prelude ▸ rest.store)
  apart := rest.apart

theorem Apart.module (apart : client.Apart) {number : Nat} {scope : Scope}
    (found : client.modules[number]? = some scope) :
    scope.frame < client.store.frames.size ∧ client.prelude.frame ≠ scope.frame :=
  apart.modules scope (List.mem_of_getElem? found)

theorem Apart.shields_after {α : Type} (apart : client.Apart) {work : Build α}
    (shields : client.store.Shields client.prelude.frame (Build.run work client.store).2) :
    client.Shields (client.after work) where
  prelude := rfl
  store := shields
  apart.settled := shields.settled
  apart.made := Nat.lt_of_lt_of_le apart.made shields.frames
  apart.modules := fun scope inside =>
    ⟨Nat.lt_of_lt_of_le (apart.modules scope inside).1 shields.frames,
      (apart.modules scope inside).2⟩

theorem Apart.shields_load (apart : client.Apart) (parent : Scope) (policy : Redefinition)
    (decls : List Decl) (sink : σ) : client.Shields (client.load parent policy decls sink) := by
  have hstore := apart.settled.shields_loadIn apart.made (some parent) policy decls sink
  have hmodules := fun scope inside =>
    And.imp_left (Nat.lt_of_lt_of_le · hstore.frames) (apart.modules scope inside)
  have hmade := Nat.lt_of_lt_of_le apart.made hstore.frames
  unfold load
  rcases hload : loadIn (some parent) policy decls sink client.store with
    ⟨failure | loaded, sinkAfter, after⟩
  · rw [hload] at hstore hmodules hmade
    exact ⟨rfl, hstore, hstore.settled, hmade, hmodules⟩
  · rw [hload] at hstore hmodules hmade
    refine ⟨rfl, hstore, hstore.settled, hmade, fun scope inside => ?_⟩
    rcases List.mem_append.1 inside with old | new
    · exact hmodules scope old
    · have hframe : loaded.scope.frame = client.store.frames.size := by rw [loadIn_scope hload]
      rw [List.mem_singleton.1 new, hframe, loadIn_size_frames hload]
      exact ⟨Nat.lt_succ_self _, Nat.ne_of_lt apart.made⟩

theorem Apart.shields_perform? (apart : client.Apart) {op : Op σ} {later : Client}
    (performed : client.perform? op = some later) : client.Shields later := by
  cases op with
  | load parent policy decls sink =>
      obtain ⟨scope, -, hlater⟩ := Option.bind_eq_some_iff.1 performed
      rw [← Option.some.inj hlater]
      exact apart.shields_load scope policy decls sink
  | makeType module name expression =>
      obtain ⟨scope, hscope, hlater⟩ := Option.bind_eq_some_iff.1 performed
      obtain ⟨hmade, hother⟩ := apart.module hscope
      rw [← Option.some.inj hlater]
      exact apart.shields_after (apart.settled.shields_elaborate hmade hother expression name)
  | bindType module name type =>
      obtain ⟨scope, hscope, hlater⟩ := Option.bind_eq_some_iff.1 performed
      rw [← Option.some.inj hlater]
      exact apart.shields_after
        (apart.settled.shields_bindType (apart.module hscope).2 name type)
  | bindVar module name cell =>
      obtain ⟨value, hvalue, hrest⟩ := Option.bind_eq_some_iff.1 performed
      obtain ⟨scope, hscope, hlater⟩ := Option.bind_eq_some_iff.1 hrest
      have hcell := (Array.getElem?_eq_some_iff.1 hvalue).1
      rw [← Option.some.inj hlater]
      exact apart.shields_after
        (apart.settled.shields_bindVar (apart.module hscope).2 name hcell)
  | bindNew module name value =>
      obtain ⟨scope, hscope, hlater⟩ := Option.bind_eq_some_iff.1 performed
      rw [← Option.some.inj hlater]
      exact apart.shields_after
        (apart.settled.shields_bindNew (apart.module hscope).2 name value)
  | mutate place name path mutation =>
      obtain ⟨scope, -, hlater⟩ := Option.bind_eq_some_iff.1 performed
      rw [← Option.some.inj hlater]
      exact apart.shields_after (apart.settled.shields_updateVar scope name path mutation)

theorem Apart.shields_perform (apart : client.Apart) (op : Op σ) :
    client.Shields (client.perform op) := by
  unfold perform
  cases performed : client.perform? op with
  | none => exact apart.shields
  | some later => exact apart.shields_perform? performed

theorem Apart.shields_runFrom (apart : client.Apart) (ops : List (Op σ)) :
    client.Shields (client.runFrom ops) := by
  induction ops generalizing client with
  | nil => exact apart.shields
  | cons op rest ih =>
      have hfirst := apart.shields_perform op
      exact hfirst.trans (ih hfirst.apart)

end Client

/-! The prelude as it is built. -/

def boolean (id : TypeId) : EitherType :=
  ⟨⟨id, some "Boolean", .dummy⟩, ⟨"False", 0, id, none⟩, [⟨"True", 1, id, none⟩]⟩

def frame (id : TypeId) (cell : CellId) : Frame :=
  ⟨⟨[("Boolean", .either (boolean id))]⟩, ⟨[("False", cell), ("True", cell + 1)]⟩⟩

section

variable (frames : Array Frame) (cells : Array Value) (next : TypeId) (last : Frame)

theorem frame_of_last : (⟨frames.push last, cells, next⟩ : Store).frame frames.size = last := by
  simp [Store.frame]

theorem setFrame_of_last (other : Frame) :
    (⟨frames.push last, cells, next⟩ : Store).setFrame frames.size other =
      ⟨frames.push other, cells, next⟩ := by
  rw [Store.setFrame, Store.mk.injEq]
  refine ⟨Array.toList_inj.1 ?_, rfl, rfl⟩
  simp

theorem run_bindConstant (tag : Tag) :
    Build.run (Scope.bindConstant ⟨frames.size, [], .overwrite⟩ tag)
        ⟨frames.push last, cells, next⟩ =
      (.ok (), ⟨frames.push { last with vars := last.vars.put tag.name cells.size },
        cells.push (.tag tag), next⟩) := by
  rw [Scope.run_bindConstant, Scope.run_bindVar]
  simp [frame_of_last, setFrame_of_last]

theorem run_bindConstants (id : TypeId) :
    Build.run (Scope.bindConstants ⟨frames.size, [], .overwrite⟩ (boolean id))
        ⟨frames.push {}, cells, next⟩ =
      (.ok (), ⟨frames.push { vars := ⟨[("False", cells.size), ("True", cells.size + 1)]⟩ },
        (cells.push (.tag ⟨boolean id, 0⟩)).push (.tag ⟨boolean id, 1⟩), next⟩) := by
  have hconstants : (boolean id).constants = [⟨boolean id, 0⟩, ⟨boolean id, 1⟩] := rfl
  have hfree : ∀ name, Build.run (Scope.requireConstantOrFree ⟨frames.size, [], .overwrite⟩ name)
      ⟨frames.push {}, cells, next⟩ = (.ok (), ⟨frames.push {}, cells, next⟩) := by
    intro name
    rw [Scope.run_requireConstantOrFree, Scope.localValue?, Scope.localVar?, frame_of_last]
    rfl
  have hdone : ∀ (work : Tag → Build Unit) store,
      Build.run ([].forM work) store = (.ok (), store) := fun _ _ => rfl
  rw [Scope.bindConstants, hconstants, Build.run_bind]
  simp only [Build.run_forM_cons, hfree, hdone, run_bindConstant, Array.size_push]
  rfl

theorem run_elaborate :
    Build.run ((TypeExpr.either [⟨"False", none, .dummy⟩, ⟨"True", none, .dummy⟩]).elaborate
        ⟨frames.size, [], .overwrite⟩ (some "Boolean")) ⟨frames.push {}, cells, next⟩ =
      (.ok (.either (boolean next)),
        ⟨frames.push { vars := ⟨[("False", cells.size), ("True", cells.size + 1)]⟩ },
          (cells.push (.tag ⟨boolean next, 0⟩)).push (.tag ⟨boolean next, 1⟩), next + 1⟩) := by
  rw [TypeExpr.elaborate, Build.run_locate_eq_ok]
  refine Build.run_bind_eq_ok.2 ⟨⟨"False", none⟩, _, rfl, ?_⟩
  refine Build.run_bind_eq_ok.2 ⟨[⟨"True", none⟩], _, rfl, ?_⟩
  refine Build.run_bind_eq_ok.2 ⟨⟨next, some "Boolean", .dummy⟩, _, rfl, ?_⟩
  exact Build.run_bind_eq_ok.2 ⟨(), _, run_bindConstants frames cells (next + 1) next, rfl⟩

end

def built (store : Store) : Store where
  frames := store.frames.push (frame store.nextType store.cells.size)
  cells := (store.cells.push (.tag ⟨boolean store.nextType, 0⟩)).push
    (.tag ⟨boolean store.nextType, 1⟩)
  nextType := store.nextType + 1

theorem loadIn_declarations (store : Store) :
    loadIn none .overwrite declarations () store =
      ⟨.ok ⟨⟨store.frames.size, [], .overwrite⟩, {}⟩, (), built store⟩ := by
  obtain ⟨frames, cells, next⟩ := store
  have hdeclare : Build.run ((Decl.type "Boolean"
      (.either [⟨"False", none, .dummy⟩, ⟨"True", none, .dummy⟩])).declare
        ⟨frames.size, [], .overwrite⟩) ⟨frames.push {}, cells, next⟩ =
      (.ok .type, built ⟨frames, cells, next⟩) := by
    refine Decl.run_declare_type.2 ⟨_, _, run_elaborate frames cells next, rfl, ?_⟩
    rw [Scope.run_bindType]
    simp only [frame_of_last, setFrame_of_last]
    rfl
  rw [loadIn_eq_load, load, declarations, loadFrom]
  simp only [Option.map_none, Option.getD_none]
  rw [hdeclare]
  rfl

theorem run_build (store : Store) :
    Build.run build store = (.ok ⟨store.frames.size, [], .overwrite⟩, built store) := by
  refine Build.run_bind_eq_ok.2 ⟨⟨⟨store.frames.size, [], .overwrite⟩, {}⟩, built store, ?_, rfl⟩
  change ((loadIn none .overwrite declarations () store).result,
    (loadIn none .overwrite declarations () store).store) = _
  rw [loadIn_declarations]

/-- The prelude binds its type and the two constants, in their order, and nothing else,
and each constant is still in its cell. -/
structure Intact (prelude : Scope) (id : TypeId) (cell : CellId) (store : Store) : Prop where
  binds : store.frame prelude.frame = frame id cell
  holdsFalse : store.cell? cell = some (.tag ⟨boolean id, 0⟩)
  holdsTrue : store.cell? (cell + 1) = some (.tag ⟨boolean id, 1⟩)

theorem intact_built (store : Store) :
    Intact ⟨store.frames.size, [], .overwrite⟩ store.nextType store.cells.size (built store) := by
  constructor
  · simp [built, Store.frame]
  · simp only [built, Store.cell?]
    rw [Array.getElem?_push, if_neg (by simp), Array.getElem?_push_size]
  · simp only [built, Store.cell?]
    rw [← Array.size_push, Array.getElem?_push_size]

theorem Intact.of_shields {prelude : Scope} {id : TypeId} {cell : CellId} {store after : Store}
    (intact : Intact prelude id cell store) (shields : store.Shields prelude.frame after) :
    Intact prelude id cell after where
  binds := shields.frame.trans intact.binds
  holdsFalse := shields.tags _ _ intact.holdsFalse
  holdsTrue := shields.tags _ _ intact.holdsTrue

theorem apart_built {store : Store} (settled : store.Settled) :
    Client.Apart ⟨built store, ⟨store.frames.size, [], .overwrite⟩, []⟩ where
  settled := by
    have hgrown := settled.grown_loadIn none .overwrite declarations ()
    rw [loadIn_declarations] at hgrown
    exact hgrown.settled
  made := by simp [built]
  modules := nofun

/-- Whatever a client does with modules that it loads inside the prelude or inside each
other, the prelude stays as it was built. Loads may fail, and what is changed in place may
be what a module found in the prelude. -/
theorem intact_run {σ : Type} [RuleSink σ] (earlier : List Session.Op) (ops : List (Op σ)) :
    ∃ prelude start id cell, Build.run build (Session.run earlier).store = (.ok prelude, start) ∧
      Intact prelude id cell start ∧
      (Client.runFrom ⟨start, prelude, []⟩ ops).prelude = prelude ∧
      Intact prelude id cell (Client.runFrom ⟨start, prelude, []⟩ ops).store := by
  obtain ⟨catalog, hvalid⟩ := Session.valid_run earlier
  have hbuilt := intact_built (Session.run earlier).store
  have hshields := (apart_built hvalid.settled).shields_runFrom ops
  exact ⟨_, _, _, _, run_build _, hbuilt, hshields.prelude, hbuilt.of_shields hshields.store⟩

end Prelude

end StateModel
