import StateModel.Elaborate
import StateModel.Rules
import StateModel.Value.Path

/-!
Loading a module: its declarations are taken one after the other into one scope,
and the first that fails ends the load. Only the rules forwarded so far and the
store outlive a failure.
-/
namespace StateModel

inductive Contribution where
  | type
  | param (name : String)
  | var (name : String)
  | rule (rule : Rule)

/-- The declared names of a module. One that is declared again as the other sort
moves to the end of the other list, and as the same sort stays where it is. -/
structure DeclaredNames where
  params : List String := []
  vars : List String := []

namespace DeclaredNames

def addParam (names : DeclaredNames) (name : String) : DeclaredNames where
  params := if name ∈ names.params then names.params else names.params ++ [name]
  vars := names.vars.filter (· ≠ name)

def addVar (names : DeclaredNames) (name : String) : DeclaredNames where
  params := names.params.filter (· ≠ name)
  vars := if name ∈ names.vars then names.vars else names.vars ++ [name]

def add (names : DeclaredNames) : Contribution → DeclaredNames
  | .param name => names.addParam name
  | .var name => names.addVar name
  | .type | .rule _ => names

end DeclaredNames

/-- A name in a literal is looked up now, and its value copied. -/
def Literal.applyTo (literal : Literal) (scope : Scope) (target : Value) : Build Value :=
  Build.locate literal.span do
    match literal with
    | .number value _ => Build.ofExcept (target.assignInt value)
    | .ident name _ => Build.ofExcept (target.assign (← scope.resolveValue name))

def Scope.initialValue (scope : Scope) (initial : Option Literal) (value : Value) : Build Value :=
  match initial with
  | none => return value
  | some literal => literal.applyTo scope value

/-- The type is built, and its constants are bound, before the literal is looked
up, and the variable is bound last, to a cell of its own. -/
def Scope.declareVar (scope : Scope) (name : String) (type : TypeExpr)
    (initial : Option Literal) : Build Unit := do
  let type ← type.elaborate scope none
  let value ← scope.initialValue initial type.default
  scope.bindVar name (← Store.newCell value)

def Rule.requireIterable (scope : Scope) : Rule → Build Unit
  | .once .. => return
  | .each _ _ iterable _ => discard (scope.resolveVar iterable)

def Decl.declare (scope : Scope) (decl : Decl) : Build Contribution :=
  Build.locate decl.span do
    match decl with
    | .type name expression _ =>
        scope.bindType name (← expression.elaborate scope (some name))
        return .type
    | .param name _ none _ => Build.fail (.missingDefault name)
    | .param name expression (some literal) _ =>
        scope.declareVar name expression (some literal)
        return .param name
    | .var name expression initial _ =>
        scope.declareVar name expression initial
        return .var name
    | .rule content _ =>
        content.requireIterable scope
        return .rule content
    | .unknown kind _ => Build.fail (.unknownDeclarationKind kind)

structure LoadedModule where
  scope : Scope
  names : DeclaredNames

structure LoadOutcome (σ : Type) where
  result : Except Failure LoadedModule
  sink : σ
  store : Store

namespace RuleSink

def forward {σ : Type} [RuleSink σ] (sink : σ) : Contribution → σ
  | .rule rule => accept sink rule
  | .type | .param _ | .var _ => sink

end RuleSink

def Contribution.rule? : Contribution → Option Rule
  | .rule content => some content
  | .type | .param _ | .var _ => none

theorem Contribution.forward_eq {σ : Type} [RuleSink σ] (contribution : Contribution) (sink : σ) :
    RuleSink.forward sink contribution =
      RuleSink.acceptAll sink contribution.rule?.toList := by
  cases contribution <;> rfl

def loadFrom {σ : Type} [RuleSink σ] (scope : Scope) (names : DeclaredNames) (sink : σ)
    (store : Store) : List Decl → LoadOutcome σ
  | [] => ⟨.ok ⟨scope, names⟩, sink, store⟩
  | decl :: rest =>
      match Build.run (decl.declare scope) store with
      | (.error failure, store) => ⟨.error failure, sink, store⟩
      | (.ok contribution, store) =>
          loadFrom scope (names.add contribution) (RuleSink.forward sink contribution) store rest

def Scope.forModule (parent : Option Scope) (policy : Redefinition) : Build Scope := do
  let scope ← match parent with
    | some scope => scope.child
    | none => Scope.root
  return scope.withPolicy policy

def load {σ : Type} [RuleSink σ] (scope : Scope) (decls : List Decl) (sink : σ) (store : Store) :
    LoadOutcome σ :=
  loadFrom scope {} sink store decls

def loadIn {σ : Type} [RuleSink σ] (parent : Option Scope) (policy : Redefinition)
    (decls : List Decl) (sink : σ) (store : Store) : LoadOutcome σ :=
  match Build.run (Scope.forModule parent policy) store with
  | (.ok scope, opened) => load scope decls sink opened
  | (.error failure, opened) => ⟨.error failure, sink, opened⟩

/-- Loads inside a parent; later bindings replace earlier ones and rules are dropped. -/
def loadModule (decls : List Decl) (parent : Option Scope) : Build LoadedModule :=
  ExceptT.mk fun store =>
    let outcome := loadIn parent .overwrite decls () store
    (outcome.result, outcome.store)

theorem Scope.run_forModule (parent : Option Scope) (policy : Redefinition) (store : Store) :
    Build.run (Scope.forModule parent policy) store =
      (.ok ⟨store.frames.size, (parent.map Scope.frames).getD [], policy⟩,
        { store with frames := store.frames.push {} }) := by
  cases parent <;> rfl

theorem loadIn_eq_load {σ : Type} [RuleSink σ] (parent : Option Scope) (policy : Redefinition)
    (decls : List Decl) (sink : σ) (store : Store) :
    loadIn parent policy decls sink store =
      load ⟨store.frames.size, (parent.map Scope.frames).getD [], policy⟩ decls sink
        { store with frames := store.frames.push {} } := by
  rw [loadIn, Scope.run_forModule]

section

variable {σ : Type} [RuleSink σ]

theorem loadFrom_scope {scope : Scope} {names : DeclaredNames} {sink sinkAfter : σ}
    {store after : Store} {decls : List Decl} {loaded : LoadedModule}
    (loads : loadFrom scope names sink store decls = ⟨.ok loaded, sinkAfter, after⟩) :
    loaded.scope = scope := by
  induction decls generalizing names sink store with
  | nil =>
      cases loads
      rfl
  | cons decl rest ih =>
      rw [loadFrom] at loads
      rcases hrun : Build.run (decl.declare scope) store with ⟨_ | contribution, middle⟩
      · simp [hrun] at loads
      · rw [hrun] at loads
        exact ih loads

theorem loadFrom_cons_ok {scope : Scope} {names : DeclaredNames} {sink sinkAfter : σ}
    {store after : Store} {decl : Decl} {rest : List Decl} {loaded : LoadedModule}
    (loads : loadFrom scope names sink store (decl :: rest) = ⟨.ok loaded, sinkAfter, after⟩) :
    ∃ contribution middle, Build.run (decl.declare scope) store = (.ok contribution, middle) ∧
      loadFrom scope (names.add contribution) (RuleSink.forward sink contribution) middle rest =
        ⟨.ok loaded, sinkAfter, after⟩ := by
  rw [loadFrom] at loads
  rcases hrun : Build.run (decl.declare scope) store with ⟨_ | contribution, middle⟩
  · simp [hrun] at loads
  · rw [hrun] at loads
    exact ⟨contribution, middle, rfl, loads⟩

/-- A load can be cut anywhere, and goes on from what its first part left. -/
theorem loadFrom_append (scope : Scope) (names : DeclaredNames) (sink : σ) (store : Store)
    (first rest : List Decl) :
    loadFrom scope names sink store (first ++ rest) =
      match loadFrom scope names sink store first with
      | ⟨.ok loaded, sink, after⟩ => loadFrom scope loaded.names sink after rest
      | ⟨.error failure, sink, after⟩ => ⟨.error failure, sink, after⟩ := by
  induction first generalizing names sink store with
  | nil => rfl
  | cons decl others ih =>
      rw [List.cons_append, loadFrom, loadFrom]
      rcases Build.run (decl.declare scope) store with ⟨_ | contribution, after⟩
      · rfl
      · exact ih _ _ _

variable {parent : Option Scope} {policy : Redefinition} {sink sinkAfter : σ}
  {store after : Store} {loaded : LoadedModule}

theorem loadIn_scope {decls : List Decl}
    (loads : loadIn parent policy decls sink store = ⟨.ok loaded, sinkAfter, after⟩) :
    loaded.scope = ⟨store.frames.size, (parent.map Scope.frames).getD [], policy⟩ := by
  rw [loadIn_eq_load] at loads
  exact loadFrom_scope loads

theorem loadIn_append (parent : Option Scope) (policy : Redefinition) (first rest : List Decl)
    (sink : σ) (store : Store) :
    loadIn parent policy (first ++ rest) sink store =
      match loadIn parent policy first sink store with
      | ⟨.ok loaded, sink, after⟩ => loadFrom loaded.scope loaded.names sink after rest
      | ⟨.error failure, sink, after⟩ => ⟨.error failure, sink, after⟩ := by
  rw [loadIn_eq_load, loadIn_eq_load, load, loadFrom_append, ← load]
  split
  · next loads =>
    rw [loadFrom_scope loads]
  · rfl

theorem loadIn_split {first rest : List Decl}
    (loads : loadIn parent policy (first ++ rest) sink store = ⟨.ok loaded, sinkAfter, after⟩) :
    ∃ earlier sinkMiddle middle,
      loadIn parent policy first sink store = ⟨.ok earlier, sinkMiddle, middle⟩ ∧
      loadFrom earlier.scope earlier.names sinkMiddle middle rest =
        ⟨.ok loaded, sinkAfter, after⟩ := by
  rw [loadIn_append] at loads
  rcases hfirst : loadIn parent policy first sink store with ⟨_ | earlier, sinkMiddle, middle⟩
  · simp [hfirst] at loads
  · rw [hfirst] at loads
    exact ⟨earlier, sinkMiddle, middle, rfl, loads⟩

theorem loadIn_snoc {decls : List Decl}
    (loads : loadIn parent policy decls sink store = ⟨.ok loaded, sinkAfter, after⟩)
    {decl : Decl} {contribution : Contribution} {last : Store}
    (declares : Build.run (decl.declare loaded.scope) after = (.ok contribution, last)) :
    loadIn parent policy (decls ++ [decl]) sink store =
      ⟨.ok ⟨loaded.scope, loaded.names.add contribution⟩,
        RuleSink.forward sinkAfter contribution, last⟩ := by
  rw [loadIn_append, loads]
  simp only [loadFrom]
  rw [declares]

end

end StateModel
