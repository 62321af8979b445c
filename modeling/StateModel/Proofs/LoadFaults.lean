import StateModel.Proofs.Faults
import StateModel.Proofs.Forwarding

/-!
Where a load reports its failure. A declaration adds its own place to what goes wrong
in its type or with its literal, and a load fails as its first declaration that fails.
-/
namespace StateModel

inductive Decl.Path : Decl → List Node → Prop where
  | here (decl : Decl) : Decl.Path decl [.declaration decl.span]
  | type {name : String} {type : TypeExpr} {span : Span} {path : List Node}
      (further : type.Path path) : Decl.Path (.type name type span) (path ++ [.declaration span])
  | variable {decl : Decl} {name : String} {type : TypeExpr} {initial : Option Literal}
      {path : List Node} (declares : decl.DeclaresVariable name type initial)
      (further : type.Path path) : Decl.Path decl (path ++ [.declaration decl.span])
  | literal {decl : Decl} {name : String} {type : TypeExpr} {literal : Literal}
      (declares : decl.DeclaresVariable name type (some literal)) :
      Decl.Path decl [.literal literal.span, .declaration decl.span]

inductive Literal.Fails (scope : Scope) (target : Value) (store : Store) :
    Literal → Fault → Prop where
  | number {number : Int64} {span : Span} {problem : Problem}
      (refused : target.assignInt number = .error problem) :
      Literal.Fails scope target store (.number number span) ⟨problem, .literal span, []⟩
  | unbound {name : String} {span : Span} (unknown : scope.value? store name = none) :
      Literal.Fails scope target store (.ident name span)
        ⟨.unknownVariable name, .literal span, []⟩
  | value {name : String} {span : Span} {source : Value} {problem : Problem}
      (known : scope.value? store name = some source)
      (refused : target.assign source = .error problem) :
      Literal.Fails scope target store (.ident name span) ⟨problem, .literal span, []⟩

/-- Where and why a variable fails to be declared by a declaration that stands there. -/
inductive Scope.VariableFails (scope : Scope) (name : String) (type : TypeExpr) (place : Span)
    (store : Store) : Option Literal → Fault → Prop where
  | type {initial : Option Literal} {fault : Fault} (fails : type.Fails scope none store fault) :
      scope.VariableFails name type place store initial (fault.inside (.declaration place))
  | literal {literal : Literal} {built : Ty} {middle : Store} {fault : Fault}
      (builds : Build.run (type.elaborate scope none) store = (.ok built, middle))
      (fails : literal.Fails scope built.default middle fault) :
      scope.VariableFails name type place store (some literal) (fault.inside (.declaration place))
  | bound {initial : Option Literal} {built : Ty} {middle : Store} {value : Value}
      (builds : Build.run (type.elaborate scope none) store = (.ok built, middle))
      (starts : scope.Starts middle initial built.default value)
      (strict : scope.policy = .reject) (bound : scope.hasLocalVar middle name = true) :
      scope.VariableFails name type place store initial
        ⟨.duplicateDeclaration name, .declaration place, []⟩

inductive Decl.Fails (scope : Scope) (store : Store) : Decl → Fault → Prop where
  | type {name : String} {type : TypeExpr} {span : Span} {fault : Fault}
      (fails : type.Fails scope (some name) store fault) :
      Decl.Fails scope store (.type name type span) (fault.inside (.declaration span))
  | bound {name : String} {type : TypeExpr} {span : Span} {built : Ty} {middle : Store}
      (builds : Build.run (type.elaborate scope (some name)) store = (.ok built, middle))
      (strict : scope.policy = .reject) (bound : scope.hasLocalType middle name = true) :
      Decl.Fails scope store (.type name type span)
        ⟨.duplicateDeclaration name, .declaration span, []⟩
  | missing {name : String} {type : TypeExpr} {span : Span} :
      Decl.Fails scope store (.param name type none span)
        ⟨.missingDefault name, .declaration span, []⟩
  | param {name : String} {type : TypeExpr} {literal : Literal} {span : Span} {fault : Fault}
      (fails : scope.VariableFails name type span store (some literal) fault) :
      Decl.Fails scope store (.param name type (some literal) span) fault
  | var {name : String} {type : TypeExpr} {initial : Option Literal} {span : Span} {fault : Fault}
      (fails : scope.VariableFails name type span store initial fault) :
      Decl.Fails scope store (.var name type initial span) fault
  | iterable {name index iterable : String} {body : Block} {span : Span}
      (unbound : ¬scope.Binds store iterable) :
      Decl.Fails scope store (.rule (.each name index iterable body) span)
        ⟨.unknownVariable iterable, .declaration span, []⟩
  | unknown {kind : String} {span : Span} :
      Decl.Fails scope store (.unknown kind span)
        ⟨.unknownDeclarationKind kind, .declaration span, []⟩

section

variable {scope : Scope} {store : Store} {fault : Fault} {failure : Failure}

theorem TypeExpr.elaborate_error_iff {expression : TypeExpr} {name : Option String} :
    (Build.run (expression.elaborate scope name) store).1 = .error failure ↔
      ∃ fault, expression.Fails scope name store fault ∧ failure = fault.failure := by
  refine ⟨TypeExpr.exists_fails scope expression name store failure, ?_⟩
  rintro ⟨fault, fails, rfl⟩
  exact fails.run

theorem Build.run_ofExcept_eq_error {α : Type} {result : Except Problem α} :
    (Build.run (Build.ofExcept result) store).1 = .error failure ↔
      ∃ problem, result = .error problem ∧ failure = { problem } := by
  cases result <;> simp [Build.ofExcept, eq_comm]

theorem Build.run_thenReturn_eq_error {α : Type} {work : Build Unit} {given : α} :
    (Build.run (do work; return given) store).1 = .error failure ↔
      (Build.run work store).1 = .error failure := by
  rw [Build.run_bind_eq_error]
  refine or_iff_left ?_
  rintro ⟨_, _, -, ⟨⟩⟩

theorem Build.run_locate_thenReturn_eq_error {α : Type} {span : Span} {work : Build Unit}
    {given : α} :
    (Build.run (Build.locate span (do work; return given)) store).1 = .error failure ↔
      (Build.run (Build.locate span work) store).1 = .error failure := by
  rw [Build.run_locate_eq_error, Build.run_locate_eq_error]
  simp only [Build.run_thenReturn_eq_error]

theorem Literal.applyTo_error_iff {literal : Literal} {target : Value} :
    (Build.run (literal.applyTo scope target) store).1 = .error failure ↔
      ∃ fault, literal.Fails scope target store fault ∧ failure = fault.failure := by
  constructor
  · intro fails
    obtain ⟨inner, hinner, rfl⟩ := Build.run_locate_eq_error.1 fails
    cases literal with
    | number number span =>
        obtain ⟨problem, hrefused, rfl⟩ := Build.run_ofExcept_eq_error.1 hinner
        exact ⟨_, .number hrefused, (Fault.failure_alone _ (.literal span)).symm⟩
    | ident name span =>
        have hresolve := scope.run_resolveValue name store
        cases known : scope.value? store name with
        | none =>
            rw [known] at hresolve
            rw [Build.run_bind, hresolve] at hinner
            cases hinner
            exact ⟨_, .unbound known, (Fault.failure_alone _ (.literal span)).symm⟩
        | some source =>
            rw [known] at hresolve
            rw [Build.run_bind, hresolve] at hinner
            obtain ⟨problem, hrefused, rfl⟩ := Build.run_ofExcept_eq_error.1 hinner
            exact ⟨_, .value known hrefused, (Fault.failure_alone _ (.literal span)).symm⟩
  · rintro ⟨fault, fails, rfl⟩
    cases fails with
    | @number number span problem refused =>
        exact Fault.run_alone (Build.run_ofExcept_eq_error.2 ⟨problem, refused, rfl⟩)
          (.literal span)
    | @unbound name span unknown =>
        refine Fault.run_alone (Build.run_bind_eq_error.2 (.inl ?_)) (.literal span)
        rw [scope.run_resolveValue, unknown]
    | @value name span source problem known refused =>
        refine Fault.run_alone (Build.run_bind_eq_error.2 (.inr ⟨source, store, ?_, ?_⟩))
          (.literal span)
        · rw [scope.run_resolveValue, known]
        · exact Build.run_ofExcept_eq_error.2 ⟨problem, refused, rfl⟩

theorem Scope.bindType_error_iff {name : String} {type : Ty} :
    (Build.run (scope.bindType name type) store).1 = .error failure ↔
      (scope.policy = .reject ∧ scope.hasLocalType store name = true) ∧
        failure = { problem := .duplicateDeclaration name } := by
  rw [Scope.run_bindType]
  unfold Scope.hasLocalType
  dsimp only
  split
  · next refused => simp [refused, eq_comm]
  · next free => simp [free]

theorem Scope.bindNew_error_iff {name : String} {value : Value} :
    (Build.run (do scope.bindVar name (← Store.newCell value)) store).1 = .error failure ↔
      (scope.policy = .reject ∧ scope.hasLocalVar store name = true) ∧
        failure = { problem := .duplicateDeclaration name } := by
  rw [Scope.run_bindNew]
  split
  · next refused => simp [refused, eq_comm]
  · next free => simp [free]

theorem Scope.declareVar_error_iff {name : String} {type : TypeExpr} {initial : Option Literal}
    {place : Span} :
    (Build.run (Build.locate place (scope.declareVar name type initial)) store).1 =
        .error failure ↔
      ∃ fault, scope.VariableFails name type place store initial fault ∧
        failure = fault.failure := by
  constructor
  · intro fails
    obtain ⟨inner, hinner, rfl⟩ := Build.run_locate_eq_error.1 fails
    rcases Build.run_bind_eq_error.1 hinner with hfails | ⟨built, middle, hbuilt, hinner⟩
    · obtain ⟨fault, hfault, rfl⟩ := TypeExpr.elaborate_error_iff.1 hfails
      exact ⟨_, .type hfault, (fault.failure_inside (.declaration place) rfl).symm⟩
    rcases Build.run_bind_eq_error.1 hinner with hfails | ⟨value, last, hvalue, hbind⟩
    · cases initial with
      | none => cases hfails
      | some literal =>
          obtain ⟨fault, hfault, rfl⟩ := Literal.applyTo_error_iff.1 hfails
          exact ⟨_, .literal hbuilt hfault,
            (fault.failure_inside (.declaration place) rfl).symm⟩
    · obtain ⟨hstarts, rfl⟩ := Scope.run_initialValue_eq_ok.1 hvalue
      obtain ⟨⟨strict, bound⟩, rfl⟩ := Scope.bindNew_error_iff.1 hbind
      exact ⟨_, .bound hbuilt hstarts strict bound,
        (Fault.failure_alone _ (.declaration place)).symm⟩
  · rintro ⟨fault, fails, rfl⟩
    cases fails with
    | type fails =>
        refine Fault.run_inside ?_ (.declaration place) rfl
        exact Build.run_bind_eq_error.2 (.inl fails.run)
    | literal builds fails =>
        refine Fault.run_inside ?_ (.declaration place) rfl
        refine Build.run_bind_eq_error.2 (.inr ⟨_, _, builds, ?_⟩)
        exact Build.run_bind_eq_error.2 (.inl (Literal.applyTo_error_iff.2 ⟨_, fails, rfl⟩))
    | bound builds starts strict bound =>
        refine Fault.run_alone ?_ (.declaration place)
        refine Build.run_bind_eq_error.2 (.inr ⟨_, _, builds, ?_⟩)
        refine Build.run_bind_eq_error.2
          (.inr ⟨_, _, Scope.run_initialValue_eq_ok.2 ⟨starts, rfl⟩, ?_⟩)
        exact Scope.bindNew_error_iff.2 ⟨⟨strict, bound⟩, rfl⟩

theorem Decl.declare_error_iff {decl : Decl} :
    (Build.run (decl.declare scope) store).1 = .error failure ↔
      ∃ fault, decl.Fails scope store fault ∧ failure = fault.failure := by
  constructor
  · intro fails
    cases decl with
    | type name type span =>
        obtain ⟨inner, hinner, rfl⟩ := Build.run_locate_eq_error.1 fails
        rcases Build.run_bind_eq_error.1 hinner with hfails | ⟨built, middle, hbuilt, hinner⟩
        · obtain ⟨fault, hfault, rfl⟩ := TypeExpr.elaborate_error_iff.1 hfails
          exact ⟨_, .type hfault, (fault.failure_inside (.declaration span) rfl).symm⟩
        · obtain ⟨⟨strict, bound⟩, rfl⟩ :=
            Scope.bindType_error_iff.1 (Build.run_thenReturn_eq_error.1 hinner)
          exact ⟨_, .bound hbuilt strict bound, (Fault.failure_alone _ (.declaration span)).symm⟩
    | param name type initial span =>
        cases initial with
        | none =>
            obtain ⟨inner, hinner, rfl⟩ := Build.run_locate_eq_error.1 fails
            cases hinner
            exact ⟨_, .missing, (Fault.failure_alone _ (.declaration span)).symm⟩
        | some literal =>
            obtain ⟨fault, hfault, rfl⟩ :=
              Scope.declareVar_error_iff.1 (Build.run_locate_thenReturn_eq_error.1 fails)
            exact ⟨fault, .param hfault, rfl⟩
    | var name type initial span =>
        obtain ⟨fault, hfault, rfl⟩ :=
          Scope.declareVar_error_iff.1 (Build.run_locate_thenReturn_eq_error.1 fails)
        exact ⟨fault, .var hfault, rfl⟩
    | rule rule span =>
        cases rule with
        | once name body => cases fails
        | each name index iterable body =>
            by_cases bound : scope.Binds store iterable
            · rw [Decl.declare_each name index iterable body span bound] at fails
              cases fails
            · rw [Decl.declare_each_unbound name index iterable body span bound] at fails
              cases fails
              exact ⟨_, .iterable bound, (Fault.failure_alone _ (.declaration span)).symm⟩
    | unknown kind span =>
        obtain ⟨inner, hinner, rfl⟩ := Build.run_locate_eq_error.1 fails
        cases hinner
        exact ⟨_, .unknown, (Fault.failure_alone _ (.declaration span)).symm⟩
  · rintro ⟨fault, fails, rfl⟩
    cases fails with
    | @type name type span fault fails =>
        refine Fault.run_inside ?_ (.declaration span) rfl
        exact Build.run_bind_eq_error.2 (.inl fails.run)
    | @bound name type span built middle builds strict bound =>
        refine Fault.run_alone ?_ (.declaration span)
        refine Build.run_bind_eq_error.2 (.inr ⟨built, middle, builds, ?_⟩)
        refine Build.run_thenReturn_eq_error.2 ?_
        exact Scope.bindType_error_iff.2 ⟨⟨strict, bound⟩, rfl⟩
    | @missing name type span => exact Fault.run_alone rfl (.declaration span)
    | param fails =>
        exact Build.run_locate_thenReturn_eq_error.2 (Scope.declareVar_error_iff.2 ⟨_, fails, rfl⟩)
    | var fails =>
        exact Build.run_locate_thenReturn_eq_error.2 (Scope.declareVar_error_iff.2 ⟨_, fails, rfl⟩)
    | @iterable name index iterable body span unbound =>
        rw [Decl.declare_each_unbound name index iterable body span unbound, Fault.failure_alone]
        rfl
    | @unknown kind span => exact Fault.run_alone rfl (.declaration span)

theorem Scope.VariableFails.path {decl : Decl} {name : String} {type : TypeExpr}
    {initial : Option Literal} (fails : scope.VariableFails name type decl.span store initial fault)
    (declares : decl.DeclaresVariable name type initial) : decl.Path fault.path := by
  cases fails with
  | type fails => exact .variable declares fails.path
  | literal builds fails =>
      cases fails with
      | number | unbound | value => exact .literal declares
  | bound => exact .here decl

theorem Decl.Fails.path {decl : Decl} (fails : decl.Fails scope store fault) :
    decl.Path fault.path := by
  cases fails with
  | type fails => exact .type fails.path
  | @param name type literal span _ fails =>
      exact Scope.VariableFails.path fails (.inl ⟨span, rfl⟩)
  | @var name type initial span _ fails =>
      exact Scope.VariableFails.path fails (.inr ⟨span, rfl⟩)
  | bound | missing | iterable | unknown => exact .here _

end

/-- A load fails as its first declaration that fails does, in what those before it made. -/
theorem loadIn_error_iff {σ : Type} [RuleSink σ] {parent : Option Scope} {policy : Redefinition}
    {decls : List Decl} {sink : σ} {store : Store} {failure : Failure} :
    (loadIn parent policy decls sink store).result = .error failure ↔
      ∃ before decl rest earlier sinkMiddle middle fault, decls = before ++ decl :: rest ∧
        loadIn parent policy before sink store = ⟨.ok earlier, sinkMiddle, middle⟩ ∧
        decl.Fails earlier.scope middle fault ∧ failure = fault.failure := by
  constructor
  · intro fails
    rcases hload : loadIn parent policy decls sink store with ⟨result, sinkAfter, after⟩
    rw [hload] at fails
    obtain rfl : result = .error failure := fails
    rw [loadIn_eq_load] at hload
    obtain ⟨before, decl, rest, earlier, middle, hsplit, hbefore, hdeclare⟩ :=
      loadFrom_first_failure hload
    rw [← loadFrom_scope hbefore] at hdeclare
    obtain ⟨fault, hfault, hfailure⟩ := Decl.declare_error_iff.1 (congrArg Prod.fst hdeclare)
    refine ⟨before, decl, rest, earlier, sinkAfter, middle, fault, hsplit, ?_, hfault, hfailure⟩
    rw [loadIn_eq_load]
    exact hbefore
  · rintro ⟨before, decl, rest, earlier, sinkMiddle, middle, fault, rfl, hbefore, hfault, rfl⟩
    have hdeclare := Decl.declare_error_iff.2 ⟨fault, hfault, rfl⟩
    rw [loadIn_eq_load] at hbefore ⊢
    rw [loadFrom_scope hbefore] at hdeclare
    unfold load at hbefore ⊢
    rw [loadFrom_of_failure hbefore (Prod.ext hdeclare rfl)]

/-- The failures of an expression are the faults in it, and those of a load the faults
of its first declaration that fails. A fault stands where its path says, and it is
reported at the first place from the node at fault outward, variants around it passed
over. That is the nearest place of all unless a variant has the nearest one. -/
theorem failures_located {σ : Type} [RuleSink σ] (scope : Scope) (name : Option String)
    (expression : TypeExpr) (parent : Option Scope) (policy : Redefinition) (decls : List Decl)
    (sink : σ) (store : Store) (failure : Failure) :
    ((Build.run (expression.elaborate scope name) store).1 = .error failure ↔
      ∃ fault, expression.Fails scope name store fault ∧ expression.Path fault.path ∧
        failure = fault.failure) ∧
    ((loadIn parent policy decls sink store).result = .error failure ↔
      ∃ before decl rest earlier sinkMiddle middle fault, decls = before ++ decl :: rest ∧
        loadIn parent policy before sink store = ⟨.ok earlier, sinkMiddle, middle⟩ ∧
        decl.Fails earlier.scope middle fault ∧ decl.Path fault.path ∧
        failure = fault.failure) ∧
    ∀ fault : Fault,
      fault.failure = ⟨fault.problem, Span.firstPlace? fault.spans⟩ ∧
      (fault.failure.span = none ↔ ∀ span ∈ fault.spans, span = .dummy) ∧
      (fault.failure.span = fault.innermost? ↔
        ∀ span, fault.PassesOver span → fault.failure.span = some span) := by
  refine ⟨?_, ?_, fun fault => ⟨rfl, ?_, ?_⟩⟩
  · rw [TypeExpr.elaborate_error_iff]
    refine exists_congr fun fault => ?_
    exact and_congr_right fun fails => (and_iff_right fails.path).symm
  · rw [loadIn_error_iff]
    constructor
    · rintro ⟨before, decl, rest, earlier, sinkMiddle, middle, fault, hsplit, loads, fails, same⟩
      exact ⟨before, decl, rest, earlier, sinkMiddle, middle, fault, hsplit, loads, fails,
        fails.path, same⟩
    · rintro ⟨before, decl, rest, earlier, sinkMiddle, middle, fault, hsplit, loads, fails, -, same⟩
      exact ⟨before, decl, rest, earlier, sinkMiddle, middle, fault, hsplit, loads, fails, same⟩
  · exact Span.firstPlace?_eq_none
  · exact Fault.span_failure_eq_innermost?_iff

/-- A place that a variant has is not the one reported for what goes wrong in its
payload, even where it is the nearest. -/
theorem variant_place_passed_over :
    ¬∀ (scope : Scope) (name : Option String) (expression : TypeExpr) (store : Store)
      (fault : Fault), expression.Fails scope name store fault →
      (Build.run (expression.elaborate scope name) store).1 =
        .error ⟨fault.problem, fault.innermost?⟩ := by
  intro whole
  have hfails : (TypeExpr.either
      [⟨"On", some [⟨"level", .alias "Missing", .dummy⟩], ⟨5, 20⟩⟩] ⟨0, 30⟩).Fails
        ⟨0, [], .overwrite⟩ none {} _ :=
    .variant (.here (.payload (by decide) (.here (.type (by decide) (.unbound rfl)))))
  have hnearest := whole _ _ _ _ _ hfails
  rw [hfails.run] at hnearest
  exact absurd (Except.error.inj hnearest) (by decide)

end StateModel
