import StateModel.Proofs.Shapes
import StateModel.Proofs.Values

/-!
The rules of a module and the rest of it. A load hands on the rules that stand before
its first failing declaration, in the order in which they stand there, and nothing
that a rule says comes back: without its rules a module loads to the same frame.
-/
namespace StateModel

theorem DeclaredNames.add_rule (names : DeclaredNames) {contribution : Contribution}
    {rule : Rule} (given : contribution.rule? = some rule) : names.add contribution = names := by
  cases contribution with
  | rule => rfl
  | type | param | var => cases given

def Scope.Binds (scope : Scope) (store : Store) (name : String) : Prop :=
  ∃ id ∈ scope.frames, name ∈ (store.frame id).vars.names

theorem Scope.isSome_var?_iff {scope : Scope} {store : Store} {name : String} :
    (scope.var? store name).isSome = true ↔ scope.Binds store name := by
  simp only [var?, List.isSome_findSome?, List.any_eq_true, Binds, ← Bindings.contains_iff,
    Bindings.contains]

/-! One declaration. -/

section

variable {scope : Scope} {store after : Store}

theorem Decl.rule?_of_declare {decl : Decl} {contribution : Contribution}
    (declares : Build.run (decl.declare scope) store = (.ok contribution, after)) :
    contribution.rule? = decl.rule? := by
  have hgiven := decl.contribution?_of_declare scope declares
  cases decl with
  | type | param | var | rule =>
      rw [← Option.some.inj hgiven]
      rfl
  | unknown => cases hgiven

theorem Rule.run_requireIterable_store (rule : Rule) (scope : Scope) (store : Store) :
    (Build.run (rule.requireIterable scope) store).2 = store := by
  cases rule with
  | once => rfl
  | each name index iterable body =>
      change (Build.run (scope.resolveVar iterable >>= fun _ => pure ()) store).2 = store
      rw [Build.run_bind, Scope.run_resolveVar]
      cases scope.var? store iterable <;> rfl

theorem Decl.store_of_rule {decl : Decl} {rule : Rule} (given : decl.rule? = some rule) :
    (Build.run (decl.declare scope) store).2 = store := by
  cases decl with
  | type | param | var | unknown => cases given
  | rule content span =>
      rw [declare, Build.run_locate, Build.run_bind]
      have hstill := content.run_requireIterable_store scope store
      rcases hrun : Build.run (content.requireIterable scope) store with ⟨_ | _, last⟩
      · rw [hrun] at hstill
        exact hstill
      · rw [hrun] at hstill
        exact hstill

theorem Decl.declare_each (name index iterable : String) (body : Block) (span : Span)
    (bound : scope.Binds store iterable) :
    Build.run ((Decl.rule (.each name index iterable body) span).declare scope) store =
      (.ok (.rule (.each name index iterable body)), store) := by
  obtain ⟨cell, hcell⟩ := Option.isSome_iff_exists.1 (Scope.isSome_var?_iff.2 bound)
  have hresolve := scope.run_resolveVar iterable store
  rw [hcell] at hresolve
  rw [declare, Build.run_locate_eq_ok, Build.run_bind_eq_ok]
  refine ⟨(), store, ?_, rfl⟩
  exact Build.run_bind_eq_ok.2 ⟨cell, store, hresolve, rfl⟩

theorem Decl.declare_each_unbound (name index iterable : String) (body : Block) (span : Span)
    (unbound : ¬scope.Binds store iterable) :
    Build.run ((Decl.rule (.each name index iterable body) span).declare scope) store =
      (.error (Failure.located span { problem := .unknownVariable iterable }), store) := by
  rw [← Scope.isSome_var?_iff, Bool.not_eq_true, Option.isSome_eq_false_iff,
    Option.isNone_iff_eq_none] at unbound
  have hresolve := scope.run_resolveVar iterable store
  rw [unbound] at hresolve
  have hrequire : Build.run ((Rule.each name index iterable body).requireIterable scope) store =
      (.error { problem := .unknownVariable iterable }, store) := by
    change Build.run (scope.resolveVar iterable >>= fun _ => pure ()) store = _
    rw [Build.run_bind, hresolve]
  rw [declare, Build.run_locate, Build.run_bind, hrequire]
  rfl

end

/-! A load, one declaration after the other. -/

section

variable {σ τ : Type} [RuleSink σ] [RuleSink τ] {scope : Scope} {names : DeclaredNames}
  {sink sinkAfter : σ} {store after : Store}

theorem loadFrom_forwards {decls : List Decl} {loaded : LoadedModule}
    (loads : loadFrom scope names sink store decls = ⟨.ok loaded, sinkAfter, after⟩) :
    sinkAfter = RuleSink.acceptAll sink (decls.filterMap Decl.rule?) := by
  induction decls generalizing names sink store with
  | nil =>
      cases loads
      rfl
  | cons decl rest ih =>
      obtain ⟨contribution, middle, hdeclare, hrest⟩ := loadFrom_cons_ok loads
      have hgiven := Decl.rule?_of_declare hdeclare
      have hrules : (decl :: rest).filterMap Decl.rule? =
          decl.rule?.toList ++ rest.filterMap Decl.rule? := by
        cases hrule : decl.rule? <;> simp [hrule]
      rw [ih hrest, Contribution.forward_eq, hgiven, hrules, RuleSink.acceptAll_append]

theorem loadFrom_first_failure {decls : List Decl} {failure : Failure}
    (fails : loadFrom scope names sink store decls = ⟨.error failure, sinkAfter, after⟩) :
    ∃ before decl rest earlier middle, decls = before ++ decl :: rest ∧
      loadFrom scope names sink store before = ⟨.ok earlier, sinkAfter, middle⟩ ∧
      Build.run (decl.declare scope) middle = (.error failure, after) := by
  induction decls generalizing names sink store with
  | nil => cases fails
  | cons decl rest ih =>
      rw [loadFrom] at fails
      rcases hrun : Build.run (decl.declare scope) store with ⟨other | contribution, middle⟩
      · rw [hrun] at fails
        cases fails
        exact ⟨[], decl, rest, ⟨scope, names⟩, store, rfl, rfl, hrun⟩
      · rw [hrun] at fails
        obtain ⟨before, failing, others, earlier, last, hsplit, hbefore, hfails⟩ := ih fails
        refine ⟨decl :: before, failing, others, earlier, last, by rw [hsplit]; rfl, ?_, hfails⟩
        rw [loadFrom, hrun]
        exact hbefore

theorem loadFrom_of_failure {before : List Decl} {decl : Decl} {earlier : LoadedModule}
    {middle : Store} {failure : Failure}
    (loads : loadFrom scope names sink store before = ⟨.ok earlier, sinkAfter, middle⟩)
    (fails : Build.run (decl.declare scope) middle = (.error failure, after))
    (others : List Decl) :
    loadFrom scope names sink store (before ++ decl :: others) =
      ⟨.error failure, sinkAfter, after⟩ := by
  rw [loadFrom_append, loads]
  simp only [loadFrom]
  rw [fails]

/-- The same load without any of its rules, into whatever sink. -/
theorem loadFrom_without_rules {decls : List Decl} {loaded : LoadedModule}
    (loads : loadFrom scope names sink store decls = ⟨.ok loaded, sinkAfter, after⟩) (other : τ) :
    loadFrom scope names other store (decls.filter (·.rule?.isNone)) =
      ⟨.ok loaded, other, after⟩ := by
  induction decls generalizing names sink store with
  | nil =>
      cases loads
      rfl
  | cons decl rest ih =>
      obtain ⟨contribution, middle, hdeclare, hrest⟩ := loadFrom_cons_ok loads
      have hgiven := Decl.rule?_of_declare hdeclare
      cases hrule : decl.rule? with
      | some rule =>
          have hstill : (Build.run (decl.declare scope) store).2 = store :=
            Decl.store_of_rule hrule
          rw [hdeclare] at hstill
          rw [hrule] at hgiven
          rw [names.add_rule hgiven, show middle = store from hstill] at hrest
          rw [List.filter_cons_of_neg (by simp [hrule])]
          exact ih hrest
      | none =>
          rw [hrule] at hgiven
          have hsink : RuleSink.forward other contribution = other := by
            rw [Contribution.forward_eq, hgiven]
            rfl
          rw [List.filter_cons_of_pos (by simp [hrule]), loadFrom, hdeclare]
          simp only [hsink]
          exact ih hrest

end

/-! A load from the opening of its scope on. -/

section

variable {parent : Option Scope} {policy : Redefinition} {buffer sinkAfter : RuleBuffer}
  {store after : Store}

theorem loadIn_binds_iff {decls : List Decl} {loaded : LoadedModule}
    (loads : loadIn parent policy decls buffer store = ⟨.ok loaded, sinkAfter, after⟩)
    (name : String) :
    loaded.scope.Binds after name ↔
      name ∈ (decls.flatMap Decl.bindings).filterMap Binding.varName? ∨
        ∃ scope, parent = some scope ∧ scope.Binds store name := by
  obtain ⟨acts, hacts, hbindings⟩ := loadIn_performs loads
  have hsettled := loadIn_settled loads
  have hempty : name ∉ (store.frame loaded.scope.frame).vars.names := by
    have hunbound := loadIn_unbound loads name
    rw [Scope.localVar?, Store.frame_push] at hunbound
    simp [← Bindings.contains_iff, Bindings.contains, hunbound]
  have hown : name ∈ (after.frame loaded.scope.frame).vars.names ↔
      name ∈ (decls.flatMap Decl.bindings).filterMap Binding.varName? := by
    have hlocal := hacts.hasLocalVar_iff hsettled.made name
    rw [hbindings, Scope.hasLocalVar, Scope.hasLocalVar, Bindings.contains_iff,
      Bindings.contains_iff, Store.frame_push] at hlocal
    exact hlocal.trans (or_iff_right hempty)
  have houter : ∀ id, id ≠ loaded.scope.frame → after.frame id = store.frame id := by
    intro id different
    rw [hacts.frame_of_ne different, Store.frame_push]
  have hchain : loaded.scope.outer = (parent.map Scope.frames).getD [] := by
    rw [loadIn_scope loads]
  constructor
  · rintro ⟨id, inside, held⟩
    by_cases same : id = loaded.scope.frame
    · rw [same] at held
      exact .inl (hown.1 held)
    · rw [houter id same] at held
      have hinside := (List.mem_cons.1 inside).resolve_left same
      rw [hchain] at hinside
      cases parent with
      | none => exact absurd hinside List.not_mem_nil
      | some scope => exact .inr ⟨scope, rfl, id, hinside, held⟩
  · rintro (written | ⟨scope, rfl, id, inside, held⟩)
    · exact ⟨_, .head _, hown.2 written⟩
    · have hother : id ≠ loaded.scope.frame := fun same => hempty (same ▸ held)
      rw [← houter id hother] at held
      refine ⟨id, List.mem_cons_of_mem _ ?_, held⟩
      rw [hchain]
      exact inside

/-- A load hands on exactly the rules before its first declaration that fails, and comes
out the same without them, but for the buffer; what stands behind that declaration is
never read. A rule over an iterable is itself what fails exactly where no frame of the
chain binds the iterable. -/
theorem loadIn_forwards (parent : Option Scope) (policy : Redefinition) (decls : List Decl)
    (buffer : RuleBuffer) (store : Store) :
    (match loadIn parent policy decls buffer store with
    | ⟨.ok loaded, sink, after⟩ =>
        sink.rules = buffer.rules ++ decls.filterMap Decl.rule? ∧
        loadIn parent policy (decls.filter (·.rule?.isNone)) buffer store =
          ⟨.ok loaded, buffer, after⟩
    | ⟨.error failure, sink, after⟩ =>
        ∃ before decl rest earlier middle, decls = before ++ decl :: rest ∧
          loadIn parent policy before buffer store = ⟨.ok earlier, sink, middle⟩ ∧
          Build.run (decl.declare earlier.scope) middle = (.error failure, after) ∧
          sink.rules = buffer.rules ++ before.filterMap Decl.rule? ∧
          ∀ others,
            loadIn parent policy (before ++ decl :: others) buffer store =
              ⟨.error failure, sink, after⟩ ∧
            loadIn parent policy (before.filter (·.rule?.isNone) ++ decl :: others) buffer store =
              ⟨.error failure, buffer, after⟩) ∧
    ∀ before earlier sink middle,
      loadIn parent policy before buffer store = ⟨.ok earlier, sink, middle⟩ →
      ∀ name index iterable body span rest,
        (earlier.scope.Binds middle iterable ↔
          iterable ∈ (before.flatMap Decl.bindings).filterMap Binding.varName? ∨
            ∃ scope, parent = some scope ∧ scope.Binds store iterable) ∧
        (earlier.scope.Binds middle iterable →
          loadIn parent policy (before ++ [.rule (.each name index iterable body) span]) buffer
            store = ⟨.ok earlier, ⟨sink.rules ++ [.each name index iterable body]⟩, middle⟩) ∧
        (¬earlier.scope.Binds middle iterable →
          loadIn parent policy (before ++ .rule (.each name index iterable body) span :: rest)
            buffer store =
              ⟨.error (Failure.located span { problem := .unknownVariable iterable }), sink,
                middle⟩) := by
  refine ⟨?_, ?_⟩
  · rcases hload : loadIn parent policy decls buffer store with ⟨failure | loaded, sink, after⟩
    · rw [loadIn_eq_load] at hload
      obtain ⟨before, decl, rest, earlier, middle, hsplit, hbefore, hfails⟩ :=
        loadFrom_first_failure hload
      have hscope := loadFrom_scope hbefore
      rw [← hscope] at hfails
      refine ⟨before, decl, rest, earlier, middle, hsplit, ?_, hfails, ?_, fun others => ?_⟩
      · rw [loadIn_eq_load]
        exact hbefore
      · rw [loadFrom_forwards hbefore, RuleBuffer.acceptAll]
      · rw [hscope] at hfails
        rw [loadIn_eq_load, loadIn_eq_load]
        exact ⟨loadFrom_of_failure hbefore hfails others,
          loadFrom_of_failure (loadFrom_without_rules hbefore buffer) hfails others⟩
    · rw [loadIn_eq_load] at hload
      refine ⟨?_, ?_⟩
      · rw [loadFrom_forwards hload, RuleBuffer.acceptAll]
      · rw [loadIn_eq_load]
        exact loadFrom_without_rules hload buffer
  · intro before earlier sink middle loads name index iterable body span rest
    refine ⟨loadIn_binds_iff loads iterable, fun bound => ?_, fun unbound => ?_⟩
    · rw [loadIn_snoc loads (Decl.declare_each name index iterable body span bound)]
      rfl
    · rw [loadIn_append, loads]
      simp only [loadFrom]
      rw [Decl.declare_each_unbound name index iterable body span unbound]

end

end StateModel
