import StateModel.Proofs.Effects
import StateModel.Proofs.Forwarding

/-!
A loaded module in step with its frame: its lists of names have the variables of the frame,
each once, and all other names of the frame are constants of either types that the load
itself has built.
-/
namespace StateModel

/-! When the either types of constants were built. -/

/-- The either types whose constants the frame has were all built after the count of types
stood at `first`. -/
structure Scope.ConstantsSince (scope : Scope) (first : TypeId) (store : Store) : Prop where
  counted : first ≤ store.nextType
  numbered : ∀ name tag, scope.localValue? store name = some (.tag tag) →
    first ≤ tag.either.header.id ∧ tag.either.header.id < store.nextType

namespace Scope.ConstantsSince

variable {scope : Scope} {first : TypeId} {store after : Store}

theorem act (since : scope.ConstantsSince first store) (settled : scope.Settled store) {act : Act}
    (plain : ∀ name tag, act ≠ .bind name (.tag tag)) :
    scope.ConstantsSince first (act.apply scope store) where
  counted := Nat.le_trans since.counted Act.nextType_apply
  numbered := by
    intro name tag found
    rcases Act.localValue?_apply_tag settled found with old | binds
    · obtain ⟨hmade, hcounted⟩ := since.numbered name tag old
      exact ⟨hmade, Nat.lt_of_lt_of_le hcounted Act.nextType_apply⟩
    · exact absurd binds (plain name tag)

theorem elaborate (since : scope.ConstantsSince first store) (settled : scope.Settled store)
    (expression : TypeExpr) (label : Option String) :
    scope.Settled (Build.run (expression.elaborate scope label) store).2 ∧
      scope.ConstantsSince first (Build.run (expression.elaborate scope label) store).2 := by
  obtain ⟨acts, hacts, hregisters, -⟩ := expression.registers_elaborate scope
    expression.eithers (List.Subset.refl _) label store settled
  refine ⟨hacts.settled settled, Nat.le_trans since.counted hacts.nextType_le, ?_⟩
  intro name tag found
  rcases hacts.localValue?_tag settled found with old | new
  · obtain ⟨hmade, hcounted⟩ := since.numbered name tag old
    exact ⟨hmade, Nat.lt_of_lt_of_le hcounted hacts.nextType_le⟩
  · obtain ⟨other, same, -, -, hmade, hcounted⟩ := hregisters _ new
    cases same
    exact ⟨Nat.le_trans since.counted hmade, hcounted⟩

theorem declareVar (since : scope.ConstantsSince first store) (settled : scope.Settled store)
    {name : String} {type : TypeExpr} {initial : Option Literal}
    (declares : Build.run (scope.declareVar name type initial) store = (.ok (), after)) :
    scope.ConstantsSince first after := by
  obtain ⟨built, middle, value, last, hbuilt, hvalue, -, rfl⟩ :=
    scope.run_declareVar_eq_ok.1 declares
  obtain ⟨hstarts, rfl⟩ := Scope.run_initialValue_eq_ok.1 hvalue
  have helaborated := since.elaborate settled type none
  rw [hbuilt] at helaborated
  refine helaborated.2.act helaborated.1 ?_
  rintro other tag ⟨⟩
  exact nomatch hstarts.not_isTag

theorem declare (since : scope.ConstantsSince first store) (settled : scope.Settled store)
    {decl : Decl} {contribution : Contribution}
    (declares : Build.run (decl.declare scope) store = (.ok contribution, after)) :
    scope.ConstantsSince first after := by
  cases decl with
  | param name type initial span =>
      exact since.declareVar settled
        (Decl.DeclaresVariable.run_declare scope (.inl ⟨span, rfl⟩) declares)
  | var name type initial span =>
      exact since.declareVar settled
        (Decl.DeclaresVariable.run_declare scope (.inr ⟨span, rfl⟩) declares)
  | type name expression span =>
      rw [Decl.declare, Build.run_locate_eq_ok] at declares
      obtain ⟨built, middle, hbuilt, hrest⟩ := Build.run_bind_eq_ok.1 declares
      obtain ⟨-, hbind⟩ := Build.run_thenReturn_eq_ok.1 hrest
      have helaborated := since.elaborate settled expression (some name)
      rw [hbuilt] at helaborated
      rw [Scope.run_bindType] at hbind
      dsimp only at hbind
      split at hbind
      · cases hbind
      · cases hbind
        have hplain : ∀ other tag, Act.type name built ≠ .bind other (.tag tag) := by simp
        exact helaborated.2.act helaborated.1 hplain
  | rule content span =>
      have hstill : (Build.run ((Decl.rule content span).declare scope) store).2 = store :=
        Decl.store_of_rule rfl
      rw [declares] at hstill
      cases hstill
      exact since
  | unknown kind span =>
      rw [Decl.declare, Build.run_locate_eq_ok] at declares
      cases declares

theorem loadFrom {σ : Type} [RuleSink σ] {names : DeclaredNames} {sink sinkAfter : σ}
    {decls : List Decl} {loaded : LoadedModule} (since : scope.ConstantsSince first store)
    (settled : scope.Settled store)
    (loads : loadFrom scope names sink store decls = ⟨.ok loaded, sinkAfter, after⟩) :
    scope.ConstantsSince first after := by
  induction decls generalizing names sink store with
  | nil =>
      cases loads
      exact since
  | cons decl rest ih =>
      obtain ⟨contribution, middle, hdeclare, hrest⟩ := loadFrom_cons_ok loads
      obtain ⟨acts, hacts, -⟩ := Decl.traced_declare scope
        (List.Subset.refl decl.eithers) store settled
      rw [hdeclare] at hacts
      exact ih (since.declare settled hdeclare) (hacts.settled settled) hrest

end Scope.ConstantsSince

theorem loadIn_constantsSince {σ : Type} [RuleSink σ] {parent : Option Scope}
    {policy : Redefinition} {decls : List Decl} {sink sinkAfter : σ} {store after : Store}
    {loaded : LoadedModule}
    (loads : loadIn parent policy decls sink store = ⟨.ok loaded, sinkAfter, after⟩) :
    loaded.scope.ConstantsSince store.nextType after := by
  rw [loadIn_scope loads]
  rw [loadIn_eq_load] at loads
  have hfresh : Scope.ConstantsSince
      ⟨store.frames.size, (parent.map Scope.frames).getD [], policy⟩ store.nextType
      { store with frames := store.frames.push {} } :=
    ⟨Nat.le_refl _, by simp [Scope.localValue?, Scope.localVar?_fresh]⟩
  exact hfresh.loadFrom (Scope.settled_fresh store _ policy) loads

/-- The lists of declared names, the names of the frame and the contents of its cells
agree, after a load from the store at the start. -/
structure LoadedModule.InStep (loaded : LoadedModule) (start store : Store)
    (eithers : List (List VariantDecl)) : Prop where
  params : loaded.names.params.Nodup
  vars : loaded.names.vars.Nodup
  apart : ∀ name ∈ loaded.names.params, name ∉ loaded.names.vars
  declared : ∀ name, name ∈ loaded.names.params ∨ name ∈ loaded.names.vars ↔
    name ∈ loaded.scope.localVarNames store ∧
      ∃ value, loaded.scope.localValue? store name = some value ∧ value.isTag = false
  constants : ∀ name ∈ loaded.scope.localVarNames store,
    name ∉ loaded.names.params → name ∉ loaded.names.vars →
      ∃ tag, loaded.scope.localValue? store name = some (.tag tag) ∧ tag.name = name ∧
        tag.WrittenIn eithers ∧ start.nextType ≤ tag.either.header.id ∧
        tag.either.header.id < store.nextType

theorem Scope.Tracks.inStep {loaded : LoadedModule} {start store : Store}
    {eithers : List (List VariantDecl)} (tracks : loaded.scope.Tracks store loaded.names eithers)
    (since : loaded.scope.ConstantsSince start.nextType store) :
    loaded.InStep start store eithers where
  params := tracks.distinct.params
  vars := tracks.distinct.vars
  apart := tracks.distinct.apart
  declared := by
    intro name
    rw [Scope.mem_localVarNames]
    constructor
    · intro declares
      obtain ⟨value, hvalue, hcontent⟩ := (tracks.declared name).1 declares
      obtain ⟨cell, hcell, -⟩ := Option.bind_eq_some_iff.1 hvalue
      exact ⟨⟨cell, hcell⟩, value, hvalue, hcontent⟩
    · exact fun held => (tracks.declared name).2 held.2
  constants := by
    intro name bound noParam noVar
    obtain ⟨cell, hcell⟩ := Scope.mem_localVarNames.1 bound
    obtain ⟨value, hvalue⟩ := tracks.settled.localValue? hcell
    have hfree : ¬loaded.scope.HoldsVariable store name :=
      fun held => ((tracks.declared name).2 held).elim noParam noVar
    cases value with
    | tag tag =>
        obtain ⟨hname, hwritten⟩ := tracks.constants name tag hvalue
        exact ⟨tag, hvalue, hname, hwritten, since.numbered name tag hvalue⟩
    | range | record | either | array => exact (hfree ⟨_, hvalue, rfl⟩).elim

theorem TypeExpr.elaborate_keeps {scope : Scope} {store after : Store} {built : Ty}
    (settled : scope.Settled store) (expression : TypeExpr) (label : Option String)
    (elaborates : Build.run (expression.elaborate scope label) store = (.ok built, after))
    {name : String} (held : scope.HoldsVariable store name) :
    scope.localVar? after name = scope.localVar? store name ∧
      scope.localValue? after name = scope.localValue? store name := by
  obtain ⟨acts, hacts, -, hbound⟩ := TypeExpr.traced_elaborate scope expression.eithers
    expression (List.Subset.refl _) label store settled
  rw [elaborates] at hacts hbound
  have hother : .variable name ∉ acts.filterMap Act.binding? := by
    rw [(hbound built rfl).1]
    exact expression.not_variable_mem_bindings name
  exact ⟨hacts.localVar?_of_holds settled held hother,
    hacts.localValue?_of_holds settled held hother⟩

theorem loadFrom_declares {σ : Type} [RuleSink σ] {scope : Scope} {names : DeclaredNames}
    {sink sinkAfter : σ} {store after : Store} {decls : List Decl} {loaded : LoadedModule}
    (loads : loadFrom scope names sink store decls = ⟨.ok loaded, sinkAfter, after⟩)
    {name : String} (declares : names.Declares name) : loaded.names.Declares name := by
  induction decls generalizing names sink store with
  | nil =>
      cases loads
      exact declares
  | cons decl rest ih =>
      obtain ⟨contribution, middle, -, hrest⟩ := loadFrom_cons_ok loads
      exact ih hrest ((DeclaredNames.declares_add contribution name).2 (.inl declares))

theorem RangeValue.assign_low (type : RangeType) :
    type.default.assign type.low = .ok type.default := by
  unfold RangeValue.assign
  rw [if_pos]
  · rfl
  · exact Interval.contains_iff.2 ⟨Int64.le_refl _, type.interval.low_le_high⟩

theorem Scope.declareVar_range {scope : Scope} (overwrites : scope.policy = .overwrite)
    (name : String) {low high : Int64} (ordered : low ≤ high) {initial : Option Literal}
    (starts : initial = none ∨ initial = some (.number low)) (store : Store) :
    ∃ after, Build.run (scope.declareVar name (.range low high) initial) store =
      (.ok (), after) := by
  obtain ⟨built, hlow, hbuilt⟩ := TypeExpr.run_elaborate_range scope none ordered .dummy store
  have hinitial : Build.run (scope.initialValue initial (Ty.range built).default)
      { store with nextType := store.nextType + 1 } =
      (.ok (.range built.default), { store with nextType := store.nextType + 1 }) := by
    rcases starts with rfl | rfl
    · rfl
    · rw [← hlow]
      simp only [Scope.initialValue, Literal.applyTo]
      rw [Build.run_locate_eq_ok]
      simp [Ty.default, Value.assignInt, RangeValue.assign_low, Build.ofExcept]
  exact ⟨_, (scope.run_declareVar_eq_ok).2
    ⟨_, _, _, _, hbuilt, hinitial, by simp [overwrites], rfl⟩⟩

theorem Decl.declare_range {scope : Scope} (overwrites : scope.policy = .overwrite)
    (name : String) {low high : Int64} (ordered : low ≤ high) {decl : Decl}
    (range : decl ∈ [Decl.var name (.range low high) none,
      Decl.param name (.range low high) (some (.number low))]) (store : Store) :
    ∃ contribution after, Build.run (decl.declare scope) store = (.ok contribution, after) ∧
      contribution.declared? = some name := by
  rw [List.mem_pair] at range
  rcases range with rfl | rfl
  · obtain ⟨after, hdeclare⟩ := Scope.declareVar_range overwrites name ordered (.inl rfl) store
    exact ⟨.var name, after, (Decl.run_declare_var ..).2 ⟨rfl, hdeclare⟩, rfl⟩
  · obtain ⟨after, hdeclare⟩ := Scope.declareVar_range overwrites name ordered (.inr rfl) store
    exact ⟨.param name, after, (Decl.run_declare_param ..).2 ⟨rfl, hdeclare⟩, rfl⟩

/-- The names of a module that loads are in step with its frame. A declared name
stays declared, and no expression of a later declaration moves it, but it may
itself have taken the place of a constant. -/
theorem loadIn_inStep {σ : Type} [RuleSink σ] (parent : Option Scope) (policy : Redefinition)
    (decls : List Decl) (sink sinkAfter : σ) (store after : Store) (loaded : LoadedModule)
    (loads : loadIn parent policy decls sink store = ⟨.ok loaded, sinkAfter, after⟩) :
    loaded.InStep store after (decls.flatMap Decl.eithers) ∧
    (∀ before decl rest, decls = before ++ decl :: rest → ∃ earlier sinkMiddle middle,
      loadIn parent policy before sink store = ⟨.ok earlier, sinkMiddle, middle⟩ ∧
      ∀ name, earlier.names.Declares name →
        loaded.names.Declares name ∧
        ∀ expression label built last, decl.expression? = some expression →
          Build.run (expression.elaborate earlier.scope label) middle = (.ok built, last) →
          earlier.scope.localVar? last name = earlier.scope.localVar? middle name ∧
            earlier.scope.localValue? last name = earlier.scope.localValue? middle name) ∧
    (policy = .overwrite → ∀ name tag,
      loaded.scope.localValue? after name = some (.tag tag) → ∀ low high, low ≤ high →
        ∀ decl ∈ [Decl.var name (.range low high) none,
            Decl.param name (.range low high) (some (.number low))],
          ∃ later sinkLater last,
            loadIn parent policy (decls ++ [decl]) sink store = ⟨.ok later, sinkLater, last⟩ ∧
            later.names.Declares name) := by
  refine ⟨(loadIn_tracks loads).inStep (loadIn_constantsSince loads), ?_, ?_⟩
  · rintro before decl rest rfl
    obtain ⟨earlier, sinkMiddle, middle, hearlier, hlater⟩ := loadIn_split loads
    refine ⟨earlier, sinkMiddle, middle, hearlier, fun name declares => ⟨?_, ?_⟩⟩
    · exact loadFrom_declares hlater declares
    · intro expression label built last _ elaborates
      have htracks := loadIn_tracks hearlier
      exact expression.elaborate_keeps htracks.settled label elaborates
        ((htracks.declared name).1 declares)
  · intro overwrites name tag _ low high ordered decl hdecl
    have hpolicy : loaded.scope.policy = .overwrite := by rw [loadIn_scope loads, overwrites]
    obtain ⟨contribution, last, hdeclare, hname⟩ :=
      Decl.declare_range hpolicy name ordered hdecl after
    exact ⟨_, _, _, loadIn_snoc loads hdeclare,
      (DeclaredNames.declares_add contribution name).2 (.inr hname)⟩

theorem loadIn_inStep_replaced :
    ∃ decls loaded after, decls = [.var "n" (.range 0 3) none,
        .type "T" (.either [⟨"A", none, .dummy⟩, ⟨"B", none, .dummy⟩]),
        .param "A" (.range 1 2) (some (.number 2))] ∧
      loadIn none .overwrite decls () {} = ⟨.ok loaded, (), after⟩ ∧
      loaded.names = ⟨["A"], ["n"]⟩ ∧ loaded.scope.localVarNames after = ["n", "A", "B"] ∧
      loaded.InStep {} after (decls.flatMap Decl.eithers) := by
  refine ⟨_, _, _, rfl, rfl, rfl, rfl, ?_⟩
  exact (loadIn_inStep none .overwrite _ () () {} _ _ rfl).1

end StateModel
