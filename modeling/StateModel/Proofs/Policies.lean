import StateModel.Proofs.Lockstep
import StateModel.Proofs.Values

/-!
Loads under the two policies on names bound twice. Where the strict load is not
refused a name, the lenient one is the same load; and it is refused none exactly
when no name is written to be bound twice.
-/
namespace StateModel

section

variable {scope : Scope}

theorem Scope.lockstep_declareVar (overwrites : scope.policy = .overwrite) (name : String)
    (type : TypeExpr) (initial : Option Literal) :
    Build.Lockstep scope (type.bindings ++ [.variable name])
      fun scope => scope.declareVar name type initial := by
  refine .bind (TypeExpr.traced_elaborate scope _ type (List.Subset.refl _) none)
    (TypeExpr.lockstep_elaborate overwrites type none) fun built _ => ?_
  refine .andThen (Build.Traced.initialValue initial built.fits_default.not_isTag)
    (fun _ => rfl) fun value content => ?_
  apply Build.Lockstep.bindNew overwrites
  simp [Act.binding?, content]

theorem Decl.lockstep_declare (overwrites : scope.policy = .overwrite) (decl : Decl) :
    Build.Lockstep scope decl.bindings fun scope => decl.declare scope := by
  refine Build.Lockstep.locate ?_ decl.span
  cases decl with
  | type name expression _ =>
      refine .bind (TypeExpr.traced_elaborate scope _ expression (List.Subset.refl _) _)
        (TypeExpr.lockstep_elaborate overwrites expression _) fun built _ => ?_
      have hbound : Build.Traced scope (fun _ => True) [.type name] (fun _ => True)
          (scope.bindType name built) := .bindType trivial
      refine .bindStill hbound (.bindType overwrites name built) fun _ _ => ?_
      exact .same fun _ => rfl
  | param name type initial _ =>
      cases initial with
      | none => exact .fail _
      | some literal =>
          refine .bindStill (scope.traced_declareVar name (List.Subset.refl type.eithers) _)
            (scope.lockstep_declareVar overwrites name type _) fun _ _ => ?_
          exact .same fun _ => rfl
  | var name type initial _ =>
      refine .bindStill (scope.traced_declareVar name (List.Subset.refl type.eithers) initial)
        (scope.lockstep_declareVar overwrites name type initial) fun _ _ => ?_
      exact .same fun _ => rfl
  | rule rule _ =>
      refine .andThen (rule.traced_requireIterable scope) (fun _ => ?_) fun _ _ => ?_
      · cases rule <;> rfl
      · exact .same fun _ => rfl
  | unknown => exact .fail _

end

/-- The same outcome, with the policy that the handle of the module keeps. -/
def LoadOutcome.withPolicy {σ : Type} (outcome : LoadOutcome σ) (policy : Redefinition) :
    LoadOutcome σ :=
  { outcome with result := outcome.result.map fun loaded =>
      { loaded with scope := loaded.scope.withPolicy policy } }

theorem loadFrom_lockstep {σ : Type} [RuleSink σ] {scope : Scope}
    (overwrites : scope.policy = .overwrite) (decls : List Decl) {store : Store}
    (settled : scope.Settled store) (names : DeclaredNames) (sink : σ) :
    (loadFrom scope names sink store decls =
        (loadFrom (scope.withPolicy .reject) names sink store decls).withPolicy .overwrite ∧
      ∀ loaded, (loadFrom scope names sink store decls).result = .ok loaded →
        scope.Fresh store (decls.flatMap Decl.bindings)) ∨
    ((∃ failure, (loadFrom (scope.withPolicy .reject) names sink store decls).result =
        .error failure ∧ failure.IsDuplicate) ∧
      ∀ loaded, (loadFrom scope names sink store decls).result = .ok loaded →
        ¬scope.Fresh store (decls.flatMap Decl.bindings)) := by
  induction decls generalizing store names sink with
  | nil =>
      refine .inl ⟨?_, fun _ _ => scope.fresh_nil store⟩
      have hscope : (scope.withPolicy .reject).withPolicy .overwrite = scope := by
        rw [← overwrites]
        rfl
      simp [loadFrom, LoadOutcome.withPolicy, Except.map, hscope]
  | cons decl rest ih =>
      obtain ⟨acts, hacts, -, hbound⟩ :=
        Decl.traced_declare scope (List.Subset.refl decl.eithers) store settled
      rw [loadFrom, loadFrom, List.flatMap_cons]
      rcases Decl.lockstep_declare overwrites decl store settled with
        ⟨hsame, hfresh⟩ | ⟨⟨failure, hfailure, hduplicate⟩, hstale⟩
      · rw [hsame] at hfresh ⊢
        rcases hrun : Build.run (decl.declare scope) store with ⟨_ | contribution, middle⟩
        · exact .inl ⟨rfl, by simp⟩
        · rw [hrun] at hacts hbound hfresh
          have hbindings := (hbound contribution rfl).1
          have hall := hacts.fresh_append settled.made (rest.flatMap Decl.bindings)
          rw [hbindings, and_iff_right (hfresh contribution rfl)] at hall
          rw [hall]
          exact ih (hacts.settled settled) _ _
      · rcases hstrict : Build.run (decl.declare (scope.withPolicy .reject)) store with
          ⟨other | contribution, after⟩
        · rw [hstrict] at hfailure
          cases hfailure
          refine .inr ⟨⟨failure, rfl, hduplicate⟩, fun loaded loads hfull => ?_⟩
          rcases hrun : Build.run (decl.declare scope) store with ⟨_ | contribution, middle⟩
          · simp [hrun] at loads
          · rw [hrun] at hacts hbound hstale
            rw [← (hbound contribution rfl).1] at hfull hstale
            exact hstale contribution rfl ((hacts.fresh_append settled.made _).1 hfull).1
        · simp [hstrict] at hfailure

theorem Scope.fresh_iff_nodup (store : Store) (outer : List FrameId) (policy : Redefinition)
    (bindings : List Binding) :
    (⟨store.frames.size, outer, policy⟩ : Scope).Fresh
        { store with frames := store.frames.push {} } bindings ↔
      (bindings.filterMap Binding.typeName?).Nodup ∧
        (bindings.filterMap Binding.varName?).Nodup := by
  have hframe : ({ store with frames := store.frames.push {} } : Store).frame
      store.frames.size = {} := by simp [Store.frame]
  constructor
  · exact fun fresh => ⟨fresh.types.1, fresh.vars.1⟩
  · rintro ⟨types, vars⟩
    constructor
    · rw [hframe]
      exact ⟨types, by simp⟩
    · rw [hframe]
      exact ⟨vars, by simp⟩

theorem LoadOutcome.ok_withPolicy {σ : Type} (outcome : LoadOutcome σ) (policy : Redefinition) :
    (∃ loaded, (outcome.withPolicy policy).result = .ok loaded) ↔
      ∃ loaded, outcome.result = .ok loaded := by
  obtain ⟨_ | loaded, _, _⟩ := outcome <;> simp [LoadOutcome.withPolicy, Except.map]

theorem loadIn_lockstep {σ : Type} [RuleSink σ] (parent : Option Scope) (decls : List Decl)
    (sink : σ) (store : Store) :
    (loadIn parent .overwrite decls sink store =
        (loadIn parent .reject decls sink store).withPolicy .overwrite ∧
      ∀ loaded, (loadIn parent .overwrite decls sink store).result = .ok loaded →
        ((decls.flatMap Decl.bindings).filterMap Binding.typeName?).Nodup ∧
          ((decls.flatMap Decl.bindings).filterMap Binding.varName?).Nodup) ∨
    ((∃ failure, (loadIn parent .reject decls sink store).result = .error failure ∧
        failure.IsDuplicate) ∧
      ∀ loaded, (loadIn parent .overwrite decls sink store).result = .ok loaded →
        ¬(((decls.flatMap Decl.bindings).filterMap Binding.typeName?).Nodup ∧
          ((decls.flatMap Decl.bindings).filterMap Binding.varName?).Nodup)) := by
  rw [← Scope.fresh_iff_nodup store ((parent.map Scope.frames).getD []) .overwrite]
  rw [loadIn_eq_load, loadIn_eq_load]
  exact loadFrom_lockstep rfl decls (Scope.settled_fresh store _ .overwrite) {} sink

/-- A strict load that is not refused a name is the lenient load, with the same
result or failure, rules and store. It ends well exactly when the lenient load
does and binds no type name and no variable name twice, where what that binds is
read off the declarations. -/
theorem loadIn_policies {σ : Type} [RuleSink σ] (parent : Option Scope) (decls : List Decl)
    (sink : σ) (store : Store) :
    ((∀ failure, (loadIn parent .reject decls sink store).result = .error failure →
        ¬failure.IsDuplicate) →
      loadIn parent .overwrite decls sink store =
        (loadIn parent .reject decls sink store).withPolicy .overwrite) ∧
    ((∃ loaded, (loadIn parent .reject decls sink store).result = .ok loaded) ↔
      (∃ loaded, (loadIn parent .overwrite decls sink store).result = .ok loaded) ∧
        ((decls.flatMap Decl.bindings).filterMap Binding.typeName?).Nodup ∧
        ((decls.flatMap Decl.bindings).filterMap Binding.varName?).Nodup) ∧
    ∀ loaded sinkAfter after,
      loadIn parent .overwrite decls sink store = ⟨.ok loaded, sinkAfter, after⟩ →
      ∃ acts, loaded.scope.Performs { store with frames := store.frames.push {} } acts after ∧
        acts.filterMap Act.binding? = decls.flatMap Decl.bindings := by
  refine ⟨fun allowed => ?_, ?_, fun _ _ _ => loadIn_performs⟩
  · rcases loadIn_lockstep parent decls sink store with
      ⟨hsame, -⟩ | ⟨⟨failure, hfailure, hduplicate⟩, -⟩
    · exact hsame
    · exact absurd hduplicate (allowed failure hfailure)
  · rcases loadIn_lockstep parent decls sink store with
      ⟨hsame, hnodup⟩ | ⟨⟨failure, hfailure, -⟩, htwice⟩
    · have hboth := LoadOutcome.ok_withPolicy (loadIn parent .reject decls sink store) .overwrite
      rw [← hsame] at hboth
      rw [← hboth]
      constructor
      · rintro ⟨loaded, hloaded⟩
        exact ⟨⟨loaded, hloaded⟩, hnodup loaded hloaded⟩
      · exact And.left
    · constructor
      · rintro ⟨loaded, hloaded⟩
        rw [hfailure] at hloaded
        cases hloaded
      · rintro ⟨⟨loaded, hloaded⟩, hnodup⟩
        exact absurd hnodup (htwice loaded hloaded)

end StateModel
