import Mathlib.Data.List.Nodup
import StateModel.Proofs.Declared

/-!
The declared names of a module and the names of its frame. The lists of
parameters and variables, the frame and its cells are written by different
steps, and this is what keeps them together: a name is declared exactly when its
cell holds a variable, and every other name is a constant that the module writes.
-/
namespace StateModel

namespace DeclaredNames

def Declares (names : DeclaredNames) (name : String) : Prop :=
  name ∈ names.params ∨ name ∈ names.vars

structure Distinct (names : DeclaredNames) : Prop where
  params : names.params.Nodup
  vars : names.vars.Nodup
  apart : ∀ name ∈ names.params, name ∉ names.vars

variable {names : DeclaredNames}

theorem nodup_put {list : List String} (distinct : list.Nodup) (name : String) :
    (if name ∈ list then list else list ++ [name]).Nodup := by
  split
  · exact distinct
  · next absent =>
    rw [← List.concat_eq_append]
    exact distinct.concat absent

theorem mem_put {list : List String} {name other : String} :
    other ∈ (if name ∈ list then list else list ++ [name]) ↔ other ∈ list ∨ other = name := by
  split
  · next present =>
    constructor
    · exact .inl
    · rintro (old | rfl)
      · exact old
      · exact present
  · simp

theorem Distinct.add (distinct : names.Distinct) (contribution : Contribution) :
    (names.add contribution).Distinct := by
  cases contribution with
  | type | rule => exact distinct
  | param name =>
      refine ⟨nodup_put distinct.params name, distinct.vars.filter _, fun other param var => ?_⟩
      obtain ⟨hvar, hother⟩ := List.mem_filter.1 var
      rcases mem_put.1 param with old | rfl
      · exact distinct.apart other old hvar
      · simp at hother
  | var name =>
      refine ⟨distinct.params.filter _, nodup_put distinct.vars name, fun other param var => ?_⟩
      obtain ⟨hparam, hother⟩ := List.mem_filter.1 param
      rcases mem_put.1 var with old | rfl
      · exact distinct.apart other hparam old
      · simp at hother

theorem declares_add (contribution : Contribution) (other : String) :
    (names.add contribution).Declares other ↔
      names.Declares other ∨ contribution.declared? = some other := by
  cases contribution with
  | type | rule => simp [add, Contribution.declared?]
  | param name =>
      simp only [Declares, add, addParam, mem_put, List.mem_filter, Contribution.declared?,
        decide_eq_true_eq, Option.some.injEq]
      by_cases same : other = name
      · simp [same]
      · simp [same, Ne.symm same]
  | var name =>
      simp only [Declares, add, addVar, mem_put, List.mem_filter, Contribution.declared?,
        decide_eq_true_eq, Option.some.injEq]
      by_cases same : other = name
      · simp [same]
      · simp [same, Ne.symm same]

end DeclaredNames

namespace Scope

/-- The declared names are the variables of the frame, and its constants are
among those written. -/
structure Tracks (scope : Scope) (store : Store) (names : DeclaredNames)
    (eithers : List (List VariantDecl)) : Prop where
  settled : scope.Settled store
  distinct : names.Distinct
  declared : ∀ name, names.Declares name ↔ scope.HoldsVariable store name
  constants : ∀ name tag, scope.localValue? store name = some (.tag tag) →
    tag.name = name ∧ tag.WrittenIn eithers

variable {scope : Scope} {store after : Store} {names : DeclaredNames}
  {eithers : List (List VariantDecl)}

theorem Tracks.declare (tracks : scope.Tracks store names eithers) {decl : Decl}
    (inside : decl.eithers ⊆ eithers) {contribution : Contribution}
    (declares : Build.run (decl.declare scope) store = (.ok contribution, after)) :
    scope.Tracks after (names.add contribution) eithers := by
  obtain ⟨acts, hacts, hwritten, hbound⟩ := Decl.traced_declare scope inside store tracks.settled
  rw [declares] at hacts hbound
  obtain ⟨hbindings, hdeclared⟩ := hbound contribution rfl
  refine ⟨hacts.settled tracks.settled, tracks.distinct.add contribution, fun name => ?_,
    fun name tag found => ?_⟩
  · rw [hacts.holdsVariable_iff tracks.settled, hbindings, Decl.variable_mem_bindings,
      DeclaredNames.declares_add, tracks.declared, hdeclared]
  · rcases hacts.localValue?_tag tracks.settled found with old | new
    · exact tracks.constants name tag old
    · exact hwritten _ new name tag rfl

theorem Tracks.loadFrom {σ : Type} [RuleSink σ] (tracks : scope.Tracks store names eithers)
    {decls : List Decl} (inside : decls.flatMap Decl.eithers ⊆ eithers) {sink sinkAfter : σ}
    {loaded : LoadedModule}
    (loads : loadFrom scope names sink store decls = ⟨.ok loaded, sinkAfter, after⟩) :
    loaded.scope.Tracks after loaded.names eithers := by
  induction decls generalizing names sink store with
  | nil =>
      cases loads
      exact tracks
  | cons decl rest ih =>
      rw [List.flatMap_cons, List.append_subset] at inside
      obtain ⟨contribution, middle, hdeclare, hrest⟩ := loadFrom_cons_ok loads
      exact ih (tracks.declare inside.1 hdeclare) inside.2 hrest

end Scope

/-! The frame of a module is fresh when its load starts. -/

section

variable (store : Store) (outer : List FrameId) (policy : Redefinition)

theorem Scope.localVar?_fresh (name : String) :
    (⟨store.frames.size, outer, policy⟩ : Scope).localVar?
      { store with frames := store.frames.push {} } name = none := by
  simp [Scope.localVar?, Store.frame]

theorem Scope.settled_fresh : (⟨store.frames.size, outer, policy⟩ : Scope).Settled
    { store with frames := store.frames.push {} } := by
  constructor
  · simp
  · simp [Scope.localVar?_fresh]

theorem Scope.tracks_fresh (eithers : List (List VariantDecl)) :
    (⟨store.frames.size, outer, policy⟩ : Scope).Tracks
      { store with frames := store.frames.push {} } {} eithers where
  settled := settled_fresh store outer policy
  distinct := by constructor <;> simp
  declared := by simp [HoldsVariable, localValue?, localVar?_fresh, DeclaredNames.Declares]
  constants := by simp [localValue?, localVar?_fresh]

end

theorem loadIn_tracks {σ : Type} [RuleSink σ] {parent : Option Scope} {policy : Redefinition}
    {decls : List Decl} {sink sinkAfter : σ} {store after : Store} {loaded : LoadedModule}
    (loads : loadIn parent policy decls sink store = ⟨.ok loaded, sinkAfter, after⟩) :
    loaded.scope.Tracks after loaded.names (decls.flatMap Decl.eithers) := by
  rw [loadIn_eq_load] at loads
  exact (Scope.tracks_fresh store _ policy _).loadFrom (List.Subset.refl _) loads

theorem Scope.mem_localVarNames {scope : Scope} {store : Store} {name : String} :
    name ∈ scope.localVarNames store ↔ ∃ cell, scope.localVar? store name = some cell := by
  unfold Scope.localVarNames Scope.localVar?
  rw [← Bindings.contains_iff, Bindings.contains, Option.isSome_iff_exists]

theorem TypeExpr.run_elaborate_range (scope : Scope) (label : Option String) {low high : Int64}
    (ordered : low ≤ high) (span : Span) (store : Store) :
    ∃ built : RangeType, built.low = low ∧
      Build.run ((TypeExpr.range low high span).elaborate scope label) store =
        (.ok (.range built), { store with nextType := store.nextType + 1 }) := by
  refine ⟨⟨⟨store.nextType, label, span⟩, ⟨low, high, ordered⟩⟩, rfl, ?_⟩
  rw [TypeExpr.elaborate, Build.run_locate, dif_pos ordered]
  rfl

end StateModel
