import StateModel.Load
import StateModel.Proofs.Written

/-!
Traces of loads. Elaborations, declarations and loads perform runs of acts, and
those that end well have bound just what they are written to bind.
-/
namespace StateModel

/-- From any settled store the work performs a run of permitted acts, and when it
ends well it has made just the given bindings. -/
def Build.Traced {α : Type} (scope : Scope) (permitted : Act → Prop) (bindings : List Binding)
    (post : α → Prop) (work : Build α) : Prop :=
  ∀ store, scope.Settled store → ∃ acts,
    scope.Performs store acts (Build.run work store).2 ∧ (∀ act ∈ acts, permitted act) ∧
    ∀ result, (Build.run work store).1 = .ok result →
      acts.filterMap Act.binding? = bindings ∧ post result

namespace Build.Traced

variable {α β : Type} {scope : Scope} {permitted : Act → Prop} {bindings more : List Binding}
  {post : α → Prop} {postNext : β → Prop}

theorem pure {result : α} (holds : post result) :
    Build.Traced scope permitted [] post (pure result) := by
  intro store settled
  refine ⟨[], .done _, by simp, fun other hother => ⟨rfl, ?_⟩⟩
  rw [← Except.ok.inj hother]
  exact holds

theorem fail (problem : Problem) :
    Build.Traced scope permitted bindings post (Build.fail problem) :=
  fun _ _ => ⟨[], .done _, by simp, by simp⟩

theorem bind {work : Build α} {next : α → Build β}
    (first : Build.Traced scope permitted bindings post work)
    (rest : ∀ result, post result → Build.Traced scope permitted more postNext (next result)) :
    Build.Traced scope permitted (bindings ++ more) postNext (work >>= next) := by
  intro store settled
  obtain ⟨acts, hacts, hpermitted, hpost⟩ := first store settled
  rw [Build.run_bind]
  rcases hrun : Build.run work store with ⟨_ | result, middle⟩
  · rw [hrun] at hacts
    exact ⟨acts, hacts, hpermitted, by simp⟩
  · rw [hrun] at hacts hpost
    obtain ⟨hbound, hresult⟩ := hpost result rfl
    obtain ⟨later, hlater, hpermittedLater, hpostNext⟩ :=
      rest result hresult middle (hacts.settled settled)
    refine ⟨acts ++ later, hacts.append hlater,
      List.forall_mem_append.2 ⟨hpermitted, hpermittedLater⟩, fun final hfinal => ?_⟩
    obtain ⟨hboundLater, hlast⟩ := hpostNext final hfinal
    exact ⟨by rw [List.filterMap_append, hbound, hboundLater], hlast⟩

theorem bindStill {work : Build α} {next : α → Build β}
    (first : Build.Traced scope permitted bindings post work)
    (rest : ∀ result, post result → Build.Traced scope permitted [] postNext (next result)) :
    Build.Traced scope permitted bindings postNext (work >>= next) := by
  have hall := first.bind rest
  rwa [List.append_nil] at hall

theorem locate {work : Build α} (traced : Build.Traced scope permitted bindings post work)
    (span : Span) : Build.Traced scope permitted bindings post (Build.locate span work) := by
  intro store settled
  obtain ⟨acts, hacts, hpermitted, hpost⟩ := traced store settled
  refine ⟨acts, hacts, hpermitted, fun result hresult => hpost result ?_⟩
  rw [Build.run_locate] at hresult
  exact Build.mapError_eq_ok.1 hresult

theorem look {work : Build α} (still : ∀ store, (Build.run work store).2 = store)
    (holds : ∀ store result, (Build.run work store).1 = .ok result → post result) :
    Build.Traced scope permitted [] post work := by
  intro store settled
  refine ⟨[], ?_, by simp, fun result hresult => ⟨rfl, holds store result hresult⟩⟩
  rw [still store]
  exact .done store

theorem refuse {condition : Prop} [Decidable condition] {refusal : Build Unit}
    {next : Unit → Build α}
    (refuses : Build.Traced scope permitted [] (fun _ => False) refusal)
    (rest : Build.Traced scope permitted bindings post (next ())) :
    Build.Traced scope permitted bindings post
      (if condition then refusal >>= next else next ()) := by
  split
  · exact refuses.bind fun _ impossible => impossible.elim
  · exact rest

theorem header {name : Option String} {span : Span} (numbers : permitted .number) :
    Build.Traced scope permitted [] (fun _ => True) (Store.newHeader name span) :=
  fun _ _ => ⟨[.number], .single (by simp [Act.Allowed]), by simpa using numbers,
    by simp [Act.binding?]⟩

theorem bindType {name : String} {built : Ty} (types : permitted (.type name built)) :
    Build.Traced scope permitted [.type name] (fun _ => True) (scope.bindType name built) := by
  intro store settled
  rw [Scope.run_bindType]
  dsimp only
  split
  · exact ⟨[], .done _, by simp, by simp⟩
  · exact ⟨[.type name built], .single (by simp [Act.Allowed]), by simpa using types,
      by simp [Act.binding?]⟩

end Build.Traced

/-- A name is bound together with its cell, so a refusal leaves the cell spare. -/
theorem Scope.run_bindNew (scope : Scope) (name : String) (value : Value) (store : Store) :
    Build.run (do scope.bindVar name (← Store.newCell value)) store =
      if scope.policy = .reject ∧ scope.hasLocalVar store name = true then
        (.error { problem := .duplicateDeclaration name }, (Act.spare value).apply scope store)
      else
        (.ok (), (Act.bind name value).apply scope store) := by
  rw [Build.run_bind, Store.run_newCell]
  exact scope.run_bindVar name store.cells.size _

theorem Build.Traced.bindVariable {scope : Scope} {permitted : Act → Prop} {name : String}
    {value : Value} (content : value.isTag = false) (spares : permitted (.spare value))
    (binds : permitted (.bind name value)) :
    Build.Traced scope permitted [.variable name] (fun _ => True)
      (do scope.bindVar name (← Store.newCell value)) := by
  have hallowed : ∀ store, (Act.bind name value).Allowed scope store := by
    rintro store other tag same
    cases same
    simp [Value.isTag] at content
  intro store settled
  rw [Scope.run_bindNew]
  split
  · exact ⟨[.spare value], .single (by simp [Act.Allowed]), by simpa using spares, by simp⟩
  · exact ⟨[.bind name value], .single (hallowed store), by simpa using binds,
      by simp [Act.binding?, content]⟩

namespace Scope

variable {scope : Scope} {store : Store}

theorem run_requireConstantOrFree_store (scope : Scope) (name : String) (store : Store) :
    (Build.run (scope.requireConstantOrFree name) store).2 = store := by
  rw [run_requireConstantOrFree]
  split <;> rfl

theorem requireConstantOrFree_iff (scope : Scope) (name : String) (store : Store) :
    (Build.run (scope.requireConstantOrFree name) store).1 = .ok () ↔
      ¬scope.HoldsVariable store name := by
  rw [run_requireConstantOrFree]
  unfold HoldsVariable
  rcases scope.localValue? store name with _ | value
  · simp
  · cases value <;> simp [Value.isTag]

theorem requireAllConstantOrFree (scope : Scope) (tags : List Tag) (store : Store) :
    (Build.run (tags.forM fun tag => scope.requireConstantOrFree tag.name) store).2 = store ∧
      ((Build.run (tags.forM fun tag => scope.requireConstantOrFree tag.name) store).1 = .ok () ↔
        ∀ tag ∈ tags, ¬scope.HoldsVariable store tag.name) := by
  induction tags with
  | nil => exact ⟨rfl, by simp [List.forM_nil]⟩
  | cons tag rest ih =>
      have hstore := scope.run_requireConstantOrFree_store tag.name store
      have hfree := scope.requireConstantOrFree_iff tag.name store
      rw [Build.run_forM_cons, List.forall_mem_cons]
      rcases hrun : Build.run (scope.requireConstantOrFree tag.name) store with ⟨_ | _, after⟩
      · rw [hrun] at hstore hfree
        refine ⟨hstore, ?_⟩
        simp only [reduceCtorEq, false_iff] at hfree ⊢
        exact fun free => hfree free.1
      · rw [hrun] at hstore hfree
        cases hstore
        rw [and_iff_right (hfree.1 rfl)]
        exact ih

theorem allowed_bind_tag {tag : Tag} (free : ¬scope.HoldsVariable store tag.name) :
    (Act.bind tag.name (.tag tag)).Allowed scope store := by
  rintro name other same
  cases same
  exact free

theorem holdsVariable_bind_tag (settled : scope.Settled store) {tag : Tag}
    (free : ¬scope.HoldsVariable store tag.name) (name : String) :
    scope.HoldsVariable ((Act.bind tag.name (.tag tag)).apply scope store) name ↔
      scope.HoldsVariable store name := by
  rw [Act.holdsVariable_apply settled (allowed_bind_tag free)]
  simp [Act.binding?, Value.isTag]

theorem traced_bindConstant (eithers : List (List VariantDecl)) (tags : List Tag)
    (written : ∀ tag ∈ tags, tag.WrittenIn eithers) (settled : scope.Settled store)
    (free : ∀ tag ∈ tags, ¬scope.HoldsVariable store tag.name) :
    ∃ acts, scope.Performs store acts (Build.run (tags.forM scope.bindConstant) store).2 ∧
      (∀ act ∈ acts, act.Written eithers) ∧
      ((Build.run (tags.forM scope.bindConstant) store).1 = .ok () →
        acts.filterMap Act.binding? = tags.map fun tag => .constant tag.name) := by
  induction tags generalizing store with
  | nil => exact ⟨[], .done _, by simp, by simp⟩
  | cons tag rest ih =>
      have hrun : Build.run (scope.bindConstant tag) store = _ :=
        scope.run_bindNew tag.name (.tag tag) store
      have hown := free tag List.mem_cons_self
      have hact : (Act.bind tag.name (.tag tag)).Written eithers := by
        rintro name other same
        cases same
        exact ⟨rfl, written tag List.mem_cons_self⟩
      rw [Build.run_forM_cons, hrun]
      split_ifs with refused
      · -- The cell of a name that is refused was made before the refusal.
        exact ⟨[.spare (.tag tag)], .single (by simp [Act.Allowed]), by simp [Act.Written], by simp⟩
      · have hbinding : (Act.bind tag.name (.tag tag)).binding? = some (.constant tag.name) := rfl
        have hfree : ∀ other ∈ rest, ¬scope.HoldsVariable
            ((Act.bind tag.name (.tag tag)).apply scope store) other.name := by
          intro other hother
          rw [holdsVariable_bind_tag settled hown]
          exact free other (List.mem_cons_of_mem _ hother)
        obtain ⟨acts, hacts, hwritten, hbound⟩ := ih
          (fun other hother => written other (List.mem_cons_of_mem _ hother))
          (Act.settled_apply settled) hfree
        refine ⟨_ :: acts, .act (allowed_bind_tag hown) hacts,
          List.forall_mem_cons.2 ⟨hact, hwritten⟩, fun succeeds => ?_⟩
        rw [List.filterMap_cons_some hbinding, hbound succeeds, List.map_cons]

end Scope

theorem Build.Traced.bindConstants {scope : Scope} {eithers : List (List VariantDecl)}
    {type : EitherType} {variants : List VariantDecl} (written : type.WrittenAs variants)
    (inside : variants ∈ eithers) :
    Build.Traced scope (Act.Written eithers) (VariantDecl.bindings variants) (fun _ => True)
      (scope.bindConstants type) := by
  intro store settled
  have hwritten : ∀ tag ∈ type.constants, tag.WrittenIn eithers := by
    intro tag htag
    obtain ⟨hmem, hconstant⟩ := List.mem_filter.1 htag
    obtain ⟨index, rfl⟩ := List.mem_ofFn.1 hmem
    exact ⟨hconstant, variants, inside, written⟩
  obtain ⟨hstore, hfree⟩ := scope.requireAllConstantOrFree type.constants store
  unfold Scope.bindConstants
  rw [Build.run_bind]
  rcases hrun : Build.run (type.constants.forM fun tag =>
      scope.requireConstantOrFree tag.name) store with ⟨_ | _, after⟩
  · rw [hrun] at hstore
    cases hstore
    exact ⟨[], .done _, by simp, by simp⟩
  · rw [hrun] at hstore hfree
    cases hstore
    obtain ⟨acts, hacts, hpermitted, hbound⟩ :=
      Scope.traced_bindConstant eithers type.constants hwritten settled (hfree.1 rfl)
    refine ⟨acts, hacts, hpermitted, fun _ succeeds => ⟨?_, trivial⟩⟩
    rw [hbound succeeds, written.names_constants]

end StateModel
