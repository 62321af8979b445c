import StateModel.Load
import StateModel.Proofs.Mutation

/-!
Catalogs grow. Whatever declarations do to a store that a catalog covers, a
larger catalog covers what they leave behind, whether they end well or not, and
it knows every type that they built or looked up on the way.
-/
namespace StateModel

/-- From any store that the catalog covers, the work leads to one that a larger
catalog covers, and its result is known there. -/
def Build.Grows {α : Type} (catalog : Catalog) (known : Catalog → α → Prop)
    (work : Build α) : Prop :=
  ∀ store, catalog.Covers store → ∃ larger : Catalog, catalog <+: larger ∧
    larger.Covers (Build.run work store).2 ∧
    ∀ result, (Build.run work store).1 = .ok result → known larger result

namespace Build.Grows

variable {α β : Type} {catalog : Catalog} {known : Catalog → α → Prop}
  {knownNext : Catalog → β → Prop}

theorem pure {result : α} (holds : known catalog result) :
    Build.Grows catalog known (pure result) := by
  intro store covers
  refine ⟨catalog, List.prefix_rfl, covers, fun other hother => ?_⟩
  rw [← Except.ok.inj hother]
  exact holds

theorem fail (problem : Problem) : Build.Grows catalog known (Build.fail problem) :=
  fun _ covers => ⟨catalog, List.prefix_rfl, covers, by simp⟩

theorem bind {work : Build α} {next : α → Build β} (first : Build.Grows catalog known work)
    (rest : ∀ (larger : Catalog) result, catalog <+: larger → known larger result →
      Build.Grows larger knownNext (next result)) :
    Build.Grows catalog knownNext (work >>= next) := by
  intro store covers
  obtain ⟨middle, hmiddle, hcovers, hknown⟩ := first store covers
  rw [Build.run_bind]
  rcases hrun : Build.run work store with ⟨_ | result, after⟩
  · rw [hrun] at hcovers
    exact ⟨middle, hmiddle, hcovers, by simp⟩
  · rw [hrun] at hcovers hknown
    obtain ⟨larger, hlarger, hafter, hresult⟩ :=
      rest middle result hmiddle (hknown result rfl) after hcovers
    exact ⟨larger, hmiddle.trans hlarger, hafter, hresult⟩

theorem locate {work : Build α} (grows : Build.Grows catalog known work) (span : Span) :
    Build.Grows catalog known (Build.locate span work) := by
  intro store covers
  obtain ⟨larger, hlarger, hcovers, hknown⟩ := grows store covers
  refine ⟨larger, hlarger, hcovers, fun result hresult => hknown result ?_⟩
  rw [Build.run_locate] at hresult
  exact Build.mapError_eq_ok.1 hresult

theorem forM {items : List α} {work : α → Build Unit}
    (grows : ∀ item ∈ items, ∀ larger : Catalog, catalog <+: larger →
      Build.Grows larger (fun _ _ => True) (work item)) :
    Build.Grows catalog (fun _ _ => True) (items.forM work) := by
  induction items generalizing catalog with
  | nil => exact pure trivial
  | cons item rest ih =>
      refine bind (grows item (by simp) catalog List.prefix_rfl) fun larger _ hlarger _ => ?_
      exact ih fun other hother wider hwider =>
        grows other (by simp [hother]) wider (hlarger.trans hwider)

theorem header {next : Header → Build α} {name : Option String} {span : Span}
    (type : TypeId → Ty) (numbered : ∀ id, (type id).id = id)
    (inner : ∀ id, ∀ part ∈ (type id).parts, part ≠ type id →
      ∃ whole, catalog.Knows whole ∧ part ∈ whole.parts)
    (proper : ∀ id, (type id).Proper)
    (rest : ∀ id (larger : Catalog), catalog <+: larger → larger.Knows (type id) →
      Build.Grows larger known (next ⟨id, name, span⟩)) :
    Build.Grows catalog known (Store.newHeader name span >>= next) := by
  intro store covers
  obtain ⟨hcovers, hknows⟩ := covers.number (numbered store.nextType)
    (fun part hpart hne => by
      obtain ⟨whole, hwhole, hinside⟩ := inner _ part hpart hne
      exact covers.sound.knows_part hwhole hinside)
    (proper _)
  obtain ⟨larger, hlarger, hafter, hknown⟩ :=
    rest _ _ (List.prefix_append ..) hknows _ hcovers
  rw [Build.run_bind, Store.run_newHeader]
  exact ⟨larger, (List.prefix_append ..).trans hlarger, hafter, hknown⟩

theorem refuse {condition : Prop} [Decidable condition] {refusal : Build Unit}
    {next : Unit → Build α} (refuses : Build.Grows catalog (fun _ _ => False) refusal)
    (rest : ¬condition → Build.Grows catalog known (next ())) :
    Build.Grows catalog known (if condition then refusal >>= next else next ()) := by
  split
  · exact refuses.bind fun _ _ _ impossible => impossible.elim
  · next refused => exact rest refused

theorem ofExcept {result : Except Problem α}
    (holds : ∀ value, result = .ok value → known catalog value) :
    Build.Grows catalog known (Build.ofExcept result) := by
  cases result with
  | error problem => exact fail problem
  | ok value => exact pure (holds value rfl)

theorem newCell {value : Value} (holds : catalog.Holds value) :
    Build.Grows catalog (fun _ _ => True) (Store.newCell value) :=
  fun _ covers => ⟨catalog, List.prefix_rfl, covers.newCell holds, fun _ _ => trivial⟩

variable {scope : Scope} {name : String}

theorem resolveType : Build.Grows catalog Catalog.Knows (scope.resolveType name) := by
  intro store covers
  rw [Scope.run_resolveType]
  cases found : scope.type? store name with
  | none => exact ⟨catalog, List.prefix_rfl, covers, by simp⟩
  | some type =>
      obtain ⟨frame, -, hframe⟩ := List.exists_of_findSome?_eq_some found
      refine ⟨catalog, List.prefix_rfl, covers, fun result hresult => ?_⟩
      rw [← Except.ok.inj hresult]
      exact covers.types frame name type hframe

theorem resolveValue : Build.Grows catalog Catalog.Holds (scope.resolveValue name) := by
  intro store covers
  rw [Scope.run_resolveValue]
  cases found : scope.value? store name with
  | none => exact ⟨catalog, List.prefix_rfl, covers, by simp⟩
  | some value =>
      obtain ⟨cell, -, hcell⟩ := Option.bind_eq_some_iff.1 found
      refine ⟨catalog, List.prefix_rfl, covers, fun result hresult => ?_⟩
      rw [← Except.ok.inj hresult]
      exact covers.cells cell value hcell

theorem resolveVar : Build.Grows catalog (fun _ _ => True) (scope.resolveVar name) := by
  intro store covers
  rw [Scope.run_resolveVar]
  split <;> exact ⟨catalog, List.prefix_rfl, covers, fun _ _ => trivial⟩

theorem bindType {type : Ty} (knows : catalog.Knows type) :
    Build.Grows catalog (fun _ _ => True) (scope.bindType name type) := by
  intro store covers
  rw [Scope.run_bindType]
  dsimp only
  split
  · exact ⟨catalog, List.prefix_rfl, covers, fun _ _ => trivial⟩
  · refine ⟨catalog, List.prefix_rfl, covers.setFrame _ fun other bound found => ?_,
      fun _ _ => trivial⟩
    by_cases same : other = name
    · subst same
      rw [Bindings.find?_put_self, Option.some.injEq] at found
      exact found ▸ knows
    · rw [Bindings.find?_put_of_ne _ _ same] at found
      exact covers.types _ other bound found

theorem bindVar {cell : CellId} :
    Build.Grows catalog (fun _ _ => True) (scope.bindVar name cell) := by
  intro store covers
  rw [Scope.run_bindVar]
  dsimp only
  split
  · exact ⟨catalog, List.prefix_rfl, covers, fun _ _ => trivial⟩
  · exact ⟨catalog, List.prefix_rfl,
      covers.setFrame _ fun other bound found => covers.types _ other bound found,
      fun _ _ => trivial⟩

theorem requireConstantOrFree :
    Build.Grows catalog (fun _ _ => True) (scope.requireConstantOrFree name) := by
  intro store covers
  rw [Scope.run_requireConstantOrFree]
  split <;> exact ⟨catalog, List.prefix_rfl, covers, fun _ _ => trivial⟩

theorem bindConstants {type : EitherType} (knows : catalog.Knows (.either type)) :
    Build.Grows catalog (fun _ _ => True) (scope.bindConstants type) := by
  refine bind (forM fun _ _ _ _ => requireConstantOrFree) fun larger _ hlarger _ => ?_
  refine forM fun tag htag wider hwider => ?_
  have hown : tag.either = type := by
    obtain ⟨index, rfl⟩ := List.mem_ofFn.1 (List.mem_of_mem_filter htag)
    rfl
  refine bind (newCell ⟨.inl rfl, ?_⟩) fun _ _ _ _ => bindVar
  change Catalog.Knows _ (.either tag.either)
  rw [hown]
  exact (knows.mono hlarger).mono hwider

end Build.Grows

end StateModel
