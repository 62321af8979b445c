import StateModel.Proofs.Unplaced

/-!
Places are for diagnostics only. Declarations that differ in nothing but where they stand
are loaded alike: the same names with the same meanings come out, or the same problem,
and the rules that are handed on are the same but for their places.
-/
namespace StateModel

theorem loadIn_unplaced (parent : Option Scope) (policy : Redefinition) (decls : List Decl)
    (store : Store) :
    ∃ result rules after, ∀ {σ : Type} [RuleSink σ] (sink : σ),
      loadIn parent policy decls sink store =
        ⟨result, RuleSink.acceptAll sink rules, after⟩ ∧
      loadIn parent policy (decls.map (·.relabel .unplaced)) sink store.unplaced =
        ⟨result.mapError Failure.unplaced,
          RuleSink.acceptAll sink (rules.map (·.relabel .unplaced)), after.unplaced⟩ := by
  let scope : Scope := ⟨store.frames.size, (parent.map Scope.frames).getD [], policy⟩
  have hopened : { store.unplaced with frames := store.unplaced.frames.push {} } =
      ({ store with frames := store.frames.push {} } : Store).unplaced := by
    rw [Store.unplaced, Store.unplaced, Array.map_push]
    rfl
  have hsize : store.unplaced.frames.size = store.frames.size := Array.size_map
  obtain ⟨result, rules, after, _, rfl, hloads⟩ :=
    loadFrom_paired (Simulation.unplaced scope) rfl {} decls
  refine ⟨result, rules, after, fun sink => ?_⟩
  obtain ⟨hfirst, hsecond⟩ := hloads sink
  rw [loadIn_eq_load, loadIn_eq_load, hsize, hopened, load, load]
  refine ⟨hfirst, hsecond.trans ?_⟩
  cases result with
  | error failure => rfl
  | ok loaded =>
      have hscope : loaded.scope = scope := loadFrom_scope hfirst
      rw [← hscope]
      rfl

structure Ty.SamePlacesAside (type other : Ty) : Prop where
  content : type.relabel .unplaced = other.relabel .unplaced
  name : type.name = other.name
  text : type.text = other.text

structure Value.SamePlacesAside (value other : Value) : Prop where
  content : value.relabel .unplaced = other.relabel .unplaced
  text : value.text = other.text
  bareText : value.bareText = other.bareText

theorem Ty.samePlacesAside_of_relabel {type other : Ty}
    (same : type.relabel .unplaced = other.relabel .unplaced) : type.SamePlacesAside other where
  content := same
  name := by rw [← Ty.name_relabel .unplaced type, same, Ty.name_relabel]
  text := by rw [← Ty.text_relabel .unplaced type, same, Ty.text_relabel]

theorem Value.samePlacesAside_of_relabel {value other : Value}
    (same : value.relabel .unplaced = other.relabel .unplaced) :
    value.SamePlacesAside other where
  content := same
  text := by rw [← Value.text_relabel .unplaced value, same, Value.text_relabel]
  bareText := by rw [← Value.bareText_relabel .unplaced value, same, Value.bareText_relabel]

structure Scope.SamePlacesAside (scope : Scope) (store other : Store) : Prop where
  varNames : scope.localVarNames store = scope.localVarNames other
  typeNames : (store.frame scope.frame).types.names = (other.frame scope.frame).types.names
  type : ∀ name, Option.Rel Ty.SamePlacesAside ((store.frame scope.frame).types.find? name)
    ((other.frame scope.frame).types.find? name)
  value : ∀ name, Option.Rel Value.SamePlacesAside (scope.localValue? store name)
    (scope.localValue? other name)

/-- Two loads that come to the same, places aside: both end well, with the same names and
with the same under each of them, or both fail, and with the same problem. -/
def LoadOutcome.SamePlacesAside {σ τ : Type} (first : LoadOutcome σ) (second : LoadOutcome τ) :
    Prop :=
  first.store.unplaced = second.store.unplaced ∧
    match first.result, second.result with
    | .ok loaded, .ok other =>
        loaded.names.params = other.names.params ∧ loaded.names.vars = other.names.vars ∧
        loaded.scope = other.scope ∧ loaded.scope.SamePlacesAside first.store second.store
    | .error failure, .error other => failure.problem = other.problem
    | .ok _, .error _ | .error _, .ok _ => False

theorem rel_of_map_eq {α β : Type} {image : α → β} {related : α → α → Prop}
    (relates : ∀ item other, image item = image other → related item other)
    {found other : Option α} (same : found.map image = other.map image) :
    Option.Rel related found other := by
  cases found with
  | none =>
      cases other with
      | none => exact .none
      | some other => cases same
  | some item =>
      cases other with
      | none => cases same
      | some other => exact .some (relates item other (Option.some.inj same))

theorem Scope.samePlacesAside_of_unplaced {store other : Store}
    (same : store.unplaced = other.unplaced) (scope : Scope) :
    scope.SamePlacesAside store other := by
  have hframe : (store.frame scope.frame).unplaced = (other.frame scope.frame).unplaced := by
    rw [← Store.frame_unplaced, same, Store.frame_unplaced]
  have htypes : (store.frame scope.frame).types.map (·.relabel .unplaced) =
      (other.frame scope.frame).types.map (·.relabel .unplaced) := congrArg Frame.types hframe
  refine ⟨?varNames, ?typeNames, fun name => ?type, fun name => ?value⟩
  case varNames => rw [← localVarNames_unplaced, same, localVarNames_unplaced]
  case typeNames =>
    rw [← Bindings.names_map (·.relabel .unplaced), htypes, Bindings.names_map]
  case type =>
    refine rel_of_map_eq (fun _ _ => Ty.samePlacesAside_of_relabel) ?_
    rw [← Bindings.find?_map, htypes, Bindings.find?_map]
  case value =>
    refine rel_of_map_eq (fun _ _ => Value.samePlacesAside_of_relabel) ?_
    rw [← localValue?_unplaced, same, localValue?_unplaced]

theorem LoadOutcome.samePlacesAside_of_unplaced {σ τ : Type} {first : LoadOutcome σ}
    {second : LoadOutcome τ}
    (results : first.result.mapError Failure.unplaced = second.result.mapError Failure.unplaced)
    (stores : first.store.unplaced = second.store.unplaced) : first.SamePlacesAside second := by
  obtain ⟨result, sink, after⟩ := first
  obtain ⟨other, otherSink, otherAfter⟩ := second
  refine ⟨stores, ?_⟩
  cases result with
  | ok loaded =>
      cases other with
      | error => cases results
      | ok otherLoaded =>
          cases results
          exact ⟨rfl, rfl, rfl, Scope.samePlacesAside_of_unplaced stores loaded.scope⟩
  | error failure =>
      cases other with
      | ok => cases results
      | error otherFailure =>
          injection results with hfailure
          have hproblem := congrArg Failure.problem hfailure
          exact hproblem

/-- Modules that differ in nothing but spans are loaded alike. In the same parent and
under the same policy either both fail, with the same problem, or neither does, and then
they bind the same names to the same types and values. In both cases they hand on the
same rules. Spans are kept in all of these, and matter to none. -/
theorem loadIn_places_aside {decls others : List Decl}
    (alike : decls.map (·.relabel .unplaced) = others.map (·.relabel .unplaced))
    (parent : Option Scope) (policy : Redefinition) (store : Store) :
    (∃ rules otherRules : List Rule,
      rules.map (·.relabel .unplaced) = otherRules.map (·.relabel .unplaced) ∧
      ∀ {σ : Type} [RuleSink σ] (sink : σ),
        (loadIn parent policy decls sink store).sink = RuleSink.acceptAll sink rules ∧
        (loadIn parent policy others sink store).sink = RuleSink.acceptAll sink otherRules) ∧
    ∀ {σ τ : Type} [RuleSink σ] [RuleSink τ] (sink : σ) (otherSink : τ),
      (loadIn parent policy decls sink store).SamePlacesAside
        (loadIn parent policy others otherSink store) := by
  obtain ⟨result, rules, after, hloads⟩ := loadIn_unplaced parent policy decls store
  obtain ⟨other, otherRules, otherAfter, hothers⟩ := loadIn_unplaced parent policy others store
  have hsame := (hloads ({} : RuleBuffer)).2
  rw [alike, (hothers ({} : RuleBuffer)).2, RuleBuffer.acceptAll, RuleBuffer.acceptAll] at hsame
  obtain ⟨hresult, hrules, hafter⟩ := LoadOutcome.mk.inj hsame
  refine ⟨⟨rules, otherRules, (RuleBuffer.mk.inj hrules).symm, fun sink => ?_⟩,
    fun sink otherSink => ?_⟩
  · rw [(hloads sink).1, (hothers sink).1]
    exact ⟨rfl, rfl⟩
  · rw [(hloads sink).1, (hothers otherSink).1]
    exact LoadOutcome.samePlacesAside_of_unplaced hresult.symm hafter.symm

theorem loadIn_places_aside_written :
    ∃ (written built : List Decl) (loaded other : LoadedModule)
        (first second third fourth : LoadOutcome RuleBuffer),
      written = [.type "Mode" (.either [⟨"On", none, ⟨14, 16⟩⟩, ⟨"Off", none, ⟨18, 21⟩⟩] ⟨12, 23⟩)
          ⟨0, 23⟩, .var "mode" (.alias "Mode" ⟨34, 38⟩) (some (.ident "Off" ⟨41, 44⟩)) ⟨24, 44⟩,
        .rule (.each "flip" "i" "mode" ⟨"next(i)", ⟨62, 69⟩⟩) ⟨45, 71⟩] ∧
      built = [.type "Mode" (.either [⟨"On", none, .dummy⟩, ⟨"Off", none, .dummy⟩]),
        .var "mode" (.alias "Mode") (some (.ident "Off")),
        .rule (.each "flip" "i" "mode" ⟨"next(i)", .dummy⟩)] ∧
      written.map (·.relabel .unplaced) = built.map (·.relabel .unplaced) ∧
      first = loadIn none .reject written {} {} ∧ second = loadIn none .reject built {} {} ∧
      first.result = .ok loaded ∧ second.result = .ok other ∧
      first.sink.rules = [.each "flip" "i" "mode" ⟨"next(i)", ⟨62, 69⟩⟩] ∧
      second.sink.rules = [.each "flip" "i" "mode" ⟨"next(i)", .dummy⟩] ∧
      (loaded.scope.localValue? first.store "mode").map Value.text = some "Off" ∧
      first.SamePlacesAside second ∧
      third = loadIn none .reject (written ++ [.unknown "import" ⟨72, 80⟩]) {} {} ∧
      fourth = loadIn none .reject (built ++ [.unknown "import"]) {} {} ∧
      third.result = .error ⟨.unknownDeclarationKind "import", some ⟨72, 80⟩⟩ ∧
      fourth.result = .error ⟨.unknownDeclarationKind "import", none⟩ ∧
      third.SamePlacesAside fourth := by
  refine ⟨_, _, _, _, _, _, _, _, rfl, rfl, ?same, rfl, rfl, rfl, rfl, rfl, rfl, rfl, ?loaded,
    rfl, rfl, rfl, rfl, ?failed⟩
  case same => rfl
  case loaded =>
    refine (loadIn_places_aside ?_ none .reject {}).2 ({} : RuleBuffer) ({} : RuleBuffer)
    rfl
  case failed =>
    refine (loadIn_places_aside ?_ none .reject {}).2 ({} : RuleBuffer) ({} : RuleBuffer)
    rfl

end StateModel
