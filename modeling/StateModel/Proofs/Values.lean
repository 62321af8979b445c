import StateModel.Proofs.Names
import StateModel.Proofs.SessionRuns
import StateModel.Variable

/-!
The values of variables after a load. Each variable holds what its last
declaration computed, in a cell that no other name has and that no scope knew
before the load, so that nobody else sees a change of it.
-/
namespace StateModel

/-- What a variable starts with: its default, or what its literal makes of it. A
name means what the scope has at that moment, and its value is copied. -/
def Scope.Starts (scope : Scope) (store : Store) (initial : Option Literal)
    (default value : Value) : Prop :=
  match initial with
  | none => value = default
  | some (.number number _) => default.assignInt number = .ok value
  | some (.ident name _) =>
      ∃ source, scope.value? store name = some source ∧ default.assign source = .ok value

/-- The declaration gives the variable this value when it is taken in this store:
its constants are bound first, and the literal sees them. -/
def Decl.Computes (decl : Decl) (scope : Scope) (store : Store) (name : String)
    (value : Value) : Prop :=
  ∃ type initial built middle, decl.DeclaresVariable name type initial ∧
    Build.run (type.elaborate scope none) store = (.ok built, middle) ∧
    scope.Starts middle initial built.default value

section

variable {scope : Scope} {store after : Store}

theorem Build.run_ofExcept_eq_ok {α : Type} {result : Except Problem α} {value : α} :
    Build.run (Build.ofExcept result) store = (.ok value, after) ↔
      result = .ok value ∧ after = store := by
  cases result <;> simp [Build.ofExcept, eq_comm]

theorem Scope.run_initialValue_eq_ok {initial : Option Literal} {default value : Value} :
    Build.run (scope.initialValue initial default) store = (.ok value, after) ↔
      scope.Starts store initial default value ∧ after = store := by
  cases initial with
  | none => simp [Scope.initialValue, Scope.Starts, eq_comm]
  | some literal =>
      unfold Scope.initialValue Literal.applyTo
      rw [Build.run_locate_eq_ok]
      cases literal with
      | number number => exact Build.run_ofExcept_eq_ok
      | ident name =>
          rw [Build.run_bind_eq_ok]
          simp only [Scope.Starts, Scope.run_resolveValue]
          cases scope.value? store name with
          | none => simp
          | some source => simp [Build.run_ofExcept_eq_ok, and_comm, eq_comm (a := after)]

theorem Decl.declaresVariable_of_declared? {decl : Decl} {name : String}
    (declared : decl.declared? = some name) :
    ∃ type initial, decl.DeclaresVariable name type initial := by
  cases decl with
  | param other type initial span =>
      rw [← Option.some.inj declared]
      exact ⟨type, initial, .inl ⟨span, rfl⟩⟩
  | var other type initial span =>
      rw [← Option.some.inj declared]
      exact ⟨type, initial, .inr ⟨span, rfl⟩⟩
  | type | rule | unknown => simp [Decl.declared?] at declared

theorem Scope.Starts.not_isTag {initial : Option Literal} {type : Ty} {value : Value}
    (starts : scope.Starts store initial type.default value) : value.isTag = false := by
  cases initial with
  | none =>
      rw [show value = type.default from starts]
      exact type.fits_default.not_isTag
  | some literal =>
      cases literal with
      | number number => exact Value.isTag_of_assignInt starts
      | ident name =>
          obtain ⟨source, -, hassign⟩ := starts
          exact Value.isTag_of_assign hassign

theorem Decl.value_of_declare (settled : scope.Settled store) {decl : Decl} {name : String}
    (declared : decl.declared? = some name) {contribution : Contribution}
    (declares : Build.run (decl.declare scope) store = (.ok contribution, after)) :
    ∃ value, decl.Computes scope store name value ∧ value.isTag = false ∧
      scope.localValue? after name = some value := by
  obtain ⟨type, initial, hshape⟩ := Decl.declaresVariable_of_declared? declared
  obtain ⟨built, middle, value, last, hbuilt, hvalue, -, rfl⟩ :=
    (Scope.run_declareVar_eq_ok scope).1 (hshape.run_declare scope declares)
  obtain ⟨hstarts, rfl⟩ := Scope.run_initialValue_eq_ok.1 hvalue
  refine ⟨value, ⟨type, initial, built, _, hshape, hbuilt, hstarts⟩, hstarts.not_isTag, ?_⟩
  obtain ⟨acts, hacts, -, -⟩ := TypeExpr.traced_elaborate scope type.eithers type
    (List.Subset.refl _) none store settled
  rw [hbuilt] at hacts
  rw [Act.localValue?_bind (hacts.settled settled), if_pos rfl]

theorem loadFrom_keeps {σ : Type} [RuleSink σ] (settled : scope.Settled store)
    {names : DeclaredNames} {sink sinkAfter : σ} {decls : List Decl} {loaded : LoadedModule}
    (loads : loadFrom scope names sink store decls = ⟨.ok loaded, sinkAfter, after⟩)
    {name : String} (held : scope.HoldsVariable store name)
    (others : ∀ decl ∈ decls, decl.declared? ≠ some name) :
    scope.localValue? after name = scope.localValue? store name := by
  obtain ⟨acts, hacts, -, hbound⟩ := loadFrom_traced scope settled names sink
    (List.Subset.refl (decls.flatMap Decl.eithers))
  rw [loads] at hacts hbound
  apply hacts.localValue?_of_holds settled held
  rw [(hbound loaded rfl).1, Decl.variable_mem_flatMap_bindings]
  rintro ⟨decl, hdecl, hdeclared⟩
  exact others decl hdecl hdeclared

end

theorem exists_last_of {α : Type} {property : α → Prop} {list : List α}
    (held : ∃ item ∈ list, property item) :
    ∃ before item rest, list = before ++ item :: rest ∧ property item ∧
      ∀ other ∈ rest, ¬property other := by
  induction list with
  | nil => simp at held
  | cons first rest ih =>
      by_cases later : ∃ item ∈ rest, property item
      · obtain ⟨before, item, others, rfl, hitem, hothers⟩ := ih later
        exact ⟨first :: before, item, others, rfl, hitem, hothers⟩
      · refine ⟨[], first, rest, rfl, ?_, fun other hother same => later ⟨other, hother, same⟩⟩
        obtain ⟨item, hitem, hholds⟩ := held
        rcases List.mem_cons.1 hitem with rfl | old
        · exact hholds
        · exact absurd ⟨item, old, hholds⟩ later

section

variable {σ : Type} [RuleSink σ] {parent : Option Scope} {policy : Redefinition}
  {decls : List Decl} {sink sinkAfter : σ} {store after : Store} {loaded : LoadedModule}

theorem loadIn_performs
    (loads : loadIn parent policy decls sink store = ⟨.ok loaded, sinkAfter, after⟩) :
    ∃ acts, loaded.scope.Performs { store with frames := store.frames.push {} } acts after ∧
      acts.filterMap Act.binding? = decls.flatMap Decl.bindings := by
  rw [loadIn_scope loads]
  rw [loadIn_eq_load] at loads
  obtain ⟨acts, hacts, -, hbound⟩ := loadFrom_traced _ (Scope.settled_fresh store _ policy) {} sink
    (List.Subset.refl (decls.flatMap Decl.eithers))
  rw [← load, loads] at hacts hbound
  exact ⟨acts, hacts, (hbound loaded rfl).1⟩

theorem loadIn_settled
    (loads : loadIn parent policy decls sink store = ⟨.ok loaded, sinkAfter, after⟩) :
    loaded.scope.Settled { store with frames := store.frames.push {} } := by
  rw [loadIn_scope loads]
  exact Scope.settled_fresh store _ policy

theorem loadIn_unbound
    (loads : loadIn parent policy decls sink store = ⟨.ok loaded, sinkAfter, after⟩)
    (name : String) :
    loaded.scope.localVar? { store with frames := store.frames.push {} } name = none := by
  rw [loadIn_scope loads]
  exact Scope.localVar?_fresh store _ policy name

theorem loadIn_declares
    (loads : loadIn parent policy decls sink store = ⟨.ok loaded, sinkAfter, after⟩)
    {name : String} (declared : loaded.names.Declares name) :
    ∃ decl ∈ decls, decl.declared? = some name := by
  obtain ⟨acts, hacts, hbound⟩ := loadIn_performs loads
  have hheld := ((loadIn_tracks loads).declared name).1 declared
  rw [hacts.holdsVariable_iff (loadIn_settled loads), hbound,
    Decl.variable_mem_flatMap_bindings] at hheld
  rcases hheld with ⟨value, hvalue, -⟩ | hdecl
  · simp [Scope.localValue?, loadIn_unbound loads] at hvalue
  · exact hdecl

theorem loadIn_value_from {before : List Decl} {decl : Decl} {name : String}
    {earlier : LoadedModule} {sinkBefore : σ} {start middle : Store} {contribution : Contribution}
    (loads : loadIn parent policy before sink store = ⟨.ok earlier, sinkBefore, start⟩)
    (declared : decl.declared? = some name)
    (declares : Build.run (decl.declare earlier.scope) start = (.ok contribution, middle)) :
    ∃ value, decl.Computes earlier.scope start name value ∧
      ∀ more later sinkLater last, (∀ other ∈ more, other.declared? ≠ some name) →
        loadIn parent policy (before ++ decl :: more) sink store = ⟨.ok later, sinkLater, last⟩ →
        later.scope.localValue? last name = some value := by
  have hsettled := (loadIn_tracks loads).settled
  obtain ⟨value, hcomputes, hcontent, hvalue⟩ := Decl.value_of_declare hsettled declared declares
  have hmiddle : earlier.scope.Settled middle := by
    obtain ⟨acts, hacts, -⟩ := Decl.traced_declare earlier.scope (List.Subset.refl decl.eithers)
      start hsettled
    rw [declares] at hacts
    exact hacts.settled hsettled
  refine ⟨value, hcomputes, fun more later sinkLater last hothers hlater => ?_⟩
  rw [loadIn_append, loads] at hlater
  rw [loadFrom_scope hlater]
  simp only [loadFrom] at hlater
  rw [declares] at hlater
  rw [loadFrom_keeps hmiddle hlater ⟨value, hvalue, hcontent⟩ hothers, hvalue]

theorem loadIn_value
    (loads : loadIn parent policy decls sink store = ⟨.ok loaded, sinkAfter, after⟩)
    {name : String} (declared : loaded.names.Declares name) :
    ∃ before decl rest earlier sinkBefore start value, decls = before ++ decl :: rest ∧
      (∀ other ∈ rest, other.declared? ≠ some name) ∧
      loadIn parent policy before sink store = ⟨.ok earlier, sinkBefore, start⟩ ∧
      decl.Computes earlier.scope start name value ∧
      ∀ more others, rest = more ++ others → ∃ later sinkLater last,
        loadIn parent policy (before ++ decl :: more) sink store =
          ⟨.ok later, sinkLater, last⟩ ∧
        later.scope.localValue? last name = some value := by
  obtain ⟨before, decl, rest, rfl, hdecl, hothers⟩ :=
    exists_last_of (loadIn_declares loads declared)
  obtain ⟨earlier, sinkBefore, start, hearlier, hall⟩ := loadIn_split loads
  obtain ⟨contribution, middle, hdeclares, -⟩ := loadFrom_cons_ok hall
  obtain ⟨value, hcomputes, hkept⟩ := loadIn_value_from hearlier hdecl hdeclares
  refine ⟨before, decl, rest, earlier, sinkBefore, start, value, rfl, hothers, hearlier,
    hcomputes, ?_⟩
  rintro more others rfl
  rw [← List.cons_append, ← List.append_assoc] at loads
  obtain ⟨later, sinkLater, last, hlater, -⟩ := loadIn_split loads
  exact ⟨later, sinkLater, last, hlater, hkept more later sinkLater last
    (fun other hother => hothers other (List.mem_append_left _ hother)) hlater⟩

theorem loadIn_distinct
    (loads : loadIn parent policy decls sink store = ⟨.ok loaded, sinkAfter, after⟩) :
    loaded.scope.Distinct after := by
  obtain ⟨acts, hacts, -⟩ := loadIn_performs loads
  apply hacts.distinct (loadIn_settled loads)
  intro left right cell hleft
  simp [loadIn_unbound loads] at hleft

theorem loadIn_new_cell
    (loads : loadIn parent policy decls sink store = ⟨.ok loaded, sinkAfter, after⟩)
    {name : String} {cell : CellId} (found : loaded.scope.localVar? after name = some cell) :
    store.cells.size ≤ cell := by
  obtain ⟨acts, hacts, -⟩ := loadIn_performs loads
  rcases hacts.localVar?_eq_or_new (loadIn_settled loads) found with old | new
  · simp [loadIn_unbound loads] at old
  · exact new

theorem loadIn_frame
    (loads : loadIn parent policy decls sink store = ⟨.ok loaded, sinkAfter, after⟩)
    {id : FrameId} (old : id < store.frames.size) : after.frame id = store.frame id := by
  obtain ⟨acts, hacts, -⟩ := loadIn_performs loads
  rw [loadIn_scope loads] at hacts
  rw [hacts.frame_of_ne (Nat.ne_of_lt old), Store.frame_push]

theorem loadIn_size_frames
    (loads : loadIn parent policy decls sink store = ⟨.ok loaded, sinkAfter, after⟩) :
    after.frames.size = store.frames.size + 1 := by
  obtain ⟨acts, hacts, -⟩ := loadIn_performs loads
  rw [hacts.size_frames, Array.size_push]

end

/-! Changing one cell. -/

theorem Store.updateCell_frame (id : CellId) (path : Path)
    (change : Value → Except Problem Value) (store : Store) :
    (∀ frame, (Build.run (Store.updateCell id path change) store).2.frame frame =
      store.frame frame) ∧
    ∀ other ≠ id, (Build.run (Store.updateCell id path change) store).2.cell? other =
      store.cell? other := by
  unfold Store.updateCell
  rw [Build.run_bind, Build.run_get]
  simp only
  cases held : store.cell? id with
  | none => exact ⟨fun _ => rfl, fun _ _ => rfl⟩
  | some value =>
      simp only [Build.run_bind]
      cases value.update change path with
      | error problem => exact ⟨fun _ => rfl, fun _ _ => rfl⟩
      | ok result =>
          refine ⟨fun _ => rfl, fun other different => ?_⟩
          exact Array.getElem?_setIfInBounds_ne (Ne.symm different)

theorem Scope.var?_of_localVar? {scope : Scope} {store : Store} {name : String} {cell : CellId}
    (found : scope.localVar? store name = some cell) : scope.var? store name = some cell := by
  unfold Scope.var? Scope.frames
  rw [List.findSome?_cons, show (store.frame scope.frame).vars.find? name = some cell from found]

theorem Scope.run_updateVar {scope : Scope} {store : Store} {name : String} {cell : CellId}
    (found : scope.localVar? store name = some cell) (path : Path)
    (change : Value → Except Problem Value) :
    Build.run (scope.updateVar name path change) store =
      Build.run (Store.updateCell cell path change) store := by
  unfold Scope.updateVar
  rw [Build.run_bind, Scope.run_resolveVar, Scope.var?_of_localVar? found]

theorem Scope.value?_congr {scope : Scope} {store after : Store} {name : String}
    (frames : ∀ id, after.frame id = store.frame id)
    (cells : ∀ id ∈ scope.frames, ∀ cell, (store.frame id).vars.find? name = some cell →
      after.cell? cell = store.cell? cell) :
    scope.value? after name = scope.value? store name := by
  have hvar : scope.var? after name = scope.var? store name := by
    unfold Scope.var?
    simp only [frames]
  unfold Scope.value?
  rw [hvar]
  cases found : scope.var? store name with
  | none => rfl
  | some cell =>
      obtain ⟨id, hid, hcell⟩ := List.exists_of_findSome?_eq_some found
      exact cells id hid cell hcell

section

variable {σ : Type} [RuleSink σ] {session : Session} {catalog : Catalog} {parent : Option Scope}
  {policy : Redefinition} {decls : List Decl} {sink sinkAfter : σ} {loaded : LoadedModule}
  {after later : Store}

theorem Session.Valid.old_cell (valid : session.Valid catalog)
    (loads : loadIn parent policy decls sink session.store = ⟨.ok loaded, sinkAfter, after⟩)
    (bound : ∀ id < after.frames.size, later.frame id = after.frame id)
    {id : FrameId} (old : id < session.store.frames.size) {name : String} {cell : CellId}
    (found : (later.frame id).vars.find? name = some cell) :
    cell < session.store.cells.size := by
  have hid : id < after.frames.size := by
    rw [loadIn_size_frames loads]
    exact Nat.lt_succ_of_lt old
  rw [bound id hid, loadIn_frame loads old] at found
  exact valid.settled id name cell found

theorem Session.Valid.updateVar_frame (valid : session.Valid catalog)
    (opened : ∀ scope, parent = some scope → scope ∈ session.scopes)
    (loads : loadIn parent policy decls sink session.store = ⟨.ok loaded, sinkAfter, after⟩)
    (bound : ∀ id < after.frames.size, later.frame id = after.frame id)
    {name : String} {cell : CellId} (found : loaded.scope.localVar? after name = some cell)
    (path : Path) (change : Value → Except Problem Value) :
    (∀ other ≠ name,
      loaded.scope.value? (Build.run (loaded.scope.updateVar name path change) later).2 other =
        loaded.scope.value? later other) ∧
    ∀ older ∈ session.scopes, ∀ other,
      older.value? (Build.run (loaded.scope.updateVar name path change) later).2 other =
        older.value? later other := by
  have hscope := loadIn_scope loads
  have hown : later.frame loaded.scope.frame = after.frame loaded.scope.frame := by
    apply bound
    rw [loadIn_size_frames loads, hscope]
    exact Nat.lt_succ_self _
  have hfound : loaded.scope.localVar? later name = some cell := by
    unfold Scope.localVar?
    rw [hown]
    exact found
  rw [Scope.run_updateVar hfound]
  obtain ⟨hframes, hcells⟩ := Store.updateCell_frame cell path change later
  have hold : ∀ id < session.store.frames.size, ∀ other held,
      (later.frame id).vars.find? other = some held →
      (Build.run (Store.updateCell cell path change) later).2.cell? held =
        later.cell? held := by
    intro id old other held hheld
    apply hcells
    have hlow := valid.old_cell loads bound old hheld
    exact Nat.ne_of_lt (Nat.lt_of_lt_of_le hlow (loadIn_new_cell loads found))
  constructor
  · intro other different
    refine Scope.value?_congr hframes fun id hid held hheld => ?_
    rcases List.mem_cons.1 hid with rfl | outer
    · apply hcells
      rintro rfl
      rw [hown] at hheld
      exact different (loadIn_distinct loads other name held hheld found)
    · rw [hscope] at outer
      cases parent with
      | none => simp at outer
      | some scope =>
          exact hold id (valid.scopes scope (opened scope rfl) id outer) other held hheld
  · intro older holder other
    exact Scope.value?_congr hframes fun id hid held hheld =>
      hold id (valid.scopes older holder id hid) other held hheld

end

/-- Every variable of a module that loads holds what its last declaration computed,
and no later declaration changes it. Its cell is its own and new, so a later
change through one variable is seen by no other variable of the module and by no
scope that is older. -/
theorem loadIn_variables {σ : Type} [RuleSink σ] (ops : List Session.Op) (parent : Option Scope)
    (policy : Redefinition) (decls : List Decl) (sink sinkAfter : σ) (after : Store)
    (loaded : LoadedModule)
    (opened : ∀ scope, parent = some scope → scope ∈ (Session.run ops).scopes)
    (loads : loadIn parent policy decls sink (Session.run ops).store =
      ⟨.ok loaded, sinkAfter, after⟩) :
    (∀ name, loaded.names.Declares name →
      ∃ before decl rest earlier sinkBefore start value, decls = before ++ decl :: rest ∧
        (∀ other ∈ rest, other.declared? ≠ some name) ∧
        loadIn parent policy before sink (Session.run ops).store =
          ⟨.ok earlier, sinkBefore, start⟩ ∧
        decl.Computes earlier.scope start name value ∧
        loaded.scope.localValue? after name = some value ∧
        ∀ more others, rest = more ++ others → ∃ later sinkLater last,
          loadIn parent policy (before ++ decl :: more) sink (Session.run ops).store =
            ⟨.ok later, sinkLater, last⟩ ∧
          later.scope.localValue? last name = some value) ∧
    (∀ left right cell, loaded.scope.localVar? after left = some cell →
      loaded.scope.localVar? after right = some cell → left = right) ∧
    (∀ name cell, loaded.scope.localVar? after name = some cell →
      (Session.run ops).store.cells.size ≤ cell) ∧
    ∀ later : Store, (∀ id < after.frames.size, later.frame id = after.frame id) →
      ∀ name ∈ loaded.scope.localVarNames after, ∀ path change,
        (∀ other ≠ name,
          loaded.scope.value? (Build.run (loaded.scope.updateVar name path change) later).2 other =
            loaded.scope.value? later other) ∧
        ∀ older ∈ (Session.run ops).scopes, ∀ other,
          older.value? (Build.run (loaded.scope.updateVar name path change) later).2 other =
            older.value? later other := by
  obtain ⟨catalog, hvalid⟩ := Session.valid_run ops
  refine ⟨fun name declared => ?_, loadIn_distinct loads, fun _ _ => loadIn_new_cell loads, ?_⟩
  · obtain ⟨before, decl, rest, earlier, sinkBefore, start, value, rfl, hothers, hearlier,
      hcomputes, hkept⟩ := loadIn_value loads declared
    refine ⟨before, decl, rest, earlier, sinkBefore, start, value, rfl, hothers, hearlier,
      hcomputes, ?_, hkept⟩
    obtain ⟨later, sinkLater, last, hlater, hvalue⟩ := hkept rest [] (List.append_nil rest).symm
    rw [loads] at hlater
    cases hlater
    exact hvalue
  · intro later bound name hname path change
    obtain ⟨cell, hcell⟩ := Scope.mem_localVarNames.1 hname
    exact hvalid.updateVar_frame opened loads bound hcell path change

/-- A variable that is declared again from itself keeps its number, and a change
through it leaves the one that was copied from it. -/
theorem loadIn_variables_redeclared :
    ∃ loaded after, (⟨0, [], .overwrite⟩ : Scope) ∈ (Session.run [.newScope]).scopes ∧
      loadIn (some ⟨0, [], .overwrite⟩) .overwrite [.var "x" (.range 0 9) (some (.number 4)),
        .var "y" (.range 0 9) (some (.ident "x")), .var "x" (.range 0 20) (some (.ident "x"))]
        () (Session.run [.newScope]).store = ⟨.ok loaded, (), after⟩ ∧
      loaded.scope.localVarNames after = ["x", "y"] ∧
      loaded.scope.localValue? after "x" =
        some (.range ⟨⟨⟨2, none, .dummy⟩, ⟨0, 20, by decide⟩⟩, 4⟩) ∧
      ∀ path change,
        loaded.scope.value? (Build.run (loaded.scope.updateVar "x" path change) after).2 "y" =
          loaded.scope.value? after "y" := by
  have opened : (⟨0, [], .overwrite⟩ : Scope) ∈ (Session.run [.newScope]).scopes := .head _
  have loads : loadIn (some ⟨0, [], .overwrite⟩) .overwrite
      [.var "x" (.range 0 9) (some (.number 4)), .var "y" (.range 0 9) (some (.ident "x")),
        .var "x" (.range 0 20) (some (.ident "x"))]
      () (Session.run [.newScope]).store = ⟨.ok _, (), _⟩ := rfl
  refine ⟨_, _, opened, loads, rfl, rfl, fun path change => ?_⟩
  have hvariables := loadIn_variables [.newScope] _ .overwrite _ () () _ _
    (fun _ same => Option.some.inj same ▸ opened) loads
  exact (hvariables.2.2.2 _ (fun _ _ => rfl) "x" (.head _) path change).1 "y" (by decide)

end StateModel
