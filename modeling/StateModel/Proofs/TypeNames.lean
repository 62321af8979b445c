import StateModel.Proofs.Shapes
import StateModel.Proofs.Values

/-!
What type names mean in a module. A name means what the last declaration before it
made of it, and where there is none, what it means around the module. Declarations
that come later change neither what it meant nor any type that was made of it.
-/
namespace StateModel

def Decl.typeName? : Decl → Option String
  | .type name _ _ => some name
  | .param .. | .var .. | .rule .. | .unknown .. => none

/-! What one declaration does to the types of a scope. -/

section

variable {scope : Scope} {store after : Store}

theorem Scope.types_of_declareVar {name : String} {expression : TypeExpr}
    {initial : Option Literal}
    (declares : Build.run (scope.declareVar name expression initial) store = (.ok (), after))
    (frame : FrameId) : (after.frame frame).types = (store.frame frame).types := by
  obtain ⟨built, middle, value, last, hbuilt, hvalue, -, rfl⟩ :=
    (scope.run_declareVar_eq_ok).1 declares
  obtain ⟨-, rfl⟩ := Scope.run_initialValue_eq_ok.1 hvalue
  obtain ⟨haccounts, -⟩ := TypeExpr.accounts_elaborate hbuilt
  exact (Store.types_setVars _ _ _ _).trans (haccounts.types frame)

theorem Decl.types_of_declare {decl : Decl} (untyped : decl.typeName? = none)
    {contribution : Contribution}
    (declares : Build.run (decl.declare scope) store = (.ok contribution, after))
    (frame : FrameId) : (after.frame frame).types = (store.frame frame).types := by
  cases decl with
  | type name expression span => cases untyped
  | param name expression initial span =>
      exact Scope.types_of_declareVar
        (Decl.DeclaresVariable.run_declare scope (.inl ⟨span, rfl⟩) declares) frame
  | var name expression initial span =>
      exact Scope.types_of_declareVar
        (Decl.DeclaresVariable.run_declare scope (.inr ⟨span, rfl⟩) declares) frame
  | rule rule span =>
      obtain ⟨_, middle, hrule, hreturn⟩ :=
        Build.run_bind_eq_ok.1 (Build.run_locate_eq_ok.1 declares)
      cases hreturn
      cases rule with
      | once => cases hrule; rfl
      | each name index iterable body =>
          obtain ⟨cell, last, hcell, hrest⟩ := Build.run_bind_eq_ok.1 hrule
          cases hrest
          rw [Scope.run_resolveVar] at hcell
          split at hcell <;> cases hcell
          rfl
  | unknown kind span => cases Build.run_locate_eq_ok.1 declares

theorem Decl.type?_of_declare {decl : Decl} {name : String}
    (other : decl.typeName? ≠ some name) {contribution : Contribution}
    (declares : Build.run (decl.declare scope) store = (.ok contribution, after)) :
    scope.type? after name = scope.type? store name := by
  cases typed : decl.typeName? with
  | none => exact Scope.type?_congr fun frame _ => by rw [Decl.types_of_declare typed declares]
  | some bound =>
      cases decl with
      | param | var | rule | unknown => cases typed
      | type target expression span =>
          obtain ⟨type, middle, hbuilt, -, hbind⟩ := Decl.run_declare_type.1 declares
          obtain ⟨haccounts, -⟩ := TypeExpr.accounts_elaborate hbuilt
          have hother : name ≠ target := fun same => other (congrArg some same.symm)
          rw [Scope.run_bindType] at hbind
          dsimp only at hbind
          split at hbind <;> cases hbind
          refine Scope.type?_congr fun frame _ => ?_
          rw [Store.project_setFrame (·.types.find? name) (Bindings.find?_put_of_ne _ _ hother),
            haccounts.types]

theorem Decl.elaborates_of_declare {decl : Decl} {expression : TypeExpr}
    (given : decl.expression? = some expression) {contribution : Contribution}
    (declares : Build.run (decl.declare scope) store = (.ok contribution, after)) :
    ∃ type last, Build.run (expression.elaborate scope decl.typeName?) store =
      (.ok type, last) := by
  have hvariable : ∀ {name : String} {initial : Option Literal},
      decl.DeclaresVariable name expression initial → ∃ type last,
        Build.run (expression.elaborate scope none) store = (.ok type, last) := by
    intro name initial shape
    obtain ⟨type, last, _, _, hbuilt, -⟩ :=
      (scope.run_declareVar_eq_ok).1 (shape.run_declare scope declares)
    exact ⟨type, last, hbuilt⟩
  cases decl with
  | type name own span =>
      cases given
      obtain ⟨type, middle, hbuilt, -, -⟩ := Decl.run_declare_type.1 declares
      exact ⟨type, middle, hbuilt⟩
  | param name own initial span =>
      cases given
      exact hvariable (.inl ⟨span, rfl⟩)
  | var name own initial span =>
      cases given
      exact hvariable (.inr ⟨span, rfl⟩)
  | rule | unknown => cases given

theorem loadFrom_type? {σ : Type} [RuleSink σ] {names : DeclaredNames} {sink sinkAfter : σ}
    {decls : List Decl} {loaded : LoadedModule}
    (loads : loadFrom scope names sink store decls = ⟨.ok loaded, sinkAfter, after⟩)
    {name : String} (others : ∀ decl ∈ decls, decl.typeName? ≠ some name) :
    scope.type? after name = scope.type? store name := by
  induction decls generalizing names sink store with
  | nil =>
      cases loads
      rfl
  | cons decl rest ih =>
      rw [List.forall_mem_cons] at others
      obtain ⟨contribution, middle, hdeclare, hrest⟩ := loadFrom_cons_ok loads
      rw [ih hrest others.2, Decl.type?_of_declare others.1 hdeclare]

end

structure Loader (σ : Type) where
  parent : Option Scope
  policy : Redefinition
  sink : σ
  store : Store

namespace Loader

variable {σ : Type}

theorem type?_opened (loader : Loader σ) (name : String) :
    (⟨loader.store.frames.size, (loader.parent.map Scope.frames).getD [], loader.policy⟩ :
        Scope).type? { loader.store with frames := loader.store.frames.push {} } name =
      loader.parent.bind (·.type? loader.store name) := by
  have hempty : loader.store.frame loader.store.frames.size = {} := by simp [Store.frame]
  unfold Scope.type?
  simp only [Store.frame_push]
  rw [Scope.frames, List.findSome?_cons, hempty, Bindings.find?_empty]
  cases loader.parent <;> rfl

variable [RuleSink σ]

def load (loader : Loader σ) (decls : List Decl) : LoadOutcome σ :=
  loadIn loader.parent loader.policy decls loader.sink loader.store

/-- The type that the expression of the declaration stands for, once the load has
taken the declarations before it. -/
def Denotes (loader : Loader σ) (before : List Decl) (decl : Decl) (type : Ty) : Prop :=
  ∃ expression earlier sinkMiddle start after, decl.expression? = some expression ∧
    loader.load before = ⟨.ok earlier, sinkMiddle, start⟩ ∧
    Build.run (expression.elaborate earlier.scope decl.typeName?) start = (.ok type, after)

/-- What a type name means behind these declarations: the last one that declares it
decides, and where there is none, the parent does. -/
inductive Means (loader : Loader σ) : List Decl → String → Ty → Prop
  | declared {before rest : List Decl} {name : String} {expression : TypeExpr} {span : Span}
      {type : Ty} :
      loader.Denotes before (.type name expression span) type →
      (∀ other ∈ rest, other.typeName? ≠ some name) →
      Means loader (before ++ .type name expression span :: rest) name type
  | around {before : List Decl} {name : String} {type : Ty} :
      (∀ other ∈ before, other.typeName? ≠ some name) →
      loader.parent.bind (·.type? loader.store name) = some type →
      Means loader before name type

/-- The last declaration means the first one through a chain of aliases, each of which
names what the one before it declared. -/
inductive AliasChain (before : List Decl) (decl : Decl) : List Decl → Decl → Prop
  | here : AliasChain before decl before decl
  | link {middle rest : List Decl} {name next : String} {expression : TypeExpr}
      {span place nextSpan : Span} :
      AliasChain before decl middle (.type name expression span) →
      (∀ other ∈ rest, other.typeName? ≠ some name) →
      AliasChain before decl (middle ++ .type name expression span :: rest)
        (.type next (.alias name place) nextSpan)

variable {loader : Loader σ} {before rest decls : List Decl} {decl : Decl} {name : String}
  {type : Ty} {loaded earlier : LoadedModule} {sinkAfter sinkMiddle : σ} {after start : Store}

theorem Denotes.unique {other : Ty} (denotes : loader.Denotes before decl type)
    (again : loader.Denotes before decl other) : type = other := by
  obtain ⟨expression, earlier, sinkMiddle, start, after, hexpression, hload, hran⟩ := denotes
  obtain ⟨expressionAgain, _, _, _, _, hexpressionAgain, hloadAgain, hranAgain⟩ := again
  rw [hexpression] at hexpressionAgain
  rw [hload] at hloadAgain
  cases hexpressionAgain
  cases hloadAgain
  rw [hran] at hranAgain
  cases hranAgain
  rfl

theorem type?_of_undeclared (loads : loader.load decls = ⟨.ok loaded, sinkAfter, after⟩)
    (others : ∀ decl ∈ decls, decl.typeName? ≠ some name) :
    loaded.scope.type? after name = loader.parent.bind (·.type? loader.store name) := by
  have hscope := loadIn_scope loads
  rw [load, loadIn_eq_load, ← hscope] at loads
  rw [loadFrom_type? loads others, hscope]
  exact loader.type?_opened name

theorem settled_scope (loads : loader.load decls = ⟨.ok loaded, sinkAfter, after⟩) :
    loaded.scope.Settled after :=
  (loadIn_tracks loads).settled

theorem type?_of_declared {expression : TypeExpr} {span : Span}
    (loads : loader.load (before ++ .type name expression span :: rest) =
      ⟨.ok loaded, sinkAfter, after⟩)
    (others : ∀ other ∈ rest, other.typeName? ≠ some name) :
    ∃ type, loader.Denotes before (.type name expression span) type ∧
      loaded.scope.type? after name = some type := by
  obtain ⟨earlier, sinkMiddle, start, hearlier, hall⟩ := loadIn_split loads
  obtain ⟨contribution, middle, hdeclare, hrest⟩ := loadFrom_cons_ok hall
  obtain ⟨type, last, hbuilt, -, hbind⟩ := Decl.run_declare_type.1 hdeclare
  obtain ⟨acts, hacts, -, -⟩ := TypeExpr.traced_elaborate earlier.scope expression.eithers
    expression (List.Subset.refl _) (some name) start (settled_scope hearlier)
  rw [hbuilt] at hacts
  have hmade := hacts.size_frames ▸ (settled_scope hearlier).made
  refine ⟨type, ⟨expression, earlier, sinkMiddle, start, last, rfl, hearlier, hbuilt⟩, ?_⟩
  rw [loadFrom_scope hrest, loadFrom_type? hrest others, Scope.type?_of_bindType hmade hbind]

/-- Wherever a load has come to, names mean what the declarations up to there make of
them. -/
theorem type?_iff_means (loads : loader.load decls = ⟨.ok loaded, sinkAfter, after⟩) :
    loaded.scope.type? after name = some type ↔ loader.Means decls name type := by
  constructor
  · intro found
    by_cases declared : ∃ decl ∈ decls, decl.typeName? = some name
    · obtain ⟨before, decl, rest, rfl, hdecl, hothers⟩ := exists_last_of declared
      cases decl with
      | param | var | rule | unknown => cases hdecl
      | type bound expression span =>
          cases hdecl
          obtain ⟨made, hdenotes, hmade⟩ := type?_of_declared loads hothers
          rw [hmade, Option.some.injEq] at found
          subst found
          exact .declared hdenotes hothers
    · have hothers : ∀ decl ∈ decls, decl.typeName? ≠ some name :=
        fun decl inside same => declared ⟨decl, inside, same⟩
      rw [type?_of_undeclared loads hothers] at found
      exact .around hothers found
  · intro means
    cases means with
    | declared hdenotes hothers =>
        obtain ⟨made, hmade, hfound⟩ := type?_of_declared loads hothers
        rw [hfound, hdenotes.unique hmade]
    | around hothers hfound => rw [type?_of_undeclared loads hothers, hfound]

theorem exists_denotes
    (loads : loader.load (before ++ decl :: rest) = ⟨.ok loaded, sinkAfter, after⟩)
    {expression : TypeExpr} (given : decl.expression? = some expression) :
    ∃ type, loader.Denotes before decl type := by
  obtain ⟨earlier, sinkMiddle, start, hearlier, hall⟩ := loadIn_split loads
  obtain ⟨contribution, middle, hdeclare, -⟩ := loadFrom_cons_ok hall
  obtain ⟨type, last, hbuilt⟩ := Decl.elaborates_of_declare given hdeclare
  exact ⟨type, expression, earlier, sinkMiddle, start, last, given, hearlier, hbuilt⟩

theorem Denotes.means {expression : TypeExpr} (denotes : loader.Denotes before decl type)
    (given : decl.expression? = some expression) :
    (expression.objects type).map Prod.fst = expression.nodes ∧
      ∀ target object, (.alias target, object) ∈ expression.objects type →
        loader.Means before target object := by
  obtain ⟨_, earlier, sinkMiddle, start, last, hexpression, hload, hran⟩ := denotes
  rw [given] at hexpression
  cases hexpression
  obtain ⟨haccounts, hnodes⟩ := TypeExpr.accounts_elaborate hran
  exact ⟨hnodes, fun target object inside =>
    (type?_iff_means hload).1 (haccounts.aliased target object inside)⟩

theorem AliasChain.denotes {later : List Decl} {last : Decl}
    (chain : AliasChain before decl later last) (denotes : loader.Denotes before decl type)
    (loads : loader.load (later ++ last :: rest) = ⟨.ok loaded, sinkAfter, after⟩) :
    loader.Denotes later last type := by
  induction chain generalizing rest with
  | here => exact denotes
  | @link middle between name next expression span place nextSpan _ others ih =>
      have hloads := loads
      rw [List.append_assoc, List.cons_append] at hloads
      have hmiddle := ih hloads
      have hlast : ∃ made, loader.Denotes (middle ++ .type name expression span :: between)
          (.type next (.alias name place) nextSpan) made := exists_denotes loads rfl
      obtain ⟨made, hmade⟩ := hlast
      have hmeans := (hmade.means rfl).2 name made (List.mem_singleton_self _)
      obtain ⟨earlier, sinkMiddle, start, hearlier, -⟩ := loadIn_split loads
      have hfound := (type?_iff_means hearlier).2 hmeans
      rw [(type?_iff_means hearlier).2 (.declared hmiddle others), Option.some.injEq] at hfound
      rw [hfound]
      exact hmade

theorem Denotes.name_eq {expression : TypeExpr} {span : Span}
    (denotes : loader.Denotes before (.type name expression span) type)
    (own : ∀ target place, expression ≠ .alias target place) : type.name = some name := by
  obtain ⟨_, earlier, sinkMiddle, start, last, hexpression, -, hran⟩ := denotes
  cases hexpression
  have hdescribed := TypeExpr.gives_elaborate _ _ _ _ _ _ hran
  exact (hdescribed.header own).1

/-! What a declaration builds is new to all that was there before it. -/

theorem loadFrom_nextType_le {scope : Scope} (settled : scope.Settled start)
    {names : DeclaredNames} {sink : σ}
    (loads : loadFrom scope names sink start decls = ⟨.ok loaded, sinkAfter, after⟩) :
    start.nextType ≤ after.nextType := by
  obtain ⟨acts, hacts, -, -⟩ := loadFrom_traced scope settled names sink
    (List.Subset.refl (decls.flatMap Decl.eithers))
  rw [loads] at hacts
  exact hacts.nextType_le

theorem Denotes.nextType_le_of_built {expression : TypeExpr}
    (denotes : loader.Denotes before decl type) (given : decl.expression? = some expression)
    (loads : loader.load before = ⟨.ok earlier, sinkMiddle, start⟩) {own : Ty}
    (built : own ∈ (expression.objects type).built) : start.nextType ≤ own.id := by
  obtain ⟨_, _, _, _, last, hexpression, hload, hran⟩ := denotes
  rw [given] at hexpression
  cases hexpression
  rw [loads] at hload
  cases hload
  obtain ⟨haccounts, -⟩ := TypeExpr.accounts_elaborate hran
  have hid := List.mem_map_of_mem (f := Ty.id) built
  rw [haccounts.numbered, List.mem_range'_1] at hid
  exact hid.1

/-- What an expression mentions is what its names mean where it stands, and that is
one object: nothing that there is after the load is the same as it, and it is none of
the types that this declaration or a later one builds. -/
structure Resolves (loader : Loader σ) (session : Session) (before : List Decl) (decl : Decl)
    (rest : List Decl) (expression : TypeExpr) (type : Ty) : Prop where
  nodes : (expression.objects type).map Prod.fst = expression.nodes
  meant : ∀ target object, (.alias target, object) ∈ expression.objects type →
    loader.Means before target object
  one : ∀ target object, (.alias target, object) ∈ expression.objects type →
    ∀ other, session.HasType other → object.same other = true → object = other
  older : ∀ target object, (.alias target, object) ∈ expression.objects type →
    ∀ more later others, decl :: rest = more ++ later :: others →
      ∀ laterExpression laterType, later.expression? = some laterExpression →
        loader.Denotes (before ++ more) later laterType →
        ∀ own ∈ (laterExpression.objects laterType).built, object.same own = false

structure Lasts (loader : Loader σ) (before : List Decl) (decl : Decl) (rest : List Decl)
    (type : Ty) : Prop where
  named : ∀ name, decl.typeName? = some name → ∀ more others, rest = more ++ others →
    (∀ other ∈ more, other.typeName? ≠ some name) → ∃ later sinkLater last,
      loader.load (before ++ decl :: more) = ⟨.ok later, sinkLater, last⟩ ∧
      later.scope.type? last name = some type
  held : ∀ name, decl.declared? = some name → ∀ more others, rest = more ++ others →
    (∀ other ∈ more, other.declared? ≠ some name) → ∃ later sinkLater last value,
      loader.load (before ++ decl :: more) = ⟨.ok later, sinkLater, last⟩ ∧
      later.scope.localValue? last name = some value ∧ value.type = type

section

variable {session : Session} {catalog : Catalog}

theorem Denotes.resolves (valid : session.Valid catalog) (held : loader.store = session.store)
    {expression : TypeExpr} (denotes : loader.Denotes before decl type)
    (given : decl.expression? = some expression)
    (loads : loader.load (before ++ decl :: rest) = ⟨.ok loaded, sinkAfter, after⟩) :
    loader.Resolves { session with store := after } before decl rest expression type := by
  obtain ⟨earlier, sinkMiddle, start, hearlier, hall⟩ := loadIn_split loads
  have hsettled := settled_scope hearlier
  obtain ⟨middle, -, hmiddle⟩ :=
    valid.after_loadIn loader.parent loader.policy before loader.sink
  rw [← held, hearlier] at hmiddle
  obtain ⟨larger, hlarger, hafter⟩ :=
    hmiddle.after_loadFrom hsettled.made earlier.names sinkMiddle (decl :: rest)
  rw [hall] at hafter
  have hknown : ∀ target object, (.alias target, object) ∈ expression.objects type →
      middle.Knows object := by
    intro target object inside
    have hmeans := (denotes.means given).2 target object inside
    obtain ⟨frame, -, hframe⟩ :=
      List.exists_of_findSome?_eq_some ((type?_iff_means hearlier).2 hmeans)
    exact hmiddle.covers.types frame target object hframe
  refine ⟨(denotes.means given).1, (denotes.means given).2, ?_, ?_⟩
  · intro target object inside other has same
    exact ((hknown target object inside).mono hlarger).eq_of_id (hafter.type_of_hasType has)
      (Ty.same_iff.1 same)
  · intro target object inside more later others hrest laterExpression laterType hexpression
      hdenotes own hown
    rw [hrest, ← List.append_assoc] at loads
    obtain ⟨upTo, sinkUpTo, reached, hupTo, -⟩ := loadIn_split loads
    have hold : object.id < start.nextType := by
      rw [← hmiddle.covers.count]
      exact (List.getElem?_eq_some_iff.1 (hknown target object inside).self).1
    have hgrown : start.nextType ≤ reached.nextType := by
      rw [loadIn_append, hearlier] at hupTo
      exact loadFrom_nextType_le hsettled hupTo
    have hnew := hdenotes.nextType_le_of_built hexpression hupTo hown
    rw [Ty.same_eq_false_iff]
    exact Nat.ne_of_lt (Nat.lt_of_lt_of_le hold (Nat.le_trans hgrown hnew))

theorem Denotes.type_of_computes (covers : catalog.Covers start)
    (denotes : loader.Denotes before decl type)
    (loads : loader.load before = ⟨.ok earlier, sinkMiddle, start⟩) {value : Value}
    (computes : decl.Computes earlier.scope start name value) : value.type = type := by
  obtain ⟨expression, _, _, _, last, hexpression, hload, hran⟩ := denotes
  rw [loads] at hload
  cases hload
  obtain ⟨declared, initial, built, middle, hshape, hbuilt, hstarts⟩ := computes
  have hsame : expression = declared ∧ decl.typeName? = none := by
    rcases hshape with ⟨span, rfl⟩ | ⟨span, rfl⟩ <;>
      exact ⟨(Option.some.inj hexpression).symm, rfl⟩
  rw [hsame.1, hsame.2, hbuilt] at hran
  cases hran
  obtain ⟨larger, -, hcovers, hknown⟩ :=
    TypeExpr.grows_elaborate earlier.scope declared none catalog start covers
  rw [hbuilt] at hcovers hknown
  obtain ⟨_, -, -, hfits⟩ := earlier.scope.grows_initialValue (hknown type rfl) type.fits_default
    initial last hcovers
  rw [Scope.run_initialValue_eq_ok.2 ⟨hstarts, rfl⟩] at hfits
  exact (hfits value rfl).type_eq

theorem Denotes.lasts (covers : catalog.Covers loader.store)
    (denotes : loader.Denotes before decl type)
    (loads : loader.load (before ++ decl :: rest) = ⟨.ok loaded, sinkAfter, after⟩) :
    loader.Lasts before decl rest type := by
  have hreached : ∀ more others, rest = more ++ others → ∃ later sinkLater last,
      loader.load (before ++ decl :: more) = ⟨.ok later, sinkLater, last⟩ := by
    rintro more others rfl
    rw [← List.cons_append, ← List.append_assoc] at loads
    obtain ⟨later, sinkLater, last, hlater, -⟩ := loadIn_split loads
    exact ⟨later, sinkLater, last, hlater⟩
  constructor
  · intro name hname more others hrest hothers
    obtain ⟨later, sinkLater, last, hlater⟩ := hreached more others hrest
    refine ⟨later, sinkLater, last, hlater, (type?_iff_means hlater).2 ?_⟩
    cases decl with
    | param | var | rule | unknown => cases hname
    | type bound expression span =>
        cases hname
        exact .declared denotes hothers
  · intro name hname more others hrest hothers
    obtain ⟨later, sinkLater, last, hlater⟩ := hreached more others hrest
    obtain ⟨earlier, sinkMiddle, start, hearlier, hall⟩ := loadIn_split loads
    obtain ⟨contribution, middle, hdeclare, -⟩ := loadFrom_cons_ok hall
    obtain ⟨value, hcomputes, hkept⟩ := loadIn_value_from hearlier hname hdeclare
    obtain ⟨larger, -, hcovers⟩ :=
      covers.loadIn loader.parent loader.policy before loader.sink
    rw [hearlier] at hcovers
    exact ⟨later, sinkLater, last, value, hlater,
      hkept more later sinkLater last hothers hlater,
      denotes.type_of_computes hcovers hearlier hcomputes⟩

end

/-- Wherever a load has come to, a name means what the last declaration of it up to
there was made into, or what it means around the module. So does every name that the
next declaration mentions, at any depth: never what that declaration builds, nor a later
one. What it denotes lasts until its own name is declared again, and the same object is
denoted by all aliases that lead to it. -/
theorem resolves_by_position (ops : List Session.Op) (loader : Loader σ)
    (held : loader.store = (Session.run ops).store) (decls : List Decl) (loaded : LoadedModule)
    (sinkAfter : σ) (after : Store)
    (loads : loader.load decls = ⟨.ok loaded, sinkAfter, after⟩) :
    (∀ before rest, decls = before ++ rest → ∃ earlier sinkMiddle middle,
      loader.load before = ⟨.ok earlier, sinkMiddle, middle⟩ ∧
      ∀ name type, earlier.scope.type? middle name = some type ↔ loader.Means before name type) ∧
    (∀ before decl rest expression, decls = before ++ decl :: rest →
      decl.expression? = some expression → ∃ type, loader.Denotes before decl type ∧
        loader.Resolves { Session.run ops with store := after } before decl rest expression type ∧
        loader.Lasts before decl rest type) ∧
    (∀ before decl later last rest type, decls = later ++ last :: rest →
      AliasChain before decl later last → loader.Denotes before decl type →
      loader.Denotes later last type) ∧
    ∀ before name expression span type, (∀ target place, expression ≠ .alias target place) →
      loader.Denotes before (.type name expression span) type → type.name = some name := by
  obtain ⟨catalog, hvalid⟩ := Session.valid_run ops
  refine ⟨?_, ?_, ?_, fun before name expression span type own denotes => denotes.name_eq own⟩
  · rintro before rest rfl
    obtain ⟨earlier, sinkMiddle, middle, hearlier, -⟩ := loadIn_split loads
    exact ⟨earlier, sinkMiddle, middle, hearlier, fun name type => type?_iff_means hearlier⟩
  · rintro before decl rest expression rfl given
    obtain ⟨type, hdenotes⟩ := exists_denotes loads given
    exact ⟨type, hdenotes, hdenotes.resolves hvalid held given loads,
      hdenotes.lasts (held ▸ hvalid.covers) loads⟩
  · rintro before decl later last rest type rfl chain denotes
    exact chain.denotes denotes loads

theorem resolves_by_position_redeclared :
    ∃ (loader : Loader Unit) (loaded : LoadedModule) (after : Store) (type : Ty),
      loader.store = (Session.run [.newScope]).store ∧
      loader.load [.type "A" (.range 0 3), .type "B" (.alias "A"), .type "A" (.range 5 9),
        .var "b" (.alias "B") none] = ⟨.ok loaded, (), after⟩ ∧
      loader.Denotes [.type "A" (.range 0 3)] (.type "B" (.alias "A")) type ∧
      type.name = some "A" ∧
      loader.Lasts [.type "A" (.range 0 3)] (.type "B" (.alias "A"))
        [.type "A" (.range 5 9), .var "b" (.alias "B") none] type := by
  have loads : Loader.load ⟨some ⟨0, [], .overwrite⟩, .overwrite, (),
      (Session.run [.newScope]).store⟩ [.type "A" (.range 0 3), .type "B" (.alias "A"),
        .type "A" (.range 5 9), .var "b" (.alias "B") none] = ⟨.ok _, (), _⟩ := rfl
  obtain ⟨-, hmade, hchain, hown⟩ :=
    resolves_by_position [.newScope] _ rfl _ _ () _ loads
  obtain ⟨first, hfirst, -, -⟩ := hmade [] _ _ _ rfl rfl
  obtain ⟨type, htype, -, hlasts⟩ := hmade [.type "A" (.range 0 3)] _ _ _ rfl rfl
  have hsame := (hchain [] _ _ _ _ first rfl (.link .here (by simp)) hfirst).unique htype
  refine ⟨_, _, _, type, rfl, loads, htype, ?_, hlasts⟩
  rw [← hsame]
  exact hown [] "A" _ _ first (by simp) hfirst

end Loader

end StateModel
