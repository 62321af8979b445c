import StateModel.Proofs.Declared

/-!
Two runs of the same work, under the policy that rejects a name bound twice and
under the one that overwrites. They go in lockstep up to the first name that is
bound twice in the frame: there the strict run is refused, and the lenient run,
if it ends well at all, has bound a name twice.
-/
namespace StateModel

theorem FreshNames.append {seen later first rest : List String}
    (grown : ∀ name, name ∈ later ↔ name ∈ seen ∨ name ∈ first) :
    FreshNames seen (first ++ rest) ↔ FreshNames seen first ∧ FreshNames later rest := by
  unfold FreshNames
  simp only [List.nodup_append', List.mem_append, grown, List.disjoint_left]
  constructor
  · rintro ⟨⟨hfirst, hrest, hapart⟩, hnew⟩
    refine ⟨⟨hfirst, fun name hname => hnew name (.inl hname)⟩, hrest, fun name hname => ?_⟩
    rintro (old | before)
    · exact hnew name (.inr hname) old
    · exact hapart before hname
  · rintro ⟨⟨hfirst, hnew⟩, hrest, hlater⟩
    refine ⟨⟨hfirst, hrest, fun name before hname => hlater name hname (.inr before)⟩, ?_⟩
    rintro name (before | hname)
    · exact hnew name before
    · exact fun old => hlater name hname (.inl old)

namespace Scope

structure Fresh (scope : Scope) (store : Store) (bindings : List Binding) : Prop where
  types : FreshNames (store.frame scope.frame).types.names
    (bindings.filterMap Binding.typeName?)
  vars : FreshNames (store.frame scope.frame).vars.names (bindings.filterMap Binding.varName?)

variable {scope : Scope} {store after : Store}

theorem fresh_nil (scope : Scope) (store : Store) : scope.Fresh store [] := by
  constructor <;> simp [FreshNames]

theorem fresh_type {name : String} :
    scope.Fresh store [.type name] ↔ ¬scope.hasLocalType store name = true := by
  unfold hasLocalType
  rw [Bindings.contains_iff]
  constructor
  · exact fun fresh => fresh.types.2 name (by simp [Binding.typeName?])
  · intro absent
    constructor <;> simp [FreshNames, List.filterMap, Binding.typeName?, Binding.varName?, absent]

theorem fresh_var {name : String} {binding : Binding} (named : binding.varName? = some name)
    (untyped : binding.typeName? = none) :
    scope.Fresh store [binding] ↔ ¬scope.hasLocalVar store name = true := by
  unfold hasLocalVar
  rw [Bindings.contains_iff]
  constructor
  · exact fun fresh => fresh.vars.2 name (by simp [named])
  · intro absent
    constructor <;> simp [FreshNames, named, untyped, absent]

theorem Performs.fresh_append {acts : List Act} (performs : scope.Performs store acts after)
    (made : scope.frame < store.frames.size) (more : List Binding) :
    scope.Fresh store (acts.filterMap Act.binding? ++ more) ↔
      scope.Fresh store (acts.filterMap Act.binding?) ∧ scope.Fresh after more := by
  have htypes : ∀ name, name ∈ (after.frame scope.frame).types.names ↔
      name ∈ (store.frame scope.frame).types.names ∨
        name ∈ (acts.filterMap Act.binding?).filterMap Binding.typeName? := by
    intro name
    rw [← Bindings.contains_iff, ← Bindings.contains_iff]
    exact performs.hasLocalType_iff made name
  have hvars : ∀ name, name ∈ (after.frame scope.frame).vars.names ↔
      name ∈ (store.frame scope.frame).vars.names ∨
        name ∈ (acts.filterMap Act.binding?).filterMap Binding.varName? := by
    intro name
    rw [← Bindings.contains_iff, ← Bindings.contains_iff]
    exact performs.hasLocalVar_iff made name
  constructor
  · rintro ⟨types, vars⟩
    rw [List.filterMap_append] at types vars
    obtain ⟨firstTypes, laterTypes⟩ := (FreshNames.append htypes).1 types
    obtain ⟨firstVars, laterVars⟩ := (FreshNames.append hvars).1 vars
    exact ⟨⟨firstTypes, firstVars⟩, laterTypes, laterVars⟩
  · rintro ⟨first, later⟩
    constructor
    · rw [List.filterMap_append]
      exact (FreshNames.append htypes).2 ⟨first.types, later.types⟩
    · rw [List.filterMap_append]
      exact (FreshNames.append hvars).2 ⟨first.vars, later.vars⟩

end Scope

def Failure.IsDuplicate (failure : Failure) : Prop :=
  ∃ name, failure.problem = .duplicateDeclaration name

/-- Either the two runs are one and what they bind is fresh, or the strict one is
refused a name and what the lenient one binds is not fresh. -/
def Build.Agree {α : Type} (scope : Scope) (bindings : List Binding) (store : Store)
    (strict lenient : Except Failure α × Store) : Prop :=
  (strict = lenient ∧ ∀ result, strict.1 = .ok result → scope.Fresh store bindings) ∨
    ((∃ failure, strict.1 = .error failure ∧ failure.IsDuplicate) ∧
      ∀ result, lenient.1 = .ok result → ¬scope.Fresh store bindings)

theorem Build.Agree.guarded {scope : Scope} (overwrites : scope.policy = .overwrite)
    {bindings : List Binding} {name : String} {store refused done : Store} {condition : Prop}
    [Decidable condition] (fresh : scope.Fresh store bindings ↔ ¬condition) :
    Build.Agree scope bindings store
      (if Redefinition.reject = .reject ∧ condition then
        (.error { problem := .duplicateDeclaration name }, refused)
      else
        (.ok (), done))
      (if scope.policy = .reject ∧ condition then
        (.error { problem := .duplicateDeclaration name }, refused)
      else
        (.ok (), done)) := by
  rw [overwrites]
  by_cases bound : condition
  · rw [if_pos ⟨rfl, bound⟩]
    refine .inr ⟨⟨_, rfl, name, rfl⟩, fun _ _ new => fresh.1 new bound⟩
  · rw [if_neg fun both => bound both.2]
    exact .inl ⟨by simp, fun _ _ => fresh.2 bound⟩

theorem Build.Agree.bind {α β : Type} {scope : Scope} {bindings more : List Binding}
    {store : Store} (made : scope.frame < store.frames.size) {acts : List Act}
    {strict lenient : Build α} {strictNext lenientNext : α → Build β}
    (performs : scope.Performs store acts (Build.run lenient store).2)
    (bound : ∀ result, (Build.run lenient store).1 = .ok result →
      acts.filterMap Act.binding? = bindings)
    (first : Build.Agree scope bindings store (Build.run strict store) (Build.run lenient store))
    (rest : ∀ result middle, Build.run lenient store = (.ok result, middle) →
      Build.Agree scope more middle (Build.run (strictNext result) middle)
        (Build.run (lenientNext result) middle)) :
    Build.Agree scope (bindings ++ more) store (Build.run (strict >>= strictNext) store)
      (Build.run (lenient >>= lenientNext) store) := by
  rw [Build.run_bind, Build.run_bind]
  rcases first with ⟨hsame, hfresh⟩ | ⟨⟨failure, hfailure, hduplicate⟩, hstale⟩
  · rw [hsame] at hfresh ⊢
    rcases hrun : Build.run lenient store with ⟨failure | result, middle⟩
    · exact .inl ⟨rfl, by simp⟩
    · rw [hrun] at performs bound hfresh
      cases bound result rfl
      have hall := performs.fresh_append made more
      rw [and_iff_right (hfresh result rfl)] at hall
      rcases rest result middle hrun with ⟨hrest, hnew⟩ | ⟨hrefused, hold⟩
      · exact .inl ⟨hrest, fun last hlast => hall.2 (hnew last hlast)⟩
      · exact .inr ⟨hrefused, fun last hlast hfull => hold last hlast (hall.1 hfull)⟩
  · rcases hstrict : Build.run strict store with ⟨other | result, after⟩
    · rw [hstrict] at hfailure
      cases hfailure
      -- However the lenient run goes on, what it binds includes what was not fresh.
      refine .inr ⟨⟨failure, rfl, hduplicate⟩, fun last hlast hfull => ?_⟩
      rcases hrun : Build.run lenient store with ⟨problem | result, middle⟩
      · simp [hrun] at hlast
      · rw [hrun] at performs bound hstale
        cases bound result rfl
        exact hstale result rfl ((performs.fresh_append made more).1 hfull).1
    · simp [hstrict] at hfailure

def Build.Lockstep {α : Type} (scope : Scope) (bindings : List Binding)
    (work : Scope → Build α) : Prop :=
  ∀ store, scope.Settled store → Build.Agree scope bindings store
    (Build.run (work (scope.withPolicy .reject)) store) (Build.run (work scope) store)

namespace Build.Lockstep

variable {α β : Type} {scope : Scope} {bindings more : List Binding}

theorem same {work : Scope → Build α}
    (blind : ∀ store, Build.run (work (scope.withPolicy .reject)) store =
      Build.run (work scope) store) : Build.Lockstep scope [] work :=
  fun store _ => .inl ⟨blind store, fun _ _ => scope.fresh_nil store⟩

theorem fail (problem : Problem) :
    Build.Lockstep scope bindings fun _ => (Build.fail problem : Build α) :=
  fun _ _ => .inl ⟨rfl, by simp⟩

theorem bind {permitted : Act → Prop} {post : α → Prop} {work : Scope → Build α}
    {next : Scope → α → Build β}
    (traced : Build.Traced scope permitted bindings post (work scope))
    (first : Build.Lockstep scope bindings work)
    (rest : ∀ result, post result → Build.Lockstep scope more fun scope => next scope result) :
    Build.Lockstep scope (bindings ++ more) fun scope => work scope >>= next scope := by
  intro store settled
  obtain ⟨acts, hacts, -, hbound⟩ := traced store settled
  refine .bind settled.made hacts (fun result hresult => (hbound result hresult).1)
    (first store settled) fun result middle hrun => ?_
  rw [hrun] at hacts hbound
  exact rest result (hbound result rfl).2 middle (hacts.settled settled)

theorem locate {work : Scope → Build α} (lockstep : Build.Lockstep scope bindings work)
    (span : Span) : Build.Lockstep scope bindings fun scope => Build.locate span (work scope) := by
  intro store settled
  rw [Build.run_locate, Build.run_locate]
  rcases lockstep store settled with ⟨hsame, hfresh⟩ | ⟨⟨failure, hfailure, hduplicate⟩, hstale⟩
  · refine .inl ⟨by rw [hsame], fun result hresult => hfresh result ?_⟩
    exact Build.mapError_eq_ok.1 hresult
  · rw [hfailure]
    refine .inr ⟨⟨_, rfl, ?_⟩, fun result hresult => hstale result ?_⟩
    · obtain ⟨name, hname⟩ := hduplicate
      exact ⟨name, by rw [Failure.located_problem, hname]⟩
    · exact Build.mapError_eq_ok.1 hresult

theorem bindStill {permitted : Act → Prop} {post : α → Prop} {work : Scope → Build α}
    {next : Scope → α → Build β}
    (traced : Build.Traced scope permitted bindings post (work scope))
    (first : Build.Lockstep scope bindings work)
    (rest : ∀ result, post result → Build.Lockstep scope [] fun scope => next scope result) :
    Build.Lockstep scope bindings fun scope => work scope >>= next scope := by
  have hall := bind traced first rest
  rwa [List.append_nil] at hall

theorem andThen {post : α → Prop} {work : Scope → Build α} {next : Scope → α → Build β}
    (traced : Build.Traced scope (fun _ => True) [] post (work scope))
    (blind : ∀ store, Build.run (work (scope.withPolicy .reject)) store =
      Build.run (work scope) store)
    (rest : ∀ result, post result →
      Build.Lockstep scope bindings fun scope => next scope result) :
    Build.Lockstep scope bindings fun scope => work scope >>= next scope :=
  bind traced (same blind) rest

theorem refuse (condition : Prop) [Decidable condition] {refusal : Build Unit}
    {next : Scope → Unit → Build α}
    (rest : Build.Lockstep scope bindings fun scope => next scope ())
    (refuses : ∀ store, ∃ failure after, Build.run refusal store = (.error failure, after)) :
    Build.Lockstep scope bindings fun scope =>
      if condition then refusal >>= next scope else next scope () := by
  split
  · intro store _
    obtain ⟨failure, after, hrun⟩ := refuses store
    rw [Build.run_bind, Build.run_bind, hrun]
    exact .inl ⟨rfl, by simp⟩
  · exact rest

theorem bindType (overwrites : scope.policy = .overwrite) (name : String) (type : Ty) :
    Build.Lockstep scope [.type name] fun scope => scope.bindType name type := by
  intro store settled
  rw [Scope.run_bindType, Scope.run_bindType]
  exact .guarded overwrites Scope.fresh_type

theorem bindNew (overwrites : scope.policy = .overwrite) {name : String} {value : Value}
    {binding : Binding} (binds : (Act.bind name value).binding? = some binding) :
    Build.Lockstep scope [binding]
      fun scope => (do scope.bindVar name (← Store.newCell value)) := by
  intro store settled
  rw [Scope.run_bindNew, Scope.run_bindNew]
  cases Option.some.inj binds
  apply Build.Agree.guarded overwrites
  apply Scope.fresh_var
  · cases value.isTag <;> rfl
  · cases value.isTag <;> rfl

theorem agree_bindConstant (overwrites : scope.policy = .overwrite) (tags : List Tag)
    {store : Store} (settled : scope.Settled store)
    (free : ∀ tag ∈ tags, ¬scope.HoldsVariable store tag.name) :
    Build.Agree scope (tags.map fun tag => .constant tag.name) store
      (Build.run (tags.forM (scope.withPolicy .reject).bindConstant) store)
      (Build.run (tags.forM scope.bindConstant) store) := by
  induction tags generalizing store with
  | nil => exact .inl ⟨rfl, fun _ _ => scope.fresh_nil store⟩
  | cons tag rest ih =>
      have hown := free tag List.mem_cons_self
      have hrun : Build.run (scope.bindConstant tag) store =
          (.ok (), (Act.bind tag.name (.tag tag)).apply scope store) := by
        refine (scope.run_bindNew tag.name (.tag tag) store).trans ?_
        simp [overwrites]
      have hacts : scope.Performs store [.bind tag.name (.tag tag)]
          (Build.run (scope.bindConstant tag) store).2 := by
        rw [hrun]
        exact .single (Scope.allowed_bind_tag hown)
      refine Build.Agree.bind settled.made hacts (fun _ _ => rfl)
        (bindNew overwrites rfl store settled) fun _ middle hmiddle => ?_
      rw [hrun] at hmiddle
      cases hmiddle
      refine ih (Act.settled_apply settled) fun other hother => ?_
      rw [Scope.holdsVariable_bind_tag settled hown]
      exact free other (List.mem_cons_of_mem _ hother)

/-- Neither policy lets a constant take the place of a variable. -/
theorem bindConstants (overwrites : scope.policy = .overwrite) {type : EitherType}
    {variants : List VariantDecl} (written : type.WrittenAs variants) :
    Build.Lockstep scope (VariantDecl.bindings variants) fun scope => scope.bindConstants type := by
  intro store settled
  obtain ⟨hstore, hfree⟩ := scope.requireAllConstantOrFree type.constants store
  have hblind : Build.run (type.constants.forM fun tag =>
      (scope.withPolicy .reject).requireConstantOrFree tag.name) store =
    Build.run (type.constants.forM fun tag => scope.requireConstantOrFree tag.name) store := rfl
  unfold Scope.bindConstants
  rw [Build.run_bind, Build.run_bind, hblind]
  rcases hrun : Build.run (type.constants.forM fun tag =>
      scope.requireConstantOrFree tag.name) store with ⟨_ | _, after⟩
  · exact .inl ⟨rfl, by simp⟩
  · rw [hrun] at hstore hfree
    cases hstore
    rw [← written.names_constants]
    exact agree_bindConstant overwrites type.constants settled (hfree.1 rfl)

end Build.Lockstep

section

variable {scope : Scope}

mutual

theorem TypeExpr.lockstep_elaborate (overwrites : scope.policy = .overwrite) :
    (expression : TypeExpr) → ∀ name : Option String,
    Build.Lockstep scope expression.bindings fun scope => expression.elaborate scope name
  | .alias target span, _ => (Build.Lockstep.same fun _ => rfl).locate span
  | .range low high span, name => (Build.Lockstep.same fun _ => rfl).locate span
  | .record fields span, name => by
      refine Build.Lockstep.locate ?_ span
      refine .bindStill (FieldDecl.traced_elaborateList scope _ fields (List.Subset.refl _) _
        .empty) (FieldDecl.lockstep_elaborateList overwrites fields _ .empty) fun _ _ => ?_
      exact .same fun _ => rfl
  | .either [] span, _ => (Build.Lockstep.fail _).locate span
  | .either (first :: rest) span, name => by
      refine Build.Lockstep.locate ?_ span
      rw [TypeExpr.bindings_either]
      refine .bind (VariantDecl.traced_elaborate scope _ first (List.Subset.refl _) _ [])
        (VariantDecl.lockstep_elaborate overwrites first _ []) fun alternative hfirst => ?_
      refine .bind (VariantDecl.traced_elaborateList scope _ rest (List.Subset.refl _) _ _)
        (VariantDecl.lockstep_elaborateList overwrites rest _ _) fun alternatives hrest => ?_
      refine .andThen (Build.Traced.header trivial) (fun _ => rfl) fun header _ => ?_
      have hwritten := EitherType.writtenAs_ofAlternatives header (.cons hfirst hrest)
      refine .bindStill
        (Build.Traced.bindConstants hwritten (List.mem_singleton_self _))
        (.bindConstants overwrites hwritten) fun _ _ => ?_
      exact .same fun _ => rfl
  | .generic base [element] (some index) span, name => by
      refine Build.Lockstep.locate ?_ span
      rw [TypeExpr.bindings_generic]
      refine .andThen (TypeExpr.traced_requireArray base) (fun _ => rfl) fun _ _ => ?_
      refine .bind (TypeExpr.traced_elaborate scope _ element (List.Subset.refl _) none)
        (TypeExpr.lockstep_elaborate overwrites element none) fun elementType _ => ?_
      refine .bindStill (TypeExpr.traced_elaborate scope _ index (List.Subset.refl _) none)
        (TypeExpr.lockstep_elaborate overwrites index none) fun indexType _ => ?_
      exact .same fun _ => rfl
  | .generic base [_] none span, _ =>
      (Build.Lockstep.andThen (TypeExpr.traced_requireArray base) (fun _ => rfl)
        fun _ _ => .fail _).locate span
  | .generic base [] index span, _ => by
      cases index <;>
        exact (Build.Lockstep.andThen (TypeExpr.traced_requireArray base) (fun _ => rfl)
          fun _ _ => .fail _).locate span
  | .generic base (_ :: _ :: _) index span, _ => by
      cases index <;>
        exact (Build.Lockstep.andThen (TypeExpr.traced_requireArray base) (fun _ => rfl)
          fun _ _ => .fail _).locate span
  | .unknown _ span, _ => (Build.Lockstep.fail _).locate span
  termination_by structural expression => expression

theorem FieldDecl.lockstep_elaborate (overwrites : scope.policy = .overwrite) :
    (field : FieldDecl) →
    ∀ (owner : String) (layout : Layout),
      Build.Lockstep scope (field.eithers.flatMap VariantDecl.bindings)
        fun scope => field.elaborate scope owner layout
  | ⟨name, type, span⟩, owner, layout => by
      refine Build.Lockstep.locate ?_ span
      refine .refuse (layout.contains name) ?_ fun store => ⟨_, _, rfl⟩
      refine .bindStill (TypeExpr.traced_elaborate scope _ type (List.Subset.refl _) none)
        (TypeExpr.lockstep_elaborate overwrites type none) fun _ _ => ?_
      exact .same fun _ => rfl
  termination_by structural field => field

theorem FieldDecl.lockstep_elaborateList (overwrites : scope.policy = .overwrite) :
    (fields : List FieldDecl) →
    ∀ (owner : String) (layout : Layout),
      Build.Lockstep scope ((FieldDecl.eithersList fields).flatMap VariantDecl.bindings)
        fun scope => FieldDecl.elaborateList scope owner layout fields
  | [], _, _ => .same fun _ => rfl
  | field :: rest, owner, layout => by
      rw [FieldDecl.eithersList, List.flatMap_append]
      refine .bind (FieldDecl.traced_elaborate scope _ field (List.Subset.refl _) owner layout)
        (FieldDecl.lockstep_elaborate overwrites field owner layout) fun elaborated _ => ?_
      refine .bindStill (FieldDecl.traced_elaborateList scope _ rest (List.Subset.refl _) owner _)
        (FieldDecl.lockstep_elaborateList overwrites rest owner _) fun _ _ => ?_
      exact .same fun _ => rfl
  termination_by structural fields => fields

theorem VariantDecl.lockstep_elaborate (overwrites : scope.policy = .overwrite) :
    (variant : VariantDecl) →
    ∀ (owner : String) (seen : List String),
      Build.Lockstep scope (variant.eithers.flatMap VariantDecl.bindings)
        fun scope => variant.elaborate scope owner seen
  | ⟨name, none, span⟩, owner, seen => .same fun _ => rfl
  | ⟨name, some fields, span⟩, owner, seen => by
      simp only [VariantDecl.elaborate]
      refine .refuse (name ∈ seen) ?_ fun store => ⟨_, _, rfl⟩
      refine .bindStill
        (FieldDecl.traced_elaborateList scope _ fields (List.Subset.refl _) name .empty)
        (FieldDecl.lockstep_elaborateList overwrites fields name .empty) fun _ _ => ?_
      exact .same fun _ => rfl
  termination_by structural variant => variant

theorem VariantDecl.lockstep_elaborateList (overwrites : scope.policy = .overwrite) :
    (variants : List VariantDecl) →
    ∀ (owner : String) (seen : List String),
      Build.Lockstep scope ((VariantDecl.eithersList variants).flatMap VariantDecl.bindings)
        fun scope => VariantDecl.elaborateList scope owner seen variants
  | [], _, _ => .same fun _ => rfl
  | variant :: rest, owner, seen => by
      rw [VariantDecl.eithersList, List.flatMap_append]
      refine .bind (VariantDecl.traced_elaborate scope _ variant (List.Subset.refl _) owner seen)
        (VariantDecl.lockstep_elaborate overwrites variant owner seen) fun alternative _ => ?_
      refine .bindStill
        (VariantDecl.traced_elaborateList scope _ rest (List.Subset.refl _) owner _)
        (VariantDecl.lockstep_elaborateList overwrites rest owner _) fun _ _ => ?_
      exact .same fun _ => rfl
  termination_by structural variants => variants

end

end

end StateModel
