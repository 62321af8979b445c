import StateModel.Proofs.Declared
import StateModel.Proofs.Shapes

/-!
How an either type binds its constants. All names are looked at before the first
is bound, which keeps variables safe. Under the policy that rejects names bound
twice there is a second reason to refuse: a constant that is bound already. It is
found when its turn comes, and the constants before it stay bound.
-/
namespace StateModel

def VariantDecl.constantNames (variants : List VariantDecl) : List String :=
  (variants.filter VariantDecl.isConstant).map (·.name)

theorem VariantDecl.bindings_eq (variants : List VariantDecl) :
    VariantDecl.bindings variants = (VariantDecl.constantNames variants).map .constant := by
  simp [bindings, constantNames, Function.comp_def]

theorem EitherType.WrittenAs.names_eq {type : EitherType} {variants : List VariantDecl}
    (written : type.WrittenAs variants) :
    type.constants.map Tag.name = VariantDecl.constantNames variants := by
  have hbindings := written.names_constants
  rw [VariantDecl.bindings_eq] at hbindings
  have hinjective : Function.Injective Binding.constant := fun _ _ same => by cases same; rfl
  refine hinjective.list_map ?_
  rw [← hbindings, List.map_map]
  rfl

theorem EitherType.nodup_constants {type : EitherType}
    (distinct : (type.variants.map (·.name)).Nodup) : (type.constants.map Tag.name).Nodup := by
  have hnames : type.constants.map Tag.name =
      (type.variants.filter Variant.isConstant).map (·.name) := by
    rw [← type.map_variant_constants, List.map_map]
    rfl
  rw [hnames]
  exact distinct.sublist (List.filter_sublist.map _)

namespace Scope

def bindAll (scope : Scope) (tags : List Tag) (store : Store) : Store :=
  tags.foldl (fun store tag => (Act.bind tag.name (.tag tag)).apply scope store) store

variable {scope : Scope} {store : Store}

theorem performs_bindAll (settled : scope.Settled store) {tags : List Tag}
    (free : ∀ tag ∈ tags, ¬scope.HoldsVariable store tag.name) :
    scope.Performs store (tags.map fun tag => .bind tag.name (.tag tag))
      (scope.bindAll tags store) := by
  induction tags generalizing store with
  | nil => exact .done store
  | cons tag rest ih =>
      have hown := free tag List.mem_cons_self
      refine .act (allowed_bind_tag hown) (ih (Act.settled_apply settled) fun other hother => ?_)
      rw [holdsVariable_bind_tag settled hown]
      exact free other (List.mem_cons_of_mem _ hother)

theorem settled_bindAll (settled : scope.Settled store) (tags : List Tag) :
    scope.Settled (scope.bindAll tags store) := by
  induction tags generalizing store with
  | nil => exact settled
  | cons tag rest ih => exact ih (Act.settled_apply settled)

theorem localVar?_bindAll_of_ne (settled : scope.Settled store) {tags : List Tag} {name : String}
    (other : name ∉ tags.map Tag.name) :
    scope.localVar? (scope.bindAll tags store) name = scope.localVar? store name := by
  induction tags generalizing store with
  | nil => rfl
  | cons tag rest ih =>
      rw [List.map_cons, List.mem_cons, not_or] at other
      refine (ih (Act.settled_apply settled) other.2).trans ?_
      exact (Act.localVar?_bind settled.made _ _ _).trans (if_neg other.1)

theorem localValue?_bindAll_of_ne (settled : scope.Settled store) {tags : List Tag} {name : String}
    (other : name ∉ tags.map Tag.name) :
    scope.localValue? (scope.bindAll tags store) name = scope.localValue? store name := by
  induction tags generalizing store with
  | nil => rfl
  | cons tag rest ih =>
      rw [List.map_cons, List.mem_cons, not_or] at other
      refine (ih (Act.settled_apply settled) other.2).trans ?_
      exact (Act.localValue?_bind settled _ _ _).trans (if_neg other.1)

theorem localValue?_bindAll (settled : scope.Settled store) {tags : List Tag}
    (distinct : (tags.map Tag.name).Nodup) {tag : Tag} (inside : tag ∈ tags) :
    scope.localValue? (scope.bindAll tags store) tag.name = some (.tag tag) := by
  induction tags generalizing store with
  | nil => exact nomatch inside
  | cons first rest ih =>
      rw [List.map_cons, List.nodup_cons] at distinct
      rcases List.mem_cons.1 inside with rfl | later
      · refine (localValue?_bindAll_of_ne (Act.settled_apply settled) distinct.1).trans ?_
        exact (Act.localValue?_bind settled _ _ _).trans (if_pos rfl)
      · exact ih (Act.settled_apply settled) distinct.2 later

theorem localVarNames_bindAll (settled : scope.Settled store) {tags : List Tag}
    (distinct : (tags.map Tag.name).Nodup)
    (unbound : ∀ tag ∈ tags, tag.name ∉ scope.localVarNames store) :
    scope.localVarNames (scope.bindAll tags store) =
      scope.localVarNames store ++ tags.map Tag.name := by
  induction tags generalizing store with
  | nil => simp [bindAll]
  | cons tag rest ih =>
      rw [List.map_cons, List.nodup_cons] at distinct
      rw [List.forall_mem_cons] at unbound
      have hnames := Act.localVarNames_bind settled.made tag.name (.tag tag)
      rw [if_neg unbound.1] at hnames
      refine (ih (Act.settled_apply settled) distinct.2 fun other hother => ?_).trans ?_
      · rw [hnames, List.mem_append, List.mem_singleton]
        rintro (old | same)
        · exact unbound.2 other hother old
        · exact distinct.1 (List.mem_map.2 ⟨other, hother, same⟩)
      · rw [hnames, List.append_assoc, List.map_cons]
        rfl

theorem run_forM_bindConstant_of_overwrite (overwrites : scope.policy = .overwrite)
    (tags : List Tag) (store : Store) :
    Build.run (tags.forM scope.bindConstant) store = (.ok (), scope.bindAll tags store) := by
  induction tags generalizing store with
  | nil => rfl
  | cons tag rest ih =>
      have hrun : Build.run (scope.bindConstant tag) store = _ :=
        scope.run_bindNew tag.name (.tag tag) store
      rw [Build.run_forM_cons, hrun, if_neg (by simp [overwrites])]
      exact ih _

/-- The constants are bound in their order, up to the first that a strict frame has
already: that one is refused, and what was bound before it stays. -/
theorem run_forM_bindConstant (settled : scope.Settled store) {tags : List Tag}
    (distinct : (tags.map Tag.name).Nodup) :
    Build.run (tags.forM scope.bindConstant) store = (.ok (), scope.bindAll tags store) ∨
      ∃ before tag later, tags = before ++ tag :: later ∧ scope.policy = .reject ∧
        (∀ other ∈ before, ¬scope.hasLocalVar store other.name = true) ∧
        scope.hasLocalVar store tag.name = true ∧
        Build.run (tags.forM scope.bindConstant) store =
          (.error { problem := .duplicateDeclaration tag.name },
            (Act.spare (.tag tag)).apply scope (scope.bindAll before store)) := by
  induction tags generalizing store with
  | nil => exact .inl rfl
  | cons tag rest ih =>
      rw [List.map_cons, List.nodup_cons] at distinct
      have hrun : Build.run (scope.bindConstant tag) store = _ :=
        scope.run_bindNew tag.name (.tag tag) store
      rw [Build.run_forM_cons, hrun]
      split_ifs with refused
      · exact .inr ⟨[], tag, rest, rfl, refused.1, by simp, refused.2, rfl⟩
      · have hkept : ∀ other ∈ rest,
            scope.hasLocalVar ((Act.bind tag.name (.tag tag)).apply scope store) other.name =
                true ↔ scope.hasLocalVar store other.name = true := by
          intro other hother
          rw [Act.hasLocalVar_apply settled.made, or_iff_left]
          intro same
          have hname : tag.name = other.name := Option.some.inj same
          exact distinct.1 (hname ▸ List.mem_map_of_mem hother)
        rcases ih (Act.settled_apply settled) distinct.2 with
          hdone | ⟨before, own, later, rfl, strict, unbound, bound, hstop⟩
        · exact .inl hdone
        · refine .inr ⟨tag :: before, own, later, rfl, strict, ?_, ?_, hstop⟩
          · rw [List.forall_mem_cons]
            refine ⟨fun old => refused ⟨strict, old⟩, fun other hother => ?_⟩
            rw [← hkept other (by simp [hother])]
            exact unbound other hother
          · exact (hkept own (by simp)).1 bound

theorem run_requireConstantOrFree_of_holds {name : String}
    (held : scope.HoldsVariable store name) :
    Build.run (scope.requireConstantOrFree name) store =
      (.error { problem := .duplicateDeclaration name }, store) := by
  obtain ⟨value, hvalue, hcontent⟩ := held
  rw [run_requireConstantOrFree, hvalue]
  cases value with
  | tag => simp [Value.isTag] at hcontent
  | range | record | either | array => rfl

theorem run_requireConstantOrFree_of_free {name : String}
    (free : ¬scope.HoldsVariable store name) :
    Build.run (scope.requireConstantOrFree name) store = (.ok (), store) :=
  Prod.ext ((scope.requireConstantOrFree_iff name store).2 free)
    (scope.run_requireConstantOrFree_store name store)

theorem run_forM_requireConstantOrFree (scope : Scope) (tags : List Tag) (store : Store) :
    (∀ tag ∈ tags, ¬scope.HoldsVariable store tag.name) ∧
        Build.run (tags.forM fun tag => scope.requireConstantOrFree tag.name) store =
          (.ok (), store) ∨
      ∃ before tag later, tags = before ++ tag :: later ∧
        scope.HoldsVariable store tag.name ∧
        Build.run (tags.forM fun tag => scope.requireConstantOrFree tag.name) store =
          (.error { problem := .duplicateDeclaration tag.name }, store) := by
  induction tags with
  | nil => exact .inl ⟨by simp, rfl⟩
  | cons tag rest ih =>
      rw [Build.run_forM_cons]
      by_cases held : scope.HoldsVariable store tag.name
      · rw [run_requireConstantOrFree_of_holds held]
        exact .inr ⟨[], tag, rest, rfl, held, rfl⟩
      · rw [run_requireConstantOrFree_of_free held]
        rcases ih with ⟨hall, hdone⟩ | ⟨before, own, later, rfl, hown, hstop⟩
        · exact .inl ⟨List.forall_mem_cons.2 ⟨held, hall⟩, hdone⟩
        · exact .inr ⟨tag :: before, own, later, rfl, hown, hstop⟩

/-- Why constants are refused, and what that leaves: nothing where one of them would
take the place of a variable, and else those before the first that is bound already. -/
inductive Refuses (scope : Scope) (store : Store) (tags : List Tag) : String → Store → Prop where
  | held {before : List Tag} {tag : Tag} {later : List Tag}
      (split : tags = before ++ tag :: later) (held : scope.HoldsVariable store tag.name) :
      scope.Refuses store tags tag.name store
  | bound {before : List Tag} {tag : Tag} {later : List Tag}
      (split : tags = before ++ tag :: later) (strict : scope.policy = .reject)
      (free : ∀ other ∈ tags, ¬scope.HoldsVariable store other.name)
      (unbound : ∀ other ∈ before, ¬scope.hasLocalVar store other.name = true)
      (bound : scope.hasLocalVar store tag.name = true) :
      scope.Refuses store tags tag.name
        ((Act.spare (.tag tag)).apply scope (scope.bindAll before store))

theorem HoldsVariable.hasLocalVar {name : String} (held : scope.HoldsVariable store name) :
    scope.hasLocalVar store name = true := by
  obtain ⟨value, hvalue, -⟩ := held
  obtain ⟨cell, hcell, -⟩ := Option.bind_eq_some_iff.1 hvalue
  exact Option.isSome_iff_exists.2 ⟨cell, hcell⟩

structure BindsOnly (scope : Scope) (names : List String) (store after : Store) : Prop where
  joined : scope.localVarNames after = scope.localVarNames store ++ names
  constants : ∀ name ∈ names, ∃ tag, tag.name = name ∧
    scope.localValue? after name = some (.tag tag)
  kept : ∀ name, name ∉ names → scope.localVar? after name = scope.localVar? store name

theorem bindsOnly_bindAll (settled : scope.Settled store) {tags : List Tag}
    (distinct : (tags.map Tag.name).Nodup)
    (unbound : ∀ tag ∈ tags, ¬scope.hasLocalVar store tag.name = true) (spare : Value) :
    scope.BindsOnly (tags.map Tag.name) store
      ((Act.spare spare).apply scope (scope.bindAll tags store)) where
  joined := localVarNames_bindAll settled distinct fun tag htag =>
    mt Bindings.contains_iff.2 (unbound tag htag)
  constants := by
    intro name hname
    obtain ⟨tag, htag, rfl⟩ := List.mem_map.1 hname
    refine ⟨tag, rfl, (Act.localValue?_apply (settled_bindAll settled tags) (by simp) _).trans ?_⟩
    exact localValue?_bindAll settled distinct htag
  kept := fun name other => localVar?_bindAll_of_ne settled other

theorem Refuses.leaves (settled : scope.Settled store) {tags : List Tag} {name : String}
    {after : Store} (distinct : (tags.map Tag.name).Nodup)
    (refuses : scope.Refuses store tags name after) :
    ∃ before later, tags.map Tag.name = before ++ name :: later ∧
      scope.hasLocalVar store name = true ∧
      (∀ id, id ≠ scope.frame → after.frame id = store.frame id) ∧
      (after.frame scope.frame = store.frame scope.frame ↔
        (∃ other ∈ tags.map Tag.name, scope.HoldsVariable store other) ∨ before = []) ∧
      (after.frame scope.frame ≠ store.frame scope.frame →
        scope.policy = .reject ∧ scope.BindsOnly before store after) := by
  cases refuses with
  | @held before tag later split held =>
      subst split
      refine ⟨before.map Tag.name, later.map Tag.name, by simp, held.hasLocalVar,
        fun _ _ => rfl, ?_, fun changed => absurd rfl changed⟩
      exact iff_of_true rfl (.inl ⟨tag.name, by simp, held⟩)
  | @bound before tag later split strict free unbound bound =>
      subst split
      have hdistinct : (before.map Tag.name).Nodup := by
        rw [List.map_append] at distinct
        exact (List.nodup_append'.1 distinct).1
      have honly := bindsOnly_bindAll settled hdistinct unbound (.tag tag)
      have hfree : ∀ other ∈ before, ¬scope.HoldsVariable store other.name :=
        fun other hother => free other (by simp [hother])
      refine ⟨before.map Tag.name, later.map Tag.name, by simp, bound,
        fun id other => (performs_bindAll settled hfree).frame_of_ne other, ⟨?_, ?_⟩,
        fun _ => ⟨strict, honly⟩⟩
      · intro same
        have hjoined := honly.joined
        unfold localVarNames at hjoined
        rw [same] at hjoined
        exact .inr (List.self_eq_append_right.1 hjoined)
      · rintro (⟨other, hother, held⟩ | none)
        · obtain ⟨constant, hconstant, rfl⟩ := List.mem_map.1 hother
          exact absurd held (free constant hconstant)
        · cases List.map_eq_nil_iff.1 none
          rfl

theorem run_bindConstants (settled : scope.Settled store) {type : EitherType}
    (distinct : (type.constants.map Tag.name).Nodup) :
    (∀ tag ∈ type.constants, ¬scope.HoldsVariable store tag.name) ∧
        Build.run (scope.bindConstants type) store =
          (.ok (), scope.bindAll type.constants store) ∨
      ∃ name after, scope.Refuses store type.constants name after ∧
        Build.run (scope.bindConstants type) store =
          (.error { problem := .duplicateDeclaration name }, after) := by
  unfold bindConstants
  rw [Build.run_bind]
  rcases scope.run_forM_requireConstantOrFree type.constants store with
    ⟨hfree, hchecked⟩ | ⟨before, tag, later, hsplit, held, hchecked⟩
  · rw [hchecked]
    rcases run_forM_bindConstant settled distinct with
      hdone | ⟨before, tag, later, hsplit, strict, unbound, bound, hstop⟩
    · exact .inl ⟨hfree, hdone⟩
    · exact .inr ⟨tag.name, _, .bound hsplit strict hfree unbound bound, hstop⟩
  · rw [hchecked]
    exact .inr ⟨tag.name, store, .held hsplit held, rfl⟩

end Scope

/-! Either expressions, whose parts are built before any of their own constants is
bound. -/

theorem VariantDecl.gives_alternative (scope : Scope) (owner : String) (seen : List String)
    (variant : VariantDecl) : Build.Gives
      (fun alternative => alternative.WrittenAs variant ∧ alternative.name ∉ seen)
      (variant.elaborate scope owner seen) := by
  obtain ⟨name, fields, span⟩ := variant
  cases fields with
  | none =>
      rw [VariantDecl.elaborate]
      split
      · exact ((Build.Gives.fail _).locate span).bind fun _ impossible => False.elim impossible
      · next unseen => exact .pure ⟨⟨rfl, rfl⟩, unseen⟩
  | some fields =>
      rw [VariantDecl.elaborate]
      split
      · exact ((Build.Gives.fail _).locate span).bind fun _ impossible => False.elim impossible
      · next unseen =>
        refine (Build.Gives.anything _).bind fun _ _ => ?_
        exact (Build.Gives.header _ _).bind fun _ _ => .pure ⟨⟨rfl, rfl⟩, unseen⟩

theorem VariantDecl.gives_alternatives (scope : Scope) (owner : String)
    (variants : List VariantDecl) (seen : List String) : Build.Gives
      (fun alternatives => List.Forall₂ Alternative.WrittenAs alternatives variants ∧
        FreshNames seen (alternatives.map (·.name)))
      (VariantDecl.elaborateList scope owner seen variants) := by
  induction variants generalizing seen with
  | nil => exact .pure ⟨.nil, by simp [FreshNames]⟩
  | cons variant rest ih =>
      refine (VariantDecl.gives_alternative scope owner seen variant).bind
        fun alternative given => ?_
      refine (ih (alternative.name :: seen)).bind fun others givenRest => ?_
      exact .pure ⟨.cons given.1 givenRest.1, .cons given.2 givenRest.2⟩

theorem TypeExpr.run_elaborate_either {scope : Scope} {name : Option String} {first : VariantDecl}
    {rest : List VariantDecl} {store middle : Store} {alternatives : List Alternative}
    (parts : Build.run (VariantDecl.elaborateList scope (name.getD "either") [] (first :: rest))
      store = (.ok alternatives, middle)) (span : Span) :
    ∃ type : EitherType, type.WrittenAs (first :: rest) ∧
      (type.constants.map Tag.name).Nodup ∧ type.header = ⟨middle.nextType, name, span⟩ ∧
      Build.run ((TypeExpr.either (first :: rest) span).elaborate scope name) store =
        Build.run (Build.locate span (do scope.bindConstants type; return .either type))
          { middle with nextType := middle.nextType + 1 } := by
  have hgiven := VariantDecl.gives_alternatives scope _ _ [] _ _ _ parts
  rw [VariantDecl.elaborateList] at parts
  obtain ⟨alternative, start, hfirst, hlist⟩ := Build.run_bind_eq_ok.1 parts
  obtain ⟨others, last, hothers, hlast⟩ := Build.run_bind_eq_ok.1 hlist
  cases hlast
  refine ⟨.ofAlternatives ⟨middle.nextType, name, span⟩ alternative others,
    EitherType.writtenAs_ofAlternatives _ hgiven.1, ?_, rfl, ?_⟩
  · have hnames : ((EitherType.ofAlternatives ⟨middle.nextType, name, span⟩ alternative
        others).variants.map (·.name)).Nodup := by
      rw [EitherType.names_ofAlternatives]
      exact hgiven.2.1
    exact EitherType.nodup_constants hnames
  · rw [TypeExpr.elaborate]
    simp only [Build.run_locate, Build.run_bind, hfirst, hothers, Store.run_newHeader]

/-- The constants of an either type are refused because one of them is bound in the
frame already, and it is that one that is reported. The frame is then as it was
before the first was bound, unless none of them stands for a variable and the one that
is refused is not the first: then those before it have been bound, and stay so. -/
theorem TypeExpr.refused_constants {scope : Scope} {name : Option String} {first : VariantDecl}
    {rest : List VariantDecl} {span : Span} {store middle after : Store}
    {alternatives : List Alternative} {failure : Failure} (settled : scope.Settled store)
    (parts : Build.run (VariantDecl.elaborateList scope (name.getD "either") [] (first :: rest))
      store = (.ok alternatives, middle))
    (refused : Build.run ((TypeExpr.either (first :: rest) span).elaborate scope name) store =
      (.error failure, after)) :
    ∃ before own later, VariantDecl.constantNames (first :: rest) = before ++ own :: later ∧
      failure.problem = .duplicateDeclaration own ∧ scope.hasLocalVar middle own = true ∧
      (∀ id, id ≠ scope.frame → after.frame id = middle.frame id) ∧
      (after.frame scope.frame = middle.frame scope.frame ↔
        (∃ other ∈ VariantDecl.constantNames (first :: rest),
          scope.HoldsVariable middle other) ∨ before = []) ∧
      (after.frame scope.frame ≠ middle.frame scope.frame →
        scope.policy = .reject ∧ scope.BindsOnly before middle after) := by
  obtain ⟨acts, hacts, -, -⟩ := VariantDecl.traced_elaborateList scope _ (first :: rest)
    (List.Subset.refl _) (name.getD "either") [] store settled
  rw [parts] at hacts
  have hsettled : scope.Settled { middle with nextType := middle.nextType + 1 } :=
    Act.settled_number (hacts.settled settled)
  obtain ⟨type, hwritten, hdistinct, -, hrun⟩ := TypeExpr.run_elaborate_either parts span
  rw [← hwritten.names_eq]
  rw [hrun, Build.run_locate, Build.run_bind] at refused
  rcases Scope.run_bindConstants hsettled hdistinct with ⟨-, hdone⟩ | ⟨own, last, hrefuses, hstop⟩
  · rw [hdone] at refused
    exact nomatch (Prod.ext_iff.1 refused).1
  · rw [hstop] at refused
    obtain ⟨hfailure, rfl⟩ := Prod.ext_iff.1 refused
    cases hfailure
    obtain ⟨before, later, hsplit, hown, hother, hframe, hchanged⟩ :=
      hrefuses.leaves hsettled hdistinct
    refine ⟨before, own, later, hsplit, Failure.located_problem _ _, hown, hother, hframe, ?_⟩
    intro changed
    obtain ⟨strict, honly⟩ := hchanged changed
    exact ⟨strict, honly.joined, honly.constants, honly.kept⟩

theorem TypeExpr.refused_constants_later :
    ∃ (scope : Scope) (tag : Tag) (store middle after : Store) (alternatives : List Alternative)
      (failure : Failure), scope.policy = .reject ∧ tag.name = "B" ∧
      store = scope.bindAll [tag] { frames := #[{}] } ∧
      Build.run (VariantDecl.elaborateList scope "either" []
        [⟨"A", none, .dummy⟩, ⟨"B", none, .dummy⟩]) store = (.ok alternatives, middle) ∧
      Build.run ((TypeExpr.either [⟨"A", none, .dummy⟩, ⟨"B", none, .dummy⟩]).elaborate scope none)
        store = (.error failure, after) ∧ failure.problem = .duplicateDeclaration "B" ∧
      scope.BindsOnly ["A"] middle after := by
  let scope : Scope := ⟨0, [], .reject⟩
  let tag : Tag := EitherType.firstTag ⟨⟨0, none, .dummy⟩, ⟨"B", 0, 0, none⟩, []⟩
  let store := scope.bindAll [tag] { frames := #[{}] }
  have settled : scope.Settled store :=
    Scope.settled_bindAll (Scope.settled_fresh {} [] .reject) [tag]
  have parts : Build.run (VariantDecl.elaborateList scope ((none : Option String).getD "either") []
      [⟨"A", none, .dummy⟩, ⟨"B", none, .dummy⟩]) store = (.ok _, _) := rfl
  have refused : Build.run ((TypeExpr.either [⟨"A", none, .dummy⟩,
      ⟨"B", none, .dummy⟩]).elaborate scope none) store = (.error _, _) := rfl
  obtain ⟨before, own, later, hsplit, hproblem, -, -, -, hchanged⟩ :=
    TypeExpr.refused_constants settled parts refused
  refine ⟨scope, tag, store, _, _, _, _, rfl, by decide, rfl, parts, refused, rfl, ?_⟩
  obtain ⟨-, honly⟩ := hchanged fun same => absurd (congrArg (·.vars.names) same) (by decide)
  have hown : own = "B" := by
    cases hproblem
    rfl
  subst hown
  have hjoined : ["B"] ++ ["A"] = ["B"] ++ before := honly.joined
  cases List.append_cancel_left hjoined
  exact honly

/-- Constants are not bound all or none: the frame that refuses one of them is not
always left as it was. -/
theorem TypeExpr.constants_half_bound :
    ¬∀ (scope : Scope) (name : Option String) (first : VariantDecl) (rest : List VariantDecl)
      (span : Span) (store middle after : Store) (alternatives : List Alternative)
      (failure : Failure) (own : String), scope.Settled store →
      Build.run (VariantDecl.elaborateList scope (name.getD "either") [] (first :: rest)) store =
        (.ok alternatives, middle) →
      Build.run ((TypeExpr.either (first :: rest) span).elaborate scope name) store =
        (.error failure, after) →
      failure.problem = .duplicateDeclaration own →
      own ∈ VariantDecl.constantNames (first :: rest) → scope.hasLocalVar middle own = true →
      after.frame scope.frame = middle.frame scope.frame := by
  intro whole
  let scope : Scope := ⟨0, [], .reject⟩
  let tag : Tag := EitherType.firstTag ⟨⟨0, none, .dummy⟩, ⟨"B", 0, 0, none⟩, []⟩
  have hsame := whole scope none ⟨"A", none, .dummy⟩ [⟨"B", none, .dummy⟩] .dummy
    (scope.bindAll [tag] { frames := #[{}] }) _ _ _ _ "B"
    (Scope.settled_bindAll (Scope.settled_fresh {} [] .reject) [tag]) rfl rfl rfl (by decide)
    (by decide)
  exact absurd (congrArg (·.vars.names) hsame) (by decide)

end StateModel
