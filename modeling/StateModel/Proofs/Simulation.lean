import StateModel.Load
import StateModel.Proofs.Relabelling

/-!
The same declarations in two stores, side by side. The stores are the same under other
labels, and the declarations under other places. A simulation says of each primitive step
that it keeps them so; elaborations and loads are made of such steps, and so they keep
them so as well.
-/
namespace StateModel

/-! Declarations under other places. -/

mutual

def TypeExpr.relabel (labels : Relabelling) : TypeExpr → TypeExpr
  | .alias name span => .alias name (labels.place span)
  | .range low high span => .range low high (labels.place span)
  | .record fields span => .record (FieldDecl.relabelAll labels fields) (labels.place span)
  | .either variants span => .either (VariantDecl.relabelAll labels variants) (labels.place span)
  | .generic base arguments none span =>
      .generic base (TypeExpr.relabelAll labels arguments) none (labels.place span)
  | .generic base arguments (some index) span =>
      .generic base (TypeExpr.relabelAll labels arguments) (some (index.relabel labels))
        (labels.place span)
  | .unknown kind span => .unknown kind (labels.place span)
  termination_by structural expression => expression

def TypeExpr.relabelAll (labels : Relabelling) : List TypeExpr → List TypeExpr
  | [] => []
  | expression :: rest => expression.relabel labels :: TypeExpr.relabelAll labels rest
  termination_by structural expressions => expressions

def FieldDecl.relabel (labels : Relabelling) : FieldDecl → FieldDecl
  | ⟨name, type, span⟩ => ⟨name, type.relabel labels, labels.place span⟩
  termination_by structural field => field

def FieldDecl.relabelAll (labels : Relabelling) : List FieldDecl → List FieldDecl
  | [] => []
  | field :: rest => field.relabel labels :: FieldDecl.relabelAll labels rest
  termination_by structural fields => fields

def VariantDecl.relabel (labels : Relabelling) : VariantDecl → VariantDecl
  | ⟨name, none, span⟩ => ⟨name, none, labels.place span⟩
  | ⟨name, some fields, span⟩ =>
      ⟨name, some (FieldDecl.relabelAll labels fields), labels.place span⟩
  termination_by structural variant => variant

def VariantDecl.relabelAll (labels : Relabelling) : List VariantDecl → List VariantDecl
  | [] => []
  | variant :: rest => variant.relabel labels :: VariantDecl.relabelAll labels rest
  termination_by structural variants => variants

end

def Literal.relabel (labels : Relabelling) : Literal → Literal
  | .number value span => .number value (labels.place span)
  | .ident name span => .ident name (labels.place span)

def Block.relabel (labels : Relabelling) (block : Block) : Block :=
  ⟨block.source, labels.place block.span⟩

def Rule.relabel (labels : Relabelling) : Rule → Rule
  | .once name body => .once name (body.relabel labels)
  | .each name index iterable body => .each name index iterable (body.relabel labels)

def Decl.relabel (labels : Relabelling) : Decl → Decl
  | .type name expression span => .type name (expression.relabel labels) (labels.place span)
  | .param name expression initial span =>
      .param name (expression.relabel labels) (initial.map (·.relabel labels)) (labels.place span)
  | .var name expression initial span =>
      .var name (expression.relabel labels) (initial.map (·.relabel labels)) (labels.place span)
  | .rule content span => .rule (content.relabel labels) (labels.place span)
  | .unknown kind span => .unknown kind (labels.place span)

def Contribution.relabel (labels : Relabelling) : Contribution → Contribution
  | .rule content => .rule (content.relabel labels)
  | .type => .type
  | .param name => .param name
  | .var name => .var name

section

variable (labels : Relabelling)

theorem TypeExpr.length_relabelAll (expressions : List TypeExpr) :
    (TypeExpr.relabelAll labels expressions).length = expressions.length := by
  induction expressions with
  | nil => rfl
  | cons expression rest ih => rw [relabelAll, List.length_cons, List.length_cons, ih]

@[simp] theorem TypeExpr.span_relabel (expression : TypeExpr) :
    (expression.relabel labels).span = labels.place expression.span := by
  rcases expression with _ | _ | _ | _ | ⟨_, _, _ | _, _⟩ | _ <;> rfl

@[simp] theorem Literal.span_relabel (literal : Literal) :
    (literal.relabel labels).span = labels.place literal.span := by
  cases literal <;> rfl

@[simp] theorem Decl.span_relabel (decl : Decl) :
    (decl.relabel labels).span = labels.place decl.span := by
  cases decl <;> rfl

@[simp] theorem Contribution.rule?_relabel (contribution : Contribution) :
    (contribution.relabel labels).rule? = contribution.rule?.map (·.relabel labels) := by
  cases contribution <;> rfl

@[simp] theorem DeclaredNames.add_relabel (names : DeclaredNames) (contribution : Contribution) :
    names.add (contribution.relabel labels) = names.add contribution := by
  cases contribution <;> rfl

end

/-! Two runs. -/

/-- How two stores hang together, and the failures of work that is done in both. -/
structure Pairing where
  related : Store → Store → Prop
  labels : Relabelling
  cell : CellId → CellId
  failure : Failure → Failure
  failure_problem : ∀ problem, failure { problem } = { problem }
  failure_located : ∀ span cause,
    failure (cause.located span) = (failure cause).located (labels.place span)

/-- In related stores both do the same, where `image` says what the same is, and leave
related stores. -/
def Build.Paired {α : Type} (pairing : Pairing) (image : α → α) (work other : Build α) : Prop :=
  ∀ store twin, pairing.related store twin →
    (Build.run other twin).1 = ((Build.run work store).1.map image).mapError pairing.failure ∧
    pairing.related (Build.run work store).2 (Build.run other twin).2

namespace Build.Paired

variable {pairing : Pairing} {α β : Type} {image : α → α} {imageNext : β → β}

theorem pure (result : α) : Build.Paired pairing image (pure result) (pure (image result)) :=
  fun _ _ related => ⟨rfl, related⟩

theorem fail (problem : Problem) :
    Build.Paired pairing image (Build.fail problem) (Build.fail problem) :=
  fun _ _ related => ⟨congrArg Except.error (pairing.failure_problem problem).symm, related⟩

theorem bind {work other : Build α} {next nextOther : α → Build β}
    (first : Build.Paired pairing image work other)
    (rest : ∀ result, Build.Paired pairing imageNext (next result) (nextOther (image result))) :
    Build.Paired pairing imageNext (work >>= next) (other >>= nextOther) := by
  intro store twin related
  obtain ⟨hresult, hafter⟩ := first store twin related
  rw [Build.run_bind, Build.run_bind]
  rcases hwork : Build.run work store with ⟨failure | result, middle⟩ <;>
    rcases hother : Build.run other twin with ⟨outcome, middleTwin⟩ <;>
    rw [hwork, hother] at hresult hafter <;> cases hresult
  · exact ⟨rfl, hafter⟩
  · exact rest result middle middleTwin hafter

theorem locate {work other : Build α} (paired : Build.Paired pairing image work other)
    (span : Span) :
    Build.Paired pairing image (Build.locate span work)
      (Build.locate (pairing.labels.place span) other) := by
  intro store twin related
  obtain ⟨hresult, hafter⟩ := paired store twin related
  rw [Build.run_locate, Build.run_locate, hresult]
  refine ⟨?_, hafter⟩
  cases (Build.run work store).1 with
  | ok result => rfl
  | error failure => exact congrArg Except.error (pairing.failure_located span failure).symm

theorem branch (condition : Prop) [Decidable condition] {work other : condition → Build α}
    {otherwise otherwiseOther : ¬condition → Build α}
    (holds : ∀ held, Build.Paired pairing image (work held) (other held))
    (fails : ∀ refuted, Build.Paired pairing image (otherwise refuted) (otherwiseOther refuted)) :
    Build.Paired pairing image
      (if held : condition then work held else otherwise held)
      (if held : condition then other held else otherwiseOther held) := by
  split
  · next held => exact holds held
  · next refuted => exact fails refuted

theorem refuse (condition : Prop) [Decidable condition] {refusal refusalOther : Build Unit}
    {next nextOther : Unit → Build α}
    (refuses : Build.Paired pairing id refusal refusalOther)
    (rest : Build.Paired pairing image (next ()) (nextOther ())) :
    Build.Paired pairing image (if condition then refusal >>= next else next ())
      (if condition then refusalOther >>= nextOther else nextOther ()) := by
  split
  · exact refuses.bind fun _ => rest
  · exact rest

theorem ofExcept {result other : Except Problem α} (same : other = result.map image) :
    Build.Paired pairing image (Build.ofExcept result) (Build.ofExcept other) := by
  rw [same]
  cases result with
  | error problem => exact fail problem
  | ok value => exact pure value

theorem forM {items : List α} {work other : α → Build Unit}
    (paired : ∀ item, Build.Paired pairing id (work item) (other (image item))) :
    Build.Paired pairing id (items.forM work) ((items.map image).forM other) := by
  induction items with
  | nil => exact pure ()
  | cons item rest ih => exact (paired item).bind fun _ => ih

end Build.Paired

/-- What is done in the one scope is done in the other alike, one primitive step at a
time. -/
structure Simulation (scope other : Scope) extends Pairing where
  injective : Function.Injective labels.number
  header : ∀ name span, Build.Paired toPairing (·.relabel labels) (Store.newHeader name span)
    (Store.newHeader name (labels.place span))
  newCell : ∀ value, Build.Paired toPairing cell (Store.newCell value)
    (Store.newCell (value.relabel labels))
  resolveType : ∀ name, Build.Paired toPairing (·.relabel labels) (scope.resolveType name)
    (other.resolveType name)
  resolveVar : ∀ name, Build.Paired toPairing cell (scope.resolveVar name)
    (other.resolveVar name)
  resolveValue : ∀ name, Build.Paired toPairing (·.relabel labels) (scope.resolveValue name)
    (other.resolveValue name)
  bindType : ∀ name type, Build.Paired toPairing id (scope.bindType name type)
    (other.bindType name (type.relabel labels))
  bindVar : ∀ name bound, Build.Paired toPairing id (scope.bindVar name bound)
    (other.bindVar name (cell bound))
  requireConstantOrFree : ∀ name, Build.Paired toPairing id (scope.requireConstantOrFree name)
    (other.requireConstantOrFree name)

/-! From primitive steps to elaborations. -/

section

variable {scope other : Scope} (sim : Simulation scope other)

theorem Simulation.bindNew (name : String) (value : Value) :
    Build.Paired sim.toPairing id (do scope.bindVar name (← Store.newCell value))
      (do other.bindVar name (← Store.newCell (value.relabel sim.labels))) :=
  (sim.newCell value).bind fun cell => sim.bindVar name cell

theorem Simulation.bindConstants (type : EitherType) :
    Build.Paired sim.toPairing id (scope.bindConstants type)
      (other.bindConstants (type.relabel sim.labels)) := by
  unfold Scope.bindConstants
  rw [EitherType.constants_relabel]
  refine Build.Paired.bind (.forM fun tag => ?_) fun _ => .forM fun tag => ?_
  · rw [Tag.name_relabel]
    exact sim.requireConstantOrFree tag.name
  · unfold Scope.bindConstant
    rw [Tag.name_relabel]
    exact sim.bindNew tag.name (.tag tag)

theorem Ty.paired_arrayOf (element index : Ty) (name : Option String) (span place : Span) :
    Build.Paired sim.toPairing (·.relabel sim.labels)
      (Ty.arrayOf (Store.newHeader name span) element index place)
      (Ty.arrayOf (Store.newHeader name (sim.labels.place span)) (element.relabel sim.labels)
        (index.relabel sim.labels) (sim.labels.place place)) := by
  have hrefused : ∀ found : Ty, Build.Paired sim.toPairing (·.relabel sim.labels)
      (Build.locate place (Build.fail (.invalidIndexType found.text)) : Build Ty)
      (Build.locate (sim.labels.place place)
        (Build.fail (.invalidIndexType (found.relabel sim.labels).text))) := by
    intro found
    rw [Ty.text_relabel]
    exact (Build.Paired.fail _).locate place
  cases index with
  | record | either | array => exact hrefused _
  | range domain =>
      refine Build.Paired.branch (domain.interval.length ≤ maxArrayLength) (fun small => ?_)
        fun _ => (Build.Paired.fail _).locate place
      refine (sim.header name span).bind fun header => ?_
      exact .pure (Ty.array ⟨header, element, domain, small⟩)

theorem TypeExpr.paired_requireArray (base : String) :
    Build.Paired sim.toPairing id (TypeExpr.requireArray base) (TypeExpr.requireArray base) := by
  unfold TypeExpr.requireArray
  split
  · exact .pure ()
  · exact .fail _

mutual

theorem TypeExpr.paired_elaborate : (expression : TypeExpr) → ∀ name : Option String,
    Build.Paired sim.toPairing (·.relabel sim.labels) (expression.elaborate scope name)
      ((expression.relabel sim.labels).elaborate other name)
  | .alias target span, _ => (sim.resolveType target).locate span
  | .range low high span, name => by
      refine Build.Paired.locate ?_ span
      refine Build.Paired.branch (low ≤ high) (fun ordered => ?_) fun _ => .fail _
      refine (sim.header name span).bind fun header => ?_
      exact .pure (Ty.range ⟨header, ⟨low, high, ordered⟩⟩)
  | .record fields span, name => by
      refine Build.Paired.locate ?_ span
      refine (FieldDecl.paired_elaborateList fields _ .empty).bind fun ⟨fields, layout⟩ => ?_
      refine (sim.header name span).bind fun header => ?_
      exact .pure (Ty.record ⟨header, fields, layout⟩)
  | .either [] span, _ => (Build.Paired.fail _).locate span
  | .either (first :: rest) span, name => by
      refine Build.Paired.locate ?_ span
      refine (VariantDecl.paired_elaborate first _ []).bind fun alternative => ?_
      refine (VariantDecl.paired_elaborateList rest _ [alternative.name]).bind
        fun alternatives => ?_
      refine (sim.header name span).bind fun header => ?_
      rw [EitherType.ofAlternatives_relabel]
      exact (sim.bindConstants _).bind fun _ => .pure (Ty.either _)
  | .generic base [element] (some index) span, name => by
      refine Build.Paired.locate ?_ span
      refine (TypeExpr.paired_requireArray sim base).bind fun _ => ?_
      refine (TypeExpr.paired_elaborate element none).bind fun elementType => ?_
      refine (TypeExpr.paired_elaborate index none).bind fun indexType => ?_
      rw [TypeExpr.span_relabel]
      exact Ty.paired_arrayOf sim elementType indexType name span index.span
  | .generic base [_] none span, _ =>
      ((TypeExpr.paired_requireArray sim base).bind fun _ => .fail _).locate span
  | .generic base [] index span, _ => by
      cases index <;>
        exact ((TypeExpr.paired_requireArray sim base).bind fun _ => .fail _).locate span
  | .generic base (first :: second :: rest) index span, _ => by
      have hlength := TypeExpr.length_relabelAll sim.labels (first :: second :: rest)
      cases index <;> refine Build.Paired.locate ?_ span <;>
        refine (TypeExpr.paired_requireArray sim base).bind fun _ => ?_ <;>
        · rw [← hlength]
          exact .fail _
  | .unknown _ span, _ => (Build.Paired.fail _).locate span
  termination_by structural expression => expression

theorem FieldDecl.paired_elaborate : (field : FieldDecl) →
    ∀ (owner : String) (layout : Layout),
      Build.Paired sim.toPairing (·.relabel sim.labels) (field.elaborate scope owner layout)
        ((field.relabel sim.labels).elaborate other owner layout)
  | ⟨name, type, span⟩, owner, layout => by
      refine Build.Paired.locate ?_ span
      refine .refuse (layout.contains name) (.fail _) ?_
      exact (TypeExpr.paired_elaborate type none).bind fun type => .pure (Field.mk name type)
  termination_by structural field => field

theorem FieldDecl.paired_elaborateList : (fields : List FieldDecl) →
    ∀ (owner : String) (layout : Layout),
      Build.Paired sim.toPairing (Prod.map (Field.relabelAll sim.labels) id)
        (FieldDecl.elaborateList scope owner layout fields)
        (FieldDecl.elaborateList other owner layout (FieldDecl.relabelAll sim.labels fields))
  | [], _, layout => .pure ([], layout)
  | field :: rest, owner, layout => by
      refine (FieldDecl.paired_elaborate field owner layout).bind fun elaborated => ?_
      rw [Field.name_relabel]
      refine (FieldDecl.paired_elaborateList rest owner _).bind fun ⟨others, filled⟩ => ?_
      exact .pure (elaborated :: others, filled)
  termination_by structural fields => fields

theorem VariantDecl.paired_elaborate : (variant : VariantDecl) →
    ∀ (owner : String) (seen : List String),
      Build.Paired sim.toPairing (·.relabel sim.labels) (variant.elaborate scope owner seen)
        ((variant.relabel sim.labels).elaborate other owner seen)
  | ⟨name, none, span⟩, owner, seen => by
      rw [VariantDecl.relabel, VariantDecl.elaborate, VariantDecl.elaborate]
      refine .refuse (name ∈ seen) ((Build.Paired.fail _).locate span) ?_
      exact .pure (Alternative.mk name none)
  | ⟨name, some fields, span⟩, owner, seen => by
      rw [VariantDecl.relabel, VariantDecl.elaborate, VariantDecl.elaborate]
      refine .refuse (name ∈ seen) ((Build.Paired.fail _).locate span) ?_
      refine (FieldDecl.paired_elaborateList fields name .empty).bind fun ⟨fields, layout⟩ => ?_
      refine (sim.header (some name) span).bind fun header => ?_
      exact .pure (Alternative.mk name (some ⟨header, fields, layout⟩))
  termination_by structural variant => variant

theorem VariantDecl.paired_elaborateList : (variants : List VariantDecl) →
    ∀ (owner : String) (seen : List String),
      Build.Paired sim.toPairing (List.map (·.relabel sim.labels))
        (VariantDecl.elaborateList scope owner seen variants)
        (VariantDecl.elaborateList other owner seen (VariantDecl.relabelAll sim.labels variants))
  | [], _, _ => .pure []
  | variant :: rest, owner, seen => by
      refine (VariantDecl.paired_elaborate variant owner seen).bind fun alternative => ?_
      refine (VariantDecl.paired_elaborateList rest owner _).bind fun others => ?_
      exact .pure (alternative :: others)
  termination_by structural variants => variants

end

/-! Declarations, and the loads that take them. -/

theorem Literal.paired_applyTo (literal : Literal) (target : Value) :
    Build.Paired sim.toPairing (·.relabel sim.labels) (literal.applyTo scope target)
      ((literal.relabel sim.labels).applyTo other (target.relabel sim.labels)) := by
  unfold Literal.applyTo
  rw [Literal.span_relabel]
  refine Build.Paired.locate ?_ literal.span
  cases literal with
  | number number _ => exact .ofExcept (target.assignInt_relabel number)
  | ident name _ =>
      exact (sim.resolveValue name).bind fun source =>
        .ofExcept (target.assign_relabel sim.injective source)

theorem Scope.paired_initialValue (initial : Option Literal) (value : Value) :
    Build.Paired sim.toPairing (·.relabel sim.labels) (scope.initialValue initial value)
      (other.initialValue (initial.map (·.relabel sim.labels)) (value.relabel sim.labels)) := by
  cases initial with
  | none => exact .pure value
  | some literal => exact literal.paired_applyTo sim value

theorem Scope.paired_declareVar (name : String) (expression : TypeExpr)
    (initial : Option Literal) :
    Build.Paired sim.toPairing id (scope.declareVar name expression initial)
      (other.declareVar name (expression.relabel sim.labels)
        (initial.map (·.relabel sim.labels))) := by
  refine (expression.paired_elaborate sim none).bind fun type => ?_
  rw [Ty.default_relabel]
  refine (Scope.paired_initialValue sim initial type.default).bind fun value => ?_
  exact sim.bindNew name value

theorem Rule.paired_requireIterable (rule : Rule) :
    Build.Paired sim.toPairing id (rule.requireIterable scope)
      ((rule.relabel sim.labels).requireIterable other) := by
  cases rule with
  | once => exact .pure ()
  | each _ _ iterable _ => exact (sim.resolveVar iterable).bind fun _ => .pure ()

theorem Decl.paired_declare (decl : Decl) :
    Build.Paired sim.toPairing (·.relabel sim.labels) (decl.declare scope)
      ((decl.relabel sim.labels).declare other) := by
  unfold Decl.declare
  rw [Decl.span_relabel]
  refine Build.Paired.locate ?_ decl.span
  cases decl with
  | type name expression _ =>
      refine (expression.paired_elaborate sim (some name)).bind fun type => ?_
      exact (sim.bindType name type).bind fun _ => .pure Contribution.type
  | param name expression initial _ =>
      cases initial with
      | none => exact .fail _
      | some literal =>
          exact (Scope.paired_declareVar sim name expression _).bind
            fun _ => .pure (Contribution.param name)
  | var name expression initial _ =>
      exact (Scope.paired_declareVar sim name expression initial).bind
        fun _ => .pure (Contribution.var name)
  | rule rule _ =>
      exact (rule.paired_requireIterable sim).bind fun _ => .pure (Contribution.rule rule)
  | unknown kind _ => exact .fail _

/-- Where the rules go is nothing that the rest of a load depends on. -/
theorem loadFrom_paired {store twin : Store} (related : sim.related store twin)
    (names : DeclaredNames) (decls : List Decl) :
    ∃ result rules after twinAfter, sim.related after twinAfter ∧
      ∀ {σ : Type} [RuleSink σ] (sink : σ),
        loadFrom scope names sink store decls =
          ⟨result, RuleSink.acceptAll sink rules, after⟩ ∧
        loadFrom other names sink twin (decls.map (·.relabel sim.labels)) =
          ⟨(result.map fun loaded => ⟨other, loaded.names⟩).mapError sim.failure,
            RuleSink.acceptAll sink (rules.map (·.relabel sim.labels)), twinAfter⟩ := by
  induction decls generalizing names store twin with
  | nil => exact ⟨.ok ⟨scope, names⟩, [], store, twin, related, fun _ => ⟨rfl, rfl⟩⟩
  | cons decl rest ih =>
      obtain ⟨hresult, hafter⟩ := decl.paired_declare sim store twin related
      rcases hfirst : Build.run (decl.declare scope) store with ⟨failure | contribution, middle⟩ <;>
        rcases hother : Build.run ((decl.relabel sim.labels).declare other) twin with
          ⟨outcome, twinMiddle⟩ <;>
        rw [hfirst, hother] at hresult hafter <;> cases hresult
      · refine ⟨.error failure, [], middle, twinMiddle, hafter, fun sink => ?_⟩
        rw [List.map_cons, loadFrom, loadFrom, hfirst, hother]
        exact ⟨rfl, rfl⟩
      · obtain ⟨result, rules, after, twinAfter, hrelated, hrest⟩ :=
          ih hafter (names.add contribution)
        -- The rules of the rest are the same for every sink, so also for one that was
        -- given the rule of this declaration first.
        refine ⟨result, contribution.rule?.toList ++ rules, after, twinAfter, hrelated,
          fun sink => ?_⟩
        rw [List.map_cons, loadFrom, loadFrom, hfirst, hother, List.map_append,
          RuleSink.acceptAll_append, RuleSink.acceptAll_append]
        simp only [DeclaredNames.add_relabel, Contribution.forward_eq, Contribution.rule?_relabel]
        refine ⟨(hrest _).1, ?_⟩
        rw [(hrest _).2, Option.toList_map]

end

end StateModel
