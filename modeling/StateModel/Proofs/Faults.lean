import StateModel.Proofs.Forwarding
import StateModel.Proofs.Values

/-!
Where failures are reported. A fault is a problem with the node that it is found at
and with the nodes around that one, and every failure is one fault of the text. It
takes the first span that is a place, from the node at fault outward; only the variants
on the way are passed over.
-/
namespace StateModel

inductive Node where
  | expression (span : Span)
  | field (span : Span)
  | variant (span : Span)
  | literal (span : Span)
  | declaration (span : Span)

namespace Node

def span : Node → Span
  | .expression span | .field span | .variant span | .literal span | .declaration span => span

def isVariant : Node → Bool
  | .variant _ => true
  | .expression _ | .field _ | .literal _ | .declaration _ => false

end Node

def Span.firstPlace? (spans : List Span) : Option Span := spans.find? (!·.isDummy)

namespace Span

theorem firstPlace?_cons_of_place {span : Span} (place : span ≠ .dummy) (rest : List Span) :
    firstPlace? (span :: rest) = some span :=
  List.find?_cons_of_pos (by simp [isDummy, place])

@[simp] theorem firstPlace?_dummy_cons (rest : List Span) :
    firstPlace? (.dummy :: rest) = firstPlace? rest :=
  List.find?_cons_of_neg (by simp)

theorem firstPlace?_append (inner outer : List Span) :
    firstPlace? (inner ++ outer) = (firstPlace? inner).or (firstPlace? outer) :=
  List.find?_append

theorem firstPlace?_eq_none {spans : List Span} :
    firstPlace? spans = none ↔ ∀ span ∈ spans, span = .dummy := by
  simp [firstPlace?]

end Span

structure Fault where
  problem : Problem
  node : Node
  around : List Node

namespace Fault

def inside (fault : Fault) (node : Node) : Fault :=
  { fault with around := fault.around ++ [node] }

def path (fault : Fault) : List Node := fault.node :: fault.around

def innermost? (fault : Fault) : Option Span := Span.firstPlace? (fault.path.map Node.span)

/-- The spans that a failure can take: that of the node at fault, whatever it is, and
those of the nodes around it that are no variants. -/
def spans (fault : Fault) : List Span :=
  (fault.node :: fault.around.filter (!·.isVariant)).map Node.span

def failure (fault : Fault) : Failure := ⟨fault.problem, Span.firstPlace? fault.spans⟩

theorem failure_alone (problem : Problem) (node : Node) :
    (⟨problem, node, []⟩ : Fault).failure = ({ problem } : Failure).located node.span := by
  by_cases dummy : node.span.isDummy <;>
    simp [failure, spans, Span.firstPlace?, Failure.located, dummy]

theorem failure_inside (fault : Fault) (node : Node) (counts : node.isVariant = false) :
    (fault.inside node).failure = fault.failure.located node.span := by
  have hspans : (fault.inside node).spans = fault.spans ++ [node.span] := by
    simp [spans, inside, counts]
  unfold failure Failure.located
  rw [hspans, Span.firstPlace?_append]
  cases Span.firstPlace? fault.spans with
  | some span => rfl
  | none => by_cases dummy : node.span.isDummy <;> simp [Span.firstPlace?, dummy, inside]

theorem failure_within (problem : Problem) (node outer : Node) (counts : outer.isVariant = false) :
    (⟨problem, node, [outer]⟩ : Fault).failure =
      (({ problem } : Failure).located node.span).located outer.span := by
  rw [← failure_alone, ← failure_inside _ outer counts]
  rfl

theorem failure_inside_variant (fault : Fault) (span : Span) :
    (fault.inside (.variant span)).failure = fault.failure := by
  simp [failure, spans, inside, Node.isVariant]

/-- The nearest place of all is the one of a variant around the node at fault. -/
def PassesOver (fault : Fault) (span : Span) : Prop :=
  ∃ inner outer, fault.around = inner ++ .variant span :: outer ∧ span ≠ .dummy ∧
    ∀ node ∈ fault.node :: inner, node.span = .dummy

theorem innermost?_of_passesOver {fault : Fault} {span : Span} (passes : fault.PassesOver span) :
    fault.innermost? = some span := by
  obtain ⟨inner, outer, haround, hplace, hinner⟩ := passes
  have hpath : fault.path.map Node.span =
      (fault.node :: inner).map Node.span ++ span :: outer.map Node.span := by
    rw [path, haround, ← List.cons_append, List.map_append, List.map_cons]
    rfl
  have hnone : Span.firstPlace? ((fault.node :: inner).map Node.span) = none := by
    rw [Span.firstPlace?_eq_none, List.forall_mem_map]
    exact hinner
  rw [innermost?, hpath, Span.firstPlace?_append, hnone, Option.none_or,
    Span.firstPlace?_cons_of_place hplace]

theorem firstPlace?_filter {around : List Node}
    (unplaced : ∀ inner span outer, around = inner ++ .variant span :: outer →
      (∀ node ∈ inner, node.span = .dummy) → span = .dummy) :
    Span.firstPlace? ((around.filter (!·.isVariant)).map Node.span) =
      Span.firstPlace? (around.map Node.span) := by
  induction around with
  | nil => rfl
  | cons node rest ih =>
      have hrest (dummy : node.span = .dummy) := ih fun inner span outer split before =>
        unplaced (node :: inner) span outer (by rw [split, List.cons_append])
          (List.forall_mem_cons.2 ⟨dummy, before⟩)
      cases hvariant : node.isVariant with
      | false =>
          rw [List.filter_cons_of_pos (by simp [hvariant]), List.map_cons, List.map_cons]
          by_cases dummy : node.span = .dummy
          · rw [dummy, Span.firstPlace?_dummy_cons, Span.firstPlace?_dummy_cons, hrest dummy]
          · rw [Span.firstPlace?_cons_of_place dummy, Span.firstPlace?_cons_of_place dummy]
      | true =>
          have hdummy : node.span = .dummy := by
            cases node with
            | variant span => exact unplaced [] span rest rfl (by simp)
            | expression | field | literal | declaration => cases hvariant
          rw [List.filter_cons_of_neg (by simp [hvariant]), List.map_cons, hdummy,
            Span.firstPlace?_dummy_cons, hrest hdummy]

theorem span_failure_of_not_passesOver {fault : Fault} (passes : ∀ span, ¬fault.PassesOver span) :
    fault.failure.span = fault.innermost? := by
  unfold failure innermost? path spans
  rw [List.map_cons, List.map_cons]
  by_cases dummy : fault.node.span = .dummy
  · have hrest := firstPlace?_filter fun inner span outer split before =>
      not_not.1 fun place =>
        passes span ⟨inner, outer, split, place, List.forall_mem_cons.2 ⟨dummy, before⟩⟩
    rw [dummy, Span.firstPlace?_dummy_cons, Span.firstPlace?_dummy_cons, hrest]
  · rw [Span.firstPlace?_cons_of_place dummy, Span.firstPlace?_cons_of_place dummy]

/-- The nearest place is reported but where a variant has it, and there only if the
place that is reported instead is the same. -/
theorem span_failure_eq_innermost?_iff {fault : Fault} :
    fault.failure.span = fault.innermost? ↔
      ∀ span, fault.PassesOver span → fault.failure.span = some span := by
  constructor
  · intro same span passes
    rw [same, innermost?_of_passesOver passes]
  · intro same
    by_cases passes : ∃ span, fault.PassesOver span
    · obtain ⟨span, hpasses⟩ := passes
      rw [same span hpasses, innermost?_of_passesOver hpasses]
    · exact span_failure_of_not_passesOver fun span hpasses => passes ⟨span, hpasses⟩

end Fault

mutual

inductive TypeExpr.Path : TypeExpr → List Node → Prop where
  | here (expression : TypeExpr) : TypeExpr.Path expression [.expression expression.span]
  | field {fields : List FieldDecl} {span : Span} {field : FieldDecl} {path : List Node}
      (inside : field ∈ fields) (further : FieldDecl.Path field path) :
      TypeExpr.Path (.record fields span) (path ++ [.expression span])
  | variant {variants : List VariantDecl} {span : Span} {variant : VariantDecl} {path : List Node}
      (inside : variant ∈ variants) (further : VariantDecl.Path variant path) :
      TypeExpr.Path (.either variants span) (path ++ [.expression span])
  | argument {base : String} {arguments : List TypeExpr} {index : Option TypeExpr} {span : Span}
      {argument : TypeExpr} {path : List Node} (inside : argument ∈ arguments)
      (further : TypeExpr.Path argument path) :
      TypeExpr.Path (.generic base arguments index span) (path ++ [.expression span])
  | index {base : String} {arguments : List TypeExpr} {index : TypeExpr} {span : Span}
      {path : List Node} (further : TypeExpr.Path index path) :
      TypeExpr.Path (.generic base arguments (some index) span) (path ++ [.expression span])

inductive FieldDecl.Path : FieldDecl → List Node → Prop where
  | here (field : FieldDecl) : FieldDecl.Path field [.field field.span]
  | type {name : String} {type : TypeExpr} {span : Span} {path : List Node}
      (further : TypeExpr.Path type path) :
      FieldDecl.Path ⟨name, type, span⟩ (path ++ [.field span])

inductive VariantDecl.Path : VariantDecl → List Node → Prop where
  | here (variant : VariantDecl) : VariantDecl.Path variant [.variant variant.span]
  | payload {name : String} {fields : List FieldDecl} {span : Span} {field : FieldDecl}
      {path : List Node} (inside : field ∈ fields) (further : FieldDecl.Path field path) :
      VariantDecl.Path ⟨name, some fields, span⟩ (path ++ [.variant span])

end

mutual

/-- Where and why an expression fails to become a type: the first part that is wrong,
after all before it have been built. -/
inductive TypeExpr.Fails (scope : Scope) : Option String → TypeExpr → Store → Fault → Prop where
  | unbound {name : Option String} {target : String} {span : Span} {store : Store}
      (unknown : scope.type? store target = none) :
      TypeExpr.Fails scope name (.alias target span) store
        ⟨.unknownType target, .expression span, []⟩
  | inverted {name : Option String} {low high : Int64} {span : Span} {store : Store}
      (inverted : ¬low ≤ high) :
      TypeExpr.Fails scope name (.range low high span) store
        ⟨.invalidRange low high, .expression span, []⟩
  | field {name : Option String} {fields : List FieldDecl} {span : Span} {store : Store}
      {fault : Fault}
      (fails : FieldDecl.SomeFails scope (name.getD "record") .empty fields store fault) :
      TypeExpr.Fails scope name (.record fields span) store (fault.inside (.expression span))
  | empty {name : Option String} {span : Span} {store : Store} :
      TypeExpr.Fails scope name (.either [] span) store
        ⟨.emptyEither (name.getD "either"), .expression span, []⟩
  | variant {name : Option String} {first : VariantDecl} {rest : List VariantDecl} {span : Span}
      {store : Store} {fault : Fault}
      (fails : VariantDecl.SomeFails scope (name.getD "either") [] (first :: rest) store fault) :
      TypeExpr.Fails scope name (.either (first :: rest) span) store
        (fault.inside (.expression span))
  | constant {name : Option String} {first : VariantDecl} {rest : List VariantDecl} {span : Span}
      {store middle after : Store} {alternative : Alternative} {alternatives : List Alternative}
      {own : String}
      (built : Build.run
        (VariantDecl.elaborateList scope (name.getD "either") [] (first :: rest)) store =
          (.ok (alternative :: alternatives), middle))
      (refused : Build.run (scope.bindConstants
        (.ofAlternatives ⟨middle.nextType, name, span⟩ alternative alternatives))
          { middle with nextType := middle.nextType + 1 } =
            (.error { problem := .duplicateDeclaration own }, after)) :
      TypeExpr.Fails scope name (.either (first :: rest) span) store
        ⟨.duplicateDeclaration own, .expression span, []⟩
  | base {name : Option String} {base : String} {arguments : List TypeExpr}
      {index : Option TypeExpr} {span : Span} {store : Store} (other : base ≠ TypeExpr.arrayBase) :
      TypeExpr.Fails scope name (.generic base arguments index span) store
        ⟨.unknownType base, .expression span, []⟩
  | noIndex {name : Option String} {element : TypeExpr} {span : Span} {store : Store} :
      TypeExpr.Fails scope name (.generic TypeExpr.arrayBase [element] none span) store
        ⟨.genericArity TypeExpr.arrayBase "an index type" "none", .expression span, []⟩
  | arguments {name : Option String} {arguments : List TypeExpr} {index : Option TypeExpr}
      {span : Span} {store : Store} (several : arguments.length ≠ 1) :
      TypeExpr.Fails scope name (.generic TypeExpr.arrayBase arguments index span) store
        ⟨.genericArity TypeExpr.arrayBase "one type argument" arguments.length.repr,
          .expression span, []⟩
  | element {name : Option String} {element index : TypeExpr} {span : Span} {store : Store}
      {fault : Fault} (fails : TypeExpr.Fails scope none element store fault) :
      TypeExpr.Fails scope name (.generic TypeExpr.arrayBase [element] (some index) span) store
        (fault.inside (.expression span))
  | index {name : Option String} {element index : TypeExpr} {span : Span}
      {store middle : Store} {elementType : Ty} {fault : Fault}
      (built : Build.run (element.elaborate scope none) store = (.ok elementType, middle))
      (fails : TypeExpr.Fails scope none index middle fault) :
      TypeExpr.Fails scope name (.generic TypeExpr.arrayBase [element] (some index) span) store
        (fault.inside (.expression span))
  | noRange {name : Option String} {element index : TypeExpr} {span : Span}
      {store middle after : Store} {elementType indexType : Ty}
      (built : Build.run (element.elaborate scope none) store = (.ok elementType, middle))
      (builtIndex : Build.run (index.elaborate scope none) middle = (.ok indexType, after))
      (other : ∀ domain, indexType ≠ .range domain) :
      TypeExpr.Fails scope name (.generic TypeExpr.arrayBase [element] (some index) span) store
        ⟨.invalidIndexType indexType.text, .expression index.span, [.expression span]⟩
  | tooLarge {name : Option String} {element index : TypeExpr} {span : Span}
      {store middle after : Store} {elementType : Ty} {domain : RangeType}
      (built : Build.run (element.elaborate scope none) store = (.ok elementType, middle))
      (builtIndex : Build.run (index.elaborate scope none) middle = (.ok (.range domain), after))
      (large : ¬domain.interval.length ≤ maxArrayLength) :
      TypeExpr.Fails scope name (.generic TypeExpr.arrayBase [element] (some index) span) store
        ⟨.arrayTooLarge domain.text domain.interval.length maxArrayLength,
          .expression index.span, [.expression span]⟩
  | unknown {name : Option String} {kind : String} {span : Span} {store : Store} :
      TypeExpr.Fails scope name (.unknown kind span) store
        ⟨.unknownDeclarationKind kind, .expression span, []⟩

inductive FieldDecl.Fails (scope : Scope) :
    String → Layout → FieldDecl → Store → Fault → Prop where
  | repeated {owner name : String} {layout : Layout} {type : TypeExpr} {span : Span}
      {store : Store} (twice : layout.contains name) :
      FieldDecl.Fails scope owner layout ⟨name, type, span⟩ store
        ⟨.duplicateField name owner, .field span, []⟩
  | type {owner name : String} {layout : Layout} {type : TypeExpr} {span : Span}
      {store : Store} {fault : Fault} (once : ¬ layout.contains name)
      (fails : TypeExpr.Fails scope none type store fault) :
      FieldDecl.Fails scope owner layout ⟨name, type, span⟩ store (fault.inside (.field span))

inductive FieldDecl.SomeFails (scope : Scope) :
    String → Layout → List FieldDecl → Store → Fault → Prop where
  | here {owner : String} {layout : Layout} {field : FieldDecl} {rest : List FieldDecl}
      {store : Store} {fault : Fault}
      (fails : FieldDecl.Fails scope owner layout field store fault) :
      FieldDecl.SomeFails scope owner layout (field :: rest) store fault
  | later {owner : String} {layout : Layout} {field : FieldDecl} {rest : List FieldDecl}
      {store middle : Store} {elaborated : Field} {fault : Fault}
      (built : Build.run (field.elaborate scope owner layout) store = (.ok elaborated, middle))
      (fails : FieldDecl.SomeFails scope owner (layout.enter elaborated.name) rest middle fault) :
      FieldDecl.SomeFails scope owner layout (field :: rest) store fault

inductive VariantDecl.Fails (scope : Scope) :
    String → List String → VariantDecl → Store → Fault → Prop where
  | repeated {owner name : String} {seen : List String} {fields : Option (List FieldDecl)}
      {span : Span} {store : Store} (twice : name ∈ seen) :
      VariantDecl.Fails scope owner seen ⟨name, fields, span⟩ store
        ⟨.duplicateVariant name owner, .variant span, []⟩
  | payload {owner name : String} {seen : List String} {fields : List FieldDecl} {span : Span}
      {store : Store} {fault : Fault} (once : name ∉ seen)
      (fails : FieldDecl.SomeFails scope name .empty fields store fault) :
      VariantDecl.Fails scope owner seen ⟨name, some fields, span⟩ store
        (fault.inside (.variant span))

inductive VariantDecl.SomeFails (scope : Scope) :
    String → List String → List VariantDecl → Store → Fault → Prop where
  | here {owner : String} {seen : List String} {variant : VariantDecl} {rest : List VariantDecl}
      {store : Store} {fault : Fault}
      (fails : VariantDecl.Fails scope owner seen variant store fault) :
      VariantDecl.SomeFails scope owner seen (variant :: rest) store fault
  | later {owner : String} {seen : List String} {variant : VariantDecl} {rest : List VariantDecl}
      {store middle : Store} {alternative : Alternative} {fault : Fault}
      (built : Build.run (variant.elaborate scope owner seen) store = (.ok alternative, middle))
      (fails : VariantDecl.SomeFails scope owner (alternative.name :: seen) rest middle fault) :
      VariantDecl.SomeFails scope owner seen (variant :: rest) store fault

end

/-! The nodes of a fault stand in the expression as it says. -/

section

variable {scope : Scope}

mutual

theorem TypeExpr.Fails.path : {expression : TypeExpr} → {name : Option String} → {store : Store} →
    {fault : Fault} → expression.Fails scope name store fault → expression.Path fault.path
  | .alias .., _, _, _, .unbound _ => .here _
  | .range .., _, _, _, .inverted _ => .here _
  | .record .., _, _, _, .field fails =>
      have ⟨_, inside, further⟩ := fails.path
      .field inside further
  | .either [] _, _, _, _, .empty => .here _
  | .either (_ :: _) _, _, _, _, .variant fails =>
      have ⟨_, inside, further⟩ := fails.path
      .variant inside further
  | .either (_ :: _) _, _, _, _, .constant _ _ => .here _
  | .generic .., _, _, _, .base _ => .here _
  | .generic .., _, _, _, .noIndex => .here _
  | .generic .., _, _, _, .arguments _ => .here _
  | .generic _ [element] (some _) _, _, _, _, .element fails =>
      .argument (List.mem_singleton_self element) fails.path
  | .generic _ [_] (some _) _, _, _, _, .index _ fails => .index fails.path
  | .generic _ [_] (some index) _, _, _, _, .noRange _ _ _ => .index (.here index)
  | .generic _ [_] (some index) _, _, _, _, .tooLarge _ _ _ => .index (.here index)
  | .unknown .., _, _, _, .unknown => .here _
  termination_by structural expression => expression

theorem FieldDecl.Fails.path : {field : FieldDecl} → {owner : String} → {layout : Layout} →
    {store : Store} → {fault : Fault} → field.Fails scope owner layout store fault →
    field.Path fault.path
  | ⟨_, _, _⟩, _, _, _, _, .repeated _ => .here _
  | ⟨_, _, _⟩, _, _, _, _, .type _ fails => .type fails.path
  termination_by structural field => field

theorem FieldDecl.SomeFails.path : {fields : List FieldDecl} → {owner : String} →
    {layout : Layout} → {store : Store} → {fault : Fault} →
    FieldDecl.SomeFails scope owner layout fields store fault →
    ∃ field ∈ fields, field.Path fault.path
  | field :: _, _, _, _, _, .here fails => ⟨field, List.mem_cons_self, fails.path⟩
  | _ :: _, _, _, _, _, .later _ fails =>
      have ⟨field, inside, further⟩ := fails.path
      ⟨field, List.mem_cons_of_mem _ inside, further⟩
  termination_by structural fields => fields

theorem VariantDecl.Fails.path : {variant : VariantDecl} → {owner : String} →
    {seen : List String} → {store : Store} → {fault : Fault} →
    variant.Fails scope owner seen store fault → variant.Path fault.path
  | ⟨_, _, _⟩, _, _, _, _, .repeated _ => .here _
  | ⟨_, some _, _⟩, _, _, _, _, .payload _ fails =>
      have ⟨_, inside, further⟩ := fails.path
      .payload inside further
  termination_by structural variant => variant

theorem VariantDecl.SomeFails.path : {variants : List VariantDecl} → {owner : String} →
    {seen : List String} → {store : Store} → {fault : Fault} →
    VariantDecl.SomeFails scope owner seen variants store fault →
    ∃ variant ∈ variants, variant.Path fault.path
  | variant :: _, _, _, _, _, .here fails => ⟨variant, List.mem_cons_self, fails.path⟩
  | _ :: _, _, _, _, _, .later _ fails =>
      have ⟨variant, inside, further⟩ := fails.path
      ⟨variant, List.mem_cons_of_mem _ inside, further⟩
  termination_by structural variants => variants

end

end

/-! Failures that have no place yet. -/

section

variable {scope : Scope} {store middle : Store} {failure : Failure}

theorem TypeExpr.requireArray_error {base : String} :
    (Build.run (TypeExpr.requireArray base) store).1 = .error failure ↔
      base ≠ TypeExpr.arrayBase ∧ failure = { problem := .unknownType base } := by
  unfold TypeExpr.requireArray
  split
  · next array => exact ⟨nofun, fun other => absurd array other.1⟩
  · next other => simp [other, eq_comm]

theorem TypeExpr.requireArray_ok {base : String}
    (ends : Build.run (TypeExpr.requireArray base) store = (.ok (), middle)) :
    base = TypeExpr.arrayBase ∧ store = middle := by
  unfold TypeExpr.requireArray at ends
  split at ends
  · next array =>
    cases ends
    exact ⟨array, rfl⟩
  · cases ends

theorem TypeExpr.wrongArguments_error_iff {base : String} {problem : Problem} {span : Span} :
    (Build.run (Build.locate span (do
      TypeExpr.requireArray base
      (Build.fail problem : Build Ty))) store).1 = .error failure ↔
    base ≠ TypeExpr.arrayBase ∧
        failure = (⟨.unknownType base, .expression span, []⟩ : Fault).failure ∨
      base = TypeExpr.arrayBase ∧
        failure = (⟨problem, .expression span, []⟩ : Fault).failure := by
  rw [Fault.failure_alone, Fault.failure_alone, Build.run_locate_eq_error]
  constructor
  · rintro ⟨inner, hinner, rfl⟩
    rcases Build.run_bind_eq_error.1 hinner with hbase | ⟨_, middle, hbase, hproblem⟩
    · obtain ⟨hother, rfl⟩ := TypeExpr.requireArray_error.1 hbase
      exact .inl ⟨hother, rfl⟩
    · cases hproblem
      exact .inr ⟨(TypeExpr.requireArray_ok hbase).1, rfl⟩
  · rintro (⟨other, rfl⟩ | ⟨rfl, rfl⟩)
    · exact ⟨_, Build.run_bind_eq_error.2 (.inl (TypeExpr.requireArray_error.2 ⟨other, rfl⟩)), rfl⟩
    · exact ⟨_, rfl, rfl⟩

theorem Ty.arrayOf_error_iff {element index : Ty} {name : Option String} {span place : Span} :
    (Build.run (Ty.arrayOf (Store.newHeader name span) element index place) store).1 =
        .error failure ↔
      (∀ domain, index ≠ .range domain) ∧
          failure = (⟨.invalidIndexType index.text, none⟩ : Failure).located place ∨
        ∃ domain, index = .range domain ∧ ¬domain.interval.length ≤ maxArrayLength ∧
          failure = (⟨.arrayTooLarge domain.text domain.interval.length maxArrayLength, none⟩ :
            Failure).located place := by
  cases index with
  | record | either | array =>
      refine (Build.run_locate_eq_error.trans ?_).trans (or_iff_left (by simp)).symm
      constructor
      · rintro ⟨_, ⟨⟩, rfl⟩
        exact ⟨by simp, rfl⟩
      · rintro ⟨-, rfl⟩
        exact ⟨_, rfl, rfl⟩
  | range domain =>
      simp only [Ty.arrayOf]
      split
      · next small =>
        constructor
        · rintro ⟨⟩
        · rintro (⟨other, -⟩ | ⟨_, ⟨⟩, large, -⟩)
          · exact absurd rfl (other domain)
          · exact absurd small large
      · next large =>
        rw [Build.run_locate_eq_error]
        constructor
        · rintro ⟨_, ⟨⟩, rfl⟩
          exact .inr ⟨domain, rfl, large, rfl⟩
        · rintro (⟨other, -⟩ | ⟨_, ⟨⟩, -, rfl⟩)
          · exact absurd rfl (other domain)
          · exact ⟨_, rfl, rfl⟩

theorem Build.forM_error {α : Type} {items : List α} {work : α → Build Unit}
    (fails : (Build.run (items.forM work) store).1 = .error failure) :
    ∃ item before, (Build.run (work item) before).1 = .error failure := by
  induction items generalizing store with
  | nil => cases fails
  | cons item rest ih =>
      rcases Build.run_bind_eq_error.1 fails with hfails | ⟨_, middle, -, hrest⟩
      · exact ⟨item, store, hfails⟩
      · exact ih hrest

theorem Scope.bindConstants_error {type : EitherType}
    (fails : (Build.run (scope.bindConstants type) store).1 = .error failure) :
    ∃ own, failure = { problem := .duplicateDeclaration own } := by
  rcases Build.run_bind_eq_error.1 fails with hcheck | ⟨_, middle, -, hbind⟩
  · obtain ⟨tag, before, hrun⟩ := Build.forM_error hcheck
    rw [Scope.run_requireConstantOrFree] at hrun
    split at hrun
    · cases hrun
    · cases hrun
    · exact ⟨tag.name, (Except.error.inj hrun).symm⟩
  · obtain ⟨tag, before, hfails⟩ := Build.forM_error hbind
    have hrun : Build.run (scope.bindConstant tag) before = _ :=
      scope.run_bindNew tag.name (.tag tag) before
    rw [hrun] at hfails
    split at hfails
    · exact ⟨tag.name, (Except.error.inj hfails).symm⟩
    · cases hfails

end

/-! Every failure is a fault. -/

section

variable (scope : Scope)

mutual

theorem TypeExpr.exists_fails : (expression : TypeExpr) → ∀ (name : Option String) (store : Store)
    (failure : Failure), (Build.run (expression.elaborate scope name) store).1 = .error failure →
    ∃ fault, expression.Fails scope name store fault ∧ failure = fault.failure
  | .alias target span, name, store, failure, fails => by
      obtain ⟨inner, hinner, rfl⟩ := Build.run_locate_eq_error.1 fails
      rw [Scope.run_resolveType] at hinner
      cases found : scope.type? store target with
      | some type => simp [found] at hinner
      | none =>
          rw [found] at hinner
          cases hinner
          exact ⟨_, .unbound found, (Fault.failure_alone _ (.expression span)).symm⟩
  | .range low high span, name, store, failure, fails => by
      obtain ⟨inner, hinner, rfl⟩ := Build.run_locate_eq_error.1 fails
      split at hinner
      · cases hinner
      · next inverted =>
        cases hinner
        exact ⟨_, .inverted inverted, (Fault.failure_alone _ (.expression span)).symm⟩
  | .record fields span, name, store, failure, fails => by
      obtain ⟨inner, hinner, rfl⟩ := Build.run_locate_eq_error.1 fails
      rcases Build.run_bind_eq_error.1 hinner with hfields | ⟨_, middle, -, hrest⟩
      · obtain ⟨fault, hfault, rfl⟩ :=
          FieldDecl.exists_someFails fields _ .empty store inner hfields
        exact ⟨_, .field hfault, (fault.failure_inside (.expression span) rfl).symm⟩
      · cases hrest
  | .either [] span, name, store, failure, fails => by
      obtain ⟨inner, hinner, rfl⟩ := Build.run_locate_eq_error.1 fails
      cases hinner
      exact ⟨_, .empty, (Fault.failure_alone _ (.expression span)).symm⟩
  | .either (first :: rest) span, name, store, failure, fails => by
      obtain ⟨inner, hinner, rfl⟩ := Build.run_locate_eq_error.1 fails
      rcases Build.run_bind_eq_error.1 hinner with hfails | ⟨alternative, start, hfirst, hinner⟩
      · obtain ⟨fault, hfault, rfl⟩ := VariantDecl.exists_fails first _ [] store inner hfails
        exact ⟨_, .variant (.here hfault), (fault.failure_inside (.expression span) rfl).symm⟩
      rcases Build.run_bind_eq_error.1 hinner with hfails | ⟨alternatives, middle, hrest, hinner⟩
      · obtain ⟨fault, hfault, rfl⟩ := VariantDecl.exists_someFails rest _ _ start inner hfails
        exact ⟨_, .variant (.later hfirst hfault),
          (fault.failure_inside (.expression span) rfl).symm⟩
      rcases Build.run_bind_eq_error.1 hinner with hheader | ⟨header, numbered, hheader, hinner⟩
      · cases hheader
      cases hheader
      rcases Build.run_bind_eq_error.1 hinner with hrefused | ⟨_, _, -, hlast⟩
      · obtain ⟨own, rfl⟩ := Scope.bindConstants_error hrefused
        have hbuilt : Build.run (VariantDecl.elaborateList scope (name.getD "either") []
            (first :: rest)) store = (.ok (alternative :: alternatives), middle) :=
          Build.run_bind_eq_ok.2 ⟨alternative, start, hfirst,
            Build.run_bind_eq_ok.2 ⟨alternatives, middle, hrest, rfl⟩⟩
        exact ⟨_, .constant hbuilt (Prod.ext hrefused rfl),
          (Fault.failure_alone _ (.expression span)).symm⟩
      · cases hlast
  | .generic base [element] (some index) span, name, store, failure, fails => by
      obtain ⟨inner, hinner, rfl⟩ := Build.run_locate_eq_error.1 fails
      rcases Build.run_bind_eq_error.1 hinner with hbase | ⟨_, start, hbase, hinner⟩
      · obtain ⟨hother, rfl⟩ := TypeExpr.requireArray_error.1 hbase
        exact ⟨_, .base hother, (Fault.failure_alone _ (.expression span)).symm⟩
      obtain ⟨rfl, rfl⟩ := TypeExpr.requireArray_ok hbase
      rcases Build.run_bind_eq_error.1 hinner with hfails | ⟨elementType, middle, helement, hinner⟩
      · obtain ⟨fault, hfault, rfl⟩ := TypeExpr.exists_fails element none _ inner hfails
        exact ⟨_, .element hfault, (fault.failure_inside (.expression span) rfl).symm⟩
      rcases Build.run_bind_eq_error.1 hinner with hfails | ⟨indexType, after, hindex, hinner⟩
      · obtain ⟨fault, hfault, rfl⟩ := TypeExpr.exists_fails index none middle inner hfails
        exact ⟨_, .index helement hfault, (fault.failure_inside (.expression span) rfl).symm⟩
      rcases Ty.arrayOf_error_iff.1 hinner with ⟨hother, rfl⟩ | ⟨domain, rfl, hlarge, rfl⟩
      · exact ⟨_, .noRange helement hindex hother,
          (Fault.failure_within _ (.expression index.span) (.expression span) rfl).symm⟩
      · exact ⟨_, .tooLarge helement hindex hlarge,
          (Fault.failure_within _ (.expression index.span) (.expression span) rfl).symm⟩
  | .generic base [_] none span, name, store, failure, fails => by
      rcases TypeExpr.wrongArguments_error_iff.1 fails with ⟨hother, rfl⟩ | ⟨rfl, rfl⟩
      · exact ⟨_, .base hother, rfl⟩
      · exact ⟨_, .noIndex, rfl⟩
  | .generic base [] index span, name, store, failure, fails => by
      cases index <;>
        rcases TypeExpr.wrongArguments_error_iff.1 fails with ⟨hother, rfl⟩ | ⟨rfl, rfl⟩
      · exact ⟨_, .base hother, rfl⟩
      · exact ⟨_, .arguments (by simp), rfl⟩
      · exact ⟨_, .base hother, rfl⟩
      · exact ⟨_, .arguments (by simp), rfl⟩
  | .generic base (_ :: _ :: _) index span, name, store, failure, fails => by
      cases index <;>
        rcases TypeExpr.wrongArguments_error_iff.1 fails with ⟨hother, rfl⟩ | ⟨rfl, rfl⟩
      · exact ⟨_, .base hother, rfl⟩
      · exact ⟨_, .arguments (by simp), rfl⟩
      · exact ⟨_, .base hother, rfl⟩
      · exact ⟨_, .arguments (by simp), rfl⟩
  | .unknown kind span, name, store, failure, fails => by
      obtain ⟨inner, hinner, rfl⟩ := Build.run_locate_eq_error.1 fails
      cases hinner
      exact ⟨_, .unknown, (Fault.failure_alone _ (.expression span)).symm⟩
  termination_by structural expression => expression

theorem FieldDecl.exists_fails : (field : FieldDecl) → ∀ (owner : String) (layout : Layout)
    (store : Store) (failure : Failure),
    (Build.run (field.elaborate scope owner layout) store).1 = .error failure →
    ∃ fault, field.Fails scope owner layout store fault ∧ failure = fault.failure
  | ⟨name, type, span⟩, owner, layout, store, failure, fails => by
      obtain ⟨inner, hinner, rfl⟩ := Build.run_locate_eq_error.1 fails
      by_cases twice : layout.contains name
      · rw [if_pos twice] at hinner
        cases hinner
        exact ⟨_, .repeated twice, (Fault.failure_alone _ (.field span)).symm⟩
      · rw [if_neg twice] at hinner
        rcases Build.run_bind_eq_error.1 hinner with hfails | ⟨built, middle, -, hlast⟩
        · obtain ⟨fault, hfault, rfl⟩ := TypeExpr.exists_fails type none store inner hfails
          exact ⟨_, .type twice hfault, (fault.failure_inside (.field span) rfl).symm⟩
        · cases hlast
  termination_by structural field => field

theorem FieldDecl.exists_someFails : (fields : List FieldDecl) →
    ∀ (owner : String) (layout : Layout) (store : Store) (failure : Failure),
    (Build.run (FieldDecl.elaborateList scope owner layout fields) store).1 = .error failure →
    ∃ fault, FieldDecl.SomeFails scope owner layout fields store fault ∧ failure = fault.failure
  | [], _, _, _, _, fails => nomatch fails
  | field :: rest, owner, layout, store, failure, fails => by
      rcases Build.run_bind_eq_error.1 fails with hfails | ⟨elaborated, middle, hbuilt, hinner⟩
      · obtain ⟨fault, hfault, rfl⟩ := FieldDecl.exists_fails field owner layout store _ hfails
        exact ⟨fault, .here hfault, rfl⟩
      rcases Build.run_bind_eq_error.1 hinner with hfails | ⟨others, after, -, hlast⟩
      · obtain ⟨fault, hfault, rfl⟩ :=
          FieldDecl.exists_someFails rest owner _ middle _ hfails
        exact ⟨fault, .later hbuilt hfault, rfl⟩
      · cases hlast
  termination_by structural fields => fields

theorem VariantDecl.exists_fails : (variant : VariantDecl) →
    ∀ (owner : String) (seen : List String) (store : Store) (failure : Failure),
    (Build.run (variant.elaborate scope owner seen) store).1 = .error failure →
    ∃ fault, variant.Fails scope owner seen store fault ∧ failure = fault.failure
  | ⟨name, none, span⟩, owner, seen, store, failure, fails => by
      rw [VariantDecl.elaborate] at fails
      by_cases twice : name ∈ seen
      · rw [if_pos twice] at fails
        cases fails
        exact ⟨_, .repeated twice, (Fault.failure_alone _ (.variant span)).symm⟩
      · rw [if_neg twice] at fails
        cases fails
  | ⟨name, some fields, span⟩, owner, seen, store, failure, fails => by
      rw [VariantDecl.elaborate] at fails
      by_cases twice : name ∈ seen
      · rw [if_pos twice] at fails
        cases fails
        exact ⟨_, .repeated twice, (Fault.failure_alone _ (.variant span)).symm⟩
      · rw [if_neg twice] at fails
        rcases Build.run_bind_eq_error.1 fails with hfails | ⟨built, middle, -, hrest⟩
        · obtain ⟨fault, hfault, rfl⟩ :=
            FieldDecl.exists_someFails fields name .empty store _ hfails
          exact ⟨_, .payload twice hfault, (fault.failure_inside_variant span).symm⟩
        · cases hrest
  termination_by structural variant => variant

theorem VariantDecl.exists_someFails : (variants : List VariantDecl) →
    ∀ (owner : String) (seen : List String) (store : Store) (failure : Failure),
    (Build.run (VariantDecl.elaborateList scope owner seen variants) store).1 = .error failure →
    ∃ fault, VariantDecl.SomeFails scope owner seen variants store fault ∧
      failure = fault.failure
  | [], _, _, _, _, fails => nomatch fails
  | variant :: rest, owner, seen, store, failure, fails => by
      rcases Build.run_bind_eq_error.1 fails with hfails | ⟨alternative, middle, hbuilt, hinner⟩
      · obtain ⟨fault, hfault, rfl⟩ := VariantDecl.exists_fails variant owner seen store _ hfails
        exact ⟨fault, .here hfault, rfl⟩
      rcases Build.run_bind_eq_error.1 hinner with hfails | ⟨others, after, -, hlast⟩
      · obtain ⟨fault, hfault, rfl⟩ :=
          VariantDecl.exists_someFails rest owner _ middle _ hfails
        exact ⟨fault, .later hbuilt hfault, rfl⟩
      · cases hlast
  termination_by structural variants => variants

end

/-! Every fault is a failure. -/

variable {scope}

theorem Fault.run_inside {α : Type} {work : Build α} {store : Store} {fault : Fault}
    (fails : (Build.run work store).1 = .error fault.failure) (node : Node)
    (counts : node.isVariant = false) :
    (Build.run (Build.locate node.span work) store).1 = .error (fault.inside node).failure := by
  rw [Fault.failure_inside fault node counts]
  exact Build.run_locate_eq_error.2 ⟨_, fails, rfl⟩

theorem Fault.run_alone {α : Type} {work : Build α} {store : Store} {problem : Problem}
    (fails : (Build.run work store).1 = .error { problem }) (node : Node) :
    (Build.run (Build.locate node.span work) store).1 =
      .error (⟨problem, node, []⟩ : Fault).failure := by
  rw [Fault.failure_alone]
  exact Build.run_locate_eq_error.2 ⟨_, fails, rfl⟩

theorem TypeExpr.run_array_error {element index : TypeExpr} {name : Option String} {span : Span}
    {store middle after : Store} {elementType indexType : Ty} {inner : Failure}
    (built : Build.run (element.elaborate scope none) store = (.ok elementType, middle))
    (builtIndex : Build.run (index.elaborate scope none) middle = (.ok indexType, after))
    (fails : (Build.run (Ty.arrayOf (Store.newHeader name span) elementType indexType index.span)
      after).1 = .error inner) :
    (Build.run ((TypeExpr.generic TypeExpr.arrayBase [element] (some index) span).elaborate
      scope name) store).1 = .error (inner.located span) := by
  refine Build.run_locate_eq_error.2 ⟨inner, ?_, rfl⟩
  refine Build.run_bind_eq_error.2 (.inr ⟨(), store, rfl, ?_⟩)
  refine Build.run_bind_eq_error.2 (.inr ⟨elementType, middle, built, ?_⟩)
  exact Build.run_bind_eq_error.2 (.inr ⟨indexType, after, builtIndex, fails⟩)

mutual

theorem TypeExpr.Fails.run : {expression : TypeExpr} → {name : Option String} → {store : Store} →
    {fault : Fault} → expression.Fails scope name store fault →
    (Build.run (expression.elaborate scope name) store).1 = .error fault.failure
  | .alias target span, name, store, fault, fails => by
      cases fails with
      | unbound unknown =>
          refine Fault.run_alone ?_ (.expression span)
          rw [Scope.run_resolveType, unknown]
  | .range low high span, name, store, fault, fails => by
      cases fails with
      | inverted inverted =>
          refine Fault.run_alone ?_ (.expression span)
          rw [dif_neg inverted]
          rfl
  | .record fields span, name, store, fault, fails => by
      cases fails with
      | field fails =>
          refine Fault.run_inside ?_ (.expression span) rfl
          exact Build.run_bind_eq_error.2 (.inl fails.run)
  | .either [] span, name, store, fault, fails => by
      cases fails with
      | empty => exact Fault.run_alone rfl (.expression span)
  | .either (first :: rest) span, name, store, fault, fails => by
      cases fails with
      | variant fails =>
          refine Fault.run_inside ?_ (.expression span) rfl
          cases fails with
          | here fails => exact Build.run_bind_eq_error.2 (.inl fails.run)
          | later built fails =>
              exact Build.run_bind_eq_error.2 (.inr ⟨_, _, built,
                Build.run_bind_eq_error.2 (.inl fails.run)⟩)
      | constant built refused =>
          refine Fault.run_alone ?_ (.expression span)
          obtain ⟨_, _, hfirst, hlist⟩ := Build.run_bind_eq_ok.1 built
          obtain ⟨_, _, hrest, hlast⟩ := Build.run_bind_eq_ok.1 hlist
          cases hlast
          refine Build.run_bind_eq_error.2 (.inr ⟨_, _, hfirst, ?_⟩)
          refine Build.run_bind_eq_error.2 (.inr ⟨_, _, hrest, ?_⟩)
          refine Build.run_bind_eq_error.2 (.inr ⟨_, _, rfl, ?_⟩)
          exact Build.run_bind_eq_error.2 (.inl (congrArg Prod.fst refused))
  | .generic base [element] (some index) span, name, store, fault, fails => by
      cases fails with
      | base other =>
          refine Fault.run_alone ?_ (.expression span)
          exact Build.run_bind_eq_error.2 (.inl (TypeExpr.requireArray_error.2 ⟨other, rfl⟩))
      | arguments several => exact absurd rfl several
      | element fails =>
          refine Fault.run_inside ?_ (.expression span) rfl
          refine Build.run_bind_eq_error.2 (.inr ⟨(), store, rfl, ?_⟩)
          exact Build.run_bind_eq_error.2 (.inl fails.run)
      | index built fails =>
          refine Fault.run_inside ?_ (.expression span) rfl
          refine Build.run_bind_eq_error.2 (.inr ⟨(), store, rfl, ?_⟩)
          refine Build.run_bind_eq_error.2 (.inr ⟨_, _, built, ?_⟩)
          exact Build.run_bind_eq_error.2 (.inl fails.run)
      | noRange built builtIndex other =>
          rw [Fault.failure_within _ (.expression index.span) (.expression span) rfl]
          exact TypeExpr.run_array_error built builtIndex
            (Ty.arrayOf_error_iff.2 (.inl ⟨other, rfl⟩))
      | tooLarge built builtIndex large =>
          rw [Fault.failure_within _ (.expression index.span) (.expression span) rfl]
          exact TypeExpr.run_array_error built builtIndex
            (Ty.arrayOf_error_iff.2 (.inr ⟨_, rfl, large, rfl⟩))
  | .generic base [_] none span, name, store, fault, fails => by
      refine TypeExpr.wrongArguments_error_iff.2 ?_
      cases fails with
      | base other => exact .inl ⟨other, rfl⟩
      | noIndex => exact .inr ⟨rfl, rfl⟩
      | arguments several => exact absurd rfl several
  | .generic base [] index span, name, store, fault, fails => by
      cases index <;>
        refine TypeExpr.wrongArguments_error_iff.2 ?_ <;>
        cases fails with
        | base other => exact .inl ⟨other, rfl⟩
        | arguments several => exact .inr ⟨rfl, rfl⟩
  | .generic base (_ :: _ :: _) index span, name, store, fault, fails => by
      cases index <;>
        refine TypeExpr.wrongArguments_error_iff.2 ?_ <;>
        cases fails with
        | base other => exact .inl ⟨other, rfl⟩
        | arguments several => exact .inr ⟨rfl, rfl⟩
  | .unknown kind span, name, store, fault, fails => by
      cases fails with
      | unknown => exact Fault.run_alone rfl (.expression span)
  termination_by structural expression => expression

theorem FieldDecl.Fails.run : {field : FieldDecl} → {owner : String} → {layout : Layout} →
    {store : Store} → {fault : Fault} → field.Fails scope owner layout store fault →
    (Build.run (field.elaborate scope owner layout) store).1 = .error fault.failure
  | ⟨name, type, span⟩, owner, layout, store, fault, fails => by
      cases fails with
      | repeated twice =>
          refine Fault.run_alone ?_ (.field span)
          rw [if_pos twice]
          rfl
      | type once fails =>
          refine Fault.run_inside ?_ (.field span) rfl
          rw [if_neg once]
          exact Build.run_bind_eq_error.2 (.inl fails.run)
  termination_by structural field => field

theorem FieldDecl.SomeFails.run : {fields : List FieldDecl} → {owner : String} →
    {layout : Layout} → {store : Store} → {fault : Fault} →
    FieldDecl.SomeFails scope owner layout fields store fault →
    (Build.run (FieldDecl.elaborateList scope owner layout fields) store).1 = .error fault.failure
  | [], _, _, _, _, fails => nomatch fails
  | field :: rest, owner, layout, store, fault, fails => by
      cases fails with
      | here fails => exact Build.run_bind_eq_error.2 (.inl fails.run)
      | later built fails =>
          exact Build.run_bind_eq_error.2 (.inr ⟨_, _, built,
            Build.run_bind_eq_error.2 (.inl fails.run)⟩)
  termination_by structural fields => fields

theorem VariantDecl.Fails.run : {variant : VariantDecl} → {owner : String} →
    {seen : List String} → {store : Store} → {fault : Fault} →
    variant.Fails scope owner seen store fault →
    (Build.run (variant.elaborate scope owner seen) store).1 = .error fault.failure
  | ⟨name, none, span⟩, owner, seen, store, fault, fails => by
      rw [VariantDecl.elaborate]
      cases fails with
      | repeated twice =>
          rw [if_pos twice]
          exact Build.run_bind_eq_error.2 (.inl (Fault.run_alone rfl (.variant span)))
  | ⟨name, some fields, span⟩, owner, seen, store, fault, fails => by
      rw [VariantDecl.elaborate]
      cases fails with
      | repeated twice =>
          rw [if_pos twice]
          exact Build.run_bind_eq_error.2 (.inl (Fault.run_alone rfl (.variant span)))
      | payload once fails =>
          rw [if_neg once, Fault.failure_inside_variant]
          exact Build.run_bind_eq_error.2 (.inl fails.run)
  termination_by structural variant => variant

theorem VariantDecl.SomeFails.run : {variants : List VariantDecl} → {owner : String} →
    {seen : List String} → {store : Store} → {fault : Fault} →
    VariantDecl.SomeFails scope owner seen variants store fault →
    (Build.run (VariantDecl.elaborateList scope owner seen variants) store).1 =
      .error fault.failure
  | [], _, _, _, _, fails => nomatch fails
  | variant :: rest, owner, seen, store, fault, fails => by
      cases fails with
      | here fails => exact Build.run_bind_eq_error.2 (.inl fails.run)
      | later built fails =>
          exact Build.run_bind_eq_error.2 (.inr ⟨_, _, built,
            Build.run_bind_eq_error.2 (.inl fails.run)⟩)
  termination_by structural variants => variants

end

end

end StateModel
