import StateModel.Proofs.Elaborated
import StateModel.Proofs.Traces

/-!
What elaborations and declarations bind: the constants that are written in their
expressions, inner ones first, and then the declared name. A load that ends well
has bound what all of its declarations are written to bind.
-/
namespace StateModel

def Alternative.WrittenAs (alternative : Alternative) (variant : VariantDecl) : Prop :=
  alternative.name = variant.name ∧ alternative.payload.isNone = variant.isConstant

theorem forall₂_mapIdx {α β γ : Type} {R : α → γ → Prop} {S : β → γ → Prop} {change : Nat → α → β}
    (carries : ∀ place left right, R left right → S (change place left) right) {lefts : List α}
    {rights : List γ} (related : List.Forall₂ R lefts rights) :
    List.Forall₂ S (lefts.mapIdx change) rights := by
  induction related generalizing change with
  | nil => exact .nil
  | cons head _ ih =>
      rw [List.mapIdx_cons]
      exact .cons (carries 0 _ _ head) (ih fun place => carries (place + 1))

theorem EitherType.writtenAs_ofAlternatives (header : Header) {first : Alternative}
    {rest : List Alternative} {variants : List VariantDecl}
    (written : List.Forall₂ Alternative.WrittenAs (first :: rest) variants) :
    (ofAlternatives header first rest).WrittenAs variants := by
  unfold WrittenAs
  rw [variants_ofAlternatives]
  refine forall₂_mapIdx (fun place alternative variant same => ?_) written
  exact same

theorem Ty.traced_arrayOf {scope : Scope} {eithers : List (List VariantDecl)} (element index : Ty)
    (name : Option String) (span place : Span) :
    Build.Traced scope (Act.Written eithers) [] (fun _ => True)
      (Ty.arrayOf (Store.newHeader name span) element index place) := by
  cases index with
  | record | either | array => exact (Build.Traced.fail _).locate place
  | range domain =>
      simp only [Ty.arrayOf]
      split
      · exact (Build.Traced.header (by simp [Act.Written])).bind fun _ _ => .pure trivial
      · exact (Build.Traced.fail _).locate place

theorem TypeExpr.traced_requireArray {scope : Scope} {permitted : Act → Prop} (base : String) :
    Build.Traced scope permitted [] (fun _ => True) (TypeExpr.requireArray base) := by
  unfold TypeExpr.requireArray
  split
  · exact .pure trivial
  · exact .fail _

theorem Scope.traced_resolveType {scope : Scope} {permitted : Act → Prop} (name : String) :
    Build.Traced scope permitted [] (fun _ => True) (scope.resolveType name) := by
  refine .look (fun store => ?_) fun _ _ _ => trivial
  rw [Scope.run_resolveType]
  split <;> rfl

section

variable (scope : Scope) (eithers : List (List VariantDecl))

mutual

theorem TypeExpr.traced_elaborate : (expression : TypeExpr) → expression.eithers ⊆ eithers →
    ∀ name : Option String, Build.Traced scope (Act.Written eithers) expression.bindings
      (fun _ => True) (expression.elaborate scope name)
  | .alias target span, _, _ => (Scope.traced_resolveType target).locate span
  | .range low high span, _, name => by
      refine Build.Traced.locate ?_ span
      split
      · exact (Build.Traced.header (by simp [Act.Written])).bind fun _ _ => .pure trivial
      · exact .fail _
  | .record fields span, inside, name => by
      refine Build.Traced.locate ?_ span
      refine (FieldDecl.traced_elaborateList fields inside _ .empty).bindStill fun _ _ => ?_
      exact (Build.Traced.header (by simp [Act.Written])).bind fun _ _ => .pure trivial
  | .either [] span, _, _ => (Build.Traced.fail _).locate span
  | .either (first :: rest) span, inside, name => by
      refine Build.Traced.locate ?_ span
      rw [TypeExpr.bindings_either]
      simp only [TypeExpr.eithers, VariantDecl.eithersList, List.append_subset] at inside
      refine (VariantDecl.traced_elaborate first inside.1.1 _ []).bind fun alternative hfirst => ?_
      refine (VariantDecl.traced_elaborateList rest inside.1.2 _ _).bind
        fun alternatives hrest => ?_
      refine (Build.Traced.header (by simp [Act.Written])).bind fun header _ => ?_
      have hwritten := EitherType.writtenAs_ofAlternatives header (.cons hfirst hrest)
      exact (Build.Traced.bindConstants hwritten (inside.2 (List.mem_singleton_self _))).bindStill
        fun _ _ => .pure trivial
  | .generic base [element] (some index) span, inside, name => by
      refine Build.Traced.locate ?_ span
      rw [TypeExpr.bindings_generic]
      simp only [TypeExpr.eithers, TypeExpr.eithersList, List.append_nil,
        List.append_subset] at inside
      refine (TypeExpr.traced_requireArray base).bind fun _ _ => ?_
      refine (TypeExpr.traced_elaborate element inside.1 none).bind fun elementType _ => ?_
      exact (TypeExpr.traced_elaborate index inside.2 none).bindStill
        fun indexType _ => Ty.traced_arrayOf elementType indexType name span index.span
  | .generic base [_] none span, _, _ =>
      ((TypeExpr.traced_requireArray base).bind fun _ _ => .fail _).locate span
  | .generic base [] index span, _, _ => by
      cases index <;>
        exact ((TypeExpr.traced_requireArray base).bind fun _ _ => .fail _).locate span
  | .generic base (_ :: _ :: _) index span, _, _ => by
      cases index <;>
        exact ((TypeExpr.traced_requireArray base).bind fun _ _ => .fail _).locate span
  | .unknown _ span, _, _ => (Build.Traced.fail _).locate span
  termination_by structural expression => expression

theorem FieldDecl.traced_elaborate : (field : FieldDecl) → field.eithers ⊆ eithers →
    ∀ (owner : String) (layout : Layout), Build.Traced scope (Act.Written eithers)
      (field.eithers.flatMap VariantDecl.bindings) (fun _ => True)
      (field.elaborate scope owner layout)
  | ⟨name, type, span⟩, inside, owner, layout => by
      refine Build.Traced.locate ?_ span
      refine .refuse (.fail _) ?_
      exact (TypeExpr.traced_elaborate type inside none).bindStill fun _ _ => .pure trivial
  termination_by structural field => field

theorem FieldDecl.traced_elaborateList : (fields : List FieldDecl) →
    FieldDecl.eithersList fields ⊆ eithers →
    ∀ (owner : String) (layout : Layout), Build.Traced scope (Act.Written eithers)
      ((FieldDecl.eithersList fields).flatMap VariantDecl.bindings) (fun _ => True)
      (FieldDecl.elaborateList scope owner layout fields)
  | [], _, _, _ => .pure trivial
  | field :: rest, inside, owner, layout => by
      rw [FieldDecl.eithersList, List.flatMap_append]
      simp only [FieldDecl.eithersList, List.append_subset] at inside
      refine (FieldDecl.traced_elaborate field inside.1 owner layout).bind fun elaborated _ => ?_
      exact (FieldDecl.traced_elaborateList rest inside.2 owner _).bindStill
        fun _ _ => .pure trivial
  termination_by structural fields => fields

theorem VariantDecl.traced_elaborate : (variant : VariantDecl) → variant.eithers ⊆ eithers →
    ∀ (owner : String) (seen : List String), Build.Traced scope (Act.Written eithers)
      (variant.eithers.flatMap VariantDecl.bindings) (Alternative.WrittenAs · variant)
      (variant.elaborate scope owner seen)
  | ⟨name, none, span⟩, _, owner, seen =>
      .refuse ((Build.Traced.fail _).locate span) (.pure ⟨rfl, rfl⟩)
  | ⟨name, some fields, span⟩, inside, owner, seen => by
      refine .refuse ((Build.Traced.fail _).locate span) ?_
      refine (FieldDecl.traced_elaborateList fields inside name .empty).bindStill fun _ _ => ?_
      exact (Build.Traced.header (by simp [Act.Written])).bind fun _ _ => .pure ⟨rfl, rfl⟩
  termination_by structural variant => variant

theorem VariantDecl.traced_elaborateList : (variants : List VariantDecl) →
    VariantDecl.eithersList variants ⊆ eithers →
    ∀ (owner : String) (seen : List String), Build.Traced scope (Act.Written eithers)
      ((VariantDecl.eithersList variants).flatMap VariantDecl.bindings)
      (List.Forall₂ Alternative.WrittenAs · variants)
      (VariantDecl.elaborateList scope owner seen variants)
  | [], _, _, _ => .pure .nil
  | variant :: rest, inside, owner, seen => by
      rw [VariantDecl.eithersList, List.flatMap_append]
      simp only [VariantDecl.eithersList, List.append_subset] at inside
      refine (VariantDecl.traced_elaborate variant inside.1 owner seen).bind
        fun alternative hfirst => ?_
      exact (VariantDecl.traced_elaborateList rest inside.2 owner _).bindStill
        fun _ hrest => .pure (.cons hfirst hrest)
  termination_by structural variants => variants

end

end

/-! Declarations. What is stored for a variable is never a bare constant. -/

theorem Value.isTag_of_assign {target source value : Value}
    (assigned : target.assign source = .ok value) : value.isTag = false := by
  cases target with
  | range target =>
      cases source with
      | range source =>
          obtain ⟨range, -, rfl⟩ := map_eq_ok_iff.1 assigned
          rfl
      | record | either | tag | array => simp [Value.assign] at assigned
  | either target =>
      obtain ⟨either, -, rfl⟩ := map_eq_ok_iff.1 assigned
      rfl
  | record | tag | array => simp [Value.assign] at assigned

theorem Value.isTag_of_assignInt {target value : Value} {number : Int64}
    (assigned : target.assignInt number = .ok value) : value.isTag = false := by
  cases target with
  | range target =>
      obtain ⟨range, -, rfl⟩ := map_eq_ok_iff.1 assigned
      rfl
  | record | either | tag | array => simp [Value.assignInt] at assigned

namespace Build.Traced

variable {scope : Scope} {permitted : Act → Prop}

theorem ofExcept {α : Type} {post : α → Prop} {result : Except Problem α}
    (holds : ∀ value, result = .ok value → post value) :
    Build.Traced scope permitted [] post (Build.ofExcept result) := by
  cases result with
  | error problem => exact fail problem
  | ok value => exact pure (holds value rfl)

theorem resolveValue (name : String) :
    Build.Traced scope permitted [] (fun _ => True) (scope.resolveValue name) := by
  refine look (fun store => ?_) fun _ _ _ => trivial
  rw [Scope.run_resolveValue]
  split <;> rfl

theorem resolveVar (name : String) :
    Build.Traced scope permitted [] (fun _ => True) (scope.resolveVar name) := by
  refine look (fun store => ?_) fun _ _ _ => trivial
  rw [Scope.run_resolveVar]
  split <;> rfl

theorem initialValue (initial : Option Literal) {value : Value} (content : value.isTag = false) :
    Build.Traced scope permitted [] (·.isTag = false) (scope.initialValue initial value) := by
  cases initial with
  | none => exact pure content
  | some literal =>
      refine locate ?_ literal.span
      cases literal with
      | number number _ => exact ofExcept fun _ assigned => Value.isTag_of_assignInt assigned
      | ident name _ =>
          exact (resolveValue name).bind fun _ _ =>
            ofExcept fun _ assigned => Value.isTag_of_assign assigned

end Build.Traced

section

variable (scope : Scope) {eithers : List (List VariantDecl)}

theorem Scope.traced_declareVar (name : String) {type : TypeExpr}
    (inside : type.eithers ⊆ eithers) (initial : Option Literal) :
    Build.Traced scope (Act.Written eithers) (type.bindings ++ [.variable name])
      (fun _ => True) (scope.declareVar name type initial) := by
  refine (TypeExpr.traced_elaborate scope eithers type inside none).bind fun built _ => ?_
  refine (Build.Traced.initialValue initial built.fits_default.not_isTag).bind
    fun value content => ?_
  refine .bindVariable content (by simp [Act.Written]) ?_
  rintro other tag same
  cases same
  simp [Value.isTag] at content

theorem Scope.run_bindNew_eq_ok {name : String} {value : Value} {store after : Store} :
    Build.run (do scope.bindVar name (← Store.newCell value)) store = (.ok (), after) ↔
      ¬(scope.policy = .reject ∧ scope.hasLocalVar store name = true) ∧
        after = (Act.bind name value).apply scope store := by
  rw [Scope.run_bindNew]
  split
  · next refused =>
    constructor
    · rintro ⟨⟩
    · exact fun binds => absurd refused binds.1
  · next free =>
    rw [and_iff_right free, Prod.mk.injEq, and_iff_right rfl]
    exact eq_comm

theorem Scope.run_declareVar_eq_ok {name : String} {type : TypeExpr} {initial : Option Literal}
    {store after : Store} :
    Build.run (scope.declareVar name type initial) store = (.ok (), after) ↔
      ∃ built middle value last, Build.run (type.elaborate scope none) store = (.ok built, middle) ∧
        Build.run (scope.initialValue initial built.default) middle = (.ok value, last) ∧
        ¬(scope.policy = .reject ∧ scope.hasLocalVar last name = true) ∧
        after = (Act.bind name value).apply scope last := by
  unfold Scope.declareVar
  rw [Build.run_bind_eq_ok]
  constructor
  · rintro ⟨built, middle, hbuilt, hrest⟩
    obtain ⟨value, last, hvalue, hbind⟩ := Build.run_bind_eq_ok.1 hrest
    exact ⟨built, middle, value, last, hbuilt, hvalue, (scope.run_bindNew_eq_ok).1 hbind⟩
  · rintro ⟨built, middle, value, last, hbuilt, hvalue, hbind⟩
    refine ⟨built, middle, hbuilt, Build.run_bind_eq_ok.2 ⟨value, last, hvalue, ?_⟩⟩
    exact (scope.run_bindNew_eq_ok).2 hbind

def Decl.DeclaresVariable (decl : Decl) (name : String) (type : TypeExpr)
    (initial : Option Literal) : Prop :=
  (∃ span, decl = .param name type initial span) ∨ ∃ span, decl = .var name type initial span

theorem Build.run_thenReturn_eq_ok {α : Type} {work : Build Unit} {given result : α}
    {store after : Store} :
    Build.run (do work; return given) store = (.ok result, after) ↔
      result = given ∧ Build.run work store = (.ok (), after) := by
  rw [Build.run_bind_eq_ok]
  constructor
  · rintro ⟨⟨⟩, middle, hwork, hreturn⟩
    cases hreturn
    exact ⟨rfl, hwork⟩
  · rintro ⟨rfl, hwork⟩
    exact ⟨(), after, hwork, rfl⟩

theorem Decl.run_declare_param (name : String) (type : TypeExpr) (literal : Literal) (span : Span)
    {store after : Store} {contribution : Contribution} :
    Build.run ((Decl.param name type (some literal) span).declare scope) store =
        (.ok contribution, after) ↔
      contribution = .param name ∧
        Build.run (scope.declareVar name type (some literal)) store = (.ok (), after) := by
  unfold Decl.declare
  rw [Build.run_locate_eq_ok]
  exact Build.run_thenReturn_eq_ok

theorem Decl.run_declare_var (name : String) (type : TypeExpr) (initial : Option Literal)
    (span : Span) {store after : Store} {contribution : Contribution} :
    Build.run ((Decl.var name type initial span).declare scope) store =
        (.ok contribution, after) ↔
      contribution = .var name ∧
        Build.run (scope.declareVar name type initial) store = (.ok (), after) := by
  unfold Decl.declare
  rw [Build.run_locate_eq_ok]
  exact Build.run_thenReturn_eq_ok

theorem Decl.DeclaresVariable.run_declare {decl : Decl} {name : String} {type : TypeExpr}
    {initial : Option Literal} (shape : decl.DeclaresVariable name type initial)
    {store after : Store} {contribution : Contribution}
    (declares : Build.run (decl.declare scope) store = (.ok contribution, after)) :
    Build.run (scope.declareVar name type initial) store = (.ok (), after) := by
  rcases shape with ⟨span, rfl⟩ | ⟨span, rfl⟩
  · cases initial with
    | none =>
        rw [Decl.declare, Build.run_locate_eq_ok] at declares
        cases declares
    | some literal => exact ((Decl.run_declare_param scope name type literal span).1 declares).2
  · exact ((Decl.run_declare_var scope name type initial span).1 declares).2

def Decl.contribution? : Decl → Option Contribution
  | .type .. => some .type
  | .param name _ _ _ => some (.param name)
  | .var name _ _ _ => some (.var name)
  | .rule content _ => some (.rule content)
  | .unknown .. => none

theorem Decl.contribution?_of_declare {decl : Decl} {store after : Store}
    {contribution : Contribution}
    (declares : Build.run (decl.declare scope) store = (.ok contribution, after)) :
    decl.contribution? = some contribution := by
  cases decl with
  | param name type initial span =>
      cases initial with
      | none =>
          rw [declare, Build.run_locate_eq_ok] at declares
          cases declares
      | some literal => rw [((run_declare_param scope name type literal span).1 declares).1]; rfl
  | var name type initial span =>
      rw [((run_declare_var scope name type initial span).1 declares).1]
      rfl
  | type name expression span =>
      rw [declare, Build.run_locate_eq_ok] at declares
      obtain ⟨built, middle, -, hrest⟩ := Build.run_bind_eq_ok.1 declares
      rw [(Build.run_thenReturn_eq_ok.1 hrest).1]
      rfl
  | rule content span =>
      rw [declare, Build.run_locate_eq_ok] at declares
      rw [(Build.run_thenReturn_eq_ok.1 declares).1]
      rfl
  | unknown kind span =>
      rw [declare, Build.run_locate_eq_ok] at declares
      cases declares

theorem Rule.traced_requireIterable (rule : Rule) {permitted : Act → Prop} :
    Build.Traced scope permitted [] (fun _ => True) (rule.requireIterable scope) := by
  cases rule with
  | once => exact .pure trivial
  | each => exact (Build.Traced.resolveVar _).bind fun _ _ => .pure trivial

def Contribution.declared? : Contribution → Option String
  | .param name | .var name => some name
  | .type | .rule _ => none

theorem Decl.traced_declare {decl : Decl} (inside : decl.eithers ⊆ eithers) :
    Build.Traced scope (Act.Written eithers) decl.bindings (·.declared? = decl.declared?)
      (decl.declare scope) := by
  refine Build.Traced.locate ?_ decl.span
  cases decl with
  | type name expression _ =>
      refine (TypeExpr.traced_elaborate scope eithers expression inside _).bind fun built _ => ?_
      exact (Build.Traced.bindType (by simp [Act.Written])).bindStill fun _ _ => .pure rfl
  | param name expression initial _ =>
      cases initial with
      | none => exact .fail _
      | some literal =>
          exact (scope.traced_declareVar name inside _).bindStill fun _ _ => .pure rfl
  | var name expression initial _ =>
      exact (scope.traced_declareVar name inside initial).bindStill fun _ _ => .pure rfl
  | rule rule _ =>
      exact (rule.traced_requireIterable scope).bind fun _ _ => .pure rfl
  | unknown => exact .fail _

/-- A load performs a run of acts, also when it fails; when it ends well, what it
binds is read off its declarations. -/
theorem loadFrom_traced {σ : Type} [RuleSink σ] {store : Store} (settled : scope.Settled store)
    (names : DeclaredNames) (sink : σ) {decls : List Decl}
    (inside : decls.flatMap Decl.eithers ⊆ eithers) :
    ∃ acts, scope.Performs store acts (loadFrom scope names sink store decls).store ∧
      (∀ act ∈ acts, act.Written eithers) ∧
      ∀ loaded, (loadFrom scope names sink store decls).result = .ok loaded →
        acts.filterMap Act.binding? = decls.flatMap Decl.bindings ∧ loaded.scope = scope := by
  induction decls generalizing store names sink with
  | nil =>
      refine ⟨[], .done _, by simp, fun loaded result => ⟨rfl, ?_⟩⟩
      rw [← Except.ok.inj result]
  | cons decl rest ih =>
      rw [List.flatMap_cons, List.append_subset] at inside
      obtain ⟨acts, hacts, hwritten, hbound⟩ := Decl.traced_declare scope inside.1 store settled
      rw [loadFrom]
      rcases hrun : Build.run (decl.declare scope) store with ⟨_ | contribution, middle⟩
      · rw [hrun] at hacts
        exact ⟨acts, hacts, hwritten, by simp⟩
      · rw [hrun] at hacts hbound
        obtain ⟨later, hlater, hwrittenLater, hboundLater⟩ :=
          ih (hacts.settled settled) (names.add contribution)
            (RuleSink.forward sink contribution) inside.2
        refine ⟨acts ++ later, hacts.append hlater,
          List.forall_mem_append.2 ⟨hwritten, hwrittenLater⟩, fun loaded result => ?_⟩
        obtain ⟨hall, hscope⟩ := hboundLater loaded result
        refine ⟨?_, hscope⟩
        rw [List.filterMap_append, (hbound contribution rfl).1, hall, List.flatMap_cons]

end

end StateModel
