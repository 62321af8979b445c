import Mathlib.Data.List.Nodup
import StateModel.Proofs.Growth

/-!
What elaboration builds. The types of expressions are known to a larger catalog,
with distinct names in every record and every either; so are the types and the
values that declarations bind.
-/
namespace StateModel

def FreshNames (seen names : List String) : Prop := names.Nodup ∧ ∀ name ∈ names, name ∉ seen

theorem FreshNames.cons {seen names : List String} {name : String} (unseen : name ∉ seen)
    (fresh : FreshNames (name :: seen) names) : FreshNames seen (name :: names) := by
  refine ⟨List.nodup_cons.2 ⟨fun later => fresh.2 name later (by simp), fresh.1⟩, ?_⟩
  intro other hother
  rcases List.mem_cons.1 hother with rfl | later
  · exact unseen
  · exact fun old => fresh.2 other later (by simp [old])

namespace Catalog

def KnowsField (catalog : Catalog) (layout : Layout) (field : Field) : Prop :=
  catalog.Knows field.type ∧ ¬ layout.contains field.name

/-- The fields that follow those of the names before, with the layout of them all. -/
def KnowsFields (catalog : Catalog) (before : List String) (built : List Field × Layout) : Prop :=
  (∀ field ∈ built.1, catalog.Knows field.type) ∧
    built.2.InStep (before ++ built.1.map (·.name))

def KnowsPayload (catalog : Catalog) (alternative : Alternative) : Prop :=
  ∀ payload, alternative.payload = some payload →
    catalog.Knows (.record payload) ∧ payload.header.name = some alternative.name

def KnowsAlternative (catalog : Catalog) (seen : List String) (alternative : Alternative) : Prop :=
  catalog.KnowsPayload alternative ∧ alternative.name ∉ seen

def KnowsAlternatives (catalog : Catalog) (seen : List String)
    (alternatives : List Alternative) : Prop :=
  (∀ alternative ∈ alternatives, catalog.KnowsPayload alternative) ∧
    FreshNames seen (alternatives.map (·.name))

variable {catalog larger : Catalog} {seen : List String}

theorem KnowsFields.cons {before : List String} {field : Field} {fields : List Field}
    {filled : Layout} (known : catalog.Knows field.type)
    (others : catalog.KnowsFields (before ++ [field.name]) (fields, filled)) :
    catalog.KnowsFields before (field :: fields, filled) := by
  refine ⟨List.forall_mem_cons.2 ⟨known, others.1⟩, ?_⟩
  rw [List.map_cons, List.append_cons]
  exact others.2

theorem KnowsPayload.mono {alternative : Alternative} (known : catalog.KnowsPayload alternative)
    (grown : catalog <+: larger) : larger.KnowsPayload alternative :=
  fun payload given => ⟨(known payload given).1.mono grown, (known payload given).2⟩

theorem KnowsAlternatives.cons {alternative : Alternative} {alternatives : List Alternative}
    (known : catalog.KnowsAlternative seen alternative)
    (others : catalog.KnowsAlternatives (alternative.name :: seen) alternatives) :
    catalog.KnowsAlternatives seen (alternative :: alternatives) := by
  refine ⟨fun other hother => ?_, others.2.cons known.2⟩
  rcases List.mem_cons.1 hother with rfl | later
  · exact known.1
  · exact others.1 other later

end Catalog

theorem EitherType.variants_ofAlternatives (header : Header) (first : Alternative)
    (rest : List Alternative) :
    (ofAlternatives header first rest).variants =
      (first :: rest).mapIdx fun index alternative => alternative.place header.id index := by
  simp [variants, ofAlternatives, List.mapIdx_cons]

theorem EitherType.names_ofAlternatives (header : Header) (first : Alternative)
    (rest : List Alternative) :
    (ofAlternatives header first rest).variants.map (·.name) = (first :: rest).map (·.name) := by
  rw [variants_ofAlternatives]
  apply List.ext_getElem?
  intro place
  simp only [List.getElem?_map, List.getElem?_mapIdx, Option.map_map]
  rfl

namespace Catalog

variable {catalog : Catalog} {header : Header} {first : Alternative} {rest : List Alternative}

theorem KnowsAlternatives.part_known
    (known : catalog.KnowsAlternatives [] (first :: rest)) {part : Ty}
    (inside : part ∈ (Ty.either (.ofAlternatives header first rest)).parts)
    (inner : part ≠ .either (.ofAlternatives header first rest)) :
    ∃ whole, catalog.Knows whole ∧ part ∈ whole.parts := by
  rcases EitherType.mem_parts.1 inside with same | ⟨variant, hvariant, hpart⟩
  · exact absurd same inner
  · obtain ⟨payload, hpayload, hinside⟩ := Variant.mem_parts.1 hpart
    rw [EitherType.variants_ofAlternatives] at hvariant
    obtain ⟨place, hplace, rfl⟩ := List.mem_mapIdx.1 hvariant
    exact ⟨.record payload,
      (known.1 _ (List.getElem_mem hplace) payload hpayload).1, hinside⟩

theorem KnowsAlternatives.proper
    (known : catalog.KnowsAlternatives [] (first :: rest)) :
    (Ty.either (.ofAlternatives header first rest)).Proper := by
  refine ⟨?_, fun place variant hvariant => ?_⟩
  · rw [EitherType.names_ofAlternatives]
    exact known.2.1
  · rw [EitherType.variants_ofAlternatives, List.getElem?_mapIdx] at hvariant
    obtain ⟨alternative, hplace, rfl⟩ := Option.map_eq_some_iff.1 hvariant
    refine ⟨rfl, rfl, fun payload hpayload => ?_⟩
    exact (known.1 alternative (List.mem_of_getElem? hplace) payload hpayload).2

end Catalog

theorem Build.Grows.record {catalog : Catalog} {fields : List Field} {layout : Layout}
    (known : catalog.KnowsFields [] (fields, layout)) {α : Type} {knownNext : Catalog → α → Prop}
    {next : Header → Build α} {name : Option String} {span : Span}
    (rest : ∀ id (larger : Catalog), catalog <+: larger →
      larger.Knows (.record ⟨⟨id, name, span⟩, fields, layout⟩) →
      Build.Grows larger knownNext (next ⟨id, name, span⟩)) :
    Build.Grows catalog knownNext (Store.newHeader name span >>= next) := by
  refine .header (fun id => .record ⟨⟨id, name, span⟩, fields, layout⟩) (fun _ => rfl) ?_
    (fun _ => known.2) rest
  intro id part hpart inner
  rcases RecordType.mem_parts.1 hpart with same | ⟨field, hfield, hinside⟩
  · exact absurd same inner
  · exact ⟨field.type, known.1 field hfield, hinside⟩

theorem Ty.grows_arrayOf {catalog : Catalog} {element index : Ty}
    (knowsElement : catalog.Knows element) (knowsIndex : catalog.Knows index)
    (name : Option String) (span place : Span) :
    Build.Grows catalog Catalog.Knows
      (Ty.arrayOf (Store.newHeader name span) element index place) := by
  cases index with
  | record | either | array => exact (Build.Grows.fail _).locate place
  | range domain =>
      simp only [Ty.arrayOf]
      split
      · next small =>
        refine .header (fun id => .array ⟨⟨id, name, span⟩, element, domain, small⟩)
          (fun _ => rfl) ?_ (fun _ => trivial) (fun id larger _ knows => .pure knows)
        intro id part hpart inner
        rcases ArrayType.mem_parts.1 hpart with same | rfl | hinside
        · exact absurd same inner
        · exact ⟨.range domain, knowsIndex, Ty.mem_parts_self _⟩
        · exact ⟨element, knowsElement, hinside⟩
      · exact (Build.Grows.fail _).locate place

theorem TypeExpr.grows_requireArray {catalog : Catalog} (base : String) :
    Build.Grows catalog (fun _ _ => True) (TypeExpr.requireArray base) := by
  unfold TypeExpr.requireArray
  split
  · exact .pure trivial
  · exact .fail _

-- Every part may add to the catalog, so what is known of earlier parts is carried over each time.
mutual

theorem TypeExpr.grows_elaborate (scope : Scope) : (expression : TypeExpr) →
    ∀ (name : Option String) (catalog : Catalog),
      Build.Grows catalog Catalog.Knows (expression.elaborate scope name)
  | .alias _ span, _, _ => Build.Grows.resolveType.locate span
  | .range low high span, name, _ => by
      refine Build.Grows.locate ?_ span
      split
      · next ordered =>
        refine .header (fun id => .range ⟨⟨id, name, span⟩, ⟨low, high, ordered⟩⟩)
          (fun _ => rfl) ?_ (fun _ => trivial) (fun id larger _ knows => .pure knows)
        intro id part hpart inner
        exact absurd (List.mem_singleton.1 hpart) inner
      · exact .fail _
  | .record fields span, name, catalog => by
      refine Build.Grows.locate ?_ span
      refine (FieldDecl.grows_elaborateList scope fields _ .empty [] catalog .empty).bind
        fun larger built _ known => ?_
      exact .record known fun id wider _ knows => .pure knows
  | .either [] span, _, _ => (Build.Grows.fail _).locate span
  | .either (first :: rest) span, name, catalog => by
      refine Build.Grows.locate ?_ span
      refine (VariantDecl.grows_elaborate scope first _ [] catalog).bind
        fun middle alternative _ knownFirst => ?_
      refine (VariantDecl.grows_elaborateList scope rest _ [alternative.name] middle).bind
        fun larger alternatives hlarger knownRest => ?_
      have known : larger.KnowsAlternatives [] (alternative :: alternatives) :=
        .cons ⟨knownFirst.1.mono hlarger, knownFirst.2⟩ knownRest
      refine .header
        (fun id => .either (.ofAlternatives ⟨id, name, span⟩ alternative alternatives))
        (fun _ => rfl) (fun _ _ => known.part_known) (fun _ => known.proper) ?_
      intro id wider _ knows
      exact (Build.Grows.bindConstants knows).bind
        fun widest _ hwidest _ => .pure (knows.mono hwidest)
  | .generic base [element] (some index) span, name, catalog => by
      refine Build.Grows.locate ?_ span
      refine (TypeExpr.grows_requireArray base).bind fun start _ _ _ => ?_
      refine (TypeExpr.grows_elaborate scope element none start).bind
        fun middle elementType _ knowsElement => ?_
      refine (TypeExpr.grows_elaborate scope index none middle).bind
        fun larger indexType hlarger knowsIndex => ?_
      exact Ty.grows_arrayOf (knowsElement.mono hlarger) knowsIndex name span index.span
  | .generic base [_] none span, _, _ =>
      ((TypeExpr.grows_requireArray base).bind fun _ _ _ _ => .fail _).locate span
  | .generic base [] index span, _, _ => by
      cases index <;>
        exact ((TypeExpr.grows_requireArray base).bind fun _ _ _ _ => .fail _).locate span
  | .generic base (_ :: _ :: _) index span, _, _ => by
      cases index <;>
        exact ((TypeExpr.grows_requireArray base).bind fun _ _ _ _ => .fail _).locate span
  | .unknown _ span, _, _ => (Build.Grows.fail _).locate span
  termination_by structural expression => expression

theorem FieldDecl.grows_elaborate (scope : Scope) : (field : FieldDecl) →
    ∀ (owner : String) (layout : Layout) (catalog : Catalog),
      Build.Grows catalog (·.KnowsField layout) (field.elaborate scope owner layout)
  | ⟨name, type, span⟩, owner, layout, catalog => by
      refine Build.Grows.locate ?_ span
      refine .refuse (.fail _) fun unseen => ?_
      exact (TypeExpr.grows_elaborate scope type none catalog).bind
        fun larger type _ knows => .pure ⟨knows, unseen⟩
  termination_by structural field => field

theorem FieldDecl.grows_elaborateList (scope : Scope) : (fields : List FieldDecl) →
    ∀ (owner : String) (layout : Layout) (before : List String) (catalog : Catalog),
      layout.InStep before → Build.Grows catalog (·.KnowsFields before)
        (FieldDecl.elaborateList scope owner layout fields)
  | [], _, _, _, _, inStep => .pure ⟨by simp, by simpa using inStep⟩
  | field :: rest, owner, layout, before, catalog, inStep => by
      refine (FieldDecl.grows_elaborate scope field owner layout catalog).bind
        fun middle elaborated _ known => ?_
      refine (FieldDecl.grows_elaborateList scope rest owner _ _ middle
        (inStep.enter known.2)).bind fun larger others hlarger knownOthers => ?_
      exact .pure (.cons (known.1.mono hlarger) knownOthers)
  termination_by structural fields => fields

theorem VariantDecl.grows_elaborate (scope : Scope) : (variant : VariantDecl) →
    ∀ (owner : String) (seen : List String) (catalog : Catalog),
      Build.Grows catalog (·.KnowsAlternative seen) (variant.elaborate scope owner seen)
  | ⟨name, none, span⟩, owner, seen, catalog => by
      refine .refuse ((Build.Grows.fail _).locate span) fun unseen => ?_
      exact .pure ⟨by simp [Catalog.KnowsPayload], unseen⟩
  | ⟨name, some fields, span⟩, owner, seen, catalog => by
      refine .refuse ((Build.Grows.fail _).locate span) fun unseen => ?_
      refine (FieldDecl.grows_elaborateList scope fields name .empty [] catalog .empty).bind
        fun larger built _ known => ?_
      refine .record known fun id wider _ knows => .pure ⟨?_, unseen⟩
      intro payload given
      rw [← Option.some.inj given]
      exact ⟨knows, rfl⟩
  termination_by structural variant => variant

theorem VariantDecl.grows_elaborateList (scope : Scope) : (variants : List VariantDecl) →
    ∀ (owner : String) (seen : List String) (catalog : Catalog),
      Build.Grows catalog (·.KnowsAlternatives seen)
        (VariantDecl.elaborateList scope owner seen variants)
  | [], _, _, _ => .pure ⟨by simp, by simp [FreshNames]⟩
  | variant :: rest, owner, seen, catalog => by
      refine (VariantDecl.grows_elaborate scope variant owner seen catalog).bind
        fun middle alternative _ known => ?_
      refine (VariantDecl.grows_elaborateList scope rest owner _ middle).bind
        fun larger others hlarger knownOthers => ?_
      exact .pure (.cons ⟨known.1.mono hlarger, known.2⟩ knownOthers)
  termination_by structural variants => variants

end

/-! Declarations, and the loads that take them one after the other. -/

theorem Literal.grows_applyTo {catalog : Catalog} {type : Ty} {target : Value}
    (knows : catalog.Knows type) (fits : type.Fits target) (literal : Literal) (scope : Scope) :
    Build.Grows catalog (fun _ value => type.Fits value) (literal.applyTo scope target) := by
  refine Build.Grows.locate ?_ literal.span
  cases literal with
  | number number _ =>
      exact .ofExcept fun value assigned =>
        Catalog.keeps_assignInt number type target value knows fits assigned
  | ident name _ =>
      refine Build.Grows.resolveValue.bind fun larger source hlarger holds => ?_
      exact .ofExcept fun value assigned =>
        Catalog.keeps_assign holds type target value (knows.mono hlarger) fits assigned

theorem Scope.grows_initialValue {catalog : Catalog} {type : Ty} {value : Value}
    (knows : catalog.Knows type) (fits : type.Fits value) (scope : Scope)
    (initial : Option Literal) :
    Build.Grows catalog (fun _ value => type.Fits value) (scope.initialValue initial value) := by
  cases initial with
  | none => exact .pure fits
  | some literal => exact literal.grows_applyTo knows fits scope

theorem Scope.grows_declareVar {catalog : Catalog} (scope : Scope) (name : String)
    (type : TypeExpr) (initial : Option Literal) :
    Build.Grows catalog (fun _ _ => True) (scope.declareVar name type initial) := by
  refine (TypeExpr.grows_elaborate scope type none catalog).bind fun middle built _ knows => ?_
  refine (scope.grows_initialValue knows built.fits_default initial).bind
    fun larger value hlarger fits => ?_
  exact (Build.Grows.newCell ((knows.mono hlarger).holds fits)).bind fun _ _ _ _ => .bindVar

theorem Rule.grows_requireIterable {catalog : Catalog} (scope : Scope) (rule : Rule) :
    Build.Grows catalog (fun _ _ => True) (rule.requireIterable scope) := by
  cases rule with
  | once => exact .pure trivial
  | each => exact Build.Grows.resolveVar.bind fun _ _ _ _ => .pure trivial

theorem Decl.grows_declare {catalog : Catalog} (scope : Scope) (decl : Decl) :
    Build.Grows catalog (fun _ _ => True) (decl.declare scope) := by
  refine Build.Grows.locate ?_ decl.span
  cases decl with
  | type name expression _ =>
      refine (TypeExpr.grows_elaborate scope expression (some name) catalog).bind
        fun larger built _ knows => ?_
      exact (Build.Grows.bindType knows).bind fun _ _ _ _ => .pure trivial
  | param name type initial _ =>
      cases initial with
      | none => exact .fail _
      | some literal => exact (scope.grows_declareVar name type _).bind fun _ _ _ _ => .pure trivial
  | var name type initial _ =>
      exact (scope.grows_declareVar name type initial).bind fun _ _ _ _ => .pure trivial
  | rule rule _ => exact (rule.grows_requireIterable scope).bind fun _ _ _ _ => .pure trivial
  | unknown => exact .fail _

/-- A load leaves a covered store behind, also when it fails. -/
theorem Catalog.Covers.loadFrom {σ : Type} [RuleSink σ] {catalog : Catalog} {store : Store}
    (covers : catalog.Covers store) (scope : Scope) (names : DeclaredNames) (sink : σ)
    (decls : List Decl) :
    ∃ larger : Catalog, catalog <+: larger ∧
      larger.Covers (loadFrom scope names sink store decls).store := by
  induction decls generalizing catalog store names sink with
  | nil => exact ⟨catalog, List.prefix_rfl, covers⟩
  | cons decl rest ih =>
      obtain ⟨middle, hmiddle, hcovers, -⟩ := decl.grows_declare scope store covers
      rw [StateModel.loadFrom]
      rcases hrun : Build.run (decl.declare scope) store with ⟨_ | contribution, after⟩
      · rw [hrun] at hcovers
        exact ⟨middle, hmiddle, hcovers⟩
      · rw [hrun] at hcovers
        obtain ⟨larger, hlarger, hafter⟩ := ih hcovers _ _
        exact ⟨larger, hmiddle.trans hlarger, hafter⟩

theorem Catalog.Covers.loadIn {σ : Type} [RuleSink σ] {catalog : Catalog} {store : Store}
    (covers : catalog.Covers store) (parent : Option Scope) (policy : Redefinition)
    (decls : List Decl) (sink : σ) :
    ∃ larger : Catalog, catalog <+: larger ∧
      larger.Covers (loadIn parent policy decls sink store).store := by
  rw [loadIn_eq_load]
  exact covers.newFrame.loadFrom _ {} sink decls

end StateModel
