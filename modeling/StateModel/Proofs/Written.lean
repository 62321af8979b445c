import Mathlib.Data.List.Forall2
import StateModel.Elaborate
import StateModel.Proofs.Runs

/-!
What declarations write: the either types in their expressions, and the names
that they bind, in the order in which they bind them. These are read off the
tree, before any name is looked up.
-/
namespace StateModel

mutual

/-- Inner either types come before the one around them, since a type is built
after its parts. -/
def TypeExpr.eithers : TypeExpr → List (List VariantDecl)
  | .alias .. | .range .. | .unknown .. => []
  | .record fields _ => FieldDecl.eithersList fields
  | .either variants _ => VariantDecl.eithersList variants ++ [variants]
  | .generic _ arguments none _ => TypeExpr.eithersList arguments
  | .generic _ arguments (some index) _ => TypeExpr.eithersList arguments ++ index.eithers
  termination_by structural expression => expression

def TypeExpr.eithersList : List TypeExpr → List (List VariantDecl)
  | [] => []
  | expression :: rest => expression.eithers ++ TypeExpr.eithersList rest
  termination_by structural expressions => expressions

def FieldDecl.eithers : FieldDecl → List (List VariantDecl)
  | ⟨_, type, _⟩ => type.eithers
  termination_by structural field => field

def FieldDecl.eithersList : List FieldDecl → List (List VariantDecl)
  | [] => []
  | field :: rest => field.eithers ++ FieldDecl.eithersList rest
  termination_by structural fields => fields

def VariantDecl.eithers : VariantDecl → List (List VariantDecl)
  | ⟨_, none, _⟩ => []
  | ⟨_, some fields, _⟩ => FieldDecl.eithersList fields
  termination_by structural variant => variant

def VariantDecl.eithersList : List VariantDecl → List (List VariantDecl)
  | [] => []
  | variant :: rest => variant.eithers ++ VariantDecl.eithersList rest
  termination_by structural variants => variants

end

def VariantDecl.bindings (variants : List VariantDecl) : List Binding :=
  (variants.filter VariantDecl.isConstant).map fun variant => .constant variant.name

def TypeExpr.bindings (expression : TypeExpr) : List Binding :=
  expression.eithers.flatMap VariantDecl.bindings

theorem TypeExpr.bindings_either (first : VariantDecl) (rest : List VariantDecl) (span : Span) :
    (TypeExpr.either (first :: rest) span).bindings =
      first.eithers.flatMap VariantDecl.bindings ++
        ((VariantDecl.eithersList rest).flatMap VariantDecl.bindings ++
          VariantDecl.bindings (first :: rest)) := by
  simp [TypeExpr.bindings, TypeExpr.eithers, VariantDecl.eithersList]

theorem TypeExpr.bindings_generic (base : String) (element index : TypeExpr) (span : Span) :
    (TypeExpr.generic base [element] (some index) span).bindings =
      element.bindings ++ index.bindings := by
  simp [TypeExpr.bindings, TypeExpr.eithers, TypeExpr.eithersList]

namespace Decl

def expression? : Decl → Option TypeExpr
  | .type _ expression _ | .param _ expression _ _ | .var _ expression _ _ => some expression
  | .rule .. | .unknown .. => none

def binding? : Decl → Option Binding
  | .type name _ _ => some (.type name)
  | .param name _ _ _ | .var name _ _ _ => some (.variable name)
  | .rule .. | .unknown .. => none

def declared? : Decl → Option String
  | .param name _ _ _ | .var name _ _ _ => some name
  | .type .. | .rule .. | .unknown .. => none

def eithers (decl : Decl) : List (List VariantDecl) :=
  (decl.expression?.map TypeExpr.eithers).getD []

/-- The constants of its expression are bound before the name itself. -/
def bindings (decl : Decl) : List Binding :=
  (decl.expression?.map TypeExpr.bindings).getD [] ++ decl.binding?.toList

end Decl

theorem VariantDecl.not_variable_mem_bindings (name : String) (variants : List VariantDecl) :
    .variable name ∉ VariantDecl.bindings variants := by
  simp [VariantDecl.bindings]

theorem TypeExpr.not_variable_mem_bindings (name : String) (expression : TypeExpr) :
    .variable name ∉ expression.bindings := by
  simp [TypeExpr.bindings, VariantDecl.not_variable_mem_bindings]

theorem Decl.variable_mem_bindings {name : String} {decl : Decl} :
    .variable name ∈ decl.bindings ↔ decl.declared? = some name := by
  unfold Decl.bindings
  cases decl <;> simp [Decl.expression?, Decl.binding?, Decl.declared?,
    TypeExpr.not_variable_mem_bindings, eq_comm]

theorem Decl.variable_mem_flatMap_bindings {name : String} {decls : List Decl} :
    .variable name ∈ decls.flatMap Decl.bindings ↔ ∃ decl ∈ decls, decl.declared? = some name := by
  simp only [List.mem_flatMap, Decl.variable_mem_bindings]

/-- The either type has the variants that are written, and constants where they
are written without fields. -/
def EitherType.WrittenAs (type : EitherType) (variants : List VariantDecl) : Prop :=
  List.Forall₂ (fun variant written => variant.name = written.name ∧
    variant.isConstant = written.isConstant) type.variants variants

def Tag.WrittenIn (tag : Tag) (eithers : List (List VariantDecl)) : Prop :=
  tag.variant.isConstant = true ∧ ∃ variants ∈ eithers, tag.either.WrittenAs variants

def Act.Written (eithers : List (List VariantDecl)) (act : Act) : Prop :=
  ∀ name tag, act = .bind name (.tag tag) → tag.name = name ∧ tag.WrittenIn eithers

theorem EitherType.map_variant_tags (type : EitherType) :
    type.tags.map Tag.variant = type.variants := by
  have hplaces : List.ofFn (fun place : Fin type.variants.length => type.variants[place]) =
      type.variants := List.ofFn_getElem
  rw [tags, List.map_ofFn]
  exact hplaces

theorem EitherType.map_variant_constants (type : EitherType) :
    type.constants.map Tag.variant = type.variants.filter Variant.isConstant := by
  unfold constants
  rw [← type.map_variant_tags, List.filter_map]
  rfl

theorem EitherType.WrittenAs.names_constants {type : EitherType} {variants : List VariantDecl}
    (written : type.WrittenAs variants) :
    type.constants.map (fun tag => Binding.constant tag.name) = VariantDecl.bindings variants := by
  have hnames : type.constants.map (fun tag => Binding.constant tag.name) =
      (type.variants.filter Variant.isConstant).map (fun variant => .constant variant.name) := by
    rw [← type.map_variant_constants, List.map_map]
    rfl
  rw [hnames, VariantDecl.bindings]
  unfold EitherType.WrittenAs at written
  generalize type.variants = built at written
  induction written with
  | nil => rfl
  | @cons variant decl _ _ same _ ih =>
      rw [List.filter_cons, List.filter_cons, same.2]
      split
      · rw [List.map_cons, List.map_cons, ih, same.1]
      · exact ih

end StateModel
