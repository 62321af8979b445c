import StateModel.Span

/-!
Declaration trees: what a text declares, before any name is looked up. Every
node carries its span, and a node built in code has the dummy span. Kinds that
the language does not know are kept in the tree, so that they can be reported.
-/
namespace StateModel

mutual

inductive TypeExpr where
  | alias (name : String) (span : Span := .dummy)
  | range (low high : Int64) (span : Span := .dummy)
  | record (fields : List FieldDecl) (span : Span := .dummy)
  | either (variants : List VariantDecl) (span : Span := .dummy)
  | generic (base : String) (arguments : List TypeExpr) (index : Option TypeExpr)
      (span : Span := .dummy)
  | unknown (kind : String) (span : Span := .dummy)

structure FieldDecl where
  name : String
  type : TypeExpr
  span : Span := .dummy

/-- A variant without a field list is a bare constant; one with an empty list
still carries a record. -/
structure VariantDecl where
  name : String
  fields : Option (List FieldDecl)
  span : Span := .dummy

end

namespace TypeExpr

def arrayBase : String := "Array"

def array (value index : TypeExpr) (span : Span := .dummy) : TypeExpr :=
  .generic arrayBase [value] (some index) span

def span : TypeExpr → Span
  | .alias _ span | .range _ _ span | .record _ span | .either _ span
  | .generic _ _ _ span | .unknown _ span => span

def kind : TypeExpr → String
  | .alias .. => "alias"
  | .range .. => "range"
  | .record .. => "record"
  | .either .. => "either"
  | .generic .. => "generic"
  | .unknown kind _ => kind

end TypeExpr

def VariantDecl.isConstant (variant : VariantDecl) : Bool := variant.fields.isNone

/-- A default value as written: a number, or a name looked up when it is applied. -/
inductive Literal where
  | number (value : Int64) (span : Span := .dummy)
  | ident (name : String) (span : Span := .dummy)
  deriving DecidableEq

namespace Literal

def span : Literal → Span
  | .number _ span | .ident _ span => span

def text : Literal → String
  | .number value _ => value.toInt.repr
  | .ident name _ => name

end Literal

structure Block where
  source : String
  span : Span := .dummy
  deriving DecidableEq

inductive Rule where
  | once (name : String) (body : Block)
  | each (name index iterable : String) (body : Block)
  deriving DecidableEq

namespace Rule

def name : Rule → String
  | .once name _ | .each name _ _ _ => name

def body : Rule → Block
  | .once _ body | .each _ _ _ body => body

end Rule

inductive Decl where
  | type (name : String) (type : TypeExpr) (span : Span := .dummy)
  | param (name : String) (type : TypeExpr) (initial : Option Literal) (span : Span := .dummy)
  | var (name : String) (type : TypeExpr) (initial : Option Literal) (span : Span := .dummy)
  | rule (rule : Rule) (span : Span := .dummy)
  | unknown (kind : String) (span : Span := .dummy)

namespace Decl

def span : Decl → Span
  | .type _ _ span | .param _ _ _ span | .var _ _ _ span | .rule _ span | .unknown _ span => span

def kind : Decl → String
  | .type .. => "typedecl"
  | .param .. => "paramdecl"
  | .var .. => "vardecl"
  | .rule (.once ..) _ => "rule"
  | .rule (.each ..) _ => "rulefor"
  | .unknown kind _ => kind

def rule? : Decl → Option Rule
  | .rule forwarded _ => some forwarded
  | _ => none

end Decl

end StateModel
