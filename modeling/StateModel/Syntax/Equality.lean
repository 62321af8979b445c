import StateModel.Syntax

/-!
Equality of declaration trees is decidable, spans included. Type expressions
nest through lists, so the test is written by recursion on the tree.
-/
namespace StateModel

mutual

def TypeExpr.agrees : TypeExpr → TypeExpr → Bool
  | .alias name span, .alias name' span' => name == name' && span == span'
  | .range low high span, .range low' high' span' =>
      low == low' && high == high' && span == span'
  | .record fields span, .record fields' span' =>
      FieldDecl.agreeList fields fields' && span == span'
  | .either variants span, .either variants' span' =>
      VariantDecl.agreeList variants variants' && span == span'
  | .generic base arguments index span, .generic base' arguments' index' span' =>
      base == base' && TypeExpr.agreeList arguments arguments' &&
        TypeExpr.agreeOption index index' && span == span'
  | .unknown kind span, .unknown kind' span' => kind == kind' && span == span'
  | _, _ => false
  termination_by structural left => left

def TypeExpr.agreeList : List TypeExpr → List TypeExpr → Bool
  | [], [] => true
  | left :: lefts, right :: rights => left.agrees right && TypeExpr.agreeList lefts rights
  | _, _ => false
  termination_by structural lefts => lefts

def TypeExpr.agreeOption : Option TypeExpr → Option TypeExpr → Bool
  | none, none => true
  | some left, some right => left.agrees right
  | _, _ => false
  termination_by structural left => left

def FieldDecl.agrees : FieldDecl → FieldDecl → Bool
  | ⟨name, type, span⟩, ⟨name', type', span'⟩ =>
      name == name' && type.agrees type' && span == span'
  termination_by structural left => left

def FieldDecl.agreeList : List FieldDecl → List FieldDecl → Bool
  | [], [] => true
  | left :: lefts, right :: rights => left.agrees right && FieldDecl.agreeList lefts rights
  | _, _ => false
  termination_by structural lefts => lefts

def FieldDecl.agreeOption : Option (List FieldDecl) → Option (List FieldDecl) → Bool
  | none, none => true
  | some left, some right => FieldDecl.agreeList left right
  | _, _ => false
  termination_by structural left => left

def VariantDecl.agrees : VariantDecl → VariantDecl → Bool
  | ⟨name, fields, span⟩, ⟨name', fields', span'⟩ =>
      name == name' && FieldDecl.agreeOption fields fields' && span == span'
  termination_by structural left => left

def VariantDecl.agreeList : List VariantDecl → List VariantDecl → Bool
  | [], [] => true
  | left :: lefts, right :: rights => left.agrees right && VariantDecl.agreeList lefts rights
  | _, _ => false
  termination_by structural lefts => lefts

end

mutual

theorem TypeExpr.agrees_iff (left right : TypeExpr) : left.agrees right = true ↔ left = right := by
  cases left <;> cases right <;>
    simp [TypeExpr.agrees, TypeExpr.agreeList_iff, TypeExpr.agreeOption_iff,
      FieldDecl.agreeList_iff, VariantDecl.agreeList_iff, and_assoc]
  termination_by structural left

theorem TypeExpr.agreeList_iff (lefts rights : List TypeExpr) :
    TypeExpr.agreeList lefts rights = true ↔ lefts = rights := by
  cases lefts <;> cases rights <;>
    simp [TypeExpr.agreeList, TypeExpr.agrees_iff, TypeExpr.agreeList_iff]
  termination_by structural lefts

theorem TypeExpr.agreeOption_iff (left right : Option TypeExpr) :
    TypeExpr.agreeOption left right = true ↔ left = right := by
  cases left <;> cases right <;> simp [TypeExpr.agreeOption, TypeExpr.agrees_iff]
  termination_by structural left

theorem FieldDecl.agrees_iff (left right : FieldDecl) :
    left.agrees right = true ↔ left = right := by
  cases left; cases right
  simp [FieldDecl.agrees, TypeExpr.agrees_iff, and_assoc]
  termination_by structural left

theorem FieldDecl.agreeList_iff (lefts rights : List FieldDecl) :
    FieldDecl.agreeList lefts rights = true ↔ lefts = rights := by
  cases lefts <;> cases rights <;>
    simp [FieldDecl.agreeList, FieldDecl.agrees_iff, FieldDecl.agreeList_iff]
  termination_by structural lefts

theorem FieldDecl.agreeOption_iff (left right : Option (List FieldDecl)) :
    FieldDecl.agreeOption left right = true ↔ left = right := by
  cases left <;> cases right <;> simp [FieldDecl.agreeOption, FieldDecl.agreeList_iff]
  termination_by structural left

theorem VariantDecl.agrees_iff (left right : VariantDecl) :
    left.agrees right = true ↔ left = right := by
  cases left; cases right
  simp [VariantDecl.agrees, FieldDecl.agreeOption_iff, and_assoc]
  termination_by structural left

theorem VariantDecl.agreeList_iff (lefts rights : List VariantDecl) :
    VariantDecl.agreeList lefts rights = true ↔ lefts = rights := by
  cases lefts <;> cases rights <;>
    simp [VariantDecl.agreeList, VariantDecl.agrees_iff, VariantDecl.agreeList_iff]
  termination_by structural lefts

end

instance : DecidableEq TypeExpr := fun left right =>
  decidable_of_iff _ (TypeExpr.agrees_iff left right)

instance : DecidableEq VariantDecl := fun left right =>
  decidable_of_iff _ (VariantDecl.agrees_iff left right)

deriving instance DecidableEq for Decl

end StateModel
