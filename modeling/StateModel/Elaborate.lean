import StateModel.Scope
import StateModel.Syntax
import StateModel.Ty.Text

/-!
From type expressions to types. Names mean what the scope binds them to at that
moment, every other node builds a type of its own, parts before wholes, and each
either binds its constants as soon as it is built.
-/
namespace StateModel

namespace Scope

def requireConstantOrFree (scope : Scope) (name : String) : Build Unit := do
  match scope.localValue? (← get) name with
  | none | some (.tag _) => return
  | some _ => Build.fail (.duplicateDeclaration name)

def bindConstant (scope : Scope) (tag : Tag) : Build Unit := do
  scope.bindVar tag.name (← Store.newCell (.tag tag))

/-- All names are looked at before the first of them is bound. -/
def bindConstants (scope : Scope) (type : EitherType) : Build Unit := do
  type.constants.forM fun tag => scope.requireConstantOrFree tag.name
  type.constants.forM scope.bindConstant

theorem run_requireConstantOrFree (scope : Scope) (name : String) (store : Store) :
    Build.run (scope.requireConstantOrFree name) store =
      match scope.localValue? store name with
      | none | some (.tag _) => (.ok (), store)
      | some _ => (.error { problem := .duplicateDeclaration name }, store) := by
  simp only [requireConstantOrFree, Build.run_bind, Build.run_get]
  split <;> rfl

theorem run_bindConstant (scope : Scope) (tag : Tag) (store : Store) :
    Build.run (scope.bindConstant tag) store =
      Build.run (scope.bindVar tag.name store.cells.size)
        { store with cells := store.cells.push (.tag tag) } := by
  simp only [bindConstant, Build.run_bind, Store.run_newCell]

end Scope

structure Alternative where
  name : String
  payload : Option RecordType

def Alternative.place (alternative : Alternative) (parent : TypeId) (index : Nat) : Variant :=
  ⟨alternative.name, index, parent, alternative.payload⟩

def EitherType.ofAlternatives (header : Header) (first : Alternative) (rest : List Alternative) :
    EitherType where
  header := header
  first := first.place header.id 0
  rest := rest.mapIdx fun index alternative => alternative.place header.id (index + 1)

def TypeExpr.requireArray (base : String) : Build Unit :=
  if base = TypeExpr.arrayBase then return else Build.fail (.unknownType base)

/-- An array type once its parts are known. Problems with the index are found
where the index stands. -/
def Ty.arrayOf (header : Build Header) (element index : Ty) (place : Span) : Build Ty :=
  match index with
  | .range domain =>
      let length := domain.interval.length
      if small : length ≤ maxArrayLength then
        return .array ⟨← header, element, domain, small⟩
      else
        Build.locate place (Build.fail (.arrayTooLarge domain.text length maxArrayLength))
  | other => Build.locate place (Build.fail (.invalidIndexType other.text))

mutual

/-- The name is for rendering, and an alias has no use for it: the type that it
means keeps its own. -/
def TypeExpr.elaborate (scope : Scope) (name : Option String) : TypeExpr → Build Ty
  | .alias target span => Build.locate span (scope.resolveType target)
  | .range low high span => Build.locate span do
      if ordered : low ≤ high then
        return .range ⟨← Store.newHeader name span, ⟨low, high, ordered⟩⟩
      else
        Build.fail (.invalidRange low high)
  | .record fields span => Build.locate span do
      let (fields, layout) ←
        FieldDecl.elaborateList scope (name.getD "record") Layout.empty fields
      return .record ⟨← Store.newHeader name span, fields, layout⟩
  | .either [] span => Build.locate span (Build.fail (.emptyEither (name.getD "either")))
  | .either (first :: rest) span => Build.locate span do
      let owner := name.getD "either"
      let firstAlternative ← first.elaborate scope owner []
      let alternatives ← VariantDecl.elaborateList scope owner [firstAlternative.name] rest
      let type := EitherType.ofAlternatives (← Store.newHeader name span)
        firstAlternative alternatives
      scope.bindConstants type
      return .either type
  | .generic base [element] (some index) span => Build.locate span do
      TypeExpr.requireArray base
      let elementType ← element.elaborate scope none
      let indexType ← index.elaborate scope none
      Ty.arrayOf (Store.newHeader name span) elementType indexType index.span
  | .generic base [_] none span => Build.locate span do
      TypeExpr.requireArray base
      Build.fail (.genericArity base "an index type" "none")
  | .generic base arguments _ span => Build.locate span do
      TypeExpr.requireArray base
      Build.fail (.genericArity base "one type argument" arguments.length.repr)
  | .unknown kind span => Build.locate span (Build.fail (.unknownDeclarationKind kind))
  termination_by structural expression => expression

/-- A name used twice is reported before its second type is looked at. -/
def FieldDecl.elaborate (scope : Scope) (owner : String) (layout : Layout) :
    FieldDecl → Build Field
  | ⟨name, type, span⟩ => Build.locate span do
      if layout.contains name then
        Build.fail (.duplicateField name owner)
      return ⟨name, ← type.elaborate scope none⟩
  termination_by structural field => field

def FieldDecl.elaborateList (scope : Scope) (owner : String) (layout : Layout) :
    List FieldDecl → Build (List Field × Layout)
  | [] => return ([], layout)
  | field :: rest => do
      let elaborated ← field.elaborate scope owner layout
      let (others, filled) ←
        FieldDecl.elaborateList scope owner (layout.enter elaborated.name) rest
      return (elaborated :: others, filled)
  termination_by structural fields => fields

/-- The place of a variant is given to its own name only: inside the payload, a
field without a place takes that of the whole either. -/
def VariantDecl.elaborate (scope : Scope) (owner : String) (seen : List String) :
    VariantDecl → Build Alternative
  | ⟨name, none, span⟩ => do
      if name ∈ seen then
        Build.locate span (Build.fail (.duplicateVariant name owner))
      return ⟨name, none⟩
  | ⟨name, some fields, span⟩ => do
      if name ∈ seen then
        Build.locate span (Build.fail (.duplicateVariant name owner))
      let (fields, layout) ← FieldDecl.elaborateList scope name Layout.empty fields
      return ⟨name, some ⟨← Store.newHeader (some name) span, fields, layout⟩⟩
  termination_by structural variant => variant

def VariantDecl.elaborateList (scope : Scope) (owner : String) (seen : List String) :
    List VariantDecl → Build (List Alternative)
  | [] => return []
  | variant :: rest => do
      let alternative ← variant.elaborate scope owner seen
      let others ← VariantDecl.elaborateList scope owner (alternative.name :: seen) rest
      return alternative :: others
  termination_by structural variants => variants

end

end StateModel
