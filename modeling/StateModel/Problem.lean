import StateModel.Span

/-!
What can go wrong, as causes, and where it went wrong. A cause holds the names
and numbers of its message; the message and the code are functions of it. A
failure keeps the first place that is attached to it.
-/
namespace StateModel

inductive Problem where
  | unknownType (name : String)
  | unknownVariable (name : String)
  | duplicateDeclaration (name : String)
  | invalidRange (low high : Int64)
  | duplicateField (field record : String)
  | duplicateVariant (variant either : String)
  | invalidIndexType (found : String)
  | genericArity (base expected found : String)
  | emptyEither (either : String)
  | arrayTooLarge (index : String) (count limit : UInt64)
  | outOfRange (value low high : Int64) (type : String)
  | typeMismatch (expected found : String)
  | unknownField (field type : String)
  | indexOutOfRange (index low high : Int64) (type : String)
  | unknownDeclarationKind (kind : String)
  | missingDefault (name : String)
  deriving DecidableEq

namespace Problem

/-- Codes are grouped by hundreds: scopes, types, values, declarations. -/
def code : Problem → String
  | .unknownType .. => "E6001"
  | .unknownVariable .. => "E6002"
  | .duplicateDeclaration .. => "E6003"
  | .invalidRange .. => "E6101"
  | .duplicateField .. => "E6102"
  | .duplicateVariant .. => "E6103"
  | .invalidIndexType .. => "E6104"
  | .genericArity .. => "E6105"
  | .emptyEither .. => "E6106"
  | .arrayTooLarge .. => "E6107"
  | .outOfRange .. => "E6201"
  | .typeMismatch .. => "E6202"
  | .unknownField .. => "E6203"
  | .indexOutOfRange .. => "E6204"
  | .unknownDeclarationKind .. => "E6301"
  | .missingDefault .. => "E6302"

private def quoted (name : String) : String := "`" ++ name ++ "`"

private def bounds (low high : Int64) : String := low.toInt.repr ++ ".." ++ high.toInt.repr

def message : Problem → String
  | .unknownType name => "unknown type " ++ quoted name
  | .unknownVariable name => "unknown variable " ++ quoted name
  | .duplicateDeclaration name => quoted name ++ " is already declared in this scope"
  | .invalidRange low high =>
      "invalid range " ++ bounds low high ++ ": low bound exceeds high bound"
  | .duplicateField field record => "duplicate field " ++ quoted field ++ " in " ++ record
  | .duplicateVariant variant either => "duplicate variant " ++ quoted variant ++ " in " ++ either
  | .invalidIndexType found => "array index type must be a range type, found " ++ found
  | .genericArity base expected found => base ++ " expects " ++ expected ++ ", found " ++ found
  | .emptyEither either => either ++ " declares no variants"
  | .arrayTooLarge index count limit =>
      "array index type " ++ index ++ " spans " ++ count.toNat.repr ++
        " slots, more than the limit of " ++ limit.toNat.repr
  | .outOfRange value low high type =>
      "value " ++ value.toInt.repr ++ " is out of range for " ++ type ++
        " (" ++ bounds low high ++ ")"
  | .typeMismatch expected found => "type mismatch: expected " ++ expected ++ ", found " ++ found
  | .unknownField field type => "no field " ++ quoted field ++ " on " ++ type
  | .indexOutOfRange index low high type =>
      "index " ++ index.toInt.repr ++ " is out of range for " ++ type ++
        " (" ++ bounds low high ++ ")"
  | .unknownDeclarationKind kind => "unknown declaration kind " ++ quoted kind
  | .missingDefault name => "param " ++ quoted name ++ " requires a default value"

end Problem

structure Failure where
  problem : Problem
  span : Option Span := none
  deriving DecidableEq

namespace Failure

/-- Attaching a place changes nothing once there is one, and the dummy span is
no place: what attaches first from the inside wins. -/
def located (span : Span) (failure : Failure) : Failure :=
  match failure.span with
  | some _ => failure
  | none => if span.isDummy then failure else { failure with span := some span }

@[simp] theorem located_problem (span : Span) (failure : Failure) :
    (failure.located span).problem = failure.problem := by
  unfold located
  split
  · rfl
  · split <;> rfl

@[simp] theorem located_dummy (failure : Failure) : failure.located .dummy = failure := by
  unfold located
  split <;> simp

def message (failure : Failure) : String :=
  "error[" ++ failure.problem.code ++ "]: " ++ failure.problem.message ++
    match failure.span with
    | some span => " at " ++ span.text
    | none => ""

end Failure

end StateModel
