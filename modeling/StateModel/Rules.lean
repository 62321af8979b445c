import StateModel.Syntax

/-!
Where the rules of a module go. The loader hands each rule on unread; a buffer
keeps them in the order in which they came.
-/
namespace StateModel

class RuleSink (σ : Type) where
  accept : σ → Rule → σ

/-- Rules that nobody asked for are dropped. -/
instance : RuleSink Unit := ⟨fun _ _ => ()⟩

namespace RuleSink

variable {σ : Type} [RuleSink σ]

def acceptAll (sink : σ) (rules : List Rule) : σ := rules.foldl accept sink

theorem acceptAll_append (sink : σ) (first rest : List Rule) :
    acceptAll sink (first ++ rest) = acceptAll (acceptAll sink first) rest :=
  List.foldl_append

end RuleSink

structure RuleBuffer where
  rules : List Rule := []

namespace RuleBuffer

instance : RuleSink RuleBuffer := ⟨fun buffer rule => ⟨buffer.rules ++ [rule]⟩⟩

@[simp] theorem rules_accept (buffer : RuleBuffer) (rule : Rule) :
    (RuleSink.accept buffer rule).rules = buffer.rules ++ [rule] := rfl

theorem acceptAll (buffer : RuleBuffer) (rules : List Rule) :
    RuleSink.acceptAll buffer rules = ⟨buffer.rules ++ rules⟩ := by
  induction rules generalizing buffer with
  | nil => exact congrArg mk buffer.rules.append_nil.symm
  | cons rule rest ih =>
      change RuleSink.acceptAll (RuleSink.accept buffer rule) rest = _
      rw [ih, rules_accept, List.append_assoc, List.singleton_append]

def names (buffer : RuleBuffer) : List String := buffer.rules.map Rule.name

def length (buffer : RuleBuffer) : Nat := buffer.rules.length

def isEmpty (buffer : RuleBuffer) : Bool := buffer.rules.isEmpty

def last? (buffer : RuleBuffer) : Option Rule := buffer.rules.getLast?

end RuleBuffer

end StateModel
