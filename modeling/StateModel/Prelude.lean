import StateModel.Load

/-!
The prelude: the scope that modules are loaded inside. It declares the truth
values as an either type like any other.
-/
namespace StateModel

namespace Prelude

def declarations : List Decl :=
  [.type "Boolean" (.either [⟨"False", none, .dummy⟩, ⟨"True", none, .dummy⟩])]

def build : Build Scope := return (← loadModule declarations none).scope

end Prelude

end StateModel
