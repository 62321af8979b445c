import StateModel.Scope
import StateModel.Value.Path

/-!
Changing variables in place. A change happens at the end of a path into the
value of a cell, as a whole or not at all, and every name that is bound to the
cell sees it.
-/
namespace StateModel

def Store.updateCell (id : CellId) (path : Path) (change : Value → Except Problem Value) :
    Build Unit := do
  match (← get).cell? id with
  | some value => Store.setCell id (← Build.ofExcept (value.update change path))
  | none => return

def Scope.updateVar (scope : Scope) (name : String) (path : Path)
    (change : Value → Except Problem Value) : Build Unit := do
  Store.updateCell (← scope.resolveVar name) path change

end StateModel
