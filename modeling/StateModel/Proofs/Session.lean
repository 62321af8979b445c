import StateModel.Load
import StateModel.Proofs.Mutation

/-!
Sessions: everything that a client can do, one operation after the other. A
client holds scopes, types and values that it came by, and writes to its values
and to the cells of variables. All of its scopes share one store, so a type made
in one of them can meet a value from any other.
-/
namespace StateModel

structure Session where
  store : Store := {}
  scopes : List Scope := []
  types : List Ty := []
  values : List Value := []

namespace Session

/-- A value that can be read and written: one of the client's own, or the
content of a cell, which all scopes that bind the cell share. -/
inductive Root where
  | slot (place : Nat)
  | cell (id : CellId)
  deriving DecidableEq

/-- Numbers stand for places among the scopes, types and values of the client. -/
inductive Op where
  | newScope
  | childScope (scope : Nat)
  | setPolicy (scope : Nat) (policy : Redefinition)
  | makeType (scope : Nat) (name : Option String) (expression : TypeExpr)
  | load (scope : Nat) (decls : List Decl)
  | bindType (scope : Nat) (name : String) (type : Nat)
  | bindVar (scope : Nat) (name : String) (cell : CellId)
  | newCell (value : Nat)
  | findType (scope : Nat) (name : String)
  | partOfType (type : Nat) (part : Nat)
  | typeOfValue (value : Nat)
  | default (type : Nat)
  | tag (type : Nat) (index : Nat)
  | copy (root : Root) (path : Path)
  | payload (value : Nat)
  | write (root : Root) (path : List Access) (write : Write Nat)

variable (session : Session)

def addScope (scope : Scope) : Session := { session with scopes := session.scopes ++ [scope] }

def addType (type : Ty) : Session := { session with types := session.types ++ [type] }

def addValue (value : Value) : Session := { session with values := session.values ++ [value] }

/-- Work that fails leaves what it did to the store, and nothing to hold. -/
def after {α : Type} (work : Build α) (hold : Session → α → Session) : Session :=
  match Build.run work session.store with
  | (.ok result, store) => hold { session with store } result
  | (.error _, store) => { session with store }

def find? : Root → Option Value
  | .slot place => session.values[place]?
  | .cell id => session.store.cell? id

def replace : Root → Value → Session
  | .slot place, value => { session with values := session.values.set place value }
  | .cell id, value =>
      { session with store.cells := session.store.cells.setIfInBounds id value }

def writeAt (root : Root) (target : Value) (path : List Access) (write : Write Value) : Session :=
  match target.write write path with
  | .ok value => session.replace root value
  | .error _ => session

def perform? : Op → Option Session
  | .newScope => some (session.after Scope.root addScope)
  | .childScope scope => do
      return session.after (← session.scopes[scope]?).child addScope
  | .setPolicy scope policy => do
      return session.addScope ((← session.scopes[scope]?).withPolicy policy)
  | .makeType scope name expression => do
      return session.after (expression.elaborate (← session.scopes[scope]?) name) addType
  | .load scope decls => do
      return { session with
        store := (StateModel.load (← session.scopes[scope]?) decls () session.store).store }
  | .bindType scope name type => do
      let scope ← session.scopes[scope]?
      return session.after (scope.bindType name (← session.types[type]?)) fun session _ => session
  | .bindVar scope name cell => do
      let scope ← session.scopes[scope]?
      let _ ← session.store.cell? cell
      return session.after (scope.bindVar name cell) fun session _ => session
  | .newCell value => do
      return session.after (Store.newCell (← session.values[value]?)) fun session _ => session
  | .findType scope name => do
      return session.addType (← (← session.scopes[scope]?).type? session.store name)
  | .partOfType type part => do
      return session.addType (← (← session.types[type]?).parts[part]?)
  | .typeOfValue value => do
      return session.addType (← session.values[value]?).type
  | .default type => do
      return session.addValue (← session.types[type]?).default
  | .tag type index =>
      match session.types[type]? with
      | some (.either type) => do return session.addValue (.tag (← type.tag? index))
      | _ => none
  | .copy root path => do
      match (← session.find? root).get path with
      | .ok value => return session.addValue value
      | .error _ => none
  | .payload value =>
      match session.values[value]? with
      | some (.either value) => do return session.addValue (.record (← value.payload))
      | _ => none
  | .write root path write => do
      let write ← write.mapM fun source => session.values[source]?
      return session.writeAt root (← session.find? root) path write

def perform (op : Op) : Session := (session.perform? op).getD session

end Session

end StateModel
