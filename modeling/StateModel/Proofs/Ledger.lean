import StateModel.Scope

/-!
Scopes that share frames, beside a ledger of what was bound in them. The ledger
keeps every binding that succeeded together with its frame, and a name means the
last of them in the innermost frame that has one. However a client makes handles
and binds names through them, its scopes answer as the ledger does.
-/
namespace StateModel

structure Entry (α : Type) where
  frame : FrameId
  name : String
  target : α

/-- The bindings of one sort of name, in the order in which they were made. -/
abbrev History (α : Type) := List (Entry α)

namespace History

variable {α : Type}

def inFrame (history : History α) (frame : FrameId) : History α :=
  history.filter (·.frame == frame)

def last? (history : History α) (frame : FrameId) (name : String) : Option α :=
  ((history.inFrame frame).filter (·.name == name)).getLast?.map (·.target)

def names (history : History α) (frame : FrameId) : List String :=
  ((history.inFrame frame).map (·.name)).eraseDups

structure Records (history : History α) (frame : FrameId) (bindings : Bindings α) : Prop where
  found : ∀ name, bindings.find? name = history.last? frame name
  listed : bindings.names = history.names frame

variable {history : History α} {frame : FrameId} {bindings : Bindings α}

theorem inFrame_append_self (history : History α) (frame : FrameId) (name : String) (target : α) :
    inFrame (history ++ [⟨frame, name, target⟩]) frame =
      history.inFrame frame ++ [⟨frame, name, target⟩] := by
  simp [inFrame]

theorem inFrame_append_of_ne {other : FrameId} (different : other ≠ frame) (name : String)
    (target : α) :
    inFrame (history ++ [⟨other, name, target⟩]) frame = history.inFrame frame := by
  simp [inFrame, different]

theorem Records.contains (records : history.Records frame bindings) (name : String) :
    bindings.contains name = (history.last? frame name).isSome := by
  rw [Bindings.contains, records.found]

theorem eraseDups_append_singleton (list : List String) (name : String) :
    (list ++ [name]).eraseDups =
      if name ∈ list then list.eraseDups else list.eraseDups ++ [name] := by
  rw [List.eraseDups_append]
  by_cases present : name ∈ list
  · simp [List.removeAll, List.filter, present]
  · simp [List.removeAll, List.filter, present, List.eraseDups_cons]

theorem Records.bind (records : history.Records frame bindings) (name : String) (target : α) :
    Records (history ++ [⟨frame, name, target⟩]) frame (bindings.put name target) where
  found := by
    intro other
    rw [last?, inFrame_append_self, List.filter_append, List.getLast?_append]
    by_cases same : other = name
    · subst same
      simp
    · rw [Bindings.find?_put_of_ne _ _ same, records.found]
      simp [last?, Ne.symm same]
  listed := by
    rw [Bindings.names_put, records.listed, names, names, inFrame_append_self, List.map_append,
      List.map_singleton, eraseDups_append_singleton]
    simp only [List.mem_eraseDups]

theorem Records.elsewhere (records : history.Records frame bindings) {other : FrameId}
    (different : other ≠ frame) (name : String) (target : α) :
    Records (history ++ [⟨other, name, target⟩]) frame bindings where
  found := by
    intro asked
    rw [last?, inFrame_append_of_ne different]
    exact records.found asked
  listed := by
    rw [names, inFrame_append_of_ne different]
    exact records.listed

end History

/-- What a client does with scopes. A handle is meant by its place, in the order
in which the client came by them, and one that is copied stays where it was. -/
inductive ScopeOp where
  | root
  | child (origin : Nat)
  | clone (origin : Nat)
  | setPolicy (origin : Nat) (policy : Redefinition)
  | bindType (place : Nat) (name : String) (type : Ty)
  | bindVar (place : Nat) (name : String) (cell : CellId)

structure Handles where
  store : Store := {}
  scopes : List Scope := []

namespace Handles

def holding (handles : Handles) (scope : Scope) : Handles :=
  { handles with scopes := handles.scopes ++ [scope] }

def opening (handles : Handles) (work : Build Scope) : Except Failure Unit × Handles :=
  match Build.run work handles.store with
  | (.ok scope, store) => (.ok (), { handles with store }.holding scope)
  | (.error failure, store) => (.error failure, { handles with store })

def binding (handles : Handles) (work : Build Unit) : Except Failure Unit × Handles :=
  ((Build.run work handles.store).1, { handles with store := (Build.run work handles.store).2 })

def perform? (handles : Handles) : ScopeOp → Option (Except Failure Unit × Handles)
  | .root => some (handles.opening Scope.root)
  | .child origin => do return handles.opening (← handles.scopes[origin]?).child
  | .clone origin => do return (.ok (), handles.holding (← handles.scopes[origin]?))
  | .setPolicy origin policy => do
      return (.ok (), handles.holding ((← handles.scopes[origin]?).withPolicy policy))
  | .bindType place name type => do
      return handles.binding ((← handles.scopes[place]?).bindType name type)
  | .bindVar place name cell => do
      return handles.binding ((← handles.scopes[place]?).bindVar name cell)

def perform (handles : Handles) (op : ScopeOp) : Handles :=
  ((handles.perform? op).map (·.2)).getD handles

def run (ops : List ScopeOp) : Handles := ops.foldl perform {}

end Handles

/-- The law of scopes: how many frames were opened, which of them each handle has
in its chain, and what was bound. -/
structure Ledger where
  opened : Nat := 0
  scopes : List Scope := []
  types : History Ty := []
  vars : History CellId := []

namespace Ledger

def holding (ledger : Ledger) (scope : Scope) : Ledger :=
  { ledger with scopes := ledger.scopes ++ [scope] }

def opening (ledger : Ledger) (chain : List FrameId) (policy : Redefinition) : Ledger :=
  { ledger with opened := ledger.opened + 1 }.holding ⟨ledger.opened, chain, policy⟩

def Refuses {α : Type} (history : History α) (scope : Scope) (name : String) : Prop :=
  scope.policy = .reject ∧ (history.last? scope.frame name).isSome = true

instance {α : Type} (history : History α) (scope : Scope) (name : String) :
    Decidable (Refuses history scope name) := inferInstanceAs (Decidable (_ ∧ _))

def bindType (ledger : Ledger) (scope : Scope) (name : String) (type : Ty) :
    Except Failure Unit × Ledger :=
  if Refuses ledger.types scope name then
    (.error { problem := .duplicateDeclaration name }, ledger)
  else
    (.ok (), { ledger with types := ledger.types ++ [⟨scope.frame, name, type⟩] })

def bindVar (ledger : Ledger) (scope : Scope) (name : String) (cell : CellId) :
    Except Failure Unit × Ledger :=
  if Refuses ledger.vars scope name then
    (.error { problem := .duplicateDeclaration name }, ledger)
  else
    (.ok (), { ledger with vars := ledger.vars ++ [⟨scope.frame, name, cell⟩] })

def perform? (ledger : Ledger) : ScopeOp → Option (Except Failure Unit × Ledger)
  | .root => some (.ok (), ledger.opening [] .overwrite)
  | .child origin => do
      let scope ← ledger.scopes[origin]?
      return (.ok (), ledger.opening scope.frames scope.policy)
  | .clone origin => do return (.ok (), ledger.holding (← ledger.scopes[origin]?))
  | .setPolicy origin policy => do
      return (.ok (), ledger.holding { ← ledger.scopes[origin]? with policy })
  | .bindType place name type => do return ledger.bindType (← ledger.scopes[place]?) name type
  | .bindVar place name cell => do return ledger.bindVar (← ledger.scopes[place]?) name cell

def perform (ledger : Ledger) (op : ScopeOp) : Ledger :=
  ((ledger.perform? op).map (·.2)).getD ledger

def run (ops : List ScopeOp) : Ledger := ops.foldl perform {}

/-- The store has the frames that were opened, with what was bound in them, and the
chains of the handles go through these frames only. -/
structure Describes (ledger : Ledger) (handles : Handles) : Prop where
  opened : handles.store.frames.size = ledger.opened
  scopes : handles.scopes = ledger.scopes
  types : ∀ frame, ledger.types.Records frame (handles.store.frame frame).types
  vars : ∀ frame, ledger.vars.Records frame (handles.store.frame frame).vars
  made : ∀ scope ∈ handles.scopes, ∀ frame ∈ scope.frames, frame < handles.store.frames.size

variable {ledger : Ledger} {handles : Handles}

theorem Describes.holding (describes : ledger.Describes handles) {scope : Scope}
    (made : ∀ frame ∈ scope.frames, frame < handles.store.frames.size) :
    (ledger.holding scope).Describes (handles.holding scope) where
  opened := describes.opened
  scopes := congrArg (· ++ [scope]) describes.scopes
  types := describes.types
  vars := describes.vars
  made := by
    intro other hother
    rcases List.mem_append.1 hother with old | new
    · exact describes.made other old
    · rw [List.mem_singleton.1 new]
      exact made

theorem Describes.newFrame (describes : ledger.Describes handles) :
    Describes { ledger with opened := ledger.opened + 1 }
      { handles with store.frames := handles.store.frames.push {} } where
  opened := by simp [describes.opened]
  scopes := describes.scopes
  types := by simpa using describes.types
  vars := by simpa using describes.vars
  made := by
    intro scope hscope frame hframe
    rw [Array.size_push]
    exact Nat.lt_succ_of_lt (describes.made scope hscope frame hframe)

theorem Describes.opening (describes : ledger.Describes handles) {chain : List FrameId}
    (made : ∀ frame ∈ chain, frame < handles.store.frames.size) (policy : Redefinition) :
    (ledger.opening chain policy).Describes
      (Handles.holding { handles with store.frames := handles.store.frames.push {} }
        ⟨handles.store.frames.size, chain, policy⟩) := by
  have hframes : ∀ frame ∈ handles.store.frames.size :: chain,
      frame < (handles.store.frames.push {}).size := by
    intro frame hframe
    rw [Array.size_push]
    rcases List.mem_cons.1 hframe with rfl | old
    · exact Nat.lt_succ_self _
    · exact Nat.lt_succ_of_lt (made frame old)
  have hscope : (⟨ledger.opened, chain, policy⟩ : Scope) =
      ⟨handles.store.frames.size, chain, policy⟩ := by rw [describes.opened]
  rw [Ledger.opening, hscope]
  exact describes.newFrame.holding hframes

theorem Describes.setFrame (describes : ledger.Describes handles) {id : FrameId} {frame : Frame}
    (made : id < handles.store.frames.size) {types : History Ty} {vars : History CellId}
    (typesHere : types.Records id frame.types) (varsHere : vars.Records id frame.vars)
    (typesElsewhere : ∀ other ≠ id, types.Records other (handles.store.frame other).types)
    (varsElsewhere : ∀ other ≠ id, vars.Records other (handles.store.frame other).vars) :
    Describes { ledger with types, vars }
      { handles with store := handles.store.setFrame id frame } where
  opened := by simpa [Store.setFrame] using describes.opened
  scopes := describes.scopes
  types := by
    intro other
    by_cases same : other = id
    · rw [same, Store.frame_setFrame_self made]
      exact typesHere
    · rw [Store.frame_setFrame_of_ne same]
      exact typesElsewhere other same
  vars := by
    intro other
    by_cases same : other = id
    · rw [same, Store.frame_setFrame_self made]
      exact varsHere
    · rw [Store.frame_setFrame_of_ne same]
      exact varsElsewhere other same
  made := by simpa [Store.setFrame] using describes.made

theorem Describes.scope_made (describes : ledger.Describes handles) {place : Nat} {scope : Scope}
    (found : ledger.scopes[place]? = some scope) :
    ∀ frame ∈ scope.frames, frame < handles.store.frames.size := by
  rw [← describes.scopes] at found
  exact describes.made scope (List.mem_of_getElem? found)

def Alike (handled : Except Failure Unit × Handles) (ruled : Except Failure Unit × Ledger) : Prop :=
  handled.1 = ruled.1 ∧ ruled.2.Describes handled.2

theorem Describes.bindType (describes : ledger.Describes handles) {scope : Scope}
    (made : scope.frame < handles.store.frames.size) (name : String) (type : Ty) :
    Alike (handles.binding (scope.bindType name type)) (ledger.bindType scope name type) := by
  have hrun := scope.run_bindType name type handles.store
  simp only [(describes.types scope.frame).contains name] at hrun
  rw [Handles.binding, hrun, Ledger.bindType]
  by_cases refused : Refuses ledger.types scope name
  · rw [if_pos refused, if_pos (show _ ∧ _ from refused)]
    exact ⟨rfl, describes⟩
  · rw [if_neg refused, if_neg (show ¬(_ ∧ _) from refused)]
    exact ⟨rfl, describes.setFrame made ((describes.types scope.frame).bind name type)
      (describes.vars scope.frame)
      (fun other different => (describes.types other).elsewhere (Ne.symm different) name type)
      fun other _ => describes.vars other⟩

theorem Describes.bindVar (describes : ledger.Describes handles) {scope : Scope}
    (made : scope.frame < handles.store.frames.size) (name : String) (cell : CellId) :
    Alike (handles.binding (scope.bindVar name cell)) (ledger.bindVar scope name cell) := by
  have hrun := scope.run_bindVar name cell handles.store
  simp only [(describes.vars scope.frame).contains name] at hrun
  rw [Handles.binding, hrun, Ledger.bindVar]
  by_cases refused : Refuses ledger.vars scope name
  · rw [if_pos refused, if_pos (show _ ∧ _ from refused)]
    exact ⟨rfl, describes⟩
  · rw [if_neg refused, if_neg (show ¬(_ ∧ _) from refused)]
    exact ⟨rfl, describes.setFrame made (describes.types scope.frame)
      ((describes.vars scope.frame).bind name cell) (fun other _ => describes.types other)
      fun other different => (describes.vars other).elsewhere (Ne.symm different) name cell⟩

/-- Every operation can be performed in both or in neither, with one outcome. -/
theorem Describes.perform? (describes : ledger.Describes handles) (op : ScopeOp) :
    Option.Rel Alike (handles.perform? op) (ledger.perform? op) := by
  cases op with
  | root => exact .some ⟨rfl, describes.opening (by simp) .overwrite⟩
  | child origin =>
      rw [Handles.perform?, Ledger.perform?, describes.scopes]
      cases found : ledger.scopes[origin]? with
      | none => exact .none
      | some scope => exact .some ⟨rfl, describes.opening (describes.scope_made found) scope.policy⟩
  | clone origin =>
      rw [Handles.perform?, Ledger.perform?, describes.scopes]
      cases found : ledger.scopes[origin]? with
      | none => exact .none
      | some scope => exact .some ⟨rfl, describes.holding (describes.scope_made found)⟩
  | setPolicy origin policy =>
      rw [Handles.perform?, Ledger.perform?, describes.scopes]
      cases found : ledger.scopes[origin]? with
      | none => exact .none
      | some scope =>
          have hmade : ∀ frame ∈ (scope.withPolicy policy).frames,
              frame < handles.store.frames.size :=
            fun frame hframe => describes.scope_made found frame hframe
          exact .some ⟨rfl, describes.holding hmade⟩
  | bindType place name type =>
      rw [Handles.perform?, Ledger.perform?, describes.scopes]
      cases found : ledger.scopes[place]? with
      | none => exact .none
      | some scope =>
          exact .some (describes.bindType
            (describes.scope_made found scope.frame List.mem_cons_self) name type)
  | bindVar place name cell =>
      rw [Handles.perform?, Ledger.perform?, describes.scopes]
      cases found : ledger.scopes[place]? with
      | none => exact .none
      | some scope =>
          exact .some (describes.bindVar
            (describes.scope_made found scope.frame List.mem_cons_self) name cell)

theorem Describes.perform (describes : ledger.Describes handles) (op : ScopeOp) :
    (ledger.perform op).Describes (handles.perform op) := by
  have hstep := describes.perform? op
  unfold Handles.perform Ledger.perform
  generalize handles.perform? op = handled at hstep ⊢
  generalize ledger.perform? op = ruled at hstep ⊢
  cases hstep with
  | none => exact describes
  | some alike => exact alike.2

theorem Describes.runFrom (describes : ledger.Describes handles) (ops : List ScopeOp) :
    (ops.foldl Ledger.perform ledger).Describes (ops.foldl Handles.perform handles) := by
  induction ops generalizing ledger handles with
  | nil => exact describes
  | cons op rest ih => exact ih (describes.perform op)

end Ledger

namespace Ledger

variable {ledger : Ledger}

def Grows (ledger later : Ledger) : Prop :=
  ledger.scopes <+: later.scopes ∧ ledger.opened ≤ later.opened

end Ledger

/-! What a binding leaves alone. -/

namespace Handles

variable {handles : Handles}

theorem run_append (ops more : List ScopeOp) : run (ops ++ more) = more.foldl perform (run ops) :=
  List.foldl_append

end Handles

end StateModel
