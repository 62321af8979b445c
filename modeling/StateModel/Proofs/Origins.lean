import StateModel.Proofs.Elaborated

/-!
Where the types in an elaborated type come from. Every node of the expression
stands for one object: what the scope has under a name, or an object of its own
with a number that was never given out before. A name that means nothing is
reported as unknown, unless something else is wrong before it is looked at.
-/
namespace StateModel

inductive Origin where
  | built
  | alias (name : String)

mutual

/-- The nodes of the expression, parts before wholes. A variant with fields has a
node of its own, for its record. -/
def TypeExpr.nodes : TypeExpr → List Origin
  | .alias target _ => [.alias target]
  | .range .. | .unknown .. => [.built]
  | .record fields _ => FieldDecl.nodesList fields ++ [.built]
  | .either variants _ => VariantDecl.nodesList variants ++ [.built]
  | .generic _ arguments none _ => TypeExpr.nodesList arguments ++ [.built]
  | .generic _ arguments (some index) _ =>
      TypeExpr.nodesList arguments ++ index.nodes ++ [.built]
  termination_by structural expression => expression

def TypeExpr.nodesList : List TypeExpr → List Origin
  | [] => []
  | expression :: rest => expression.nodes ++ TypeExpr.nodesList rest
  termination_by structural expressions => expressions

def FieldDecl.nodes : FieldDecl → List Origin
  | ⟨_, type, _⟩ => type.nodes
  termination_by structural field => field

def FieldDecl.nodesList : List FieldDecl → List Origin
  | [] => []
  | field :: rest => field.nodes ++ FieldDecl.nodesList rest
  termination_by structural fields => fields

def VariantDecl.nodes : VariantDecl → List Origin
  | ⟨_, none, _⟩ => []
  | ⟨_, some fields, _⟩ => FieldDecl.nodesList fields ++ [.built]
  termination_by structural variant => variant

def VariantDecl.nodesList : List VariantDecl → List Origin
  | [] => []
  | variant :: rest => variant.nodes ++ VariantDecl.nodesList rest
  termination_by structural variants => variants

end

abbrev Origins := List (Origin × Ty)

mutual

def TypeExpr.objects : TypeExpr → Ty → Origins
  | .alias target _, type => [(.alias target, type)]
  | .range .., type => [(.built, type)]
  | .record fields _, .record type =>
      FieldDecl.objectsList fields (type.fields.map (·.type)) ++ [(.built, .record type)]
  | .either variants _, .either type =>
      VariantDecl.objectsList variants (type.variants.map (·.payload)) ++ [(.built, .either type)]
  | .generic _ [element] (some index) _, .array type =>
      element.objects type.element ++ index.objects (.range type.index) ++ [(.built, .array type)]
  | _, _ => []
  termination_by structural expression => expression

def FieldDecl.objects : FieldDecl → Ty → Origins
  | ⟨_, expression, _⟩, type => expression.objects type
  termination_by structural field => field

def FieldDecl.objectsList : List FieldDecl → List Ty → Origins
  | field :: fields, type :: types => field.objects type ++ FieldDecl.objectsList fields types
  | _, _ => []
  termination_by structural fields => fields

def VariantDecl.objects : VariantDecl → Option RecordType → Origins
  | ⟨_, some fields, _⟩, some payload =>
      FieldDecl.objectsList fields (payload.fields.map (·.type)) ++ [(.built, .record payload)]
  | _, _ => []
  termination_by structural variant => variant

def VariantDecl.objectsList : List VariantDecl → List (Option RecordType) → Origins
  | variant :: variants, payload :: payloads =>
      variant.objects payload ++ VariantDecl.objectsList variants payloads
  | _, _ => []
  termination_by structural variants => variants

end

namespace Origins

def builtObject? : Origin × Ty → Option Ty
  | (.built, object) => some object
  | (.alias _, _) => none

def built (origins : Origins) : List Ty := origins.filterMap builtObject?

@[simp] theorem built_append (first rest : Origins) :
    built (first ++ rest) = built first ++ built rest := List.filterMap_append

theorem mem_built {origins : Origins} {object : Ty} :
    object ∈ built origins ↔ (.built, object) ∈ origins := by
  rw [built, List.mem_filterMap]
  constructor
  · rintro ⟨⟨_ | name, other⟩, hmem, hobject⟩
    · rw [← Option.some.inj hobject]
      exact hmem
    · simp [builtObject?] at hobject
  · exact fun hmem => ⟨_, hmem, rfl⟩

end Origins

namespace Store

theorem project_setFrame {α : Type} (project : Frame → α) {store : Store} {id : FrameId}
    {frame : Frame} (shared : project frame = project (store.frame id)) (other : FrameId) :
    project ((store.setFrame id frame).frame other) = project (store.frame other) := by
  by_cases same : other = id
  · subst same
    rcases store.frame_setFrame_eq_or other other frame with written | kept
    · rw [written, shared]
    · rw [kept]
  · rw [frame_setFrame_of_ne same]

theorem types_setVars (store : Store) (id other : FrameId) (vars : Bindings CellId) :
    ((store.setFrame id { store.frame id with vars }).frame other).types =
      (store.frame other).types :=
  project_setFrame Frame.types (by rfl) other

theorem vars_setTypes (store : Store) (id other : FrameId) (types : Bindings Ty) :
    ((store.setFrame id { store.frame id with types }).frame other).vars =
      (store.frame other).vars :=
  project_setFrame Frame.vars (by rfl) other

theorem frame_setFrame_of_absent {store : Store} {id : FrameId} (absent : ¬id < store.frames.size)
    (frame : Frame) : (store.setFrame id frame).frame id = store.frame id := by
  simp [Store.frame, setFrame, absent]

end Store

namespace Scope

/-- Work that led from one store to the other came by these objects: the built
ones have the numbers that it took, one after the other, and the others are what
the scope has under their names. -/
structure Accounts (scope : Scope) (store after : Store) (origins : Origins) : Prop where
  numbered : origins.built.map Ty.id = List.range' store.nextType origins.built.length
  counted : after.nextType = store.nextType + origins.built.length
  aliased : ∀ target object, (.alias target, object) ∈ origins →
    scope.type? store target = some object
  types : ∀ frame, (after.frame frame).types = (store.frame frame).types

structure Lacks (scope : Scope) (name : String) (store other : Store) : Prop where
  unbound : ∀ frame ∈ scope.frames, (store.frame frame).types.find? name = none
  types : ∀ frame bound, bound ≠ name →
    (other.frame frame).types.find? bound = (store.frame frame).types.find? bound
  vars : ∀ frame, (other.frame frame).vars = (store.frame frame).vars
  made : other.frames.size = store.frames.size
  cells : other.cells = store.cells
  nextType : other.nextType = store.nextType

variable {scope : Scope} {store middle after : Store} {origins more : Origins}

theorem Accounts.nil (counted : after.nextType = store.nextType)
    (types : ∀ frame, (after.frame frame).types = (store.frame frame).types) :
    scope.Accounts store after [] where
  numbered := rfl
  counted := counted
  aliased := by simp
  types := types

theorem Accounts.shared {name : String} {object : Ty}
    (found : scope.type? store name = some object) :
    scope.Accounts store store [(.alias name, object)] where
  numbered := rfl
  counted := rfl
  aliased := by
    intro target other inside
    cases List.mem_singleton.1 inside
    exact found
  types := fun _ => rfl

theorem Accounts.single {object : Ty} {name : Option String} {span : Span}
    (numbered : object.header = ⟨store.nextType, name, span⟩) :
    scope.Accounts store { store with nextType := store.nextType + 1 } [(.built, object)] where
  numbered := by
    have hnumber : object.id = store.nextType := congrArg Header.id numbered
    change [object.id] = [store.nextType]
    rw [hnumber]
  counted := rfl
  aliased := by simp
  types := fun _ => rfl

theorem Accounts.append (first : scope.Accounts store middle origins)
    (rest : scope.Accounts middle after more) : scope.Accounts store after (origins ++ more) where
  numbered := by
    rw [Origins.built_append, List.map_append, first.numbered, rest.numbered, first.counted,
      List.length_append, List.range'_append_1]
  counted := by
    rw [rest.counted, first.counted, Origins.built_append, List.length_append, Nat.add_assoc]
  aliased := by
    intro target object inside
    rcases List.mem_append.1 inside with old | new
    · exact first.aliased target object old
    · rw [← rest.aliased target object new]
      exact (type?_congr fun frame _ => by rw [first.types]).symm
  types := fun frame => (rest.types frame).trans (first.types frame)

namespace Lacks

variable {name : String} {other : Store}

theorem type? (lacks : scope.Lacks name store other) : scope.type? store name = none := by
  rw [Scope.type?, List.findSome?_eq_none_iff]
  exact lacks.unbound

theorem type?_of_ne (lacks : scope.Lacks name store other) {target : String}
    (different : target ≠ name) : scope.type? other target = scope.type? store target :=
  type?_congr fun frame _ => lacks.types frame target different

theorem localVar? (lacks : scope.Lacks name store other) (target : String) :
    scope.localVar? other target = scope.localVar? store target := by
  rw [Scope.localVar?, Scope.localVar?, lacks.vars]

theorem localValue? (lacks : scope.Lacks name store other) (target : String) :
    scope.localValue? other target = scope.localValue? store target := by
  unfold Scope.localValue? Store.cell?
  rw [lacks.localVar?, lacks.cells]

theorem number (lacks : scope.Lacks name store other) :
    scope.Lacks name { store with nextType := store.nextType + 1 }
      { other with nextType := store.nextType + 1 } :=
  { lacks with nextType := rfl }

theorem newCell (lacks : scope.Lacks name store other) (value : Value) :
    scope.Lacks name { store with cells := store.cells.push value }
      { other with cells := other.cells.push value } :=
  { lacks with cells := congrArg (·.push value) lacks.cells }

theorem putVar (lacks : scope.Lacks name store other) (target : String) (cell : CellId) :
    scope.Lacks name
      (store.setFrame scope.frame { store.frame scope.frame with
        vars := (store.frame scope.frame).vars.put target cell })
      (other.setFrame scope.frame { other.frame scope.frame with
        vars := (other.frame scope.frame).vars.put target cell }) where
  unbound := by
    intro frame hframe
    rw [Store.types_setVars]
    exact lacks.unbound frame hframe
  types := by
    intro frame bound different
    rw [Store.types_setVars, Store.types_setVars]
    exact lacks.types frame bound different
  vars := by
    intro frame
    by_cases same : frame = scope.frame
    · by_cases made : scope.frame < store.frames.size
      · rw [same, Store.frame_setFrame_self made, Store.frame_setFrame_self (lacks.made ▸ made),
          lacks.vars]
      · rw [same, Store.frame_setFrame_of_absent made,
          Store.frame_setFrame_of_absent (lacks.made ▸ made), lacks.vars]
    · rw [Store.frame_setFrame_of_ne same, Store.frame_setFrame_of_ne same, lacks.vars]
  made := by simpa [Store.setFrame] using lacks.made
  cells := lacks.cells
  nextType := lacks.nextType

end Lacks

end Scope

/-- Work that comes by its objects honestly: what it builds is new, what it looks
up is what the scope has, and a name that means nothing makes it fail for that
reason or makes no difference. -/
structure Build.Sourced {α : Type} (scope : Scope) (post : α → Origins → Prop)
    (work : Build α) : Prop where
  accounts : ∀ store result after, Build.run work store = (.ok result, after) →
    ∃ origins, scope.Accounts store after origins ∧ post result origins
  lacking : ∀ name store other, scope.Lacks name store other →
    (∃ failure, (Build.run work store).1 = .error failure ∧
      failure.problem = .unknownType name) ∨
    ((Build.run work store).1 = (Build.run work other).1 ∧
      scope.Lacks name (Build.run work store).2 (Build.run work other).2)

namespace Build.Sourced

variable {α β : Type} {scope : Scope} {post : α → Origins → Prop} {postNext : β → Origins → Prop}

theorem pure {result : α} (holds : post result []) :
    Build.Sourced scope post (pure result) where
  accounts := by
    intro store other after ran
    cases ran
    exact ⟨[], .nil rfl fun _ => rfl, holds⟩
  lacking := fun _ _ _ lacks => .inr ⟨rfl, lacks⟩

theorem fail (problem : Problem) : Build.Sourced scope post (Build.fail problem) where
  accounts := by simp
  lacking := fun _ _ _ lacks => .inr ⟨rfl, lacks⟩

theorem bind {work : Build α} {next : α → Build β} (first : Build.Sourced scope post work)
    (rest : ∀ result origins, post result origins →
      Build.Sourced scope (fun last more => postNext last (origins ++ more)) (next result)) :
    Build.Sourced scope postNext (work >>= next) where
  accounts := by
    intro store last after ran
    obtain ⟨result, middle, hfirst, hrest⟩ := Build.run_bind_eq_ok.1 ran
    obtain ⟨origins, horigins, hpost⟩ := first.accounts store result middle hfirst
    obtain ⟨more, hmore, hlast⟩ := (rest result origins hpost).accounts middle last after hrest
    exact ⟨origins ++ more, horigins.append hmore, hlast⟩
  lacking := by
    intro name store other lacks
    rw [Build.run_bind, Build.run_bind]
    rcases first.lacking name store other lacks with ⟨failure, hfailed, hunknown⟩ | ⟨hsame, hlacks⟩
    · rcases hrun : Build.run work store with ⟨_ | result, middle⟩
      · rw [hrun] at hfailed
        cases hfailed
        exact .inl ⟨_, rfl, hunknown⟩
      · rw [hrun] at hfailed
        exact nomatch hfailed
    · rcases hrun : Build.run work store with ⟨failure | result, middle⟩ <;>
        rcases hother : Build.run work other with ⟨failureOther | resultOther, middleOther⟩ <;>
        rw [hrun, hother] at hsame hlacks <;> cases hsame
      · exact .inr ⟨rfl, hlacks⟩
      · obtain ⟨origins, -, hpost⟩ := first.accounts store result middle hrun
        exact (rest result origins hpost).lacking name middle middleOther hlacks

theorem weaken {work : Build α} (sourced : Build.Sourced scope post work)
    {weaker : α → Origins → Prop} (implied : ∀ result origins, post result origins →
      weaker result origins) : Build.Sourced scope weaker work where
  accounts := by
    intro store result after ran
    obtain ⟨origins, horigins, hpost⟩ := sourced.accounts store result after ran
    exact ⟨origins, horigins, implied result origins hpost⟩
  lacking := sourced.lacking

theorem locate {work : Build α} (sourced : Build.Sourced scope post work) (span : Span) :
    Build.Sourced scope post (Build.locate span work) where
  accounts := fun store result after ran =>
    sourced.accounts store result after (Build.run_locate_eq_ok.1 ran)
  lacking := by
    intro name store other lacks
    rw [Build.run_locate, Build.run_locate]
    rcases sourced.lacking name store other lacks with
      ⟨failure, hfailed, hunknown⟩ | ⟨hsame, hlacks⟩
    · refine .inl ⟨failure.located span, ?_, ?_⟩
      · rw [hfailed]
        rfl
      · rw [Failure.located_problem]
        exact hunknown
    · exact .inr ⟨by rw [hsame], hlacks⟩

theorem refuse {condition : Prop} [Decidable condition] {refusal : Build Unit}
    {next : Unit → Build α} (refuses : Build.Sourced scope (fun _ _ => False) refusal)
    (rest : Build.Sourced scope post (next ())) :
    Build.Sourced scope post (if condition then refusal >>= next else next ()) := by
  split
  · exact refuses.bind fun _ _ impossible => impossible.elim
  · exact rest

theorem header {next : Header → Build α} {name : Option String} {span : Span}
    (object : Header → Ty) (numbered : ∀ header, (object header).header = header)
    (rest : ∀ header, Build.Sourced scope
      (fun last more => post last ((.built, object header) :: more)) (next header)) :
    Build.Sourced scope post (Store.newHeader name span >>= next) where
  accounts := by
    intro store last after ran
    obtain ⟨header, middle, hheader, hrest⟩ := Build.run_bind_eq_ok.1 ran
    rw [Store.run_newHeader] at hheader
    cases hheader
    obtain ⟨more, hmore, hpost⟩ := (rest _).accounts _ last after hrest
    exact ⟨_, (Scope.Accounts.single (numbered _)).append hmore, hpost⟩
  lacking := by
    intro other store others lacks
    rw [Build.run_bind, Build.run_bind, Store.run_newHeader, Store.run_newHeader, lacks.nextType]
    exact (rest _).lacking other _ _ lacks.number

theorem still {work : Build α}
    (counted : ∀ store, (Build.run work store).2.nextType = store.nextType)
    (types : ∀ store frame,
      ((Build.run work store).2.frame frame).types = (store.frame frame).types)
    (lacking : ∀ name store other, scope.Lacks name store other →
      (Build.run work store).1 = (Build.run work other).1 ∧
        scope.Lacks name (Build.run work store).2 (Build.run work other).2) :
    Build.Sourced scope (fun _ origins => origins = []) work where
  accounts := by
    intro store result after ran
    have hcounted := counted store
    have htypes := types store
    rw [ran] at hcounted htypes
    exact ⟨[], .nil hcounted htypes, rfl⟩
  lacking := fun name store other lacks => .inr (lacking name store other lacks)

theorem resolveType (name : String) :
    Build.Sourced scope (fun type origins => origins = [(.alias name, type)])
      (scope.resolveType name) where
  accounts := by
    intro store type after ran
    rw [Scope.run_resolveType] at ran
    cases found : scope.type? store name with
    | none => simp [found] at ran
    | some object =>
        rw [found] at ran
        cases ran
        exact ⟨_, .shared found, rfl⟩
  lacking := by
    intro missing store other lacks
    rw [Scope.run_resolveType, Scope.run_resolveType]
    by_cases same : name = missing
    · subst same
      rw [lacks.type?]
      exact .inl ⟨_, rfl, rfl⟩
    · rw [lacks.type?_of_ne same]
      cases scope.type? store name <;> exact .inr ⟨rfl, lacks⟩

theorem requireConstantOrFree (name : String) :
    Build.Sourced scope (fun _ origins => origins = []) (scope.requireConstantOrFree name) := by
  refine still (fun store => ?_) (fun store frame => ?_) fun missing store other lacks => ?_
  · rw [Scope.run_requireConstantOrFree]
    split <;> rfl
  · rw [Scope.run_requireConstantOrFree]
    split <;> rfl
  · rw [Scope.run_requireConstantOrFree, Scope.run_requireConstantOrFree, lacks.localValue?]
    rcases scope.localValue? store name with _ | _ | _ | _ | _ | _ <;> exact ⟨rfl, lacks⟩

theorem newCell (value : Value) :
    Build.Sourced scope (fun _ origins => origins = []) (Store.newCell value) := by
  refine still (fun _ => rfl) (fun _ _ => rfl) fun _ store other lacks => ⟨?_, lacks.newCell value⟩
  rw [Store.run_newCell, Store.run_newCell, lacks.cells]

theorem bindVar (name : String) (cell : CellId) :
    Build.Sourced scope (fun _ origins => origins = []) (scope.bindVar name cell) := by
  refine still (fun store => ?_) (fun store frame => ?_) fun missing store other lacks => ?_
  · rw [Scope.run_bindVar]
    dsimp only
    split <;> rfl
  · rw [Scope.run_bindVar]
    dsimp only
    split
    · rfl
    · exact Store.types_setVars _ _ _ _
  · have hput := lacks.putVar name cell
    rw [Scope.run_bindVar, Scope.run_bindVar]
    dsimp only
    rw [lacks.vars] at hput ⊢
    split
    · exact ⟨rfl, lacks⟩
    · exact ⟨rfl, hput⟩

theorem forM {items : List α} {work : α → Build Unit}
    (sourced : ∀ item, Build.Sourced scope (fun _ origins => origins = []) (work item)) :
    Build.Sourced scope (fun _ origins => origins = []) (items.forM work) := by
  induction items with
  | nil => exact pure rfl
  | cons item rest ih =>
      refine (sourced item).bind fun _ origins none => ?_
      rw [none]
      exact ih

theorem bindConstants (type : EitherType) :
    Build.Sourced scope (fun _ origins => origins = []) (scope.bindConstants type) := by
  refine bind (forM fun tag => requireConstantOrFree tag.name) fun _ origins none => ?_
  rw [none]
  refine forM fun tag => bind (newCell (.tag tag)) fun cell origins none => ?_
  rw [none]
  exact bindVar tag.name cell

end Build.Sourced

theorem EitherType.payloads_ofAlternatives (header : Header) (first : Alternative)
    (rest : List Alternative) :
    (ofAlternatives header first rest).variants.map (·.payload) =
      (first :: rest).map (·.payload) := by
  rw [variants_ofAlternatives]
  apply List.ext_getElem?
  intro place
  simp only [List.getElem?_map, List.getElem?_mapIdx, Option.map_map]
  rfl

theorem TypeExpr.sourced_requireArray (scope : Scope) (base : String) :
    Build.Sourced scope (fun _ origins => origins = []) (TypeExpr.requireArray base) := by
  unfold TypeExpr.requireArray
  split
  · exact .pure rfl
  · exact .fail _

theorem Ty.sourced_arrayOf (scope : Scope) (element index : Ty) (name : Option String)
    (span place : Span) :
    Build.Sourced scope (fun type origins => ∃ array, type = .array array ∧
        array.element = element ∧ .range array.index = index ∧ origins = [(.built, type)])
      (Ty.arrayOf (Store.newHeader name span) element index place) := by
  cases index with
  | record | either | array => exact (Build.Sourced.fail _).locate place
  | range domain =>
      simp only [Ty.arrayOf]
      split
      · next small =>
        exact .header (fun header => .array ⟨header, element, domain, small⟩) (fun _ => rfl)
          fun header => .pure ⟨_, rfl, rfl, rfl, rfl⟩
      · exact (Build.Sourced.fail _).locate place

mutual

theorem TypeExpr.sourced_elaborate (scope : Scope) : (expression : TypeExpr) →
    ∀ name : Option String, Build.Sourced scope
      (fun type origins => origins = expression.objects type ∧
        (expression.objects type).map Prod.fst = expression.nodes)
      (expression.elaborate scope name)
  | .alias target span, _ => by
      refine Build.Sourced.locate ?_ span
      exact (Build.Sourced.resolveType target).weaken fun type origins same => ⟨same, rfl⟩
  | .range low high span, name => by
      refine Build.Sourced.locate ?_ span
      split
      · next ordered =>
        exact .header (fun header => .range ⟨header, ⟨low, high, ordered⟩⟩) (fun _ => rfl)
          fun header => .pure ⟨rfl, rfl⟩
      · exact .fail _
  | .record fields span, name => by
      refine Build.Sourced.locate ?_ span
      refine (FieldDecl.sourced_elaborateList scope fields _ .empty).bind
        fun ⟨built, layout⟩ origins gives => ?_
      obtain ⟨rfl, hnodes⟩ := gives
      refine .header (fun header => .record ⟨header, built, layout⟩) (fun _ => rfl)
        fun header => ?_
      refine .pure ⟨rfl, ?_⟩
      rw [TypeExpr.objects, TypeExpr.nodes, List.map_append, hnodes]
      rfl
  | .either [] span, _ => (Build.Sourced.fail _).locate span
  | .either (first :: rest) span, name => by
      refine Build.Sourced.locate ?_ span
      refine (VariantDecl.sourced_elaborate scope first _ []).bind fun built origins gives => ?_
      obtain ⟨rfl, hnodes⟩ := gives
      refine (VariantDecl.sourced_elaborateList scope rest _ _).bind fun others more gives => ?_
      obtain ⟨rfl, hnodesRest⟩ := gives
      refine .header (fun header => .either (.ofAlternatives header built others)) (fun _ => rfl)
        fun header => ?_
      refine (Build.Sourced.bindConstants _).bind fun _ last none => .pure ?_
      rw [none, TypeExpr.objects, TypeExpr.nodes, EitherType.payloads_ofAlternatives,
        List.map_cons, VariantDecl.objectsList, VariantDecl.nodesList, List.map_append,
        List.map_append, hnodes, hnodesRest, List.append_assoc]
      exact ⟨rfl, rfl⟩
  | .generic base [element] (some index) span, name => by
      refine Build.Sourced.locate ?_ span
      refine (TypeExpr.sourced_requireArray scope base).bind fun _ start hstart => ?_
      refine (TypeExpr.sourced_elaborate scope element none).bind
        fun elementType origins gives => ?_
      obtain ⟨rfl, hnodes⟩ := gives
      refine (TypeExpr.sourced_elaborate scope index none).bind
        fun indexType more gives => ?_
      obtain ⟨rfl, hnodesIndex⟩ := gives
      refine (Ty.sourced_arrayOf scope elementType indexType name span _).weaken
        fun type last array => ?_
      obtain ⟨array, rfl, rfl, rfl, rfl⟩ := array
      rw [hstart, TypeExpr.objects, TypeExpr.nodes, TypeExpr.nodesList, TypeExpr.nodesList,
        List.append_nil, List.map_append, List.map_append, hnodes, hnodesIndex, List.append_assoc]
      exact ⟨rfl, rfl⟩
  | .generic base [_] none span, _ =>
      ((TypeExpr.sourced_requireArray scope base).bind fun _ _ _ => .fail _).locate span
  | .generic base [] index span, _ => by
      cases index <;>
        exact ((TypeExpr.sourced_requireArray scope base).bind fun _ _ _ => .fail _).locate span
  | .generic base (_ :: _ :: _) index span, _ => by
      cases index <;>
        exact ((TypeExpr.sourced_requireArray scope base).bind fun _ _ _ => .fail _).locate span
  | .unknown _ span, _ => (Build.Sourced.fail _).locate span
  termination_by structural expression => expression

theorem FieldDecl.sourced_elaborate (scope : Scope) : (field : FieldDecl) →
    ∀ (owner : String) (layout : Layout), Build.Sourced scope
      (fun built origins => origins = field.objects built.type ∧
        (field.objects built.type).map Prod.fst = field.nodes)
      (field.elaborate scope owner layout)
  | ⟨name, type, span⟩, owner, layout => by
      refine Build.Sourced.locate ?_ span
      refine .refuse (.fail _) ?_
      refine (TypeExpr.sourced_elaborate scope type none).bind fun built origins gives => .pure ?_
      rw [List.append_nil]
      exact gives
  termination_by structural field => field

theorem FieldDecl.sourced_elaborateList (scope : Scope) : (fields : List FieldDecl) →
    ∀ (owner : String) (layout : Layout), Build.Sourced scope
      (fun built origins => origins = FieldDecl.objectsList fields (built.1.map (·.type)) ∧
        (FieldDecl.objectsList fields (built.1.map (·.type))).map Prod.fst =
          FieldDecl.nodesList fields)
      (FieldDecl.elaborateList scope owner layout fields)
  | [], _, _ => .pure ⟨rfl, rfl⟩
  | field :: rest, owner, layout => by
      refine (FieldDecl.sourced_elaborate scope field owner layout).bind
        fun built origins gives => ?_
      obtain ⟨rfl, hnodes⟩ := gives
      refine (FieldDecl.sourced_elaborateList scope rest owner _).bind
        fun others more gives => .pure ?_
      obtain ⟨rfl, hnodesRest⟩ := gives
      rw [List.append_nil, List.map_cons, FieldDecl.objectsList, FieldDecl.nodesList,
        List.map_append, hnodes, hnodesRest]
      exact ⟨rfl, rfl⟩
  termination_by structural fields => fields

theorem VariantDecl.sourced_elaborate (scope : Scope) : (variant : VariantDecl) →
    ∀ (owner : String) (seen : List String), Build.Sourced scope
      (fun built origins => origins = variant.objects built.payload ∧
        (variant.objects built.payload).map Prod.fst = variant.nodes)
      (variant.elaborate scope owner seen)
  | ⟨name, none, span⟩, owner, seen => by
      rw [VariantDecl.elaborate]
      refine .refuse ((Build.Sourced.fail _).locate span) ?_
      exact .pure ⟨rfl, rfl⟩
  | ⟨name, some fields, span⟩, owner, seen => by
      rw [VariantDecl.elaborate]
      refine .refuse ((Build.Sourced.fail _).locate span) ?_
      refine (FieldDecl.sourced_elaborateList scope fields name .empty).bind
        fun ⟨built, layout⟩ origins gives => ?_
      obtain ⟨rfl, hnodes⟩ := gives
      refine .header (fun header => .record ⟨header, built, layout⟩) (fun _ => rfl)
        fun header => ?_
      refine .pure ⟨rfl, ?_⟩
      rw [VariantDecl.objects, VariantDecl.nodes, List.map_append, hnodes]
      rfl
  termination_by structural variant => variant

theorem VariantDecl.sourced_elaborateList (scope : Scope) : (variants : List VariantDecl) →
    ∀ (owner : String) (seen : List String), Build.Sourced scope
      (fun built origins => origins = VariantDecl.objectsList variants (built.map (·.payload)) ∧
        (VariantDecl.objectsList variants (built.map (·.payload))).map Prod.fst =
          VariantDecl.nodesList variants)
      (VariantDecl.elaborateList scope owner seen variants)
  | [], _, _ => .pure ⟨rfl, rfl⟩
  | variant :: rest, owner, seen => by
      refine (VariantDecl.sourced_elaborate scope variant owner seen).bind
        fun built origins gives => ?_
      obtain ⟨rfl, hnodes⟩ := gives
      refine (VariantDecl.sourced_elaborateList scope rest owner _).bind
        fun others more gives => .pure ?_
      obtain ⟨rfl, hnodesRest⟩ := gives
      rw [List.append_nil, List.map_cons, VariantDecl.objectsList, VariantDecl.nodesList,
        List.map_append, hnodes, hnodesRest]
      exact ⟨rfl, rfl⟩
  termination_by structural variants => variants

end

namespace TypeExpr

variable {scope : Scope} {name : Option String} {expression : TypeExpr} {store after : Store}
  {type : Ty}

theorem accounts_elaborate
    (ran : Build.run (expression.elaborate scope name) store = (.ok type, after)) :
    scope.Accounts store after (expression.objects type) ∧
      (expression.objects type).map Prod.fst = expression.nodes := by
  obtain ⟨origins, haccounts, rfl, hnodes⟩ :=
    (expression.sourced_elaborate scope name).accounts store type after ran
  exact ⟨haccounts, hnodes⟩

theorem nodes_ne_nil (expression : TypeExpr) : expression.nodes ≠ [] := by
  unfold nodes
  split <;> simp

theorem mem_built_self (given : (expression.objects type).map Prod.fst = expression.nodes)
    (own : ∀ target span, expression ≠ .alias target span) :
    type ∈ (expression.objects type).built := by
  have hsome : expression.objects type ≠ [] := by
    intro none
    rw [none] at given
    exact expression.nodes_ne_nil given.symm
  rw [Origins.mem_built]
  unfold objects at hsome ⊢
  split at hsome
  · exact absurd rfl (own _ _)
  · exact List.mem_singleton_self _
  · exact List.mem_concat_self
  · exact List.mem_concat_self
  · exact List.mem_concat_self
  · exact absurd rfl hsome

/-- A name that the scope has nothing under keeps the expression from becoming a
type. It is reported as unknown, or the same failure comes about whatever it means. -/
theorem elaborate_unbound (name : Option String) {target : String}
    (mentioned : .alias target ∈ expression.nodes)
    (unbound : scope.type? store target = none) :
    ∃ failure, (Build.run (expression.elaborate scope name) store).1 = .error failure ∧
      (failure.problem = .unknownType target ∨ ∀ other, scope.Lacks target store other →
        (Build.run (expression.elaborate scope name) other).1 = .error failure) := by
  rcases hrun : Build.run (expression.elaborate scope name) store with ⟨failure | type, after⟩
  · refine ⟨failure, rfl, or_iff_not_imp_left.2 fun known other lacks => ?_⟩
    rcases (expression.sourced_elaborate scope name).lacking target store other lacks with
      ⟨found, hfound, hunknown⟩ | ⟨hsame, -⟩
    · rw [hrun] at hfound
      cases hfound
      exact absurd hunknown known
    · rw [← hsame, hrun]
  · obtain ⟨haccounts, hnodes⟩ := accounts_elaborate hrun
    rw [← hnodes] at mentioned
    obtain ⟨⟨origin, object⟩, hobject, rfl⟩ := List.mem_map.1 mentioned
    have hbound := haccounts.aliased target object hobject
    rw [unbound] at hbound
    exact nomatch hbound

end TypeExpr

theorem Scope.lacks_bindType {scope : Scope} {store : Store} {name : String}
    (unbound : scope.type? store name = none) (type : Ty) :
    scope.Lacks name store (Build.run (scope.bindType name type) store).2 := by
  have hunbound : ∀ frame ∈ scope.frames, (store.frame frame).types.find? name = none :=
    List.findSome?_eq_none_iff.1 unbound
  rw [Scope.run_bindType]
  dsimp only
  split
  · exact ⟨hunbound, fun _ _ _ => rfl, fun _ => rfl, rfl, rfl, rfl⟩
  · refine ⟨hunbound, fun frame bound different => ?_, fun frame => ?_, ?_, rfl, rfl⟩
    · exact Store.project_setFrame (·.types.find? bound)
        (Bindings.find?_put_of_ne _ _ different) frame
    · exact Store.vars_setTypes _ _ _ _
    · simp [Store.setFrame]

end StateModel
