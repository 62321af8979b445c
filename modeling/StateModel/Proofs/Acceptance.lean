import StateModel.Proofs.Lockstep
import StateModel.Proofs.Origins
import StateModel.Proofs.Registration

/-!
Which expressions become types. An expression does exactly when it is valid, which
is read off its tree with what its type names mean, and when the constants that it is
written with fit the frame that they are bound in.
-/
namespace StateModel

def Ty.Indexes : Ty → Prop
  | .range domain => domain.interval.count ≤ 0x1000000
  | .record _ | .either _ | .array _ => False

namespace TypeExpr

def Indexes (types : String → Option Ty) : TypeExpr → Prop
  | .alias target _ => ∃ type, types target = some type ∧ type.Indexes
  | .range low high _ => high.toInt - low.toInt + 1 ≤ 0x1000000
  | .record .. | .either .. | .generic .. | .unknown .. => False

end TypeExpr

mutual

/-- Nothing is wrong with the expression as it is written, where `types` is what
the names in it mean. -/
def TypeExpr.Valid (types : String → Option Ty) : TypeExpr → Prop
  | .alias target _ => (types target).isSome = true
  | .range low high _ => low ≤ high
  | .record fields _ => (fields.map (·.name)).Nodup ∧ FieldDecl.AllValid types fields
  | .either variants _ =>
      variants ≠ [] ∧ (variants.map (·.name)).Nodup ∧ VariantDecl.AllValid types variants
  | .generic base [element] (some index) _ =>
      base = TypeExpr.arrayBase ∧ element.Valid types ∧ index.Valid types ∧ index.Indexes types
  | .generic .. | .unknown .. => False
  termination_by structural expression => expression

def FieldDecl.Valid (types : String → Option Ty) : FieldDecl → Prop
  | ⟨_, type, _⟩ => type.Valid types
  termination_by structural field => field

def FieldDecl.AllValid (types : String → Option Ty) : List FieldDecl → Prop
  | [] => True
  | field :: rest => field.Valid types ∧ FieldDecl.AllValid types rest
  termination_by structural fields => fields

def VariantDecl.Valid (types : String → Option Ty) : VariantDecl → Prop
  | ⟨_, none, _⟩ => True
  | ⟨_, some fields, _⟩ => (fields.map (·.name)).Nodup ∧ FieldDecl.AllValid types fields
  termination_by structural variant => variant

def VariantDecl.AllValid (types : String → Option Ty) : List VariantDecl → Prop
  | [] => True
  | variant :: rest => variant.Valid types ∧ VariantDecl.AllValid types rest
  termination_by structural variants => variants

end

def VariantDecl.Free (held : String → Prop) (eithers : List (List VariantDecl)) : Prop :=
  ∀ variants ∈ eithers, ∀ name ∈ VariantDecl.constantNames variants, ¬held name

theorem VariantDecl.free_append {held : String → Prop} {first rest : List (List VariantDecl)} :
    VariantDecl.Free held (first ++ rest) ↔
      VariantDecl.Free held first ∧ VariantDecl.Free held rest := List.forall_mem_append

theorem VariantDecl.free_nil (held : String → Prop) : VariantDecl.Free held [] := by
  simp [VariantDecl.Free]

/-- The frame has room for the constants of the expression. A lenient one lets them
take any place that is not a variable's; in a strict one every name has to be new,
also among the either types of the expression itself. -/
def TypeExpr.ConstantsFit (scope : Scope) (store : Store) (expression : TypeExpr) : Prop :=
  match scope.policy with
  | .overwrite => VariantDecl.Free (scope.HoldsVariable store) expression.eithers
  | .reject =>
      VariantDecl.Free (scope.hasLocalVar store · = true) expression.eithers ∧
        expression.eithers.Pairwise fun first second =>
          (VariantDecl.constantNames first).Disjoint (VariantDecl.constantNames second)

structure Scope.Sees (scope : Scope) (types : String → Option Ty) (held : String → Prop)
    (store : Store) : Prop where
  settled : scope.Settled store
  types : ∀ name, scope.type? store name = types name
  held : ∀ name, scope.HoldsVariable store name ↔ held name

/-- The work ends well exactly under the condition, and the scope then still sees
what it saw. -/
def Build.Accepts {α : Type} (scope : Scope) (types : String → Option Ty) (held : String → Prop)
    (accepted : Prop) (post : α → Prop) (work : Build α) : Prop :=
  ∀ store, scope.Sees types held store →
    match Build.run work store with
    | (.ok result, after) => accepted ∧ post result ∧ scope.Sees types held after
    | (.error _, _) => ¬accepted

namespace Build.Accepts

variable {α β : Type} {scope : Scope} {types : String → Option Ty} {held : String → Prop}
  {part accepted : Prop} {post : α → Prop} {postNext : β → Prop}

theorem pure {result : α} (holds : accepted) (fits : post result) :
    Build.Accepts scope types held accepted post (pure result) := fun _ sees => ⟨holds, fits, sees⟩

theorem fail {problem : Problem} (never : ¬accepted) :
    Build.Accepts scope types held accepted post (Build.fail problem) := fun _ _ => never

theorem bind {work : Build α} {next : α → Build β}
    (first : Build.Accepts scope types held part post work) (needed : accepted → part)
    (rest : ∀ result, part → post result →
      Build.Accepts scope types held accepted postNext (next result)) :
    Build.Accepts scope types held accepted postNext (work >>= next) := by
  intro store sees
  have hfirst := first store sees
  rw [Build.run_bind]
  rcases hrun : Build.run work store with ⟨failure | result, middle⟩
  · rw [hrun] at hfirst
    exact mt needed hfirst
  · rw [hrun] at hfirst
    obtain ⟨hpart, hpost, hsees⟩ := hfirst
    exact rest result hpart hpost middle hsees

theorem congr {work : Build α} {other : α → Prop}
    (accepts : Build.Accepts scope types held part post work) (same : part ↔ accepted)
    (implied : ∀ result, post result → other result) :
    Build.Accepts scope types held accepted other work := by
  intro store sees
  have haccepts := accepts store sees
  rcases hrun : Build.run work store with ⟨failure | result, after⟩
  · rw [hrun] at haccepts
    exact mt same.2 haccepts
  · rw [hrun] at haccepts
    exact ⟨same.1 haccepts.1, implied result haccepts.2.1, haccepts.2.2⟩

theorem locate {work : Build α} (accepts : Build.Accepts scope types held accepted post work)
    (span : Span) : Build.Accepts scope types held accepted post (Build.locate span work) := by
  intro store sees
  have haccepts := accepts store sees
  rw [Build.run_locate]
  rcases hrun : Build.run work store with ⟨failure | result, after⟩ <;>
    · rw [hrun] at haccepts
      exact haccepts

theorem refuse {condition : Prop} [Decidable condition] {refusal : Build Unit}
    {next : Unit → Build α} (needed : accepted → ¬condition)
    (refuses : Build.Accepts scope types held False (fun _ => True) refusal)
    (rest : ¬condition → Build.Accepts scope types held accepted post (next ())) :
    Build.Accepts scope types held accepted post
      (if condition then refusal >>= next else next ()) := by
  split
  · next refused =>
    exact refuses.bind (fun holds => needed holds refused) fun _ impossible => impossible.elim
  · next allowed => exact rest allowed

theorem header {name : Option String} {span : Span} {next : Header → Build α}
    (rest : ∀ header, Build.Accepts scope types held accepted post (next header)) :
    Build.Accepts scope types held accepted post (Store.newHeader name span >>= next) := by
  intro store sees
  rw [Build.run_bind, Store.run_newHeader]
  exact rest _ _ ⟨Act.settled_number sees.settled, sees.types, sees.held⟩

theorem resolveType (name : String) :
    Build.Accepts scope types held ((types name).isSome = true) (fun type => types name = some type)
      (scope.resolveType name) := by
  intro store sees
  rw [Scope.run_resolveType, ← sees.types name]
  cases found : scope.type? store name with
  | none => simp
  | some type => exact ⟨rfl, rfl, sees⟩

theorem bindConstants (overwrites : scope.policy = .overwrite) {type : EitherType}
    {variants : List VariantDecl} (written : type.WrittenAs variants) :
    Build.Accepts scope types held (VariantDecl.Free held [variants]) (fun _ => True)
      (scope.bindConstants type) := by
  intro store sees
  have hnames : VariantDecl.Free held [variants] ↔
      ∀ tag ∈ type.constants, ¬scope.HoldsVariable store tag.name := by
    unfold VariantDecl.Free
    simp only [List.mem_singleton, forall_eq, ← written.names_eq, List.forall_mem_map, sees.held]
  have hsourced := @Build.Sourced.bindConstants scope type
  rw [hnames]
  unfold Scope.bindConstants at hsourced ⊢
  rcases scope.run_forM_requireConstantOrFree type.constants store with
    ⟨hfree, hchecked⟩ | ⟨before, tag, later, hsplit, hheld, hchecked⟩
  · have hrun : Build.run (do
        type.constants.forM fun tag => scope.requireConstantOrFree tag.name
        type.constants.forM scope.bindConstant) store =
          (.ok (), scope.bindAll type.constants store) := by
      rw [Build.run_bind, hchecked]
      exact Scope.run_forM_bindConstant_of_overwrite overwrites _ _
    obtain ⟨origins, haccounts, -⟩ := hsourced.accounts store () _ hrun
    have hperforms := Scope.performs_bindAll sees.settled hfree
    rw [hrun]
    refine ⟨hfree, trivial, Scope.settled_bindAll sees.settled _, fun name => ?_, fun name => ?_⟩
    · rw [← sees.types name]
      exact Scope.type?_congr fun id _ => by rw [haccounts.types]
    · rw [← sees.held name, hperforms.holdsVariable_iff sees.settled, or_iff_left]
      simp [Act.binding?, Value.isTag]
  · rw [Build.run_bind, hchecked, hsplit]
    exact fun free => free tag (by simp) hheld

end Build.Accepts

theorem freshNames_cons {seen names : List String} {name : String} :
    FreshNames seen (name :: names) ↔ name ∉ seen ∧ FreshNames (name :: seen) names := by
  refine ⟨fun fresh => ⟨fresh.2 name List.mem_cons_self, ?_⟩, fun both => both.2.cons both.1⟩
  have hgrown : ∀ other, other ∈ name :: seen ↔ other ∈ seen ∨ other ∈ [name] := by
    simp [or_comm]
  exact ((FreshNames.append hgrown).1 fresh).2

theorem Layout.freshNames_cons {layout : Layout} {names : List String} {name : String} :
    FreshNames layout.names (name :: names) ↔
      ¬ layout.contains name ∧ FreshNames (layout.enter name).names names := by
  have hentered : ∀ other, other ∈ (layout.enter name).names ↔ other ∈ name :: layout.names := by
    intro other
    rw [← Layout.contains_iff, Layout.contains_enter, Bool.or_eq_true, Layout.contains_iff,
      beq_iff_eq, List.mem_cons, or_comm]
  rw [StateModel.freshNames_cons, layout.contains_iff]
  simp only [FreshNames, hentered]

theorem freshNames_nil {names : List String} : FreshNames [] names ↔ names.Nodup := by
  simp [FreshNames]

section

variable {scope : Scope} {types : String → Option Ty} {held : String → Prop}

theorem TypeExpr.accepts_requireArray (base : String) :
    Build.Accepts scope types held (base = TypeExpr.arrayBase) (fun _ => True)
      (TypeExpr.requireArray base) := by
  unfold TypeExpr.requireArray
  split
  · next array => exact .pure array trivial
  · next other => exact .fail other

theorem Ty.accepts_arrayOf (element index : Ty) (name : Option String) (span place : Span) :
    Build.Accepts scope types held index.Indexes (fun type => ¬type.Indexes)
      (Ty.arrayOf (Store.newHeader name span) element index place) := by
  cases index with
  | record | either | array => exact (Build.Accepts.fail not_false).locate place
  | range domain =>
      have hlimit : (Ty.range domain).Indexes ↔ domain.interval.length ≤ maxArrayLength := by
        have hcount := domain.interval.count_eq
        rw [Interval.length_le_max_iff, Ty.Indexes]
        omega
      simp only [Ty.arrayOf]
      split
      · next small => exact .header fun header => .pure (hlimit.2 small) not_false
      · next large => exact (Build.Accepts.fail (mt hlimit.1 large)).locate place

mutual

theorem TypeExpr.accepts_elaborate (overwrites : scope.policy = .overwrite) :
    (expression : TypeExpr) → ∀ name : Option String,
    Build.Accepts scope types held
      (expression.Valid types ∧ VariantDecl.Free held expression.eithers)
      (fun type => type.Indexes ↔ expression.Indexes types) (expression.elaborate scope name)
  | .alias target span, _ => by
      refine Build.Accepts.locate ?_ span
      refine (Build.Accepts.resolveType target).congr ?_ fun type found => ?_
      · exact (and_iff_left (VariantDecl.free_nil held)).symm
      · simp [TypeExpr.Indexes, found]
  | .range low high span, name => by
      refine Build.Accepts.locate ?_ span
      split
      · next ordered =>
        refine .header fun header => .pure ⟨ordered, VariantDecl.free_nil held⟩ ?_
        have hcount := Interval.count_eq ⟨low, high, ordered⟩
        simp only [Ty.Indexes, TypeExpr.Indexes] at hcount ⊢
        omega
      · next inverted => exact .fail fun both => inverted both.1
  | .record fields span, name => by
      refine Build.Accepts.locate ?_ span
      have hparts := FieldDecl.accepts_elaborateList overwrites fields (name.getD "record") .empty
      refine hparts.bind ?_ fun _ hfields _ => ?_
      · exact fun all => ⟨freshNames_nil.2 all.1.1, all.1.2, all.2⟩
      · obtain ⟨hnames, hvalid, hfree⟩ := hfields
        exact .header fun header =>
          .pure ⟨⟨freshNames_nil.1 hnames, hvalid⟩, hfree⟩ (Iff.refl False)
  | .either [] span, _ => (Build.Accepts.fail fun both => both.1.1 rfl).locate span
  | .either (first :: rest) span, name => by
      refine Build.Accepts.locate ?_ span
      rw [TypeExpr.Valid, TypeExpr.eithers, VariantDecl.AllValid, VariantDecl.eithersList,
        VariantDecl.free_append, VariantDecl.free_append, ← freshNames_nil, List.map_cons,
        freshNames_cons]
      refine (VariantDecl.accepts_elaborate overwrites first _ []).bind ?_
        fun alternative hfirst hown => ?_
      · exact fun all => ⟨all.1.2.1.1, all.1.2.2.1, all.2.1.1⟩
      rw [hown.1]
      refine (VariantDecl.accepts_elaborateList overwrites rest _ _).bind ?_
        fun alternatives hrest hothers => ?_
      · exact fun all => ⟨all.1.2.1.2, all.1.2.2.2, all.2.1.2⟩
      refine .header fun header => ?_
      have hwritten := EitherType.writtenAs_ofAlternatives header (.cons hown hothers)
      refine (Build.Accepts.bindConstants overwrites hwritten).bind (·.2.2) fun _ hfree _ => ?_
      refine .pure ⟨⟨by simp, ?_, ?_⟩, ?_, hfree⟩ (Iff.refl False)
      · exact ⟨hfirst.1, hrest.1⟩
      · exact ⟨hfirst.2.1, hrest.2.1⟩
      · exact ⟨hfirst.2.2, hrest.2.2⟩
  | .generic base [element] (some index) span, name => by
      refine Build.Accepts.locate ?_ span
      rw [TypeExpr.Valid, TypeExpr.eithers, TypeExpr.eithersList, TypeExpr.eithersList,
        List.append_nil, VariantDecl.free_append]
      refine (TypeExpr.accepts_requireArray base).bind (·.1.1) fun _ harray _ => ?_
      refine (TypeExpr.accepts_elaborate overwrites element none).bind ?_
        fun elementType helement _ => ?_
      · exact fun all => ⟨all.1.2.1, all.2.1⟩
      refine (TypeExpr.accepts_elaborate overwrites index none).bind ?_
        fun indexType hindex hindexes => ?_
      · exact fun all => ⟨all.1.2.2.1, all.2.2⟩
      refine (Ty.accepts_arrayOf elementType indexType name span index.span).congr ?_ ?_
      · constructor
        · exact fun indexes => ⟨⟨harray, helement.1, hindex.1, hindexes.1 indexes⟩,
            helement.2, hindex.2⟩
        · exact fun all => hindexes.2 all.1.2.2.2
      · exact fun type never => iff_of_false never not_false
  | .generic base [_] none span, _ => by
      refine Build.Accepts.locate ?_ span
      exact (TypeExpr.accepts_requireArray base).bind (fun all => nomatch all.1)
        fun _ _ _ => .fail fun all => all.1
  | .generic base [] index span, _ => by
      cases index <;>
        exact ((TypeExpr.accepts_requireArray base).bind (fun all => nomatch all.1)
          fun _ _ _ => .fail fun all => all.1).locate span
  | .generic base (_ :: _ :: _) index span, _ => by
      cases index <;>
        exact ((TypeExpr.accepts_requireArray base).bind (fun all => nomatch all.1)
          fun _ _ _ => .fail fun all => all.1).locate span
  | .unknown _ span, _ => (Build.Accepts.fail fun both => both.1).locate span
  termination_by structural expression => expression

theorem FieldDecl.accepts_elaborate (overwrites : scope.policy = .overwrite) :
    (field : FieldDecl) → ∀ (owner : String) (layout : Layout),
    Build.Accepts scope types held
      (¬ layout.contains field.name ∧ field.Valid types ∧ VariantDecl.Free held field.eithers)
      (·.name = field.name) (field.elaborate scope owner layout)
  | ⟨name, type, span⟩, owner, layout => by
      refine Build.Accepts.locate ?_ span
      refine .refuse And.left (.fail not_false) fun unseen => ?_
      exact (TypeExpr.accepts_elaborate overwrites type none).bind And.right
        fun built htype _ => .pure ⟨unseen, htype⟩ rfl
  termination_by structural field => field

theorem FieldDecl.accepts_elaborateList (overwrites : scope.policy = .overwrite) :
    (fields : List FieldDecl) → ∀ (owner : String) (layout : Layout),
    Build.Accepts scope types held
      (FreshNames layout.names (fields.map (·.name)) ∧ FieldDecl.AllValid types fields ∧
        VariantDecl.Free held (FieldDecl.eithersList fields))
      (fun _ => True) (FieldDecl.elaborateList scope owner layout fields)
  | [], _, _ => .pure ⟨by simp [FreshNames], trivial, VariantDecl.free_nil held⟩ trivial
  | field :: rest, owner, layout => by
      rw [List.map_cons, Layout.freshNames_cons, FieldDecl.AllValid, FieldDecl.eithersList,
        VariantDecl.free_append]
      refine (FieldDecl.accepts_elaborate overwrites field owner layout).bind ?_
        fun elaborated hfield hname => ?_
      · exact fun all => ⟨all.1.1, all.2.1.1, all.2.2.1⟩
      rw [hname]
      refine (FieldDecl.accepts_elaborateList overwrites rest owner _).bind ?_
        fun others hrest _ => ?_
      · exact fun all => ⟨all.1.2, all.2.1.2, all.2.2.2⟩
      · exact .pure ⟨⟨hfield.1, hrest.1⟩, ⟨hfield.2.1, hrest.2.1⟩, hfield.2.2, hrest.2.2⟩ trivial
  termination_by structural fields => fields

theorem VariantDecl.accepts_elaborate (overwrites : scope.policy = .overwrite) :
    (variant : VariantDecl) → ∀ (owner : String) (seen : List String),
    Build.Accepts scope types held
      (variant.name ∉ seen ∧ variant.Valid types ∧ VariantDecl.Free held variant.eithers)
      (Alternative.WrittenAs · variant) (variant.elaborate scope owner seen)
  | ⟨name, none, span⟩, owner, seen => by
      rw [VariantDecl.elaborate]
      refine .refuse And.left ((Build.Accepts.fail not_false).locate span) fun unseen => ?_
      exact .pure ⟨unseen, trivial, VariantDecl.free_nil held⟩ ⟨rfl, rfl⟩
  | ⟨name, some fields, span⟩, owner, seen => by
      rw [VariantDecl.elaborate]
      refine .refuse And.left ((Build.Accepts.fail not_false).locate span) fun unseen => ?_
      refine (FieldDecl.accepts_elaborateList overwrites fields name .empty).bind ?_
        fun _ hfields _ => ?_
      · exact fun all => ⟨freshNames_nil.2 all.2.1.1, all.2.1.2, all.2.2⟩
      · obtain ⟨hnames, hvalid, hfree⟩ := hfields
        exact .header fun header =>
          .pure ⟨unseen, ⟨freshNames_nil.1 hnames, hvalid⟩, hfree⟩ ⟨rfl, rfl⟩
  termination_by structural variant => variant

theorem VariantDecl.accepts_elaborateList (overwrites : scope.policy = .overwrite) :
    (variants : List VariantDecl) → ∀ (owner : String) (seen : List String),
    Build.Accepts scope types held
      (FreshNames seen (variants.map (·.name)) ∧ VariantDecl.AllValid types variants ∧
        VariantDecl.Free held (VariantDecl.eithersList variants))
      (List.Forall₂ Alternative.WrittenAs · variants)
      (VariantDecl.elaborateList scope owner seen variants)
  | [], _, _ => .pure ⟨by simp [FreshNames], trivial, VariantDecl.free_nil held⟩ .nil
  | variant :: rest, owner, seen => by
      rw [List.map_cons, freshNames_cons, VariantDecl.AllValid, VariantDecl.eithersList,
        VariantDecl.free_append]
      refine (VariantDecl.accepts_elaborate overwrites variant owner seen).bind ?_
        fun alternative hfirst hown => ?_
      · exact fun all => ⟨all.1.1, all.2.1.1, all.2.2.1⟩
      rw [hown.1]
      refine (VariantDecl.accepts_elaborateList overwrites rest owner _).bind ?_
        fun others hrest hothers => ?_
      · exact fun all => ⟨all.1.2, all.2.1.2, all.2.2.2⟩
      · exact .pure ⟨⟨hfirst.1, hrest.1⟩, ⟨hfirst.2.1, hrest.2.1⟩, hfirst.2.2, hrest.2.2⟩
          (.cons hown hothers)
  termination_by structural variants => variants

end

end

/-! In a valid expression no either type has two constants of one name, so names that
are bound twice are shared by two of them. -/

mutual

theorem TypeExpr.Valid.distinct {types : String → Option Ty} : {expression : TypeExpr} →
    expression.Valid types →
    ∀ variants ∈ expression.eithers, (variants.map (·.name)).Nodup
  | .alias .., _ | .range .., _ | .unknown .., _ => by simp [TypeExpr.eithers]
  | .record fields _, valid => FieldDecl.AllValid.distinct valid.2
  | .either variants _, valid => by
      rw [TypeExpr.eithers, List.forall_mem_append, List.forall_mem_singleton]
      exact ⟨VariantDecl.AllValid.distinct valid.2.2, valid.2.1⟩
  | .generic _ [element] (some index) _, valid => by
      rw [TypeExpr.eithers, TypeExpr.eithersList, TypeExpr.eithersList, List.append_nil,
        List.forall_mem_append]
      exact ⟨TypeExpr.Valid.distinct valid.2.1, TypeExpr.Valid.distinct valid.2.2.1⟩
  | .generic _ [] _ _, valid | .generic _ [_] none _, valid
  | .generic _ (_ :: _ :: _) _ _, valid => nomatch valid
  termination_by structural expression => expression

theorem FieldDecl.Valid.distinct {types : String → Option Ty} : {field : FieldDecl} →
    field.Valid types → ∀ variants ∈ field.eithers, (variants.map (·.name)).Nodup
  | ⟨_, _, _⟩, valid => TypeExpr.Valid.distinct valid
  termination_by structural field => field

theorem FieldDecl.AllValid.distinct {types : String → Option Ty} : {fields : List FieldDecl} →
    FieldDecl.AllValid types fields →
    ∀ variants ∈ FieldDecl.eithersList fields, (variants.map (·.name)).Nodup
  | [], _ => by simp [FieldDecl.eithersList]
  | _ :: _, valid => by
      rw [FieldDecl.eithersList, List.forall_mem_append]
      exact ⟨FieldDecl.Valid.distinct valid.1, FieldDecl.AllValid.distinct valid.2⟩
  termination_by structural fields => fields

theorem VariantDecl.Valid.distinct {types : String → Option Ty} : {variant : VariantDecl} →
    variant.Valid types → ∀ variants ∈ variant.eithers, (variants.map (·.name)).Nodup
  | ⟨_, none, _⟩, _ => by simp [VariantDecl.eithers]
  | ⟨_, some _, _⟩, valid => FieldDecl.AllValid.distinct valid.2
  termination_by structural variant => variant

theorem VariantDecl.AllValid.distinct {types : String → Option Ty} :
    {variants : List VariantDecl} → VariantDecl.AllValid types variants →
    ∀ inner ∈ VariantDecl.eithersList variants, (inner.map (·.name)).Nodup
  | [], _ => by simp [VariantDecl.eithersList]
  | _ :: _, valid => by
      rw [VariantDecl.eithersList, List.forall_mem_append]
      exact ⟨VariantDecl.Valid.distinct valid.1, VariantDecl.AllValid.distinct valid.2⟩
  termination_by structural variants => variants

end

namespace TypeExpr

variable {scope : Scope} {store : Store} {expression : TypeExpr}

/-- A strict frame takes what a valid expression binds exactly when all names are new
to it and no two either types share one. -/
theorem Valid.fresh_iff {types : String → Option Ty} (valid : expression.Valid types) :
    scope.Fresh store expression.bindings ↔
      VariantDecl.Free (scope.hasLocalVar store · = true) expression.eithers ∧
        expression.eithers.Pairwise fun first second =>
          (VariantDecl.constantNames first).Disjoint (VariantDecl.constantNames second) := by
  have htype : ∀ name, (Binding.constant name).typeName? = none := fun _ => rfl
  have hvar : ∀ name, (Binding.constant name).varName? = some name := fun _ => rfl
  have htypes : expression.bindings.filterMap Binding.typeName? = [] := by
    simp [bindings, VariantDecl.bindings_eq, List.filterMap_flatMap, htype]
  have hvars : expression.bindings.filterMap Binding.varName? =
      expression.eithers.flatMap VariantDecl.constantNames := by
    simp [bindings, VariantDecl.bindings_eq, List.filterMap_flatMap, hvar]
  have hdistinct : ∀ variants ∈ expression.eithers, (VariantDecl.constantNames variants).Nodup :=
    fun variants inside => (valid.distinct variants inside).sublist (List.filter_sublist.map _)
  have hunbound : (∀ name ∈ expression.eithers.flatMap VariantDecl.constantNames,
      name ∉ (store.frame scope.frame).vars.names) ↔
        VariantDecl.Free (scope.hasLocalVar store · = true) expression.eithers := by
    unfold VariantDecl.Free Scope.hasLocalVar
    simp only [List.forall_mem_flatMap, Bindings.contains_iff]
  constructor
  · rintro ⟨-, vars⟩
    rw [hvars] at vars
    exact ⟨hunbound.1 vars.2, (List.nodup_flatMap.1 vars.1).2⟩
  · rintro ⟨unbound, apart⟩
    refine ⟨by simp [htypes, FreshNames], ?_⟩
    rw [hvars]
    exact ⟨List.nodup_flatMap.2 ⟨hdistinct, apart⟩, hunbound.2 unbound⟩

theorem elaborate_ok_of_overwrite (overwrites : scope.policy = .overwrite)
    (settled : scope.Settled store) (name : Option String) :
    (∃ type, (Build.run (expression.elaborate scope name) store).1 = .ok type) ↔
      expression.Valid (scope.type? store) ∧
        VariantDecl.Free (scope.HoldsVariable store) expression.eithers := by
  have haccepts := expression.accepts_elaborate overwrites name store
    ⟨settled, fun _ => rfl, fun _ => Iff.rfl⟩
  rcases hrun : Build.run (expression.elaborate scope name) store with ⟨failure | type, after⟩
  · rw [hrun] at haccepts
    exact iff_of_false (by simp) haccepts
  · rw [hrun] at haccepts
    exact iff_of_true ⟨type, rfl⟩ haccepts.1

theorem elaborate_ok_of_reject (overwrites : scope.policy = .overwrite)
    (settled : scope.Settled store) (name : Option String) :
    (∃ type, (Build.run (expression.elaborate (scope.withPolicy .reject) name) store).1 =
        .ok type) ↔
      expression.Valid (scope.type? store) ∧
        expression.ConstantsFit (scope.withPolicy .reject) store := by
  have hok : (∃ type, (Build.run (expression.elaborate scope name) store).1 = .ok type) ↔
      expression.Valid (scope.type? store) ∧
        VariantDecl.Free (scope.HoldsVariable store) expression.eithers :=
    elaborate_ok_of_overwrite overwrites settled name
  have hfits : expression.Valid (scope.type? store) →
      (scope.Fresh store expression.bindings ↔
        expression.ConstantsFit (scope.withPolicy .reject) store) := fun valid => valid.fresh_iff
  have hroom : expression.ConstantsFit (scope.withPolicy .reject) store →
      VariantDecl.Free (scope.HoldsVariable store) expression.eithers :=
    fun fit variants inside constant own held => fit.1 variants inside constant own held.hasLocalVar
  rcases expression.lockstep_elaborate overwrites name store settled with
    ⟨hsame, hfresh⟩ | ⟨⟨failure, hfailure, -⟩, hstale⟩
  · constructor
    · rintro ⟨type, htype⟩
      have hvalid := (hok.1 ⟨type, hsame ▸ htype⟩).1
      exact ⟨hvalid, (hfits hvalid).1 (hfresh type htype)⟩
    · rintro ⟨valid, fit⟩
      rw [hsame]
      exact hok.2 ⟨valid, hroom fit⟩
  · refine iff_of_false (by simp [hfailure]) ?_
    rintro ⟨valid, fit⟩
    obtain ⟨type, htype⟩ := hok.2 ⟨valid, hroom fit⟩
    exact hstale type htype ((hfits valid).2 fit)

/-- An expression becomes a type exactly when it is valid, with what its type names
mean in the scope, and its constants fit the frame. -/
theorem elaborate_ok_iff (settled : scope.Settled store) (expression : TypeExpr)
    (name : Option String) :
    (∃ type, (Build.run (expression.elaborate scope name) store).1 = .ok type) ↔
      expression.Valid (scope.type? store) ∧ expression.ConstantsFit scope store := by
  obtain ⟨frame, outer, policy⟩ := scope
  cases policy with
  | overwrite => exact elaborate_ok_of_overwrite rfl settled name
  | reject =>
      have hlenient : (⟨frame, outer, .overwrite⟩ : Scope).Settled store :=
        ⟨settled.made, settled.bound⟩
      exact elaborate_ok_of_reject rfl hlenient name

/-- Two either types that share a constant fit a lenient frame and not a strict one. -/
theorem elaborate_ok_iff_shared :
    ∃ (store : Store) (expression : TypeExpr), store = { frames := #[{}] } ∧
      expression = .record [⟨"first", .either [⟨"A", none, .dummy⟩], .dummy⟩,
        ⟨"second", .either [⟨"A", none, .dummy⟩], .dummy⟩] ∧
      (∃ type, (Build.run (expression.elaborate ⟨0, [], .overwrite⟩ none) store).1 = .ok type) ∧
      ¬∃ type, (Build.run (expression.elaborate ⟨0, [], .reject⟩ none) store).1 = .ok type := by
  refine ⟨_, _, rfl, rfl, ?_, ?_⟩
  · refine (elaborate_ok_iff (Scope.settled_fresh {} [] .overwrite) _ none).2 ⟨⟨by decide, ?_⟩, ?_⟩
    · simp [FieldDecl.AllValid, FieldDecl.Valid, Valid, VariantDecl.AllValid, VariantDecl.Valid]
    · rintro variants - name - ⟨value, held, -⟩
      cases held
  · intro made
    obtain ⟨-, -, apart⟩ := (elaborate_ok_iff (Scope.settled_fresh {} [] .reject) _ none).1 made
    have hshared := List.rel_of_pairwise_cons apart List.mem_cons_self
    exact @hshared "A" (by decide) (by decide)

end TypeExpr

end StateModel
