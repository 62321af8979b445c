import StateModel.Proofs.Origins
import StateModel.Proofs.Registration
import StateModel.Proofs.Values

/-!
What elaboration does to a store, whether it ends well or not: in the frame of its
scope it binds constants of either types that it has just built, each in a new cell,
and nothing else changes. When it ends well, all constants that are written are bound.
-/
namespace StateModel

namespace Act

variable {scope : Scope} {store : Store} {act : Act}

def constant? : Act → Option Tag
  | .bind _ (.tag tag) => some tag
  | .number | .spare _ | .bind _ _ | .type _ _ => none

theorem types_apply (untyped : ∀ name built, act ≠ .type name built) (id : FrameId) :
    ((act.apply scope store).frame id).types = (store.frame id).types := by
  cases act with
  | number | spare => rfl
  | bind name value => exact Store.types_setVars _ _ _ _
  | type name built => exact absurd rfl (untyped name built)

theorem localVarNames_apply (made : scope.frame < store.frames.size) :
    scope.localVarNames store <+: scope.localVarNames (act.apply scope store) := by
  cases act with
  | number | spare => exact List.prefix_rfl
  | bind name value =>
      rw [localVarNames_bind made]
      split
      · exact List.prefix_rfl
      · exact List.prefix_append _ _
  | type name built =>
      refine ⟨[], ?_⟩
      rw [List.append_nil, Scope.localVarNames, Scope.localVarNames, frame_type made]

/-- Between the two stores the act counts a type, leaves a cell spare, or binds a
constant, under its own name, of an either type that is one of those written and got
its number in between. -/
def Registers (eithers : List (List VariantDecl)) (store after : Store) : Act → Prop
  | .number | .spare _ => True
  | .bind name value => ∃ tag, value = .tag tag ∧ tag.name = name ∧ tag.WrittenIn eithers ∧
      store.nextType ≤ tag.either.header.id ∧ tag.either.header.id < after.nextType
  | .type .. => False

theorem eq_of_constant? {eithers : List (List VariantDecl)} {after : Store} {tag : Tag}
    (registers : act.Registers eithers store after) (constant : act.constant? = some tag) :
    act = .bind tag.name (.tag tag) := by
  cases act with
  | number | spare | type => simp [constant?] at constant
  | bind name value =>
      obtain ⟨other, rfl, rfl, -⟩ := registers
      rw [Option.some.inj constant]

theorem Registers.mono {eithers : List (List VariantDecl)} {start last after : Store}
    (registers : act.Registers eithers store after) (earlier : start.nextType ≤ store.nextType)
    (later : after.nextType ≤ last.nextType) : act.Registers eithers start last := by
  cases act with
  | number | spare => trivial
  | type => exact registers
  | bind name value =>
      obtain ⟨tag, hvalue, hname, hwritten, hmade, hcounted⟩ := registers
      exact ⟨tag, hvalue, hname, hwritten, Nat.le_trans earlier hmade,
        Nat.lt_of_lt_of_le hcounted later⟩

end Act

namespace Scope.Performs

variable {scope : Scope} {store after : Store} {acts : List Act}

theorem types (performs : scope.Performs store acts after)
    (untyped : ∀ act ∈ acts, ∀ name built, act ≠ .type name built) (id : FrameId) :
    (after.frame id).types = (store.frame id).types := by
  induction performs with
  | done => rfl
  | act _ _ ih =>
      rw [List.forall_mem_cons] at untyped
      rw [ih untyped.2, Act.types_apply untyped.1]

theorem localVarNames (performs : scope.Performs store acts after)
    (made : scope.frame < store.frames.size) :
    scope.localVarNames store <+: scope.localVarNames after := by
  induction performs with
  | done => exact List.prefix_rfl
  | act _ _ ih => exact (Act.localVarNames_apply made).trans (ih (by simpa using made))

theorem localVar?_of_ne (performs : scope.Performs store acts after)
    (made : scope.frame < store.frames.size) {name : String}
    (unbound : ∀ value, .bind name value ∉ acts) :
    scope.localVar? after name = scope.localVar? store name := by
  induction performs with
  | done => rfl
  | @act store after act rest _ _ ih =>
      simp only [List.mem_cons, not_or] at unbound
      rw [ih (by simpa using made) fun value => (unbound value).2]
      exact Act.localVar?_apply_of_ne made fun value same => (unbound value).1 same.symm

theorem split {first rest : List Act} (performs : scope.Performs store (first ++ rest) after) :
    ∃ middle, scope.Performs store first middle ∧ scope.Performs middle rest after := by
  induction first generalizing store with
  | nil => exact ⟨store, .done store, performs⟩
  | cons act first ih =>
      cases performs with
      | act allowed performs =>
          obtain ⟨middle, hfirst, hrest⟩ := ih performs
          exact ⟨middle, .act allowed hfirst, hrest⟩

theorem localVar?_of_last {first rest : List Act} {name : String} {value : Value}
    (performs : scope.Performs store (first ++ .bind name value :: rest) after)
    (made : scope.frame < store.frames.size) (last : ∀ other, .bind name other ∉ rest) :
    ∃ cell, scope.localVar? after name = some cell ∧ store.cells.size ≤ cell ∧
      after.cell? cell = some value := by
  obtain ⟨middle, hfirst, hrest⟩ := performs.split
  have hmiddle : scope.frame < middle.frames.size := hfirst.size_frames ▸ made
  cases hrest with
  | act allowed hrest =>
      have hbound := hrest.localVar?_of_ne (by simpa using hmiddle) last
      rw [Act.localVar?_bind hmiddle, if_pos rfl] at hbound
      refine ⟨middle.cells.size, hbound, hfirst.size_cells, ?_⟩
      rw [hrest.cell? (by simp [Act.apply, Store.setFrame]), Act.cell?_bind]

end Scope.Performs

def Ty.either? : Ty → Option EitherType
  | .either type => some type
  | .range _ | .record _ | .array _ => none

namespace Origins

def eithers (origins : Origins) : List EitherType := origins.built.filterMap Ty.either?

@[simp] theorem eithers_append (first rest : Origins) :
    eithers (first ++ rest) = eithers first ++ eithers rest := by
  simp [eithers]

end Origins

def Build.Registers {α : Type} (scope : Scope) (eithers : List (List VariantDecl))
    (post : α → List EitherType → Prop) (work : Build α) : Prop :=
  ∀ store, scope.Settled store → ∃ acts, scope.Performs store acts (Build.run work store).2 ∧
    (∀ act ∈ acts, act.Registers eithers store (Build.run work store).2) ∧
    ∀ result, (Build.run work store).1 = .ok result → ∃ built,
      acts.filterMap Act.constant? = built.flatMap EitherType.constants ∧ post result built

namespace Build.Registers

variable {α β : Type} {scope : Scope} {eithers : List (List VariantDecl)}
  {post : α → List EitherType → Prop} {postNext : β → List EitherType → Prop}

theorem pure {result : α} (holds : post result []) :
    Build.Registers scope eithers post (pure result) := by
  intro store settled
  refine ⟨[], .done _, by simp, fun other hother => ⟨[], rfl, ?_⟩⟩
  rw [← Except.ok.inj hother]
  exact holds

theorem fail {problem : Problem} : Build.Registers scope eithers post (Build.fail problem) :=
  fun _ _ => ⟨[], .done _, by simp, by simp⟩

theorem bind {work : Build α} {next : α → Build β}
    (first : Build.Registers scope eithers post work)
    (rest : ∀ result built, post result built →
      Build.Registers scope eithers (fun last more => postNext last (built ++ more))
        (next result)) :
    Build.Registers scope eithers postNext (work >>= next) := by
  intro store settled
  obtain ⟨acts, hacts, hregisters, hpost⟩ := first store settled
  rw [Build.run_bind]
  rcases hrun : Build.run work store with ⟨failure | result, middle⟩
  · rw [hrun] at hacts hregisters
    exact ⟨acts, hacts, hregisters, by simp⟩
  · rw [hrun] at hacts hregisters hpost
    obtain ⟨built, hbuilt, hresult⟩ := hpost result rfl
    obtain ⟨more, hmore, hregistersMore, hpostMore⟩ :=
      rest result built hresult middle (hacts.settled settled)
    refine ⟨acts ++ more, hacts.append hmore, List.forall_mem_append.2 ⟨?_, ?_⟩, ?_⟩
    · exact fun act hact => (hregisters act hact).mono (Nat.le_refl _) hmore.nextType_le
    · exact fun act hact => (hregistersMore act hact).mono hacts.nextType_le (Nat.le_refl _)
    · intro last hlast
      obtain ⟨later, hlater, hall⟩ := hpostMore last hlast
      exact ⟨built ++ later, by rw [List.filterMap_append, hbuilt, hlater, List.flatMap_append],
        hall⟩

theorem weaken {work : Build α} {weaker : α → List EitherType → Prop}
    (registers : Build.Registers scope eithers post work)
    (implied : ∀ result built, post result built → weaker result built) :
    Build.Registers scope eithers weaker work := by
  intro store settled
  obtain ⟨acts, hacts, hregisters, hpost⟩ := registers store settled
  refine ⟨acts, hacts, hregisters, fun result hresult => ?_⟩
  obtain ⟨built, hbuilt, hall⟩ := hpost result hresult
  exact ⟨built, hbuilt, implied result built hall⟩

theorem locate {work : Build α} (registers : Build.Registers scope eithers post work)
    (span : Span) : Build.Registers scope eithers post (Build.locate span work) := by
  intro store settled
  obtain ⟨acts, hacts, hregisters, hpost⟩ := registers store settled
  refine ⟨acts, hacts, hregisters, fun result hresult => hpost result ?_⟩
  rw [Build.run_locate] at hresult
  exact Build.mapError_eq_ok.1 hresult

theorem refuse {condition : Prop} [Decidable condition] {refusal : Build Unit}
    {next : Unit → Build α}
    (refuses : Build.Registers scope eithers (fun _ _ => False) refusal)
    (rest : Build.Registers scope eithers post (next ())) :
    Build.Registers scope eithers post (if condition then refusal >>= next else next ()) := by
  split
  · exact refuses.bind fun _ _ impossible => impossible.elim
  · exact rest

theorem look {work : Build α} (still : ∀ store, (Build.run work store).2 = store) :
    Build.Registers scope eithers (fun _ built => built = []) work := by
  intro store settled
  rw [still store]
  exact ⟨[], .done store, by simp, fun _ _ => ⟨[], rfl, rfl⟩⟩

theorem header {name : Option String} {span : Span} {next : Header → Build α}
    (rest : ∀ header, Build.Registers scope eithers post (next header)) :
    Build.Registers scope eithers post (Store.newHeader name span >>= next) := by
  have hnumber : Build.Registers scope eithers (fun _ built => built = [])
      (Store.newHeader name span) := fun store _ =>
    ⟨[.number], .single (by simp [Act.Allowed]), by simp [Act.Registers],
      fun _ _ => ⟨[], rfl, rfl⟩⟩
  refine hnumber.bind fun header built none => ?_
  rw [none]
  exact rest header

theorem gives {known : α → Prop} {work : Build α}
    (registers : Build.Registers scope eithers post work) (gives : Build.Gives known work) :
    Build.Registers scope eithers (fun result built => known result ∧ post result built) work := by
  intro store settled
  obtain ⟨acts, hacts, hregisters, hpost⟩ := registers store settled
  refine ⟨acts, hacts, hregisters, fun result hresult => ?_⟩
  obtain ⟨built, hbuilt, hall⟩ := hpost result hresult
  exact ⟨built, hbuilt, gives store result _ (Prod.ext hresult rfl), hall⟩

end Build.Registers

theorem EitherType.either_of_mem_constants {type : EitherType} {tag : Tag}
    (inside : tag ∈ type.constants) : tag.either = type ∧ tag.variant.isConstant = true := by
  obtain ⟨hmem, hconstant⟩ := List.mem_filter.1 inside
  obtain ⟨index, rfl⟩ := List.mem_ofFn.1 hmem
  exact ⟨rfl, hconstant⟩

theorem EitherType.WrittenAs.registers_constants {type : EitherType}
    {variants : List VariantDecl} {eithers : List (List VariantDecl)} {store after : Store}
    {tags : List Tag} (written : type.WrittenAs variants) (inside : variants ∈ eithers)
    (own : tags ⊆ type.constants) (new : store.nextType ≤ type.header.id)
    (counted : type.header.id < after.nextType) :
    ∀ act ∈ tags.map fun tag => Act.bind tag.name (.tag tag),
      act.Registers eithers store after := by
  intro act hact
  obtain ⟨tag, htag, rfl⟩ := List.mem_map.1 hact
  obtain ⟨rfl, hconstant⟩ := EitherType.either_of_mem_constants (own htag)
  exact ⟨tag, rfl, rfl, ⟨hconstant, variants, inside, written⟩, new, counted⟩

theorem Build.Registers.either {scope : Scope} {eithers : List (List VariantDecl)}
    {first : Alternative} {rest : List Alternative} {variants : List VariantDecl}
    (written : List.Forall₂ Alternative.WrittenAs (first :: rest) variants)
    (distinct : ((first :: rest).map (·.name)).Nodup) (inside : variants ∈ eithers)
    (name : Option String) (span : Span) :
    Build.Registers scope eithers
      (fun type built => ∃ header, type = Ty.either (.ofAlternatives header first rest) ∧
        built = [.ofAlternatives header first rest])
      (do
        let type := EitherType.ofAlternatives (← Store.newHeader name span) first rest
        scope.bindConstants type
        return Ty.either type) := by
  intro store settled
  let type := EitherType.ofAlternatives ⟨store.nextType, name, span⟩ first rest
  let numbered : Store := { store with nextType := store.nextType + 1 }
  have hnumbered : scope.Settled numbered := Act.settled_number settled
  have hnumber : scope.Performs store [.number] numbered := .single (by simp [Act.Allowed])
  have hdistinct : (type.constants.map Tag.name).Nodup := by
    apply EitherType.nodup_constants
    rw [EitherType.names_ofAlternatives]
    exact distinct
  have hwritten : type.WrittenAs variants := EitherType.writtenAs_ofAlternatives _ written
  rw [Build.run_bind, Store.run_newHeader]
  dsimp only
  rw [Build.run_bind]
  rcases Scope.run_bindConstants hnumbered hdistinct with
    ⟨hfree, hdone⟩ | ⟨own, last, hrefuses, hstop⟩
  · have hacts := Scope.performs_bindAll hnumbered hfree
    rw [hdone]
    refine ⟨_, hnumber.append hacts, List.forall_mem_append.2 ⟨by simp [Act.Registers], ?_⟩, ?_⟩
    · exact hwritten.registers_constants inside (List.Subset.refl _) (Nat.le_refl _)
        hacts.nextType_le
    · rintro result ⟨⟩
      refine ⟨[type], ?_, _, rfl, rfl⟩
      have hconstants : Act.constant? ∘ (fun tag : Tag => .bind tag.name (.tag tag)) = some := rfl
      rw [List.filterMap_append, List.filterMap_map, hconstants, List.filterMap_some,
        List.flatMap_singleton]
      rfl
  · rw [hstop]
    cases hrefuses with
    | held => exact ⟨_, hnumber, by simp [Act.Registers], by simp⟩
    | @bound before tag later split strict free unbound bound =>
        have hbefore : before ⊆ type.constants := by simp [type, split]
        have hacts := Scope.performs_bindAll hnumbered fun other hother =>
          free other (hbefore hother)
        have hspare : (Act.spare (.tag tag)).Allowed scope (scope.bindAll before numbered) := by
          simp [Act.Allowed]
        refine ⟨_, (hnumber.append hacts).append (.single hspare), ?_, by simp⟩
        refine List.forall_mem_append.2 ⟨List.forall_mem_append.2 ⟨by simp [Act.Registers], ?_⟩,
          by simp [Act.Registers]⟩
        exact hwritten.registers_constants inside hbefore (Nat.le_refl _) hacts.nextType_le

section

variable (scope : Scope) (eithers : List (List VariantDecl))

theorem TypeExpr.registers_requireArray (base : String) :
    Build.Registers scope eithers (fun _ built => built = []) (TypeExpr.requireArray base) := by
  refine .look fun store => ?_
  unfold TypeExpr.requireArray
  split <;> rfl

theorem Ty.registers_arrayOf (element index : Ty) (name : Option String) (span place : Span) :
    Build.Registers scope eithers
      (fun type built => built = [] ∧ ∃ array, type = Ty.array array ∧ array.element = element ∧
        Ty.range array.index = index)
      (Ty.arrayOf (Store.newHeader name span) element index place) := by
  cases index with
  | record | either | array => exact Build.Registers.fail.locate place
  | range domain =>
      simp only [Ty.arrayOf]
      split
      · exact .header fun header => .pure ⟨rfl, _, rfl, rfl, rfl⟩
      · exact Build.Registers.fail.locate place

theorem Scope.registers_resolveType (name : String) :
    Build.Registers scope eithers (fun _ built => built = []) (scope.resolveType name) := by
  refine .look fun store => ?_
  rw [Scope.run_resolveType]
  split <;> rfl

mutual

theorem TypeExpr.registers_elaborate : (expression : TypeExpr) → expression.eithers ⊆ eithers →
    ∀ name : Option String, Build.Registers scope eithers
      (fun type built => built = Origins.eithers (expression.objects type) ∧
        List.Forall₂ EitherType.WrittenAs built expression.eithers)
      (expression.elaborate scope name)
  | .alias target span, _, _ => by
      refine Build.Registers.locate ?_ span
      refine (Scope.registers_resolveType scope eithers target).weaken fun type built none => ?_
      rw [none]
      exact ⟨rfl, .nil⟩
  | .range low high span, _, name => by
      refine Build.Registers.locate ?_ span
      split
      · exact .header fun header => .pure ⟨rfl, .nil⟩
      · exact .fail
  | .record fields span, inside, name => by
      refine Build.Registers.locate ?_ span
      refine (FieldDecl.registers_elaborateList fields inside _ .empty).bind ?_
      intro built made hmade
      refine .header fun header => .pure ?_
      rw [List.append_nil, TypeExpr.objects, Origins.eithers_append]
      exact ⟨hmade.1.trans (List.append_nil _).symm, hmade.2⟩
  | .either [] span, _, _ => Build.Registers.fail.locate span
  | .either (first :: rest) span, inside, name => by
      refine Build.Registers.locate ?_ span
      simp only [TypeExpr.eithers, VariantDecl.eithersList, List.append_subset] at inside
      refine ((VariantDecl.registers_elaborate first inside.1.1 _ []).gives
        (VariantDecl.gives_alternative scope _ [] first)).bind fun alternative made hfirst => ?_
      refine ((VariantDecl.registers_elaborateList rest inside.1.2 _ _).gives
        (VariantDecl.gives_alternatives scope _ rest [alternative.name])).bind
        fun alternatives others hrest => ?_
      have hwritten : List.Forall₂ Alternative.WrittenAs (alternative :: alternatives)
          (first :: rest) := .cons hfirst.1.1 hrest.1.1
      have hdistinct := FreshNames.cons hfirst.1.2 hrest.1.2
      refine (Build.Registers.either hwritten hdistinct.1 (by simpa using inside.2) name
        span).weaken ?_
      rintro type built ⟨header, rfl, rfl⟩
      obtain ⟨-, hmade, hmadeWritten⟩ := hfirst
      obtain ⟨-, hothers, hothersWritten⟩ := hrest
      rw [TypeExpr.objects, EitherType.payloads_ofAlternatives, List.map_cons,
        VariantDecl.objectsList, Origins.eithers_append, Origins.eithers_append, ← hmade,
        ← hothers, TypeExpr.eithers, VariantDecl.eithersList, List.append_assoc,
        List.append_assoc]
      have hown := EitherType.writtenAs_ofAlternatives header hwritten
      exact ⟨rfl, List.rel_append hmadeWritten (List.rel_append hothersWritten (.cons hown .nil))⟩
  | .generic base [element] (some index) span, inside, name => by
      refine Build.Registers.locate ?_ span
      simp only [TypeExpr.eithers, TypeExpr.eithersList, List.append_nil,
        List.append_subset] at inside
      refine (TypeExpr.registers_requireArray scope eithers base).bind fun _ start hstart => ?_
      refine (TypeExpr.registers_elaborate element inside.1 none).bind
        fun elementType made hmade => ?_
      refine (TypeExpr.registers_elaborate index inside.2 none).bind
        fun indexType more hmore => ?_
      refine (Ty.registers_arrayOf scope eithers elementType indexType name span _).weaken ?_
      rintro type last ⟨rfl, array, rfl, rfl, rfl⟩
      rw [hstart, TypeExpr.objects, TypeExpr.eithers, TypeExpr.eithersList, TypeExpr.eithersList,
        Origins.eithers_append, Origins.eithers_append, ← hmade.1, ← hmore.1, List.append_nil,
        List.append_nil, List.nil_append]
      exact ⟨(List.append_nil _).symm, List.rel_append hmade.2 hmore.2⟩
  | .generic base [_] none span, _, _ =>
      ((TypeExpr.registers_requireArray scope eithers base).bind fun _ _ _ => .fail).locate span
  | .generic base [] index span, _, _ => by
      cases index <;>
        exact ((TypeExpr.registers_requireArray scope eithers base).bind
          fun _ _ _ => .fail).locate span
  | .generic base (_ :: _ :: _) index span, _, _ => by
      cases index <;>
        exact ((TypeExpr.registers_requireArray scope eithers base).bind
          fun _ _ _ => .fail).locate span
  | .unknown _ span, _, _ => Build.Registers.fail.locate span
  termination_by structural expression => expression

theorem FieldDecl.registers_elaborate : (field : FieldDecl) → field.eithers ⊆ eithers →
    ∀ (owner : String) (layout : Layout), Build.Registers scope eithers
      (fun built made => made = Origins.eithers (field.objects built.type) ∧
        List.Forall₂ EitherType.WrittenAs made field.eithers)
      (field.elaborate scope owner layout)
  | ⟨name, type, span⟩, inside, owner, layout => by
      refine Build.Registers.locate ?_ span
      refine .refuse .fail ?_
      refine (TypeExpr.registers_elaborate type inside none).bind
        fun built made hmade => .pure ?_
      rw [List.append_nil]
      exact hmade
  termination_by structural field => field

theorem FieldDecl.registers_elaborateList : (fields : List FieldDecl) →
    FieldDecl.eithersList fields ⊆ eithers →
    ∀ (owner : String) (layout : Layout), Build.Registers scope eithers
      (fun built made =>
        made = Origins.eithers (FieldDecl.objectsList fields (built.1.map (·.type))) ∧
        List.Forall₂ EitherType.WrittenAs made (FieldDecl.eithersList fields))
      (FieldDecl.elaborateList scope owner layout fields)
  | [], _, _, _ => .pure ⟨rfl, .nil⟩
  | field :: rest, inside, owner, layout => by
      simp only [FieldDecl.eithersList, List.append_subset] at inside
      refine (FieldDecl.registers_elaborate field inside.1 owner layout).bind
        fun built made hmade => ?_
      refine (FieldDecl.registers_elaborateList rest inside.2 owner _).bind
        fun others more hmore => .pure ?_
      rw [List.append_nil, List.map_cons, FieldDecl.objectsList, Origins.eithers_append,
        ← hmade.1, ← hmore.1]
      exact ⟨rfl, List.rel_append hmade.2 hmore.2⟩
  termination_by structural fields => fields

theorem VariantDecl.registers_elaborate : (variant : VariantDecl) → variant.eithers ⊆ eithers →
    ∀ (owner : String) (seen : List String), Build.Registers scope eithers
      (fun built made => made = Origins.eithers (variant.objects built.payload) ∧
        List.Forall₂ EitherType.WrittenAs made variant.eithers)
      (variant.elaborate scope owner seen)
  | ⟨name, none, span⟩, _, owner, seen => by
      rw [VariantDecl.elaborate]
      exact .refuse (Build.Registers.fail.locate span) (.pure ⟨rfl, .nil⟩)
  | ⟨name, some fields, span⟩, inside, owner, seen => by
      rw [VariantDecl.elaborate]
      refine .refuse (Build.Registers.fail.locate span) ?_
      refine (FieldDecl.registers_elaborateList fields inside name .empty).bind
        fun built made hmade => ?_
      refine .header fun header => .pure ?_
      rw [List.append_nil, VariantDecl.objects, Origins.eithers_append]
      exact ⟨hmade.1.trans (List.append_nil _).symm, hmade.2⟩
  termination_by structural variant => variant

theorem VariantDecl.registers_elaborateList : (variants : List VariantDecl) →
    VariantDecl.eithersList variants ⊆ eithers →
    ∀ (owner : String) (seen : List String), Build.Registers scope eithers
      (fun built made =>
        made = Origins.eithers (VariantDecl.objectsList variants (built.map (·.payload))) ∧
        List.Forall₂ EitherType.WrittenAs made (VariantDecl.eithersList variants))
      (VariantDecl.elaborateList scope owner seen variants)
  | [], _, _, _ => .pure ⟨rfl, .nil⟩
  | variant :: rest, inside, owner, seen => by
      simp only [VariantDecl.eithersList, List.append_subset] at inside
      refine (VariantDecl.registers_elaborate variant inside.1 owner seen).bind
        fun built made hmade => ?_
      refine (VariantDecl.registers_elaborateList rest inside.2 owner _).bind
        fun others more hmore => .pure ?_
      rw [List.append_nil, List.map_cons, VariantDecl.objectsList, Origins.eithers_append,
        ← hmade.1, ← hmore.1]
      exact ⟨rfl, List.rel_append hmade.2 hmore.2⟩
  termination_by structural variants => variants

end

end

namespace Scope

structure Registered (scope : Scope) (eithers : List (List VariantDecl)) (store after : Store)
    (name : String) (tag : Tag) : Prop where
  named : tag.name = name
  written : tag.WrittenIn eithers
  numbered : store.nextType ≤ tag.either.header.id ∧ tag.either.header.id < after.nextType
  bound : ∃ cell, scope.localVar? after name = some cell ∧ store.cells.size ≤ cell ∧
    after.cell? cell = some (.tag tag)

/-- All that happens to the bindings: no frame but the innermost is written, and there
no type is bound, no name is given up, no variable is moved, and whatever name has got
another cell stands for a constant that is new. -/
structure OnlyRegisters (scope : Scope) (eithers : List (List VariantDecl))
    (store after : Store) : Prop where
  types : ∀ id, (after.frame id).types = (store.frame id).types
  outer : ∀ id, id ≠ scope.frame → after.frame id = store.frame id
  cells : ∀ cell, cell < store.cells.size → after.cell? cell = store.cell? cell
  names : scope.localVarNames store <+: scope.localVarNames after
  held : ∀ name, scope.HoldsVariable store name →
    scope.localVar? after name = scope.localVar? store name ∧
      scope.localValue? after name = scope.localValue? store name
  changed : ∀ name, scope.localVar? after name ≠ scope.localVar? store name →
    ∃ tag, scope.Registered eithers store after name tag

variable {scope : Scope} {eithers : List (List VariantDecl)} {store after : Store}
  {acts : List Act}

theorem Performs.registered {first rest : List Act} {name : String} {value : Value}
    (performs : scope.Performs store (first ++ .bind name value :: rest) after)
    (made : scope.frame < store.frames.size)
    (registers : (Act.bind name value).Registers eithers store after)
    (last : ∀ other, .bind name other ∉ rest) :
    ∃ tag, value = .tag tag ∧ scope.Registered eithers store after name tag := by
  obtain ⟨tag, rfl, hname, hwritten, hnumbered⟩ := registers
  exact ⟨tag, rfl, hname, hwritten, hnumbered, performs.localVar?_of_last made last⟩

theorem Performs.onlyRegisters (performs : scope.Performs store acts after)
    (settled : scope.Settled store)
    (registers : ∀ act ∈ acts, act.Registers eithers store after) :
    scope.OnlyRegisters eithers store after where
  types := by
    refine performs.types fun act hact name built same => ?_
    have htype := registers act hact
    rw [same] at htype
    exact htype
  outer := fun id other => performs.frame_of_ne other
  cells := fun cell old => performs.cell? old
  names := performs.localVarNames settled.made
  held := by
    intro name held
    have hother : .variable name ∉ acts.filterMap Act.binding? := by
      intro declared
      obtain ⟨act, hact, hbinding⟩ := List.mem_filterMap.1 declared
      have hregisters := registers act hact
      cases act with
      | number | spare | type => simp [Act.binding?] at hbinding
      | bind bound value =>
          obtain ⟨tag, rfl, -⟩ := hregisters
          simp [Act.binding?, Value.isTag] at hbinding
    exact ⟨performs.localVar?_of_holds settled held hother,
      performs.localValue?_of_holds settled held hother⟩
  changed := by
    intro name moved
    have hbinds : ∃ act ∈ acts, ∃ value, act = .bind name value := by
      by_contra none
      refine moved (performs.localVar?_of_ne settled.made fun value inside => none ?_)
      exact ⟨_, inside, value, rfl⟩
    obtain ⟨first, act, rest, rfl, ⟨value, rfl⟩, hlast⟩ := exists_last_of hbinds
    obtain ⟨tag, -, hregistered⟩ := performs.registered settled.made
      (registers _ (by simp)) fun other inside => hlast _ inside ⟨other, rfl⟩
    exact ⟨tag, hregistered⟩

end Scope

theorem Scope.Performs.registered_of_last {scope : Scope} {eithers : List (List VariantDecl)}
    {store after : Store} {acts : List Act} {tag : Tag} {first rest : List Tag}
    (performs : scope.Performs store acts after) (made : scope.frame < store.frames.size)
    (registers : ∀ act ∈ acts, act.Registers eithers store after)
    (constants : acts.filterMap Act.constant? = first ++ tag :: rest)
    (last : ∀ other ∈ rest, other.name ≠ tag.name) :
    scope.Registered eithers store after tag.name tag := by
  obtain ⟨front, back, rfl, -, hback⟩ := List.filterMap_eq_append_iff.1 constants
  obtain ⟨skipped, act, later, rfl, -, hact, hlater⟩ := List.filterMap_eq_cons_iff.1 hback
  have hown := registers act (by simp)
  obtain rfl := Act.eq_of_constant? hown hact
  have hnone : ∀ value, .bind tag.name value ∉ later := by
    intro value inside
    have hregisters := registers (.bind tag.name value) (by simp [inside])
    obtain ⟨other, rfl, hother, -⟩ := hregisters
    refine last other ?_ hother
    rw [← hlater]
    exact List.mem_filterMap.2 ⟨_, inside, rfl⟩
  rw [← List.append_assoc] at performs
  obtain ⟨same, hsame, hregistered⟩ := performs.registered made hown hnone
  cases hsame
  exact hregistered

/-- The tag is the constant of this name in the last of the either types that has one. -/
def EitherType.LastConstant (built : List EitherType) (name : String) (tag : Tag) : Prop :=
  ∃ before later, built = before ++ tag.either :: later ∧ tag ∈ tag.either.constants ∧
    tag.name = name ∧ ∀ other ∈ later, ∀ constant ∈ other.constants, constant.name ≠ name

theorem EitherType.exists_lastConstant {built : List EitherType} {name : String}
    (named : ∃ type ∈ built, ∃ tag ∈ type.constants, tag.name = name) :
    ∃ tag first rest, EitherType.LastConstant built name tag ∧
      built.flatMap EitherType.constants = first ++ tag :: rest ∧
      ∀ other ∈ rest, other.name ≠ tag.name := by
  obtain ⟨before, type, later, rfl, hown, hlater⟩ := exists_last_of named
  obtain ⟨earlier, tag, others, hsplit, rfl, hothers⟩ := exists_last_of hown
  have hinside : tag ∈ type.constants := by simp [hsplit]
  obtain ⟨rfl, -⟩ := EitherType.either_of_mem_constants hinside
  refine ⟨tag, before.flatMap EitherType.constants ++ earlier,
    others ++ later.flatMap EitherType.constants, ⟨before, later, rfl, hinside, rfl, ?_⟩, ?_, ?_⟩
  · exact fun other hother constant hconstant same =>
      hlater other hother ⟨constant, hconstant, same⟩
  · simp [hsplit]
  · intro other hother
    rcases List.mem_append.1 hother with here | after
    · exact hothers other here
    · obtain ⟨type, htype, hconstant⟩ := List.mem_flatMap.1 after
      exact fun same => hlater type htype ⟨other, hconstant, same⟩

namespace TypeExpr

theorem exists_constant {built : List EitherType} {eithers : List (List VariantDecl)}
    (written : List.Forall₂ EitherType.WrittenAs built eithers) {variants : List VariantDecl}
    (inside : variants ∈ eithers) {name : String}
    (constant : name ∈ VariantDecl.constantNames variants) :
    ∃ type ∈ built, ∃ tag ∈ type.constants, tag.name = name := by
  induction written with
  | nil => exact nomatch inside
  | @cons type first built rest hfirst _ ih =>
      rcases List.mem_cons.1 inside with rfl | later
      · rw [← hfirst.names_eq] at constant
        obtain ⟨tag, htag, hname⟩ := List.mem_map.1 constant
        exact ⟨type, List.mem_cons_self, tag, htag, hname⟩
      · obtain ⟨other, hother, hconstant⟩ := ih later
        exact ⟨other, List.mem_cons_of_mem _ hother, hconstant⟩

theorem pairwise_eithers {scope : Scope} {store after : Store} {origins : Origins}
    (accounts : scope.Accounts store after origins) :
    origins.eithers.Pairwise fun first later => first.header.id < later.header.id := by
  have hnumbers : (origins.built.map Ty.id).Pairwise (· < ·) := by
    rw [accounts.numbered]
    exact List.pairwise_lt_range'
  refine (List.pairwise_map.1 hnumbers).filterMap _ fun first later before => ?_
  intro earlier hearlier last hlast
  cases first <;> cases hearlier
  cases later <;> cases hlast
  exact before

/-- Whether the expression becomes a type or not, only constants are registered. When
it does, its either types are numbered in the order in which they are written, parts
before wholes, and every name of a constant in them stands for that of the last of them
that has one of this name. -/
theorem elaborate_registers {scope : Scope} {store after : Store} (settled : scope.Settled store)
    (expression : TypeExpr) (name : Option String) {result : Except Failure Ty}
    (ran : Build.run (expression.elaborate scope name) store = (result, after)) :
    scope.OnlyRegisters expression.eithers store after ∧
      ∀ type, result = .ok type → ∃ built : List EitherType,
        built = Origins.eithers (expression.objects type) ∧
        List.Forall₂ EitherType.WrittenAs built expression.eithers ∧
        built.Pairwise (fun first later => first.header.id < later.header.id) ∧
        ∀ variants ∈ expression.eithers, ∀ constant ∈ VariantDecl.constantNames variants,
          ∃ tag, EitherType.LastConstant built constant tag ∧
            scope.Registered expression.eithers store after constant tag := by
  obtain ⟨acts, hacts, hregisters, hpost⟩ := expression.registers_elaborate scope
    expression.eithers (List.Subset.refl _) name store settled
  rw [ran] at hacts hregisters hpost
  refine ⟨hacts.onlyRegisters settled hregisters, ?_⟩
  rintro type rfl
  obtain ⟨built, hbuilt, hobjects, hwritten⟩ := hpost type rfl
  refine ⟨built, hobjects, hwritten, ?_, fun variants inside constant own => ?_⟩
  · rw [hobjects]
    exact pairwise_eithers (accounts_elaborate ran).1
  · obtain ⟨tag, first, rest, hlast, hsplit, hrest⟩ :=
      EitherType.exists_lastConstant (exists_constant hwritten inside own)
    have hregistered := hacts.registered_of_last settled.made hregisters
      (hbuilt.trans hsplit) hrest
    obtain ⟨-, -, -, -, rfl, -⟩ := id hlast
    exact ⟨tag, hlast, hregistered⟩

theorem elaborate_registers_second :
    ∃ (scope : Scope) (expression : TypeExpr) (store after : Store) (type : Ty) (tag : Tag),
      scope = ⟨0, [], .overwrite⟩ ∧ store = { frames := #[{}] } ∧
      expression = .record [⟨"first", .either [⟨"A", none, .dummy⟩], .dummy⟩,
        ⟨"second", .either [⟨"A", none, .dummy⟩, ⟨"B", none, .dummy⟩], .dummy⟩] ∧
      Build.run (expression.elaborate scope none) store = (.ok type, after) ∧
      scope.OnlyRegisters expression.eithers store after ∧
      scope.Registered expression.eithers store after "A" tag ∧ tag.either.header.id = 1 := by
  let expression : TypeExpr := .record [⟨"first", .either [⟨"A", none, .dummy⟩], .dummy⟩,
    ⟨"second", .either [⟨"A", none, .dummy⟩, ⟨"B", none, .dummy⟩], .dummy⟩]
  have ran : Build.run (expression.elaborate ⟨0, [], .overwrite⟩ none) { frames := #[{}] } =
      (.ok _, _) := rfl
  obtain ⟨honly, hok⟩ :=
    elaborate_registers (Scope.settled_fresh {} [] .overwrite) expression none ran
  obtain ⟨built, -, -, -, hnames⟩ := hok _ rfl
  obtain ⟨tag, -, hregistered⟩ := hnames [⟨"A", none, .dummy⟩]
    (by simp [expression, eithers, FieldDecl.eithersList, FieldDecl.eithers]) "A" (by decide)
  refine ⟨_, expression, _, _, _, tag, rfl, rfl, rfl, ran, honly, hregistered, ?_⟩
  obtain ⟨cell, hcell, -, hvalue⟩ := hregistered.bound
  cases hcell
  cases hvalue
  rfl

end TypeExpr

end StateModel
