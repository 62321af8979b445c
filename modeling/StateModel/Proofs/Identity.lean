import StateModel.Value.Equality
import StateModel.Proofs.Origins
import StateModel.Proofs.SessionRuns

/-!
Types are told apart by identity. Whatever a client does, each type that is
built is none of those before it, and what is the same is one type in every
respect. Values of different types are never equal, however alike the types are.
-/
namespace StateModel

inductive Ty.Inside : Ty → Ty → Prop
  | field {type : RecordType} {field : Field} :
      field ∈ type.fields → Inside field.type (.record type)
  | payload {type : EitherType} {variant : Variant} {payload : RecordType} :
      variant ∈ type.variants → variant.payload = some payload →
        Inside (.record payload) (.either type)
  | element (type : ArrayType) : Inside type.element (.array type)
  | index (type : ArrayType) : Inside (.range type.index) (.array type)
  | trans {inner middle outer : Ty} : Inside inner middle → Inside middle outer →
      Inside inner outer

namespace Ty

variable {inner outer : Ty}

theorem Inside.sizeOf_lt (inside : inner.Inside outer) : sizeOf inner < sizeOf outer := by
  induction inside with
  | @field type field hfield =>
      have hsize := List.sizeOf_lt_of_mem hfield
      obtain ⟨header, fields, layout⟩ := type
      obtain ⟨name, type⟩ := field
      simp only [Ty.record.sizeOf_spec, RecordType.mk.sizeOf_spec, Field.mk.sizeOf_spec] at *
      omega
  | @payload type variant payload hvariant hpayload =>
      have hsize := List.sizeOf_lt_of_mem hvariant
      obtain ⟨header, first, rest⟩ := type
      obtain ⟨name, index, parent, _⟩ := variant
      cases hpayload
      simp only [EitherType.variants, List.cons.sizeOf_spec, Ty.record.sizeOf_spec,
        Ty.either.sizeOf_spec, EitherType.mk.sizeOf_spec, Variant.mk.sizeOf_spec,
        Option.some.sizeOf_spec] at *
      omega
  | element type =>
      obtain ⟨header, element, index, small⟩ := type
      simp only [Ty.array.sizeOf_spec, ArrayType.mk.sizeOf_spec]
      omega
  | index type =>
      obtain ⟨header, element, index, small⟩ := type
      simp only [Ty.array.sizeOf_spec, ArrayType.mk.sizeOf_spec, Ty.range.sizeOf_spec]
      omega
  | trans _ _ first rest => exact Nat.lt_trans first rest

theorem Inside.knows {catalog : Catalog} (sound : catalog.Sound) (inside : inner.Inside outer)
    (knows : catalog.Knows outer) : catalog.Knows inner := by
  induction inside with
  | field hfield => exact knows.field hfield
  | payload hvariant hpayload => exact knows.payload hvariant hpayload
  | element => exact knows.element
  | index => exact sound.knows_part knows (ArrayType.mem_parts.2 (.inr (.inl rfl)))
  | trans _ _ first rest => exact first (rest knows)

theorem same_eq_false_iff : inner.same outer = false ↔ inner.id ≠ outer.id := by
  rw [Bool.eq_false_iff, ne_eq, same_iff]

theorem same_equivalence : Equivalence fun left right : Ty => left.same right = true where
  refl type := by simp
  symm same := by simp_all
  trans first rest := by simp_all

end Ty

/-! Values and the types they belong to. -/

theorem Tag.id_of_same {left right : Tag} (same : left.same right = true) :
    left.either.header.id = right.either.header.id :=
  eq_of_beq (Bool.and_eq_true_iff.1 same).1

theorem Value.same_of_equals {left right : Value} (equal : left.equals right = true) :
    left.type.same right.type = true := by
  rw [Ty.same_iff]
  cases left with
  | range left =>
      cases right <;> simp only [Value.equals, Bool.false_eq_true] at equal
      exact eq_of_beq (Bool.and_eq_true_iff.1 equal).1
  | record left =>
      cases right <;> simp only [Value.equals, Bool.false_eq_true] at equal
      obtain ⟨type, children⟩ := left
      exact eq_of_beq (Bool.and_eq_true_iff.1 equal).1
  | either left =>
      cases right <;> simp only [Value.equals, Bool.false_eq_true] at equal
      obtain ⟨tag, _ | payload⟩ := left
      · exact Tag.id_of_same (Bool.and_eq_true_iff.1 equal).1
      · exact Tag.id_of_same (Bool.and_eq_true_iff.1 equal).1
  | tag left =>
      cases right <;> simp only [Value.equals, Bool.false_eq_true] at equal
      exact Tag.id_of_same equal
  | array left =>
      cases right <;> simp only [Value.equals, Bool.false_eq_true] at equal
      obtain ⟨type, items⟩ := left
      exact eq_of_beq (Bool.and_eq_true_iff.1 equal).1

theorem EitherValue.assign_of_not_same {target : EitherValue} {source : Value}
    (different : (Ty.either target.type).same source.type = false) :
    target.assign source = .error (.typeMismatch target.type.text source.type.text) := by
  have hforeign : ∀ tag : Tag, (Ty.either target.type).same (.either tag.either) = false →
      tag.belongsTo target.type = false := by
    intro tag hdifferent
    rw [Bool.eq_false_iff] at hdifferent ⊢
    exact fun belongs => hdifferent (Ty.same_iff.2 (eq_of_beq belongs).symm)
  unfold EitherValue.assign
  cases source with
  | range | record | array => rfl
  | either other =>
      simp only [hforeign other.tag different]
      rfl
  | tag tag =>
      simp only [hforeign tag different]
      rfl

namespace Session

/-- The types that there are: those that the client holds, those that a frame
binds, those of values, and those inside others. -/
inductive HasType (session : Session) : Ty → Prop
  | held {type : Ty} : type ∈ session.types → HasType session type
  | bound {frame : FrameId} {name : String} {type : Ty} :
      (session.store.frame frame).types.find? name = some type → HasType session type
  | value {root : Root} {path : Path} {value part : Value} :
      session.find? root = some value → value.get path = .ok part → HasType session part.type
  | payload {root : Root} {path : Path} {value : Value} {either : EitherValue}
      {payload : RecordValue} :
      session.find? root = some value → value.get path = .ok (.either either) →
        either.payload = some payload → HasType session (.record payload.type)
  | inside {inner outer : Ty} : inner.Inside outer → HasType session outer → HasType session inner

theorem Valid.type_of_hasType {session : Session} {catalog : Catalog}
    (valid : session.Valid catalog) {type : Ty} (has : session.HasType type) :
    catalog.Knows type := by
  induction has with
  | held htype => exact valid.types _ htype
  | bound hbound => exact valid.covers.types _ _ _ hbound
  | value hfound hpart => exact ((valid.root_held hfound).get hpart).2
  | payload hfound hpart hpayload =>
      exact (((valid.root_held hfound).get hpart).payload hpayload).2
  | inside hinside _ ih => exact hinside.knows valid.covers.sound ih

end Session

/-- What comes of making a type of an expression: an object for each of its nodes.
Those that it builds are all different and none of those that existed, and the
others are what the scope has. -/
structure TypeExpr.Makes (expression : TypeExpr) (scope : Scope) (store : Store)
    (existed : Ty → Prop) (type : Ty) : Prop where
  nodes : (expression.objects type).map Prod.fst = expression.nodes
  fresh : ∀ object ∈ (expression.objects type).built, ∀ old, existed old →
    object.same old = false
  distinct : (expression.objects type).built.Pairwise fun first second =>
    first.same second = false
  aliased : ∀ target object, (.alias target, object) ∈ expression.objects type →
    scope.type? store target = some object
  whole : (∀ target span, expression ≠ .alias target span) →
    type ∈ (expression.objects type).built

theorem TypeExpr.makes_of_bound {expression : TypeExpr} {scope : Scope} {name : Option String}
    {store after : Store} {type : Ty} {existed : Ty → Prop}
    (old : ∀ type, existed type → type.id < store.nextType)
    (ran : Build.run (expression.elaborate scope name) store = (.ok type, after)) :
    expression.Makes scope store existed type := by
  obtain ⟨haccounts, hnodes⟩ := TypeExpr.accounts_elaborate ran
  have hnumber : ∀ object ∈ (expression.objects type).built, store.nextType ≤ object.id := by
    intro object hobject
    have hid := List.mem_map_of_mem (f := Ty.id) hobject
    rw [haccounts.numbered, List.mem_range'_1] at hid
    exact hid.1
  refine ⟨hnodes, fun object hobject other hother => ?_, ?_, haccounts.aliased,
    TypeExpr.mem_built_self hnodes⟩
  · have hnew := hnumber object hobject
    have hold := old other hother
    rw [Ty.same_eq_false_iff]
    exact Nat.ne_of_gt (Nat.lt_of_lt_of_le hold hnew)
  · have hdistinct : ((expression.objects type).built.map Ty.id).Nodup := by
      rw [haccounts.numbered]
      exact List.nodup_range'
    refine (List.pairwise_map.1 hdistinct).imp fun different => ?_
    rw [Ty.same_eq_false_iff]
    exact different

/-! Declarations that mention their own names. -/

section

variable {scope : Scope} {name : String} {expression : TypeExpr} {span : Span}
  {store after : Store}

theorem Decl.run_declare_type {contribution : Contribution} :
    Build.run ((Decl.type name expression span).declare scope) store = (.ok contribution, after) ↔
      ∃ type middle, Build.run (expression.elaborate scope (some name)) store = (.ok type, middle) ∧
        contribution = .type ∧ Build.run (scope.bindType name type) middle = (.ok (), after) := by
  unfold Decl.declare
  rw [Build.run_locate_eq_ok, Build.run_bind_eq_ok]
  simp only [Build.run_thenReturn_eq_ok]

theorem Decl.run_declare_type_of_error {failure : Failure}
    (failed : (Build.run (expression.elaborate scope (some name)) store).1 = .error failure) :
    (Build.run ((Decl.type name expression span).declare scope) store).1 =
      .error (failure.located span) := by
  unfold Decl.declare
  rw [Build.run_locate, Build.run_bind]
  rcases hrun : Build.run (expression.elaborate scope (some name)) store with ⟨other | type, middle⟩
  · rw [hrun] at failed
    cases failed
    rfl
  · rw [hrun] at failed
    exact nomatch failed

theorem Scope.type?_of_bindType (made : scope.frame < store.frames.size) {type : Ty}
    (bound : Build.run (scope.bindType name type) store = (.ok (), after)) :
    scope.type? after name = some type := by
  rw [Scope.run_bindType] at bound
  dsimp only at bound
  split at bound
  · cases bound
  · cases bound
    unfold Scope.type? Scope.frames
    rw [List.findSome?_cons, Store.frame_setFrame_self made, Bindings.find?_put_self]

theorem Decl.declare_own_name (settled : scope.Settled store) {contribution : Contribution}
    (mentioned : .alias name ∈ expression.nodes) {previous : Ty}
    (bound : scope.type? store name = some previous)
    (declared : Build.run ((Decl.type name expression span).declare scope) store =
      (.ok contribution, after)) :
    ∃ type, scope.type? after name = some type ∧
      (.alias name, previous) ∈ expression.objects type := by
  obtain ⟨type, middle, hbuilt, -, hbind⟩ := Decl.run_declare_type.1 declared
  obtain ⟨haccounts, hnodes⟩ := TypeExpr.accounts_elaborate hbuilt
  rw [← hnodes] at mentioned
  obtain ⟨⟨origin, object⟩, hobject, rfl⟩ := List.mem_map.1 mentioned
  have hprevious := haccounts.aliased name object hobject
  rw [bound] at hprevious
  cases hprevious
  obtain ⟨acts, hacts, -, -⟩ := TypeExpr.traced_elaborate scope expression.eithers expression
    (List.Subset.refl _) (some name) store settled
  rw [hbuilt] at hacts
  exact ⟨type, Scope.type?_of_bindType (hacts.size_frames ▸ settled.made) hbind, hobject⟩

theorem Decl.declare_own_name_unbound (mentioned : .alias name ∈ expression.nodes)
    (unbound : scope.type? store name = none) :
    ∃ failure, (Build.run ((Decl.type name expression span).declare scope) store).1 =
        .error failure ∧
      (failure.problem = .unknownType name ∨ ∀ type,
        (Build.run ((Decl.type name expression span).declare scope)
          (Build.run (scope.bindType name type) store).2).1 = .error failure) := by
  obtain ⟨failure, hfailed, hreason⟩ :=
    TypeExpr.elaborate_unbound (some name) mentioned unbound
  refine ⟨failure.located span, Decl.run_declare_type_of_error hfailed, ?_⟩
  rcases hreason with unknown | hwhatever
  · left
    rw [Failure.located_problem]
    exact unknown
  · right
    intro type
    exact Decl.run_declare_type_of_error (hwhatever _ (Scope.lacks_bindType unbound type))

end

namespace Session

/-- Whatever a client does: a type that is made is made of new objects and of what
the scope has, and an alias is what the scope has. Types that are the same are one
type, then and later, and no type is inside itself. A declaration that mentions
its own name means by it what the scope had before. Values of types that are not
the same are not equal, and none is assigned to an either value of the other.
A load of fewer declarations is an operation too, so the operations lead to every
store that a load passes through. -/
theorem types_by_identity (ops more : List Op) :
    (∀ (scope : Scope) name (expression : TypeExpr) type after,
      Build.run (expression.elaborate scope name) (run (ops ++ more)).store = (.ok type, after) →
        expression.Makes scope (run (ops ++ more)).store (run ops).HasType type) ∧
    (∀ (scope : Scope) name target span,
      Build.run ((TypeExpr.alias target span).elaborate scope name) (run ops).store =
        match scope.type? (run ops).store target with
        | some type => (.ok type, (run ops).store)
        | none =>
            (.error (Failure.located span { problem := .unknownType target }), (run ops).store)) ∧
    (∀ left right, (run ops).HasType left → (run (ops ++ more)).HasType right →
      left.same right = true → left = right) ∧
    (Equivalence fun left right : Ty => left.same right = true) ∧
    (∀ inner outer : Ty, (run ops).HasType outer → inner.Inside outer →
      inner.same outer = false) ∧
    (∀ scope ∈ (run ops).scopes, ∀ name expression span, .alias name ∈ expression.nodes →
      match scope.type? (run ops).store name with
      | some previous => ∀ contribution after,
          Build.run ((Decl.type name expression span).declare scope) (run ops).store =
            (.ok contribution, after) →
          ∃ type, scope.type? after name = some type ∧
            (.alias name, previous) ∈ expression.objects type
      | none => ∃ failure,
          (Build.run ((Decl.type name expression span).declare scope) (run ops).store).1 =
            .error failure ∧
          (failure.problem = .unknownType name ∨ ∀ type,
            (Build.run ((Decl.type name expression span).declare scope)
              (Build.run (scope.bindType name type) (run ops).store).2).1 = .error failure)) ∧
    (∀ left right : Value, left.type.same right.type = false → left.equals right = false) ∧
    ∀ (target : EitherValue) source, (Ty.either target.type).same source.type = false →
      target.assign source = .error (.typeMismatch target.type.text source.type.text) := by
  obtain ⟨catalog, hvalid⟩ := valid_run ops
  obtain ⟨larger, hlarger, hlater, -⟩ := hvalid.leads_runFrom more
  rw [← run_append] at hlater
  have hknown : ∀ type, (run ops).HasType type → larger.Knows type := fun type has =>
    (hvalid.type_of_hasType has).mono hlarger
  refine ⟨?_, ?_, ?_, Ty.same_equivalence, ?_, ?_, ?_, ?_⟩
  · intro scope name expression type after ran
    refine TypeExpr.makes_of_bound (fun old has => ?_) ran
    rw [← hlater.covers.count]
    exact (List.getElem?_eq_some_iff.1 (hknown old has).self).1
  · intro scope name target span
    rw [TypeExpr.elaborate, Build.run_locate, Scope.run_resolveType]
    cases scope.type? (run ops).store target <;> rfl
  · intro left right hasLeft hasRight same
    exact (hknown left hasLeft).eq_of_id (hlater.type_of_hasType hasRight) (Ty.same_iff.1 same)
  · intro inner outer has inside
    rw [Ty.same_eq_false_iff]
    intro same
    have hinner := hvalid.type_of_hasType (.inside inside has)
    have heq := hinner.eq_of_id (hvalid.type_of_hasType has) same
    exact absurd inside.sizeOf_lt (by rw [heq]; exact Nat.lt_irrefl _)
  · intro scope hscope name expression span mentioned
    have hsettled : scope.Settled (run ops).store :=
      hvalid.settled.scope (hvalid.scopes scope hscope scope.frame List.mem_cons_self)
    split
    · next previous bound =>
      exact fun contribution after => Decl.declare_own_name hsettled mentioned bound
    · next unbound => exact Decl.declare_own_name_unbound mentioned unbound
  · intro left right different
    rw [Bool.eq_false_iff] at different ⊢
    exact fun equal => different (Value.same_of_equals equal)
  · exact fun target source => EitherValue.assign_of_not_same

example : (run [.newScope, .makeType 0 (some "A") (.range 0 9), .makeType 0 (some "A") (.range 0 9),
    .bindType 0 "A" 0, .makeType 0 (some "B") (.alias "A")]).types.map Ty.id = [0, 1, 0] := rfl

end Session

end StateModel
