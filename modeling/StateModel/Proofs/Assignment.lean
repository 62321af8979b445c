import StateModel.Proofs.Locality
import StateModel.Proofs.Observation

/-!
Assignment of whole values. Whether a value takes what it is given, and what becomes of
it then, is decided by its type and by what is given. Of what it held before nothing is
left, so to give it the same again changes nothing, and no earlier payload comes back.
-/
namespace StateModel

namespace Value

/-- A range takes the integers within its own bounds, and an either takes the values and
the tags of the very type that it is of. -/
def Admits : Value → Mutation → Prop
  | .range own, .assignInt number => own.type.low ≤ number ∧ number ≤ own.type.high
  | .range own, .assign (.range given) =>
      own.type.low ≤ given.number ∧ given.number ≤ own.type.high
  | .either own, .assign (.either given) => given.type = own.type
  | .either own, .assign (.tag constant) => constant.either = own.type
  | _, _ => False

def refusal : Value → Mutation → Problem
  | .range own, .assignInt number =>
      .outOfRange number own.type.low own.type.high own.type.text
  | .range own, .assign (.range given) =>
      .outOfRange given.number own.type.low own.type.high own.type.text
  | target, .assignInt number => .typeMismatch target.type.text number.toInt.repr
  | target, .assign source => .typeMismatch target.type.text source.type.text

/-- What stands in the place of a value that has taken what it is given: a range of the
same type, or else the source, where a tag stands for its variant with a new payload. -/
def replaced : Value → Mutation → Value
  | .range own, .assignInt number => .range ⟨own.type, number⟩
  | .range own, .assign (.range given) => .range ⟨own.type, given.number⟩
  | _, .assign (.tag constant) => .either (.ofTag constant)
  | _, .assign source => source
  | target, .assignInt _ => target

structure Takes (target : Value) (mutation : Mutation) (after : Value) : Prop where
  type : after.type = target.type
  fits : target.type.Fits after
  integer : ∀ own number, target = .range own → mutation = .assignInt number →
    after = .range ⟨own.type, number⟩
  range : ∀ own given, target = .range own → mutation = .assign (.range given) →
    after = .range ⟨own.type, given.number⟩
  either : ∀ given, mutation = .assign (.either given) →
    after = .either given ∧ after.equals (.either given) = true
  tag : ∀ constant, mutation = .assign (.tag constant) →
    after = .either ⟨constant, constant.variant.payload.map RecordType.default⟩
  again : mutation.apply after = .ok after

theorem mutates_of_error {root node : Value} {path : Path} (found : root.get path = .ok node)
    {mutation : Mutation} {problem : Problem} (failed : mutation.apply node = .error problem) :
    root.Mutates path mutation (.error problem) := by
  have hfails : root.mutate path mutation = .error problem := by
    rw [mutate, update_eq, found]
    change mutation.apply node >>= _ = _
    rw [failed]
    rfl
  rw [← hfails]
  exact root.mutates path mutation

end Value

theorem Tag.belongsTo_self (tag : Tag) : tag.belongsTo tag.either = true := beq_self_eq_true _

namespace RangeValue

variable {range after : RangeValue} {number : Int64}

theorem assign_of_inside (inside : range.type.low ≤ number ∧ number ≤ range.type.high) :
    range.assign number = .ok ⟨range.type, number⟩ := by
  rw [assign, if_pos (Interval.contains_iff.2 inside)]

theorem assign_eq_ok (taken : range.assign number = .ok after) :
    (range.type.low ≤ number ∧ number ≤ range.type.high) ∧ after = ⟨range.type, number⟩ := by
  unfold assign at taken
  split at taken
  · next inside => exact ⟨Interval.contains_iff.1 inside, (Except.ok.inj taken).symm⟩
  · cases taken

theorem assign_eq_error {problem : Problem} (refused : range.assign number = .error problem) :
    problem = .outOfRange number range.type.low range.type.high range.type.text := by
  unfold assign at refused
  split at refused
  · cases refused
  · exact (Except.error.inj refused).symm

end RangeValue

namespace EitherValue

variable {own after : EitherValue} {source : Value}

theorem assign_either_of_type {given : EitherValue} (same : given.type = own.type) :
    own.assign (.either given) = .ok given := by
  rw [assign, if_pos]
  rw [← same]
  exact given.tag.belongsTo_self

theorem assign_tag_of_type {tag : Tag} (same : tag.either = own.type) :
    own.assign (.tag tag) = .ok (ofTag tag) := by
  rw [assign, if_pos]
  rw [← same]
  exact tag.belongsTo_self

theorem assign_eq_ok (taken : own.assign source = .ok after) :
    (∃ given, source = .either given ∧ given.type.header.id = own.type.header.id ∧
      after = given) ∨
    ∃ tag, source = .tag tag ∧ tag.either.header.id = own.type.header.id ∧ after = ofTag tag := by
  unfold assign at taken
  cases source with
  | range | record | array => cases taken
  | either given =>
      simp only at taken
      split at taken
      · next same => exact .inl ⟨given, rfl, eq_of_beq same, (Except.ok.inj taken).symm⟩
      · cases taken
  | tag tag =>
      simp only at taken
      split at taken
      · next same => exact .inr ⟨tag, rfl, eq_of_beq same, (Except.ok.inj taken).symm⟩
      · cases taken

theorem assign_eq_error {problem : Problem} (refused : own.assign source = .error problem) :
    problem = .typeMismatch own.type.text source.type.text := by
  unfold assign at refused
  cases source with
  | range | record | array => exact (Except.error.inj refused).symm
  | either | tag =>
      simp only at refused
      split at refused
      · cases refused
      · exact (Except.error.inj refused).symm

end EitherValue

namespace Value

variable {target after : Value} {mutation : Mutation}

theorem Admits.shapes (admits : target.Admits mutation) :
    (∃ own number, target = .range own ∧ mutation = .assignInt number ∧
      own.type.low ≤ number ∧ number ≤ own.type.high) ∨
    (∃ own given, target = .range own ∧ mutation = .assign (.range given) ∧
      own.type.low ≤ given.number ∧ given.number ≤ own.type.high) ∨
    (∃ own given, target = .either own ∧ mutation = .assign (.either given) ∧
      given.type = own.type) ∨
    ∃ own constant, target = .either own ∧ mutation = .assign (.tag constant) ∧
      constant.either = own.type := by
  cases mutation with
  | assignInt number =>
      cases target with
      | range own => exact .inl ⟨own, number, rfl, rfl, admits⟩
      | record | either | tag | array => exact admits.elim
  | assign source =>
      cases target with
      | record | tag | array => exact admits.elim
      | range own =>
          cases source with
          | range given => exact .inr (.inl ⟨own, given, rfl, rfl, admits⟩)
          | record | either | tag | array => exact admits.elim
      | either own =>
          cases source with
          | either given => exact .inr (.inr (.inl ⟨own, given, rfl, rfl, admits⟩))
          | tag constant => exact .inr (.inr (.inr ⟨own, constant, rfl, rfl, admits⟩))
          | range | record | array => exact admits.elim

theorem Admits.apply_eq (admits : target.Admits mutation) :
    mutation.apply target = .ok (target.replaced mutation) := by
  rcases admits.shapes with ⟨own, number, rfl, rfl, hinside⟩ | ⟨own, given, rfl, rfl, hinside⟩ |
    ⟨own, given, rfl, rfl, htype⟩ | ⟨own, constant, rfl, rfl, htype⟩
  · exact map_eq_ok_iff.2 ⟨_, RangeValue.assign_of_inside hinside, rfl⟩
  · exact map_eq_ok_iff.2 ⟨_, RangeValue.assign_of_inside hinside, rfl⟩
  · exact map_eq_ok_iff.2 ⟨_, EitherValue.assign_either_of_type htype, rfl⟩
  · exact map_eq_ok_iff.2 ⟨_, EitherValue.assign_tag_of_type htype, rfl⟩

theorem Admits.again (admits : target.Admits mutation) :
    mutation.apply (target.replaced mutation) = .ok (target.replaced mutation) := by
  rcases admits.shapes with ⟨own, number, rfl, rfl, hinside⟩ | ⟨own, given, rfl, rfl, hinside⟩ |
    ⟨own, given, rfl, rfl, -⟩ | ⟨own, constant, rfl, rfl, -⟩
  · have hagain : (Value.range ⟨own.type, number⟩).Admits (.assignInt number) := hinside
    exact hagain.apply_eq
  · have hagain : (Value.range ⟨own.type, given.number⟩).Admits (.assign (.range given)) :=
      hinside
    exact hagain.apply_eq
  · have hagain : (Value.either given).Admits (.assign (.either given)) := rfl
    exact hagain.apply_eq
  · have hagain : (Value.either (.ofTag constant)).Admits (.assign (.tag constant)) := rfl
    exact hagain.apply_eq

theorem Admits.takes (admits : target.Admits mutation)
    (sources : ∀ source, mutation = .assign source → source.Sound) :
    target.Takes mutation (target.replaced mutation) := by
  have hagain := admits.again
  rcases admits.shapes with ⟨own, number, rfl, rfl, hinside⟩ | ⟨own, given, rfl, rfl, hinside⟩ |
    ⟨own, given, rfl, rfl, htype⟩ | ⟨own, constant, rfl, rfl, htype⟩
  · refine ⟨rfl, ⟨rfl, hinside⟩, ?_, nofun, nofun, nofun, hagain⟩
    rintro _ _ ⟨⟩ ⟨⟩
    rfl
  · refine ⟨rfl, ⟨rfl, hinside⟩, nofun, ?_, nofun, nofun, hagain⟩
    rintro _ _ ⟨⟩ ⟨⟩
    rfl
  · have hsame : (Value.either own).type = .either given.type := congrArg Ty.either htype.symm
    refine ⟨hsame.symm, ?_, nofun, nofun, ?_, nofun, hagain⟩
    · rw [hsame]
      exact (sources _ rfl).fits rfl
    · rintro _ ⟨⟩
      exact ⟨rfl, (Value.either given).equals_self⟩
  · have hsame : (Value.either own).type = .either constant.either :=
      congrArg Ty.either htype.symm
    refine ⟨hsame.symm, ?_, nofun, nofun, nofun, ?_, hagain⟩
    · rw [hsame]
      exact EitherValue.fits_ofTag constant
    · rintro _ ⟨⟩
      rw [← Variant.defaultPayload_eq]
      rfl

theorem map_eq_error_iff {ε α β : Type} {f : α → β} {result : Except ε α} {error : ε} :
    f <$> result = .error error ↔ result = .error error := by
  cases result <;> simp [Functor.map, Except.map]

theorem eq_refusal_of_apply {problem : Problem} (refused : mutation.apply target = .error problem) :
    problem = target.refusal mutation := by
  cases mutation with
  | assignInt number =>
      cases target with
      | range own => exact RangeValue.assign_eq_error (map_eq_error_iff.1 refused)
      | record | either | tag | array => exact (Except.error.inj refused).symm
  | assign source =>
      cases target with
      | record | tag | array => exact (Except.error.inj refused).symm
      | either own => exact EitherValue.assign_eq_error (map_eq_error_iff.1 refused)
      | range own =>
          cases source with
          | range given => exact RangeValue.assign_eq_error (map_eq_error_iff.1 refused)
          | record | either | tag | array => exact (Except.error.inj refused).symm

end Value

namespace Catalog

variable {catalog : Catalog} {target after : Value} {mutation : Mutation}

/-- Types are compared by their numbers, and in one catalog those decide. -/
theorem Holds.admits (holds : catalog.Holds target)
    (sources : ∀ source, mutation = .assign source → catalog.Holds source)
    (applied : mutation.apply target = .ok after) : target.Admits mutation := by
  cases mutation with
  | assignInt number =>
      cases target with
      | range own =>
          obtain ⟨_, hassign, -⟩ := map_eq_ok_iff.1 applied
          exact (RangeValue.assign_eq_ok hassign).1
      | record | either | tag | array => cases applied
  | assign source =>
      cases target with
      | record | tag | array => cases applied
      | range own =>
          cases source with
          | range given =>
              obtain ⟨_, hassign, -⟩ := map_eq_ok_iff.1 applied
              exact (RangeValue.assign_eq_ok hassign).1
          | record | either | tag | array => cases applied
      | either own =>
          obtain ⟨_, hassign, -⟩ := map_eq_ok_iff.1 applied
          have hsource := (sources source rfl).2
          rcases EitherValue.assign_eq_ok hassign with
            ⟨given, rfl, hid, -⟩ | ⟨constant, rfl, hid, -⟩
          · exact hsource.either_eq holds.2 hid
          · exact hsource.either_eq holds.2 hid

end Catalog

namespace Session

/-- All assignments between values that there are, tags among them and all that a client
reaches, whatever they held before. A value takes what it admits and nothing else; what
becomes of it is the same whatever it held; and where it refuses, it says why, and all
that it is a part of stays as it was. Eithers and ranges by themselves take the same. -/
theorem assignments (ops : List Op) :
    (∀ root path value part, (run ops).find? root = some value → value.get path = .ok part →
      (run ops).HasValue part) ∧
    (∀ target mutation, (run ops).HasValue target →
      (∀ source, mutation = .assign source → (run ops).HasValue source) →
      ((∃ after, mutation.apply target = .ok after) ↔ target.Admits mutation) ∧
      (∀ after, mutation.apply target = .ok after → target.Takes mutation after) ∧
      ∀ problem, mutation.apply target = .error problem →
        problem = target.refusal mutation ∧
        ∀ (root : Value) path, root.get path = .ok target →
          root.Mutates path mutation (.error problem)) ∧
    (∀ (own : EitherValue) source,
      (Value.either own).assign source = Value.either <$> own.assign source) ∧
    ∀ (own : RangeValue) number,
      (Value.range own).assignInt number = Value.range <$> own.assign number := by
  obtain ⟨catalog, hvalid⟩ := valid_run ops
  refine ⟨fun _ _ _ _ => hvalid.hasValue_of_get, fun target mutation has sources => ?_,
    fun _ _ => rfl, fun _ _ => rfl⟩
  have hholds := hvalid.holds_of_hasValue has
  have hsources : ∀ source, mutation = .assign source → catalog.Holds source :=
    fun source given => hvalid.holds_of_hasValue (sources source given)
  refine ⟨⟨?_, fun admits => ⟨_, admits.apply_eq⟩⟩, fun after applied => ?_,
    fun problem refused => ⟨Value.eq_refusal_of_apply refused, fun root path found =>
      Value.mutates_of_error found refused⟩⟩
  · rintro ⟨after, applied⟩
    exact hholds.admits hsources applied
  · have hadmits := hholds.admits hsources applied
    cases hadmits.apply_eq.symm.trans applied
    exact hadmits.takes fun source given => (sources source given).1

/-- A payload that was written is lost to the tag of its own variant. -/
example : ∃ after, (run [.newScope,
    .makeType 0 none (.either [⟨"Busy", some [⟨"left", .range 0 9, .dummy⟩], .dummy⟩]),
    .default 0, .tag 0 0, .write (.slot 0) [.payloadField "left"] (.assignInt 7),
    .write (.slot 0) [] (.assign 1)]).find? (.slot 0) = some after ∧
    after.get [.field "left"] = .ok (.range ⟨⟨⟨0, none, .dummy⟩, ⟨0, 9, by decide⟩⟩, 0⟩) :=
  ⟨_, rfl, rfl⟩

end Session

end StateModel
