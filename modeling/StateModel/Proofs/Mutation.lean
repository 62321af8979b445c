import StateModel.Proofs.Catalog

/-!
Writing into values. A client reaches a place inside a value by accessors, of
which some work on any value and some only on values of one kind, and writes
there by one of four assignments. Whatever is written, a value that fitted its
type goes on to fit it, as long as one catalog knows the types of both sides.
-/
namespace StateModel

theorem map_eq_ok_iff {ε α β : Type} {f : α → β} {result : Except ε α} {mapped : β} :
    f <$> result = .ok mapped ↔ ∃ value, result = .ok value ∧ f value = mapped := by
  cases result <;> simp [Functor.map, Except.map]

inductive Access where
  | child (step : Step)
  | recordField (name : String)
  | payloadField (name : String)
  | arrayItem (index : Int64)

def Access.modify (access : Access) (value : Value)
    (change : Value → Except Problem Value) : Except Problem Value :=
  match access, value with
  | .child step, value => value.modifyChild step change
  | .recordField name, .record content => .record <$> content.modifyField name change
  | .payloadField name, .either content => .either <$> content.modifyField name change
  | .arrayItem index, .array content => .array <$> content.modifyItem index change
  | _, value => .ok value

inductive Write (α : Type) where
  | assign (source : α)
  | assignInt (number : Int64)
  | setNumber (number : Int64)
  | setEither (source : α)

namespace Write

def mapM {α β : Type} (find : α → Option β) : Write α → Option (Write β)
  | .assign source => .assign <$> find source
  | .assignInt number => some (.assignInt number)
  | .setNumber number => some (.setNumber number)
  | .setEither source => .setEither <$> find source

/-- The last two are for ranges and for eithers only. -/
def apply (write : Write Value) (target : Value) : Except Problem Value :=
  match write, target with
  | .assign source, target => target.assign source
  | .assignInt number, target => target.assignInt number
  | .setNumber number, .range target => .range <$> target.assign number
  | .setEither source, .either target => .either <$> target.assign source
  | _, target => .ok target

def source? {α : Type} : Write α → Option α
  | .assign source | .setEither source => some source
  | .assignInt _ | .setNumber _ => none

theorem source?_of_mapM {α β : Type} {find : α → Option β} {write : Write α} {found : Write β}
    (mapped : write.mapM find = some found) {source : β} (given : found.source? = some source) :
    ∃ origin, find origin = some source := by
  cases write with
  | assign origin | setEither origin =>
      obtain ⟨target, hfind, rfl⟩ := Option.map_eq_some_iff.1 mapped
      rw [← Option.some.inj given]
      exact ⟨origin, hfind⟩
  | assignInt number | setNumber number =>
      simp only [mapM, Option.some.injEq] at mapped
      subst mapped
      simp [source?] at given

end Write

def Value.write (value : Value) (write : Write Value) : List Access → Except Problem Value
  | [] => write.apply value
  | access :: rest => access.modify value fun child => child.write write rest

theorem RangeValue.fits_assign {type : RangeType} {target after : RangeValue} {number : Int64}
    (fits : (Ty.range type).Fits (.range target)) (assigned : target.assign number = .ok after) :
    (Ty.range type).Fits (.range after) := by
  obtain ⟨rfl, -⟩ := fits
  unfold RangeValue.assign at assigned
  split at assigned
  · next inside =>
    rw [← Except.ok.inj assigned]
    exact ⟨rfl, Interval.contains_iff.1 inside⟩
  · simp at assigned

namespace Catalog

variable {catalog : Catalog}

theorem Knows.fits_eitherAssign {type : EitherType} (knows : catalog.Knows (.either type))
    {target after : EitherValue} (fits : type.Fits target) {source : Value}
    (holds : catalog.Holds source) (assigned : target.assign source = .ok after) :
    type.Fits after := by
  have hbuilt : target.type = type := (EitherType.fits_iff.1 fits).1
  unfold EitherValue.assign at assigned
  rw [hbuilt] at assigned
  cases source with
  | either other =>
      simp only at assigned
      split at assigned
      · next same =>
        rw [← Except.ok.inj assigned]
        -- The check compared numbers only; that the types are equal, the catalog knows.
        have hsame : other.type = type :=
          holds.2.either_eq knows (by simpa [Tag.belongsTo, EitherValue.type] using same)
        have hsound : other.type.Fits other := holds.1.fits rfl
        rwa [hsame] at hsound
      · simp at assigned
  | tag tag =>
      simp only at assigned
      split at assigned
      · next same =>
        rw [← Except.ok.inj assigned]
        have hsame : tag.either = type :=
          holds.2.either_eq knows (by simpa [Tag.belongsTo] using same)
        rw [← hsame]
        exact EitherValue.fits_ofTag tag
      · simp at assigned
  | range | record | array => simp at assigned

/-- A change that leaves behind a value of the type that was there, wherever the
types on both sides are known. -/
def Keeps (catalog : Catalog) (change : Value → Except Problem Value) : Prop :=
  ∀ type value after, catalog.Knows type → type.Fits value → change value = .ok after →
    type.Fits after

theorem keeps_assignInt (number : Int64) : catalog.Keeps (·.assignInt number) := by
  intro type value after knows fits assigned
  cases value with
  | range target =>
      obtain ⟨result, hassign, rfl⟩ := map_eq_ok_iff.1 assigned
      cases type with
      | range type => exact RangeValue.fits_assign fits hassign
      | record | either | array => exact fits.elim
  | record | either | tag | array => simp [Value.assignInt] at assigned

theorem keeps_assign {source : Value} (holds : catalog.Holds source) :
    catalog.Keeps (·.assign source) := by
  intro type value after knows fits assigned
  cases value with
  | range target =>
      cases source with
      | range source =>
          obtain ⟨result, hassign, rfl⟩ := map_eq_ok_iff.1 assigned
          cases type with
          | range type => exact RangeValue.fits_assign fits hassign
          | record | either | array => exact fits.elim
      | record | either | tag | array => simp [Value.assign] at assigned
  | either target =>
      obtain ⟨result, hassign, rfl⟩ := map_eq_ok_iff.1 assigned
      cases type with
      | either type => exact knows.fits_eitherAssign fits holds hassign
      | range | record | array => exact fits.elim
  | record | tag | array => simp [Value.assign] at assigned

theorem keeps_write {write : Write Value}
    (holds : ∀ source, write.source? = some source → catalog.Holds source) :
    catalog.Keeps write.apply := by
  intro type value after knows fits written
  cases write with
  | assign source => exact keeps_assign (holds source rfl) type value after knows fits written
  | assignInt number => exact keeps_assignInt number type value after knows fits written
  | setNumber number =>
      cases value with
      | range target => exact keeps_assignInt number type _ after knows fits written
      | record | either | tag | array =>
          rw [← Except.ok.inj written]
          exact fits
  | setEither source =>
      cases value with
      | either target =>
          exact keeps_assign (holds source rfl) type _ after knows fits written
      | range | record | tag | array =>
          rw [← Except.ok.inj written]
          exact fits

end Catalog

/-! Changing one child leaves the others as they were. -/

theorem forall₂_set {α β : Type} {R : α → β → Prop} {lefts : List α} {rights : List β}
    (related : List.Forall₂ R lefts rights) {place : Nat} {right : β}
    (at_place : ∀ inside : place < lefts.length, R lefts[place] right) :
    List.Forall₂ R lefts (rights.set place right) := by
  induction related generalizing place with
  | nil => exact .nil
  | cons head tail ih =>
      cases place with
      | zero => exact .cons (at_place (Nat.succ_pos _)) tail
      | succ place =>
          refine .cons head (ih fun inside => ?_)
          simpa using at_place (Nat.succ_lt_succ inside)

namespace Catalog

variable {catalog : Catalog} {change : Value → Except Problem Value}

theorem Knows.fits_modifyField {type : RecordType} (knows : catalog.Knows (.record type))
    (keeps : catalog.Keeps change) {record after : RecordValue} (fits : type.Fits record)
    {name : String} (modified : record.modifyField name change = .ok after) :
    type.Fits after := by
  obtain ⟨hbuilt, hchildren⟩ := RecordType.fits_iff.1 fits
  unfold RecordValue.modifyField at modified
  split at modified
  · simp at modified
  · next place found =>
    split at modified
    · next inside =>
      obtain ⟨child, hchange, rfl⟩ := map_eq_ok_iff.1 modified
      refine RecordType.fits_iff.2 ⟨hbuilt, forall₂_set hchildren fun hplace => ?_⟩
      exact keeps _ _ child (knows.field (List.getElem_mem hplace))
        (hchildren.get hplace inside) hchange
    · simp at modified

theorem Knows.fits_modifyItem {type : ArrayType} (knows : catalog.Knows (.array type))
    (keeps : catalog.Keeps change) {array after : ArrayValue} (fits : type.Fits array)
    {index : Int64} (modified : array.modifyItem index change = .ok after) :
    type.Fits after := by
  obtain ⟨hbuilt, hcount, hitems⟩ := ArrayType.fits_iff.1 fits
  unfold ArrayValue.modifyItem at modified
  split at modified
  · simp at modified
  · next place found =>
    split at modified
    · next inside =>
      obtain ⟨item, hchange, rfl⟩ := map_eq_ok_iff.1 modified
      refine ArrayType.fits_iff.2 ⟨hbuilt, by simpa using hcount, fun other hother => ?_⟩
      rcases List.mem_or_eq_of_mem_set hother with old | new
      · exact hitems other old
      · rw [new]
        exact keeps _ _ item knows.element (hitems _ (List.getElem_mem inside)) hchange
    · simp at modified

theorem Knows.fits_modifyPayload {type : EitherType} (knows : catalog.Knows (.either type))
    (keeps : catalog.Keeps change) {either after : EitherValue} (fits : type.Fits either)
    {name : String} (modified : either.modifyField name change = .ok after) :
    type.Fits after := by
  have hbuilt := (EitherType.fits_iff.1 fits).1
  unfold EitherValue.modifyField at modified
  split at modified
  · next payload held =>
    obtain ⟨record, hmodify, rfl⟩ := map_eq_ok_iff.1 modified
    obtain ⟨shape, hinside, given, hpayload⟩ := EitherType.Fits.payload fits held
    refine EitherType.fits_iff.2 ⟨hbuilt, ?_⟩
    rw [Variant.fitsPayload_iff, given]
    exact (knows.payload hinside given).fits_modifyField keeps hpayload hmodify
  · simp at modified

theorem Keeps.modifyChild (keeps : catalog.Keeps change) (step : Step) :
    catalog.Keeps (·.modifyChild step change) := by
  intro type value after knows fits modified
  cases step with
  | field name =>
      cases value with
      | record content =>
          obtain ⟨result, hmodify, rfl⟩ := map_eq_ok_iff.1 modified
          cases type with
          | record type => exact knows.fits_modifyField keeps fits hmodify
          | range | either | array => exact fits.elim
      | either content =>
          obtain ⟨result, hmodify, rfl⟩ := map_eq_ok_iff.1 modified
          cases type with
          | either type => exact knows.fits_modifyPayload keeps fits hmodify
          | range | record | array => exact fits.elim
      | range | tag | array => simp [Value.modifyChild] at modified
  | index index =>
      cases value with
      | array content =>
          obtain ⟨result, hmodify, rfl⟩ := map_eq_ok_iff.1 modified
          cases type with
          | array type => exact knows.fits_modifyItem keeps fits hmodify
          | range | record | either => exact fits.elim
      | range | record | either | tag => simp [Value.modifyChild] at modified

theorem Keeps.access (keeps : catalog.Keeps change) (access : Access) :
    catalog.Keeps (access.modify · change) := by
  intro type value after knows fits modified
  cases access with
  | child step => exact keeps.modifyChild step type value after knows fits modified
  | recordField name =>
      cases value with
      | record => exact keeps.modifyChild (.field name) type _ after knows fits modified
      | range | either | tag | array =>
          rw [← Except.ok.inj modified]
          exact fits
  | payloadField name =>
      cases value with
      | either => exact keeps.modifyChild (.field name) type _ after knows fits modified
      | range | record | tag | array =>
          rw [← Except.ok.inj modified]
          exact fits
  | arrayItem index =>
      cases value with
      | array => exact keeps.modifyChild (.index index) type _ after knows fits modified
      | range | record | either | tag =>
          rw [← Except.ok.inj modified]
          exact fits

/-- A write at the end of any path keeps the type of the root. -/
theorem keeps_writeAt {write : Write Value}
    (holds : ∀ source, write.source? = some source → catalog.Holds source)
    (path : List Access) : catalog.Keeps (·.write write path) := by
  induction path with
  | nil => exact keeps_write holds
  | cons access rest ih => exact ih.access access

end Catalog

end StateModel
