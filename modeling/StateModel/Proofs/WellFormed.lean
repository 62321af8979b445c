import Mathlib.Data.List.Forall2
import StateModel.Value.Path

/-!
Well-formed values. A value fits a type when it was built from that very type
and each of its parts has the shape that the type prescribes. Default values
fit, and so does what a change of a child leaves behind.
-/
namespace StateModel

mutual

/-- A bare tag fits no type, since it is never the content of a container. -/
def Ty.Fits : Ty → Value → Prop
  | .range type, .range value =>
      value.type = type ∧ type.low ≤ value.number ∧ value.number ≤ type.high
  | .record type, .record value => type.Fits value
  | .either type, .either value => type.Fits value
  | .array type, .array value => type.Fits value
  | _, _ => False
  termination_by structural type => type

def RecordType.Fits : RecordType → RecordValue → Prop
  | ⟨header, fields, layout⟩, value =>
      value.type = ⟨header, fields, layout⟩ ∧ Field.FitAll fields value.children
  termination_by structural type => type

def Field.Fits : Field → Value → Prop
  | ⟨_, type⟩, child => type.Fits child
  termination_by structural field => field

def Field.FitAll : List Field → List Value → Prop
  | [], [] => True
  | field :: fields, child :: children => field.Fits child ∧ Field.FitAll fields children
  | _, _ => False
  termination_by structural fields => fields

def Variant.FitsPayload : Variant → Option RecordValue → Prop
  | ⟨_, _, _, none⟩, none => True
  | ⟨_, _, _, some type⟩, some payload => type.Fits payload
  | _, _ => False
  termination_by structural variant => variant

def Variant.FitsAt : List Variant → Nat → Option RecordValue → Prop
  | [], _, _ => False
  | variant :: _, 0, payload => variant.FitsPayload payload
  | _ :: rest, place + 1, payload => Variant.FitsAt rest place payload
  termination_by structural variants => variants

def EitherType.Fits : EitherType → EitherValue → Prop
  | ⟨header, first, rest⟩, value =>
      value.type = ⟨header, first, rest⟩ ∧
        match value.tag.index.val with
        | 0 => first.FitsPayload value.payload
        | place + 1 => Variant.FitsAt rest place value.payload
  termination_by structural type => type

def ArrayType.Fits : ArrayType → ArrayValue → Prop
  | ⟨header, element, index, small⟩, value =>
      value.type = ⟨header, element, index, small⟩ ∧
        (value.items.length : Int) = index.high.toInt - index.low.toInt + 1 ∧
        ∀ item ∈ value.items, element.Fits item
  termination_by structural type => type

end

theorem Field.fits_iff {field : Field} {child : Value} :
    field.Fits child ↔ field.type.Fits child := by
  cases field
  rfl

theorem Field.fitAll_iff {fields : List Field} {children : List Value} :
    Field.FitAll fields children ↔
      List.Forall₂ (fun field child => field.type.Fits child) fields children := by
  induction fields generalizing children with
  | nil => cases children <;> simp [Field.FitAll]
  | cons field fields ih =>
      cases children with
      | nil => simp [Field.FitAll]
      | cons child children => simp [Field.FitAll, Field.fits_iff, ih]

theorem RecordType.fits_iff {type : RecordType} {value : RecordValue} :
    type.Fits value ↔ value.type = type ∧
      List.Forall₂ (fun field child => field.type.Fits child) type.fields value.children := by
  cases type
  rw [RecordType.Fits, Field.fitAll_iff]

theorem Variant.fitsPayload_iff {variant : Variant} {payload : Option RecordValue} :
    variant.FitsPayload payload ↔
      match variant.payload, payload with
      | none, none => True
      | some type, some record => type.Fits record
      | _, _ => False := by
  obtain ⟨_, _, _, _ | _⟩ := variant <;> cases payload <;> rfl

theorem Variant.fitsAt_iff {variants : List Variant} {place : Nat}
    {payload : Option RecordValue} (inside : place < variants.length) :
    Variant.FitsAt variants place payload ↔ variants[place].FitsPayload payload := by
  induction variants generalizing place with
  | nil => simp at inside
  | cons variant rest ih =>
      cases place with
      | zero => rfl
      | succ place => simpa [Variant.FitsAt] using ih (by simpa using inside)

theorem EitherType.fits_iff {type : EitherType} {value : EitherValue} :
    type.Fits value ↔ value.type = type ∧ value.tag.variant.FitsPayload value.payload := by
  obtain ⟨header, first, rest⟩ := type
  obtain ⟨⟨either, index, inside⟩, payload⟩ := value
  rw [EitherType.Fits]
  apply and_congr_right
  intro built
  simp only [EitherValue.type] at built
  subst built
  cases index with
  | zero => rfl
  | succ place =>
      exact Variant.fitsAt_iff (Nat.lt_of_succ_lt_succ inside)

theorem EitherType.Fits.payload {type : EitherType} {value : EitherValue} (fits : type.Fits value)
    {payload : RecordValue} (active : value.payload = some payload) :
    ∃ shape, value.tag.variant ∈ type.variants ∧ value.tag.variant.payload = some shape ∧
      shape.Fits payload := by
  obtain ⟨hbuilt, hpayload⟩ := EitherType.fits_iff.1 fits
  have hinside : value.tag.variant ∈ type.variants := by
    rw [← hbuilt]
    exact List.getElem_mem value.tag.index.isLt
  rw [Variant.fitsPayload_iff, active] at hpayload
  cases given : value.tag.variant.payload with
  | none => simp [given] at hpayload
  | some shape =>
      rw [given] at hpayload
      exact ⟨shape, hinside, rfl, hpayload⟩

theorem ArrayType.fits_iff {type : ArrayType} {value : ArrayValue} :
    type.Fits value ↔ value.type = type ∧
      value.items.length = type.index.interval.count ∧
      ∀ item ∈ value.items, type.element.Fits item := by
  obtain ⟨header, element, index, small⟩ := type
  have hcount := index.interval.count_eq
  rw [ArrayType.Fits]
  simp only [RangeType.high, RangeType.low]
  rw [← hcount, Int.ofNat_inj]

/-! What a value of a type is made of. -/

namespace Ty

variable {value : Value}

theorem fits_range_iff {type : RangeType} :
    (Ty.range type).Fits value ↔
      ∃ number, value = .range ⟨type, number⟩ ∧ type.low ≤ number ∧ number ≤ type.high := by
  constructor
  · intro fits
    cases value with
    | record | either | tag | array => exact fits.elim
    | range range =>
        obtain ⟨rfl, hbounds⟩ := fits
        exact ⟨range.number, rfl, hbounds⟩
  · rintro ⟨number, rfl, hbounds⟩
    exact ⟨rfl, hbounds⟩

theorem fits_record_iff {type : RecordType} :
    (Ty.record type).Fits value ↔ ∃ children, value = .record ⟨type, children⟩ ∧
      List.Forall₂ (fun field child => field.type.Fits child) type.fields children := by
  constructor
  · intro fits
    cases value with
    | range | either | tag | array => exact fits.elim
    | record record =>
        obtain ⟨built, children⟩ := record
        obtain ⟨rfl, hchildren⟩ := RecordType.fits_iff.1 fits
        exact ⟨children, rfl, hchildren⟩
  · rintro ⟨children, rfl, hchildren⟩
    exact RecordType.fits_iff.2 ⟨rfl, hchildren⟩

theorem fits_either_iff {type : EitherType} :
    (Ty.either type).Fits value ↔ ∃ tag payload, value = .either ⟨tag, payload⟩ ∧
      tag.either = type ∧ tag.variant.FitsPayload payload := by
  constructor
  · intro fits
    cases value with
    | range | record | tag | array => exact fits.elim
    | either either =>
        obtain ⟨tag, payload⟩ := either
        exact ⟨tag, payload, rfl, EitherType.fits_iff.1 fits⟩
  · rintro ⟨tag, payload, rfl, fits⟩
    exact EitherType.fits_iff.2 fits

theorem fits_array_iff {type : ArrayType} :
    (Ty.array type).Fits value ↔ ∃ items, value = .array ⟨type, items⟩ ∧
      items.length = type.index.interval.count ∧ ∀ item ∈ items, type.element.Fits item := by
  constructor
  · intro fits
    cases value with
    | range | record | either | tag => exact fits.elim
    | array array =>
        obtain ⟨built, items⟩ := array
        obtain ⟨rfl, hitems⟩ := ArrayType.fits_iff.1 fits
        exact ⟨items, rfl, hitems⟩
  · rintro ⟨items, rfl, hitems⟩
    exact ArrayType.fits_iff.2 ⟨rfl, hitems⟩

end Ty

theorem RecordType.Fits.field {type : RecordType} {record : RecordValue} {name : String}
    {child : Value} (fits : type.Fits record) (found : record.field name = .ok child) :
    ∃ field ∈ type.fields, field.type.Fits child := by
  obtain ⟨-, hchildren⟩ := RecordType.fits_iff.1 fits
  obtain ⟨place, -, hchild⟩ := RecordValue.field_eq_ok_iff.1 found
  obtain ⟨hinside, rfl⟩ := List.getElem?_eq_some_iff.1 hchild
  have hfield : place < type.fields.length := by rwa [hchildren.length_eq]
  exact ⟨_, List.getElem_mem hfield, hchildren.get hfield hinside⟩

theorem ArrayType.Fits.item {type : ArrayType} {array : ArrayValue} {index : Int64}
    {child : Value} (fits : type.Fits array) (found : array.item index = .ok child) :
    type.element.Fits child := by
  obtain ⟨-, -, hitems⟩ := ArrayType.fits_iff.1 fits
  obtain ⟨place, -, hitem⟩ := ArrayValue.item_eq_ok_iff.1 found
  exact hitems child (List.mem_of_getElem? hitem)

theorem Ty.Fits.type_eq {type : Ty} {value : Value} (fits : type.Fits value) :
    value.type = type := by
  cases type <;> cases value <;> simp only [Ty.Fits] at fits
  · exact congrArg Ty.range fits.1
  · exact congrArg Ty.record (RecordType.fits_iff.1 fits).1
  · exact congrArg Ty.either (EitherType.fits_iff.1 fits).1
  · exact congrArg Ty.array (ArrayType.fits_iff.1 fits).1

mutual

theorem Ty.fits_default : (type : Ty) → type.Fits type.default
  | .range type => by
      simp [Ty.default, Ty.Fits, RangeType.default, RangeType.low, RangeType.high,
        type.interval.low_le_high]
  | .record type => RecordType.fits_default type
  | .either type => EitherType.fits_default type
  | .array type => ArrayType.fits_default type
  termination_by structural type => type

theorem RecordType.fits_default : (type : RecordType) → type.Fits type.default
  | ⟨_, fields, _⟩ => ⟨rfl, Field.fitAll_defaults fields⟩
  termination_by structural type => type

theorem Field.fits_default : (field : Field) → field.Fits field.default
  | ⟨_, type⟩ => Ty.fits_default type
  termination_by structural field => field

theorem Field.fitAll_defaults : (fields : List Field) →
    Field.FitAll fields (Field.defaults fields)
  | [] => trivial
  | field :: rest => ⟨Field.fits_default field, Field.fitAll_defaults rest⟩
  termination_by structural fields => fields

theorem Variant.fits_defaultPayload : (variant : Variant) →
    variant.FitsPayload variant.defaultPayload
  | ⟨_, _, _, none⟩ => trivial
  | ⟨_, _, _, some type⟩ => RecordType.fits_default type
  termination_by structural variant => variant

theorem EitherType.fits_default : (type : EitherType) → type.Fits type.default
  | ⟨_, first, _⟩ => ⟨rfl, Variant.fits_defaultPayload first⟩
  termination_by structural type => type

theorem ArrayType.fits_default : (type : ArrayType) → type.Fits type.default
  | ⟨_, element, index, _⟩ => by
      refine ⟨rfl, ?_, ?_⟩
      · rw [ArrayType.default, List.length_replicate]
        exact index.interval.count_eq
      · intro item hitem
        rw [List.eq_of_mem_replicate hitem]
        exact Ty.fits_default element
  termination_by structural type => type

end

theorem EitherValue.fits_ofTag (tag : Tag) : tag.either.Fits (.ofTag tag) := by
  rw [EitherType.fits_iff]
  exact ⟨rfl, Variant.fits_defaultPayload tag.variant⟩

end StateModel
