import StateModel.Elaborate
import StateModel.Value.Assign
import StateModel.Value.Text

/-!
Types and values under other labels: the numbers that tell types apart and the places
where they stand. Nothing that is read off a type depends on its place, nor on its number
but whether it is another, so that texts, defaults and assignments are the same under any
labels that keep different types apart.
-/
namespace StateModel

structure Relabelling where
  number : TypeId → TypeId
  place : Span → Span

def Header.relabel (labels : Relabelling) (header : Header) : Header :=
  ⟨labels.number header.id, header.name, labels.place header.span⟩

def RangeType.relabel (labels : Relabelling) (type : RangeType) : RangeType :=
  { type with header := type.header.relabel labels }

mutual

def Ty.relabel (labels : Relabelling) : Ty → Ty
  | .range type => .range (type.relabel labels)
  | .record type => .record (type.relabel labels)
  | .either type => .either (type.relabel labels)
  | .array type => .array (type.relabel labels)
  termination_by structural type => type

def RecordType.relabel (labels : Relabelling) : RecordType → RecordType
  | ⟨header, fields, layout⟩ =>
      ⟨header.relabel labels, Field.relabelAll labels fields, layout⟩
  termination_by structural type => type

def Field.relabel (labels : Relabelling) : Field → Field
  | ⟨name, type⟩ => ⟨name, type.relabel labels⟩
  termination_by structural field => field

def Field.relabelAll (labels : Relabelling) : List Field → List Field
  | [] => []
  | field :: rest => field.relabel labels :: Field.relabelAll labels rest
  termination_by structural fields => fields

def Variant.relabel (labels : Relabelling) : Variant → Variant
  | ⟨name, index, parent, none⟩ => ⟨name, index, labels.number parent, none⟩
  | ⟨name, index, parent, some payload⟩ =>
      ⟨name, index, labels.number parent, some (payload.relabel labels)⟩
  termination_by structural variant => variant

def Variant.relabelAll (labels : Relabelling) : List Variant → List Variant
  | [] => []
  | variant :: rest => variant.relabel labels :: Variant.relabelAll labels rest
  termination_by structural variants => variants

def EitherType.relabel (labels : Relabelling) : EitherType → EitherType
  | ⟨header, first, rest⟩ =>
      ⟨header.relabel labels, first.relabel labels, Variant.relabelAll labels rest⟩
  termination_by structural type => type

def ArrayType.relabel (labels : Relabelling) : ArrayType → ArrayType
  | ⟨header, element, index, small⟩ =>
      ⟨header.relabel labels, element.relabel labels, index.relabel labels, small⟩
  termination_by structural type => type

end

section

variable (labels : Relabelling)

@[simp] theorem Field.relabelAll_eq_map (fields : List Field) :
    Field.relabelAll labels fields = fields.map (·.relabel labels) := by
  induction fields with
  | nil => rfl
  | cons field rest ih => simp [Field.relabelAll, ih]

@[simp] theorem Variant.relabelAll_eq_map (variants : List Variant) :
    Variant.relabelAll labels variants = variants.map (·.relabel labels) := by
  induction variants with
  | nil => rfl
  | cons variant rest ih => simp [Variant.relabelAll, ih]

@[simp] theorem Field.name_relabel (field : Field) : (field.relabel labels).name = field.name := by
  cases field
  rfl

@[simp] theorem RecordType.header_relabel (type : RecordType) :
    (type.relabel labels).header = type.header.relabel labels := by
  cases type
  rfl

@[simp] theorem RecordType.fields_relabel (type : RecordType) :
    (type.relabel labels).fields = type.fields.map (·.relabel labels) := by
  cases type
  simp [RecordType.relabel]

@[simp] theorem Variant.name_relabel (variant : Variant) :
    (variant.relabel labels).name = variant.name := by
  obtain ⟨_, _, _, _ | _⟩ := variant <;> rfl

@[simp] theorem Variant.payload_relabel (variant : Variant) :
    (variant.relabel labels).payload = variant.payload.map (·.relabel labels) := by
  obtain ⟨_, _, _, _ | _⟩ := variant <;> rfl

@[simp] theorem EitherType.header_relabel (type : EitherType) :
    (type.relabel labels).header = type.header.relabel labels := by
  cases type
  rfl

@[simp] theorem EitherType.rest_relabel (type : EitherType) :
    (type.relabel labels).rest = type.rest.map (·.relabel labels) := by
  cases type
  simp [EitherType.relabel]

@[simp] theorem EitherType.variants_relabel (type : EitherType) :
    (type.relabel labels).variants = type.variants.map (·.relabel labels) := by
  cases type
  simp [EitherType.relabel, EitherType.variants]

theorem ArrayType.relabel_eq_mk (type : ArrayType) :
    type.relabel labels = ⟨type.header.relabel labels, type.element.relabel labels,
      type.index.relabel labels, type.index_le_max⟩ := by
  cases type
  rfl

end

@[simp] theorem Ty.name_relabel (labels : Relabelling) (type : Ty) :
    (type.relabel labels).name = type.name := by
  cases type with
  | range type => rfl
  | record type =>
      have hheader := congrArg Header.name (type.header_relabel labels)
      exact hheader
  | either type =>
      have hheader := congrArg Header.name (type.header_relabel labels)
      exact hheader
  | array type =>
      rw [Ty.relabel, ArrayType.relabel_eq_mk]
      rfl

/-! Texts. -/

theorem RangeType.text_relabel (labels : Relabelling) (type : RangeType) :
    (type.relabel labels).text = type.text := rfl

theorem EitherType.text_relabel (labels : Relabelling) (type : EitherType) :
    (type.relabel labels).text = type.text := by
  simp [EitherType.text, Header.relabel, Function.comp_def]

mutual

theorem Ty.text_relabel (labels : Relabelling) : (type : Ty) →
    (type.relabel labels).text = type.text
  | .range type => type.text_relabel labels
  | .record type => RecordType.text_relabel labels type
  | .either type => type.text_relabel labels
  | .array type => ArrayType.text_relabel labels type
  termination_by structural type => type

theorem RecordType.text_relabel (labels : Relabelling) : (type : RecordType) →
    (type.relabel labels).text = type.text
  | ⟨header, fields, layout⟩ => by
      rw [RecordType.relabel, RecordType.text, RecordType.text, Field.texts_relabel labels fields]
      rfl
  termination_by structural type => type

theorem Field.text_relabel (labels : Relabelling) : (field : Field) →
    (field.relabel labels).text = field.text
  | ⟨name, type⟩ => by
      rw [Field.relabel, Field.text, Field.text, Ty.text_relabel labels type]
  termination_by structural field => field

theorem Field.texts_relabel (labels : Relabelling) : (fields : List Field) →
    Field.texts (Field.relabelAll labels fields) = Field.texts fields
  | [] => rfl
  | field :: rest => by
      rw [Field.relabelAll, Field.texts, Field.texts, Field.text_relabel labels field,
        Field.texts_relabel labels rest]
  termination_by structural fields => fields

theorem ArrayType.text_relabel (labels : Relabelling) : (type : ArrayType) →
    (type.relabel labels).text = type.text
  | ⟨header, element, index, small⟩ => by
      simp only [ArrayType.relabel, ArrayType.text_eq, Ty.text_relabel labels element]
      rfl
  termination_by structural type => type

end

/-! Tags. -/

def Tag.relabel (labels : Relabelling) (tag : Tag) : Tag :=
  ⟨tag.either.relabel labels, tag.index.cast (by simp)⟩

namespace Tag

variable (labels : Relabelling) (tag : Tag)

@[simp] theorem variant_relabel : (tag.relabel labels).variant = tag.variant.relabel labels := by
  simp [Tag.variant, Tag.relabel]

@[simp] theorem name_relabel : (tag.relabel labels).name = tag.name := by
  simp [Tag.name]

@[simp] theorem text_relabel : (tag.relabel labels).text = tag.text := tag.name_relabel labels

theorem belongsTo_relabel {labels : Relabelling} (injective : Function.Injective labels.number)
    (tag : Tag) (type : EitherType) :
    (tag.relabel labels).belongsTo (type.relabel labels) = tag.belongsTo type := by
  rw [Bool.eq_iff_iff, Tag.belongsTo, Tag.belongsTo, beq_iff_eq, beq_iff_eq]
  simp only [Tag.relabel, EitherType.header_relabel]
  exact injective.eq_iff

end Tag

namespace EitherType

variable (labels : Relabelling) (type : EitherType)

theorem tags_relabel : (type.relabel labels).tags = type.tags.map (·.relabel labels) := by
  apply List.ext_getElem
  · simp [tags]
  · intro place inside _
    simp only [tags, List.getElem_map, List.getElem_ofFn]
    rfl

theorem constants_relabel :
    (type.relabel labels).constants = type.constants.map (·.relabel labels) := by
  rw [constants, constants, tags_relabel, List.filter_map]
  congr 1
  apply List.filter_congr
  intro tag _
  simp [Variant.isConstant]

end EitherType

def Alternative.relabel (labels : Relabelling) (alternative : Alternative) : Alternative :=
  ⟨alternative.name, alternative.payload.map (·.relabel labels)⟩

theorem Alternative.place_relabel (labels : Relabelling) (alternative : Alternative)
    (parent : TypeId) (index : Nat) :
    (alternative.relabel labels).place (labels.number parent) index =
      (alternative.place parent index).relabel labels := by
  obtain ⟨_, _ | _⟩ := alternative <;> rfl

theorem EitherType.ofAlternatives_relabel (labels : Relabelling) (header : Header)
    (first : Alternative) (rest : List Alternative) :
    ofAlternatives (header.relabel labels) (first.relabel labels) (rest.map (·.relabel labels)) =
      (ofAlternatives header first rest).relabel labels := by
  have hrest : (rest.map (·.relabel labels)).mapIdx (fun index alternative =>
      alternative.place (labels.number header.id) (index + 1)) =
      (rest.mapIdx fun index alternative => alternative.place header.id (index + 1)).map
        (·.relabel labels) := by
    apply List.ext_getElem?
    intro place
    simp only [List.getElem?_mapIdx, List.getElem?_map, Option.map_map, Function.comp_def,
      Alternative.place_relabel]
  simp only [ofAlternatives, EitherType.relabel, Variant.relabelAll_eq_map, Header.relabel,
    hrest, Alternative.place_relabel]

/-! Values. -/

def RangeValue.relabel (labels : Relabelling) (range : RangeValue) : RangeValue :=
  ⟨range.type.relabel labels, range.number⟩

mutual

def Value.relabel (labels : Relabelling) : Value → Value
  | .range value => .range (value.relabel labels)
  | .record value => .record (value.relabel labels)
  | .either value => .either (value.relabel labels)
  | .tag constant => .tag (constant.relabel labels)
  | .array value => .array (value.relabel labels)
  termination_by structural value => value

def Value.relabelAll (labels : Relabelling) : List Value → List Value
  | [] => []
  | value :: rest => value.relabel labels :: Value.relabelAll labels rest
  termination_by structural values => values

def RecordValue.relabel (labels : Relabelling) : RecordValue → RecordValue
  | ⟨type, children⟩ => ⟨type.relabel labels, Value.relabelAll labels children⟩
  termination_by structural record => record

def EitherValue.relabel (labels : Relabelling) : EitherValue → EitherValue
  | ⟨tag, none⟩ => ⟨tag.relabel labels, none⟩
  | ⟨tag, some payload⟩ => ⟨tag.relabel labels, some (payload.relabel labels)⟩
  termination_by structural either => either

def ArrayValue.relabel (labels : Relabelling) : ArrayValue → ArrayValue
  | ⟨type, items⟩ => ⟨type.relabel labels, Value.relabelAll labels items⟩
  termination_by structural array => array

end

section

variable (labels : Relabelling)

@[simp] theorem Value.relabelAll_eq_map (values : List Value) :
    Value.relabelAll labels values = values.map (·.relabel labels) := by
  induction values with
  | nil => rfl
  | cons value rest ih => simp [Value.relabelAll, ih]

@[simp] theorem EitherValue.tag_relabel (either : EitherValue) :
    (either.relabel labels).tag = either.tag.relabel labels := by
  obtain ⟨_, _ | _⟩ := either <;> rfl

@[simp] theorem EitherValue.type_relabel (either : EitherValue) :
    (either.relabel labels).type = either.type.relabel labels := by
  rw [EitherValue.type, EitherValue.tag_relabel]
  rfl

@[simp] theorem Value.type_relabel (value : Value) :
    (value.relabel labels).type = value.type.relabel labels := by
  cases value with
  | range range => rfl
  | record record =>
      cases record
      rfl
  | either either => exact congrArg Ty.either (either.type_relabel labels)
  | tag tag => rfl
  | array array =>
      cases array
      rfl

end

mutual

theorem Ty.default_relabel (labels : Relabelling) : (type : Ty) →
    (type.relabel labels).default = type.default.relabel labels
  | .range _ => rfl
  | .record type => congrArg Value.record (RecordType.default_relabel labels type)
  | .either type => congrArg Value.either (EitherType.default_relabel labels type)
  | .array type => congrArg Value.array (ArrayType.default_relabel labels type)
  termination_by structural type => type

theorem RecordType.default_relabel (labels : Relabelling) : (type : RecordType) →
    (type.relabel labels).default = type.default.relabel labels
  | ⟨header, fields, layout⟩ => by
      rw [RecordType.relabel, RecordType.default, RecordType.default, RecordValue.relabel,
        Field.defaults_relabel labels fields]
      rfl
  termination_by structural type => type

theorem Field.default_relabel (labels : Relabelling) : (field : Field) →
    (field.relabel labels).default = field.default.relabel labels
  | ⟨_, type⟩ => Ty.default_relabel labels type
  termination_by structural field => field

theorem Field.defaults_relabel (labels : Relabelling) : (fields : List Field) →
    Field.defaults (Field.relabelAll labels fields) =
      Value.relabelAll labels (Field.defaults fields)
  | [] => rfl
  | field :: rest => by
      rw [Field.relabelAll, Field.defaults, Field.defaults, Value.relabelAll,
        Field.default_relabel labels field, Field.defaults_relabel labels rest]
  termination_by structural fields => fields

theorem Variant.defaultPayload_relabel (labels : Relabelling) : (variant : Variant) →
    (variant.relabel labels).defaultPayload = variant.defaultPayload.map (·.relabel labels)
  | ⟨_, _, _, none⟩ => rfl
  | ⟨_, _, _, some payload⟩ => congrArg some (RecordType.default_relabel labels payload)
  termination_by structural variant => variant

theorem EitherType.default_relabel (labels : Relabelling) : (type : EitherType) →
    (type.relabel labels).default = type.default.relabel labels
  | ⟨header, first, rest⟩ => by
      rw [EitherType.relabel, EitherType.default, EitherType.default,
        Variant.defaultPayload_relabel labels first]
      cases first.defaultPayload <;> rfl
  termination_by structural type => type

theorem ArrayType.default_relabel (labels : Relabelling) : (type : ArrayType) →
    (type.relabel labels).default = type.default.relabel labels
  | ⟨header, element, index, small⟩ => by
      simp only [ArrayType.relabel, ArrayType.default_eq, Ty.default_relabel labels element,
        ArrayValue.relabel, Value.relabelAll_eq_map, List.map_replicate]
      rfl
  termination_by structural type => type

end

/-! Texts of values. -/

theorem RecordType.join_relabel (labels : Relabelling) (type : RecordType)
    (children : List String) : (type.relabel labels).join children = type.join children := by
  simp only [RecordType.join, RecordType.fields_relabel, List.zipWith_map_left,
    Field.name_relabel]

mutual

theorem Value.text_relabel (labels : Relabelling) : (value : Value) →
    (value.relabel labels).text = value.text
  | .range _ => rfl
  | .record value => RecordValue.text_relabel labels value
  | .either value => EitherValue.text_relabel labels value
  | .tag constant => constant.text_relabel labels
  | .array value => ArrayValue.text_relabel labels value
  termination_by structural value => value

theorem Value.texts_relabel (labels : Relabelling) : (values : List Value) →
    Value.texts (Value.relabelAll labels values) = Value.texts values
  | [] => rfl
  | value :: rest => by
      rw [Value.relabelAll, Value.texts, Value.texts, Value.text_relabel labels value,
        Value.texts_relabel labels rest]
  termination_by structural values => values

theorem RecordValue.text_relabel (labels : Relabelling) : (record : RecordValue) →
    (record.relabel labels).text = record.text
  | ⟨type, children⟩ => by
      rw [RecordValue.relabel, RecordValue.text, RecordValue.text,
        Value.texts_relabel labels children, RecordType.join_relabel, RecordType.braced,
        RecordType.header_relabel]
      rfl
  termination_by structural record => record

theorem EitherValue.text_relabel (labels : Relabelling) : (either : EitherValue) →
    (either.relabel labels).text = either.text
  | ⟨tag, none⟩ => tag.text_relabel labels
  | ⟨_, some payload⟩ => RecordValue.text_relabel labels payload
  termination_by structural either => either

theorem ArrayValue.text_relabel (labels : Relabelling) : (array : ArrayValue) →
    (array.relabel labels).text = array.text
  | ⟨type, items⟩ => by
      rw [ArrayValue.relabel, ArrayValue.text, ArrayValue.text, Value.texts_relabel labels items,
        ArrayType.relabel_eq_mk]
      rfl
  termination_by structural array => array

end

theorem Value.bareText_relabel (labels : Relabelling) (value : Value) :
    (value.relabel labels).bareText = value.bareText := by
  cases value with
  | range range => rfl
  | record record =>
      obtain ⟨type, children⟩ := record
      change (type.relabel labels).join ((Value.relabelAll labels children).map Value.text) = _
      rw [RecordType.join_relabel, ← Value.texts_eq_map, Value.texts_relabel, Value.texts_eq_map]
      rfl
  | either either => exact EitherValue.text_relabel labels either
  | tag tag => exact tag.text_relabel labels
  | array array => exact ArrayValue.text_relabel labels array

/-! Assignments. -/

theorem RangeValue.assign_relabel (labels : Relabelling) (range : RangeValue)
    (number : Int64) :
    (range.relabel labels).assign number = (range.assign number).map (·.relabel labels) := by
  unfold RangeValue.assign
  change (if range.type.interval.contains number then _ else _) = _
  split <;> rfl

section

variable {labels : Relabelling} (injective : Function.Injective labels.number)

include injective

theorem EitherValue.assign_relabel (either : EitherValue) (source : Value) :
    (either.relabel labels).assign (source.relabel labels) =
      (either.assign source).map (·.relabel labels) := by
  have hmismatch : Problem.typeMismatch (either.relabel labels).type.text
      (source.relabel labels).type.text = .typeMismatch either.type.text source.type.text := by
    rw [EitherValue.type_relabel, EitherType.text_relabel, Value.type_relabel,
      Ty.text_relabel]
  unfold EitherValue.assign
  rw [hmismatch, EitherValue.type_relabel]
  cases source with
  | range | record | array => rfl
  | either other =>
      simp only [Value.relabel, EitherValue.tag_relabel, Tag.belongsTo_relabel injective]
      split <;> rfl
  | tag tag =>
      simp only [Value.relabel, Tag.belongsTo_relabel injective]
      split
      · simp only [EitherValue.ofTag, Tag.variant_relabel, Variant.defaultPayload_relabel]
        cases tag.variant.defaultPayload <;> rfl
      · rfl

theorem Value.assign_relabel (target source : Value) :
    (target.relabel labels).assign (source.relabel labels) =
      (target.assign source).map (·.relabel labels) := by
  have hmismatch : Problem.typeMismatch (target.relabel labels).type.text
      (source.relabel labels).type.text = .typeMismatch target.type.text source.type.text := by
    rw [Value.type_relabel, Value.type_relabel, Ty.text_relabel, Ty.text_relabel]
  cases target with
  | range target =>
      cases source with
      | range source =>
          change Value.range <$> (target.relabel labels).assign source.number = _
          rw [RangeValue.assign_relabel]
          simp only [Value.assign]
          cases target.assign source.number <;> rfl
      | record | either | tag | array => exact congrArg Except.error hmismatch
  | either target =>
      change Value.either <$> (target.relabel labels).assign (source.relabel labels) = _
      rw [EitherValue.assign_relabel injective]
      simp only [Value.assign]
      cases target.assign source <;> rfl
  | record | tag | array => exact congrArg Except.error hmismatch

omit injective in
theorem Value.assignInt_relabel (target : Value) (number : Int64) :
    (target.relabel labels).assignInt number =
      (target.assignInt number).map (·.relabel labels) := by
  have hmismatch : Problem.typeMismatch (target.relabel labels).type.text number.toInt.repr =
      .typeMismatch target.type.text number.toInt.repr := by
    rw [Value.type_relabel, Ty.text_relabel]
  cases target with
  | range target =>
      change Value.range <$> (target.relabel labels).assign number = _
      rw [RangeValue.assign_relabel]
      simp only [Value.assignInt]
      cases target.assign number <;> rfl
  | record | either | tag | array => exact congrArg Except.error hmismatch

end

end StateModel
