import StateModel.Value

/-!
Default values: a range starts at its low end, an either in its first variant,
and records and arrays default every child.
-/
namespace StateModel

def RangeType.default (type : RangeType) : RangeValue := ⟨type, type.low⟩

mutual

def Ty.default : Ty → Value
  | .range type => .range type.default
  | .record type => .record type.default
  | .either type => .either type.default
  | .array type => .array type.default
  termination_by structural type => type

def RecordType.default : RecordType → RecordValue
  | ⟨header, fields, layout⟩ => ⟨⟨header, fields, layout⟩, Field.defaults fields⟩
  termination_by structural type => type

def Field.default : Field → Value
  | ⟨_, type⟩ => type.default
  termination_by structural field => field

def Field.defaults : List Field → List Value
  | [] => []
  | field :: rest => field.default :: Field.defaults rest
  termination_by structural fields => fields

def Variant.defaultPayload : Variant → Option RecordValue
  | ⟨_, _, _, none⟩ => none
  | ⟨_, _, _, some payload⟩ => some payload.default
  termination_by structural variant => variant

def EitherType.default : EitherType → EitherValue
  | ⟨header, first, rest⟩ => ⟨⟨⟨header, first, rest⟩, 0⟩, first.defaultPayload⟩
  termination_by structural type => type

def ArrayType.default : ArrayType → ArrayValue
  | ⟨header, element, index, small⟩ =>
      ⟨⟨header, element, index, small⟩, List.replicate index.interval.count element.default⟩
  termination_by structural type => type

end

theorem Field.defaults_eq_map (fields : List Field) :
    Field.defaults fields = fields.map (·.type.default) := by
  induction fields with
  | nil => rfl
  | cons field rest ih => cases field; simp [Field.defaults, Field.default, ih]

theorem RecordType.default_eq (type : RecordType) :
    type.default = ⟨type, type.fields.map (·.type.default)⟩ := by
  cases type; simp [RecordType.default, Field.defaults_eq_map]

theorem Variant.defaultPayload_eq (variant : Variant) :
    variant.defaultPayload = variant.payload.map RecordType.default := by
  obtain ⟨_, _, _, _ | _⟩ := variant <;> rfl

theorem ArrayType.default_eq (type : ArrayType) :
    type.default = ⟨type, List.replicate type.index.interval.count type.element.default⟩ := by
  cases type; rfl

def EitherValue.ofTag (tag : Tag) : EitherValue := ⟨tag, tag.variant.defaultPayload⟩

theorem EitherType.default_eq (type : EitherType) :
    type.default = EitherValue.ofTag type.firstTag := by
  cases type; rfl

end StateModel
