import StateModel.Proofs.Relabelling

/-!
Types and values under other numbers, which are other labels that leave every type in
its place. Texts, defaults and assignments are the same under any numbers that keep
different types apart.
-/
namespace StateModel

def Header.renumber (move : TypeId → TypeId) (header : Header) : Header :=
  { header with id := move header.id }

def RangeType.renumber (move : TypeId → TypeId) (type : RangeType) : RangeType :=
  { type with header := type.header.renumber move }

mutual

def Ty.renumber (move : TypeId → TypeId) : Ty → Ty
  | .range type => .range (type.renumber move)
  | .record type => .record (type.renumber move)
  | .either type => .either (type.renumber move)
  | .array type => .array (type.renumber move)
  termination_by structural type => type

def RecordType.renumber (move : TypeId → TypeId) : RecordType → RecordType
  | ⟨header, fields, layout⟩ =>
      ⟨header.renumber move, Field.renumberAll move fields, layout⟩
  termination_by structural type => type

def Field.renumber (move : TypeId → TypeId) : Field → Field
  | ⟨name, type⟩ => ⟨name, type.renumber move⟩
  termination_by structural field => field

def Field.renumberAll (move : TypeId → TypeId) : List Field → List Field
  | [] => []
  | field :: rest => field.renumber move :: Field.renumberAll move rest
  termination_by structural fields => fields

def Variant.renumber (move : TypeId → TypeId) : Variant → Variant
  | ⟨name, index, parent, none⟩ => ⟨name, index, move parent, none⟩
  | ⟨name, index, parent, some payload⟩ =>
      ⟨name, index, move parent, some (payload.renumber move)⟩
  termination_by structural variant => variant

def Variant.renumberAll (move : TypeId → TypeId) : List Variant → List Variant
  | [] => []
  | variant :: rest => variant.renumber move :: Variant.renumberAll move rest
  termination_by structural variants => variants

def EitherType.renumber (move : TypeId → TypeId) : EitherType → EitherType
  | ⟨header, first, rest⟩ =>
      ⟨header.renumber move, first.renumber move, Variant.renumberAll move rest⟩
  termination_by structural type => type

def ArrayType.renumber (move : TypeId → TypeId) : ArrayType → ArrayType
  | ⟨header, element, index, small⟩ =>
      ⟨header.renumber move, element.renumber move, index.renumber move, small⟩
  termination_by structural type => type

end

section

variable (move : TypeId → TypeId)

@[simp] theorem Field.renumberAll_eq_map (fields : List Field) :
    Field.renumberAll move fields = fields.map (·.renumber move) := by
  induction fields with
  | nil => rfl
  | cons field rest ih => simp [Field.renumberAll, ih]

@[simp] theorem Variant.renumberAll_eq_map (variants : List Variant) :
    Variant.renumberAll move variants = variants.map (·.renumber move) := by
  induction variants with
  | nil => rfl
  | cons variant rest ih => simp [Variant.renumberAll, ih]

@[simp] theorem EitherType.rest_renumber (type : EitherType) :
    (type.renumber move).rest = type.rest.map (·.renumber move) := by
  cases type
  simp [EitherType.renumber]

end

def Tag.renumber (move : TypeId → TypeId) (tag : Tag) : Tag :=
  ⟨tag.either.renumber move, tag.index.cast (by simp)⟩

def RangeValue.renumber (move : TypeId → TypeId) (range : RangeValue) : RangeValue :=
  ⟨range.type.renumber move, range.number⟩

mutual

def Value.renumber (move : TypeId → TypeId) : Value → Value
  | .range value => .range (value.renumber move)
  | .record value => .record (value.renumber move)
  | .either value => .either (value.renumber move)
  | .tag constant => .tag (constant.renumber move)
  | .array value => .array (value.renumber move)
  termination_by structural value => value

def Value.renumberAll (move : TypeId → TypeId) : List Value → List Value
  | [] => []
  | value :: rest => value.renumber move :: Value.renumberAll move rest
  termination_by structural values => values

def RecordValue.renumber (move : TypeId → TypeId) : RecordValue → RecordValue
  | ⟨type, children⟩ => ⟨type.renumber move, Value.renumberAll move children⟩
  termination_by structural record => record

def EitherValue.renumber (move : TypeId → TypeId) : EitherValue → EitherValue
  | ⟨tag, none⟩ => ⟨tag.renumber move, none⟩
  | ⟨tag, some payload⟩ => ⟨tag.renumber move, some (payload.renumber move)⟩
  termination_by structural either => either

def ArrayValue.renumber (move : TypeId → TypeId) : ArrayValue → ArrayValue
  | ⟨type, items⟩ => ⟨type.renumber move, Value.renumberAll move items⟩
  termination_by structural array => array

end

/-! Another number is another label. -/

def Relabelling.ofNumbers (move : TypeId → TypeId) : Relabelling := ⟨move, id⟩

mutual

theorem Ty.renumber_eq_relabel (move : TypeId → TypeId) : (type : Ty) →
    type.renumber move = type.relabel (.ofNumbers move)
  | .range _ => rfl
  | .record type => congrArg Ty.record (RecordType.renumber_eq_relabel move type)
  | .either type => congrArg Ty.either (EitherType.renumber_eq_relabel move type)
  | .array type => congrArg Ty.array (ArrayType.renumber_eq_relabel move type)
  termination_by structural type => type

theorem RecordType.renumber_eq_relabel (move : TypeId → TypeId) : (type : RecordType) →
    type.renumber move = type.relabel (.ofNumbers move)
  | ⟨header, fields, layout⟩ => by
      rw [RecordType.renumber, Field.renumberAll_eq_relabelAll move fields]
      rfl
  termination_by structural type => type

theorem Field.renumber_eq_relabel (move : TypeId → TypeId) : (field : Field) →
    field.renumber move = field.relabel (.ofNumbers move)
  | ⟨name, type⟩ => congrArg (Field.mk name) (Ty.renumber_eq_relabel move type)
  termination_by structural field => field

theorem Field.renumberAll_eq_relabelAll (move : TypeId → TypeId) : (fields : List Field) →
    Field.renumberAll move fields = Field.relabelAll (.ofNumbers move) fields
  | [] => rfl
  | field :: rest => by
      rw [Field.renumberAll, Field.renumber_eq_relabel move field,
        Field.renumberAll_eq_relabelAll move rest]
      rfl
  termination_by structural fields => fields

theorem Variant.renumber_eq_relabel (move : TypeId → TypeId) : (variant : Variant) →
    variant.renumber move = variant.relabel (.ofNumbers move)
  | ⟨_, _, _, none⟩ => rfl
  | ⟨name, index, parent, some payload⟩ => by
      rw [Variant.renumber, RecordType.renumber_eq_relabel move payload]
      rfl
  termination_by structural variant => variant

theorem Variant.renumberAll_eq_relabelAll (move : TypeId → TypeId) : (variants : List Variant) →
    Variant.renumberAll move variants = Variant.relabelAll (.ofNumbers move) variants
  | [] => rfl
  | variant :: rest => by
      rw [Variant.renumberAll, Variant.renumber_eq_relabel move variant,
        Variant.renumberAll_eq_relabelAll move rest]
      rfl
  termination_by structural variants => variants

theorem EitherType.renumber_eq_relabel (move : TypeId → TypeId) : (type : EitherType) →
    type.renumber move = type.relabel (.ofNumbers move)
  | ⟨header, first, rest⟩ => by
      rw [EitherType.renumber, Variant.renumber_eq_relabel move first,
        Variant.renumberAll_eq_relabelAll move rest]
      rfl
  termination_by structural type => type

theorem ArrayType.renumber_eq_relabel (move : TypeId → TypeId) : (type : ArrayType) →
    type.renumber move = type.relabel (.ofNumbers move)
  | ⟨header, element, index, small⟩ => by
      rw [ArrayType.renumber, Ty.renumber_eq_relabel move element]
      rfl
  termination_by structural type => type

end

theorem Tag.renumber_eq_relabel (move : TypeId → TypeId) (tag : Tag) :
    tag.renumber move = tag.relabel (.ofNumbers move) :=
  Tag.eq_of_index (EitherType.renumber_eq_relabel move tag.either) rfl

mutual

theorem Value.renumber_eq_relabel (move : TypeId → TypeId) : (value : Value) →
    value.renumber move = value.relabel (.ofNumbers move)
  | .range _ => rfl
  | .record value => congrArg Value.record (RecordValue.renumber_eq_relabel move value)
  | .either value => congrArg Value.either (EitherValue.renumber_eq_relabel move value)
  | .tag constant => congrArg Value.tag (constant.renumber_eq_relabel move)
  | .array value => congrArg Value.array (ArrayValue.renumber_eq_relabel move value)
  termination_by structural value => value

theorem Value.renumberAll_eq_relabelAll (move : TypeId → TypeId) : (values : List Value) →
    Value.renumberAll move values = Value.relabelAll (.ofNumbers move) values
  | [] => rfl
  | value :: rest => by
      rw [Value.renumberAll, Value.renumber_eq_relabel move value,
        Value.renumberAll_eq_relabelAll move rest]
      rfl
  termination_by structural values => values

theorem RecordValue.renumber_eq_relabel (move : TypeId → TypeId) : (record : RecordValue) →
    record.renumber move = record.relabel (.ofNumbers move)
  | ⟨type, children⟩ => by
      rw [RecordValue.renumber, type.renumber_eq_relabel move,
        Value.renumberAll_eq_relabelAll move children]
      rfl
  termination_by structural record => record

theorem EitherValue.renumber_eq_relabel (move : TypeId → TypeId) : (either : EitherValue) →
    either.renumber move = either.relabel (.ofNumbers move)
  | ⟨tag, none⟩ => congrArg (EitherValue.mk · none) (tag.renumber_eq_relabel move)
  | ⟨tag, some payload⟩ => by
      rw [EitherValue.renumber, tag.renumber_eq_relabel move,
        RecordValue.renumber_eq_relabel move payload]
      rfl
  termination_by structural either => either

theorem ArrayValue.renumber_eq_relabel (move : TypeId → TypeId) : (array : ArrayValue) →
    array.renumber move = array.relabel (.ofNumbers move)
  | ⟨type, items⟩ => by
      rw [ArrayValue.renumber, type.renumber_eq_relabel move,
        Value.renumberAll_eq_relabelAll move items]
      rfl
  termination_by structural array => array

end

/-! So it changes nothing that other labels do not change. -/

section

variable (move : TypeId → TypeId)

theorem Ty.text_renumber (type : Ty) : (type.renumber move).text = type.text := by
  rw [type.renumber_eq_relabel, type.text_relabel]

@[simp] theorem Value.renumberAll_eq_map (values : List Value) :
    Value.renumberAll move values = values.map (·.renumber move) := by
  simp only [Value.renumberAll_eq_relabelAll, Value.relabelAll_eq_map, Value.renumber_eq_relabel]

@[simp] theorem Value.type_renumber (value : Value) :
    (value.renumber move).type = value.type.renumber move := by
  rw [value.renumber_eq_relabel, value.type_relabel, Ty.renumber_eq_relabel]

theorem Value.text_renumber (value : Value) : (value.renumber move).text = value.text := by
  rw [value.renumber_eq_relabel, value.text_relabel]

end

/-! What keeps its numbers is the same. -/

section

variable {move : TypeId → TypeId}

theorem Header.renumber_eq {header : Header} (fixed : move header.id = header.id) :
    header.renumber move = header := by
  rw [Header.renumber, fixed]

theorem map_eq_self {α : Type} {change : α → α} {list : List α}
    (fixed : ∀ item ∈ list, change item = item) : list.map change = list :=
  (List.map_congr_left fixed).trans list.map_id

theorem RecordType.renumber_eq {type : RecordType}
    (header : type.header.renumber move = type.header)
    (fields : ∀ field ∈ type.fields, field.type.renumber move = field.type) :
    type.renumber move = type := by
  obtain ⟨typeHeader, typeFields⟩ := type
  rw [RecordType.renumber, Field.renumberAll_eq_map, map_eq_self, show typeHeader.renumber move =
    typeHeader from header]
  intro field inside
  obtain ⟨name, type⟩ := field
  rw [Field.renumber, show type.renumber move = type from fields _ inside]

theorem Variant.renumber_eq {variant : Variant} (parent : move variant.parent = variant.parent)
    (payload : ∀ shape, variant.payload = some shape → shape.renumber move = shape) :
    variant.renumber move = variant := by
  obtain ⟨name, index, owner, _ | shape⟩ := variant
  · rw [Variant.renumber, show move owner = owner from parent]
  · rw [Variant.renumber, show move owner = owner from parent, payload shape rfl]

theorem EitherType.renumber_eq {type : EitherType}
    (header : type.header.renumber move = type.header)
    (variants : ∀ variant ∈ type.variants, variant.renumber move = variant) :
    type.renumber move = type := by
  obtain ⟨typeHeader, first, rest⟩ := type
  obtain ⟨hfirst, hrest⟩ := List.forall_mem_cons.1 variants
  rw [EitherType.renumber, Variant.renumberAll_eq_map, map_eq_self hrest, hfirst,
    show typeHeader.renumber move = typeHeader from header]

theorem ArrayType.renumber_eq {type : ArrayType}
    (header : type.header.renumber move = type.header)
    (element : type.element.renumber move = type.element)
    (index : type.index.header.renumber move = type.index.header) :
    type.renumber move = type := by
  obtain ⟨typeHeader, typeElement, ⟨indexHeader, interval⟩, small⟩ := type
  rw [ArrayType.renumber, show typeHeader.renumber move = typeHeader from header,
    show typeElement.renumber move = typeElement from element]
  simp only [RangeType.renumber, show indexHeader.renumber move = indexHeader from index]

theorem Tag.renumber_eq {tag : Tag} (either : tag.either.renumber move = tag.either) :
    tag.renumber move = tag :=
  Tag.eq_of_index either rfl

end

end StateModel
