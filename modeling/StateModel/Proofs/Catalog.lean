import StateModel.Store
import StateModel.Proofs.WellFormed

/-!
Catalogs: the types that a run has built, each at the place of its number. Types
are compared by number alone, so a catalog is what makes the comparison mean
something: two types that it knows and that have one number are one type.
-/
namespace StateModel

mutual

def Ty.parts : Ty → List Ty
  | .range type => [.range type]
  | .record type => type.parts
  | .either type => type.parts
  | .array type => type.parts
  termination_by structural type => type

def RecordType.parts : RecordType → List Ty
  | ⟨header, fields, layout⟩ => .record ⟨header, fields, layout⟩ :: Field.partsList fields
  termination_by structural type => type

def Field.parts : Field → List Ty
  | ⟨_, type⟩ => type.parts
  termination_by structural field => field

def Field.partsList : List Field → List Ty
  | [] => []
  | field :: rest => field.parts ++ Field.partsList rest
  termination_by structural fields => fields

def Variant.parts : Variant → List Ty
  | ⟨_, _, _, none⟩ => []
  | ⟨_, _, _, some payload⟩ => payload.parts
  termination_by structural variant => variant

def Variant.partsList : List Variant → List Ty
  | [] => []
  | variant :: rest => variant.parts ++ Variant.partsList rest
  termination_by structural variants => variants

def EitherType.parts : EitherType → List Ty
  | ⟨header, first, rest⟩ =>
      .either ⟨header, first, rest⟩ :: (first.parts ++ Variant.partsList rest)
  termination_by structural type => type

def ArrayType.parts : ArrayType → List Ty
  | ⟨header, element, index, small⟩ =>
      .array ⟨header, element, index, small⟩ :: .range index :: element.parts
  termination_by structural type => type

end

theorem Field.mem_partsList {fields : List Field} {part : Ty} :
    part ∈ Field.partsList fields ↔ ∃ field ∈ fields, part ∈ field.type.parts := by
  induction fields with
  | nil => simp [Field.partsList]
  | cons field rest ih =>
      cases field
      simp [Field.partsList, Field.parts, ih]

theorem Variant.mem_parts {variant : Variant} {part : Ty} :
    part ∈ variant.parts ↔ ∃ payload, variant.payload = some payload ∧ part ∈ payload.parts := by
  obtain ⟨_, _, _, _ | _⟩ := variant <;> simp [Variant.parts]

theorem Variant.mem_partsList {variants : List Variant} {part : Ty} :
    part ∈ Variant.partsList variants ↔ ∃ variant ∈ variants, part ∈ variant.parts := by
  induction variants with
  | nil => simp [Variant.partsList]
  | cons variant rest ih => simp [Variant.partsList, ih]

theorem RecordType.mem_parts {type : RecordType} {part : Ty} :
    part ∈ type.parts ↔
      part = .record type ∨ ∃ field ∈ type.fields, part ∈ field.type.parts := by
  cases type
  simp [RecordType.parts, Field.mem_partsList]

theorem EitherType.mem_parts {type : EitherType} {part : Ty} :
    part ∈ type.parts ↔
      part = .either type ∨ ∃ variant ∈ type.variants, part ∈ variant.parts := by
  cases type
  simp [EitherType.parts, EitherType.variants, Variant.mem_partsList]

theorem ArrayType.mem_parts {type : ArrayType} {part : Ty} :
    part ∈ type.parts ↔
      part = .array type ∨ part = .range type.index ∨ part ∈ type.element.parts := by
  cases type
  simp [ArrayType.parts]

theorem Ty.induction {motive : Ty → Prop} (range : ∀ type, motive (.range type))
    (record : ∀ type : RecordType, (∀ field ∈ type.fields, motive field.type) →
      motive (.record type))
    (either : ∀ type : EitherType, (∀ variant ∈ type.variants, ∀ payload,
      variant.payload = some payload → motive (.record payload)) → motive (.either type))
    (array : ∀ type : ArrayType, motive type.element → motive (.array type)) (type : Ty) :
    motive type :=
  @Ty.rec motive (fun field => motive field.type) (fun type => motive (.record type))
    (fun variant => ∀ payload, variant.payload = some payload → motive (.record payload))
    (fun type => motive (.either type)) (fun type => motive (.array type))
    (fun fields => ∀ field ∈ fields, motive field.type)
    (fun shape => ∀ payload, shape = some payload → motive (.record payload))
    (fun variants => ∀ variant ∈ variants, ∀ payload,
      variant.payload = some payload → motive (.record payload))
    range (fun _ holds => holds) (fun _ holds => holds) (fun _ holds => holds)
    (fun _ _ holds => holds) (fun _ _ _ => record ⟨_, _, _⟩) (fun _ _ _ _ holds => holds)
    (fun _ _ _ first rest => either ⟨_, _, _⟩ (List.forall_mem_cons.2 ⟨first, rest⟩))
    (fun _ _ _ small => array ⟨_, _, _, small⟩)
    (by simp) (fun _ _ first rest => List.forall_mem_cons.2 ⟨first, rest⟩)
    nofun (fun _ holds _ given => Option.some.inj given ▸ holds)
    (by simp) (fun _ _ first rest => List.forall_mem_cons.2 ⟨first, rest⟩)
    type

theorem Ty.mem_parts_self (type : Ty) : type ∈ type.parts := by
  cases type with
  | range type => simp [Ty.parts]
  | record type => exact RecordType.mem_parts.2 (.inl rfl)
  | either type => exact EitherType.mem_parts.2 (.inl rfl)
  | array type => exact ArrayType.mem_parts.2 (.inl rfl)

/-- What the builders of types see to, one node at a time: a layout holds the names
of the fields in their order, the names of variants are distinct, and a variant stands
at its own place of its own type, with a payload that bears its name. -/
def Ty.Proper : Ty → Prop
  | .range _ | .array _ => True
  | .record type => type.InStep
  | .either type =>
      (type.variants.map (·.name)).Nodup ∧
        ∀ (place : Nat) (variant : Variant), type.variants[place]? = some variant →
          variant.index = place ∧ variant.parent = type.header.id ∧
          ∀ payload, variant.payload = some payload → payload.header.name = some variant.name

abbrev Catalog := List Ty

namespace Catalog

variable {catalog larger : Catalog}

/-- Each part of the type stands in the catalog at the place of its number. -/
def Knows (catalog : Catalog) (type : Ty) : Prop :=
  ∀ part ∈ type.parts, catalog[part.id]? = some part

theorem Knows.mono {type : Ty} (knows : catalog.Knows type) (grown : catalog <+: larger) :
    larger.Knows type := by
  intro part hpart
  have hplace := knows part hpart
  obtain ⟨added, rfl⟩ := grown
  rw [List.getElem?_append_left (List.getElem?_eq_some_iff.1 hplace).1]
  exact hplace

theorem Knows.self {type : Ty} (knows : catalog.Knows type) :
    catalog[type.id]? = some type :=
  knows type type.mem_parts_self

theorem Knows.eq_of_id {left right : Ty} (knowsLeft : catalog.Knows left)
    (knowsRight : catalog.Knows right) (same : left.id = right.id) : left = right := by
  have hleft := knowsLeft.self
  rw [same, knowsRight.self] at hleft
  exact (Option.some.inj hleft).symm

theorem Knows.either_eq {left right : EitherType} (knowsLeft : catalog.Knows (.either left))
    (knowsRight : catalog.Knows (.either right)) (same : left.header.id = right.header.id) :
    left = right :=
  Ty.either.inj (knowsLeft.eq_of_id knowsRight same)

theorem Knows.field {type : RecordType} (knows : catalog.Knows (.record type))
    {field : Field} (inside : field ∈ type.fields) : catalog.Knows field.type :=
  fun part hpart => knows part (RecordType.mem_parts.2 (.inr ⟨field, inside, hpart⟩))

theorem Knows.element {type : ArrayType} (knows : catalog.Knows (.array type)) :
    catalog.Knows type.element :=
  fun part hpart => knows part (ArrayType.mem_parts.2 (.inr (.inr hpart)))

theorem Knows.payload {type : EitherType} (knows : catalog.Knows (.either type))
    {variant : Variant} (inside : variant ∈ type.variants) {payload : RecordType}
    (given : variant.payload = some payload) : catalog.Knows (.record payload) :=
  fun part hpart => knows part (EitherType.mem_parts.2
    (.inr ⟨variant, inside, Variant.mem_parts.2 ⟨payload, given, hpart⟩⟩))

structure Sound (catalog : Catalog) : Prop where
  numbered : ∀ (place : Nat) (type : Ty), catalog[place]? = some type → type.id = place
  closed : ∀ type ∈ catalog, catalog.Knows type
  proper : ∀ type ∈ catalog, type.Proper

theorem sound_nil : Sound [] := by
  constructor <;> simp

theorem Sound.knows_part (sound : catalog.Sound) {type part : Ty} (knows : catalog.Knows type)
    (inside : part ∈ type.parts) : catalog.Knows part :=
  sound.closed part (List.mem_of_getElem? (knows part inside))

theorem Sound.append (sound : catalog.Sound) {type : Ty} (numbered : type.id = catalog.length)
    (inner : ∀ part ∈ type.parts, part ≠ type → catalog.Knows part) (proper : type.Proper) :
    Sound (catalog ++ [type]) ∧ Knows (catalog ++ [type]) type := by
  have hgrown : catalog <+: catalog ++ [type] := List.prefix_append ..
  have hknows : Knows (catalog ++ [type]) type := by
    intro part hpart
    by_cases same : part = type
    · rw [same, numbered]
      simp
    · exact ((inner part hpart same).mono hgrown).self
  refine ⟨⟨?_, ?_, ?_⟩, hknows⟩
  · intro place other hother
    rcases Nat.lt_or_ge place catalog.length with old | new
    · rw [List.getElem?_append_left old] at hother
      exact sound.numbered place other hother
    · have hplace := (List.getElem?_eq_some_iff.1 hother).1
      have hlast : place = catalog.length := by
        simp only [List.length_append, List.length_singleton] at hplace
        omega
      subst hlast
      simp only [List.getElem?_concat_length, Option.some.injEq] at hother
      rw [← hother, numbered]
  · intro other hother
    rcases List.mem_append.1 hother with old | new
    · exact (sound.closed other old).mono hgrown
    · rw [List.mem_singleton.1 new]
      exact hknows
  · intro other hother
    rcases List.mem_append.1 hother with old | new
    · exact sound.proper other old
    · rw [List.mem_singleton.1 new]
      exact proper

end Catalog

def Value.Sound (value : Value) : Prop := value.isTag = true ∨ value.type.Fits value

theorem Ty.Fits.sound {type : Ty} {value : Value} (fits : type.Fits value) : value.Sound :=
  .inr (fits.type_eq.symm ▸ fits)

theorem Value.Sound.fits {value : Value} (sound : value.Sound) (content : value.isTag = false) :
    value.type.Fits value := by
  rcases sound with constant | fits
  · simp [constant] at content
  · exact fits

theorem Ty.Fits.not_isTag {type : Ty} {value : Value} (fits : type.Fits value) :
    value.isTag = false := by
  cases type <;> cases value <;> simp_all [Ty.Fits, Value.isTag]

namespace Catalog

variable {catalog larger : Catalog}

def Holds (catalog : Catalog) (value : Value) : Prop :=
  value.Sound ∧ catalog.Knows value.type

theorem Holds.mono {value : Value} (holds : catalog.Holds value) (grown : catalog <+: larger) :
    larger.Holds value :=
  ⟨holds.1, holds.2.mono grown⟩

theorem Knows.holds {type : Ty} {value : Value} (knows : catalog.Knows type)
    (fits : type.Fits value) : catalog.Holds value :=
  ⟨fits.sound, fits.type_eq.symm ▸ knows⟩

/-- The catalog has every type that the store has numbered, and whatever the
store refers to is in it. -/
structure Covers (catalog : Catalog) (store : Store) : Prop where
  sound : catalog.Sound
  count : catalog.length = store.nextType
  types : ∀ frame name type, (store.frame frame).types.find? name = some type →
    catalog.Knows type
  cells : ∀ cell value, store.cell? cell = some value → catalog.Holds value

theorem covers_empty : Covers [] {} where
  sound := sound_nil
  count := rfl
  types := by intro frame name type found; simp [Store.frame] at found
  cells := by intro cell value found; simp [Store.cell?] at found

theorem Covers.newFrame {store : Store} (covers : catalog.Covers store) :
    catalog.Covers { store with frames := store.frames.push {} } where
  sound := covers.sound
  count := covers.count
  types := by
    intro frame name type found
    rw [Store.frame_push] at found
    exact covers.types frame name type found
  cells := covers.cells

theorem Covers.newCell {store : Store} (covers : catalog.Covers store) {value : Value}
    (holds : catalog.Holds value) :
    catalog.Covers { store with cells := store.cells.push value } where
  sound := covers.sound
  count := covers.count
  types := covers.types
  cells := by
    intro cell other found
    simp only [Store.cell?, Array.getElem?_push] at found
    split at found
    · rw [← Option.some.inj found]
      exact holds
    · exact covers.cells cell other found

theorem Covers.setCell {store : Store} (covers : catalog.Covers store) {value : Value}
    (holds : catalog.Holds value) (cell : CellId) :
    catalog.Covers { store with cells := store.cells.setIfInBounds cell value } where
  sound := covers.sound
  count := covers.count
  types := covers.types
  cells := by
    intro other held found
    simp only [Store.cell?, Array.getElem?_setIfInBounds] at found
    split at found
    · split at found
      · rw [← Option.some.inj found]
        exact holds
      · simp at found
    · exact covers.cells other held found

theorem Covers.setFrame {store : Store} (covers : catalog.Covers store) (id : FrameId)
    {frame : Frame} (known : ∀ name type, frame.types.find? name = some type → catalog.Knows type) :
    catalog.Covers (store.setFrame id frame) where
  sound := covers.sound
  count := covers.count
  types := by
    intro other name type found
    rcases store.frame_setFrame_eq_or id other frame with written | kept
    · rw [written] at found
      exact known name type found
    · rw [kept] at found
      exact covers.types other name type found
  cells := covers.cells

theorem Covers.number {store : Store} (covers : catalog.Covers store) {type : Ty}
    (numbered : type.id = store.nextType)
    (inner : ∀ part ∈ type.parts, part ≠ type → catalog.Knows part) (proper : type.Proper) :
    Covers (catalog ++ [type]) { store with nextType := store.nextType + 1 } ∧
      Knows (catalog ++ [type]) type := by
  have hgrown : catalog <+: catalog ++ [type] := List.prefix_append ..
  obtain ⟨hsound, hknows⟩ :=
    covers.sound.append (numbered.trans covers.count.symm) inner proper
  refine ⟨⟨hsound, ?_, ?_, ?_⟩, hknows⟩
  · simp [covers.count]
  · intro frame name other found
    exact (covers.types frame name other found).mono hgrown
  · intro cell value found
    exact (covers.cells cell value found).mono hgrown

end Catalog

end StateModel
