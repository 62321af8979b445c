import StateModel.Proofs.Reaching
import StateModel.Proofs.Rendering

/-!
Equality of values and what can be seen of them. Of the values that one catalog knows,
those that are equal are one value, so nothing that a client does can tell them apart;
and values of one kind and one type are equal as soon as every path shows the same
integer or the same tag at its end in both.
-/
namespace StateModel

inductive ValueKind where
  | range
  | record
  | either
  | tag
  | array

namespace Value

def kind : Value → ValueKind
  | .range _ => .range
  | .record _ => .record
  | .either _ => .either
  | .tag _ => .tag
  | .array _ => .array

def number? : Value → Option Int64
  | .range content => some content.number
  | .record _ | .either _ | .tag _ | .array _ => none

def shownTag? : Value → Option Tag
  | .either content => some content.tag
  | .tag constant => some constant
  | .range _ | .record _ | .array _ => none

/-- Nothing differs that is seen without going on into the values. -/
structure Agree (left right : Value) : Prop where
  number : left.number? = right.number?
  tag : Option.Rel (fun left right => left.same right = true) left.shownTag? right.shownTag?

def AgreeAt (left right : Value) (path : Path) : Prop :=
  match left.get path, right.get path with
  | .ok leftNode, .ok rightNode => leftNode.Agree rightNode
  | .error _, .error _ => True
  | .ok _, .error _ | .error _, .ok _ => False

theorem agree_self (value : Value) : value.Agree value := by
  refine ⟨rfl, ?_⟩
  cases value.shownTag? with
  | none => exact .none
  | some tag => exact .some tag.same_self

theorem agreeAt_self (value : Value) (path : Path) : value.AgreeAt value path := by
  unfold AgreeAt
  cases value.get path with
  | ok node => exact node.agree_self
  | error problem => trivial

theorem AgreeAt.child {left right leftChild rightChild : Value} (step : Step)
    (agree : ∀ path, left.AgreeAt right path) (atLeft : left.child step = .ok leftChild)
    (atRight : right.child step = .ok rightChild) (path : Path) :
    leftChild.AgreeAt rightChild path := by
  have hpath := agree (step :: path)
  unfold AgreeAt at hpath
  rw [get_cons, get_cons, atLeft, atRight] at hpath
  exact hpath

end Value

theorem Value.equalLists_iff {lefts rights : List Value} :
    Value.equalLists lefts rights = true ↔
      List.Forall₂ (fun left right => left.equals right = true) lefts rights := by
  induction lefts generalizing rights with
  | nil => cases rights <;> simp [Value.equalLists]
  | cons left lefts ih => cases rights <;> simp [Value.equalLists, ih]

theorem RecordValue.equals_iff {left right : RecordValue} :
    left.equals right = true ↔ left.type.header.id = right.type.header.id ∧
      List.Forall₂ (fun left right => left.equals right = true) left.children right.children := by
  obtain ⟨type, children⟩ := left
  rw [RecordValue.equals, Bool.and_eq_true, beq_iff_eq, Value.equalLists_iff]

theorem ArrayValue.equals_iff {left right : ArrayValue} :
    left.equals right = true ↔ left.type.header.id = right.type.header.id ∧
      List.Forall₂ (fun left right => left.equals right = true) left.items right.items := by
  obtain ⟨type, items⟩ := left
  rw [ArrayValue.equals, Bool.and_eq_true, beq_iff_eq, Value.equalLists_iff]

theorem EitherValue.equals_iff {left right : EitherValue} :
    left.equals right = true ↔ left.tag.same right.tag = true ∧
      Option.Rel (fun left right => left.equals right = true) left.payload right.payload := by
  obtain ⟨tag, _ | payload⟩ := left
  · rcases right with ⟨other, _ | otherPayload⟩ <;> simp [EitherValue.equals]
  · rcases right with ⟨other, _ | otherPayload⟩ <;> simp [EitherValue.equals]

/-! Values that fit one type. -/

theorem Tag.eq_of_same {left right : Tag} (built : left.either = right.either)
    (same : left.same right = true) : left = right :=
  Tag.eq_of_index built (eq_of_beq (Bool.and_eq_true_iff.1 same).2)

theorem Tag.variant_mem (tag : Tag) : tag.variant ∈ tag.either.variants :=
  List.getElem_mem tag.index.isLt

section

variable {left right : Value}

theorem Ty.Fits.eq_of_equals {type : Ty} (fitsLeft : type.Fits left) (fitsRight : type.Fits right)
    (equal : left.equals right = true) : left = right := by
  induction type using Ty.induction generalizing left right with
  | range type =>
      obtain ⟨number, rfl, -⟩ := Ty.fits_range_iff.1 fitsLeft
      obtain ⟨other, rfl, -⟩ := Ty.fits_range_iff.1 fitsRight
      have hnumber : number = other := eq_of_beq (Bool.and_eq_true_iff.1 equal).2
      rw [hnumber]
  | record type ih =>
      obtain ⟨lefts, rfl, hlefts⟩ := Ty.fits_record_iff.1 fitsLeft
      obtain ⟨rights, rfl, hrights⟩ := Ty.fits_record_iff.1 fitsRight
      have hequal := (RecordValue.equals_iff.1 equal).2
      have hchildren : lefts = rights := by
        refine List.ext_getElem hequal.length_eq fun place atLeft atRight => ?_
        have hfield : place < type.fields.length := by rwa [hlefts.length_eq]
        exact ih _ (List.getElem_mem hfield) (hlefts.get hfield atLeft)
          (hrights.get hfield atRight) (hequal.get atLeft atRight)
      rw [hchildren]
  | either type ih =>
      obtain ⟨tag, payload, rfl, hbuilt, hfits⟩ := Ty.fits_either_iff.1 fitsLeft
      obtain ⟨other, otherPayload, rfl, hbuiltOther, hotherFits⟩ :=
        Ty.fits_either_iff.1 fitsRight
      obtain ⟨htag, hpayload⟩ := EitherValue.equals_iff.1 equal
      cases Tag.eq_of_same (hbuilt.trans hbuiltOther.symm) htag
      rcases hfits.shapes hotherFits with
        ⟨rfl, rfl⟩ | ⟨shape, given, record, otherRecord, rfl, rfl, hleft, hright⟩
      · rfl
      · have hrecord := Option.rel_some_some.1 hpayload
        have hsame : Value.record record = .record otherRecord :=
          ih _ (hbuilt ▸ tag.variant_mem) shape given hleft hright hrecord
        rw [Value.record.inj hsame]
  | array type ih =>
      obtain ⟨lefts, rfl, -, hlefts⟩ := Ty.fits_array_iff.1 fitsLeft
      obtain ⟨rights, rfl, -, hrights⟩ := Ty.fits_array_iff.1 fitsRight
      have hequal := (ArrayValue.equals_iff.1 equal).2
      have hitems : lefts = rights := by
        refine List.ext_getElem hequal.length_eq fun place atLeft atRight => ?_
        exact ih (hlefts _ (List.getElem_mem atLeft)) (hrights _ (List.getElem_mem atRight))
          (hequal.get atLeft atRight)
      rw [hitems]

theorem Value.AgreeAt.payload {tag other : Tag} {leftPayload rightPayload : RecordValue}
    (agree : ∀ path, (Value.either ⟨tag, some leftPayload⟩).AgreeAt
      (.either ⟨other, some rightPayload⟩) path) (path : Path) :
    (Value.record leftPayload).AgreeAt (.record rightPayload) path := by
  cases path with
  | nil => exact ⟨rfl, .none⟩
  | cons step rest =>
      cases step with
      | field name => exact agree (.field name :: rest)
      | index index => trivial

theorem Catalog.Knows.eq_of_agree {catalog : Catalog} (sound : catalog.Sound) {type : Ty}
    (knows : catalog.Knows type) (fitsLeft : type.Fits left) (fitsRight : type.Fits right)
    (agree : ∀ path, left.AgreeAt right path) : left = right := by
  induction type using Ty.induction generalizing left right with
  | range type =>
      obtain ⟨number, rfl, -⟩ := Ty.fits_range_iff.1 fitsLeft
      obtain ⟨other, rfl, -⟩ := Ty.fits_range_iff.1 fitsRight
      have hnumber : number = other := Option.some.inj (agree []).number
      rw [hnumber]
  | record type ih =>
      obtain ⟨lefts, rfl, hlefts⟩ := Ty.fits_record_iff.1 fitsLeft
      obtain ⟨rights, rfl, hrights⟩ := Ty.fits_record_iff.1 fitsRight
      have hinStep := sound.proper _ (List.mem_of_getElem? knows.self)
      have hchildren : lefts = rights := by
        refine List.ext_getElem (hlefts.length_eq.symm.trans hrights.length_eq)
          fun place atLeft atRight => ?_
        have hfield : place < type.fields.length := by rwa [hlefts.length_eq]
        obtain ⟨name, hname⟩ := type.exists_fieldIndex? hinStep hfield
        have hinside := List.getElem_mem hfield
        refine ih _ hinside (knows.field hinside) (hlefts.get hfield atLeft)
          (hrights.get hfield atRight) (Value.AgreeAt.child (.field name) agree ?_ ?_)
        · exact RecordValue.field_eq_ok_iff.2 ⟨place, hname, List.getElem?_eq_getElem atLeft⟩
        · exact RecordValue.field_eq_ok_iff.2 ⟨place, hname, List.getElem?_eq_getElem atRight⟩
      rw [hchildren]
  | either type ih =>
      obtain ⟨tag, payload, rfl, hbuilt, hfits⟩ := Ty.fits_either_iff.1 fitsLeft
      obtain ⟨other, otherPayload, rfl, hbuiltOther, hotherFits⟩ :=
        Ty.fits_either_iff.1 fitsRight
      have htag : Option.Rel _ (some tag) (some other) := (agree []).tag
      rw [Option.rel_some_some] at htag
      cases Tag.eq_of_same (hbuilt.trans hbuiltOther.symm) htag
      rcases hfits.shapes hotherFits with
        ⟨rfl, rfl⟩ | ⟨shape, given, record, otherRecord, rfl, rfl, hleft, hright⟩
      · rfl
      · have hinside : tag.variant ∈ type.variants := hbuilt ▸ tag.variant_mem
        have hsame : Value.record record = .record otherRecord :=
          ih _ hinside shape given (knows.payload hinside given) hleft hright
            (Value.AgreeAt.payload agree)
        rw [Value.record.inj hsame]
  | array type ih =>
      obtain ⟨lefts, rfl, hcount, hlefts⟩ := Ty.fits_array_iff.1 fitsLeft
      obtain ⟨rights, rfl, hcountOther, hrights⟩ := Ty.fits_array_iff.1 fitsRight
      have hitems : lefts = rights := by
        refine List.ext_getElem (hcount.trans hcountOther.symm) fun place atLeft atRight => ?_
        have hoffset := Interval.offset?_valueAt (hcount ▸ atLeft)
        refine ih knows.element (hlefts _ (List.getElem_mem atLeft))
          (hrights _ (List.getElem_mem atRight))
          (Value.AgreeAt.child (.index (type.index.interval.valueAt place)) agree ?_ ?_)
        · exact ArrayValue.item_eq_ok_iff.2 ⟨place, hoffset, List.getElem?_eq_getElem atLeft⟩
        · exact ArrayValue.item_eq_ok_iff.2 ⟨place, hoffset, List.getElem?_eq_getElem atRight⟩
      rw [hitems]

end

/-! Values that a catalog holds. -/

theorem Value.kind_of_equals {left right : Value} (equal : left.equals right = true) :
    left.kind = right.kind := by
  cases left <;> cases right <;> first | rfl | cases equal

theorem Value.isTag_of_kind {left right : Value} (same : left.kind = right.kind) :
    left.isTag = right.isTag := by
  cases left <;> cases right <;> first | rfl | cases same

namespace Catalog

variable {catalog : Catalog} {left right : Value}

theorem Holds.eq_of_tags {tag other : Tag} (holdsLeft : catalog.Holds (.tag tag))
    (holdsRight : catalog.Holds (.tag other)) (same : tag.same other = true) : tag = other :=
  Tag.eq_of_same (holdsLeft.2.either_eq holdsRight.2 (Tag.id_of_same same)) same

theorem Holds.eq_of_equals (holdsLeft : catalog.Holds left) (holdsRight : catalog.Holds right)
    (equal : left.equals right = true) : left = right := by
  have hkind := Value.isTag_of_kind (Value.kind_of_equals equal)
  have htype : left.type = right.type :=
    holdsLeft.2.eq_of_id holdsRight.2 (Ty.same_iff.1 (Value.same_of_equals equal))
  cases content : left.isTag with
  | false =>
      have hright := holdsRight.fits (hkind.symm.trans content)
      exact (holdsLeft.fits content).eq_of_equals (htype ▸ hright) equal
  | true =>
      cases left with
      | range | record | either | array => cases content
      | tag tag =>
          cases right with
          | range | record | either | array => cases equal
          | tag other => rw [holdsLeft.eq_of_tags holdsRight equal]

/-- For what a catalog holds, equality decides identity. -/
theorem Holds.equals_iff_eq (holdsLeft : catalog.Holds left) (holdsRight : catalog.Holds right) :
    left.equals right = true ↔ left = right := by
  constructor
  · exact holdsLeft.eq_of_equals holdsRight
  · rintro rfl
    exact left.equals_self

theorem Holds.equals_iff_agreeAt (sound : catalog.Sound) (holdsLeft : catalog.Holds left)
    (holdsRight : catalog.Holds right) :
    left.equals right = true ↔ left.kind = right.kind ∧ left.type.same right.type = true ∧
      ∀ path, left.AgreeAt right path := by
  rw [holdsLeft.equals_iff_eq holdsRight]
  constructor
  · rintro rfl
    exact ⟨rfl, Ty.same_iff.2 rfl, left.agreeAt_self⟩
  · rintro ⟨kind, same, agree⟩
    have htype := holdsLeft.2.eq_of_id holdsRight.2 (Ty.same_iff.1 same)
    have htag := Value.isTag_of_kind kind
    cases content : left.isTag with
    | false =>
        have hright := holdsRight.fits (htag.symm.trans content)
        exact holdsLeft.2.eq_of_agree sound (holdsLeft.fits content) (htype ▸ hright) agree
    | true =>
        cases left with
        | range | record | either | array => cases content
        | tag tag =>
            cases right with
            | range | record | either | array => cases kind
            | tag other =>
                have hsame : Option.Rel _ (some tag) (some other) := (agree []).tag
                rw [Option.rel_some_some] at hsame
                rw [holdsLeft.eq_of_tags holdsRight hsame]

end Catalog

namespace Value

def SameOutcome : Except Problem Value → Except Problem Value → Prop
  | .ok left, .ok right => left.equals right = true
  | .error problem, .error other => problem = other
  | .ok _, .error _ | .error _, .ok _ => False

theorem sameOutcome_self (outcome : Except Problem Value) : SameOutcome outcome outcome := by
  cases outcome with
  | ok value => exact value.equals_self
  | error problem => rfl

/-- What one of the two answers to a client, the other answers too. -/
structure Interchangeable (left right : Value) : Prop where
  text : left.text = right.text
  bareText : left.bareText = right.bareText
  reads : ∀ path, SameOutcome (left.get path) (right.get path)
  mutations : ∀ path mutation, SameOutcome (left.mutate path mutation) (right.mutate path mutation)
  writes : ∀ path write, SameOutcome (left.write write path) (right.write write path)

theorem interchangeable_self (value : Value) : value.Interchangeable value where
  text := rfl
  bareText := rfl
  reads := fun _ => sameOutcome_self _
  mutations := fun _ _ => sameOutcome_self _
  writes := fun _ _ => sameOutcome_self _

end Value

namespace Session

/-- The well-formed values of the types that there are, and the constants of them. -/
def HasValue (session : Session) (value : Value) : Prop :=
  value.Sound ∧ session.HasType value.type

variable {session : Session} {catalog : Catalog}

theorem Valid.holds_of_hasValue (valid : session.Valid catalog) {value : Value}
    (has : session.HasValue value) : catalog.Holds value :=
  ⟨has.1, valid.type_of_hasType has.2⟩

theorem Valid.hasValue_of_get (valid : session.Valid catalog) {root : Root} {path : Path}
    {value part : Value} (found : session.find? root = some value)
    (reached : value.get path = .ok part) : session.HasValue part :=
  ⟨((valid.root_held found).get reached).1, .value found reached⟩

theorem HasTag.hasValue {tag : Tag} (has : session.HasTag tag) : session.HasValue (.tag tag) :=
  ⟨.inl rfl, has.hasType⟩

/-- Equality of all values that there are, tags among them, those included that a client
reaches: it is an equivalence, it holds exactly where kind and type are the same and all
paths agree, and no client can tell equal values apart. -/
theorem equals_iff_agree (ops : List Op) :
    (∀ root path value part, (run ops).find? root = some value → value.get path = .ok part →
      (run ops).HasValue part) ∧
    (∀ tag, (run ops).HasTag tag → (run ops).HasValue (.tag tag)) ∧
    (∀ value, (run ops).HasValue value → value.equals value = true) ∧
    (∀ left right, (run ops).HasValue left → (run ops).HasValue right →
      left.equals right = true → right.equals left = true) ∧
    (∀ left middle right, (run ops).HasValue left → (run ops).HasValue middle →
      (run ops).HasValue right → left.equals middle = true → middle.equals right = true →
        left.equals right = true) ∧
    ∀ left right, (run ops).HasValue left → (run ops).HasValue right →
      (left.equals right = true ↔ left.kind = right.kind ∧ left.type.same right.type = true ∧
        ∀ path, left.AgreeAt right path) ∧
      (left.equals right = true → left.Interchangeable right) := by
  obtain ⟨catalog, hvalid⟩ := valid_run ops
  have hsame : ∀ left right, (run ops).HasValue left → (run ops).HasValue right →
      (left.equals right = true ↔ left = right) := fun left right hasLeft hasRight =>
    (hvalid.holds_of_hasValue hasLeft).equals_iff_eq (hvalid.holds_of_hasValue hasRight)
  refine ⟨fun _ _ _ _ => hvalid.hasValue_of_get, fun _ => HasTag.hasValue,
    fun value _ => value.equals_self, ?_, ?_, fun left right hasLeft hasRight => ⟨?_, ?_⟩⟩
  · intro left right hasLeft hasRight equal
    rw [(hsame left right hasLeft hasRight).1 equal]
    exact right.equals_self
  · intro left middle right hasLeft hasMiddle _ first rest
    rwa [(hsame left middle hasLeft hasMiddle).1 first]
  · exact (hvalid.holds_of_hasValue hasLeft).equals_iff_agreeAt hvalid.covers.sound
      (hvalid.holds_of_hasValue hasRight)
  · intro equal
    rw [(hsame left right hasLeft hasRight).1 equal]
    exact right.interchangeable_self

end Session

end StateModel
