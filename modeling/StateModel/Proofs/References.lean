import StateModel.Proofs.Grammar

/-!
References into values: a part that can be written, together with what becomes of the whole
when something else is put in its place. They are found by steps of their own, with other
tests of whether there is something, and still lead where reading leads and stop where and
why reading stops. Reading in turn finds what an enumeration of the parts lists.
-/
namespace StateModel

/-- A part, and the whole with something else in its place. -/
structure Reference (Whole Part : Type) where
  content : Part
  put : Part → Whole

namespace Reference

variable {Outer Whole Part : Type}

def within (reference : Reference Whole Part) (contain : Whole → Outer) : Reference Outer Part :=
  ⟨reference.content, contain ∘ reference.put⟩

def edit (reference : Reference Whole Part) (change : Part → Except Problem Part) :
    Except Problem Whole :=
  reference.put <$> change reference.content

theorem content_mk (read : Except Problem Part) (put : Part → Whole) :
    content <$> (mk · put) <$> read = read := by
  cases read <;> rfl

theorem edit_mk (read : Except Problem Part) (put : Part → Whole)
    (change : Part → Except Problem Part) :
    ((mk · put) <$> read >>= (·.edit change)) = do return put (← change (← read)) := by
  cases read <;> rfl

theorem within_mk (read : Except Problem Part) (put : Part → Whole) (contain : Whole → Outer) :
    (·.within contain) <$> (mk · put) <$> read = (mk · (contain ∘ put)) <$> read := by
  cases read <;> rfl

end Reference

/-! How references are found, which is by reading, and what they put. -/

namespace RecordValue

def fieldReference (record : RecordValue) (name : String) :
    Except Problem (Reference RecordValue Value) :=
  match record.type.fieldIndex? name with
  | none => .error (.unknownField name record.type.text)
  | some place =>
      if inside : place < record.children.length then
        .ok ⟨record.children[place], fun child =>
          { record with children := record.children.set place child }⟩
      else
        .error (.unknownField name record.type.text)

theorem fieldReference_eq (record : RecordValue) (name : String) :
    record.fieldReference name = (.mk · (record.setField name)) <$> record.field name := by
  unfold fieldReference field setField
  cases record.type.fieldIndex? name with
  | none => rfl
  | some place =>
      by_cases inside : place < record.children.length
      · simp only [dif_pos inside, Option.bind_some, List.getElem?_eq_getElem inside]
        rfl
      · simp only [dif_neg inside, Option.bind_some, List.getElem?_eq_none (Nat.not_lt.1 inside)]
        rfl

end RecordValue

namespace ArrayValue

def itemReference (array : ArrayValue) (index : Int64) :
    Except Problem (Reference ArrayValue Value) :=
  match array.type.index.interval.offset? index with
  | none => .error (array.outside index)
  | some place =>
      if inside : place < array.items.length then
        .ok ⟨array.items[place], fun item => { array with items := array.items.set place item }⟩
      else
        .error (array.outside index)

theorem itemReference_eq (array : ArrayValue) (index : Int64) :
    array.itemReference index = (.mk · (array.setItem index)) <$> array.item index := by
  unfold itemReference item setItem
  cases array.type.index.interval.offset? index with
  | none => rfl
  | some place =>
      by_cases inside : place < array.items.length
      · simp only [dif_pos inside, Option.bind_some, List.getElem?_eq_getElem inside]
        rfl
      · simp only [dif_neg inside, Option.bind_some, List.getElem?_eq_none (Nat.not_lt.1 inside)]
        rfl

end ArrayValue

/-- What an either value holds at the moment, to be written. The tag is only read. -/
inductive ActiveReference where
  | constant (tag : Tag)
  | record (tag : Tag) (payload : Reference EitherValue RecordValue)

namespace EitherValue

def activeReference (either : EitherValue) : ActiveReference :=
  match either.payload with
  | some payload =>
      .record either.tag ⟨payload, fun payload => { either with payload := some payload }⟩
  | none => .constant either.tag

def fieldReference (either : EitherValue) (name : String) :
    Except Problem (Reference EitherValue Value) :=
  match either.activeReference with
  | .record _ payload => (·.within payload.put) <$> payload.content.fieldReference name
  | .constant tag => .error (.unknownField name tag.text)

theorem fieldReference_eq (either : EitherValue) (name : String) :
    either.fieldReference name = (.mk · (either.setField name)) <$> either.field name := by
  obtain ⟨tag, _ | payload⟩ := either
  · rfl
  · change (·.within fun payload => EitherValue.mk tag (some payload)) <$>
      payload.fieldReference name = _
    rw [payload.fieldReference_eq, Reference.within_mk]
    rfl

end EitherValue

namespace Value

def childReference (value : Value) (step : Step) : Except Problem (Reference Value Value) :=
  match step, value with
  | .field name, .record content => (·.within .record) <$> content.fieldReference name
  | .field name, .either content => (·.within .either) <$> content.fieldReference name
  | .field name, other => .error (.unknownField name other.type.text)
  | .index index, .array content => (·.within .array) <$> content.itemReference index
  | .index _, other => .error (.typeMismatch "an array" other.type.text)

theorem childReference_eq (value : Value) (step : Step) :
    value.childReference step = (.mk · (value.setChild step)) <$> value.child step := by
  cases step with
  | field name =>
      cases value with
      | record content | either content =>
          rw [childReference, content.fieldReference_eq, Reference.within_mk]
          rfl
      | range | tag | array => rfl
  | index index =>
      cases value with
      | array content =>
          rw [childReference, content.itemReference_eq, Reference.within_mk]
          rfl
      | range | record | either | tag => rfl

def reference (value : Value) : Path → Except Problem (Reference Value Value)
  | [] => .ok ⟨value, id⟩
  | step :: rest => do
      let child ← value.childReference step
      return (← child.content.reference rest).within child.put

theorem reference_eq (value : Value) (path : Path) :
    value.reference path = (.mk · (value.setAt · path)) <$> value.get path := by
  induction path generalizing value with
  | nil => rfl
  | cons step rest ih =>
      rw [reference, get_cons, childReference_eq]
      cases hchild : value.child step with
      | error problem => rfl
      | ok child =>
          change (·.within (value.setChild step)) <$> child.reference rest = _ <$> child.get rest
          rw [ih, Reference.within_mk]
          simp only [setAt, hchild]
          rfl

theorem content_reference (value : Value) (path : Path) :
    Reference.content <$> value.reference path = value.get path := by
  rw [reference_eq, Reference.content_mk]

theorem update_eq_edit (value : Value) (change : Value → Except Problem Value) (path : Path) :
    value.update change path = value.reference path >>= (·.edit change) := by
  rw [reference_eq, Reference.edit_mk, update_eq]

theorem get_put {value : Value} {path : Path} {reference : Reference Value Value}
    (found : value.reference path = .ok reference) (new : Value) :
    (reference.put new).get path = .ok new := by
  rw [reference_eq] at found
  obtain ⟨old, hold, rfl⟩ := map_eq_ok_iff.1 found
  exact get_setAt_self hold new

theorem exists_stop {value : Value} {path : Path} {problem : Problem}
    (stops : value.get path = .error problem) :
    ∃ front step rest node, path = front ++ step :: rest ∧ value.get front = .ok node ∧
      node.child step = .error problem := by
  induction path generalizing value with
  | nil => cases stops
  | cons step rest ih =>
      rw [get_cons] at stops
      cases hchild : value.child step with
      | error other =>
          rw [hchild] at stops
          cases stops
          exact ⟨[], step, rest, value, rfl, rfl, hchild⟩
      | ok child =>
          rw [hchild] at stops
          obtain ⟨front, last, others, node, rfl, hfront, hlast⟩ := ih stops
          exact ⟨step :: front, last, others, node, rfl,
            get_cons_eq_ok_iff.2 ⟨child, hchild, hfront⟩, hlast⟩

end Value

/-! What enumerations list, and where a field is missing. -/

theorem RecordType.Fits.entries_eq {type : RecordType} {record : RecordValue}
    (fits : type.Fits record) (inStep : type.InStep) :
    record.entries.map (Prod.map id .ok) =
      type.fields.map fun field => (field.name, record.field field.name) := by
  obtain ⟨rfl, hchildren⟩ := RecordType.fits_iff.1 fits
  refine List.ext_getElem (by simp [RecordValue.entries, hchildren.length_eq])
    fun place _ inside => ?_
  have hfield : place < record.type.fields.length := by simpa using inside
  have hchild : place < record.children.length := by rwa [← hchildren.length_eq]
  have hread : record.field record.type.fields[place].name = .ok record.children[place] :=
    RecordValue.field_eq_ok_iff.2 ⟨place, (RecordType.fieldIndex?_eq_some_iff inStep).2
      (by simp [hfield]), List.getElem?_eq_getElem hchild⟩
  simp [RecordValue.entries, hread]

theorem ArrayType.Fits.entries_eq {type : ArrayType} {array : ArrayValue}
    (fits : type.Fits array) :
    array.entries.map (Prod.map id .ok) =
      type.index.interval.values.map fun index => (index, array.item index) := by
  obtain ⟨rfl, hcount, -⟩ := ArrayType.fits_iff.1 fits
  refine List.ext_getElem (by simp [ArrayValue.entries, hcount]) fun place _ inside => ?_
  have hplace : place < array.type.index.interval.count := by simpa using inside
  have hitem : place < array.items.length := by rwa [hcount]
  have hread : array.item (array.type.index.interval.valueAt place) = .ok array.items[place] :=
    ArrayValue.item_eq_ok_iff.2
      ⟨place, Interval.offset?_valueAt hplace, List.getElem?_eq_getElem hitem⟩
  simp [ArrayValue.entries, Interval.values, hread]

theorem RecordType.Fits.field_eq_error_iff {type : RecordType} {record : RecordValue}
    (fits : type.Fits record) (inStep : type.InStep) {name : String} {problem : Problem} :
    record.field name = .error problem ↔
      name ∉ type.fields.map (·.name) ∧ problem = .unknownField name type.text := by
  obtain ⟨rfl, hchildren⟩ := RecordType.fits_iff.1 fits
  cases hindex : record.type.fieldIndex? name with
  | none =>
      have hlacks : name ∉ record.type.fields.map (·.name) := by
        rw [← inStep.contains_iff, Layout.contains_eq, ← RecordType.fieldIndex?, hindex]
        simp
      simp [RecordValue.field, hindex, hlacks, eq_comm]
  | some place =>
      have hplace := (inStep.places name place).1 hindex
      have hmem : name ∈ record.type.fields.map (·.name) := List.mem_of_getElem? hplace
      have hchild : place < record.children.length := by
        rw [← hchildren.length_eq, ← List.length_map (·.name)]
        exact (List.getElem?_eq_some_iff.1 hplace).1
      have hread : record.field name = .ok record.children[place] :=
        RecordValue.field_eq_ok_iff.2 ⟨place, hindex, List.getElem?_eq_getElem hchild⟩
      simp [hread, hmem]

theorem EitherType.Fits.constant {type : EitherType} {either : EitherValue}
    (fits : type.Fits either) (bare : either.payload = none) :
    either.tag.variant.payload = none := by
  have hpayload := Variant.fitsPayload_iff.1 (EitherType.fits_iff.1 fits).2
  rw [bare] at hpayload
  cases given : either.tag.variant.payload with
  | none => rfl
  | some shape => simp [given] at hpayload

theorem EitherType.Fits.field_eq_error_iff {type : EitherType} {either : EitherValue}
    (fits : type.Fits either)
    (inStep : ∀ variant ∈ type.variants, ∀ shape, variant.payload = some shape → shape.InStep)
    {name : String} {problem : Problem} :
    either.field name = .error problem ↔
      (either.tag.variant.payload = none ∧ problem = .unknownField name either.tag.text) ∨
      ∃ shape, either.tag.variant.payload = some shape ∧
        name ∉ shape.fields.map (·.name) ∧ problem = .unknownField name shape.text := by
  cases held : either.payload with
  | none =>
      have hconstant := fits.constant held
      simp [EitherValue.field, EitherValue.active, held, hconstant, eq_comm]
  | some payload =>
      obtain ⟨shape, inside, given, hpayload⟩ := fits.payload held
      simp [EitherValue.field, EitherValue.active, held, given,
        hpayload.field_eq_error_iff (inStep _ inside _ given)]

/-! All ways to a part of one value. -/

structure RecordValue.AccessesAgree (record : RecordValue) : Prop where
  read : ∀ name, (Value.record record).child (.field name) = record.field name
  write : ∀ name, (Value.record record).childReference (.field name) =
    (·.within .record) <$> record.fieldReference name
  content : ∀ name, Reference.content <$> record.fieldReference name = record.field name
  edit : ∀ name change,
    record.modifyField name change = record.fieldReference name >>= (·.edit change)
  listed : record.entries.map (Prod.map id .ok) =
    record.type.fields.map fun field => (field.name, record.field field.name)

structure ArrayValue.AccessesAgree (array : ArrayValue) : Prop where
  read : ∀ index, (Value.array array).child (.index index) = array.item index
  write : ∀ index, (Value.array array).childReference (.index index) =
    (·.within .array) <$> array.itemReference index
  content : ∀ index, Reference.content <$> array.itemReference index = array.item index
  edit : ∀ index change,
    array.modifyItem index change = array.itemReference index >>= (·.edit change)
  listed : array.entries.map (Prod.map id .ok) =
    array.type.index.interval.values.map fun index => (index, array.item index)
  indices : array.type.index.interval.values.map Int64.toInt =
    (List.range (array.type.index.high.toInt - array.type.index.low.toInt + 1).toNat).map
      fun (place : Nat) => array.type.index.low.toInt + place

/-- Every view of an either value shows one payload, whose fields are the fields of the
value; there are no others, and none in a constant. -/
structure EitherValue.AccessesAgree (either : EitherValue) : Prop where
  constant : either.payload = none →
    either.active = .constant either.tag ∧ either.activeReference = .constant either.tag
  record : ∀ payload, either.payload = some payload →
    either.active = .record either.tag payload ∧
    either.activeReference = .record either.tag ⟨payload, fun new => ⟨either.tag, some new⟩⟩ ∧
    ∀ name, (Value.either either).child (.field name) = payload.field name ∧
      (Value.either either).childReference (.field name) =
        (·.within fun new => .either ⟨either.tag, some new⟩) <$> payload.fieldReference name
  content : ∀ name, Reference.content <$> either.fieldReference name = either.field name
  edit : ∀ name change,
    either.modifyField name change = either.fieldReference name >>= (·.edit change)
  refused : ∀ name problem, (Value.either either).child (.field name) = .error problem ↔
    (either.tag.variant.payload = none ∧ problem = .unknownField name either.tag.text) ∨
    ∃ shape, either.tag.variant.payload = some shape ∧
      name ∉ shape.fields.map (·.name) ∧ problem = .unknownField name shape.text

def Value.AccessesAgree : Value → Prop
  | .record content => content.AccessesAgree
  | .either content => content.AccessesAgree
  | .array content => content.AccessesAgree
  | .range _ | .tag _ => True

theorem RecordType.Fits.accessesAgree {type : RecordType} {record : RecordValue}
    (fits : type.Fits record) (inStep : type.InStep) : record.AccessesAgree where
  read := fun _ => rfl
  write := fun _ => rfl
  content := fun name => by rw [record.fieldReference_eq, Reference.content_mk]
  edit := fun name change => by
    rw [record.fieldReference_eq, Reference.edit_mk, record.modifyField_eq]
  listed := by
    have htype := (RecordType.fits_iff.1 fits).1
    rw [fits.entries_eq inStep, htype]

theorem ArrayType.Fits.accessesAgree {type : ArrayType} {array : ArrayValue}
    (fits : type.Fits array) : array.AccessesAgree where
  read := fun _ => rfl
  write := fun _ => rfl
  content := fun index => by rw [array.itemReference_eq, Reference.content_mk]
  edit := fun index change => by
    rw [array.itemReference_eq, Reference.edit_mk, array.modifyItem_eq]
  listed := by
    have htype := (ArrayType.fits_iff.1 fits).1
    rw [fits.entries_eq, htype]
  indices := array.type.index.interval.map_toInt_values

theorem EitherType.Fits.accessesAgree {type : EitherType} {either : EitherValue}
    (fits : type.Fits either)
    (inStep : ∀ variant ∈ type.variants, ∀ shape, variant.payload = some shape → shape.InStep) :
    either.AccessesAgree where
  constant := by
    obtain ⟨tag, payload⟩ := either
    rintro rfl
    exact ⟨rfl, rfl⟩
  record := by
    obtain ⟨tag, payload⟩ := either
    rintro payload rfl
    refine ⟨rfl, rfl, fun name => ⟨rfl, ?_⟩⟩
    change (·.within Value.either) <$> (·.within fun new => EitherValue.mk tag (some new)) <$>
      payload.fieldReference name = _
    cases payload.fieldReference name <;> rfl
  content := fun name => by rw [either.fieldReference_eq, Reference.content_mk]
  edit := fun name change => by
    rw [either.fieldReference_eq, Reference.edit_mk, either.modifyField_eq]
  refused := fun _ _ => fits.field_eq_error_iff inStep

namespace Session

variable {session : Session} {catalog : Catalog}

theorem Valid.accessesAgree (valid : session.Valid catalog) {value : Value}
    (has : session.HasValue value) : value.AccessesAgree := by
  have hholds := valid.holds_of_hasValue has
  have hproper : ∀ {shape : RecordType}, catalog.Knows (.record shape) → shape.InStep :=
    fun known => valid.covers.sound.proper _ (List.mem_of_getElem? known.self)
  cases value with
  | range | tag => trivial
  | record record => exact RecordType.Fits.accessesAgree (hholds.fits rfl) (hproper hholds.2)
  | either either =>
      exact EitherType.Fits.accessesAgree (hholds.fits rfl)
        fun _ inside _ given => hproper (hholds.2.payload inside given)
  | array array => exact ArrayType.Fits.accessesAgree (hholds.fits rfl)

/-- Along every path a reference is found to what reading finds, or both stop at the same
element for the same reason; changes are made through these references, and what they put
is what is read there afterwards. In every well-formed value, and so in all parts of those
that a client has, all ways to a part agree. -/
theorem reads_match_references (ops : List Op) :
    (∀ root path value part, (run ops).find? root = some value → value.get path = .ok part →
      (run ops).HasValue part) ∧
    (∀ (value : Value) path,
      Reference.content <$> value.reference path = value.get path ∧
      (∀ change, value.update change path = value.reference path >>= (·.edit change)) ∧
      ∀ reference new, value.reference path = .ok reference →
        (reference.put new).get path = .ok new) ∧
    (∀ (value : Value) path problem, value.get path = .error problem →
      ∃ front step rest node reference, path = front ++ step :: rest ∧
        value.get front = .ok node ∧ value.reference front = .ok reference ∧
        reference.content = node ∧ node.child step = .error problem ∧
        node.childReference step = .error problem) ∧
    ∀ value, (run ops).HasValue value → value.AccessesAgree := by
  obtain ⟨catalog, hvalid⟩ := valid_run ops
  refine ⟨fun _ _ _ _ => hvalid.hasValue_of_get, fun value path => ⟨value.content_reference path,
    fun change => value.update_eq_edit change path, fun _ new found => Value.get_put found new⟩,
    fun value path problem stops => ?_, fun _ => hvalid.accessesAgree⟩
  obtain ⟨front, step, rest, node, hpath, hfront, hstep⟩ := Value.exists_stop stops
  refine ⟨front, step, rest, node, ⟨node, (value.setAt · front)⟩, hpath, hfront, ?_, rfl, hstep, ?_⟩
  · rw [value.reference_eq, hfront]
    rfl
  · rw [node.childReference_eq, hstep]
    rfl

end Session

end StateModel
