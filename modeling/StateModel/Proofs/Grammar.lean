import StateModel.Proofs.Observation

/-!
The grammar of the texts. It is stated by recursion on the values and without a view to
how they are written: every field of a record type and every index of an array type is
listed, and a payload stands after the tag that is active. The texts of a value leave
the tag to the name of the payload type, and stop where the fields or the children end.
That they follow the grammar is due to what well-formed values are.
-/
namespace StateModel

/-- The two texts that the grammar gives to a value. -/
structure Rendered where
  canonical : String
  bare : String

namespace Rendered

def plain (text : String) : Rendered := ⟨text, text⟩

def entries (labels : List String) (children : List Rendered) : String :=
  ", ".intercalate (labels.mapIdx fun place label =>
    label ++ ": " ++ (children[place]?.map canonical).getD "")

def range (name : Option String) (number : Int) : Rendered where
  bare := number.repr
  canonical := match name with
    | some name => name ++ "(" ++ number.repr ++ ")"
    | none => number.repr

def record (name : Option String) (fields : List String) (children : List Rendered) :
    Rendered where
  bare := entries fields children
  canonical := match name with
    | some name => name ++ " \x7b " ++ entries fields children ++ " \x7d"
    | none => "\x7b " ++ entries fields children ++ " \x7d"

def variant (tag : String) (payload : Option Rendered) : Rendered :=
  match payload with
  | some payload => plain (tag ++ " \x7b " ++ payload.bare ++ " \x7d")
  | none => plain tag

def array (low high : Int) (items : List Rendered) : Rendered :=
  let indices := (List.range (high - low + 1).toNat).map fun (place : Nat) => low + place
  plain ("[" ++ entries (indices.map Int.repr) items ++ "]")

end Rendered

mutual

def Value.rendered : Value → Rendered
  | .range value => .range value.type.header.name value.number.toInt
  | .record value => value.rendered
  | .either value => value.rendered
  | .tag constant => .plain constant.name
  | .array value => value.rendered
  termination_by structural value => value

def Value.renderedAll : List Value → List Rendered
  | [] => []
  | value :: rest => value.rendered :: Value.renderedAll rest
  termination_by structural values => values

def RecordValue.rendered : RecordValue → Rendered
  | ⟨type, children⟩ =>
      .record type.header.name (type.fields.map (·.name)) (Value.renderedAll children)
  termination_by structural record => record

def EitherValue.rendered : EitherValue → Rendered
  | ⟨tag, none⟩ => .variant tag.name none
  | ⟨tag, some payload⟩ => .variant tag.name (some payload.rendered)
  termination_by structural either => either

def ArrayValue.rendered : ArrayValue → Rendered
  | ⟨type, items⟩ =>
      .array type.index.low.toInt type.index.high.toInt (Value.renderedAll items)
  termination_by structural array => array

end

theorem Value.renderedAll_eq_map (values : List Value) :
    Value.renderedAll values = values.map Value.rendered := by
  induction values with
  | nil => rfl
  | cons value rest ih => rw [renderedAll, ih, List.map_cons]

theorem Rendered.entries_eq_listed {labels : List String} {children : List Rendered}
    (sized : children.length = labels.length) :
    entries labels children = listed labels (children.map canonical) := by
  rw [entries, listed]
  congr 1
  refine List.ext_getElem (by simp [sized]) fun place inside _ => ?_
  have hplace : place < children.length := by simpa [sized] using inside
  simp [hplace]

theorem Interval.map_toInt_values (interval : Interval) :
    interval.values.map Int64.toInt =
      (List.range (interval.high.toInt - interval.low.toInt + 1).toNat).map
        fun (place : Nat) => interval.low.toInt + place := by
  rw [← interval.count_eq, Int.toNat_natCast, values, List.map_map]
  exact List.map_congr_left fun place inside => toInt_valueAt (List.mem_range.1 inside)

/-! The texts of well-formed values. -/

/-- The texts of the value are the ones that the grammar gives to it. -/
def Value.Conforms (value : Value) : Prop := value.rendered = ⟨value.text, value.bareText⟩

namespace Value.Conforms

theorem canonical {value : Value} (conforms : value.Conforms) :
    value.rendered.canonical = value.text := by
  rw [conforms]

theorem children {values : List Value} (conform : ∀ value ∈ values, value.Conforms) :
    (renderedAll values).map Rendered.canonical = values.map text := by
  rw [renderedAll_eq_map, List.map_map]
  exact List.map_congr_left fun value inside => (conform value inside).canonical

theorem entries {labels : List String} {values : List Value}
    (conform : ∀ value ∈ values, value.Conforms) (sized : values.length = labels.length) :
    Rendered.entries labels (renderedAll values) = listed labels (values.map text) := by
  rw [Rendered.entries_eq_listed (by rw [renderedAll_eq_map, List.length_map, sized]),
    children conform]

theorem range (value : RangeValue) : (Value.range value).Conforms := rfl

theorem tag (constant : Tag) : (Value.tag constant).Conforms := rfl

theorem record {value : RecordValue} (conform : ∀ child ∈ value.children, child.Conforms)
    (sized : value.children.length = value.type.fields.length) : (Value.record value).Conforms := by
  obtain ⟨type, children⟩ := value
  have hbare : Rendered.entries (type.fields.map (·.name)) (renderedAll children) =
      RecordValue.bareText ⟨type, children⟩ := by
    rw [entries conform (by rw [List.length_map]; exact sized), RecordValue.bareText,
      RecordType.join_eq_listed]
  change Rendered.record .. = ⟨RecordValue.text _, RecordValue.bareText _⟩
  cases hname : type.header.name with
  | none | some =>
      simp only [Rendered.record, hbare, RecordValue.text_eq, RecordType.braced, hname]

theorem either {type : EitherType} {value : EitherValue} (fits : type.Fits value)
    (proper : (Ty.either type).Proper)
    (conforms : ∀ payload, value.payload = some payload → (Value.record payload).Conforms) :
    (Value.either value).Conforms := by
  have htext := fits.text_eq proper
  obtain ⟨tag, _ | payload⟩ := value
  · rfl
  · have hbare : payload.rendered.bare = payload.bareText :=
      congrArg Rendered.bare (conforms payload rfl)
    change Rendered.plain (tag.name ++ " \x7b " ++ payload.rendered.bare ++ " \x7d") =
      ⟨EitherValue.text _, EitherValue.text _⟩
    rw [htext, hbare, EitherValue.tail, Rendered.plain]
    simp only [String.append_assoc]

theorem array {value : ArrayValue} (conform : ∀ item ∈ value.items, item.Conforms)
    (sized : value.items.length = value.type.index.interval.count) :
    (Value.array value).Conforms := by
  obtain ⟨type, items⟩ := value
  change Rendered.array .. = ⟨ArrayValue.text _, ArrayValue.text _⟩
  rw [Rendered.array, RangeType.low, RangeType.high, ← Interval.map_toInt_values, List.map_map,
    entries conform (by simpa using sized), ArrayValue.text_eq, ArrayType.bracketed_eq_listed]
  rfl

end Value.Conforms

theorem Catalog.Knows.conforms {catalog : Catalog} (sound : catalog.Sound) {type : Ty}
    (knows : catalog.Knows type) {value : Value} (fits : type.Fits value) : value.Conforms := by
  induction type using Ty.induction generalizing value with
  | range type =>
      obtain ⟨number, rfl, -⟩ := Ty.fits_range_iff.1 fits
      exact .range _
  | record type ih =>
      obtain ⟨children, rfl, hchildren⟩ := Ty.fits_record_iff.1 fits
      refine .record (fun child inside => ?_) hchildren.length_eq.symm
      obtain ⟨place, hplace, rfl⟩ := List.getElem_of_mem inside
      have hfield : place < type.fields.length := by rwa [hchildren.length_eq]
      have hinside := List.getElem_mem hfield
      exact ih _ hinside (knows.field hinside) (hchildren.get hfield hplace)
  | either type ih =>
      obtain ⟨tag, payload, rfl, hbuilt, hpayload⟩ := Ty.fits_either_iff.1 fits
      have hproper := sound.proper _ (List.mem_of_getElem? knows.self)
      refine .either fits hproper fun record given => ?_
      obtain ⟨shape, hvariant, hshape, hrecord⟩ := EitherType.Fits.payload fits given
      exact ih _ hvariant shape hshape (knows.payload hvariant hshape) hrecord
  | array type ih =>
      obtain ⟨items, rfl, hcount, hitems⟩ := Ty.fits_array_iff.1 fits
      exact .array (fun item inside => ih knows.element (hitems item inside)) hcount

namespace Session

variable {session : Session} {catalog : Catalog}

theorem Valid.conforms (valid : session.Valid catalog) {value : Value}
    (has : session.HasValue value) : value.Conforms := by
  have hholds := valid.holds_of_hasValue has
  cases content : value.isTag with
  | false => exact hholds.2.conforms valid.covers.sound (hholds.fits content)
  | true =>
      cases value with
      | tag constant => exact .tag constant
      | range | record | either | array => cases content

/-- Both texts of a value are the ones of the grammar, for all values that there are:
tags, all that writes make of the default of a type, and all that a client reaches. -/
theorem texts_follow_grammar (ops : List Op) :
    (∀ tag, (run ops).HasTag tag → (run ops).HasValue (.tag tag)) ∧
    (∀ type value, (run ops).HasType type →
      Relation.ReflTransGen (run ops).Writes type.default value → (run ops).HasValue value) ∧
    (∀ root path value part, (run ops).find? root = some value → value.get path = .ok part →
      (run ops).HasValue part) ∧
    ∀ value, (run ops).HasValue value →
      value.text = value.rendered.canonical ∧ value.bareText = value.rendered.bare := by
  obtain ⟨catalog, hvalid⟩ := valid_run ops
  refine ⟨fun _ => HasTag.hasValue, fun type value has written => ?_,
    fun _ _ _ _ => hvalid.hasValue_of_get, fun value has => ?_⟩
  · have hfits := hvalid.fits_of_written has written
    have htype : value.type = type := hfits.type_eq
    exact ⟨.inr (htype ▸ hfits), htype ▸ has⟩
  · rw [hvalid.conforms has]
    exact ⟨rfl, rfl⟩

example : ∃ value, (run [.newScope, .makeType 0 none (.array
    (.either [⟨"Busy", some [⟨"left", .range 0 9, .dummy⟩], .dummy⟩]) (.range (-1) 0)),
    .default 0]).find? (.slot 0) = some value ∧
    value.rendered.canonical = "[-1: Busy \x7b left: 0 \x7d, 0: Busy \x7b left: 0 \x7d]" :=
  ⟨_, rfl, by decide⟩

end Session

end StateModel
