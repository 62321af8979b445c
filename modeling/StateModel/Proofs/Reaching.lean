import Mathlib.Logic.Relation
import StateModel.Proofs.Locality
import StateModel.Proofs.Shapes

/-!
What a client can make of a default. Integers that are given to ranges and tags that
are given to eithers lead to every well-formed value of the type, and whatever else is
written leads to no other.
-/
namespace StateModel

namespace Value

/-- One mutation at the end of a path: a range takes an integer, or an either takes a
tag of its own type. -/
inductive Moves : Value → Value → Prop
  | number {value after : Value} {path : Path} {range : RangeValue} {number : Int64} :
      value.get path = .ok (.range range) →
      value.mutate path (.assignInt number) = .ok after → Moves value after
  | tag {value after : Value} {path : Path} {either : EitherValue} {index : Nat} {tag : Tag} :
      value.get path = .ok (.either either) → either.type.tag? index = some tag →
      value.mutate path (.assign (.tag tag)) = .ok after → Moves value after

abbrev Reaches : Value → Value → Prop := Relation.ReflTransGen Moves

variable {value child new : Value} {step : Step}

theorem mutate_cons (found : value.child step = .ok child) {path : Path} {mutation : Mutation}
    (mutated : child.mutate path mutation = .ok new) :
    value.mutate (step :: path) mutation = .ok (value.setChild step new) := by
  unfold mutate at mutated ⊢
  rw [update, modifyChild_eq, found]
  change (child.update mutation.apply path >>= fun new => pure (value.setChild step new)) = _
  rw [mutated]
  rfl

theorem Moves.inside (found : value.child step = .ok child) (moves : child.Moves new) :
    value.Moves (value.setChild step new) := by
  cases moves with
  | number hget hmutate =>
      exact .number (get_cons_eq_ok_iff.2 ⟨child, found, hget⟩) (mutate_cons found hmutate)
  | tag hget htag hmutate =>
      exact .tag (get_cons_eq_ok_iff.2 ⟨child, found, hget⟩) htag (mutate_cons found hmutate)

theorem Reaches.children (contain : List Value → Value) {count : Nat}
    (leads : ∀ (items : List Value) place old, items.length = count → items[place]? = some old →
      ∃ step, (contain items).child step = .ok old ∧
        ∀ new, (contain items).setChild step new = contain (items.set place new))
    {olds news : List Value} (reach : List.Forall₂ Reaches olds news)
    (sized : olds.length = count) : Reaches (contain olds) (contain news) := by
  suffices hdone : ∀ done : List Value, (done ++ olds).length = count →
      Reaches (contain (done ++ olds)) (contain (done ++ news)) from hdone [] sized
  clear sized
  induction reach with
  | nil => exact fun done _ => .refl
  | @cons old new olds news first _ ih =>
      intro done sized
      have hfirst : Reaches (contain (done ++ old :: olds)) (contain (done ++ new :: olds)) := by
        refine first.lift (fun item => contain (done ++ item :: olds)) fun item after moves => ?_
        obtain ⟨step, hstep, hset⟩ := leads (done ++ item :: olds) done.length item
          (by simpa using sized) (by simp)
        have hmoves := moves.inside hstep
        rw [hset] at hmoves
        simpa using hmoves
      have hrest := ih (done ++ [new]) (by simpa using sized)
      rw [List.append_assoc, List.append_assoc] at hrest
      exact hfirst.trans hrest

end Value

/-! Every place of a container has a step that leads to it. -/

theorem RecordType.exists_fieldIndex? {type : RecordType}
    (inStep : type.InStep) {place : Nat}
    (inside : place < type.fields.length) : ∃ name, type.fieldIndex? name = some place := by
  refine ⟨type.fields[place].name, (RecordType.fieldIndex?_eq_some_iff inStep).2 ?_⟩
  simp [inside]

theorem Interval.offset?_valueAt {interval : Interval} {place : Nat}
    (inside : place < interval.count) : interval.offset? (interval.valueAt place) = some place :=
  Interval.offset?_eq_some_iff.2 ⟨inside, Interval.toInt_valueAt inside⟩

section

variable {olds news : List Value}

theorem RecordType.reaches {type : RecordType} (contain : RecordValue → Value)
    (child : ∀ record name, (contain record).child (.field name) = record.field name)
    (setChild : ∀ record name new, (contain record).setChild (.field name) new =
      contain (record.setField name new))
    (inStep : type.InStep)
    (reach : List.Forall₂ Value.Reaches olds news) (sized : olds.length = type.fields.length) :
    Value.Reaches (contain ⟨type, olds⟩) (contain ⟨type, news⟩) := by
  refine Value.Reaches.children (fun children => contain ⟨type, children⟩)
    (fun items place old hsized hold => ?_) reach sized
  have hinside := hsized ▸ (List.getElem?_eq_some_iff.1 hold).1
  obtain ⟨name, hname⟩ := type.exists_fieldIndex? inStep hinside
  refine ⟨.field name, ?_, fun new => ?_⟩
  · exact (child _ name).trans (RecordValue.field_eq_ok_iff.2 ⟨place, hname, hold⟩)
  · rw [setChild, RecordValue.setField, hname]

theorem ArrayType.reaches {type : ArrayType} (reach : List.Forall₂ Value.Reaches olds news)
    (sized : olds.length = type.index.interval.count) :
    Value.Reaches (.array ⟨type, olds⟩) (.array ⟨type, news⟩) := by
  refine Value.Reaches.children (.array ⟨type, ·⟩)
    (fun items place old hsized hold => ?_) reach sized
  have hinside := hsized ▸ (List.getElem?_eq_some_iff.1 hold).1
  have hoffset := Interval.offset?_valueAt hinside
  refine ⟨.index (type.index.interval.valueAt place),
    ArrayValue.item_eq_ok_iff.2 ⟨place, hoffset, hold⟩, fun new => ?_⟩
  simp [Value.setChild, ArrayValue.setItem, hoffset]

end

/-! From the default of a type to each of its values. -/

theorem Ty.inside_induction {motive : Ty → Prop}
    (step : ∀ type, (∀ inner : Ty, inner.Inside type → motive inner) → motive type) (type : Ty) :
    motive type :=
  step type fun inner inside =>
    have := inside.sizeOf_lt
    inside_induction step inner
  termination_by sizeOf type

def Ty.ReachesAll (type : Ty) : Prop := ∀ value, type.Fits value → type.default.Reaches value

theorem RangeType.reachesAll (type : RangeType) : (Ty.range type).ReachesAll := by
  intro value fits
  obtain ⟨number, rfl, hinside⟩ := Ty.fits_range_iff.1 fits
  have hassigned : (Value.range type.default).mutate [] (.assignInt number) =
      .ok (.range ⟨type, number⟩) := by
    change RangeValue.assign _ _ >>= _ = _
    rw [RangeValue.assign, RangeType.default, if_pos (Interval.contains_iff.2 hinside)]
    rfl
  exact .single (.number rfl hassigned)

theorem Field.forall₂_reaches {fields : List Field} {children : List Value}
    (fits : List.Forall₂ (fun field child => field.type.Fits child) fields children)
    (each : ∀ field ∈ fields, field.type.ReachesAll) :
    List.Forall₂ Value.Reaches (fields.map (·.type.default)) children := by
  rw [List.forall₂_map_left_iff]
  exact ((List.forall₂_and_left _ _).2 ⟨each, fits⟩).imp fun field child both =>
    both.1 child both.2

theorem RecordType.reachesAll {type : RecordType} (inStep : type.InStep)
    (each : ∀ field ∈ type.fields, field.type.ReachesAll) : (Ty.record type).ReachesAll := by
  intro value fits
  obtain ⟨children, rfl, hchildren⟩ := Ty.fits_record_iff.1 fits
  rw [Ty.default, RecordType.default_eq]
  exact RecordType.reaches .record (fun _ _ => rfl) (fun _ _ _ => rfl) inStep
    (Field.forall₂_reaches hchildren each) (by simp)

theorem EitherValue.moves_ofTag {either : EitherValue} {tag : Tag}
    (own : tag.either = either.type) :
    Value.Moves (.either either) (.either (.ofTag tag)) := by
  have hassigned : (Value.either either).mutate [] (.assign (.tag tag)) =
      .ok (.either (.ofTag tag)) := by
    change EitherValue.assign either (.tag tag) >>= _ = _
    simp only [EitherValue.assign, Tag.belongsTo, own, beq_self_eq_true, if_true]
    rfl
  exact .tag rfl (EitherType.tag?_eq_some_iff.2 ⟨own, rfl⟩) hassigned

theorem Tag.reaches_payload {tag : Tag} {payload : Option RecordValue}
    (fits : tag.variant.FitsPayload payload)
    (inStep : ∀ shape, tag.variant.payload = some shape → shape.InStep)
    (each : ∀ shape, tag.variant.payload = some shape →
      ∀ field ∈ shape.fields, field.type.ReachesAll) :
    Value.Reaches (.either (.ofTag tag)) (.either ⟨tag, payload⟩) := by
  rw [EitherValue.ofTag, Variant.defaultPayload_eq]
  rw [Variant.fitsPayload_iff] at fits
  cases given : tag.variant.payload with
  | none =>
      cases payload with
      | none => exact .refl
      | some record => simp [given] at fits
  | some shape =>
      cases payload with
      | none => simp [given] at fits
      | some record =>
          simp only [given] at fits
          obtain ⟨built, children⟩ := record
          obtain ⟨rfl, hchildren⟩ := RecordType.fits_iff.1 fits
          rw [Option.map_some, RecordType.default_eq]
          exact RecordType.reaches (fun record => .either ⟨tag, some record⟩) (fun _ _ => rfl)
            (fun _ _ _ => rfl) (inStep _ given)
            (Field.forall₂_reaches hchildren (each _ given)) (by simp)

/-- The tag comes first, since the fields of the payload are there only after it. -/
theorem EitherType.reachesAll {type : EitherType}
    (inStep : ∀ variant ∈ type.variants, ∀ shape, variant.payload = some shape → shape.InStep)
    (each : ∀ variant ∈ type.variants, ∀ shape, variant.payload = some shape →
      ∀ field ∈ shape.fields, field.type.ReachesAll) : (Ty.either type).ReachesAll := by
  intro value fits
  obtain ⟨tag, payload, rfl, hbuilt, hpayload⟩ := Ty.fits_either_iff.1 fits
  have hswitch : Value.Moves (.either type.default) (.either (.ofTag tag)) := by
    refine EitherValue.moves_ofTag ?_
    rw [EitherType.default_eq]
    exact hbuilt
  have hinside : tag.variant ∈ type.variants := hbuilt ▸ List.getElem_mem tag.index.isLt
  exact .head hswitch (Tag.reaches_payload hpayload (inStep _ hinside) (each _ hinside))

theorem ArrayType.reachesAll {type : ArrayType} (each : type.element.ReachesAll) :
    (Ty.array type).ReachesAll := by
  intro value fits
  obtain ⟨items, rfl, hcount, hitems⟩ := Ty.fits_array_iff.1 fits
  rw [Ty.default, ArrayType.default_eq, ← hcount, ← List.map_const]
  refine ArrayType.reaches ?_ (by simpa using hcount)
  rw [List.forall₂_map_left_iff, List.forall₂_same]
  exact fun item inside => each item (hitems item inside)

theorem Catalog.Sound.reachesAll {catalog : Catalog} (sound : catalog.Sound) (type : Ty) :
    catalog.Knows type → type.ReachesAll := by
  induction type using Ty.inside_induction with
  | step type ih =>
      intro knows
      have heach : ∀ inner : Ty, inner.Inside type → inner.ReachesAll :=
        fun inner inside => ih inner inside (inside.knows sound knows)
      have hproper : ∀ record, catalog.Knows (.record record) → record.InStep :=
        fun record known => sound.proper _ (List.mem_of_getElem? known.self)
      cases type with
      | range type => exact type.reachesAll
      | record type =>
          exact RecordType.reachesAll (hproper type knows)
            fun field inside => heach _ (.field inside)
      | either type =>
          refine EitherType.reachesAll (fun variant inside payload given => ?_)
            fun variant inside payload given field hfield => ?_
          · exact hproper payload (knows.payload inside given)
          · exact heach _ (.trans (.field hfield) (.payload inside given))
      | array type => exact ArrayType.reachesAll (heach _ (.element type))

/-! And nothing else. -/

theorem Ty.Fits.child {type : Ty} {value child : Value} {step : Step} (fits : type.Fits value)
    (found : value.child step = .ok child) :
    ∃ inner : Ty, inner.Inside type ∧ inner.Fits child := by
  cases type with
  | range type =>
      obtain ⟨number, rfl, -⟩ := Ty.fits_range_iff.1 fits
      cases step <;> cases found
  | record type =>
      obtain ⟨children, rfl, -⟩ := Ty.fits_record_iff.1 fits
      cases step with
      | index index => cases found
      | field name =>
          obtain ⟨field, hfield, hfits⟩ := RecordType.Fits.field fits found
          exact ⟨field.type, .field hfield, hfits⟩
  | either type =>
      obtain ⟨tag, payload, rfl, -⟩ := Ty.fits_either_iff.1 fits
      cases step with
      | index index => cases found
      | field name =>
          obtain ⟨record, active, hrecord⟩ := EitherValue.field_eq_ok_iff.1 found
          obtain ⟨shape, hvariant, given, hpayload⟩ := EitherType.Fits.payload fits active
          obtain ⟨field, hfield, hfits⟩ := RecordType.Fits.field hpayload hrecord
          exact ⟨field.type, .trans (.field hfield) (.payload hvariant given), hfits⟩
  | array type =>
      obtain ⟨items, rfl, -⟩ := Ty.fits_array_iff.1 fits
      cases step with
      | field name => cases found
      | index index => exact ⟨type.element, .element type, ArrayType.Fits.item fits found⟩

theorem Value.write_map_child (value : Value) (write : Write Value) (path : Path) :
    value.write write (path.map .child) = value.update write.apply path := by
  induction path generalizing value with
  | nil => rfl
  | cons step rest ih => simp only [List.map_cons, Value.write, Access.modify, Value.update, ih]

namespace Session

/-- One write of a client, by any accesses, of anything that is well-formed and of a
type that there is. -/
inductive Writes (session : Session) : Value → Value → Prop
  | write {value after : Value} {path : List Access} {write : Write Value} :
      (∀ source, write.source? = some source → source.Sound ∧ session.HasType source.type) →
      value.write write path = .ok after → Writes session value after

variable {session : Session} {catalog : Catalog} {type : Ty} {value after : Value}

theorem HasType.get (has : session.HasType type) (fits : type.Fits value) {path : Path}
    {node : Value} (found : value.get path = .ok node) : session.HasType node.type := by
  induction path generalizing type value with
  | nil =>
      cases found
      rw [fits.type_eq]
      exact has
  | cons step rest ih =>
      obtain ⟨child, hchild, hrest⟩ := Value.get_cons_eq_ok_iff.1 found
      obtain ⟨inner, hinside, hfits⟩ := fits.child hchild
      exact ih (.inside hinside has) hfits hrest

theorem HasType.writes_of_moves (has : session.HasType type) (fits : type.Fits value)
    (moves : value.Moves after) : session.Writes value after := by
  cases moves with
  | @number path _ number _ mutated =>
      have hwritten : value.write (.assignInt number) (path.map .child) = .ok after := by
        rw [Value.write_map_child]
        exact mutated
      refine .write (fun source given => ?_) hwritten
      cases given
  | @tag path either _ tag found own mutated =>
      have hwritten : value.write (.assign (.tag tag)) (path.map .child) = .ok after := by
        rw [Value.write_map_child]
        exact mutated
      refine .write (fun source given => ?_) hwritten
      cases given
      refine ⟨.inl rfl, ?_⟩
      rw [Value.type, (EitherType.tag?_eq_some_iff.1 own).1]
      exact has.get fits found

theorem Valid.fits_of_writes (valid : session.Valid catalog) (has : session.HasType type)
    (fits : type.Fits value) (writes : session.Writes value after) : type.Fits after := by
  cases writes with
  | write sources written =>
      refine Catalog.keeps_writeAt (fun source given => ?_) _ type value after
        (valid.type_of_hasType has) fits written
      exact ⟨(sources source given).1, valid.type_of_hasType (sources source given).2⟩

theorem Valid.fits_of_written (valid : session.Valid catalog) (has : session.HasType type)
    (written : Relation.ReflTransGen session.Writes type.default value) : type.Fits value := by
  induction written with
  | refl => exact type.fits_default
  | tail _ write ih => exact valid.fits_of_writes has ih write

theorem Valid.written_of_reaches (valid : session.Valid catalog) (has : session.HasType type)
    (reaches : type.default.Reaches value) :
    Relation.ReflTransGen session.Writes type.default value := by
  induction reaches with
  | refl => exact .refl
  | tail _ moves ih => exact ih.tail (has.writes_of_moves (valid.fits_of_written has ih) moves)

/-- From the default of a type, integers that are given to ranges and tags that are
given to eithers lead to every well-formed value of the type, and no write whatever
leads to another. -/
theorem reaches_iff_fits (ops : List Op) (type : Ty) (has : (run ops).HasType type)
    (value : Value) :
    (type.Fits value ↔ type.default.Reaches value) ∧
    (type.Fits value ↔ Relation.ReflTransGen (run ops).Writes type.default value) := by
  obtain ⟨catalog, hvalid⟩ := valid_run ops
  have hreaches : type.Fits value → type.default.Reaches value :=
    hvalid.covers.sound.reachesAll type (hvalid.type_of_hasType has) value
  have hfits : Relation.ReflTransGen (run ops).Writes type.default value → type.Fits value :=
    hvalid.fits_of_written has
  exact ⟨⟨hreaches, fun reaches => hfits (hvalid.written_of_reaches has reaches)⟩,
    fun fits => hvalid.written_of_reaches has (hreaches fits), hfits⟩

theorem reaches_iff_fits_payload :
    ∃ type value, (run [.newScope, .makeType 0 none (.either [⟨"Idle", none, .dummy⟩,
        ⟨"Busy", some [⟨"left", .range 0 9, .dummy⟩], .dummy⟩])]).HasType type ∧
      type.default.get [.field "left"] = .error (.unknownField "left" "Idle") ∧
      value.get [.field "left"] = .ok (.range ⟨⟨⟨0, none, .dummy⟩, ⟨0, 9, by decide⟩⟩, 7⟩) ∧
      type.default.Reaches value := by
  have has : (run [.newScope, .makeType 0 none (.either [⟨"Idle", none, .dummy⟩,
      ⟨"Busy", some [⟨"left", .range 0 9, .dummy⟩], .dummy⟩])]).HasType (.either _) :=
    .held (List.mem_singleton_self _)
  refine ⟨_, .either ⟨⟨_, 1⟩, some ⟨_, [.range ⟨_, 7⟩]⟩⟩, has, rfl, rfl,
    (reaches_iff_fits _ _ has _).1.1 ⟨rfl, rfl, ⟨rfl, by decide, by decide⟩, trivial⟩⟩

end Session

end StateModel
