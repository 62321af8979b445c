import StateModel.Value.Path
import StateModel.Proofs.Identity
import StateModel.Proofs.Names

/-!
The shapes of types. A type is what its expression says, part by part, and in
every type that there is names and places tell each other, variants know their
type, and arrays have as many items as their index type has integers. So each tag
is the tag of one variant, however a client comes by it.
-/
namespace StateModel

def Build.Gives {α : Type} (post : α → Prop) (work : Build α) : Prop :=
  ∀ store result after, Build.run work store = (.ok result, after) → post result

namespace Build.Gives

variable {α β : Type} {post : α → Prop} {postNext : β → Prop}

theorem anything (work : Build α) : Build.Gives (fun _ => True) work := fun _ _ _ _ => trivial

theorem pure {result : α} (holds : post result) : Build.Gives post (pure result) := by
  intro store other after ran
  cases ran
  exact holds

theorem fail (problem : Problem) : Build.Gives post (Build.fail problem) := by
  intro store result after ran
  cases ran

theorem bind {work : Build α} {next : α → Build β} (first : Build.Gives post work)
    (rest : ∀ result, post result → Build.Gives postNext (next result)) :
    Build.Gives postNext (work >>= next) := by
  intro store last after ran
  obtain ⟨result, middle, hfirst, hrest⟩ := Build.run_bind_eq_ok.1 ran
  exact rest result (first store result middle hfirst) middle last after hrest

theorem locate {work : Build α} (gives : Build.Gives post work) (span : Span) :
    Build.Gives post (Build.locate span work) :=
  fun store result after ran => gives store result after (Build.run_locate_eq_ok.1 ran)

theorem refuse {condition : Prop} [Decidable condition] {refusal : Build Unit}
    {next : Unit → Build α} (refuses : Build.Gives (fun _ => False) refusal)
    (rest : Build.Gives post (next ())) :
    Build.Gives post (if condition then refusal >>= next else next ()) := by
  split
  · exact refuses.bind fun _ impossible => impossible.elim
  · exact rest

theorem header (name : Option String) (span : Span) :
    Build.Gives (fun header => header.name = name ∧ header.span = span)
      (Store.newHeader name span) := by
  intro store header after ran
  cases ran
  exact ⟨rfl, rfl⟩

end Build.Gives

mutual

/-- The type is what the expression says, and bears the name and the place that it
was given. An alias says nothing of the type that it means. -/
def TypeExpr.Describes (name : Option String) : TypeExpr → Ty → Prop
  | .alias .., _ => True
  | .range low high span, .range type =>
      type.header.name = name ∧ type.header.span = span ∧ type.low = low ∧ type.high = high
  | .record fields span, .record type =>
      type.header.name = name ∧ type.header.span = span ∧
        FieldDecl.DescribeAll fields type.fields
  | .either variants span, .either type =>
      type.header.name = name ∧ type.header.span = span ∧
        VariantDecl.DescribeAll variants
          (type.variants.map fun variant => ⟨variant.name, variant.payload⟩)
  | .generic base [element] (some index) span, .array type =>
      type.header.name = name ∧ type.header.span = span ∧ base = TypeExpr.arrayBase ∧
        element.Describes none type.element ∧ index.Describes none (.range type.index)
  | _, _ => False
  termination_by structural expression => expression

def FieldDecl.Describes : FieldDecl → Field → Prop
  | ⟨name, expression, _⟩, field => field.name = name ∧ expression.Describes none field.type
  termination_by structural decl => decl

def FieldDecl.DescribeAll : List FieldDecl → List Field → Prop
  | [], [] => True
  | decl :: decls, field :: fields => decl.Describes field ∧ FieldDecl.DescribeAll decls fields
  | _, _ => False
  termination_by structural decls => decls

def VariantDecl.Describes : VariantDecl → Alternative → Prop
  | ⟨name, none, _⟩, ⟨built, none⟩ => built = name
  | ⟨name, some fields, span⟩, ⟨built, some payload⟩ =>
      built = name ∧ payload.header.name = some name ∧ payload.header.span = span ∧
        FieldDecl.DescribeAll fields payload.fields
  | _, _ => False
  termination_by structural decl => decl

def VariantDecl.DescribeAll : List VariantDecl → List Alternative → Prop
  | [], [] => True
  | decl :: decls, alternative :: alternatives =>
      decl.Describes alternative ∧ VariantDecl.DescribeAll decls alternatives
  | _, _ => False
  termination_by structural decls => decls

end

theorem TypeExpr.Describes.header {name : Option String} {expression : TypeExpr} {type : Ty}
    (describes : expression.Describes name type)
    (own : ∀ target place, expression ≠ .alias target place) :
    type.name = name ∧ type.span = expression.span := by
  unfold TypeExpr.Describes at describes
  split at describes
  · exact absurd rfl (own _ _)
  · exact ⟨describes.1, describes.2.1⟩
  · exact ⟨describes.1, describes.2.1⟩
  · exact ⟨describes.1, describes.2.1⟩
  · exact ⟨describes.1, describes.2.1⟩
  · exact describes.elim

theorem EitherType.alternatives_ofAlternatives (header : Header) (first : Alternative)
    (rest : List Alternative) :
    ((ofAlternatives header first rest).variants.map fun variant =>
      (⟨variant.name, variant.payload⟩ : Alternative)) = first :: rest := by
  rw [variants_ofAlternatives]
  apply List.ext_getElem?
  intro place
  simp only [List.getElem?_map, List.getElem?_mapIdx, Option.map_map]
  exact Option.map_id'

theorem Ty.gives_arrayOf (element index : Ty) (name : Option String) (span place : Span) :
    Build.Gives (fun type => ∃ array, type = .array array ∧ array.header.name = name ∧
        array.header.span = span ∧ array.element = element ∧ .range array.index = index)
      (Ty.arrayOf (Store.newHeader name span) element index place) := by
  cases index with
  | record | either | array => exact (Build.Gives.fail _).locate place
  | range domain =>
      simp only [Ty.arrayOf]
      split
      · exact (Build.Gives.header name span).bind
          fun header given => .pure ⟨_, rfl, given.1, given.2, rfl, rfl⟩
      · exact (Build.Gives.fail _).locate place

theorem TypeExpr.gives_requireArray (base : String) :
    Build.Gives (fun _ => base = TypeExpr.arrayBase) (TypeExpr.requireArray base) := by
  unfold TypeExpr.requireArray
  split
  · next same => exact .pure same
  · exact .fail _

mutual

theorem TypeExpr.gives_elaborate (scope : Scope) : (expression : TypeExpr) →
    ∀ name : Option String,
      Build.Gives (expression.Describes name) (expression.elaborate scope name)
  | .alias target span, _ => by
      refine Build.Gives.locate ?_ span
      exact Build.Gives.anything _
  | .range low high span, name => by
      refine Build.Gives.locate ?_ span
      split
      · exact (Build.Gives.header name span).bind
          fun header given => .pure ⟨given.1, given.2, rfl, rfl⟩
      · exact .fail _
  | .record fields span, name => by
      refine Build.Gives.locate ?_ span
      refine (FieldDecl.gives_elaborateList scope fields _ .empty).bind fun built described => ?_
      exact (Build.Gives.header name span).bind
        fun header given => .pure ⟨given.1, given.2, described⟩
  | .either [] span, _ => (Build.Gives.fail _).locate span
  | .either (first :: rest) span, name => by
      refine Build.Gives.locate ?_ span
      refine (VariantDecl.gives_elaborate scope first _ []).bind fun built describedFirst => ?_
      refine (VariantDecl.gives_elaborateList scope rest _ _).bind fun others describedRest => ?_
      refine (Build.Gives.header name span).bind fun header given => ?_
      refine (Build.Gives.anything _).bind fun _ _ => .pure ⟨given.1, given.2, ?_⟩
      rw [EitherType.alternatives_ofAlternatives]
      exact ⟨describedFirst, describedRest⟩
  | .generic base [element] (some index) span, name => by
      refine Build.Gives.locate ?_ span
      refine (TypeExpr.gives_requireArray base).bind fun _ isArray => ?_
      refine (TypeExpr.gives_elaborate scope element none).bind fun elementType hElement => ?_
      refine (TypeExpr.gives_elaborate scope index none).bind fun indexType hIndex => ?_
      intro store type after ran
      obtain ⟨array, rfl, hname, hspan, rfl, rfl⟩ :=
        Ty.gives_arrayOf elementType indexType name span _ store type after ran
      exact ⟨hname, hspan, isArray, hElement, hIndex⟩
  | .generic base [_] none span, _ =>
      ((TypeExpr.gives_requireArray base).bind fun _ _ => .fail _).locate span
  | .generic base [] index span, _ => by
      cases index <;>
        exact ((TypeExpr.gives_requireArray base).bind fun _ _ => .fail _).locate span
  | .generic base (_ :: _ :: _) index span, _ => by
      cases index <;>
        exact ((TypeExpr.gives_requireArray base).bind fun _ _ => .fail _).locate span
  | .unknown _ span, _ => (Build.Gives.fail _).locate span
  termination_by structural expression => expression

theorem FieldDecl.gives_elaborate (scope : Scope) : (field : FieldDecl) →
    ∀ (owner : String) (layout : Layout),
      Build.Gives field.Describes (field.elaborate scope owner layout)
  | ⟨name, type, span⟩, owner, layout => by
      refine Build.Gives.locate ?_ span
      refine .refuse (.fail _) ?_
      exact (TypeExpr.gives_elaborate scope type none).bind
        fun built described => .pure ⟨rfl, described⟩
  termination_by structural field => field

theorem FieldDecl.gives_elaborateList (scope : Scope) : (fields : List FieldDecl) →
    ∀ (owner : String) (layout : Layout),
      Build.Gives (fun built => FieldDecl.DescribeAll fields built.1)
        (FieldDecl.elaborateList scope owner layout fields)
  | [], _, _ => .pure trivial
  | field :: rest, owner, layout => by
      refine (FieldDecl.gives_elaborate scope field owner layout).bind fun built described => ?_
      exact (FieldDecl.gives_elaborateList scope rest owner _).bind
        fun others describedRest => .pure ⟨described, describedRest⟩
  termination_by structural fields => fields

theorem VariantDecl.gives_elaborate (scope : Scope) : (variant : VariantDecl) →
    ∀ (owner : String) (seen : List String),
      Build.Gives variant.Describes (variant.elaborate scope owner seen)
  | ⟨name, none, span⟩, owner, seen => by
      rw [VariantDecl.elaborate]
      exact .refuse ((Build.Gives.fail _).locate span) (.pure rfl)
  | ⟨name, some fields, span⟩, owner, seen => by
      rw [VariantDecl.elaborate]
      refine .refuse ((Build.Gives.fail _).locate span) ?_
      refine (FieldDecl.gives_elaborateList scope fields name .empty).bind fun built described => ?_
      exact (Build.Gives.header (some name) span).bind
        fun header given => .pure ⟨rfl, given.1, given.2, described⟩
  termination_by structural variant => variant

theorem VariantDecl.gives_elaborateList (scope : Scope) : (variants : List VariantDecl) →
    ∀ (owner : String) (seen : List String),
      Build.Gives (VariantDecl.DescribeAll variants)
        (VariantDecl.elaborateList scope owner seen variants)
  | [], _, _ => .pure trivial
  | variant :: rest, owner, seen => by
      refine (VariantDecl.gives_elaborate scope variant owner seen).bind
        fun built described => ?_
      exact (VariantDecl.gives_elaborateList scope rest owner _).bind
        fun others describedRest => .pure ⟨described, describedRest⟩
  termination_by structural variants => variants

end

/-! Which ranges and arrays can be made. -/

theorem TypeExpr.run_elaborate_range_ok (scope : Scope) (name : Option String) (low high : Int64)
    (span : Span) (store : Store) :
    (∃ type after, Build.run ((TypeExpr.range low high span).elaborate scope name) store =
      (.ok type, after)) ↔ low ≤ high := by
  constructor
  · rintro ⟨type, after, ran⟩
    rw [TypeExpr.elaborate, Build.run_locate_eq_ok] at ran
    split at ran
    · assumption
    · cases ran
  · intro ordered
    obtain ⟨built, -, hbuilt⟩ := TypeExpr.run_elaborate_range scope name ordered span store
    exact ⟨_, _, hbuilt⟩

/-- The word that the length is kept in is at its largest for one interval only,
which is far above the limit, so the limit is never passed unseen. -/
theorem Interval.length_le_max_iff (interval : Interval) :
    interval.length ≤ maxArrayLength ↔
      interval.high.toInt - interval.low.toInt + 1 ≤ 0x1000000 := by
  have hmax : maxArrayLength.toNat = 0x1000000 := rfl
  have hlength := interval.toNat_length
  have hcount := interval.count_eq
  rw [UInt64.le_iff_toNat_le, hmax]
  omega

theorem Ty.run_arrayOf_ok (element : Ty) (domain : RangeType) (name : Option String)
    (span place : Span) (store : Store) :
    (∃ type after, Build.run (Ty.arrayOf (Store.newHeader name span) element (.range domain) place)
      store = (.ok type, after)) ↔
        domain.high.toInt - domain.low.toInt + 1 ≤ 0x1000000 := by
  rw [RangeType.high, RangeType.low, ← Interval.length_le_max_iff]
  simp only [Ty.arrayOf]
  split
  · next small => exact ⟨fun _ => small, fun _ => ⟨_, _, rfl⟩⟩
  · next large =>
    refine ⟨?_, fun small => absurd small large⟩
    rintro ⟨type, after, ran⟩
    cases ran

/-! Names and places. -/

namespace RecordType

variable {type : RecordType}

theorem fieldIndex?_eq_some_iff (inStep : type.InStep) {name : String} {place : Nat} :
    type.fieldIndex? name = some place ↔ (type.fields[place]?).map (·.name) = some name := by
  rw [← List.getElem?_map]
  exact inStep.places name place

theorem fieldType?_eq_some_iff (inStep : type.InStep) {name : String} {built : Ty} :
    type.fieldType? name = some built ↔
      ∃ field ∈ type.fields, field.name = name ∧ field.type = built := by
  rw [fieldType?, Option.bind_eq_some_iff]
  constructor
  · rintro ⟨place, hplace, hbuilt⟩
    obtain ⟨field, hfield, rfl⟩ := Option.map_eq_some_iff.1 hbuilt
    rw [fieldIndex?_eq_some_iff inStep, hfield] at hplace
    exact ⟨field, List.mem_of_getElem? hfield, Option.some.inj hplace, rfl⟩
  · rintro ⟨field, inside, rfl, rfl⟩
    obtain ⟨place, hfield⟩ := List.getElem?_of_mem inside
    refine ⟨place, (fieldIndex?_eq_some_iff inStep).2 ?_, ?_⟩ <;> rw [hfield] <;> rfl

/-- The layout knows the place of each field, and nothing else; so a name finds the one
field that has it. -/
structure Regular (type : RecordType) : Prop where
  layout : type.InStep
  distinct : (type.fields.map (·.name)).Nodup
  index : ∀ name place, type.fieldIndex? name = some place ↔
    (type.fields[place]?).map (·.name) = some name
  found : ∀ name built, type.fieldType? name = some built ↔
    ∃ field ∈ type.fields, field.name = name ∧ field.type = built

end RecordType

namespace EitherType

variable {type : EitherType}

theorem isSome_tag? {index : Nat} :
    (type.tag? index).isSome = true ↔ index < type.variants.length := by
  unfold tag?
  split
  · next inside => exact iff_of_true rfl inside
  · next outside => exact iff_of_false (by simp) outside

theorem variant?_eq_some_iff (distinct : (type.variants.map (·.name)).Nodup) {name : String}
    {variant : Variant} :
    type.variant? name = some variant ↔ variant ∈ type.variants ∧ variant.name = name := by
  rw [variant?]
  constructor
  · intro found
    exact ⟨List.mem_of_find?_eq_some found, by simpa using List.find?_some found⟩
  · rintro ⟨inside, rfl⟩
    have hfound : (type.variants.find? (·.name == variant.name)).isSome := by
      rw [List.find?_isSome]
      exact ⟨variant, inside, by simp⟩
    obtain ⟨other, hother⟩ := Option.isSome_iff_exists.1 hfound
    have hsame : other.name = variant.name := by simpa using List.find?_some hother
    rw [hother, List.inj_on_of_nodup_map distinct (List.mem_of_find?_eq_some hother) inside hsame]

structure Regular (type : EitherType) : Prop where
  inhabited : type.variants ≠ []
  distinct : (type.variants.map (·.name)).Nodup
  tags : ∀ index, (type.tag? index).isSome = true ↔ index < type.variants.length
  index : ∀ (place : Nat) variant, type.variants[place]? = some variant → variant.index = place
  parent : ∀ variant ∈ type.variants, variant.parent = type.header.id
  payload : ∀ variant ∈ type.variants, ∀ payload, variant.payload = some payload →
    payload.header.name = some variant.name
  tag : ∀ (place : Nat) variant, type.variants[place]? = some variant → ∃ tag,
    type.tag? place = some tag ∧ type.tagOf? variant = some tag ∧
      type.tagNamed? variant.name = some tag ∧ tag.variant = variant

end EitherType

structure Tag.Regular (tag : Tag) : Prop where
  inside : tag.either.variants[tag.index.val]? = some tag.variant
  index : tag.variant.index = tag.index.val
  byPlace : tag.either.tag? tag.index.val = some tag
  byVariant : tag.either.tagOf? tag.variant = some tag
  byName : tag.either.tagNamed? tag.name = some tag

structure ArrayType.Regular (type : ArrayType) : Prop where
  exact : (type.index.interval.length.toNat : Int) =
    type.index.high.toInt - type.index.low.toInt + 1
  limited : type.index.high.toInt - type.index.low.toInt + 1 ≤ 0x1000000

def Ty.Regular : Ty → Prop
  | .range type => type.low ≤ type.high
  | .record type => type.Regular
  | .either type => type.Regular
  | .array type => type.Regular

theorem RecordType.regular_of_proper {type : RecordType} (proper : (Ty.record type).Proper) :
    type.Regular where
  layout := proper
  distinct := proper.nodup
  index := fun _ _ => fieldIndex?_eq_some_iff proper
  found := fun _ _ => fieldType?_eq_some_iff proper

theorem EitherType.regular_of_proper {type : EitherType} (proper : (Ty.either type).Proper) :
    type.Regular where
  inhabited := List.cons_ne_nil _ _
  distinct := proper.1
  tags := fun _ => isSome_tag?
  index := fun place variant found => (proper.2 place variant found).1
  parent := by
    intro variant inside
    obtain ⟨place, hplace⟩ := List.getElem?_of_mem inside
    exact (proper.2 place variant hplace).2.1
  payload := by
    intro variant inside
    obtain ⟨place, hplace⟩ := List.getElem?_of_mem inside
    exact (proper.2 place variant hplace).2.2
  tag := by
    intro place variant found
    obtain ⟨hindex, hparent, -⟩ := proper.2 place variant found
    obtain ⟨inside, hvariant⟩ := List.getElem?_eq_some_iff.1 found
    have htag : type.tag? place = some ⟨type, place, inside⟩ := dif_pos inside
    refine ⟨_, htag, ?_, ?_, hvariant⟩
    · rw [tagOf?, if_pos hparent, hindex, htag]
    · rw [tagNamed?, (variant?_eq_some_iff proper.1).2 ⟨List.mem_of_getElem? found, rfl⟩,
        Option.bind_some, hindex, htag]

theorem Tag.regular_of_proper {tag : Tag} (proper : (Ty.either tag.either).Proper) :
    tag.Regular := by
  have hregular := EitherType.regular_of_proper proper
  have hinside : tag.either.variants[tag.index.val]? = some tag.variant :=
    List.getElem?_eq_getElem tag.index.isLt
  have hplace : tag.either.tag? tag.index.val = some tag :=
    EitherType.tag?_eq_some_iff.2 ⟨rfl, rfl⟩
  obtain ⟨same, hsame, hvariant, hname, -⟩ := hregular.tag _ _ hinside
  rw [hplace, Option.some.injEq] at hsame
  subst hsame
  exact ⟨hinside, hregular.index _ _ hinside, hplace, hvariant, hname⟩

theorem ArrayType.regular (type : ArrayType) : type.Regular := by
  have hlimited := type.index.interval.length_le_max_iff.1 type.index_le_max
  refine ⟨?_, hlimited⟩
  have hlength := type.index.interval.toNat_length
  have hcount := type.index.interval.count_eq
  rw [RangeType.high, RangeType.low, hlength]
  omega

theorem Ty.regular_of_proper {type : Ty} (proper : type.Proper) : type.Regular := by
  cases type with
  | range type => exact type.interval.low_le_high
  | record type => exact RecordType.regular_of_proper proper
  | either type => exact EitherType.regular_of_proper proper
  | array type => exact type.regular

namespace Session

/-- The tags that a client can come by: from a type by place, by name, as its first
or from a variant, as a constant, and as what an either value is in. -/
inductive HasTag (session : Session) : Tag → Prop
  | place {type : EitherType} {index : Nat} {tag : Tag} :
      session.HasType (.either type) → type.tag? index = some tag → HasTag session tag
  | named {type : EitherType} {name : String} {tag : Tag} :
      session.HasType (.either type) → type.tagNamed? name = some tag → HasTag session tag
  | first {type : EitherType} : session.HasType (.either type) → HasTag session type.firstTag
  | variant {type : EitherType} {variant : Variant} {tag : Tag} :
      session.HasType (.either type) → type.tagOf? variant = some tag → HasTag session tag
  | constant {root : Root} {tag : Tag} : session.find? root = some (.tag tag) → HasTag session tag
  | active {root : Root} {path : Path} {value : Value} {either : EitherValue} {tag : Tag} :
      session.find? root = some value → value.get path = .ok (.either either) →
        (either.active = .constant tag ∨ ∃ payload, either.active = .record tag payload) →
          HasTag session tag

theorem HasTag.hasType {session : Session} {tag : Tag} (has : session.HasTag tag) :
    session.HasType (.either tag.either) := by
  have hmade : ∀ {type : EitherType} {index : Nat}, session.HasType (.either type) →
      type.tag? index = some tag → session.HasType (.either tag.either) := by
    intro type index htype found
    rw [(EitherType.tag?_eq_some_iff.1 found).1]
    exact htype
  cases has with
  | place htype found => exact hmade htype found
  | named htype found =>
      obtain ⟨variant, -, hplace⟩ := Option.bind_eq_some_iff.1 found
      exact hmade htype hplace
  | first htype => exact htype
  | variant htype found =>
      rw [EitherType.tagOf?] at found
      split at found
      · exact hmade htype found
      · cases found
  | @constant root tag found =>
      have hwhole : (Value.tag tag).get [] = .ok (.tag tag) := rfl
      exact .value found hwhole
  | @active root path value either _ found hpart hactive =>
      have hsame : either.tag = tag := by
        unfold EitherValue.active at hactive
        split at hactive <;> simpa using hactive
      rw [← hsame]
      exact .value found hpart

/-- A type that an expression makes is what the expression says. A range can be made
exactly if its bounds are in order, and an array exactly if its index type has no
more integers than the limit. Every type that there is is regular, its variants
belong to it and to no other type, and every tag that there is is the tag of its
variant. -/
theorem types_regular (ops : List Op) :
    (∀ (scope : Scope) name (expression : TypeExpr) store type after,
      Build.run (expression.elaborate scope name) store = (.ok type, after) →
        expression.Describes name type) ∧
    (∀ (scope : Scope) name low high span store,
      (∃ type after, Build.run ((TypeExpr.range low high span).elaborate scope name) store =
        (.ok type, after)) ↔ low ≤ high) ∧
    (∀ element (domain : RangeType) name span place store,
      (∃ type after,
        Build.run (Ty.arrayOf (Store.newHeader name span) element (.range domain) place) store =
          (.ok type, after)) ↔
        domain.high.toInt - domain.low.toInt + 1 ≤ 0x1000000) ∧
    (∀ type, (run ops).HasType type → type.Regular) ∧
    (∀ type : EitherType, (run ops).HasType (.either type) → ∀ variant ∈ type.variants,
      ∀ other, (run ops).HasType other → (other.id = variant.parent ↔ other = .either type)) ∧
    ∀ tag, (run ops).HasTag tag → (run ops).HasType (.either tag.either) ∧ tag.Regular := by
  obtain ⟨catalog, hvalid⟩ := valid_run ops
  have hproper : ∀ type, (run ops).HasType type → type.Proper := by
    intro type has
    have hself := (hvalid.type_of_hasType has).self
    exact hvalid.covers.sound.proper type (List.mem_of_getElem? hself)
  refine ⟨?_, TypeExpr.run_elaborate_range_ok, ?_, ?_, ?_, ?_⟩
  · exact fun scope name expression => TypeExpr.gives_elaborate scope expression name
  · exact Ty.run_arrayOf_ok
  · exact fun type has => Ty.regular_of_proper (hproper type has)
  · intro type has variant inside other hother
    rw [(EitherType.regular_of_proper (hproper _ has)).parent variant inside]
    constructor
    · exact (hvalid.type_of_hasType hother).eq_of_id (hvalid.type_of_hasType has)
    · rintro rfl
      rfl
  · exact fun tag has => ⟨has.hasType, Tag.regular_of_proper (hproper _ has.hasType)⟩

end Session

end StateModel
