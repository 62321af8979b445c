import StateModel.Value.Equality
import StateModel.Value.Text
import StateModel.Proofs.SessionRuns

/-!
Reading texts back. As long as variants are named by words, the text of a value
ends where the next character cannot go on with it, whatever follows. So two
values of one type with one text are equal.
-/
namespace StateModel

/-! Words, and the texts that stop them. -/

/-- Whatever lies beyond ASCII may be a letter. -/
def isWordChar (char : Char) : Bool := char.isAlphanum || char == '_' || 128 ≤ char.toNat

def IsWord (text : String) : Prop := ∀ char ∈ text.toList, isWordChar char = true

/-- A word before the text ends where the text begins. -/
def Stops (text : String) : Prop := ∀ char ∈ text.toList.head?, isWordChar char = false

theorem stops_empty : Stops "" := by simp [Stops]

theorem stops_mark {mark : String} (opens : mark.toList.head?.any (!isWordChar ·) = true)
    (rest : String) : Stops (mark ++ rest) := by
  unfold Stops
  rw [String.toList_append]
  cases hmark : mark.toList with
  | nil =>
      rw [hmark] at opens
      exact nomatch opens
  | cons char chars =>
      rw [hmark] at opens
      intro first hfirst
      rw [← Option.some.inj hfirst]
      simpa using opens

theorem takeWhile_word {word rest : String} (hword : IsWord word) (stops : Stops rest) :
    (word ++ rest).toList.takeWhile isWordChar = word.toList := by
  have hrest : rest.toList.takeWhile isWordChar = [] := by
    unfold Stops at stops
    cases hchars : rest.toList with
    | nil => rfl
    | cons char others =>
        rw [hchars] at stops
        rw [List.takeWhile_cons, stops char rfl]
        rfl
  rw [String.toList_append, List.takeWhile_append_of_pos hword, hrest, List.append_nil]

/-- Texts of things that are not mistaken for each other, whatever follows each
of them. -/
def Legible {α : Type} (text : α → String) (left right : α) : Prop :=
  ∀ ⦃rest other : String⦄, Stops rest → Stops other →
    text left ++ rest = text right ++ other → left = right ∧ rest = other

theorem Legible.eq_of_text_eq {α : Type} {text : α → String} {left right : α}
    (legible : Legible text left right) (same : text left = text right) : left = right :=
  (legible stops_empty stops_empty (congrArg (· ++ "") same)).1

theorem Legible.wrap {α β : Type} {text : α → String} {left right : α}
    (legible : Legible text left right) {whole : β → String} (wrap : α → β)
    (same : ∀ item, whole (wrap item) = text item) :
    Legible whole (wrap left) (wrap right) := by
  intro rest other stops stopsOther hsame
  rw [same, same] at hsame
  obtain ⟨hitems, hrest⟩ := legible stops stopsOther hsame
  exact ⟨congrArg wrap hitems, hrest⟩

theorem legible_word {left right : String} (hleft : IsWord left) (hright : IsWord right) :
    Legible (fun word => word) left right := by
  intro rest other stops stopsOther same
  have hsame : left = right := by
    rw [← String.toList_inj, ← takeWhile_word hleft stops, same, takeWhile_word hright stopsOther]
  subst hsame
  exact ⟨rfl, (String.append_right_inj left).1 same⟩

theorem isWord_repr (number : Nat) : IsWord number.repr := by
  intro char hchar
  rw [Nat.toList_repr] at hchar
  have hdigit := Nat.isDigit_of_mem_toDigits (by decide) (by decide) hchar
  simp [isWordChar, Char.isAlphanum, hdigit]

theorem eq_of_repr_eq {left right : Nat} (same : left.repr = right.repr) : left = right := by
  have hread : ∀ number : Nat, Nat.ofDigitChars 10 number.repr.toList 0 = number := by
    intro number
    rw [Nat.toList_repr, Nat.ofDigitChars_toDigits (by decide) (by decide)]
  rw [← hread left, same, hread right]

theorem repr_append_ne_minus (number : Nat) {rest : String} (stops : Stops rest) (other : String) :
    number.repr ++ rest ≠ "-" ++ other := by
  intro same
  have hempty : IsWord "" := by simp [IsWord]
  have hnone := legible_word (isWord_repr number) hempty stops (stops_mark (by decide) other)
    (same.trans String.empty_append.symm)
  exact Nat.repr_ne_empty hnone.1

theorem legible_repr (left right : Int) : Legible Int.repr left right := by
  intro rest other stops stopsOther same
  cases left with
  | ofNat left =>
      cases right with
      | ofNat right =>
          obtain ⟨hsame, hrest⟩ :=
            legible_word (isWord_repr left) (isWord_repr right) stops stopsOther same
          exact ⟨congrArg Int.ofNat (eq_of_repr_eq hsame), hrest⟩
      | negSucc right =>
          have hsame := same.trans (String.append_assoc ..)
          exact absurd hsame (repr_append_ne_minus left stops _)
  | negSucc left =>
      cases right with
      | ofNat right =>
          have hsame := same.symm.trans (String.append_assoc ..)
          exact absurd hsame (repr_append_ne_minus right stopsOther _)
      | negSucc right =>
          have hsame : "-" ++ ((left + 1).repr ++ rest) = "-" ++ ((right + 1).repr ++ other) := by
            rw [← String.append_assoc, ← String.append_assoc]
            exact same
          obtain ⟨hdigits, hrest⟩ := legible_word (isWord_repr _) (isWord_repr _) stops stopsOther
            ((String.append_right_inj "-").1 hsame)
          rw [Nat.succ.inj (eq_of_repr_eq hdigits)]
          exact ⟨rfl, hrest⟩

/-! Lists of labelled texts. -/

def listed (labels texts : List String) : String :=
  ", ".intercalate (List.zipWith (fun label text => label ++ ": " ++ text) labels texts)

theorem RecordType.join_eq_listed (type : RecordType) (children : List String) :
    type.join children = listed (type.fields.map (·.name)) children := by
  rw [RecordType.join, listed, List.zipWith_map_left]

theorem ArrayType.bracketed_eq_listed (type : ArrayType) (items : List String) :
    type.bracketed items =
      "[" ++ listed (type.index.interval.values.map (·.toInt.repr)) items ++ "]" := by
  rw [ArrayType.bracketed, listed, List.zipWith_map_left]

theorem listed_singleton (label text : String) (labels : List String) :
    listed (label :: labels) [text] = label ++ ": " ++ text := by
  rw [listed, List.zipWith_cons_cons, List.zipWith_nil_right, String.intercalate_singleton]

theorem listed_cons_cons (label next text more : String) (labels texts : List String) :
    listed (label :: next :: labels) (text :: more :: texts) =
      label ++ ": " ++ text ++ ", " ++ listed (next :: labels) (more :: texts) := by
  rw [listed, List.zipWith_cons_cons, List.zipWith_cons_cons, String.intercalate_cons_cons]
  rfl

/-- The texts are read one after the other, each up to the comma that stops it. -/
theorem legible_listed {α : Type} {text : α → String} {labels : List String} {lefts rights : List α}
    (legible : List.Forall₂ (Legible text) lefts rights)
    (labelled : lefts.length ≤ labels.length) :
    Legible (fun items => listed labels (items.map text)) lefts rights := by
  induction legible generalizing labels with
  | nil =>
      intro rest other _ _ same
      exact ⟨rfl, (String.append_right_inj _).1 same⟩
  | @cons left right lefts rights head tail ih =>
      obtain _ | ⟨label, labels⟩ := labels
      · simp at labelled
      rw [List.length_cons, List.length_cons, Nat.succ_le_succ_iff] at labelled
      intro rest other stops stopsOther same
      cases tail with
      | nil =>
          simp only [List.map_cons, List.map_nil, listed_singleton, String.append_assoc,
            String.append_right_inj] at same
          obtain ⟨rfl, rfl⟩ := head stops stopsOther same
          exact ⟨rfl, rfl⟩
      | cons next others =>
          obtain _ | ⟨nextLabel, labels⟩ := labels
          · simp at labelled
          simp only [List.map_cons, listed_cons_cons, String.append_assoc,
            String.append_right_inj] at same
          obtain ⟨rfl, hlater⟩ :=
            head (stops_mark (by decide) _) (stops_mark (by decide) _) same
          obtain ⟨hsame, rfl⟩ :=
            ih labelled stops stopsOther ((String.append_right_inj ", ").1 hlater)
          exact ⟨congrArg _ hsame, rfl⟩

/-! Values of one type. -/

namespace Ty

def Legible (type : Ty) : Prop :=
  ∀ ⦃left right : Value⦄, type.Fits left → type.Fits right →
    StateModel.Legible Value.text left right

/-- At any depth, variants are as the builders of types leave them, and their
names are words. -/
def WellNamed (type : Ty) : Prop :=
  ∀ either, .either either ∈ type.parts →
    (Ty.either either).Proper ∧ ∀ variant ∈ either.variants, IsWord variant.name

theorem WellNamed.field {type : RecordType} (named : (Ty.record type).WellNamed) {field : Field}
    (inside : field ∈ type.fields) : field.type.WellNamed :=
  fun either hpart => named either (RecordType.mem_parts.2 (.inr ⟨field, inside, hpart⟩))

theorem WellNamed.payload {type : EitherType} (named : (Ty.either type).WellNamed)
    {variant : Variant} (inside : variant ∈ type.variants) {payload : RecordType}
    (given : variant.payload = some payload) : (Ty.record payload).WellNamed :=
  fun either hpart => named either (EitherType.mem_parts.2
    (.inr ⟨variant, inside, Variant.mem_parts.2 ⟨payload, given, hpart⟩⟩))

theorem WellNamed.element {type : ArrayType} (named : (Ty.array type).WellNamed) :
    type.element.WellNamed :=
  fun either hpart => named either (ArrayType.mem_parts.2 (.inr (.inr hpart)))

end Ty

namespace RangeType

variable {type : RangeType} {left right : RangeValue}

theorem legible_bareText (hleft : left.type = type) (hright : right.type = type) :
    Legible RangeValue.bareText left right := by
  intro rest other stops stopsOther same
  obtain ⟨hnumber, hrest⟩ := legible_repr _ _ stops stopsOther same
  obtain ⟨_, left⟩ := left
  obtain ⟨_, right⟩ := right
  cases hleft
  cases hright
  cases Int64.toInt_inj.1 hnumber
  exact ⟨rfl, hrest⟩

theorem legible_text (hleft : left.type = type) (hright : right.type = type) :
    Legible RangeValue.text left right := by
  intro rest other stops stopsOther same
  unfold RangeValue.text at same
  rw [hleft, hright] at same
  cases hname : type.header.name with
  | none =>
      rw [hname] at same
      exact legible_bareText hleft hright stops stopsOther same
  | some name =>
      rw [hname] at same
      simp only [String.append_assoc, String.append_right_inj] at same
      obtain ⟨hvalue, hrest⟩ :=
        legible_bareText hleft hright (stops_mark (by decide) _) (stops_mark (by decide) _) same
      exact ⟨hvalue, (String.append_right_inj ")").1 hrest⟩

end RangeType

namespace RecordType

variable {type : RecordType} {left right : RecordValue}

theorem legible_children (fields : ∀ field ∈ type.fields, field.type.Legible)
    (hleft : type.Fits left) (hright : type.Fits right) :
    List.Forall₂ (Legible Value.text) left.children right.children := by
  obtain ⟨-, hchildren⟩ := RecordType.fits_iff.1 hleft
  obtain ⟨-, hothers⟩ := RecordType.fits_iff.1 hright
  generalize type.fields = kinds at fields hchildren hothers
  generalize left.children = children at hchildren ⊢
  generalize right.children = others at hothers ⊢
  induction hchildren generalizing others with
  | nil =>
      cases hothers
      exact .nil
  | cons hchild _ ih =>
      cases hothers with
      | cons hother hrest =>
          rw [List.forall_mem_cons] at fields
          exact .cons (fields.1 hchild hother) (ih fields.2 _ hrest)

theorem legible_bareText (fields : ∀ field ∈ type.fields, field.type.Legible)
    (hleft : type.Fits left) (hright : type.Fits right) :
    Legible RecordValue.bareText left right := by
  intro rest other stops stopsOther same
  obtain ⟨hbuilt, hchildren⟩ := RecordType.fits_iff.1 hleft
  obtain ⟨hbuiltRight, -⟩ := RecordType.fits_iff.1 hright
  unfold RecordValue.bareText at same
  rw [hbuilt, hbuiltRight, join_eq_listed, join_eq_listed] at same
  obtain ⟨hsame, hrest⟩ := legible_listed (legible_children fields hleft hright)
    (by simp [hchildren.length_eq]) stops stopsOther same
  obtain ⟨_, children⟩ := left
  obtain ⟨_, others⟩ := right
  cases hbuilt
  cases hbuiltRight
  cases hsame
  exact ⟨rfl, hrest⟩

theorem legible_text (fields : ∀ field ∈ type.fields, field.type.Legible)
    (hleft : type.Fits left) (hright : type.Fits right) : Legible RecordValue.text left right := by
  intro rest other stops stopsOther same
  rw [RecordValue.text_eq, RecordValue.text_eq, (RecordType.fits_iff.1 hleft).1,
    (RecordType.fits_iff.1 hright).1] at same
  have hsame : left.bareText ++ (" \x7d" ++ rest) = right.bareText ++ (" \x7d" ++ other) := by
    unfold braced at same
    cases hname : type.header.name with
    | none | some =>
        rw [hname] at same
        simpa only [String.append_assoc, String.append_right_inj] using same
  obtain ⟨hvalue, hrest⟩ := legible_bareText fields hleft hright
    (stops_mark (by decide) _) (stops_mark (by decide) _) hsame
  exact ⟨hvalue, (String.append_right_inj _).1 hrest⟩

end RecordType

namespace ArrayType

variable {type : ArrayType} {left right : ArrayValue}

theorem legible_text (element : type.element.Legible) (hleft : type.Fits left)
    (hright : type.Fits right) : Legible ArrayValue.text left right := by
  intro rest other stops stopsOther same
  obtain ⟨hbuilt, hlength, hitems⟩ := ArrayType.fits_iff.1 hleft
  obtain ⟨hbuiltRight, hlengthRight, hothers⟩ := ArrayType.fits_iff.1 hright
  have hlegible : List.Forall₂ (Legible Value.text) left.items right.items :=
    List.forall₂_iff_get.2 ⟨hlength.trans hlengthRight.symm, fun place inside insideRight =>
      element (hitems _ (List.getElem_mem inside)) (hothers _ (List.getElem_mem insideRight))⟩
  rw [ArrayValue.text_eq, ArrayValue.text_eq, hbuilt, hbuiltRight, bracketed_eq_listed,
    bracketed_eq_listed] at same
  simp only [String.append_assoc, String.append_right_inj] at same
  obtain ⟨hsame, hrest⟩ := legible_listed hlegible (by simp [hlength])
    (stops_mark (by decide) _) (stops_mark (by decide) _) same
  obtain ⟨_, items⟩ := left
  obtain ⟨_, others⟩ := right
  cases hbuilt
  cases hbuiltRight
  cases hsame
  exact ⟨rfl, (String.append_right_inj "]").1 hrest⟩

end ArrayType

namespace EitherValue

def tail (either : EitherValue) : String :=
  match either.payload with
  | none => ""
  | some payload => " \x7b " ++ payload.bareText ++ " \x7d"

theorem stops_tail (either : EitherValue) {rest : String} (stops : Stops rest) :
    Stops (either.tail ++ rest) := by
  unfold tail
  cases either.payload with
  | none =>
      rw [String.empty_append]
      exact stops
  | some payload =>
      simp only [String.append_assoc]
      exact stops_mark (by decide) _

end EitherValue

theorem Variant.FitsPayload.shapes {variant : Variant} {left right : Option RecordValue}
    (hleft : variant.FitsPayload left) (hright : variant.FitsPayload right) :
    (left = none ∧ right = none) ∨ ∃ shape, variant.payload = some shape ∧
      ∃ first second, left = some first ∧ right = some second ∧
        shape.Fits first ∧ shape.Fits second := by
  rw [Variant.fitsPayload_iff] at hleft hright
  cases hshape : variant.payload <;> cases left <;> cases right <;> simp_all

namespace EitherType

variable {type : EitherType} {left right : EitherValue}

/-- A payload bears the name of its variant, so every text starts with that name. -/
theorem Fits.text_eq {value : EitherValue} (fits : type.Fits value)
    (proper : (Ty.either type).Proper) : value.text = value.tag.name ++ value.tail := by
  rw [EitherValue.text_eq, EitherValue.tail]
  cases hactive : value.payload with
  | none => exact String.append_empty.symm
  | some payload =>
      obtain ⟨shape, hinside, hshape, hfits⟩ := fits.payload hactive
      obtain ⟨place, hplace⟩ := List.getElem?_of_mem hinside
      have hname : payload.type.header.name = some value.tag.name := by
        rw [(RecordType.fits_iff.1 hfits).1]
        exact (proper.2 place _ hplace).2.2 shape hshape
      change payload.text = _
      rw [RecordValue.text_eq, RecordType.braced, hname]
      simp only [String.append_assoc]

theorem tag_eq_of_name {left right : Tag} (proper : (Ty.either type).Proper)
    (hleft : left.either = type) (hright : right.either = type) (same : left.name = right.name) :
    left = right := by
  obtain ⟨_, leftIndex⟩ := left
  obtain ⟨own, rightIndex⟩ := right
  subst hleft
  subst hright
  have hplace : ∀ index : Fin (own.rest.length + 1), (Tag.mk own index).variant.index = index :=
    fun index => (proper.2 index _ (List.getElem?_eq_getElem index.isLt)).1
  have hvariant : (Tag.mk own leftIndex).variant = (Tag.mk own rightIndex).variant :=
    List.inj_on_of_nodup_map proper.1 (List.getElem_mem leftIndex.isLt)
      (List.getElem_mem rightIndex.isLt) same
  rw [Fin.ext ((hplace leftIndex).symm.trans ((congrArg _ hvariant).trans (hplace rightIndex)))]

theorem legible_text (payloads : ∀ variant ∈ type.variants, ∀ payload,
      variant.payload = some payload → (Ty.record payload).Legible)
    (proper : (Ty.either type).Proper) (words : ∀ variant ∈ type.variants, IsWord variant.name)
    (hleft : type.Fits left) (hright : type.Fits right) : Legible EitherValue.text left right := by
  have hinside : ∀ {value : EitherValue}, type.Fits value → value.tag.variant ∈ type.variants := by
    intro value fits
    rw [← (EitherType.fits_iff.1 fits).1]
    exact List.getElem_mem value.tag.index.isLt
  intro rest other stops stopsOther same
  -- The word at the front is the name of the variant, so the variants are one.
  have hsplit := same
  rw [hleft.text_eq proper, hright.text_eq proper, String.append_assoc, String.append_assoc]
    at hsplit
  obtain ⟨hname, htails⟩ := legible_word (words _ (hinside hleft)) (words _ (hinside hright))
    (left.stops_tail stops) (right.stops_tail stopsOther) hsplit
  have htag : left.tag = right.tag := tag_eq_of_name proper (EitherType.fits_iff.1 hleft).1
    (EitherType.fits_iff.1 hright).1 hname
  obtain ⟨-, hpayload⟩ := EitherType.fits_iff.1 hleft
  obtain ⟨-, hother⟩ := EitherType.fits_iff.1 hright
  rw [htag] at hpayload
  obtain ⟨tag, payload⟩ := left
  obtain ⟨_, other⟩ := right
  cases htag
  rcases hpayload.shapes hother with ⟨rfl, rfl⟩ | ⟨shape, hshape, first, second, rfl, rfl, hfits⟩
  · exact ⟨rfl, (String.append_right_inj _).1 htails⟩
  · have hfirst : (Ty.record shape).Fits (.record first) := hfits.1
    have hsecond : (Ty.record shape).Fits (.record second) := hfits.2
    obtain ⟨hsame, hrest⟩ :=
      payloads _ (hinside hleft) shape hshape hfirst hsecond stops stopsOther same
    cases hsame
    exact ⟨rfl, hrest⟩

end EitherType

namespace Ty

theorem WellNamed.legible {type : Ty} (named : type.WellNamed) : type.Legible := by
  induction type using Ty.induction with
  | range type =>
      intro left right hleft hright
      cases left <;> simp only [Fits] at hleft
      cases right <;> simp only [Fits] at hright
      exact (RangeType.legible_text hleft.1 hright.1).wrap Value.range fun _ => rfl
  | record type ih =>
      intro left right hleft hright
      cases left <;> simp only [Fits] at hleft
      cases right <;> simp only [Fits] at hright
      have hfields : ∀ field ∈ type.fields, field.type.Legible :=
        fun field inside => ih field inside (named.field inside)
      exact (RecordType.legible_text hfields hleft hright).wrap Value.record fun _ => rfl
  | either type ih =>
      intro left right hleft hright
      cases left <;> simp only [Fits] at hleft
      cases right <;> simp only [Fits] at hright
      obtain ⟨hproper, hwords⟩ := named type (Ty.mem_parts_self _)
      have hpayloads : ∀ variant ∈ type.variants, ∀ payload, variant.payload = some payload →
          (Ty.record payload).Legible := fun variant inside payload given =>
        ih variant inside payload given (named.payload inside given)
      exact (EitherType.legible_text hpayloads hproper hwords hleft hright).wrap Value.either
        fun _ => rfl
  | array type ih =>
      intro left right hleft hright
      cases left <;> simp only [Fits] at hleft
      cases right <;> simp only [Fits] at hright
      exact (ArrayType.legible_text (ih named.element) hleft hright).wrap Value.array fun _ => rfl

theorem WellNamed.legible_bareText {type : Ty} (named : type.WellNamed) {left right : Value}
    (hleft : type.Fits left) (hright : type.Fits right) :
    StateModel.Legible Value.bareText left right := by
  have hlegible := named.legible hleft hright
  cases type with
  | range type =>
      cases left <;> simp only [Fits] at hleft
      cases right <;> simp only [Fits] at hright
      exact (RangeType.legible_bareText hleft.1 hright.1).wrap Value.range fun _ => rfl
  | record type =>
      cases left <;> simp only [Fits] at hleft
      cases right <;> simp only [Fits] at hright
      have hfields : ∀ field ∈ type.fields, field.type.Legible :=
        fun field inside => (named.field inside).legible
      exact (RecordType.legible_bareText hfields hleft hright).wrap Value.record fun _ => rfl
  | either type | array type =>
      cases left <;> simp only [Fits] at hleft
      cases right <;> simp only [Fits] at hright
      exact hlegible

end Ty

/-! Equality. -/

@[simp] theorem Tag.same_self (tag : Tag) : tag.same tag = true := by
  simp [Tag.same, Tag.belongsTo]

mutual

theorem Value.equals_self : (value : Value) → value.equals value = true
  | .range value => by simp [Value.equals, RangeValue.equals]
  | .record value => RecordValue.equals_self value
  | .either value => EitherValue.equals_self value
  | .tag constant => constant.same_self
  | .array value => ArrayValue.equals_self value
  termination_by structural value => value

theorem Value.equalLists_self : (values : List Value) → Value.equalLists values values = true
  | [] => rfl
  | value :: rest => by
      rw [Value.equalLists, Value.equals_self value, Value.equalLists_self rest]
      rfl
  termination_by structural values => values

theorem RecordValue.equals_self : (record : RecordValue) → record.equals record = true
  | ⟨type, children⟩ => by
      rw [RecordValue.equals, Value.equalLists_self children, beq_self_eq_true]
      rfl
  termination_by structural record => record

theorem EitherValue.equals_self : (either : EitherValue) → either.equals either = true
  | ⟨tag, none⟩ => by simp [EitherValue.equals]
  | ⟨tag, some payload⟩ => by
      rw [EitherValue.equals, tag.same_self]
      exact RecordValue.equals_self payload
  termination_by structural either => either

theorem ArrayValue.equals_self : (array : ArrayValue) → array.equals array = true
  | ⟨type, items⟩ => by
      rw [ArrayValue.equals, Value.equalLists_self items, beq_self_eq_true]
      rfl
  termination_by structural array => array

end

namespace Session

/-- A type that some session built, whose variants are named by words at any
depth: two of its well-formed values with one text are equal, and so are two
with one bare text. -/
theorem equals_of_text_eq (ops : List Op) {type : Ty} (built : type ∈ (run ops).types)
    (words : ∀ either, .either either ∈ type.parts →
      ∀ variant ∈ either.variants, IsWord variant.name)
    {left right : Value} (fitsLeft : type.Fits left) (fitsRight : type.Fits right) :
    (left.text = right.text → left.equals right = true) ∧
      (left.bareText = right.bareText → left.equals right = true) := by
  obtain ⟨catalog, hvalid⟩ := valid_run ops
  have hnamed : type.WellNamed := by
    intro either hpart
    have hplace := hvalid.types type built _ hpart
    exact ⟨hvalid.covers.sound.proper _ (List.mem_of_getElem? hplace), words either hpart⟩
  constructor
  · intro same
    rw [(hnamed.legible fitsLeft fitsRight).eq_of_text_eq same]
    exact right.equals_self
  · intro same
    rw [(hnamed.legible_bareText fitsLeft fitsRight).eq_of_text_eq same]
    exact right.equals_self

theorem text_ne_of_variants : ∃ type left right,
    type ∈ (run [.newScope, .makeType 0 (some "State") (.either [⟨"Idle", none, .dummy⟩,
      ⟨"Busy", some [⟨"left", .range 0 9, .dummy⟩], .dummy⟩])]).types ∧
    type.Fits left ∧ type.Fits right ∧ left.equals left = true ∧ left.equals right = false ∧
    left.text ≠ right.text ∧ left.bareText ≠ right.bareText := by
  let left : RangeType := ⟨⟨0, none, .dummy⟩, ⟨0, 9, by decide⟩⟩
  let busy : RecordType := ⟨⟨1, some "Busy", .dummy⟩, [⟨"left", .range left⟩],
    Layout.empty.enter "left"⟩
  let state : EitherType :=
    ⟨⟨2, some "State", .dummy⟩, ⟨"Idle", 0, 2, none⟩, [⟨"Busy", 1, 2, some busy⟩]⟩
  have hbuilt : Ty.either state ∈ (run [.newScope, .makeType 0 (some "State")
      (.either [⟨"Idle", none, .dummy⟩,
        ⟨"Busy", some [⟨"left", .range 0 9, .dummy⟩], .dummy⟩])]).types := List.mem_cons_self
  have hwords : ∀ either, .either either ∈ (Ty.either state).parts →
      ∀ variant ∈ either.variants, IsWord variant.name := by
    intro either hpart
    have hstate : either = state := by
      simpa [state, busy, left, Ty.parts, EitherType.parts, Variant.parts, Variant.partsList,
        RecordType.parts, Field.parts, Field.partsList] using hpart
    rw [hstate]
    simp [state, EitherType.variants, IsWord, isWordChar]
  have hidle : (Ty.either state).Fits (.either (.ofTag state.firstTag)) :=
    EitherValue.fits_ofTag state.firstTag
  have hbusy : (Ty.either state).Fits (.either (.ofTag ⟨state, 1⟩)) :=
    EitherValue.fits_ofTag ⟨state, 1⟩
  have hdifferent : (Value.either (.ofTag state.firstTag)).equals (.either (.ofTag ⟨state, 1⟩)) =
      false := rfl
  obtain ⟨htext, hbare⟩ := equals_of_text_eq _ hbuilt hwords hidle hbusy
  refine ⟨_, _, _, hbuilt, hidle, hbusy, (equals_of_text_eq _ hbuilt hwords hidle hidle).1 rfl,
    hdifferent, fun same => ?_, fun same => ?_⟩
  · exact Bool.false_ne_true (hdifferent.symm.trans (htext same))
  · exact Bool.false_ne_true (hdifferent.symm.trans (hbare same))

end Session

end StateModel
