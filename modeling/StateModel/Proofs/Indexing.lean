import StateModel.Proofs.References

/-!
Arrays by their indices. The slot of an index is its distance from the low end, which a word
holds exactly wherever the index lies in the domain, and indices and slots correspond one to
one. An enumeration goes by a cursor, which takes no step beyond the high end: where that is
the largest integer, there is none to take.
-/
namespace StateModel

/-- What an enumeration has still to list: the next index, the last, and whether the last
one has been listed. -/
structure IndexCursor where
  next : Int64
  last : Int64
  done : Bool

namespace IndexCursor

def start (interval : Interval) : IndexCursor := ⟨interval.low, interval.high, false⟩

def step (cursor : IndexCursor) : Option (Int64 × IndexCursor) :=
  if cursor.done ∨ cursor.last < cursor.next then none
  else if cursor.next < cursor.last then some (cursor.next, { cursor with next := cursor.next + 1 })
  else some (cursor.next, { cursor with done := true })

def zip (cursor : IndexCursor) : List Value → List (Int64 × Value)
  | [] => []
  | item :: rest =>
      match cursor.step with
      | some (index, after) => (index, item) :: after.zip rest
      | none => []

theorem step_exact {cursor after : IndexCursor} {index : Int64}
    (stepped : cursor.step = some (index, after)) :
    index = cursor.next ∧ after.last = cursor.last ∧
      (after.next.toInt = index.toInt + 1 ∨ index = cursor.last ∧ after.step = none) := by
  unfold step at stepped
  split at stepped
  · cases stepped
  · next going =>
    split at stepped
    · next below =>
      cases stepped
      refine ⟨rfl, rfl, .inl ?_⟩
      -- What is below another integer of a word is not the largest, so the sum cannot wrap.
      have hbelow := Int64.lt_iff_toInt_lt.1 below
      have hlow := cursor.next.le_toInt
      have hhigh := cursor.last.toInt_lt
      rw [Int64.toInt_add, Int64.toInt_one, Int.bmod_eq_of_le] <;> omega
    · next reached =>
      cases stepped
      refine ⟨rfl, rfl, .inr ⟨Int64.toInt_inj.1 ?_, if_pos (.inl rfl)⟩⟩
      have hpassed : ¬cursor.last < cursor.next := fun passed => going (.inr passed)
      rw [Int64.lt_iff_toInt_lt] at reached hpassed
      omega

def behind (interval : Interval) (steps : Nat) : IndexCursor :=
  if steps < interval.count then ⟨interval.valueAt steps, interval.high, false⟩
  else ⟨interval.high, interval.high, true⟩

variable {interval : Interval} {steps : Nat}

theorem start_eq_behind (interval : Interval) : start interval = behind interval 0 := by
  have hlow : interval.valueAt 0 = interval.low := by simp [Interval.valueAt]
  have hsome : 0 < interval.count := Nat.succ_pos _
  rw [behind, if_pos hsome, hlow, start]

theorem step_behind (inside : steps < interval.count) :
    (behind interval steps).step = some (interval.valueAt steps, behind interval (steps + 1)) := by
  have hvalue := Interval.toInt_valueAt inside
  have hcount := interval.count_eq
  have hnext : interval.valueAt steps + 1 = interval.valueAt (steps + 1) := by
    simp [Interval.valueAt, Int64.ofNat_add, Int64.add_assoc]
  have hpassed : ¬interval.high < interval.valueAt steps := by
    rw [Int64.lt_iff_toInt_lt]
    omega
  rw [behind, if_pos inside, step, if_neg (by simp [hpassed]), behind]
  by_cases more : steps + 1 < interval.count
  · have hbelow : interval.valueAt steps < interval.high := by
      rw [Int64.lt_iff_toInt_lt]
      omega
    rw [if_pos hbelow, if_pos more, hnext]
  · have hlast : interval.valueAt steps = interval.high := Int64.toInt_inj.1 (by omega)
    rw [if_neg (by simp [hlast]), if_neg more, hlast]

theorem step_behind_all (outside : ¬steps < interval.count) :
    (behind interval steps).step = none := by
  rw [behind, if_neg outside, step, if_pos (.inl rfl)]

theorem zip_behind (items : List Value) (steps : Nat) :
    (behind interval steps).zip items =
      ((List.range' steps (interval.count - steps)).map interval.valueAt).zip items := by
  induction items generalizing steps with
  | nil => simp [zip]
  | cons item rest ih =>
      by_cases inside : steps < interval.count
      · have hrange : List.range' steps (interval.count - steps) =
            steps :: List.range' (steps + 1) (interval.count - (steps + 1)) := by
          rw [show interval.count - steps = interval.count - (steps + 1) + 1 by omega,
            List.range'_succ]
        rw [zip, step_behind inside, hrange, List.map_cons, List.zip_cons_cons]
        exact congrArg _ (ih (steps + 1))
      · have hdone : interval.count - steps = 0 := by omega
        simp [zip, step_behind_all inside, hdone]

end IndexCursor

theorem Interval.offset?_eq_none_iff {interval : Interval} {value : Int64} :
    interval.offset? value = none ↔ ¬(interval.low ≤ value ∧ value ≤ interval.high) := by
  simp [Interval.offset?]

theorem Interval.offset?_of_inside {interval : Interval} {value : Int64}
    (inside : interval.low ≤ value ∧ value ≤ interval.high) :
    ∃ place, interval.offset? value = some place ∧ place < interval.count ∧
      (place : Int) = value.toInt - interval.low.toInt := by
  cases hoffset : interval.offset? value with
  | none => exact absurd inside (Interval.offset?_eq_none_iff.1 hoffset)
  | some place =>
      obtain ⟨hplace, hvalue⟩ := Interval.offset?_eq_some_iff.1 hoffset
      exact ⟨place, rfl, hplace, by omega⟩

namespace ArrayValue

theorem entries_eq_zip (array : ArrayValue) :
    array.entries = (IndexCursor.start array.type.index.interval).zip array.items := by
  rw [IndexCursor.start_eq_behind, IndexCursor.zip_behind, entries, Interval.values,
    List.range_eq_range', Nat.sub_zero]

theorem item_of_modifyItem {array after : ArrayValue} {index : Int64}
    {change : Value → Except Problem Value} (modified : array.modifyItem index change = .ok after) :
    ∃ old new, array.item index = .ok old ∧ change old = .ok new ∧
      ∀ other, after.item other = if other = index then .ok new else array.item other := by
  rw [modifyItem_eq] at modified
  cases hold : array.item index with
  | error problem =>
      rw [hold] at modified
      cases modified
  | ok old =>
      rw [hold] at modified
      change (change old >>= fun new => pure (array.setItem index new)) = .ok after at modified
      obtain ⟨new, hnew, rfl⟩ := map_eq_ok_iff.1 modified
      refine ⟨old, new, rfl, hnew, fun other => ?_⟩
      split
      · next same =>
        subst same
        exact item_setItem_self hold new
      · next different => exact item_setItem_of_ne different new

end ArrayValue

namespace ArrayType.Fits

variable {type : ArrayType} {array : ArrayValue}

theorem leads (fits : type.Fits array) {index : Int64}
    (inside : type.index.low ≤ index ∧ index ≤ type.index.high) :
    ∃ place child, type.index.interval.offset? index = some place ∧
      (place : Int) = index.toInt - type.index.low.toInt ∧
      array.items[place]? = some child ∧ array.item index = .ok child ∧
      array.itemReference index = .ok ⟨child, fun new => ⟨type, array.items.set place new⟩⟩ := by
  obtain ⟨rfl, hcount, -⟩ := ArrayType.fits_iff.1 fits
  obtain ⟨place, hoffset, hplace, hexact⟩ := Interval.offset?_of_inside inside
  have hitem : place < array.items.length := by rwa [hcount]
  refine ⟨place, array.items[place], hoffset, hexact, List.getElem?_eq_getElem hitem, ?_, ?_⟩
  · exact ArrayValue.item_eq_ok_iff.2 ⟨place, hoffset, List.getElem?_eq_getElem hitem⟩
  · simp only [ArrayValue.itemReference, hoffset, dif_pos hitem]

theorem refuses (fits : type.Fits array) {index : Int64}
    (outside : ¬(type.index.low ≤ index ∧ index ≤ type.index.high)) :
    array.item index =
      .error (.indexOutOfRange index type.index.low type.index.high type.text) ∧
    array.itemReference index =
      .error (.indexOutOfRange index type.index.low type.index.high type.text) := by
  obtain ⟨rfl, -, -⟩ := ArrayType.fits_iff.1 fits
  have hoffset := Interval.offset?_eq_none_iff.2 outside
  have hitem : array.item index = .error (array.outside index) := by
    simp only [ArrayValue.item, hoffset, Option.bind_none]
  refine ⟨hitem, ?_⟩
  rw [ArrayValue.itemReference_eq, hitem]
  rfl

theorem existsUnique_index (fits : type.Fits array) {place : Nat}
    (inside : place < array.items.length) :
    ∃! index, type.index.interval.offset? index = some place := by
  obtain ⟨-, hcount, -⟩ := ArrayType.fits_iff.1 fits
  rw [hcount] at inside
  exact ⟨_, Interval.offset?_valueAt inside, fun _ other =>
    Interval.offset?_inj other (Interval.offset?_valueAt inside)⟩

theorem indices (fits : type.Fits array) :
    array.entries.map (·.1.toInt) =
      (List.range (type.index.high.toInt - type.index.low.toInt + 1).toNat).map
        fun (place : Nat) => type.index.low.toInt + place := by
  obtain ⟨rfl, hcount, -⟩ := ArrayType.fits_iff.1 fits
  have hkeys : array.entries.map Prod.fst = array.type.index.interval.values :=
    List.map_fst_zip (Nat.le_of_eq ((Interval.length_values _).trans hcount.symm))
  calc array.entries.map (·.1.toInt)
      = (array.entries.map Prod.fst).map Int64.toInt := by rw [List.map_map]; rfl
    _ = array.type.index.interval.values.map Int64.toInt := congrArg _ hkeys
    _ = _ := array.type.index.interval.map_toInt_values

end ArrayType.Fits

/-- An array is read and written at the indices of its domain and nowhere else, wherever
the domain lies. Indices and slots correspond one to one, by differences that are exact, so
what is written at an index is read there and at no other. Enumerations list the domain
from end to end, each step going on by one or being the last. -/
theorem ArrayType.indexed_exactly (type : ArrayType) (array : ArrayValue)
    (fits : type.Fits array) :
    (∀ index, type.index.low ≤ index ∧ index ≤ type.index.high →
      ∃ place child, type.index.interval.offset? index = some place ∧
        (place : Int) = index.toInt - type.index.low.toInt ∧
        array.items[place]? = some child ∧ array.item index = .ok child ∧
        array.itemReference index = .ok ⟨child, fun new => ⟨type, array.items.set place new⟩⟩) ∧
    (∀ index, ¬(type.index.low ≤ index ∧ index ≤ type.index.high) →
      array.item index =
        .error (.indexOutOfRange index type.index.low type.index.high type.text) ∧
      array.itemReference index =
        .error (.indexOutOfRange index type.index.low type.index.high type.text)) ∧
    (∀ place < array.items.length, ∃! index, type.index.interval.offset? index = some place) ∧
    (∀ index change,
      array.modifyItem index change = array.itemReference index >>= (·.edit change)) ∧
    (∀ index change after, array.modifyItem index change = .ok after →
      ∃ old new, array.item index = .ok old ∧ change old = .ok new ∧
        ∀ other, after.item other = if other = index then .ok new else array.item other) ∧
    array.entries = (IndexCursor.start type.index.interval).zip array.items ∧
    (∀ (cursor after : IndexCursor) index, cursor.step = some (index, after) →
      index = cursor.next ∧ after.last = cursor.last ∧
        (after.next.toInt = index.toInt + 1 ∨ index = cursor.last ∧ after.step = none)) ∧
    array.entries.map (·.1.toInt) =
      (List.range (type.index.high.toInt - type.index.low.toInt + 1).toNat).map
        fun (place : Nat) => type.index.low.toInt + place := by
  have htype : array.type = type := (ArrayType.fits_iff.1 fits).1
  refine ⟨fun _ => fits.leads, fun _ => fits.refuses, fun _ => fits.existsUnique_index,
    fits.accessesAgree.edit, fun _ _ _ => ArrayValue.item_of_modifyItem, ?_,
    fun _ _ _ => IndexCursor.step_exact, fits.indices⟩
  rw [← htype]
  exact array.entries_eq_zip

theorem ArrayType.indexed_exactly_at_end :
    ∃ array, (Session.run [.newScope, .makeType 0 none (.array (.range 0 9)
        (.range 9223372036854775806 9223372036854775807)), .default 0]).find? (.slot 0) =
        some (.array array) ∧ array.type.Fits array ∧
      array.item (-9223372036854775808) = .error (.indexOutOfRange (-9223372036854775808)
        9223372036854775806 9223372036854775807 array.type.text) ∧
      array.entries.map (·.1.toInt) = [9223372036854775806, 9223372036854775807] := by
  let index : RangeType :=
    ⟨⟨1, none, .dummy⟩, ⟨9223372036854775806, 9223372036854775807, by decide⟩⟩
  let type : ArrayType :=
    ⟨⟨2, none, .dummy⟩, .range ⟨⟨0, none, .dummy⟩, ⟨0, 9, by decide⟩⟩, index, by decide⟩
  have fits : type.Fits type.default := type.fits_default
  obtain ⟨-, hrefuses, -, -, -, -, -, hindices⟩ := indexed_exactly type type.default fits
  exact ⟨type.default, rfl, fits, (hrefuses _ (by decide)).1, hindices.trans (by decide)⟩

end StateModel
