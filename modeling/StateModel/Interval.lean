/-!
Closed intervals of 64-bit integers, up to the whole of them. Distances are
taken in unsigned words, where the difference of two ends always fits.
-/
namespace StateModel

structure Interval where
  low : Int64
  high : Int64
  low_le_high : low ≤ high

namespace Interval

def contains (interval : Interval) (value : Int64) : Bool :=
  interval.low ≤ value && value ≤ interval.high

@[simp] theorem contains_iff {interval : Interval} {value : Int64} :
    interval.contains value = true ↔ interval.low ≤ value ∧ value ≤ interval.high := by
  simp [contains]

/-- Wraps in the signed sense and is exact in the unsigned one. -/
def distance (low high : Int64) : UInt64 := high.toUInt64 - low.toUInt64

theorem toNat_distance {low high : Int64} (order : low ≤ high) :
    ((distance low high).toNat : Int) = high.toInt - low.toInt := by
  have order := Int64.le_iff_toInt_le.1 order
  have lowToInt : low.toInt = (low.toUInt64.toNat : Int).bmod (2 ^ 64) := by
    rw [← Int64.toNat_toBitVec]; exact BitVec.toInt_eq_toNat_bmod _
  have highToInt : high.toInt = (high.toUInt64.toNat : Int).bmod (2 ^ 64) := by
    rw [← Int64.toNat_toBitVec]; exact BitVec.toInt_eq_toNat_bmod _
  have lowBound := low.toUInt64.toNat_lt
  have highBound := high.toUInt64.toNat_lt
  rw [distance, UInt64.toNat_sub]
  rw [Int.bmod] at lowToInt highToInt
  omega

def count (interval : Interval) : Nat := (distance interval.low interval.high).toNat + 1

theorem count_eq (interval : Interval) :
    (interval.count : Int) = interval.high.toInt - interval.low.toInt + 1 := by
  simp [count, toNat_distance interval.low_le_high]

/-- The count as a word. Only the interval of all integers is one too many for
a word, and stops at the largest. -/
def length (interval : Interval) : UInt64 :=
  let steps := distance interval.low interval.high
  if steps = 0xffffffffffffffff then steps else steps + 1

theorem toNat_length (interval : Interval) :
    interval.length.toNat = min interval.count 0xffffffffffffffff := by
  have bound := (distance interval.low interval.high).toNat_lt
  unfold length count
  by_cases full : distance interval.low interval.high = 0xffffffffffffffff
  · simp [full]
  · have notFull : (distance interval.low interval.high).toNat ≠ 0xffffffffffffffff := fun h =>
      full (UInt64.toNat_inj.1 (h.trans (by decide)))
    simp only [if_neg full, UInt64.toNat_add, UInt64.toNat_one]
    omega

def offset? (interval : Interval) (value : Int64) : Option Nat :=
  if interval.contains value then some (distance interval.low value).toNat else none

def valueAt (interval : Interval) (place : Nat) : Int64 := interval.low + Int64.ofNat place

theorem toInt_valueAt {interval : Interval} {place : Nat} (inside : place < interval.count) :
    (interval.valueAt place).toInt = interval.low.toInt + place := by
  have count := interval.count_eq
  have lowBound := interval.low.le_toInt
  have highBound := interval.high.toInt_lt
  have size : Int64.size = 2 ^ 64 := rfl
  have sum := Int64.toInt_add interval.low (Int64.ofNat place)
  rw [Int64.toInt_ofNat', size, Int.add_bmod_bmod] at sum
  rw [valueAt, sum, Int.bmod_eq_of_le] <;> omega

theorem offset?_eq_some_iff {interval : Interval} {value : Int64} {place : Nat} :
    interval.offset? value = some place ↔
      place < interval.count ∧ value.toInt = interval.low.toInt + place := by
  have count := interval.count_eq
  unfold offset?
  by_cases inside : interval.low ≤ value ∧ value ≤ interval.high
  · have exact := toNat_distance inside.1
    have above := Int64.le_iff_toInt_le.1 inside.2
    simp only [contains_iff.2 inside, if_true, Option.some.injEq]
    omega
  · have outside : interval.contains value = false :=
      Bool.eq_false_iff.2 (mt contains_iff.1 inside)
    simp only [outside, Bool.false_eq_true, if_false, reduceCtorEq, false_iff]
    rw [Int64.le_iff_toInt_le, Int64.le_iff_toInt_le] at inside
    omega

def values (interval : Interval) : List Int64 :=
  (List.range interval.count).map interval.valueAt

@[simp] theorem length_values (interval : Interval) : interval.values.length = interval.count := by
  simp [values]

def text (interval : Interval) : String :=
  interval.low.toInt.repr ++ ".." ++ interval.high.toInt.repr

end Interval

end StateModel
