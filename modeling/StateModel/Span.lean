/-!
Where a declaration stands in its text. A span built in code has no place, and
`dummy` says so; it is the identity of `merge`.
-/
namespace StateModel

/-- The bytes from `start` up to, but not including, `stop`. -/
structure Span where
  start : UInt32
  stop : UInt32
  deriving DecidableEq

namespace Span

/-- Stands past every offset of a text, so an empty span at offset zero is
still a place. -/
def dummy : Span := ⟨0xffffffff, 0xffffffff⟩

instance : Inhabited Span := ⟨dummy⟩

def isDummy (span : Span) : Bool := span == dummy

@[simp] theorem isDummy_iff {span : Span} : span.isDummy = true ↔ span = dummy := by
  simp [isDummy]

def point (offset : UInt32) : Span := ⟨offset, offset⟩

def isEmpty (span : Span) : Bool := span.stop ≤ span.start

/-- An inverted span is as long as an empty one. -/
def length (span : Span) : UInt32 :=
  if span.isEmpty then 0 else span.stop - span.start

theorem toNat_length (span : Span) :
    span.length.toNat = span.stop.toNat - span.start.toNat := by
  by_cases order : span.stop ≤ span.start
  · simp [length, isEmpty, order, Nat.sub_eq_zero_of_le (UInt32.le_iff_toNat_le.1 order)]
  · have le : span.start ≤ span.stop := UInt32.le_iff_toNat_le.2
      (Nat.le_of_lt (Nat.lt_of_not_le fun h => order (UInt32.le_iff_toNat_le.2 h)))
    simp [length, isEmpty, order, UInt32.toNat_sub_of_le _ _ le]

def contains (span : Span) (offset : UInt32) : Bool :=
  span.start ≤ offset && offset < span.stop

@[simp] theorem contains_iff {span : Span} {offset : UInt32} :
    span.contains offset = true ↔ span.start ≤ offset ∧ offset < span.stop := by
  simp [contains]

def merge (left right : Span) : Span :=
  if left.isDummy then right
  else if right.isDummy then left
  else ⟨min left.start right.start, max left.stop right.stop⟩

@[simp] theorem merge_dummy_left (span : Span) : dummy.merge span = span := by
  simp [merge]

@[simp] theorem merge_dummy_right (span : Span) : span.merge dummy = span := by
  by_cases h : span = dummy <;> simp [merge, isDummy, h]

def text (span : Span) : String :=
  span.start.toNat.repr ++ ".." ++ span.stop.toNat.repr

end Span

end StateModel
