import Mathlib.Order.Lattice
import StateModel.Span

/-!
Merging as a join. One span lies within another that starts no later and ends no earlier,
inverted spans included, and the span that is no place lies within all others. Of this
order `merge` is the join, and its laws are those of joins.
-/
namespace StateModel

namespace Span

instance lawfulMax : Std.LawfulOrderLeftLeaningMax UInt32 where
  max_eq_left := by
    intro left right above
    by_cases below : left ≤ right
    · exact (if_pos below).trans (UInt32.le_antisymm above below)
    · exact if_neg below
  max_eq_right := by
    intro left right notAbove
    exact if_pos (Std.le_of_not_ge notAbove)

def Covers (outer inner : Span) : Prop := outer.start ≤ inner.start ∧ inner.stop ≤ outer.stop

theorem covers_refl (span : Span) : span.Covers span := ⟨Std.le_refl _, Std.le_refl _⟩

theorem Covers.trans {outer middle inner : Span} (wide : outer.Covers middle)
    (narrow : middle.Covers inner) : outer.Covers inner :=
  ⟨Std.le_trans wide.1 narrow.1, Std.le_trans narrow.2 wide.2⟩

theorem Covers.antisymm {left right : Span} (covers : left.Covers right)
    (covered : right.Covers left) : left = right := by
  cases left
  cases right
  exact congrArg₂ mk (UInt32.le_antisymm covers.1 covered.1)
    (UInt32.le_antisymm covered.2 covers.2)

theorem Covers.contains {outer inner : Span} (covers : outer.Covers inner) {offset : UInt32}
    (inside : inner.contains offset = true) : outer.contains offset = true := by
  rw [contains_iff] at inside ⊢
  exact ⟨Std.le_trans covers.1 inside.1, Std.lt_of_lt_of_le inside.2 covers.2⟩

@[simp] theorem contains_dummy (offset : UInt32) : dummy.contains offset = false := by
  refine Bool.eq_false_iff.2 fun inside => ?_
  obtain ⟨started, before⟩ := contains_iff.1 inside
  exact Std.not_lt.2 started before

variable {left right outer : Span}

theorem merge_of_ne_dummy (placed : left ≠ dummy) (placedRight : right ≠ dummy) :
    left.merge right = ⟨min left.start right.start, max left.stop right.stop⟩ := by
  rw [merge, if_neg (mt isDummy_iff.1 placed), if_neg (mt isDummy_iff.1 placedRight)]

theorem covers_merge_left (placed : left ≠ dummy) : (left.merge right).Covers left := by
  by_cases placedRight : right = dummy
  · rw [placedRight, merge_dummy_right]
    exact left.covers_refl
  · rw [merge_of_ne_dummy placed placedRight]
    exact ⟨Std.min_le_left, Std.left_le_max⟩

theorem covers_merge_right (placed : right ≠ dummy) : (left.merge right).Covers right := by
  by_cases placedLeft : left = dummy
  · rw [placedLeft, merge_dummy_left]
    exact right.covers_refl
  · rw [merge_of_ne_dummy placedLeft placed]
    exact ⟨Std.min_le_right, Std.right_le_max⟩

theorem Covers.merge (covers : outer.Covers left) (coversRight : outer.Covers right) :
    outer.Covers (left.merge right) := by
  by_cases placed : left = dummy
  · rwa [placed, merge_dummy_left]
  by_cases placedRight : right = dummy
  · rwa [placedRight, merge_dummy_right]
  rw [merge_of_ne_dummy placed placedRight]
  exact ⟨Std.le_min_iff.2 ⟨covers.1, coversRight.1⟩, Std.max_le_iff.2 ⟨covers.2, coversRight.2⟩⟩

theorem start_eq_of_dummy_covers (covers : dummy.Covers left) : left.start = dummy.start :=
  UInt32.le_antisymm (UInt32.le_iff_toNat_le.2 (Nat.le_of_lt_succ left.start.toNat_lt)) covers.1

/-- Two spans that were merged into none would both start at the last offset, and one of
them would end there, and be none already. -/
@[simp] theorem merge_eq_dummy_iff : left.merge right = dummy ↔ left = dummy ∧ right = dummy := by
  constructor
  · intro lost
    by_cases placed : left = dummy
    · exact ⟨placed, by rwa [placed, merge_dummy_left] at lost⟩
    by_cases placedRight : right = dummy
    · exact ⟨by rwa [placedRight, merge_dummy_right] at lost, placedRight⟩
    have hstart := start_eq_of_dummy_covers (lost ▸ covers_merge_left placed)
    have hstartRight := start_eq_of_dummy_covers (lost ▸ covers_merge_right placedRight)
    rw [merge_of_ne_dummy placed placedRight] at lost
    have hstop : max left.stop right.stop = dummy.stop := congrArg stop lost
    rcases Std.max_eq_or (a := left.stop) (b := right.stop) with ends | ends
    · exact absurd (congrArg₂ mk hstart (ends.symm.trans hstop)) placed
    · exact absurd (congrArg₂ mk hstartRight (ends.symm.trans hstop)) placedRight
  · rintro ⟨rfl, rfl⟩
    rfl

/-! The join. -/

instance : PartialOrder Span where
  le inner outer := inner = dummy ∨ outer ≠ dummy ∧ outer.Covers inner
  le_refl span := by
    by_cases placed : span = dummy
    · exact .inl placed
    · exact .inr ⟨placed, span.covers_refl⟩
  le_trans inner middle outer := by
    rintro (absent | ⟨hmiddle, narrow⟩) above
    · exact .inl absent
    rcases above with absent | ⟨houter, wide⟩
    · exact absurd absent hmiddle
    · exact .inr ⟨houter, wide.trans narrow⟩
  le_antisymm inner outer := by
    rintro (absent | ⟨houter, covers⟩) (absentOuter | ⟨hinner, covered⟩)
    · exact absent.trans absentOuter.symm
    · exact absurd absent hinner
    · exact absurd absentOuter houter
    · exact covered.antisymm covers

instance : SemilatticeSup Span where
  sup := merge
  le_sup_left left right := by
    by_cases placed : left = dummy
    · exact .inl placed
    · exact .inr ⟨fun lost => placed (merge_eq_dummy_iff.1 lost).1, covers_merge_left placed⟩
  le_sup_right left right := by
    by_cases placed : right = dummy
    · exact .inl placed
    · exact .inr ⟨fun lost => placed (merge_eq_dummy_iff.1 lost).2, covers_merge_right placed⟩
  sup_le left right outer := by
    rintro (rfl | ⟨houter, covers⟩) belowRight
    · rwa [merge_dummy_left]
    rcases belowRight with rfl | ⟨-, coversRight⟩
    · rw [merge_dummy_right]
      exact .inr ⟨houter, covers⟩
    · exact .inr ⟨houter, covers.merge coversRight⟩

theorem contains_merge {offset : UInt32}
    (inside : left.contains offset = true ∨ right.contains offset = true) :
    (left.merge right).contains offset = true := by
  rcases inside with inside | inside
  · exact (covers_merge_left fun lost => by simp [lost] at inside).contains inside
  · exact (covers_merge_right fun lost => by simp [lost] at inside).contains inside

/-- Spans are merged in any order and grouping, once or again, to the same effect, and
what is no place adds nothing and is never the outcome of places. Of two places the merge
is the least span that covers both, so it holds all offsets of either. -/
theorem merge_joins :
    (∀ first second third : Span,
      (first.merge second).merge third = first.merge (second.merge third)) ∧
    (∀ left right : Span, left.merge right = right.merge left) ∧
    (∀ span : Span, span.merge span = span) ∧
    (∀ span : Span, dummy.merge span = span ∧ span.merge dummy = span) ∧
    (∀ left right : Span, left.merge right = dummy ↔ left = dummy ∧ right = dummy) ∧
    (∀ left right : Span, left ≠ dummy → right ≠ dummy →
      (left.merge right).Covers left ∧ (left.merge right).Covers right ∧
      ∀ outer : Span, outer.Covers left → outer.Covers right → outer.Covers (left.merge right)) ∧
    ∀ (left right : Span) (offset : UInt32),
      left.contains offset = true ∨ right.contains offset = true →
        (left.merge right).contains offset = true :=
  ⟨sup_assoc, sup_comm, sup_idem, fun _ => ⟨merge_dummy_left _, merge_dummy_right _⟩,
    fun _ _ => merge_eq_dummy_iff, fun _ _ placed placedRight =>
      ⟨covers_merge_left placed, covers_merge_right placedRight, fun _ => .merge⟩,
    fun _ _ _ => contains_merge⟩

example : merge ⟨9, 4⟩ ⟨0xffffffff, 2⟩ = ⟨9, 4⟩ := by decide

end Span

end StateModel
