import StateModel.Bindings

/-!
Where the fields of a record type stand, by name. The layout is filled while the
type is built, each name with the number of fields that were there before it.
-/
namespace StateModel

/-- Every name has a place of its own among the fields entered so far. -/
structure Layout where
  places : Bindings Nat
  count : Nat
  below : ∀ name place, places.find? name = some place → place < count
  injective : ∀ left right place,
    places.find? left = some place → places.find? right = some place → left = right

namespace Layout

def empty : Layout where
  places := {}
  count := 0
  below := by simp
  injective := by simp

def find? (layout : Layout) (name : String) : Option Nat := layout.places.find? name

def contains (layout : Layout) (name : String) : Bool := layout.places.contains name

def names (layout : Layout) : List String := layout.places.names

def enter (layout : Layout) (name : String) : Layout where
  places := layout.places.put name layout.count
  count := layout.count + 1
  below := by
    intro other place found
    by_cases same : other = name
    · subst same
      rw [Bindings.find?_put_self, Option.some.injEq] at found
      omega
    · rw [Bindings.find?_put_of_ne _ _ same] at found
      exact Nat.lt_succ_of_lt (layout.below other place found)
  injective := by
    have apart : ∀ other place, other ≠ name →
        (layout.places.put name layout.count).find? other = some place → place ≠ layout.count := by
      intro other place different found
      rw [Bindings.find?_put_of_ne _ _ different] at found
      exact Nat.ne_of_lt (layout.below other place found)
    intro left right place atLeft atRight
    by_cases first : left = name
    · by_cases second : right = name
      · rw [first, second]
      · subst first
        rw [Bindings.find?_put_self, Option.some.injEq] at atLeft
        exact absurd atLeft.symm (apart right place second atRight)
    · by_cases second : right = name
      · subst second
        rw [Bindings.find?_put_self, Option.some.injEq] at atRight
        exact absurd atRight.symm (apart left place first atLeft)
      · rw [Bindings.find?_put_of_ne _ _ first] at atLeft
        rw [Bindings.find?_put_of_ne _ _ second] at atRight
        exact layout.injective left right place atLeft atRight

section

variable (layout : Layout)

@[simp] theorem find?_empty (name : String) : empty.find? name = none := rfl

@[simp] theorem count_enter (name : String) : (layout.enter name).count = layout.count + 1 := rfl

@[simp] theorem find?_enter_self (name : String) :
    (layout.enter name).find? name = some layout.count :=
  Bindings.find?_put_self ..

theorem find?_enter_of_ne {name other : String} (different : other ≠ name) :
    (layout.enter name).find? other = layout.find? other :=
  Bindings.find?_put_of_ne _ _ different

theorem contains_eq (name : String) : layout.contains name = (layout.find? name).isSome := rfl

theorem contains_iff {name : String} : layout.contains name = true ↔ name ∈ layout.names :=
  Bindings.contains_iff

@[simp] theorem contains_enter {name other : String} :
    (layout.enter name).contains other = (layout.contains other || other == name) := by
  by_cases same : other = name
  · simp [contains_eq, same]
  · simp [contains_eq, same, find?_enter_of_ne]

end

structure InStep (layout : Layout) (names : List String) : Prop where
  count : layout.count = names.length
  places : ∀ name place, layout.find? name = some place ↔ names[place]? = some name

namespace InStep

theorem empty : Layout.empty.InStep [] where
  count := rfl
  places := by simp

variable {layout : Layout} {names : List String}

theorem contains_iff (inStep : layout.InStep names) {name : String} :
    layout.contains name = true ↔ name ∈ names := by
  rw [contains_eq, Option.isSome_iff_exists, List.mem_iff_getElem?]
  exact exists_congr (inStep.places name)

theorem enter (inStep : layout.InStep names) {name : String}
    (new : ¬ layout.contains name) : (layout.enter name).InStep (names ++ [name]) where
  count := by simp [inStep.count]
  places other place := by
    have absent : name ∉ names := fun old => new (inStep.contains_iff.2 old)
    by_cases same : other = name
    · subst same
      rw [find?_enter_self, inStep.count, Option.some.injEq]
      constructor
      · rintro rfl
        simp
      · intro atPlace
        rw [List.getElem?_append] at atPlace
        split at atPlace
        · exact absurd (List.mem_of_getElem? atPlace) absent
        · grind
    · rw [find?_enter_of_ne _ same, inStep.places other place]
      grind

theorem nodup (inStep : layout.InStep names) : names.Nodup := by
  rw [List.Nodup, List.pairwise_iff_getElem]
  intro left right insideLeft insideRight before same
  have atLeft := (inStep.places names[left] left).2 (List.getElem?_eq_getElem insideLeft)
  have atRight := (inStep.places names[left] right).2 (by
    rw [same]
    exact List.getElem?_eq_getElem insideRight)
  exact Nat.ne_of_lt before (Option.some.inj (atLeft.symm.trans atRight))

end InStep

end Layout

end StateModel
