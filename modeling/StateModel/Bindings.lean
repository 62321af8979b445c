/-!
Names with what they are bound to, in the order in which the names were first
bound. Binding a name again keeps its place.
-/
namespace StateModel

structure Bindings (α : Type) where
  entries : List (String × α) := []

namespace Bindings

variable {α : Type}

def names (bindings : Bindings α) : List String := bindings.entries.map (·.1)

def find? (bindings : Bindings α) (name : String) : Option α :=
  (bindings.entries.find? (·.1 == name)).map (·.2)

def contains (bindings : Bindings α) (name : String) : Bool := (bindings.find? name).isSome

private def putEntry (name : String) (value : α) : List (String × α) → List (String × α)
  | [] => [(name, value)]
  | (key, old) :: rest =>
      if key = name then (key, value) :: rest else (key, old) :: putEntry name value rest

def put (bindings : Bindings α) (name : String) (value : α) : Bindings α :=
  ⟨putEntry name value bindings.entries⟩

@[simp] theorem names_empty : ({} : Bindings α).names = [] := rfl

@[simp] theorem find?_empty (name : String) : ({} : Bindings α).find? name = none := rfl

@[simp] theorem find?_put_self (bindings : Bindings α) (name : String) (value : α) :
    (bindings.put name value).find? name = some value := by
  obtain ⟨entries⟩ := bindings
  induction entries with
  | nil => simp [put, putEntry, find?]
  | cons entry rest ih =>
      by_cases h : entry.1 = name
      · simp [put, putEntry, find?, h]
      · simpa [put, putEntry, find?, h] using ih

theorem find?_put_of_ne (bindings : Bindings α) {name other : String} (value : α)
    (different : other ≠ name) :
    (bindings.put name value).find? other = bindings.find? other := by
  obtain ⟨entries⟩ := bindings
  induction entries with
  | nil => simp [put, putEntry, find?, Ne.symm different]
  | cons entry rest ih =>
      by_cases h : entry.1 = name
      · simp [put, putEntry, find?, h, Ne.symm different]
      · by_cases here : entry.1 = other
        · subst here
          simp [put, putEntry, find?, different]
        · simpa [put, putEntry, find?, h, here] using ih

theorem contains_iff {bindings : Bindings α} {name : String} :
    bindings.contains name = true ↔ name ∈ bindings.names := by
  simp [contains, find?, names, List.find?_isSome]

theorem names_put (bindings : Bindings α) (name : String) (value : α) :
    (bindings.put name value).names =
      if name ∈ bindings.names then bindings.names else bindings.names ++ [name] := by
  obtain ⟨entries⟩ := bindings
  simp only [put, names]
  induction entries with
  | nil => simp [putEntry]
  | cons entry rest ih =>
      by_cases h : entry.1 = name
      · simp [putEntry, h]
      · rw [putEntry, if_neg h, List.map_cons, ih]
        by_cases later : name ∈ rest.map (·.1) <;> simp [later, Ne.symm h]

def map {β : Type} (change : α → β) (bindings : Bindings α) : Bindings β :=
  ⟨bindings.entries.map fun entry => (entry.1, change entry.2)⟩

section

variable {β : Type} (change : α → β) (bindings : Bindings α)

@[simp] theorem names_map : (bindings.map change).names = bindings.names := by
  simp [map, names]

@[simp] theorem find?_map (name : String) :
    (bindings.map change).find? name = (bindings.find? name).map change := by
  simp [map, find?, List.find?_map, Function.comp_def]

@[simp] theorem contains_map (name : String) :
    (bindings.map change).contains name = bindings.contains name := by
  simp [contains]

theorem map_put (name : String) (value : α) :
    (bindings.put name value).map change = (bindings.map change).put name (change value) := by
  obtain ⟨entries⟩ := bindings
  simp only [put, map, mk.injEq]
  induction entries with
  | nil => rfl
  | cons entry rest ih =>
      by_cases h : entry.1 = name
      · simp [putEntry, h]
      · simp [putEntry, h, ih]

end

end Bindings

end StateModel
