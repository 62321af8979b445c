import Mathlib.Data.List.DropRight
import Mathlib.Data.List.Nodup
import StateModel.Proofs.Declared

/-!
The order of the declared names of a module. A name stands in the list of the sort that
it was declared as last, at the place where it began to be declared as that sort alone.
So the lists can be read off the declarations, though a load writes them by leaving out
and adding one name at a time.
-/
namespace StateModel

inductive NameSort where
  | param
  | var
  deriving DecidableEq

structure Naming where
  name : String
  sort : NameSort

def Decl.naming? : Decl → Option Naming
  | .param name _ _ _ => some ⟨name, .param⟩
  | .var name _ _ _ => some ⟨name, .var⟩
  | .type .. | .rule .. | .unknown .. => none

namespace Naming

def declarationsOf (namings : List Naming) (name : String) : List (NameSort × Nat) :=
  namings.zipIdx.filterMap fun (naming, place) =>
    if naming.name = name then some (naming.sort, place) else none

def lastSort? (namings : List Naming) (name : String) : Option NameSort :=
  (declarationsOf namings name).getLast?.map (·.1)

/-- The longest run at the end of the declarations of a name in which all are of the sort
of the last. -/
def finalRun (namings : List Naming) (name : String) : List (NameSort × Nat) :=
  (declarationsOf namings name).rtakeWhile fun declaration =>
    some declaration.1 = lastSort? namings name

def position? (namings : List Naming) (name : String) : Option Nat :=
  (finalRun namings name).head?.map (·.2)

def Precedes (namings : List Naming) (first second : String) : Prop :=
  ∃ place later, position? namings first = some place ∧ position? namings second = some later ∧
    place < later

/-- The names that are of the sort at last, each once, in the order of their positions. -/
structure Lists (namings : List Naming) (sort : NameSort) (list : List String) : Prop where
  members : ∀ name, name ∈ list ↔ lastSort? namings name = some sort
  once : list.Nodup
  ascending : list.Pairwise (Precedes namings)

/-! One more declaration. -/

section

variable (namings : List Naming) (naming : Naming) {name : String}

theorem declarationsOf_concat_self :
    declarationsOf (namings ++ [naming]) naming.name =
      declarationsOf namings naming.name ++ [(naming.sort, namings.length)] := by
  simp [declarationsOf, List.zipIdx_append]

theorem declarationsOf_concat_of_ne (other : name ≠ naming.name) :
    declarationsOf (namings ++ [naming]) name = declarationsOf namings name := by
  simp [declarationsOf, List.zipIdx_append, Ne.symm other]

@[simp] theorem lastSort?_concat_self :
    lastSort? (namings ++ [naming]) naming.name = some naming.sort := by
  simp [lastSort?, declarationsOf_concat_self]

theorem lastSort?_concat_of_ne (other : name ≠ naming.name) :
    lastSort? (namings ++ [naming]) name = lastSort? namings name := by
  rw [lastSort?, declarationsOf_concat_of_ne namings naming other, lastSort?]

theorem position?_concat_of_ne (other : name ≠ naming.name) :
    position? (namings ++ [naming]) name = position? namings name := by
  rw [position?, finalRun, declarationsOf_concat_of_ne namings naming other,
    lastSort?_concat_of_ne namings naming other, position?, finalRun]

end

variable {namings : List Naming} {naming : Naming} {name : String}

theorem finalRun_concat_self :
    finalRun (namings ++ [naming]) naming.name =
      (declarationsOf namings naming.name).rtakeWhile (fun declaration =>
        declaration.1 = naming.sort) ++ [(naming.sort, namings.length)] := by
  rw [finalRun, lastSort?_concat_self, declarationsOf_concat_self, List.rtakeWhile_concat_pos]
  · simp only [Option.some.injEq]
  · simp

theorem finalRun_ne_nil {sort : NameSort} (last : lastSort? namings name = some sort) :
    finalRun namings name ≠ [] := by
  obtain ⟨declaration, hlast, hsort⟩ := Option.map_eq_some_iff.1 last
  obtain ⟨before, hbefore⟩ := List.getLast?_eq_some_iff.1 hlast
  rw [finalRun, last, hbefore, List.rtakeWhile_concat_pos]
  · simp
  · simp [hsort]

theorem position?_concat_of_same (last : lastSort? namings naming.name = some naming.sort) :
    position? (namings ++ [naming]) naming.name = position? namings naming.name := by
  have hrun : finalRun namings naming.name =
      (declarationsOf namings naming.name).rtakeWhile fun declaration =>
        declaration.1 = naming.sort := by
    rw [finalRun, last]
    simp only [Option.some.injEq]
  rw [position?, finalRun_concat_self, ← hrun, position?,
    List.head?_append_of_ne_nil _ (finalRun_ne_nil last)]

theorem position?_concat_of_change (last : lastSort? namings naming.name ≠ some naming.sort) :
    position? (namings ++ [naming]) naming.name = some namings.length := by
  have hrun : (declarationsOf namings naming.name).rtakeWhile (fun declaration =>
      declaration.1 = naming.sort) = [] := by
    rcases List.eq_nil_or_concat (declarationsOf namings naming.name) with
      hnone | ⟨before, declaration, hlast⟩
    · rw [hnone, List.rtakeWhile_nil]
    · rw [List.concat_eq_append] at hlast
      rw [lastSort?, hlast] at last
      rw [hlast, List.rtakeWhile_concat_neg]
      simpa using last
  rw [position?, finalRun_concat_self, hrun]
  rfl

theorem exists_position {sort : NameSort} (last : lastSort? namings name = some sort) :
    ∃ place, position? namings name = some place := by
  rcases hrun : finalRun namings name with _ | ⟨declaration, later⟩
  · exact absurd hrun (finalRun_ne_nil last)
  · exact ⟨declaration.2, by rw [position?, hrun]; rfl⟩

theorem position?_lt {place : Nat} (stands : position? namings name = some place) :
    place < namings.length := by
  obtain ⟨declaration, hhead, rfl⟩ := Option.map_eq_some_iff.1 stands
  have hinside : declaration ∈ declarationsOf namings name :=
    (List.rtakeWhile_suffix _ _).mem (List.mem_of_head? hhead)
  obtain ⟨⟨earlier, place⟩, hearlier, hgiven⟩ := List.mem_filterMap.1 hinside
  obtain ⟨-, ⟨⟩⟩ := Option.ite_none_right_eq_some.1 hgiven
  exact List.snd_lt_of_mem_zipIdx hearlier

/-! The lists that the declarations determine, and what one more declaration does to
them. -/

variable {sort : NameSort} {list other : List String}

theorem Precedes.asymm {first second : String} (precedes : Precedes namings first second) :
    ¬Precedes namings second first := by
  rintro ⟨later, place, hlater, hplace, hlt⟩
  obtain ⟨place', later', hplace', hlater', hlt'⟩ := precedes
  cases hplace.symm.trans hplace'
  cases hlater.symm.trans hlater'
  exact lt_asymm hlt hlt'

theorem Lists.unique (lists : Lists namings sort list) (others : Lists namings sort other) :
    list = other := by
  have hperm : list.Perm other := (List.perm_ext_iff_of_nodup lists.once others.once).2
    fun name => (lists.members name).trans (others.members name).symm
  exact hperm.eq_of_pairwise (fun _ _ _ _ precedes follows => absurd follows precedes.asymm)
    lists.ascending others.ascending

theorem lists_nil (sort : NameSort) : Lists [] sort [] :=
  ⟨fun _ => by simp [lastSort?, declarationsOf], .nil, .nil⟩

theorem ascending_of_position?_eq {later : List Naming}
    (ascending : list.Pairwise (Precedes namings))
    (keeps : ∀ name ∈ list, position? later name = position? namings name) :
    list.Pairwise (Precedes later) := by
  refine ascending.imp_of_mem fun first second precedes => ?_
  rw [Precedes, keeps _ first, keeps _ second]
  exact precedes

theorem Lists.again (lists : Lists namings naming.sort list) (present : naming.name ∈ list) :
    Lists (namings ++ [naming]) naming.sort list := by
  have hlast : lastSort? namings naming.name = some naming.sort := (lists.members _).1 present
  refine ⟨fun name => ?_, lists.once,
    ascending_of_position?_eq lists.ascending fun name _ => ?_⟩
  · rw [lists.members]
    by_cases same : name = naming.name
    · rw [same, hlast, lastSort?_concat_self]
    · rw [lastSort?_concat_of_ne namings naming same]
  · by_cases same : name = naming.name
    · rw [same]
      exact position?_concat_of_same hlast
    · exact position?_concat_of_ne namings naming same

theorem Lists.enter (lists : Lists namings naming.sort list) (absent : naming.name ∉ list) :
    Lists (namings ++ [naming]) naming.sort (list ++ [naming.name]) := by
  have hlast : lastSort? namings naming.name ≠ some naming.sort :=
    fun last => absent ((lists.members _).2 last)
  have hne : ∀ name ∈ list, name ≠ naming.name := fun _ inside same => absent (same ▸ inside)
  refine ⟨fun name => ?_, ?_, List.pairwise_append.2 ⟨?_, List.pairwise_singleton _ _, ?_⟩⟩
  · rw [List.mem_append, List.mem_singleton, lists.members]
    by_cases same : name = naming.name
    · simp [same]
    · simp [same, lastSort?_concat_of_ne namings naming same]
  · rw [← List.concat_eq_append]
    exact lists.once.concat absent
  · exact ascending_of_position?_eq lists.ascending
      fun name inside => position?_concat_of_ne _ _ (hne name inside)
  · intro name inside added hadded
    obtain rfl := List.mem_singleton.1 hadded
    obtain ⟨place, hplace⟩ := exists_position ((lists.members _).1 inside)
    exact ⟨place, namings.length, by rw [position?_concat_of_ne _ _ (hne _ inside), hplace],
      position?_concat_of_change hlast, position?_lt hplace⟩

theorem Lists.leave (lists : Lists namings sort list) (other : naming.sort ≠ sort) :
    Lists (namings ++ [naming]) sort (list.filter (· ≠ naming.name)) := by
  have hne : ∀ name ∈ list.filter (· ≠ naming.name), name ≠ naming.name :=
    fun _ inside => of_decide_eq_true (List.mem_filter.1 inside).2
  refine ⟨fun name => ?_, lists.once.filter _, ?_⟩
  · rw [List.mem_filter, lists.members]
    by_cases same : name = naming.name
    · simp [same, other]
    · simp [same, lastSort?_concat_of_ne namings naming same]
  · exact ascending_of_position?_eq (lists.ascending.filter _)
      fun name inside => position?_concat_of_ne _ _ (hne name inside)

end Naming

/-! The lists that a load writes. -/

def DeclaredNames.ofSort (names : DeclaredNames) : NameSort → List String
  | .param => names.params
  | .var => names.vars

def Contribution.naming? : Contribution → Option Naming
  | .param name => some ⟨name, .param⟩
  | .var name => some ⟨name, .var⟩
  | .type | .rule _ => none

namespace DeclaredNames

variable {names : DeclaredNames} {namings : List Naming}

theorem ofSort_add {contribution : Contribution} {naming : Naming}
    (names : DeclaredNames) (gives : contribution.naming? = some naming) (sort : NameSort) :
    (names.add contribution).ofSort sort =
      if naming.sort = sort then
        if naming.name ∈ names.ofSort sort then names.ofSort sort
        else names.ofSort sort ++ [naming.name]
      else (names.ofSort sort).filter (· ≠ naming.name) := by
  cases contribution with
  | type | rule => cases gives
  | param name => cases gives; cases sort <;> rfl
  | var name => cases gives; cases sort <;> rfl

def Follows (names : DeclaredNames) (namings : List Naming) : Prop :=
  ∀ sort, Naming.Lists namings sort (names.ofSort sort)

theorem Follows.add (follows : names.Follows namings) (contribution : Contribution) :
    (names.add contribution).Follows (namings ++ contribution.naming?.toList) := by
  intro sort
  cases gives : contribution.naming? with
  | none =>
      rw [Option.toList_none, List.append_nil]
      cases contribution with
      | type | rule => exact follows sort
      | param | var => cases gives
  | some naming =>
      rw [ofSort_add names gives, Option.toList_some]
      split
      · next same =>
        subst same
        split
        · next present => exact (follows _).again present
        · next absent => exact (follows _).enter absent
      · next other => exact (follows sort).leave other

end DeclaredNames

theorem Decl.naming?_of_declare {scope : Scope} {decl : Decl} {store after : Store}
    {contribution : Contribution}
    (declares : Build.run (decl.declare scope) store = (.ok contribution, after)) :
    contribution.naming? = decl.naming? := by
  have hgives := decl.contribution?_of_declare scope declares
  cases decl <;> cases hgives <;> rfl

section

variable {σ : Type} [RuleSink σ]

theorem loadFrom_follows {scope : Scope} {names : DeclaredNames} {namings : List Naming}
    {decls : List Decl} {sink sinkAfter : σ} {store after : Store} {loaded : LoadedModule}
    (follows : names.Follows namings)
    (loads : loadFrom scope names sink store decls = ⟨.ok loaded, sinkAfter, after⟩) :
    loaded.names.Follows (namings ++ decls.filterMap Decl.naming?) := by
  induction decls generalizing names namings sink store with
  | nil =>
      cases loads
      rw [List.filterMap_nil, List.append_nil]
      exact follows
  | cons decl rest ih =>
      obtain ⟨contribution, middle, hdeclares, hrest⟩ := loadFrom_cons_ok loads
      have hfollows := ih (follows.add contribution) hrest
      rw [Decl.naming?_of_declare hdeclares] at hfollows
      rw [List.filterMap_cons]
      cases gives : decl.naming? <;> simpa [gives] using hfollows

/-- After a load that ends well the two lists are the ones that its declarations
determine, and there are no others. -/
theorem loadIn_name_order {parent : Option Scope} {policy : Redefinition} {decls : List Decl}
    {sink sinkAfter : σ} {store after : Store} {loaded : LoadedModule}
    (loads : loadIn parent policy decls sink store = ⟨.ok loaded, sinkAfter, after⟩) :
    (∀ list, Naming.Lists (decls.filterMap Decl.naming?) .param list ↔
      list = loaded.names.params) ∧
    ∀ list, Naming.Lists (decls.filterMap Decl.naming?) .var list ↔
      list = loaded.names.vars := by
  rw [loadIn_eq_load, load] at loads
  have hempty : DeclaredNames.Follows {} [] := fun sort => by
    cases sort <;> exact Naming.lists_nil _
  have hfollows := loadFrom_follows hempty loads
  rw [List.nil_append] at hfollows
  have hunique : ∀ sort list, Naming.Lists (decls.filterMap Decl.naming?) sort list ↔
      list = loaded.names.ofSort sort := by
    intro sort list
    constructor
    · exact fun lists => lists.unique (hfollows sort)
    · rintro rfl
      exact hfollows sort
  exact ⟨hunique .param, hunique .var⟩

end

/-- A name that was a parameter for a while stands after the one declared since. -/
theorem loadIn_name_order_moved :
    ∃ decls loaded after, decls = [.var "a" (.range 0 3) none, .var "b" (.range 0 3) none,
        .param "a" (.range 0 3) (some (.number 1)), .var "a" (.range 0 3) none] ∧
      loadIn none .overwrite decls () {} = ⟨.ok loaded, (), after⟩ ∧
      loaded.names.vars = ["b", "a"] ∧
      ∀ list, Naming.Lists (decls.filterMap Decl.naming?) .var list ↔ list = ["b", "a"] := by
  let decls : List Decl := [.var "a" (.range 0 3) none, .var "b" (.range 0 3) none,
    .param "a" (.range 0 3) (some (.number 1)), .var "a" (.range 0 3) none]
  obtain ⟨loaded, after, hloads, hvars⟩ : ∃ loaded after,
      loadIn none .overwrite decls () {} = ⟨.ok loaded, (), after⟩ ∧
        loaded.names.vars = ["b", "a"] := ⟨_, _, rfl, rfl⟩
  refine ⟨decls, loaded, after, rfl, hloads, hvars, ?_⟩
  rw [← hvars]
  exact (loadIn_name_order hloads).2

end StateModel
