import StateModel.Proofs.Identity
import StateModel.Proofs.Twins
import StateModel.Proofs.Values

/-!
Loads are isolated. A load leaves all that was there before it as it was, and comes out
as it would have, had another module been loaded before it or not: only the numbers of
its types are others.
-/
namespace StateModel

theorem loadFrom_mirrored {σ : Type} [RuleSink σ] {ren : Renaming} {scope : Scope}
    {store twin : Store} (twins : Twins ren scope store twin) (names : DeclaredNames) (sink : σ)
    (decls : List Decl) :
    (loadFrom (scope.rename ren) names sink twin decls).result =
        (loadFrom scope names sink store decls).result.map
          (fun loaded => ⟨scope.rename ren, loaded.names⟩) ∧
      (loadFrom (scope.rename ren) names sink twin decls).sink =
        (loadFrom scope names sink store decls).sink ∧
      Twins ren scope (loadFrom scope names sink store decls).store
        (loadFrom (scope.rename ren) names sink twin decls).store := by
  obtain ⟨result, rules, after, twinAfter, hafter, hloads⟩ :=
    loadFrom_paired (ren.simulation scope) twins names decls
  have hdecls : decls.map (·.relabel (.ofNumbers ren.types.move)) = decls :=
    map_eq_self fun decl _ => decl.relabel_ofNumbers _
  have hrules : rules.map (·.relabel (.ofNumbers ren.types.move)) = rules :=
    map_eq_self fun rule _ => rule.relabel_ofNumbers _
  obtain ⟨hfirst, hsecond⟩ := hloads sink
  change loadFrom _ names sink twin (decls.map (·.relabel (.ofNumbers ren.types.move))) =
    ⟨_, RuleSink.acceptAll sink (rules.map (·.relabel (.ofNumbers ren.types.move))), _⟩ at hsecond
  rw [hdecls, hrules] at hsecond
  rw [hfirst, hsecond]
  refine ⟨?_, rfl, hafter⟩
  cases result <;> rfl

/-! Types that have their numbers already keep them. -/

section

variable {catalog : Catalog} {move : TypeId → TypeId}

theorem Catalog.Knows.header_renumber {type : Ty} (knows : catalog.Knows type)
    (fixed : ∀ id < catalog.length, move id = id) : type.header.renumber move = type.header :=
  Header.renumber_eq (fixed _ (List.getElem?_eq_some_iff.1 knows.self).1)

theorem Catalog.Knows.renumber_eq (sound : catalog.Sound)
    (fixed : ∀ id < catalog.length, move id = id) {type : Ty} (knows : catalog.Knows type) :
    type.renumber move = type := by
  induction type using Ty.induction with
  | range type =>
      have hheader : type.header.renumber move = type.header := knows.header_renumber fixed
      rw [Ty.renumber, RangeType.renumber, hheader]
  | record type ih =>
      refine congrArg Ty.record (RecordType.renumber_eq (knows.header_renumber fixed) ?_)
      exact fun field inside => ih field inside (knows.field inside)
  | either type ih =>
      refine congrArg Ty.either (EitherType.renumber_eq (knows.header_renumber fixed) ?_)
      intro variant inside
      obtain ⟨place, hplace⟩ := List.getElem?_of_mem inside
      have hproper := sound.proper _ (List.mem_of_getElem? knows.self)
      refine Variant.renumber_eq ?_ fun shape given => ?_
      · rw [(hproper.2 place variant hplace).2.1]
        exact fixed _ (List.getElem?_eq_some_iff.1 knows.self).1
      · exact Ty.record.inj (ih variant inside shape given (knows.payload inside given))
  | array type ih =>
      have hindex : catalog.Knows (.range type.index) :=
        sound.knows_part knows (ArrayType.mem_parts.2 (.inr (.inl rfl)))
      exact congrArg Ty.array (ArrayType.renumber_eq (knows.header_renumber fixed)
        (ih knows.element) (hindex.header_renumber fixed))

theorem Ty.Fits.renumber_eq (sound : catalog.Sound)
    (fixed : ∀ id < catalog.length, move id = id) {type : Ty} (knows : catalog.Knows type)
    {value : Value} (fits : type.Fits value) : value.renumber move = value := by
  induction type using Ty.induction generalizing value with
  | range type =>
      obtain ⟨number, rfl, -⟩ := Ty.fits_range_iff.1 fits
      have htype := Ty.range.inj (knows.renumber_eq sound fixed)
      rw [Value.renumber, RangeValue.renumber, htype]
  | record type ih =>
      obtain ⟨children, rfl, hchildren⟩ := Ty.fits_record_iff.1 fits
      have htype := Ty.record.inj (knows.renumber_eq sound fixed)
      have hsame : ∀ child ∈ children, child.renumber move = child := by
        intro child inside
        obtain ⟨place, hplace, rfl⟩ := List.getElem_of_mem inside
        have hfield : place < type.fields.length := by rwa [hchildren.length_eq]
        have hinside := List.getElem_mem hfield
        exact ih _ hinside (knows.field hinside) (hchildren.get hfield hplace)
      rw [Value.renumber, RecordValue.renumber, Value.renumberAll_eq_map, map_eq_self hsame, htype]
  | either type ih =>
      obtain ⟨tag, payload, rfl, hbuilt, -⟩ := Ty.fits_either_iff.1 fits
      have htag : tag.renumber move = tag := by
        refine Tag.renumber_eq ?_
        rw [hbuilt]
        exact Ty.either.inj (knows.renumber_eq sound fixed)
      cases payload with
      | none => rw [Value.renumber, EitherValue.renumber, htag]
      | some record =>
          obtain ⟨shape, hvariant, given, hpayload⟩ := EitherType.Fits.payload fits rfl
          have hrecord : (Value.record record).renumber move = .record record :=
            ih _ hvariant shape given (knows.payload hvariant given) hpayload
          rw [Value.renumber, EitherValue.renumber, htag, Value.record.inj hrecord]
  | array type ih =>
      obtain ⟨items, rfl, -, hitems⟩ := Ty.fits_array_iff.1 fits
      have htype := Ty.array.inj (knows.renumber_eq sound fixed)
      rw [Value.renumber, ArrayValue.renumber, Value.renumberAll_eq_map,
        map_eq_self fun item inside => ih knows.element (hitems item inside), htype]

theorem Catalog.Holds.renumber_eq (sound : catalog.Sound)
    (fixed : ∀ id < catalog.length, move id = id) {value : Value}
    (holds : catalog.Holds value) : value.renumber move = value := by
  cases content : value.isTag with
  | false => exact (holds.fits content).renumber_eq sound fixed holds.2
  | true =>
      cases value with
      | range | record | either | array => cases content
      | tag tag =>
          have heither : tag.either.renumber move = tag.either :=
            Ty.either.inj (holds.2.renumber_eq sound fixed)
          rw [Value.renumber, Tag.renumber_eq heither]

end

/-- All that was there is as it was: what each frame binds, in the order in which it was
bound, and what each cell holds. -/
structure Store.Extends (store after : Store) : Prop where
  frames : ∀ id < store.frames.size, after.frame id = store.frame id
  cells : ∀ id < store.cells.size, after.cell? id = store.cell? id
  moreFrames : store.frames.size ≤ after.frames.size
  moreCells : store.cells.size ≤ after.cells.size
  moreTypes : store.nextType ≤ after.nextType

theorem loadIn_extends {σ : Type} [RuleSink σ] (parent : Option Scope) (policy : Redefinition)
    (decls : List Decl) (sink : σ) (store : Store) :
    store.Extends (loadIn parent policy decls sink store).store := by
  rw [loadIn_eq_load]
  obtain ⟨acts, hacts, -, -⟩ := loadFrom_traced _ (Scope.settled_fresh store _ policy) {} sink
    (List.Subset.refl (decls.flatMap Decl.eithers))
  constructor
  case frames =>
    intro id old
    rw [load, hacts.frame_of_ne (Nat.ne_of_lt old), Store.frame_push]
  case cells => exact fun id old => hacts.cell? old
  case moreFrames =>
    rw [load, hacts.size_frames, Array.size_push]
    exact Nat.le_succ _
  case moreCells => exact hacts.size_cells
  case moreTypes => exact hacts.nextType_le

def Store.renaming (store later : Store) : Renaming where
  types := ⟨store.nextType, later.nextType - store.nextType⟩
  cells := ⟨store.cells.size, later.cells.size - store.cells.size⟩
  frames := ⟨store.frames.size, later.frames.size - store.frames.size⟩

namespace Store.Extends

variable {store later : Store}

theorem betweenFrames (extended : store.Extends later) :
    (store.renaming later).frames.Between store.frames.size later.frames.size :=
  ⟨Nat.le_refl _, (Nat.add_sub_of_le extended.moreFrames).symm⟩

theorem betweenCells (extended : store.Extends later) :
    (store.renaming later).cells.Between store.cells.size later.cells.size :=
  ⟨Nat.le_refl _, (Nat.add_sub_of_le extended.moreCells).symm⟩

theorem betweenTypes (extended : store.Extends later) :
    (store.renaming later).types.Between store.nextType later.nextType :=
  ⟨Nat.le_refl _, (Nat.add_sub_of_le extended.moreTypes).symm⟩

end Store.Extends

namespace Session

variable {session : Session} {catalog : Catalog} {later : Store}

theorem Valid.fixed (valid : session.Valid catalog) (later : Store) :
    ∀ id < catalog.length, (session.store.renaming later).types.move id = id := by
  rw [valid.covers.count]
  exact fun id shared => Lead.move_of_lt shared

theorem Valid.twins (valid : session.Valid catalog) (extended : session.store.Extends later)
    {outer : List FrameId} (made : ∀ id ∈ outer, id < session.store.frames.size)
    (policy : Redefinition) :
    Twins (session.store.renaming later) ⟨session.store.frames.size, outer, policy⟩
      { session.store with frames := session.store.frames.push {} }
      { later with frames := later.frames.push {} } := by
  have hnew : session.store.frame session.store.frames.size = {} := by simp [Store.frame]
  have hlater : later.frame later.frames.size = {} := by simp [Store.frame]
  have hmove := extended.betweenFrames.move_eq
  have hframes : ∀ id ∈ session.store.frames.size :: outer,
      id = session.store.frames.size ∨ (session.store.renaming later).frames.move id = id ∧
        later.frame id = session.store.frame id := by
    intro id inside
    rcases List.mem_cons.1 inside with rfl | old
    · exact .inl rfl
    · exact .inr ⟨Lead.move_of_lt (made id old), extended.frames id (made id old)⟩
  constructor
  case made => simp
  case frames =>
    rw [Array.size_push, Array.size_push]
    exact extended.betweenFrames.succ
  case nextType => exact extended.betweenTypes
  case size => exact extended.betweenCells
  case types =>
    intro id inside name
    rw [Store.frame_push, Store.frame_push]
    rcases hframes id inside with rfl | ⟨hid, hsame⟩
    · rw [hmove, hnew, hlater]
      rfl
    · rw [hid, hsame]
      cases found : (session.store.frame id).types.find? name with
      | none => rfl
      | some type =>
          have hknown := valid.covers.types id name type found
          rw [Option.map_some, hknown.renumber_eq valid.covers.sound (valid.fixed later)]
  case vars =>
    intro id inside name
    rw [Store.frame_push, Store.frame_push]
    rcases hframes id inside with rfl | ⟨hid, hsame⟩
    · rw [hmove, hnew, hlater]
      rfl
    · rw [hid, hsame]
      cases found : (session.store.frame id).vars.find? name with
      | none => rfl
      | some cell => rw [Option.map_some, Lead.move_of_lt (valid.settled id name cell found)]
  case names =>
    rw [Store.frame_push, Store.frame_push, hmove, hnew, hlater]
  case cells =>
    intro id
    change later.cell? ((session.store.renaming later).cells.move id) =
      (session.store.cell? id).map _
    rcases Nat.lt_or_ge id session.store.cells.size with old | new
    · rw [Lead.move_of_lt old, extended.cells id old]
      cases held : session.store.cell? id with
      | none => rfl
      | some value =>
          have hholds := valid.covers.cells id value held
          rw [Option.map_some, hholds.renumber_eq valid.covers.sound (valid.fixed later)]
    · have hbeyond := Nat.not_lt.1 (mt extended.betweenCells.move_lt_iff.1 (Nat.not_lt.2 new))
      have habsent : session.store.cell? id = none := Array.getElem?_eq_none new
      rw [habsent]
      exact Array.getElem?_eq_none hbeyond

end Session

/-- Two loads that come out alike: with the same failure, or with the same names, whose
values and types are the same under other numbers, and with the same rules forwarded. -/
structure LoadOutcome.Alike {σ : Type} (move : TypeId → TypeId) (first second : LoadOutcome σ) :
    Prop where
  sink : second.sink = first.sink
  failed : ∀ failure, second.result = .error failure ↔ first.result = .error failure
  loaded : ∀ loaded, first.result = .ok loaded → ∃ other, second.result = .ok other ∧
    other.names = loaded.names ∧
    other.scope.localVarNames second.store = loaded.scope.localVarNames first.store ∧
    (∀ name, other.scope.localValue? second.store name =
      (loaded.scope.localValue? first.store name).map (·.renumber move)) ∧
    ∀ name, other.scope.type? second.store name =
      (loaded.scope.type? first.store name).map (·.renumber move)

theorem loadFrom_scope_of_result {σ : Type} [RuleSink σ] {scope : Scope} {names : DeclaredNames}
    {sink : σ} {store : Store} {decls : List Decl} {loaded : LoadedModule}
    (loads : (loadFrom scope names sink store decls).result = .ok loaded) :
    loaded.scope = scope := by
  rcases hload : loadFrom scope names sink store decls with ⟨result, sinkAfter, after⟩
  rw [hload] at loads
  cases loads
  exact loadFrom_scope hload

theorem Session.Valid.alike {σ : Type} [RuleSink σ] {session : Session} {catalog : Catalog}
    {later : Store} (valid : session.Valid catalog) (extended : session.store.Extends later)
    {parent : Option Scope} (opened : ∀ scope, parent = some scope → scope ∈ session.scopes)
    (policy : Redefinition) (decls : List Decl) (sink : σ) :
    (loadIn parent policy decls sink session.store).Alike
      (session.store.renaming later).types.move (loadIn parent policy decls sink later) := by
  have hmade : ∀ id ∈ (parent.map Scope.frames).getD [], id < session.store.frames.size := by
    cases parent with
    | none => simp
    | some scope => exact valid.scopes scope (opened scope rfl)
  have htwins := valid.twins extended hmade policy
  have hscope : Scope.rename (session.store.renaming later)
      ⟨session.store.frames.size, (parent.map Scope.frames).getD [], policy⟩ =
      ⟨later.frames.size, (parent.map Scope.frames).getD [], policy⟩ := by
    rw [Scope.rename, extended.betweenFrames.move_eq,
      map_eq_self fun id inside => Lead.move_of_lt (hmade id inside)]
  obtain ⟨hresult, hsink, hafter⟩ := loadFrom_mirrored htwins {} sink decls
  rw [loadIn_eq_load, loadIn_eq_load, load, load, ← hscope]
  refine ⟨hsink, fun failure => ?_, fun loaded hloaded => ?_⟩
  · rw [hresult]
    cases (loadFrom _ {} sink _ decls).result <;> simp [Except.map]
  · have hown := loadFrom_scope_of_result hloaded
    obtain ⟨scope, names⟩ := loaded
    cases hown
    rw [hloaded] at hresult
    exact ⟨_, hresult, rfl, hafter.names, hafter.localValue?, hafter.type?⟩

/-- A load leaves all that was there before it as it was, whether it ends well or fails.
So another load comes out the same whether the first came before it or not: with the same
failure or the same names and values, and with the same rules forwarded. Only the numbers
of the types that it makes are others, and texts do not show them. -/
theorem loadIn_isolated {σ τ : Type} [RuleSink σ] [RuleSink τ] (ops : List Session.Op)
    (other : Option Scope) (otherPolicy : Redefinition) (otherDecls : List Decl) (otherSink : τ)
    (parent : Option Scope) (policy : Redefinition) (decls : List Decl) (sink : σ)
    (opened : ∀ scope, parent = some scope → scope ∈ (Session.run ops).scopes) :
    (∀ store : Store,
      store.Extends (loadIn other otherPolicy otherDecls otherSink store).store) ∧
    ∃ move : TypeId → TypeId, Function.Injective move ∧
      (∀ type, (Session.run ops).HasType type → type.renumber move = type) ∧
      (∀ value : Value, (value.renumber move).text = value.text ∧
        (value.renumber move).type.text = value.type.text) ∧
      (loadIn parent policy decls sink (Session.run ops).store).Alike move
        (loadIn parent policy decls sink
          (loadIn other otherPolicy otherDecls otherSink (Session.run ops).store).store) := by
  obtain ⟨catalog, hvalid⟩ := Session.valid_run ops
  have hextended := loadIn_extends other otherPolicy otherDecls otherSink (Session.run ops).store
  refine ⟨loadIn_extends other otherPolicy otherDecls otherSink, _, Lead.move_injective _, ?_, ?_,
    hvalid.alike hextended opened policy decls sink⟩
  · exact fun type has =>
      (hvalid.type_of_hasType has).renumber_eq hvalid.covers.sound (hvalid.fixed _)
  · intro value
    rw [Value.text_renumber, Value.type_renumber, Ty.text_renumber]
    exact ⟨rfl, rfl⟩

/-- A module that fails to load takes a number that the next one would have had. -/
theorem loadIn_isolated_from_failed :
    ∃ (failure : Failure) (loaded : LoadedModule) (move : TypeId → TypeId)
        (first middle second : LoadOutcome Unit),
      (⟨0, [], .overwrite⟩ : Scope) ∈ (Session.run [.newScope]).scopes ∧
      middle = loadIn (some ⟨0, [], .overwrite⟩) .reject [.type "A" (.range 0 3),
        .unknown "import"] () (Session.run [.newScope]).store ∧
      middle.result = .error failure ∧
      first = loadIn (some ⟨0, [], .overwrite⟩) .overwrite
        [.var "x" (.range 0 9) (some (.number 4))] () (Session.run [.newScope]).store ∧
      second = loadIn (some ⟨0, [], .overwrite⟩) .overwrite
        [.var "x" (.range 0 9) (some (.number 4))] () middle.store ∧
      second.result = .ok loaded ∧
      loaded.scope.localValue? second.store "x" =
        some (.range ⟨⟨⟨1, none, .dummy⟩, ⟨0, 9, by decide⟩⟩, 4⟩) ∧
      first.Alike move second := by
  have opened : (⟨0, [], .overwrite⟩ : Scope) ∈ (Session.run [.newScope]).scopes := .head _
  obtain ⟨-, move, -, -, -, halike⟩ := loadIn_isolated [.newScope] (some ⟨0, [], .overwrite⟩)
    .reject [.type "A" (.range 0 3), .unknown "import"] () (some ⟨0, [], .overwrite⟩) .overwrite
    [.var "x" (.range 0 9) (some (.number 4))] () fun _ same => Option.some.inj same ▸ opened
  exact ⟨_, _, move, _, _, _, opened, rfl, rfl, rfl, rfl, rfl, rfl, halike⟩

end StateModel
