import StateModel.Proofs.Elaborated
import StateModel.Proofs.Declared
import StateModel.Proofs.Names
import StateModel.Proofs.Reading
import StateModel.Proofs.Session

/-!
What one operation keeps. A session is valid when one catalog knows the types of
all that the client and the store hold. An operation leads from a valid session
to a valid one, and every value that fitted a type before still fits it.
-/
namespace StateModel

namespace Store

def Settled (store : Store) : Prop :=
  ∀ frame name cell, (store.frame frame).vars.find? name = some cell → cell < store.cells.size

/-- Frames and cells are only added, and the old cells hold what they held. -/
structure Grown (store after : Store) : Prop where
  frames : store.frames.size ≤ after.frames.size
  cells : ∀ id value, store.cell? id = some value → after.cell? id = some value
  settled : after.Settled

variable {store middle after : Store}

theorem Grown.trans (first : store.Grown middle) (rest : middle.Grown after) :
    store.Grown after where
  frames := Nat.le_trans first.frames rest.frames
  cells := fun cell value held => rest.cells cell value (first.cells cell value held)
  settled := rest.settled

theorem Settled.scope (settled : store.Settled) {scope : Scope}
    (made : scope.frame < store.frames.size) : scope.Settled store :=
  ⟨made, settled scope.frame⟩

theorem Settled.grown_newFrame (settled : store.Settled) :
    store.Grown { store with frames := store.frames.push {} } where
  frames := by simp
  cells := fun _ _ held => held
  settled := by
    intro frame name cell found
    rw [Store.frame_push] at found
    exact settled frame name cell found

theorem Settled.grown_newCell (settled : store.Settled) (value : Value) :
    store.Grown { store with cells := store.cells.push value } where
  frames := Nat.le_refl _
  cells := by
    intro id held hheld
    have hid : id < store.cells.size := (Array.getElem?_eq_some_iff.1 hheld).1
    simpa [Store.cell?, Array.getElem?_push_lt hid, hid] using hheld
  settled := by
    intro frame name cell found
    rw [Array.size_push]
    exact Nat.lt_succ_of_lt (settled frame name cell found)

theorem Settled.grown_setFrame (settled : store.Settled) (id : FrameId) {frame : Frame}
    (bound : ∀ name cell, frame.vars.find? name = some cell → cell < store.cells.size) :
    store.Grown (store.setFrame id frame) where
  frames := by simp [Store.setFrame]
  cells := fun _ _ held => held
  settled := by
    intro other name cell found
    rcases store.frame_setFrame_eq_or id other frame with written | kept
    · rw [written] at found
      exact bound name cell found
    · rw [kept] at found
      exact settled other name cell found

theorem Settled.grown_performs (settled : store.Settled) {scope : Scope} {acts : List Act}
    (made : scope.frame < store.frames.size) (performs : scope.Performs store acts after) :
    store.Grown after where
  frames := Nat.le_of_eq performs.size_frames.symm
  cells := by
    intro id value held
    have hid : id < store.cells.size := (Array.getElem?_eq_some_iff.1 held).1
    rw [performs.cell? hid, held]
  settled := by
    intro frame name cell found
    by_cases same : frame = scope.frame
    · rw [same] at found
      exact (performs.settled (settled.scope made)).bound name cell found
    · rw [performs.frame_of_ne same] at found
      exact Nat.lt_of_lt_of_le (settled frame name cell found) performs.size_cells

theorem Settled.grown_loadFrom {σ : Type} [RuleSink σ] (settled : store.Settled) {scope : Scope}
    (made : scope.frame < store.frames.size) (names : DeclaredNames) (sink : σ)
    (decls : List Decl) : store.Grown (loadFrom scope names sink store decls).store := by
  obtain ⟨acts, hacts, -, -⟩ := loadFrom_traced scope (settled.scope made) names sink
    (List.Subset.refl (decls.flatMap Decl.eithers))
  exact settled.grown_performs made hacts

theorem Settled.grown_loadIn {σ : Type} [RuleSink σ] (settled : store.Settled)
    (parent : Option Scope) (policy : Redefinition) (decls : List Decl) (sink : σ) :
    store.Grown (loadIn parent policy decls sink store).store := by
  have hopened := settled.grown_newFrame
  have hfresh := Scope.settled_fresh store ((parent.map Scope.frames).getD []) policy
  rw [loadIn_eq_load]
  exact hopened.trans (hopened.settled.grown_loadFrom hfresh.made {} sink decls)

theorem Settled.grown_bindType (settled : store.Settled) (scope : Scope) (name : String)
    (type : Ty) : store.Grown (Build.run (scope.bindType name type) store).2 := by
  rw [Scope.run_bindType]
  dsimp only
  split
  · exact ⟨Nat.le_refl _, fun _ _ held => held, settled⟩
  · exact settled.grown_setFrame _ (settled scope.frame)

theorem Settled.grown_bindVar (settled : store.Settled) (scope : Scope) (name : String)
    {cell : CellId} (made : cell < store.cells.size) :
    store.Grown (Build.run (scope.bindVar name cell) store).2 := by
  rw [Scope.run_bindVar]
  dsimp only
  split
  · exact ⟨Nat.le_refl _, fun _ _ held => held, settled⟩
  · refine settled.grown_setFrame _ fun other bound found => ?_
    by_cases same : other = name
    · subst same
      rw [Bindings.find?_put_self, Option.some.injEq] at found
      exact found ▸ made
    · rw [Bindings.find?_put_of_ne _ _ same] at found
      exact settled scope.frame other bound found

end Store

namespace Session

/-- Whatever the client holds or the store refers to is known to the catalog, and
whatever is referred to exists. -/
structure Valid (session : Session) (catalog : Catalog) : Prop where
  covers : catalog.Covers session.store
  types : ∀ type ∈ session.types, catalog.Knows type
  values : ∀ value ∈ session.values, catalog.Holds value
  scopes : ∀ scope ∈ session.scopes, ∀ frame ∈ scope.frames, frame < session.store.frames.size
  settled : session.store.Settled

def Keeps (session later : Session) : Prop :=
  ∀ root (type : Ty) value, session.find? root = some value → type.Fits value →
    ∃ after, later.find? root = some after ∧ type.Fits after

def Leads (session : Session) (catalog : Catalog) (later : Session) : Prop :=
  ∃ larger : Catalog, catalog <+: larger ∧ later.Valid larger ∧ session.Keeps later

variable {session : Session} {catalog larger : Catalog}

theorem Keeps.refl (session : Session) : session.Keeps session :=
  fun _ _ value found fits => ⟨value, found, fits⟩

theorem Keeps.trans {middle later : Session} (first : session.Keeps middle)
    (rest : middle.Keeps later) : session.Keeps later := by
  intro root type value found fits
  obtain ⟨between, hbetween, hfits⟩ := first root type value found fits
  exact rest root type between hbetween hfits

theorem keeps_of_prefix {later : Session} (values : session.values <+: later.values)
    (cells : ∀ id value, session.store.cell? id = some value →
      later.store.cell? id = some value) : session.Keeps later := by
  intro root type value found fits
  refine ⟨value, ?_, fits⟩
  cases root with
  | cell id => exact cells id value found
  | slot place =>
      obtain ⟨added, hadded⟩ := values
      simp only [find?] at found ⊢
      rw [← hadded, List.getElem?_append_left (List.getElem?_eq_some_iff.1 found).1]
      exact found

theorem Valid.mono (valid : session.Valid catalog) {store : Store} (grown : catalog <+: larger)
    (covers : larger.Covers store) (wider : session.store.Grown store) :
    Valid { session with store } larger where
  covers := covers
  types := fun type htype => (valid.types type htype).mono grown
  values := fun value hvalue => (valid.values value hvalue).mono grown
  scopes := fun scope hscope frame hframe =>
    Nat.lt_of_lt_of_le (valid.scopes scope hscope frame hframe) wider.frames
  settled := wider.settled

theorem Valid.addScope (valid : session.Valid catalog) {scope : Scope}
    (made : ∀ frame ∈ scope.frames, frame < session.store.frames.size) :
    (session.addScope scope).Valid catalog where
  covers := valid.covers
  types := valid.types
  values := valid.values
  scopes := by
    intro other hother
    rcases List.mem_append.1 hother with old | new
    · exact valid.scopes other old
    · rw [List.mem_singleton.1 new]
      exact made
  settled := valid.settled

theorem Valid.addType (valid : session.Valid catalog) {type : Ty} (knows : catalog.Knows type) :
    (session.addType type).Valid catalog where
  covers := valid.covers
  types := by
    intro other hother
    rcases List.mem_append.1 hother with old | new
    · exact valid.types other old
    · rw [List.mem_singleton.1 new]
      exact knows
  values := valid.values
  scopes := valid.scopes
  settled := valid.settled

theorem Valid.addValue (valid : session.Valid catalog) {value : Value}
    (holds : catalog.Holds value) : (session.addValue value).Valid catalog where
  covers := valid.covers
  types := valid.types
  values := by
    intro other hother
    rcases List.mem_append.1 hother with old | new
    · exact valid.values other old
    · rw [List.mem_singleton.1 new]
      exact holds
  scopes := valid.scopes
  settled := valid.settled

theorem Valid.scope_made (valid : session.Valid catalog) {place : Nat} {scope : Scope}
    (found : session.scopes[place]? = some scope) : scope.frame < session.store.frames.size :=
  valid.scopes scope (List.mem_of_getElem? found) scope.frame List.mem_cons_self

theorem Valid.type_known (valid : session.Valid catalog) {place : Nat} {type : Ty}
    (found : session.types[place]? = some type) : catalog.Knows type :=
  valid.types type (List.mem_of_getElem? found)

theorem Valid.value_held (valid : session.Valid catalog) {place : Nat} {value : Value}
    (found : session.values[place]? = some value) : catalog.Holds value :=
  valid.values value (List.mem_of_getElem? found)

theorem Valid.root_held (valid : session.Valid catalog) {root : Root} {value : Value}
    (found : session.find? root = some value) : catalog.Holds value := by
  cases root with
  | slot place => exact valid.value_held found
  | cell id => exact valid.covers.cells id value found

theorem Valid.leads (valid : session.Valid catalog) : session.Leads catalog session :=
  ⟨catalog, List.prefix_rfl, valid, .refl session⟩

theorem Valid.leads_addScope (valid : session.Valid catalog) {scope : Scope}
    (made : ∀ frame ∈ scope.frames, frame < session.store.frames.size) :
    session.Leads catalog (session.addScope scope) :=
  ⟨catalog, List.prefix_rfl, valid.addScope made,
    keeps_of_prefix List.prefix_rfl fun _ _ held => held⟩

theorem Valid.leads_addType (valid : session.Valid catalog) {type : Ty}
    (knows : catalog.Knows type) : session.Leads catalog (session.addType type) :=
  ⟨catalog, List.prefix_rfl, valid.addType knows,
    keeps_of_prefix List.prefix_rfl fun _ _ held => held⟩

theorem Valid.leads_addValue (valid : session.Valid catalog) {value : Value}
    (holds : catalog.Holds value) : session.Leads catalog (session.addValue value) :=
  ⟨catalog, List.prefix_rfl, valid.addValue holds,
    keeps_of_prefix (List.prefix_append ..) fun _ _ held => held⟩

theorem Valid.leads_store (valid : session.Valid catalog) {store : Store}
    (grown : catalog <+: larger) (covers : larger.Covers store)
    (wider : session.store.Grown store) {later : Session}
    (rest : Valid { session with store } larger → Leads { session with store } larger later) :
    session.Leads catalog later := by
  obtain ⟨largest, hlargest, hlater, hkeeps⟩ := rest (valid.mono grown covers wider)
  have hmiddle : session.Keeps { session with store } :=
    keeps_of_prefix List.prefix_rfl wider.cells
  exact ⟨largest, grown.trans hlargest, hlater, hmiddle.trans hkeeps⟩

theorem Valid.leads_after {α : Type} (valid : session.Valid catalog) {work : Build α}
    {known : Catalog → α → Prop} (grows : Build.Grows catalog known work)
    (wider : session.store.Grown (Build.run work session.store).2)
    {hold : Session → α → Session}
    (holds : ∀ (larger : Catalog) (middle : Session) result, middle.Valid larger →
      known larger result → middle.Leads larger (hold middle result)) :
    session.Leads catalog (session.after work hold) := by
  obtain ⟨larger, hlarger, hcovers, hknown⟩ := grows session.store valid.covers
  unfold after
  rcases hrun : Build.run work session.store with ⟨_ | result, store⟩
  · rw [hrun] at hcovers wider
    exact valid.leads_store hlarger hcovers wider Valid.leads
  · rw [hrun] at hcovers wider hknown
    exact valid.leads_store hlarger hcovers wider fun hvalid =>
      holds larger _ result hvalid (hknown result rfl)

theorem Valid.leads_newFrame (valid : session.Valid catalog) (outer : List FrameId)
    (made : ∀ frame ∈ outer, frame < session.store.frames.size) (policy : Redefinition) :
    session.Leads catalog (Session.addScope
      { session with store.frames := session.store.frames.push {} }
      ⟨session.store.frames.size, outer, policy⟩) := by
  refine valid.leads_store List.prefix_rfl valid.covers.newFrame
    valid.settled.grown_newFrame fun hvalid => hvalid.leads_addScope fun frame hframe => ?_
  rw [Array.size_push]
  rcases List.mem_cons.1 hframe with rfl | old
  · exact Nat.lt_succ_self _
  · exact Nat.lt_succ_of_lt (made frame old)

theorem Valid.grown_loadFrom {σ : Type} [RuleSink σ] (valid : session.Valid catalog)
    {scope : Scope} (made : scope.frame < session.store.frames.size) (names : DeclaredNames)
    (sink : σ) (decls : List Decl) :
    ∃ larger : Catalog, catalog <+: larger ∧
      larger.Covers (loadFrom scope names sink session.store decls).store ∧
      session.store.Grown (loadFrom scope names sink session.store decls).store := by
  obtain ⟨larger, hlarger, hcovers⟩ := valid.covers.loadFrom scope names sink decls
  exact ⟨larger, hlarger, hcovers, valid.settled.grown_loadFrom made names sink decls⟩

theorem Valid.after_loadFrom {σ : Type} [RuleSink σ] (valid : session.Valid catalog)
    {scope : Scope} (made : scope.frame < session.store.frames.size) (names : DeclaredNames)
    (sink : σ) (decls : List Decl) :
    ∃ larger : Catalog, catalog <+: larger ∧ Valid
      { session with store := (loadFrom scope names sink session.store decls).store } larger := by
  obtain ⟨larger, hlarger, hcovers, hgrown⟩ := valid.grown_loadFrom made names sink decls
  exact ⟨larger, hlarger, valid.mono hlarger hcovers hgrown⟩

theorem Valid.after_loadIn {σ : Type} [RuleSink σ] (valid : session.Valid catalog)
    (parent : Option Scope) (policy : Redefinition) (decls : List Decl) (sink : σ) :
    ∃ larger : Catalog, catalog <+: larger ∧ Valid
      { session with store := (loadIn parent policy decls sink session.store).store } larger := by
  rw [loadIn_eq_load]
  have hopened := valid.mono List.prefix_rfl valid.covers.newFrame valid.settled.grown_newFrame
  exact hopened.after_loadFrom (Scope.settled_fresh session.store _ policy).made {} sink decls

theorem find?_replace {root : Root} {old : Value} (found : session.find? root = some old)
    (value : Value) (other : Root) :
    (session.replace root value).find? other =
      if other = root then some value else session.find? other := by
  cases root with
  | slot place =>
      have hplace := (List.getElem?_eq_some_iff.1 found).1
      cases other with
      | cell id => rfl
      | slot other =>
          simp only [replace, find?, Root.slot.injEq]
          split
          · next same => rw [same, List.getElem?_set_self hplace]
          · next different => rw [List.getElem?_set_ne (Ne.symm different)]
  | cell id =>
      have hid : id < session.store.cells.size := (Array.getElem?_eq_some_iff.1 found).1
      cases other with
      | slot other => rfl
      | cell other =>
          simp only [replace, find?, Store.cell?, Root.cell.injEq]
          split
          · next same => rw [same, Array.getElem?_setIfInBounds_self_of_lt hid]
          · next different => rw [Array.getElem?_setIfInBounds_ne (Ne.symm different)]

theorem Valid.replace (valid : session.Valid catalog) {value : Value}
    (holds : catalog.Holds value) (root : Root) : (session.replace root value).Valid catalog := by
  cases root with
  | slot place =>
      refine ⟨valid.covers, valid.types, fun other hother => ?_, valid.scopes, valid.settled⟩
      rcases List.mem_or_eq_of_mem_set hother with old | rfl
      · exact valid.values other old
      · exact holds
  | cell id =>
      refine ⟨valid.covers.setCell holds id, valid.types, valid.values, valid.scopes, ?_⟩
      intro frame name cell found
      have hcell := valid.settled frame name cell found
      simpa [Session.replace] using hcell

theorem Valid.leads_writeAt (valid : session.Valid catalog) {root : Root} {target : Value}
    (found : session.find? root = some target) (path : List Access) {write : Write Value}
    (sources : ∀ source, write.source? = some source → catalog.Holds source) :
    session.Leads catalog (session.writeAt root target path write) := by
  unfold writeAt
  cases hwrite : target.write write path with
  | error problem => exact valid.leads
  | ok after =>
      have htarget := valid.root_held found
      have hafter : catalog.Holds after := htarget.write sources hwrite
      refine ⟨catalog, List.prefix_rfl, valid.replace hafter root, ?_⟩
      -- The write may be to the very value that is asked for, under any type that it fits.
      intro other type value hother fits
      rw [find?_replace found]
      split
      · next same =>
        rw [same, found, Option.some.injEq] at hother
        subst hother
        have hknows : catalog.Knows type := fits.type_eq ▸ htarget.2
        exact ⟨after, rfl,
          Catalog.keeps_writeAt sources path type target after hknows fits hwrite⟩
      · exact ⟨value, hother, fits⟩

end Session

end StateModel
