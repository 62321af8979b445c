import StateModel.Proofs.SessionSteps

/-!
Runs of a session. By induction on its operations, whatever a client does after
whatever else, every value that it can reach is well-formed, and goes on to fit
the type that it was made for.
-/
namespace StateModel

namespace Session

variable {session later : Session} {catalog : Catalog}

theorem Valid.leads_perform? (valid : session.Valid catalog) {op : Op}
    (performed : session.perform? op = some later) : session.Leads catalog later := by
  cases op with
  | newScope =>
      rw [← Option.some.inj performed]
      exact valid.leads_newFrame [] (by simp) .overwrite
  | childScope place =>
      obtain ⟨scope, hscope, hlater⟩ := Option.bind_eq_some_iff.1 performed
      rw [← Option.some.inj hlater]
      exact valid.leads_newFrame scope.frames
        (valid.scopes scope (List.mem_of_getElem? hscope)) scope.policy
  | setPolicy place policy =>
      obtain ⟨scope, hscope, hlater⟩ := Option.bind_eq_some_iff.1 performed
      rw [← Option.some.inj hlater]
      exact valid.leads_addScope (valid.scopes scope (List.mem_of_getElem? hscope))
  | makeType place name expression =>
      obtain ⟨scope, hscope, hlater⟩ := Option.bind_eq_some_iff.1 performed
      rw [← Option.some.inj hlater]
      obtain ⟨acts, hacts, -, -⟩ := TypeExpr.traced_elaborate scope expression.eithers expression
        (List.Subset.refl _) name session.store (valid.settled.scope (valid.scope_made hscope))
      exact valid.leads_after (TypeExpr.grows_elaborate scope expression name catalog)
        (valid.settled.grown_performs (valid.scope_made hscope) hacts)
        fun larger middle type hvalid hknows => hvalid.leads_addType hknows
  | load place decls =>
      obtain ⟨scope, hscope, hlater⟩ := Option.bind_eq_some_iff.1 performed
      rw [← Option.some.inj hlater]
      obtain ⟨larger, hlarger, hcovers, hgrown⟩ :=
        valid.grown_loadFrom (valid.scope_made hscope) {} () decls
      exact valid.leads_store hlarger hcovers hgrown Valid.leads
  | bindType place name type =>
      obtain ⟨scope, hscope, hrest⟩ := Option.bind_eq_some_iff.1 performed
      obtain ⟨type, htype, hlater⟩ := Option.bind_eq_some_iff.1 hrest
      rw [← Option.some.inj hlater]
      exact valid.leads_after (Build.Grows.bindType (valid.type_known htype))
        (valid.settled.grown_bindType scope name type) fun _ _ _ hvalid _ => hvalid.leads
  | bindVar place name cell =>
      obtain ⟨scope, hscope, hrest⟩ := Option.bind_eq_some_iff.1 performed
      obtain ⟨value, hvalue, hlater⟩ := Option.bind_eq_some_iff.1 hrest
      rw [← Option.some.inj hlater]
      have hmade : cell < session.store.cells.size := (Array.getElem?_eq_some_iff.1 hvalue).1
      exact valid.leads_after Build.Grows.bindVar
        (valid.settled.grown_bindVar scope name hmade) fun _ _ _ hvalid _ => hvalid.leads
  | newCell place =>
      obtain ⟨value, hvalue, hlater⟩ := Option.bind_eq_some_iff.1 performed
      rw [← Option.some.inj hlater]
      exact valid.leads_after (Build.Grows.newCell (valid.value_held hvalue))
        (valid.settled.grown_newCell value) fun _ _ _ hvalid _ => hvalid.leads
  | findType place name =>
      obtain ⟨scope, hscope, hrest⟩ := Option.bind_eq_some_iff.1 performed
      obtain ⟨type, htype, hlater⟩ := Option.bind_eq_some_iff.1 hrest
      rw [← Option.some.inj hlater]
      obtain ⟨frame, -, hframe⟩ := List.exists_of_findSome?_eq_some htype
      exact valid.leads_addType (valid.covers.types frame name type hframe)
  | partOfType place part =>
      obtain ⟨type, htype, hrest⟩ := Option.bind_eq_some_iff.1 performed
      obtain ⟨part, hpart, hlater⟩ := Option.bind_eq_some_iff.1 hrest
      rw [← Option.some.inj hlater]
      exact valid.leads_addType
        (valid.covers.sound.knows_part (valid.type_known htype) (List.mem_of_getElem? hpart))
  | typeOfValue place =>
      obtain ⟨value, hvalue, hlater⟩ := Option.bind_eq_some_iff.1 performed
      rw [← Option.some.inj hlater]
      exact valid.leads_addType (valid.value_held hvalue).2
  | default place =>
      obtain ⟨type, htype, hlater⟩ := Option.bind_eq_some_iff.1 performed
      rw [← Option.some.inj hlater]
      exact valid.leads_addValue ((valid.type_known htype).holds type.fits_default)
  | tag place index =>
      simp only [perform?] at performed
      split at performed
      · next type htype =>
        obtain ⟨tag, htag, hlater⟩ := Option.bind_eq_some_iff.1 performed
        rw [← Option.some.inj hlater]
        refine valid.leads_addValue ⟨.inl rfl, ?_⟩
        rw [Value.type, (EitherType.tag?_eq_some_iff.1 htag).1]
        exact valid.type_known htype
      · simp at performed
  | copy root path =>
      obtain ⟨value, hvalue, hrest⟩ := Option.bind_eq_some_iff.1 performed
      split at hrest
      · next part hpart =>
        rw [← Option.some.inj hrest]
        exact valid.leads_addValue ((valid.root_held hvalue).get hpart)
      · simp at hrest
  | payload place =>
      simp only [perform?] at performed
      split at performed
      · next value hvalue =>
        obtain ⟨payload, hpayload, hlater⟩ := Option.bind_eq_some_iff.1 performed
        rw [← Option.some.inj hlater]
        exact valid.leads_addValue ((valid.value_held hvalue).payload hpayload)
      · simp at performed
  | write root path write =>
      obtain ⟨found, hfound, hrest⟩ := Option.bind_eq_some_iff.1 performed
      obtain ⟨target, htarget, hlater⟩ := Option.bind_eq_some_iff.1 hrest
      rw [← Option.some.inj hlater]
      refine valid.leads_writeAt htarget path fun source hsource => ?_
      obtain ⟨place, hplace⟩ := Write.source?_of_mapM hfound hsource
      exact valid.value_held hplace

theorem Valid.leads_perform (valid : session.Valid catalog) (op : Op) :
    session.Leads catalog (session.perform op) := by
  unfold perform
  cases performed : session.perform? op with
  | none => exact valid.leads
  | some later => exact valid.leads_perform? performed

def runFrom (session : Session) (ops : List Op) : Session := ops.foldl perform session

def run (ops : List Op) : Session := runFrom {} ops

theorem run_append (ops more : List Op) : run (ops ++ more) = (run ops).runFrom more :=
  List.foldl_append

theorem Valid.leads_runFrom (valid : session.Valid catalog) (ops : List Op) :
    session.Leads catalog (session.runFrom ops) := by
  -- The catalog grows along the run, so it belongs to the session that it is of.
  induction ops generalizing session catalog with
  | nil => exact valid.leads
  | cons op rest ih =>
      obtain ⟨middle, hmiddle, hvalid, hkeeps⟩ := valid.leads_perform op
      obtain ⟨larger, hlarger, hlater, hkeepsLater⟩ := ih hvalid
      exact ⟨larger, hmiddle.trans hlarger, hlater, hkeeps.trans hkeepsLater⟩

theorem valid_empty : Valid {} [] where
  covers := Catalog.covers_empty
  types := by simp
  values := by simp
  scopes := by simp
  settled := by intro frame name cell found; simp [Store.frame] at found

theorem valid_run (ops : List Op) : ∃ catalog, (run ops).Valid catalog := by
  obtain ⟨catalog, -, hvalid, -⟩ := valid_empty.leads_runFrom ops
  exact ⟨catalog, hvalid⟩

/-- Every default is well-formed. Whatever a client can reach is well-formed or a
bare constant, and a value that fits a type goes on to fit it, through all that
the client does next, whether it succeeds or fails. -/
theorem fits_run (ops more : List Op) :
    (∀ type : Ty, type.Fits type.default) ∧
    (∀ root value, (run ops).find? root = some value →
      value.isTag = true ∨ value.type.Fits value) ∧
    ∀ root (type : Ty) value, (run ops).find? root = some value → type.Fits value →
      ∃ after, (run (ops ++ more)).find? root = some after ∧ type.Fits after := by
  obtain ⟨catalog, hvalid⟩ := valid_run ops
  refine ⟨Ty.fits_default, fun root value found => (hvalid.root_held found).1, ?_⟩
  intro root type value found fits
  obtain ⟨-, -, -, hkeeps⟩ := hvalid.leads_runFrom more
  rw [run_append]
  exact hkeeps root type value found fits

example : ∃ after, (run [.newScope,
    .makeType 0 none (.either [⟨"Idle", none, .dummy⟩,
      ⟨"Busy", some [⟨"left", .range 0 9, .dummy⟩], .dummy⟩]),
    .default 0, .tag 0 1, .write (.slot 0) [] (.assign 1),
    .write (.slot 0) [.payloadField "left"] (.assignInt 7),
    .write (.slot 0) [.payloadField "left"] (.assignInt 12)]).find? (.slot 0) = some after ∧
    after.get [.field "left"] = .ok (.range ⟨⟨⟨0, none, .dummy⟩, ⟨0, 9, by decide⟩⟩, 7⟩) :=
  ⟨_, rfl, rfl⟩

end Session

end StateModel
