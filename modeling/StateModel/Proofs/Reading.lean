import StateModel.Proofs.Mutation

/-!
What a client can come by. The parts of a value that a catalog holds are held by
it too, and so is what a write leaves of such a value.
-/
namespace StateModel

namespace Catalog

variable {catalog : Catalog}

theorem Holds.fits {value : Value} (holds : catalog.Holds value)
    (content : value.isTag = false) : value.type.Fits value :=
  holds.1.fits content

theorem Knows.holds_field {type : RecordType} (knows : catalog.Knows (.record type))
    {record : RecordValue} (fits : type.Fits record) {name : String} {child : Value}
    (found : record.field name = .ok child) : catalog.Holds child := by
  obtain ⟨field, inside, hchild⟩ := RecordType.Fits.field fits found
  exact (knows.field inside).holds hchild

theorem Holds.payload {either : EitherValue} (holds : catalog.Holds (.either either))
    {payload : RecordValue} (active : either.payload = some payload) :
    catalog.Holds (.record payload) := by
  obtain ⟨shape, hinside, given, hfits⟩ := EitherType.Fits.payload (holds.fits rfl) active
  exact (Knows.payload holds.2 hinside given).holds hfits

theorem Holds.child {value child : Value} (holds : catalog.Holds value) {step : Step}
    (found : value.child step = .ok child) : catalog.Holds child := by
  cases step with
  | field name =>
      cases value with
      | record record => exact Knows.holds_field holds.2 (holds.fits rfl) found
      | either either =>
          obtain ⟨payload, active, hfield⟩ := EitherValue.field_eq_ok_iff.1 found
          have hpayload := holds.payload active
          exact Knows.holds_field hpayload.2 (hpayload.fits rfl) hfield
      | range | tag | array => simp [Value.child] at found
  | index index =>
      cases value with
      | array array =>
          exact (Knows.element holds.2).holds (ArrayType.Fits.item (holds.fits rfl) found)
      | range | record | either | tag => simp [Value.child] at found

theorem Holds.get {value part : Value} (holds : catalog.Holds value) {path : Path}
    (found : value.get path = .ok part) : catalog.Holds part := by
  induction path generalizing value with
  | nil =>
      rw [← Except.ok.inj found]
      exact holds
  | cons step rest ih =>
      obtain ⟨child, hchild, hrest⟩ := Value.get_cons_eq_ok_iff.1 found
      exact ih (holds.child hchild) hrest

theorem write_tag {tag : Tag} {write : Write Value} {path : List Access} {after : Value}
    (written : (Value.tag tag).write write path = .ok after) : after = .tag tag := by
  cases path with
  | nil => cases write <;> simp_all [Value.write, Write.apply, Value.assign, Value.assignInt]
  | cons access rest =>
      cases access with
      | child step => cases step <;> simp [Value.write, Access.modify, Value.modifyChild] at written
      | recordField | payloadField | arrayItem => exact (Except.ok.inj written).symm

theorem Holds.write {value after : Value} (holds : catalog.Holds value) {write : Write Value}
    (sources : ∀ source, write.source? = some source → catalog.Holds source)
    {path : List Access} (written : value.write write path = .ok after) :
    catalog.Holds after := by
  cases content : value.isTag with
  | true =>
      cases value with
      | tag tag =>
          rw [write_tag written]
          exact holds
      | range | record | either | array => simp [Value.isTag] at content
  | false =>
      have hfits : value.type.Fits after :=
        keeps_writeAt sources path value.type value after holds.2 (holds.fits content) written
      exact holds.2.holds hfits

end Catalog

end StateModel
