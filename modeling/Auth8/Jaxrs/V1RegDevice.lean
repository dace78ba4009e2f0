import Auth8.Jaxrs.Response
import Auth8.Persistent.DeviceTable

/-! # The class `V1RegDevice`

`regNewDevice` and `deleteDevice`, each one query and one commit in a context of its own. A method that
lets an exception escape has no response. -/
namespace Auth8.Jaxrs
open KeyedTable Persistent
set_option autoImplicit false

/-- Which database calls of a request throw. -/
structure Faults where
  query : Bool
  commit : Bool
  deriving DecidableEq, Repr

def Faults.none : Faults := ⟨false, false⟩

theorem Faults.eq_none {faults : Faults} (hquery : faults.query = false)
    (hcommit : faults.commit = false) : faults = .none := by
  cases faults
  cases hquery
  cases hcommit
  rfl

/-- What `regNewDevice` is going to commit. -/
inductive RegPlan where
  /-- the first row found gets the new values -/
  | update (row : ℕ × Device)
  /-- `get(0)` has thrown: a new object -/
  | insert
  deriving DecidableEq, Repr

def planReg (order : DeviceOrder) (t : DeviceTable) (email : Option String) : RegPlan :=
  match queryEmail order t email with
  | some row => .update row
  | none => .insert

/-- `commitChanges` of `regNewDevice`; none where the validation throws. -/
def commitReg (t : DeviceTable) (email regId name : Option String) : RegPlan → Option DeviceTable
  | .update row =>
    (validate (some row.2.email) regId name).map fun new => t.update row.1 (writeColumns row.2 new)
  | .insert => (validate email regId name).map t.insert

def registered : Response := Success.response (some "Registered") (some [])

def deleted : Response := Success.response (some "Deleted") none

def regNewDevice (order : DeviceOrder) (faults : Faults) (t : DeviceTable)
    (email regId name : Option String) : Option Response × DeviceTable :=
  -- a failing query is caught by the last catch clause
  if faults.query then (some registered, t) else
    match if faults.commit then none else commitReg t email regId name (planReg order t email) with
    | some t' => (some registered, t')
    | none =>
      match planReg order t email with
      -- caught by the last catch clause
      | .update _ => (some registered, t)
      -- thrown inside a catch clause
      | .insert => (none, t)

def commitDelete (t : DeviceTable) (row : ℕ × Device) : DeviceTable := t.delete row.1

def deleteDevice (order : DeviceOrder) (faults : Faults) (t : DeviceTable) (regid : Option String) :
    Option Response × DeviceTable :=
  if faults.query then (none, t) else
    match queryRegid order t regid with
    -- `get(0)` throws
    | none => (none, t)
    | some row => if faults.commit then (none, t) else (some deleted, commitDelete t row)

variable {order : DeviceOrder} {t t' : DeviceTable}

section Plan
variable {order : DeviceOrder} {t : DeviceTable} {email : Option String}

theorem planReg_update {row : ℕ × Device} (h : planReg order t email = .update row) :
    row ∈ t.rows ∧ likeExp email row.2.email = true := by
  unfold planReg at h
  cases hq : queryEmail order t email with
  | none =>
    rw [hq] at h
    cases h
  | some found =>
    rw [hq] at h
    cases h
    exact of_first hq

theorem planReg_insert_iff :
    planReg order t email = .insert ↔ ∀ row ∈ t.rows, likeExp email row.2.email = false := by
  have hnone : queryEmail order t email = none ↔ ∀ row ∈ t.rows, likeExp email row.2.email = false :=
    first_eq_none
  rw [← hnone, planReg]
  cases hq : queryEmail order t email with
  | none => exact iff_of_true rfl rfl
  | some row => exact iff_of_false nofun nofun

end Plan

/-! ## What a call can do -/

/-- The update or the insertion is written, and the call answers. -/
def Written (order : DeviceOrder) (faults : Faults) (t : DeviceTable)
    (email regId name : Option String) (t' : DeviceTable) : Prop :=
  faults.query = false ∧ faults.commit = false ∧
    commitReg t email regId name (planReg order t email) = some t'

theorem regNewDevice_cases (order : DeviceOrder) (faults : Faults) (t : DeviceTable)
    (email regId name : Option String) :
    (∃ t', Written order faults t email regId name t' ∧
      regNewDevice order faults t email regId name = (some registered, t')) ∨
    ((∀ t', ¬ Written order faults t email regId name t') ∧
      (faults.query = true ∨ ∃ row, planReg order t email = .update row) ∧
      regNewDevice order faults t email regId name = (some registered, t)) ∨
    ((∀ t', ¬ Written order faults t email regId name t') ∧
      faults.query = false ∧ planReg order t email = .insert ∧
      regNewDevice order faults t email regId name = (none, t)) := by
  unfold regNewDevice Written
  cases hquery : faults.query with
  | true => exact .inr (.inl ⟨by simp, .inl rfl, rfl⟩)
  | false =>
    cases hcommit : faults.commit with
    | true =>
      cases hplan : planReg order t email with
      | update row => exact .inr (.inl ⟨by simp, .inr ⟨row, rfl⟩, rfl⟩)
      | insert => exact .inr (.inr ⟨by simp, rfl, rfl, rfl⟩)
    | false =>
      cases hwritten : commitReg t email regId name (planReg order t email) with
      | some t' => exact .inl ⟨t', ⟨rfl, rfl, rfl⟩, rfl⟩
      | none =>
        cases hplan : planReg order t email with
        | update row => exact .inr (.inl ⟨by simp, .inr ⟨row, rfl⟩, rfl⟩)
        | insert => exact .inr (.inr ⟨by simp, rfl, rfl, rfl⟩)

theorem deleteDevice_cases (order : DeviceOrder) (faults : Faults) (t : DeviceTable)
    (regid : Option String) :
    (∃ row, faults.query = false ∧ queryRegid order t regid = some row ∧ faults.commit = false ∧
      deleteDevice order faults t regid = (some deleted, commitDelete t row)) ∨
    ((faults.query = true ∨ queryRegid order t regid = none ∨ faults.commit = true) ∧
      deleteDevice order faults t regid = (none, t)) := by
  unfold deleteDevice
  cases hquery : faults.query with
  | true => exact .inr ⟨.inl rfl, rfl⟩
  | false =>
    cases hrow : queryRegid order t regid with
    | none => exact .inr ⟨.inr (.inl rfl), rfl⟩
    | some row =>
      cases hcommit : faults.commit with
      | true => exact .inr ⟨.inr (.inr rfl), rfl⟩
      | false => exact .inl ⟨row, rfl, rfl, rfl, rfl⟩

/-- Without faults the table is what the commit leaves, or unchanged where the validation throws. -/
theorem regNewDevice_table (email regId name : Option String) :
    (regNewDevice order .none t email regId name).2 =
      (commitReg t email regId name (planReg order t email)).getD t := by
  simp only [regNewDevice, Faults.none, Bool.false_eq_true, if_false]
  cases commitReg t email regId name (planReg order t email) with
  | some t' => rfl
  | none => cases planReg order t email <;> rfl

theorem deleteDevice_table (regid : Option String) :
    (deleteDevice order .none t regid).2 =
      ((queryRegid order t regid).map (commitDelete t)).getD t := by
  simp only [deleteDevice, Faults.none, Bool.false_eq_true, if_false]
  cases queryRegid order t regid <;> rfl

/-- A commit keeps the emails distinct, if the email registered is like itself. -/
theorem commitReg_unique {email regId name : Option String}
    (hself : ∀ e, email = some e → LikePattern.like e e = true) (h : t.UniqueOn Device.email)
    (hc : commitReg t email regId name (planReg order t email) = some t') :
    t'.UniqueOn Device.email := by
  unfold planReg at hc
  cases hq : queryEmail order t email with
  | some row =>
    rw [hq] at hc
    obtain ⟨new, hnew, rfl⟩ := Option.map_eq_some_iff.mp hc
    have hemail : new.email = row.2.email := (Option.some.inj (validate_email hnew)).symm
    exact h.update fun d => writeColumns_email hemail d
  | none =>
    rw [hq] at hc
    obtain ⟨new, hnew, rfl⟩ := Option.map_eq_some_iff.mp hc
    have hemail := validate_email hnew
    refine h.insert fun r hr hre => ?_
    have hno := first_eq_none.mp hq r hr
    rw [hemail, hre] at hno
    exact absurd (hself _ hemail) (Bool.not_eq_true _ ▸ hno)

end Auth8.Jaxrs
