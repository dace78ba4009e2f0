import Auth8.Foundations.KeyedTable
import Auth8.Foundations.LikePattern
import Auth8.Persistent.Device

/-! # The table `DEVICE`

Selections by `likeExp`, whose NULL pattern selects nothing, and what a commit writes. A commit checks
the mandatory columns and the lengths first, writes only the columns whose values differ from the ones
read, and updates and deletes by primary key. -/
namespace Auth8.Persistent
open KeyedTable LikePattern Unicode
set_option autoImplicit false

abbrev DeviceTable := KeyedTable Device

abbrev DeviceOrder := RowOrder (ℕ × Device)

/-- `ExpressionFactory.likeExp` on a column that is not null. -/
def likeExp (pattern : Option String) (column : String) : Bool :=
  match pattern with
  | none => false
  | some pattern => like pattern column

/-- `performQuery` for the devices whose email is like the pattern, and the first of them. -/
def queryEmail (order : DeviceOrder) (t : DeviceTable) (email : Option String) :
    Option (ℕ × Device) :=
  t.first order fun device => likeExp email device.email

def queryRegid (order : DeviceOrder) (t : DeviceTable) (regid : Option String) :
    Option (ℕ × Device) :=
  t.first order fun device => likeExp regid device.regid

/-- The validation of a device before it is written, which counts code units. -/
def validate (email regid name : Option String) : Option Device :=
  match email, regid with
  | some email, some regid =>
    if utf16Length email ≤ emailLength ∧ utf16Length regid ≤ regidLength ∧
        (name.map utf16Length).getD 0 ≤ nameLength then
      some ⟨email, name, regid⟩
    else none
  | _, _ => none

/-- The update of a row that was read as `read` and holds `current`, to `new`. -/
def writeColumns (read new current : Device) : Device where
  email := if new.email = read.email then current.email else new.email
  name := if new.name = read.name then current.name else new.name
  regid := if new.regid = read.regid then current.regid else new.regid

@[simp] theorem writeColumns_self (read new : Device) : writeColumns read new read = new := by
  unfold writeColumns
  congr 1 <;> split <;> first | (symm; assumption) | rfl

@[simp] theorem writeColumns_email {read new : Device} (h : new.email = read.email)
    (current : Device) : (writeColumns read new current).email = current.email := if_pos h

theorem validate_eq_some {email regid name : Option String} {device : Device} :
    validate email regid name = some device ↔
      email = some device.email ∧ regid = some device.regid ∧ name = device.name ∧
        utf16Length device.email ≤ emailLength ∧ utf16Length device.regid ≤ regidLength ∧
          (device.name.map utf16Length).getD 0 ≤ nameLength := by
  unfold validate
  constructor
  · intro h
    split at h
    · split at h
      · rename_i hlen
        cases h
        exact ⟨rfl, rfl, rfl, hlen⟩
      · cases h
    · cases h
  · rintro ⟨rfl, rfl, rfl, hlen⟩
    exact if_pos hlen

theorem validate_email {email regid name : Option String} {device : Device}
    (h : validate email regid name = some device) : email = some device.email :=
  (validate_eq_some.mp h).1

theorem validate_regid {email regid name : Option String} {device : Device}
    (h : validate email regid name = some device) : regid = some device.regid :=
  (validate_eq_some.mp h).2.1

end Auth8.Persistent
