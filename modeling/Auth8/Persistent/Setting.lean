import Auth8.Foundations.UnitOfWork
import Auth8.Persistent.User

/-! # The entity `Setting`

A row of `PUBLIC.SETTING`, both of whose columns are nullable, and its selection by name. -/
namespace Auth8.Persistent
open KeyedTable
set_option autoImplicit false

structure Setting where
  name : Option String
  value : Option String
  deriving DecidableEq, Repr

/-- The update of a row whose value was read as `read`; a value that stays the same is not written. -/
def Setting.writeValue (read : Option String) (value : String) (setting : Setting) : Setting :=
  if read = some value then setting else { setting with value := some value }

@[simp] theorem writeValue_name (read : Option String) (value : String) (setting : Setting) :
    (setting.writeValue read value).name = setting.name := by
  unfold Setting.writeValue
  split <;> rfl

abbrev SettingTable := KeyedTable Setting

abbrev SettingOrder := RowOrder (ℕ × Setting)

/-- `performQuery` for the settings whose name is like the pattern, and the first of them. -/
def queryName (order : SettingOrder) (t : SettingTable) (name : String) : Option (ℕ × Setting) :=
  t.first order fun setting => setting.name.any (likeExp (some name))

variable {order : SettingOrder} {t : SettingTable} {name : String} {row : ℕ × Setting}

/-- A name without special characters selects the rows of this name. -/
theorem any_likeExp_name (h : ∀ c ∈ name.toList, LikePattern.isPlain c = true) (setting : Setting) :
    setting.name.any (likeExp (some name)) = true ↔ setting.name = some name := by
  cases setting.name with
  | none => simp
  | some other =>
    rw [Option.any_some, likeExp, LikePattern.like_plain h, Option.some.injEq, eq_comm]

theorem of_queryName (h : ∀ c ∈ name.toList, LikePattern.isPlain c = true)
    (hq : queryName order t name = some row) : row ∈ t.rows ∧ row.2.name = some name := by
  obtain ⟨hrow, hlike⟩ := of_first hq
  exact ⟨hrow, (any_likeExp_name h row.2).mp hlike⟩

end Auth8.Persistent
