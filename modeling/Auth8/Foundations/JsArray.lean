import Mathlib.Data.List.GetD
import Mathlib.Tactic.Common

/-! # Arrays that grow

The arrays of JavaScript: an assignment beyond the end lengthens the array. A hole is read as zero, as the
bitwise operators read it. -/
namespace JsArray
set_option autoImplicit false

variable {α : Type} (zero : α)

def store (a : List α) (i : ℕ) (x : α) : List α :=
  (a ++ List.replicate (i + 1 - a.length) zero).set i x

@[simp] theorem store_length (a : List α) (i : ℕ) (x : α) :
    (store zero a i x).length = max a.length (i + 1) := by
  rw [store, List.length_set, List.length_append, List.length_replicate]
  omega

theorem getD_append_replicate (a : List α) (n j : ℕ) :
    (a ++ List.replicate n zero).getD j zero = a.getD j zero := by
  by_cases hj : j < a.length
  · rw [List.getD_append _ _ _ _ hj]
  · rw [List.getD_append_right _ _ _ _ (by omega), List.getD_eq_default a _ (by omega),
      List.getD_eq_getElem?_getD, List.getElem?_replicate]
    split <;> rfl

theorem store_getD_self (a : List α) (i : ℕ) (x : α) : (store zero a i x).getD i zero = x := by
  have hlen : i < (store zero a i x).length := by
    rw [store_length]
    omega
  rw [List.getD_eq_getElem _ _ hlen]
  simp [store]

theorem store_getD (a : List α) (i j : ℕ) (x : α) :
    (store zero a i x).getD j zero = if j = i then x else a.getD j zero := by
  by_cases h : j = i
  · rw [if_pos h, h, store_getD_self]
  · rw [if_neg h, ← getD_append_replicate zero a (i + 1 - a.length) j, store,
      List.getD_eq_getElem?_getD, List.getElem?_set_ne (Ne.symm h), ← List.getD_eq_getElem?_getD]

end JsArray
