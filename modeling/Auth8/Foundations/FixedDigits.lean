import Mathlib.Algebra.Group.Nat.Defs
import Mathlib.Tactic.Common

/-! # Numerals of a fixed width

`fixedDigits b w v` is the list of the `w` low digits of `v` in base `b`, most significant first. It
determines `v` modulo `b ^ w`. -/
namespace FixedDigits
set_option autoImplicit false

def fixedDigits (b : ℕ) : ℕ → ℕ → List ℕ
  | 0, _ => []
  | w + 1, v => fixedDigits b w (v / b) ++ [v % b]

@[simp] theorem fixedDigits_length (b w v : ℕ) : (fixedDigits b w v).length = w := by
  induction w generalizing v with
  | zero => rfl
  | succ w ih => simp [fixedDigits, ih]

theorem lt_of_mem_fixedDigits {b w v d : ℕ} (hb : 0 < b) (h : d ∈ fixedDigits b w v) : d < b := by
  induction w generalizing v with
  | zero => simp [fixedDigits] at h
  | succ w ih =>
    rcases List.mem_append.mp h with h | h
    · exact ih h
    · rw [List.mem_singleton.mp h]
      exact Nat.mod_lt _ hb

theorem mod_eq_of_fixedDigits_eq {b w u v : ℕ} (h : fixedDigits b w u = fixedDigits b w v) :
    u % b ^ w = v % b ^ w := by
  induction w generalizing u v with
  | zero => simp [Nat.mod_one]
  | succ w ih =>
    obtain ⟨hhigh, hlow⟩ := List.append_inj h (by simp)
    have hl : u % b = v % b := by simpa using hlow
    have hh : u / b % b ^ w = v / b % b ^ w := ih hhigh
    rw [Nat.pow_succ', Nat.mod_mul, Nat.mod_mul, hl, hh]

end FixedDigits
