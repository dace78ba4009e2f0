import Mathlib.Algebra.Group.Int.Defs
import Mathlib.Algebra.Group.Nat.Defs
import Mathlib.Tactic.Common

/-! # Java ints and arrays

An `int` is a word of 32 bits read as a signed number; its operations wrap. An array is a list, an
access outside it or at a negative index throws, and so does the allocation of a negative length. -/
namespace JavaArray
set_option autoImplicit false

variable {α : Type}

abbrev Int32Bits := BitVec 32

def int (n : ℕ) : Int32Bits := BitVec.ofNat 32 n

def read (a : List α) (i : Int32Bits) : Option α :=
  if i.slt 0 then none else a[i.toNat]?

def write (a : List α) (i : Int32Bits) (x : α) : Option (List α) :=
  if i.slt 0 then none else if i.toNat < a.length then some (a.set i.toNat x) else none

def allocate (size : Int32Bits) (x : α) : Option (List α) :=
  if size.slt 0 then none else some (List.replicate size.toNat x)

/-! ## Arithmetic below `2 ^ 31` -/

theorem int_toNat {n : ℕ} (hn : n < 2 ^ 31) : (int n).toNat = n := by
  unfold int
  rw [BitVec.toNat_ofNat]
  omega

theorem int_toInt {n : ℕ} (hn : n < 2 ^ 31) : (int n).toInt = n := by
  rw [BitVec.toInt_eq_toNat_of_lt (by rw [int_toNat hn]; omega), int_toNat hn]

theorem int_add (m n : ℕ) : int m + int n = int (m + n) := (BitVec.ofNat_add m n).symm

theorem int_mul (m n : ℕ) : int m * int n = int (m * n) := (BitVec.ofNat_mul m n).symm

theorem int_and_mask (m k : ℕ) : int m &&& int (2 ^ k - 1) = int (m % 2 ^ k) := by
  unfold int
  rw [← BitVec.ofNat_and, Nat.and_two_pow_sub_one_eq_mod]

theorem int_ushiftRight {n : ℕ} (hn : n < 2 ^ 31) (k : ℕ) : int n >>> k = int (n / 2 ^ k) := by
  have hq : n / 2 ^ k < 2 ^ 31 := Nat.lt_of_le_of_lt (Nat.div_le_self n _) hn
  apply BitVec.eq_of_toNat_eq
  rw [BitVec.toNat_ushiftRight, int_toNat hn, int_toNat hq, Nat.shiftRight_eq_div_pow]

theorem int_slt {m n : ℕ} (hm : m < 2 ^ 31) (hn : n < 2 ^ 31) :
    (int m).slt (int n) = decide (m < n) := by
  rw [BitVec.slt_eq_decide, int_toInt hm, int_toInt hn]
  simp

theorem int_not_slt_zero {n : ℕ} (hn : n < 2 ^ 31) : (int n).slt 0 = false := by
  rw [show (0 : Int32Bits) = int 0 from rfl, int_slt hn (by decide)]
  exact decide_eq_false (Nat.not_lt_zero n)

theorem int_sub {m n : ℕ} (hm : m < 2 ^ 31) (hnm : n ≤ m) : int m - int n = int (m - n) :=
  BitVec.ofNat_sub_ofNat_of_le m n (by omega) hnm

/-- The difference may be negative. -/
theorem int_slt_sub {k m n : ℕ} (hk : k < 2 ^ 31) (hm : m < 2 ^ 31) (hn : n < 2 ^ 31) :
    (int k).slt (int m - int n) = decide (k + n < m) := by
  rw [BitVec.slt_eq_decide, BitVec.toInt_sub, int_toInt hk, int_toInt hm, int_toInt hn,
    Int.bmod_eq_of_le (by omega) (by omega)]
  congr 1
  exact propext (by omega)

theorem int_msb {n : ℕ} (hn : n < 2 ^ 31) : (int n).msb = false := by
  rw [BitVec.msb_eq_false_iff_two_mul_lt, int_toNat hn]
  omega

theorem int_sdiv {m n : ℕ} (hm : m < 2 ^ 31) (hn : n < 2 ^ 31) :
    (int m).sdiv (int n) = int (m / n) := by
  have hq : m / n < 2 ^ 31 := Nat.lt_of_le_of_lt (Nat.div_le_self m n) hm
  rw [BitVec.sdiv_eq, int_msb hm, int_msb hn]
  apply BitVec.eq_of_toNat_eq
  rw [int_toNat hq]
  simp [BitVec.toNat_udiv, int_toNat hm, int_toNat hn]

theorem int_srem {m n : ℕ} (hm : m < 2 ^ 31) (hn : n < 2 ^ 31) (hpos : 0 < n) :
    (int m).srem (int n) = int (m % n) := by
  have hr : m % n < 2 ^ 31 := Nat.lt_trans (Nat.mod_lt m hpos) hn
  rw [BitVec.srem_eq, int_msb hm, int_msb hn]
  apply BitVec.eq_of_toNat_eq
  rw [int_toNat hr]
  simp [BitVec.toNat_umod, int_toNat hm, int_toNat hn]

/-! ## Words read as signed numbers -/

theorem toInt_add_eq {x y : Int32Bits} (hlow : -2 ^ 31 ≤ x.toInt + y.toInt)
    (hhigh : x.toInt + y.toInt < 2 ^ 31) : (x + y).toInt = x.toInt + y.toInt := by
  rw [BitVec.toInt_add]
  exact Int.bmod_eq_of_le (by omega) (by omega)

/-- The product wraps. -/
theorem toInt_int_mul (m n : ℕ) : (int m * int n).toInt = ((m * n : ℕ) : ℤ).bmod (2 ^ 32) := by
  rw [int_mul]
  exact BitVec.toInt_ofNat' (m * n)

/-- The quotient is rounded towards zero. -/
theorem toInt_sdiv_int (x : Int32Bits) {n : ℕ} (hn : n < 2 ^ 31) :
    (x.sdiv (int n)).toInt = x.toInt.tdiv n := by
  have hne : int n ≠ -1#32 := by
    intro h
    have hnat := congrArg BitVec.toNat h
    rw [int_toNat hn] at hnat
    simp at hnat
    omega
  rw [BitVec.toInt_sdiv_of_ne_or_ne x (int n) (Or.inr hne), int_toInt hn]

/-! ## Access at a small index -/

theorem read_int (a : List α) {i : ℕ} (hi : i < 2 ^ 31) : read a (int i) = a[i]? := by
  unfold read
  rw [int_not_slt_zero hi, int_toNat hi]
  rfl

theorem write_int (a : List α) {i : ℕ} (hi : i < 2 ^ 31) (hlt : i < a.length) (x : α) :
    write a (int i) x = some (a.set i x) := by
  unfold write
  rw [int_not_slt_zero hi, int_toNat hi, if_pos hlt]
  rfl

theorem allocate_int {n : ℕ} (hn : n < 2 ^ 31) (x : α) :
    allocate (int n) x = some (List.replicate n x) := by
  unfold allocate
  rw [int_not_slt_zero hn, int_toNat hn]
  rfl

theorem write_append (front back : List α) (old : α) {i : ℕ} (hi : i < 2 ^ 31)
    (hfront : front.length = i) (x : α) :
    write (front ++ old :: back) (int i) x = some (front ++ x :: back) := by
  subst hfront
  rw [write_int _ hi (by simp)]
  simp

/-! ## What an access that does not throw says -/

theorem write_inv {a b : List α} {i : Int32Bits} {x : α} (h : write a i x = some b) :
    i.toNat < a.length ∧ b = a.set i.toNat x := by
  unfold write at h
  split at h
  · cases h
  · split at h
    · rename_i hlt
      exact ⟨hlt, (Option.some.inj h).symm⟩
    · cases h

theorem length_of_write {a b : List α} {i : Int32Bits} {x : α} (h : write a i x = some b) :
    b.length = a.length := by
  obtain ⟨-, rfl⟩ := write_inv h
  exact List.length_set

theorem lt_of_write {a b : List α} {i : ℕ} {x : α} (hi : i < 2 ^ 31)
    (h : write a (int i) x = some b) : i < a.length := by
  have hlt := (write_inv h).1
  rwa [int_toNat hi] at hlt

/-- The length is no negative number. -/
theorem length_of_allocate {size : Int32Bits} {x : α} {a : List α} (h : allocate size x = some a) :
    (a.length : ℤ) = size.toInt := by
  unfold allocate at h
  split at h
  · cases h
  · rename_i hslt
    cases h
    have hmsb : size.msb = false := by
      rw [← BitVec.slt_zero_eq_msb]
      exact eq_false_of_ne_true hslt
    rw [List.length_replicate, BitVec.toInt_eq_toNat_of_msb hmsb]

end JavaArray
