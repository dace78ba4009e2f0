import Auth8.Foundations.FixedDigits

/-! # Request ids

`UUID.randomUUID().toString().replace("-", "")`: the two `long`s of a `UUID` written as groups of 8, 4,
4, 4 and 12 hexadecimal digits, and the hyphens between the groups removed. Distinct UUIDs give distinct
ids, since the widths of the groups are fixed. -/
namespace Auth8.Server
open FixedDigits
set_option autoImplicit false

structure UUID where
  mostSigBits : BitVec 64
  leastSigBits : BitVec 64
  deriving DecidableEq, Repr

/-- `UUID.digits`: the low hexadecimal digits of `val`. -/
def digits (val : BitVec 64) (n : ℕ) : List Char := (fixedDigits 16 n val.toNat).map Nat.digitChar

/-- The groups `UUID.toString` joins by hyphens; `>>` shifts the sign in, above the digits taken. -/
def UUID.groups (u : UUID) : List (List Char) :=
  [digits (u.mostSigBits.sshiftRight 32) 8, digits (u.mostSigBits.sshiftRight 16) 4,
    digits u.mostSigBits 4, digits (u.leastSigBits.sshiftRight 48) 4, digits u.leastSigBits 12]

def UUID.toString (u : UUID) : String := String.ofList (List.intercalate ['-'] u.groups)

def removeHyphens (s : String) : String := String.ofList (s.toList.filter fun c => !decide (c = '-'))

def uniqueRequestId (u : UUID) : String := removeHyphens u.toString

/-! ## Injectivity -/

/-- The value of a lower-case hexadecimal digit. -/
def hexValue (c : Char) : ℕ := if c.toNat < 58 then c.toNat - 48 else c.toNat - 87

theorem hexValue_digitChar : ∀ d < 16, hexValue d.digitChar = d := by decide

theorem digitChar_ne_hyphen : ∀ d < 16, d.digitChar ≠ '-' := by decide

@[simp] theorem digits_length (val : BitVec 64) (n : ℕ) : (digits val n).length = n := by
  simp [digits]

theorem hyphen_not_mem_digits (val : BitVec 64) (n : ℕ) : '-' ∉ digits val n := by
  intro h
  obtain ⟨d, hd, hc⟩ := List.mem_map.mp h
  exact digitChar_ne_hyphen d (lt_of_mem_fixedDigits (by decide) hd) hc

theorem map_hexValue_digits (val : BitVec 64) (n : ℕ) :
    (digits val n).map hexValue = fixedDigits 16 n val.toNat := by
  rw [digits, List.map_map]
  conv_rhs => rw [← List.map_id (fixedDigits 16 n val.toNat)]
  exact List.map_congr_left fun d hd =>
    hexValue_digitChar d (lt_of_mem_fixedDigits (by decide) hd)

/-- Equal groups agree on the bits they show. -/
theorem getLsbD_eq_of_digits_eq {x y : BitVec 64} {n i : ℕ} (h : digits x n = digits y n)
    (hi : i < 4 * n) : x.getLsbD i = y.getLsbD i := by
  have hm : x.toNat % 16 ^ n = y.toNat % 16 ^ n :=
    mod_eq_of_fixedDigits_eq (by rw [← map_hexValue_digits, ← map_hexValue_digits, h])
  rw [show 16 = 2 ^ 4 from rfl, ← Nat.pow_mul] at hm
  have := congrArg (Nat.testBit · i) hm
  simpa [Nat.testBit_mod_two_pow, hi, BitVec.getLsbD] using this

theorem filter_digits (val : BitVec 64) (n : ℕ) :
    ((digits val n).filter fun c => !decide (c = '-')) = digits val n := by
  rw [List.filter_eq_self]
  intro c hc
  simpa using fun h : c = '-' => hyphen_not_mem_digits val n (h ▸ hc)

/-- Removing the hyphens leaves the groups one after the other. -/
theorem toList_uniqueRequestId (u : UUID) : (uniqueRequestId u).toList = u.groups.flatten := by
  simp [uniqueRequestId, removeHyphens, UUID.toString, UUID.groups, List.intercalate,
    List.intersperse, filter_digits]

theorem uniqueRequestId_injective : Function.Injective uniqueRequestId := by
  intro u v h
  have hf : u.groups.flatten = v.groups.flatten := by
    rw [← toList_uniqueRequestId, ← toList_uniqueRequestId, h]
  simp only [UUID.groups, List.flatten_cons, List.flatten_nil, List.append_nil] at hf
  obtain ⟨h1, hf⟩ := List.append_inj hf (by simp)
  obtain ⟨h2, hf⟩ := List.append_inj hf (by simp)
  obtain ⟨h3, hf⟩ := List.append_inj hf (by simp)
  obtain ⟨h4, h5⟩ := List.append_inj hf (by simp)
  have hmost : u.mostSigBits = v.mostSigBits := by
    refine BitVec.eq_of_getLsbD_eq fun i hi => ?_
    by_cases hlow : i < 16
    · exact getLsbD_eq_of_digits_eq h3 (by omega)
    by_cases hmid : i < 32
    · have := getLsbD_eq_of_digits_eq (i := i - 16) h2 (by omega)
      simpa [BitVec.getLsbD_sshiftRight, show 16 + (i - 16) = i by omega, hi,
        show ¬ 64 ≤ i - 16 by omega] using this
    · have := getLsbD_eq_of_digits_eq (i := i - 32) h1 (by omega)
      simpa [BitVec.getLsbD_sshiftRight, show 32 + (i - 32) = i by omega, hi,
        show ¬ 64 ≤ i - 32 by omega] using this
  have hleast : u.leastSigBits = v.leastSigBits := by
    refine BitVec.eq_of_getLsbD_eq fun i hi => ?_
    by_cases hlow : i < 48
    · exact getLsbD_eq_of_digits_eq h5 (by omega)
    · have := getLsbD_eq_of_digits_eq (i := i - 48) h4 (by omega)
      simpa [BitVec.getLsbD_sshiftRight, show 48 + (i - 48) = i by omega, hi,
        show ¬ 64 ≤ i - 48 by omega] using this
  cases u
  cases v
  simp_all

end Auth8.Server
