import Mathlib.Algebra.Group.Nat.Defs
import Mathlib.Tactic.Common

/-! # Base64

The padded encoding of section 4 of RFC 4648, over lists of bytes. Three bytes make a group of 24
bits, which is written as four digits in base 64; a last group of one or two bytes is filled up with
zero bits, and its missing digits are written `=`. -/
namespace Base64
set_option autoImplicit false

abbrev Byte := BitVec 8

def alphabet : List Char :=
  ['A', 'B', 'C', 'D', 'E', 'F', 'G', 'H', 'I', 'J', 'K', 'L', 'M', 'N', 'O', 'P', 'Q', 'R', 'S', 'T',
   'U', 'V', 'W', 'X', 'Y', 'Z', 'a', 'b', 'c', 'd', 'e', 'f', 'g', 'h', 'i', 'j', 'k', 'l', 'm', 'n',
   'o', 'p', 'q', 'r', 's', 't', 'u', 'v', 'w', 'x', 'y', 'z', '0', '1', '2', '3', '4', '5', '6', '7',
   '8', '9', '+', '/']

/-- The digit of value `v`, for `v` below 64. -/
def digit (v : ℕ) : Char := alphabet.getD v '='

def value? (c : Char) : Option ℕ := alphabet.idxOf? c

theorem value?_digit {v : ℕ} (hv : v < 64) : value? (digit v) = some v := by
  revert v
  decide +kernel

theorem digit_mem {v : ℕ} (hv : v < 64) : digit v ∈ alphabet := by
  have hlen : v < alphabet.length := hv
  rw [digit, List.getD_eq_getElem?_getD, List.getElem?_eq_getElem hlen]
  exact List.getElem_mem hlen

theorem digit_ne_pad {v : ℕ} (hv : v < 64) : digit v ≠ '=' := by
  intro hpad
  have hnot : '=' ∉ alphabet := by decide
  rw [← hpad] at hnot
  exact hnot (digit_mem hv)

/-! ## Groups of 24 bits -/

def group (a b c : Byte) : ℕ := a.toNat * 65536 + b.toNat * 256 + c.toNat

theorem group_lt (a b c : Byte) : group a b c < 16777216 := by
  have ha := a.isLt
  have hb := b.isLt
  have hc := c.isLt
  unfold group
  omega

/-- The `i`-th digit in base 64 from the right. -/
def sextet (i v : ℕ) : ℕ := v / 64 ^ i % 64

theorem sextet_lt (i v : ℕ) : sextet i v < 64 := Nat.mod_lt _ (by decide)

/-- The value of four digits. -/
def quantum (w x y z : ℕ) : ℕ := w * 262144 + x * 4096 + y * 64 + z

theorem quantum_sextets {v : ℕ} (hv : v < 16777216) :
    quantum (sextet 3 v) (sextet 2 v) (sextet 1 v) (sextet 0 v) = v := by
  unfold quantum sextet
  omega

@[simp] theorem zero_toNat : (0 : Byte).toNat = 0 := rfl

theorem quantum_sextets_one (a : Byte) :
    quantum (sextet 3 (group a 0 0)) (sextet 2 (group a 0 0)) 0 0 = group a 0 0 := by
  have ha := a.isLt
  simp only [quantum, sextet, group, zero_toNat]
  omega

theorem quantum_sextets_two (a b : Byte) :
    quantum (sextet 3 (group a b 0)) (sextet 2 (group a b 0)) (sextet 1 (group a b 0)) 0 =
      group a b 0 := by
  have ha := a.isLt
  have hb := b.isLt
  simp only [quantum, sextet, group, zero_toNat]
  omega

/-- The `i`-th byte from the right. -/
def octet (i v : ℕ) : Byte := BitVec.ofNat 8 (v / 256 ^ i)

theorem octet_two_group (a b c : Byte) : octet 2 (group a b c) = a := by
  have hb := b.isLt
  have hc := c.isLt
  apply BitVec.eq_of_toNat_eq
  simp only [octet, group, BitVec.toNat_ofNat]
  omega

theorem octet_one_group (a b c : Byte) : octet 1 (group a b c) = b := by
  have hb := b.isLt
  have hc := c.isLt
  apply BitVec.eq_of_toNat_eq
  simp only [octet, group, BitVec.toNat_ofNat]
  omega

theorem octet_zero_group (a b c : Byte) : octet 0 (group a b c) = c := by
  have hc := c.isLt
  apply BitVec.eq_of_toNat_eq
  simp only [octet, group, BitVec.toNat_ofNat]
  omega

/-! ## Encoding -/

def encode : List Byte → List Char
  | [] => []
  | [a] => [digit (sextet 3 (group a 0 0)), digit (sextet 2 (group a 0 0)), '=', '=']
  | [a, b] =>
      [digit (sextet 3 (group a b 0)), digit (sextet 2 (group a b 0)), digit (sextet 1 (group a b 0)),
        '=']
  | a :: b :: c :: rest =>
      digit (sextet 3 (group a b c)) :: digit (sextet 2 (group a b c)) ::
        digit (sextet 1 (group a b c)) :: digit (sextet 0 (group a b c)) :: encode rest

theorem encode_length (source : List Byte) :
    (encode source).length = 4 * ((source.length + 2) / 3) := by
  induction source using encode.induct with
  | case1 => rfl
  | case2 a => simp [encode]
  | case3 a b => simp [encode]
  | case4 a b c rest ih =>
    simp only [encode, List.length_cons, ih]
    omega

theorem mem_encode (source : List Byte) : ∀ c ∈ encode source, c ∈ alphabet ∨ c = '=' := by
  induction source using encode.induct with
  | case1 => simp [encode]
  | case2 a => simp [encode, digit_mem, sextet_lt]
  | case3 a b => simp [encode, digit_mem, sextet_lt]
  | case4 a b c rest ih => simpa [encode, digit_mem, sextet_lt] using ih

/-! ## Decoding -/

/-- `none` where the text is no encoding: a length that is no multiple of four, a character outside
the alphabet, or padding anywhere but at the end. -/
def decode : List Char → Option (List Byte)
  | [] => some []
  | [w, x, '=', '='] => do
      let v := quantum (← value? w) (← value? x) 0 0
      some [octet 2 v]
  | [w, x, y, '='] => do
      let v := quantum (← value? w) (← value? x) (← value? y) 0
      some [octet 2 v, octet 1 v]
  | w :: x :: y :: z :: rest => do
      let v := quantum (← value? w) (← value? x) (← value? y) (← value? z)
      let tail ← decode rest
      some (octet 2 v :: octet 1 v :: octet 0 v :: tail)
  | _ => none

theorem decode_one {w x : ℕ} (hw : w < 64) (hx : x < 64) :
    decode [digit w, digit x, '=', '='] = some [octet 2 (quantum w x 0 0)] := by
  simp [decode, value?_digit, hw, hx]

theorem decode_two {w x y : ℕ} (hw : w < 64) (hx : x < 64) (hy : y < 64) :
    decode [digit w, digit x, digit y, '='] =
      some [octet 2 (quantum w x y 0), octet 1 (quantum w x y 0)] := by
  have hpad := digit_ne_pad hy
  simp [decode, value?_digit, hw, hx, hy]

theorem decode_digits {w x y z : ℕ} (hw : w < 64) (hx : x < 64) (hy : y < 64) (hz : z < 64)
    (rest : List Char) :
    decode (digit w :: digit x :: digit y :: digit z :: rest) =
      (decode rest).map fun tail =>
        octet 2 (quantum w x y z) :: octet 1 (quantum w x y z) :: octet 0 (quantum w x y z) :: tail := by
  have hpad := digit_ne_pad hz
  rw [decode]
  · simp only [value?_digit hw, value?_digit hx, value?_digit hy, value?_digit hz, Option.bind_eq_bind,
      Option.bind_some]
    exact Option.map_eq_bind.symm
  · intro _ hz' _
    exact hpad hz'
  · intro hz' _
    exact hpad hz'

theorem decode_encode (source : List Byte) : decode (encode source) = some source := by
  induction source using encode.induct with
  | case1 => rfl
  | case2 a =>
    rw [encode, decode_one (sextet_lt _ _) (sextet_lt _ _), quantum_sextets_one, octet_two_group]
  | case3 a b =>
    rw [encode, decode_two (sextet_lt _ _) (sextet_lt _ _) (sextet_lt _ _), quantum_sextets_two,
      octet_two_group, octet_one_group]
  | case4 a b c rest ih =>
    rw [encode, decode_digits (sextet_lt _ _) (sextet_lt _ _) (sextet_lt _ _) (sextet_lt _ _), ih,
      quantum_sextets (group_lt a b c), octet_two_group, octet_one_group, octet_zero_group]
    rfl

end Base64
