import Auth8.Foundations.BigEndian

/-! # SHA-1 and HMAC

The hash function of FIPS 180-4 over lists of bytes, and the keyed hash of FIPS 198-1 built on it. -/
namespace Sha1
open BigEndian
set_option autoImplicit false

/-! ## The functions and constants of the rounds -/

def ch (x y z : Word) : Word := (x &&& y) ^^^ (~~~x &&& z)

def parity (x y z : Word) : Word := x ^^^ y ^^^ z

def maj (x y z : Word) : Word := (x &&& y) ^^^ (x &&& z) ^^^ (y &&& z)

def roundFunction (t : ℕ) : Word → Word → Word → Word :=
  if t < 20 then ch else if t < 40 then parity else if t < 60 then maj else parity

def roundConstant (t : ℕ) : Word :=
  if t < 20 then 0x5a827999 else if t < 40 then 0x6ed9eba1
  else if t < 60 then 0x8f1bbcdc else 0xca62c1d6

/-- The working variables, and the hash value. -/
structure State where
  a : Word
  b : Word
  c : Word
  d : Word
  e : Word
  deriving DecidableEq, Repr

def State.init : State := ⟨0x67452301, 0xefcdab89, 0x98badcfe, 0x10325476, 0xc3d2e1f0⟩

def State.add (s h : State) : State := ⟨s.a + h.a, s.b + h.b, s.c + h.c, s.d + h.d, s.e + h.e⟩

def State.words (s : State) : List Word := [s.a, s.b, s.c, s.d, s.e]

/-! ## One block -/

/-- The first words of the message schedule of a block. -/
def schedulePrefix (block : ℕ → Word) : ℕ → List Word
  | 0 => []
  | t + 1 =>
    let w := schedulePrefix block t
    w ++ [if t < 16 then block t
      else (w.getD (t - 3) 0 ^^^ w.getD (t - 8) 0 ^^^ w.getD (t - 14) 0 ^^^ w.getD (t - 16) 0).rotateLeft 1]

def round (t : ℕ) (w : Word) (s : State) : State where
  a := s.a.rotateLeft 5 + roundFunction t s.b s.c s.d + s.e + roundConstant t + w
  b := s.a
  c := s.b.rotateLeft 30
  d := s.c
  e := s.d

def rounds (w : ℕ → Word) (h : State) : ℕ → State
  | 0 => h
  | t + 1 => round t (w t) (rounds w h t)

def compress (block : ℕ → Word) (h : State) : State :=
  let w := schedulePrefix block 80
  (rounds (fun t => w.getD t 0) h 80).add h

/-! ## The message -/

/-- The zero bytes after the marker, which fill up the last block. -/
def zeros (length : ℕ) : ℕ := (119 - length % 64) % 64

/-- The length in bits, in eight bytes. -/
def lengthBytes (length : ℕ) : List Byte :=
  (List.range 8).map fun i => BitVec.ofNat 8 (8 * length / 256 ^ (7 - i))

def pad (bytes : List Byte) : List Byte :=
  bytes ++ 0x80 :: (List.replicate (zeros bytes.length) 0 ++ lengthBytes bytes.length)

/-- The hash value after the first `n` blocks. -/
def hashBlocks (words : ℕ → Word) : ℕ → State
  | 0 => .init
  | n + 1 => compress (fun t => words (16 * n + t)) (hashBlocks words n)

def hashWords (bytes : List Byte) : State :=
  hashBlocks (wordAt (pad bytes)) ((pad bytes).length / 64)

def digest (bytes : List Byte) : List Byte := bytesOf (hashWords bytes).words

example : bytesOf (hashWords []).words =
    [0xda, 0x39, 0xa3, 0xee, 0x5e, 0x6b, 0x4b, 0x0d, 0x32, 0x55, 0xbf, 0xef, 0x95, 0x60, 0x18, 0x90,
      0xaf, 0xd8, 0x07, 0x09] := by decide +kernel

/-! ## The keyed hash -/

/-- A key brought to the length of a block. -/
def blockKey (key : List Byte) : List Byte :=
  let k := if 64 < key.length then digest key else key
  k ++ List.replicate (64 - k.length) 0

def keyPad (key : List Byte) (x : Byte) : List Byte := (blockKey key).map fun b => b ^^^ x

def hmac (key text : List Byte) : List Byte :=
  digest (keyPad key 0x5c ++ digest (keyPad key 0x36 ++ text))

/-! ## Lengths -/

@[simp] theorem schedulePrefix_length (block : ℕ → Word) (t : ℕ) :
    (schedulePrefix block t).length = t := by
  induction t with
  | zero => rfl
  | succ t ih => rw [schedulePrefix, List.length_append, ih, List.length_singleton]

/-- A word of the schedule is there as soon as it has been computed. -/
theorem schedulePrefix_getD (block : ℕ → Word) {t n : ℕ} (ht : t < n) :
    (schedulePrefix block n).getD t 0 = (schedulePrefix block (t + 1)).getD t 0 := by
  induction n with
  | zero => omega
  | succ n ih =>
    by_cases htn : t = n
    · rw [htn]
    · rw [schedulePrefix, List.getD_append _ _ _ _ (by rw [schedulePrefix_length]; omega),
        ih (by omega)]

/-- The recurrence of the schedule. -/
theorem schedulePrefix_last (block : ℕ → Word) {t n : ℕ} (ht : t < n) :
    (schedulePrefix block n).getD t 0 =
      if t < 16 then block t
      else ((schedulePrefix block n).getD (t - 3) 0 ^^^ (schedulePrefix block n).getD (t - 8) 0 ^^^
        (schedulePrefix block n).getD (t - 14) 0 ^^^
        (schedulePrefix block n).getD (t - 16) 0).rotateLeft 1 := by
  rw [schedulePrefix_getD block ht, schedulePrefix, List.getD_append_right _ _ _ _ (by simp)]
  simp only [schedulePrefix_length, Nat.sub_self, List.getD_cons_zero]
  by_cases h16 : t < 16
  · rw [if_pos h16, if_pos h16]
  · rw [if_neg h16, if_neg h16]
    have hearlier : ∀ i, i < t →
        (schedulePrefix block t).getD i 0 = (schedulePrefix block n).getD i 0 := by
      intro i hi
      rw [schedulePrefix_getD block hi, schedulePrefix_getD block (Nat.lt_trans hi ht)]
    rw [hearlier _ (by omega), hearlier _ (by omega), hearlier _ (by omega), hearlier _ (by omega)]

@[simp] theorem lengthBytes_length (length : ℕ) : (lengthBytes length).length = 8 := by
  simp [lengthBytes]

theorem pad_length (bytes : List Byte) :
    (pad bytes).length = bytes.length + 1 + zeros bytes.length + 8 := by
  simp [pad]
  omega

/-- The padded message is made of whole blocks. -/
theorem pad_length_eq (bytes : List Byte) :
    (pad bytes).length = 64 * ((bytes.length + 8) / 64 + 1) := by
  rw [pad_length]
  unfold zeros
  omega

@[simp] theorem digest_length (bytes : List Byte) : (digest bytes).length = 20 := by
  rw [digest, bytesOf_length]
  rfl

@[simp] theorem blockKey_length (key : List Byte) : (blockKey key).length = 64 := by
  unfold blockKey
  split
  · simp
  · rw [List.length_append, List.length_replicate]
    omega

@[simp] theorem keyPad_length (key : List Byte) (x : Byte) : (keyPad key x).length = 64 := by
  rw [keyPad, List.length_map, blockKey_length]

@[simp] theorem hmac_length (key text : List Byte) : (hmac key text).length = 20 := digest_length _

end Sha1
