import Auth8.Foundations.Base64
import Auth8.Foundations.JavaArray
import Mathlib.Data.List.GetD

/-! # `Signature.encodeBytes`

The Base64 encoder of the class `Signature`, with the arrays, the wrapping ints and the shifts of the
source. An access outside an array, also outside the alphabet, ends in `none`. -/
namespace Auth8.Security
open Base64 JavaArray
set_option autoImplicit false

def asByte (c : Char) : Byte := BitVec.ofNat 8 c.toNat

def maxLineLength : Int32Bits := 76

def equalsSign : Byte := asByte '='

def newLine : Byte := asByte '\n'

def standardAlphabet : List Byte :=
  ['A', 'B', 'C', 'D', 'E', 'F', 'G',
   'H', 'I', 'J', 'K', 'L', 'M', 'N',
   'O', 'P', 'Q', 'R', 'S', 'T', 'U',
   'V', 'W', 'X', 'Y', 'Z',
   'a', 'b', 'c', 'd', 'e', 'f', 'g',
   'h', 'i', 'j', 'k', 'l', 'm', 'n',
   'o', 'p', 'q', 'r', 's', 't', 'u',
   'v', 'w', 'x', 'y', 'z',
   '0', '1', '2', '3', '4', '5',
   '6', '7', '8', '9', '+', '/'].map asByte

/-! ## `encode3to4` -/

/-- `(b << 24) >>> shift`, where `b` is promoted to an `int`. -/
def shifted (b : Byte) (shift : ℕ) : Int32Bits :=
  let promoted : Int32Bits := b.signExtend 32
  (promoted <<< 24) >>> shift

def significant (source : List Byte) (i : Int32Bits) (shift : ℕ) (present : Bool) :
    Option Int32Bits :=
  if present then (read source i).map fun b => shifted b shift else some 0

def inBuff (source : List Byte) (srcOffset numSigBytes : Int32Bits) : Option Int32Bits := do
  let first ← significant source srcOffset 8 ((0 : Int32Bits).slt numSigBytes)
  let second ← significant source (srcOffset + 1) 16 ((1 : Int32Bits).slt numSigBytes)
  let third ← significant source (srcOffset + 2) 24 ((2 : Int32Bits).slt numSigBytes)
  some (first ||| second ||| third)

def encode3to4 (source : List Byte) (srcOffset numSigBytes : Int32Bits) (destination : List Byte)
    (destOffset : Int32Bits) : Option (List Byte) := do
  let inBuff ← inBuff source srcOffset numSigBytes
  if numSigBytes = 3 then
    let destination ← write destination destOffset (← read standardAlphabet (inBuff >>> 18))
    let destination ←
      write destination (destOffset + 1) (← read standardAlphabet (inBuff >>> 12 &&& 0x3f))
    let destination ←
      write destination (destOffset + 2) (← read standardAlphabet (inBuff >>> 6 &&& 0x3f))
    write destination (destOffset + 3) (← read standardAlphabet (inBuff &&& 0x3f))
  else if numSigBytes = 2 then
    let destination ← write destination destOffset (← read standardAlphabet (inBuff >>> 18))
    let destination ←
      write destination (destOffset + 1) (← read standardAlphabet (inBuff >>> 12 &&& 0x3f))
    let destination ←
      write destination (destOffset + 2) (← read standardAlphabet (inBuff >>> 6 &&& 0x3f))
    write destination (destOffset + 3) equalsSign
  else if numSigBytes = 1 then
    let destination ← write destination destOffset (← read standardAlphabet (inBuff >>> 18))
    let destination ←
      write destination (destOffset + 1) (← read standardAlphabet (inBuff >>> 12 &&& 0x3f))
    let destination ← write destination (destOffset + 2) equalsSign
    write destination (destOffset + 3) equalsSign
  else
    some destination

/-! ## `encodeBytes` -/

/-- The length of `outBuff`. -/
def bufferLength (breakLines : Bool) (len : Int32Bits) : Int32Bits :=
  let len43 := (len * 4).sdiv 3
  len43 + (if (0 : Int32Bits).slt (len.srem 3) then 4 else 0) +
    (if breakLines then len43.sdiv maxLineLength else 0)

structure Progress where
  d : Int32Bits
  e : Int32Bits
  lineLength : Int32Bits
  outBuff : List Byte
  deriving DecidableEq, Repr

/-- The body of the `for` loop with its update. -/
def encodeGroup (breakLines : Bool) (source : List Byte) (s : Progress) : Option Progress := do
  let outBuff ← encode3to4 source s.d 3 s.outBuff s.e
  let lineLength := s.lineLength + 4
  if breakLines && decide (lineLength = maxLineLength) then
    let outBuff ← write outBuff (s.e + 4) newLine
    some { d := s.d + 3, e := s.e + 1 + 4, lineLength := 0, outBuff := outBuff }
  else
    some { d := s.d + 3, e := s.e + 4, lineLength := lineLength, outBuff := outBuff }

/-- `none` also where the loop takes more than `fuel` rounds. -/
def encodeLoop (breakLines : Bool) (source : List Byte) (len2 : Int32Bits) :
    ℕ → Progress → Option Progress
  | 0, _ => none
  | fuel + 1, s =>
    if s.d.slt len2 then (encodeGroup breakLines source s).bind (encodeLoop breakLines source len2 fuel)
    else some s

/-- The statements after the loop, up to the construction of the string. -/
def encodeTail (source : List Byte) (len : Int32Bits) (s : Progress) :
    Option (Int32Bits × List Byte) :=
  if s.d.slt len then
    (encode3to4 source s.d (len - s.d) s.outBuff s.e).map fun outBuff => (s.e + 4, outBuff)
  else some (s.e, s.outBuff)

/-- `new String(bytes, 0, length, "UTF-8")` for ASCII bytes, the only ones that are written. -/
def newString (bytes : List Byte) (length : Int32Bits) : Option String :=
  if length.slt 0 || (int bytes.length).slt length then none
  else if (bytes.take length.toNat).all fun b => decide (b.toNat < 128) then
    some (String.ofList ((bytes.take length.toNat).map fun b => Char.ofNat b.toNat))
  else none

def encodeBytes (source : List Byte) : Option String := do
  let breakLines := false
  let len := int source.length
  let outBuff ← allocate (bufferLength breakLines len) 0
  let len2 := len - 2
  let s ← encodeLoop breakLines source len2 (source.length + 1)
    { d := 0, e := 0, lineLength := 0, outBuff := outBuff }
  let (e, outBuff) ← encodeTail source len s
  newString outBuff e

example : encodeBytes [0x66, 0xef, 0x80] = some "Zu+A" := by decide +kernel

/-! ## One group -/

theorem shifted_toNat (b : Byte) (shift : ℕ) :
    (shifted b shift).toNat = b.toNat * 2 ^ 24 / 2 ^ shift := by
  have hb := b.isLt
  have hleft : (b.signExtend 32 <<< 24).toNat = b.toNat * 2 ^ 24 := by
    rw [BitVec.toNat_shiftLeft, BitVec.toNat_signExtend, BitVec.toNat_setWidth, Nat.shiftLeft_eq]
    split <;> omega
  unfold shifted
  rw [BitVec.toNat_ushiftRight, hleft, Nat.shiftRight_eq_div_pow]

theorem group_or (a b c : Byte) :
    a.toNat * 65536 ||| b.toNat * 256 ||| c.toNat = group a b c := by
  have hb := b.isLt
  have hc := c.isLt
  have hlow : b.toNat * 256 + c.toNat = b.toNat * 256 ||| c.toNat := by
    simpa [Nat.shiftLeft_eq] using Nat.shiftLeft_add_eq_or_of_lt (i := 8) hc b.toNat
  have hlt : b.toNat * 256 + c.toNat < 2 ^ 16 := by omega
  have hhigh := Nat.shiftLeft_add_eq_or_of_lt hlt a.toNat
  rw [Nat.shiftLeft_eq, hlow, ← Nat.or_assoc] at hhigh
  rw [group, Nat.add_assoc, hlow]
  exact hhigh.symm

theorem shifted_or (a b c : Byte) :
    shifted a 8 ||| shifted b 16 ||| shifted c 24 = int (group a b c) := by
  have hlt := group_lt a b c
  apply BitVec.eq_of_toNat_eq
  rw [int_toNat (by omega), BitVec.toNat_or, BitVec.toNat_or, shifted_toNat, shifted_toNat,
    shifted_toNat, ← group_or]
  congr 2 <;> omega

theorem read_standardAlphabet {v : ℕ} (hv : v < 64) :
    read standardAlphabet (int v) = some (asByte (digit v)) := by
  revert v
  decide +kernel

theorem read_sextet {v : ℕ} (hv : v < 16777216) (i : ℕ) :
    read standardAlphabet (int v >>> (6 * i) &&& 0x3f) = some (asByte (digit (sextet i v))) := by
  rw [int_ushiftRight (by omega), show (0x3f : Int32Bits) = int (2 ^ 6 - 1) from rfl, int_and_mask,
    Nat.pow_mul]
  exact read_standardAlphabet (sextet_lt i v)

/-- The first digit needs no mask, since the group has 24 bits. -/
theorem read_first_sextet {v : ℕ} (hv : v < 16777216) :
    read standardAlphabet (int v >>> 18) = some (asByte (digit (sextet 3 v))) := by
  have hfirst : sextet 3 v = v / 2 ^ 18 := by
    unfold sextet
    omega
  rw [int_ushiftRight (by omega), ← hfirst]
  exact read_standardAlphabet (sextet_lt 3 v)

/-- The last digit needs no shift. -/
theorem read_last_sextet {v : ℕ} (hv : v < 16777216) :
    read standardAlphabet (int v &&& 0x3f) = some (asByte (digit (sextet 0 v))) := by
  have h := read_sextet hv 0
  rwa [Nat.mul_zero, BitVec.ushiftRight_zero] at h

section Group

variable {front rest done blank : List Byte} {old old₁ old₂ old₃ : Byte}

/-- A missing byte reads as a zero byte. -/
theorem significant_eq (front rest : List Byte) (i k : ℕ) (hlt : front.length + i < 2 ^ 31)
    (hk : k < 2 ^ 31) (hpresent : i < k ↔ i < rest.length) (shift : ℕ) :
    significant (front ++ rest) (int (front.length + i)) shift ((int i).slt (int k)) =
      some (shifted (rest.getD i 0) shift) := by
  unfold significant
  rw [int_slt (by omega) hk, read_int _ hlt, List.getElem?_append_right (by omega),
    Nat.add_sub_cancel_left]
  by_cases hi : i < rest.length
  · simp [hpresent.mpr hi, hi]
  · have hzero : shifted 0 shift = 0 := by
      apply BitVec.eq_of_toNat_eq
      rw [shifted_toNat]
      simp
    rw [if_neg (by simpa [hpresent] using hi), List.getD_eq_default _ _ (by omega), hzero]

theorem inBuff_eq (hlt : front.length + 2 < 2 ^ 31) :
    inBuff (front ++ rest) (int front.length) (int (min 3 rest.length)) =
      some (int (group (rest.getD 0 0) (rest.getD 1 0) (rest.getD 2 0))) := by
  have hfirst := significant_eq front rest 0 (min 3 rest.length)
    (by omega) (by omega) (by omega) 8
  have hsecond := significant_eq front rest 1 (min 3 rest.length)
    (by omega) (by omega) (by omega) 16
  have hthird := significant_eq front rest 2 (min 3 rest.length)
    hlt (by omega) (by omega) 24
  rw [← int_add] at hsecond hthird
  unfold inBuff
  rw [← shifted_or]
  exact (congrArg (Option.bind · _) hfirst).trans
    ((congrArg (Option.bind · _) hsecond).trans (congrArg (Option.bind · _) hthird))

theorem write_next (done mid blank : List Byte) (old : Byte) (hlt : done.length + mid.length < 2 ^ 31)
    (p : Byte) :
    write (done ++ (mid ++ old :: blank)) (int done.length + int mid.length) p =
      some (done ++ (mid ++ p :: blank)) := by
  rw [int_add, ← List.append_assoc, ← List.append_assoc]
  exact write_append _ blank old hlt (by simp) p

/-- Four writes side by side. -/
theorem write_four (hlt : done.length + 3 < 2 ^ 31) (p q r s : Byte) :
    ((write (done ++ old :: old₁ :: old₂ :: old₃ :: blank) (int done.length) p).bind fun out =>
      (write out (int done.length + 1) q).bind fun out =>
        (write out (int done.length + 2) r).bind fun out => write out (int done.length + 3) s) =
      some (done ++ p :: q :: r :: s :: blank) := by
  have hfirst := write_append done (old₁ :: old₂ :: old₃ :: blank) old (by omega) rfl p
  rw [hfirst, Option.bind_some]
  have hsecond := write_next done [p] (old₂ :: old₃ :: blank) old₁
    (by simp; omega) q
  have hthird := write_next done [p, q] (old₃ :: blank) old₂
    (by simp; omega) r
  have hfourth := write_next done [p, q, r] blank old₃
    (by simpa using hlt) s
  refine (congrArg (Option.bind · _) hsecond).trans ?_
  exact (congrArg (Option.bind · _) hthird).trans hfourth

/-- One call of `encode3to4` writes the encoding of its one to three bytes. -/
theorem encode3to4_eq (hrest : rest ≠ []) (hsource : front.length + 2 < 2 ^ 31)
    (hout : done.length + 3 < 2 ^ 31) :
    encode3to4 (front ++ rest) (int front.length) (int (min 3 rest.length))
        (done ++ old :: old₁ :: old₂ :: old₃ :: blank) (int done.length) =
      some (done ++ ((encode (rest.take 3)).map asByte ++ blank)) := by
  obtain ⟨v, hv⟩ : ∃ v, v = group (rest.getD 0 0) (rest.getD 1 0) (rest.getD 2 0) := ⟨_, rfl⟩
  have hlt : v < 16777216 := by
    rw [hv]
    exact group_lt _ _ _
  have hsecond : read standardAlphabet (int v >>> 12 &&& 0x3f) = _ := read_sextet hlt 2
  have hthird : read standardAlphabet (int v >>> 6 &&& 0x3f) = _ := read_sextet hlt 1
  unfold encode3to4
  rw [inBuff_eq hsource, ← hv]
  simp only [Option.bind_eq_bind, Option.bind_some, read_first_sextet hlt, hsecond, hthird,
    read_last_sextet hlt]
  rcases rest with _ | ⟨a, _ | ⟨b, _ | ⟨c, tail⟩⟩⟩
  · exact absurd rfl hrest
  · rw [if_neg (c := int (min 3 [a].length) = 3) (show ¬ int 1 = 3 by decide),
      if_neg (c := int (min 3 [a].length) = 2) (show ¬ int 1 = 2 by decide),
      if_pos (c := int (min 3 [a].length) = 1) rfl, hv]
    exact write_four hout _ _ _ _
  · rw [if_neg (c := int (min 3 [a, b].length) = 3) (show ¬ int 2 = 3 by decide),
      if_pos (c := int (min 3 [a, b].length) = 2) rfl, hv]
    exact write_four hout _ _ _ _
  · rw [show min 3 (a :: b :: c :: tail).length = 3 by simp, if_pos (c := int 3 = 3) rfl, hv]
    exact write_four hout _ _ _ _

theorem exists_four {α : Type} {xs : List α} (h : 4 ≤ xs.length) :
    ∃ x x₁ x₂ x₃ tail, xs = x :: x₁ :: x₂ :: x₃ :: tail := by
  rcases xs with _ | ⟨x, _ | ⟨x₁, _ | ⟨x₂, _ | ⟨x₃, tail⟩⟩⟩⟩
  all_goals first
    | exact ⟨x, x₁, x₂, x₃, tail, rfl⟩
    | simp at h

/-- The same where the blank part of the destination is given by its length. -/
theorem encode3to4_blank (front done : List Byte) (hrest : rest ≠ [])
    (hsource : front.length + 2 < 2 ^ 31) (hblank : 4 ≤ blank.length) (hout : done.length + 3 < 2 ^ 31) :
    encode3to4 (front ++ rest) (int front.length) (int (min 3 rest.length)) (done ++ blank)
        (int done.length) =
      some (done ++ ((encode (rest.take 3)).map asByte ++ blank.drop 4)) := by
  obtain ⟨old, old₁, old₂, old₃, tail, rfl⟩ := exists_four hblank
  exact encode3to4_eq hrest hsource hout

/-! ## The loop -/

theorem encodeTail_nil (hsource : front.length < 2 ^ 31) (line : Int32Bits) :
    encodeTail front (int front.length) ⟨int front.length, int done.length, line, done ++ blank⟩ =
      some (int done.length, done ++ blank) := by
  unfold encodeTail
  rw [int_slt hsource hsource]
  simp

theorem encodeTail_short (hrest : rest ≠ []) (hshort : rest.length < 3)
    (hsource : (front ++ rest).length + 2 < 2 ^ 31) (hblank : 4 ≤ blank.length)
    (hout : done.length + 3 < 2 ^ 31) (line : Int32Bits) :
    encodeTail (front ++ rest) (int (front ++ rest).length)
        ⟨int front.length, int done.length, line, done ++ blank⟩ =
      some (int (done.length + 4), done ++ ((encode rest).map asByte ++ blank.drop 4)) := by
  have hpos := List.length_pos_iff.mpr hrest
  rw [List.length_append] at hsource ⊢
  have hsub : int (front.length + rest.length) - int front.length = int (min 3 rest.length) := by
    rw [int_sub (by omega) (by omega)]
    congr 1
    omega
  have hgroup := encode3to4_blank front done hrest (by omega) hblank hout
  rw [List.take_of_length_le (by omega)] at hgroup
  unfold encodeTail
  rw [int_slt (by omega) (by omega), if_pos (by simpa using hpos), hsub, hgroup]
  exact congrArg (fun e => some (e, _)) (int_add done.length 4)

/-- One round of the loop. -/
theorem encodeGroup_eq (front rest done blank : List Byte) (hlong : 3 ≤ rest.length)
    (hsource : front.length + 2 < 2 ^ 31) (hblank : 4 ≤ blank.length)
    (hout : done.length + 3 < 2 ^ 31) (line : Int32Bits) :
    encodeGroup false (front ++ rest) ⟨int front.length, int done.length, line, done ++ blank⟩ =
      some ⟨int (front.length + 3), int (done.length + 4), line + 4,
        done ++ ((encode (rest.take 3)).map asByte ++ blank.drop 4)⟩ := by
  have hrest : rest ≠ [] := List.ne_nil_of_length_pos (by omega)
  have hgroup := encode3to4_blank front done hrest hsource hblank hout
  rw [Nat.min_eq_left hlong] at hgroup
  unfold encodeGroup
  refine (congrArg (Option.bind · _) hgroup).trans ?_
  exact congrArg₂ (fun d e => some (Progress.mk d e _ _)) (int_add front.length 3)
    (int_add done.length 4)

theorem loop_test (front rest : List Byte) (hlen : (front ++ rest).length + 2 < 2 ^ 31) :
    (int front.length).slt (int (front ++ rest).length - 2) = decide (2 < rest.length) := by
  rw [List.length_append] at hlen ⊢
  refine (int_slt_sub (n := 2) (by omega) (by omega) (by omega)).trans ?_
  congr 1
  exact propext (by omega)

theorem encodeLoop_exit (hlen : (front ++ rest).length + 2 < 2 ^ 31) (hshort : rest.length < 3)
    (fuel : ℕ) (line : Int32Bits) :
    encodeLoop false (front ++ rest) (int (front ++ rest).length - 2) (fuel + 1)
        ⟨int front.length, int done.length, line, done ++ blank⟩ =
      some ⟨int front.length, int done.length, line, done ++ blank⟩ := by
  rw [encodeLoop, loop_test front rest hlen, if_neg]
  simpa using Nat.le_of_lt_succ hshort

theorem encode_short_length (hrest : rest ≠ []) (hshort : rest.length ≤ 3) :
    (encode rest).length = 4 := by
  have hpos := List.length_pos_iff.mpr hrest
  rw [encode_length]
  omega

/-- The last round, where one or two bytes are left. -/
theorem encodeLoop_short (hrest : rest ≠ []) (hshort : rest.length < 3)
    (hlen : (front ++ rest).length + 2 < 2 ^ 31) (hblank : (encode rest).length ≤ blank.length)
    (hout : (done ++ blank).length < 2 ^ 31) (fuel : ℕ) (line : Int32Bits) :
    ((encodeLoop false (front ++ rest) (int (front ++ rest).length - 2) (fuel + 1)
        ⟨int front.length, int done.length, line, done ++ blank⟩).bind
      (encodeTail (front ++ rest) (int (front ++ rest).length))) =
      some (int (done.length + (encode rest).length),
        done ++ ((encode rest).map asByte ++ blank.drop (encode rest).length)) := by
  rw [encode_short_length hrest (by omega)] at hblank ⊢
  rw [List.length_append] at hout
  rw [encodeLoop_exit hlen hshort, Option.bind_some]
  exact encodeTail_short hrest hshort hlen hblank (by omega) line

end Group

theorem encode_cons_three (a b c : Byte) (rest : List Byte) :
    encode (a :: b :: c :: rest) = encode [a, b, c] ++ encode rest := by
  simp [encode]

/-- From any round on, the loop and the statements after it append the encoding of the bytes that are
left. -/
theorem encodeLoop_eq {source rest : List Byte} (front done blank : List Byte) (fuel : ℕ)
    (line : Int32Bits)
    (hsource : source = front ++ rest) (hlen : source.length + 2 < 2 ^ 31)
    (hblank : (encode rest).length ≤ blank.length) (hout : (done ++ blank).length < 2 ^ 31)
    (hfuel : rest.length < fuel) :
    ((encodeLoop false source (int source.length - 2) fuel
        ⟨int front.length, int done.length, line, done ++ blank⟩).bind
      (encodeTail source (int source.length))) =
      some (int (done.length + (encode rest).length),
        done ++ ((encode rest).map asByte ++ blank.drop (encode rest).length)) := by
  induction rest using encode.induct generalizing front done blank fuel line with
  | case1 =>
    obtain ⟨fuel, rfl⟩ := Nat.exists_eq_succ_of_ne_zero (Nat.ne_of_gt hfuel)
    subst hsource
    rw [encodeLoop_exit hlen (by simp), Option.bind_some, List.append_nil]
    rw [encodeTail_nil (by simp at hlen; omega)]
    rfl
  | case2 a =>
    obtain ⟨fuel, rfl⟩ := Nat.exists_eq_succ_of_ne_zero (Nat.ne_zero_of_lt hfuel)
    subst hsource
    exact encodeLoop_short (List.cons_ne_nil _ _) (by simp) hlen hblank hout fuel line
  | case3 a b =>
    obtain ⟨fuel, rfl⟩ := Nat.exists_eq_succ_of_ne_zero (Nat.ne_zero_of_lt hfuel)
    subst hsource
    exact encodeLoop_short (List.cons_ne_nil _ _) (by simp) hlen hblank hout fuel line
  | case4 a b c rest ih =>
    obtain ⟨fuel, rfl⟩ := Nat.exists_eq_succ_of_ne_zero (Nat.ne_zero_of_lt hfuel)
    have hfour : (encode [a, b, c]).length = 4 := encode_short_length (List.cons_ne_nil _ _) (by simp)
    rw [encode_cons_three, List.length_append, hfour] at hblank
    rw [List.length_append] at hout
    have htest := loop_test front (a :: b :: c :: rest) (by rwa [← hsource])
    have hfront : front.length + 2 < 2 ^ 31 := by
      rw [hsource] at hlen
      simp at hlen
      omega
    have hround := encodeGroup_eq front (a :: b :: c :: rest) done blank (by simp) hfront (by omega)
      (by omega) line
    rw [← hsource] at htest hround
    have hrest := ih (front ++ [a, b, c]) (done ++ (encode [a, b, c]).map asByte) (blank.drop 4) fuel
      (line + 4) (by simp [hsource]) (by rw [List.length_drop]; omega)
      (by rw [List.length_append, List.length_append, List.length_map, hfour, List.length_drop]; omega)
      (by simp at hfuel; omega)
    rw [List.length_append, List.length_append, List.length_map, hfour, List.append_assoc] at hrest
    rw [encodeLoop, htest, if_pos (by simp), hround, Option.bind_some]
    refine hrest.trans ?_
    rw [encode_cons_three a b c rest, List.length_append, hfour, List.map_append, List.drop_drop,
      Nat.add_assoc, List.append_assoc, List.append_assoc]

/-! ## The whole array -/

theorem bufferLength_int {n : ℕ} (hn : 4 * n < 2 ^ 31) :
    bufferLength false (int n) = int (n * 4 / 3 + if 0 < n % 3 then 4 else 0) := by
  have hfour : int n * 4 = int (n * 4) := int_mul n 4
  have hthird : (int (n * 4)).sdiv 3 = int (n * 4 / 3) := int_sdiv (by omega) (by decide)
  have hmod : (int n).srem 3 = int (n % 3) := int_srem (by omega) (by decide) (by decide)
  have htest : (0 : Int32Bits).slt (int (n % 3)) = decide (0 < n % 3) :=
    int_slt (by decide) (by omega)
  unfold bufferLength
  rw [hfour, hthird, hmod, htest]
  by_cases hpad : 0 < n % 3
  · have hpadded : int (n * 4 / 3) + 4 = int (n * 4 / 3 + 4) := int_add _ 4
    simpa [hpad] using hpadded
  · simp [hpad]

theorem toNat_lt_of_mem_encode {source : List Byte} {c : Char} (h : c ∈ encode source) :
    c.toNat < 128 := by
  have hascii : (alphabet.all fun c => decide (c.toNat < 128)) = true := by decide
  rcases mem_encode source c h with h | rfl
  · exact of_decide_eq_true (List.all_eq_true.mp hascii c h)
  · decide

theorem asByte_toNat {c : Char} (hc : c.toNat < 128) : (asByte c).toNat = c.toNat := by
  unfold asByte
  rw [BitVec.toNat_ofNat]
  omega

theorem newString_eq (chars : List Char) (blank : List Byte) (hascii : ∀ c ∈ chars, c.toNat < 128)
    (hlen : chars.length + blank.length < 2 ^ 31) :
    newString (chars.map asByte ++ blank) (int chars.length) = some (String.ofList chars) := by
  have htake : (chars.map asByte ++ blank).take chars.length = chars.map asByte :=
    List.take_left' (by simp)
  have hback : (chars.map asByte).map (fun b => Char.ofNat b.toNat) = chars := by
    rw [List.map_map]
    refine (List.map_congr_left fun c hc => ?_).trans (List.map_id chars)
    simp [asByte_toNat (hascii c hc)]
  have hall : (chars.map asByte).all (fun b => decide (b.toNat < 128)) = true := by
    rw [List.all_map, List.all_eq_true]
    intro c hc
    simpa [asByte_toNat (hascii c hc)] using hascii c hc
  have hfits : (int (chars.map asByte ++ blank).length).slt (int chars.length) = false := by
    rw [int_slt (by simpa using hlen) (by omega)]
    simp
  unfold newString
  rw [int_not_slt_zero (by omega), hfits, int_toNat (by omega), htake, hall, hback]
  rfl

/-- Up to the construction of the string: `e` and `outBuff`. -/
def fillBuffer (source : List Byte) : Option (Int32Bits × List Byte) := do
  let len := int source.length
  let outBuff ← allocate (bufferLength false len) 0
  let s ← encodeLoop false source (len - 2) (source.length + 1)
    { d := 0, e := 0, lineLength := 0, outBuff := outBuff }
  encodeTail source len s

theorem encodeBytes_eq_bind (source : List Byte) :
    encodeBytes source = (fillBuffer source).bind fun out => newString out.2 out.1 := by
  unfold encodeBytes fillBuffer
  simp only [Option.bind_eq_bind, Option.bind_assoc]

theorem fillBuffer_eq {source : List Byte} (hn : 4 * source.length < 2 ^ 31) :
    ∃ blank, fillBuffer source =
        some (int (encode source).length, (encode source).map asByte ++ blank) ∧
      (encode source).length + blank.length < 2 ^ 31 := by
  obtain ⟨size, hsize⟩ :
      ∃ size, size = source.length * 4 / 3 + if 0 < source.length % 3 then 4 else 0 := ⟨_, rfl⟩
  have hfits : (encode source).length ≤ size := by
    rw [encode_length, hsize]
    split <;> omega
  have hsmall : size < 2 ^ 31 := by
    rw [hsize]
    split <;> omega
  have hloop := encodeLoop_eq [] [] (List.replicate size 0) (source.length + 1) 0
    (List.nil_append source).symm (by omega) (by simpa using hfits)
    (by simpa using hsmall) (by omega)
  rw [List.length_nil, Nat.zero_add] at hloop
  have halloc : allocate (bufferLength false (int source.length)) (0 : Byte) =
      some (List.replicate size 0) := by
    rw [bufferLength_int hn, ← hsize]
    exact allocate_int hsmall 0
  refine ⟨(List.replicate size 0).drop (encode source).length, ?_, ?_⟩
  · unfold fillBuffer
    simp only [Option.bind_eq_bind, halloc, Option.bind_some]
    exact hloop
  · rw [List.length_drop, List.length_replicate]
    omega

theorem encodeBytes_eq {source : List Byte} (hn : 4 * source.length < 2 ^ 31) :
    encodeBytes source = some (String.ofList (encode source)) := by
  obtain ⟨blank, hfill, hlen⟩ := fillBuffer_eq hn
  rw [encodeBytes_eq_bind, hfill]
  exact newString_eq (encode source) blank (fun c hc => toNat_lt_of_mem_encode hc) hlen

/-- `encodeBytes` never leaves an array, never runs out of rounds, and returns the padded encoding, which
the decoder reads back. -/
theorem encodeBytes_base64 (source : List Byte) (hn : 4 * source.length < 2 ^ 31) :
    ∃ s, encodeBytes source = some s ∧ s.toList = encode source ∧
      s.toList.length = 4 * ((source.length + 2) / 3) ∧
      (∀ c ∈ s.toList, c ∈ alphabet ∨ c = '=') ∧ decode s.toList = some source := by
  refine ⟨String.ofList (encode source), encodeBytes_eq hn, String.toList_ofList, ?_, ?_, ?_⟩
  · rw [String.toList_ofList, encode_length]
  · rw [String.toList_ofList]
    exact mem_encode source
  · rw [String.toList_ofList, decode_encode]

theorem fourBytes_base64 : ∃ s, encodeBytes [0xde, 0xad, 0xbe, 0xef] = some s ∧
    s.toList = encode [0xde, 0xad, 0xbe, 0xef] ∧ s.toList.length = 8 ∧
      (∀ c ∈ s.toList, c ∈ alphabet ∨ c = '=') ∧
        decode s.toList = some [0xde, 0xad, 0xbe, 0xef] :=
  encodeBytes_base64 [0xde, 0xad, 0xbe, 0xef] (by decide)

end Auth8.Security
