import Mathlib.Algebra.Group.Nat.Defs
import Mathlib.Data.List.GetD
import Mathlib.Tactic.Common

/-! # Bytes in big-endian words

A list of bytes read as words of 32 bits, four bytes to a word and the first one highest; missing bytes
are zero. -/
namespace BigEndian
set_option autoImplicit false

abbrev Byte := BitVec 8

abbrev Word := BitVec 32

def word (a b c d : Byte) : Word := a ++ b ++ c ++ d

/-- The `i`-th byte of a word, from the left. -/
def byteOf (w : Word) (i : ℕ) : Byte := (w >>> (24 - 8 * i)).setWidth 8

/-- The `i`-th word of a list of bytes. -/
def wordAt (bytes : List Byte) (i : ℕ) : Word :=
  word (bytes.getD (4 * i) 0) (bytes.getD (4 * i + 1) 0) (bytes.getD (4 * i + 2) 0)
    (bytes.getD (4 * i + 3) 0)

def wordsOf (bytes : List Byte) : List Word :=
  (List.range ((bytes.length + 3) / 4)).map (wordAt bytes)

def bytesOf (words : List Word) : List Byte :=
  words.flatMap fun w => [byteOf w 0, byteOf w 1, byteOf w 2, byteOf w 3]

/-! ## One word -/

theorem word_toNat (a b c d : Byte) :
    (word a b c d).toNat = a.toNat * 2 ^ 24 + b.toNat * 2 ^ 16 + c.toNat * 2 ^ 8 + d.toNat := by
  have hb := b.isLt
  have hc := c.isLt
  have hd := d.isLt
  have hfirst := Nat.shiftLeft_add_eq_or_of_lt hb a.toNat
  have hsecond := Nat.shiftLeft_add_eq_or_of_lt hc (a.toNat <<< 8 ||| b.toNat)
  have hthird := Nat.shiftLeft_add_eq_or_of_lt hd ((a.toNat <<< 8 ||| b.toNat) <<< 8 ||| c.toNat)
  unfold word
  rw [BitVec.toNat_append, BitVec.toNat_append, BitVec.toNat_append, ← hthird, ← hsecond, ← hfirst,
    Nat.shiftLeft_eq, Nat.shiftLeft_eq, Nat.shiftLeft_eq]
  omega

theorem word_xor (a b c d a' b' c' d' : Byte) :
    word a b c d ^^^ word a' b' c' d' = word (a ^^^ a') (b ^^^ b') (c ^^^ c') (d ^^^ d') := by
  unfold word
  rw [BitVec.xor_append, BitVec.xor_append, BitVec.xor_append]

theorem word_or (a b c d a' b' c' d' : Byte) :
    word a b c d ||| word a' b' c' d' = word (a ||| a') (b ||| b') (c ||| c') (d ||| d') := by
  unfold word
  rw [BitVec.or_append, BitVec.or_append, BitVec.or_append]

theorem word_and (a b c d a' b' c' d' : Byte) :
    word a b c d &&& word a' b' c' d' = word (a &&& a') (b &&& b') (c &&& c') (d &&& d') := by
  unfold word
  rw [BitVec.and_append, BitVec.and_append, BitVec.and_append]

theorem byteOf_toNat (w : Word) (i : ℕ) : (byteOf w i).toNat = w.toNat / 2 ^ (24 - 8 * i) % 256 := by
  unfold byteOf
  rw [BitVec.toNat_setWidth, BitVec.toNat_ushiftRight, Nat.shiftRight_eq_div_pow]

theorem byteOf_word_zero (a b c d : Byte) : byteOf (word a b c d) 0 = a := by
  have ha := a.isLt
  have hb := b.isLt
  have hc := c.isLt
  have hd := d.isLt
  apply BitVec.eq_of_toNat_eq
  rw [byteOf_toNat, word_toNat]
  omega

theorem byteOf_word_one (a b c d : Byte) : byteOf (word a b c d) 1 = b := by
  have hb := b.isLt
  have hc := c.isLt
  have hd := d.isLt
  apply BitVec.eq_of_toNat_eq
  rw [byteOf_toNat, word_toNat]
  omega

theorem byteOf_word_two (a b c d : Byte) : byteOf (word a b c d) 2 = c := by
  have hc := c.isLt
  have hd := d.isLt
  apply BitVec.eq_of_toNat_eq
  rw [byteOf_toNat, word_toNat]
  omega

theorem byteOf_word_three (a b c d : Byte) : byteOf (word a b c d) 3 = d := by
  have hd := d.isLt
  apply BitVec.eq_of_toNat_eq
  rw [byteOf_toNat, word_toNat]
  omega

theorem word_byteOf (w : Word) : word (byteOf w 0) (byteOf w 1) (byteOf w 2) (byteOf w 3) = w := by
  have hw := w.isLt
  apply BitVec.eq_of_toNat_eq
  rw [word_toNat, byteOf_toNat, byteOf_toNat, byteOf_toNat, byteOf_toNat]
  omega

@[simp] theorem word_zero : word 0 0 0 0 = 0 := by decide

/-! ## Lists -/

theorem ext_getD {α : Type} (zero : α) {xs ys : List α} (hlen : xs.length = ys.length)
    (h : ∀ i < xs.length, xs.getD i zero = ys.getD i zero) : xs = ys := by
  refine List.ext_getElem hlen fun i hi hi' => ?_
  have hget := h i hi
  rwa [List.getD_eq_getElem _ _ hi, List.getD_eq_getElem _ _ hi'] at hget

theorem wordAt_of_le {bytes : List Byte} {i : ℕ} (h : bytes.length ≤ 4 * i) : wordAt bytes i = 0 := by
  unfold wordAt
  rw [List.getD_eq_default _ _ h, List.getD_eq_default _ _ (by omega),
    List.getD_eq_default _ _ (by omega), List.getD_eq_default _ _ (by omega), word_zero]

@[simp] theorem wordsOf_length (bytes : List Byte) :
    (wordsOf bytes).length = (bytes.length + 3) / 4 := by
  simp [wordsOf]

theorem wordsOf_getD (bytes : List Byte) (i : ℕ) : (wordsOf bytes).getD i 0 = wordAt bytes i := by
  by_cases hi : i < (bytes.length + 3) / 4
  · rw [List.getD_eq_getElem _ _ (by simpa using hi)]
    simp [wordsOf]
  · rw [List.getD_eq_default _ _ (by simpa using hi), wordAt_of_le (by omega)]

@[simp] theorem bytesOf_length (words : List Word) : (bytesOf words).length = 4 * words.length := by
  induction words with
  | nil => rfl
  | cons w words ih =>
    rw [bytesOf, List.flatMap_cons, List.length_append, ← bytesOf, ih]
    simp
    omega

theorem bytesOf_cons (w : Word) (words : List Word) :
    bytesOf (w :: words) = byteOf w 0 :: byteOf w 1 :: byteOf w 2 :: byteOf w 3 :: bytesOf words := rfl

theorem wordAt_cons_zero (a b c d : Byte) (bytes : List Byte) :
    wordAt (a :: b :: c :: d :: bytes) 0 = word a b c d := rfl

theorem wordAt_cons_succ (a b c d : Byte) (bytes : List Byte) (i : ℕ) :
    wordAt (a :: b :: c :: d :: bytes) (i + 1) = wordAt bytes i := by
  unfold wordAt
  rfl

theorem wordAt_bytesOf (words : List Word) (i : ℕ) : wordAt (bytesOf words) i = words.getD i 0 := by
  induction words generalizing i with
  | nil => rw [wordAt_of_le (by simp [bytesOf]), List.getD_nil]
  | cons w words ih =>
    cases i with
    | zero => rw [bytesOf_cons, wordAt_cons_zero, word_byteOf, List.getD_cons_zero]
    | succ i => rw [bytesOf_cons, wordAt_cons_succ, ih, List.getD_cons_succ]

theorem wordsOf_bytesOf (words : List Word) : wordsOf (bytesOf words) = words := by
  refine ext_getD 0 (by simp; omega) fun i _ => ?_
  rw [wordsOf_getD, wordAt_bytesOf]

theorem byteOf_wordAt (bytes : List Byte) (i : ℕ) :
    byteOf (wordAt bytes (i / 4)) (i % 4) = bytes.getD i 0 := by
  have hcases : i % 4 = 0 ∨ i % 4 = 1 ∨ i % 4 = 2 ∨ i % 4 = 3 := by omega
  unfold wordAt
  obtain h | h | h | h := hcases
  · rw [h, byteOf_word_zero, show 4 * (i / 4) = i by omega]
  · rw [h, byteOf_word_one, show 4 * (i / 4) + 1 = i by omega]
  · rw [h, byteOf_word_two, show 4 * (i / 4) + 2 = i by omega]
  · rw [h, byteOf_word_three, show 4 * (i / 4) + 3 = i by omega]

theorem wordsOf_injective {xs ys : List Byte} (hlen : xs.length = ys.length)
    (h : wordsOf xs = wordsOf ys) : xs = ys := by
  refine ext_getD 0 hlen fun i _ => ?_
  rw [← byteOf_wordAt, ← byteOf_wordAt, ← wordsOf_getD, ← wordsOf_getD, h]

/-- A first part of whole words is read by itself. -/
theorem wordAt_append {front : List Byte} {n : ℕ} (hfront : front.length = 4 * n) (rest : List Byte)
    (i : ℕ) : wordAt (front ++ rest) (n + i) = wordAt rest i := by
  unfold wordAt
  rw [List.getD_append_right _ _ _ _ (by omega), List.getD_append_right _ _ _ _ (by omega),
    List.getD_append_right _ _ _ _ (by omega), List.getD_append_right _ _ _ _ (by omega)]
  congr 2 <;> omega

theorem wordAt_append_left {front : List Byte} {i : ℕ} (hi : 4 * i + 3 < front.length)
    (rest : List Byte) : wordAt (front ++ rest) i = wordAt front i := by
  unfold wordAt
  rw [List.getD_append _ _ _ _ (by omega), List.getD_append _ _ _ _ (by omega),
    List.getD_append _ _ _ _ (by omega), List.getD_append _ _ _ _ (by omega)]

theorem wordsOf_append {front : List Byte} {n : ℕ} (hfront : front.length = 4 * n) (rest : List Byte) :
    wordsOf (front ++ rest) = wordsOf front ++ wordsOf rest := by
  refine ext_getD 0 (by simp; omega) fun i _ => ?_
  rw [wordsOf_getD]
  by_cases hi : i < n
  · rw [List.getD_append _ _ _ _ (by simp; omega), wordsOf_getD, wordAt_append_left (by omega)]
  · obtain ⟨j, rfl⟩ := Nat.exists_eq_add_of_le (Nat.le_of_not_lt hi)
    rw [List.getD_append_right _ _ _ _ (by simp; omega), wordsOf_getD, wordAt_append hfront]
    congr 1
    simp
    omega

/-! ## One more byte -/

/-- A byte of a word, shifted into its place. -/
def placed (x : Byte) (i : ℕ) : Word := x.setWidth 32 <<< (24 - 8 * i)

theorem placed_eq_word (x : Byte) :
    placed x 0 = word x 0 0 0 ∧ placed x 1 = word 0 x 0 0 ∧ placed x 2 = word 0 0 x 0 ∧
      placed x 3 = word 0 0 0 x := by
  have hx := x.isLt
  refine ⟨?_, ?_, ?_, ?_⟩
  all_goals
    apply BitVec.eq_of_toNat_eq
    rw [word_toNat, placed, BitVec.toNat_shiftLeft, Nat.shiftLeft_eq, BitVec.toNat_setWidth]
    simp
    omega

/-- One more byte falls into the word of its place and leaves the others as they are. -/
theorem wordAt_concat (bytes : List Byte) (x : Byte) (j : ℕ) :
    wordAt (bytes ++ [x]) j =
      if j = bytes.length / 4 then wordAt bytes j ||| placed x (bytes.length % 4)
      else wordAt bytes j := by
  obtain ⟨hfirst, hsecond, hthird, hfourth⟩ := placed_eq_word x
  have hget : ∀ i, (bytes ++ [x]).getD i 0 = if i = bytes.length then x else bytes.getD i 0 := by
    intro i
    by_cases hi : i < bytes.length
    · rw [List.getD_append _ _ _ _ hi, if_neg (by omega)]
    · rw [List.getD_append_right _ _ _ _ (by omega), List.getD_eq_default bytes _ (by omega)]
      by_cases heq : i = bytes.length
      · rw [if_pos heq, heq, Nat.sub_self, List.getD_cons_zero]
      · rw [if_neg heq, List.getD_eq_default _ _ (by simp; omega)]
  by_cases hj : j = bytes.length / 4
  · rw [if_pos hj]
    unfold wordAt
    simp only [hget]
    have hend : ∀ i, bytes.length ≤ i → bytes.getD i 0 = 0 := fun i hi => List.getD_eq_default _ _ hi
    have hcases : bytes.length % 4 = 0 ∨ bytes.length % 4 = 1 ∨ bytes.length % 4 = 2 ∨
      bytes.length % 4 = 3 := by omega
    obtain h | h | h | h := hcases
    · rw [h, hfirst, word_or, if_pos (by omega), if_neg (by omega), if_neg (by omega),
        if_neg (by omega), hend _ (by omega), hend _ (by omega), hend _ (by omega), hend _ (by omega)]
      simp
    · rw [h, hsecond, word_or, if_neg (by omega), if_pos (by omega), if_neg (by omega),
        if_neg (by omega), hend (4 * j + 1) (by omega), hend (4 * j + 2) (by omega),
        hend (4 * j + 3) (by omega)]
      simp
    · rw [h, hthird, word_or, if_neg (by omega), if_neg (by omega), if_pos (by omega),
        if_neg (by omega), hend (4 * j + 2) (by omega), hend (4 * j + 3) (by omega)]
      simp
    · rw [h, hfourth, word_or, if_neg (by omega), if_neg (by omega), if_neg (by omega),
        if_pos (by omega), hend (4 * j + 3) (by omega)]
      simp
  · rw [if_neg hj]
    unfold wordAt
    rw [hget, hget, hget, hget, if_neg (by omega), if_neg (by omega), if_neg (by omega),
      if_neg (by omega)]

end BigEndian
