import Auth8.Foundations.Sha1
import Auth8.Playground.JsSha

/-! # `s` is SHA-1

The additions by halves are the addition of words, the two loops are the rounds of the standard, and the
two assignments at the head of `s` pad the message. -/
namespace Auth8.Playground.JsSha
open BigEndian JsArray Sha1
set_option autoImplicit false

/-! ## Words -/

theorem and_low_toNat (x : Word) : (x &&& 65535).toNat = x.toNat % 65536 := by
  rw [BitVec.toNat_and]
  exact Nat.and_two_pow_sub_one_eq_mod x.toNat 16

theorem shiftRight_half_toNat (x : Word) : (x >>> 16).toNat = x.toNat / 65536 := by
  rw [BitVec.toNat_ushiftRight, Nat.shiftRight_eq_div_pow]

/-- A high half and a low half, put together. -/
theorem halves (high low : Word) :
    (((high &&& 65535) <<< 16 ||| (low &&& 65535) : Word)).toNat =
      high.toNat % 65536 * 65536 + low.toNat % 65536 := by
  have hlow : low.toNat % 65536 < 2 ^ 16 := Nat.mod_lt _ (by decide)
  have hshift : ((high &&& 65535) <<< 16).toNat = (high.toNat % 65536) <<< 16 := by
    rw [BitVec.toNat_shiftLeft, and_low_toNat, Nat.shiftLeft_eq]
    omega
  rw [BitVec.toNat_or, hshift, and_low_toNat, ← Nat.shiftLeft_add_eq_or_of_lt hlow, Nat.shiftLeft_eq]

theorem r_eq (a f : Word) : r a f = a + f := by
  have ha := a.isLt
  have hf := f.isLt
  apply BitVec.eq_of_toNat_eq
  simp only [r, halves, BitVec.toNat_add, shiftRight_half_toNat, and_low_toNat]
  omega

theorem t_eq (a f b e c : Word) : t a f b e c = a + f + b + e + c := by
  have ha := a.isLt
  have hf := f.isLt
  have hb := b.isLt
  have he := e.isLt
  have hc := c.isLt
  apply BitVec.eq_of_toNat_eq
  simp only [t, halves, BitVec.toNat_add, shiftRight_half_toNat, and_low_toNat]
  omega

theorem q_eq (a : Word) {f : ℕ} (hf : f < 32) : q a f = a.rotateLeft f := by
  rw [q, BitVec.rotateLeft_def, Nat.mod_eq_of_lt hf]

/-! ## One block -/

/-- The block from the `u`-th word on. -/
def blockAt (a : List Word) (u t : ℕ) : Word := a.getD (t + u) 0

def Locals.state (l : Locals) : State := ⟨l.e, l.c, l.d, l.g, l.m⟩

/-- The entries of `b` below `k` are those of the message schedule. -/
def Scheduled (a : List Word) (u k : ℕ) (b : List Word) : Prop :=
  ∀ i < k, b.getD i 0 = (schedulePrefix (blockAt a u) 80).getD i 0

theorem inner_b (a : List Word) (u : ℕ) {k : ℕ} (l : Locals) (hk : k < 80)
    (h : Scheduled a u k l.b) : Scheduled a u (k + 1) (inner a u k l).b := by
  intro i hi
  simp only [inner, store_getD]
  by_cases hik : i = k
  · rw [if_pos hik, hik, schedulePrefix_last _ hk]
    by_cases h16 : k < 16
    · rw [if_pos h16, if_pos h16]
      rfl
    · rw [if_neg h16, if_neg h16, h _ (by omega), h _ (by omega), h _ (by omega), h _ (by omega),
        q_eq _ (by decide)]
  · rw [if_neg hik, h i (by omega)]

theorem inner_state (a : List Word) (u k : ℕ) (l : Locals) :
    (inner a u k l).state = Sha1.round k ((inner a u k l).b.getD k 0) l.state := by
  have hb : (inner a u k l).b.getD k 0 = if k < 16 then a.getD (k + u) 0
      else q (l.b.getD (k - 3) 0 ^^^ l.b.getD (k - 8) 0 ^^^ l.b.getD (k - 14) 0 ^^^
        l.b.getD (k - 16) 0) 1 := by
    simp only [inner, store_getD_self]
  rw [hb]
  simp only [inner, Locals.state, Sha1.round, store_getD_self, q_eq _ (show 5 < 32 by decide),
    q_eq _ (show 30 < 32 by decide), t_eq, roundFunction, roundConstant]
  by_cases h20 : k < 20
  · simp only [if_pos h20]
    rfl
  · by_cases h40 : k < 40
    · simp only [if_neg h20, if_pos h40]
      rfl
    · by_cases h60 : k < 60
      · simp only [if_neg h20, if_neg h40, if_pos h60]
        rfl
      · simp only [if_neg h20, if_neg h40, if_neg h60]
        rfl

/-- After `k` rounds `b` holds the schedule so far, and the other variables are those of the standard. -/
theorem innerLoop_eq (a : List Word) (u : ℕ) (l : Locals) {k : ℕ} (hk : k ≤ 80) :
    Scheduled a u k (innerLoop a u l k).b ∧
      (innerLoop a u l k).state =
        rounds (fun t => (schedulePrefix (blockAt a u) 80).getD t 0) l.state k := by
  induction k with
  | zero => exact ⟨fun i hi => absurd hi (Nat.not_lt_zero i), rfl⟩
  | succ k ih =>
    obtain ⟨hb, hstate⟩ := ih (by omega)
    have hnext := inner_b a u _ (by omega) hb
    refine ⟨hnext, ?_⟩
    rw [innerLoop, inner_state, hnext k (Nat.lt_succ_self k), hstate]
    rfl

theorem outer_eq (a : List Word) (u : ℕ) (h : State) (b : List Word) :
    (outer a u (h.words, b)).1 = (compress (blockAt a u) h).words := by
  have hcompress : compress (blockAt a u) h =
      (innerLoop a u ⟨b, h.a, h.b, h.c, h.d, h.e⟩ 80).state.add h := by
    rw [(innerLoop_eq a u _ (Nat.le_refl 80)).2]
    rfl
  rw [hcompress]
  simp only [outer, State.words, List.getD_cons_zero, List.getD_cons_succ, r_eq, State.add,
    Locals.state]

theorem outerLoop_eq (a : List Word) (n : ℕ) :
    (outerLoop a (State.init.words, []) n).1 =
      (hashBlocks (fun t => a.getD t 0) n).words := by
  induction n with
  | zero => rfl
  | succ n ih =>
    have hpair : outerLoop a (State.init.words, []) n =
        ((hashBlocks (fun t => a.getD t 0) n).words, (outerLoop a (State.init.words, []) n).2) :=
      Prod.ext ih rfl
    have hblock : blockAt a (16 * n) = fun t => a.getD (16 * n + t) 0 := by
      funext t
      rw [blockAt, Nat.add_comm]
    rw [outerLoop, hpair, outer_eq, hblock]
    rfl

/-! ## Packed bytes -/

/-- A byte put at the end of an array of packed bytes. -/
theorem put_wordsOf (bytes : List Byte) (x : Byte) (hlen : bytes.length < 4294967296) :
    put (wordsOf bytes, bytes.length) (x.setWidth 32) =
      (wordsOf (bytes ++ [x]), (bytes ++ [x]).length) := by
  have hindex : ushr bytes.length 2 = bytes.length / 4 := by
    unfold ushr
    omega
  have hshift : shl (x.setWidth 32) (24 - (bytes.length % 4 * 8 : ℕ)) =
      placed x (bytes.length % 4) := by
    unfold shl placed
    congr 1
    omega
  refine Prod.ext ?_ (by rw [put, List.length_append, List.length_singleton])
  refine ext_getD 0 ?_ fun j _ => ?_
  · simp only [put, hindex, store_length, wordsOf_length, List.length_append, List.length_singleton]
    omega
  · simp only [put, hindex, hshift, store_getD, wordsOf_getD, wordAt_concat]
    by_cases hj : j = bytes.length / 4
    · rw [if_pos hj, if_pos hj, hj]
    · rw [if_neg hj, if_neg hj]

/-! ## The padded message -/

/-- The message, its end marker and the zeros, without the length. -/
def marked (bytes : List Byte) : List Byte :=
  bytes ++ 0x80 :: List.replicate (zeros bytes.length) 0

theorem pad_eq (bytes : List Byte) : pad bytes = marked bytes ++ lengthBytes bytes.length := by
  simp [pad, marked]

theorem marked_length (bytes : List Byte) :
    (marked bytes).length = 4 * (16 * ((bytes.length + 8) / 64) + 14) := by
  have hpad := pad_length_eq bytes
  rw [pad_eq, List.length_append, lengthBytes_length] at hpad
  omega

theorem marked_wordAt (bytes : List Byte) (j : ℕ) :
    wordAt (marked bytes) j = wordAt (bytes ++ [0x80]) j := by
  have hmarked : marked bytes = (bytes ++ [0x80]) ++ List.replicate (zeros bytes.length) 0 := by
    simp [marked]
  unfold wordAt
  simp only [hmarked, getD_append_replicate]

theorem lengthBytes_words {length : ℕ} (hlen : 8 * length < 4294967296) :
    wordAt (lengthBytes length) 0 = 0 ∧
      wordAt (lengthBytes length) 1 = BitVec.ofNat 32 (8 * length) := by
  constructor
  · apply BitVec.eq_of_toNat_eq
    simp [wordAt, lengthBytes, List.range_succ, word_toNat]
    omega
  · apply BitVec.eq_of_toNat_eq
    simp [wordAt, lengthBytes, List.range_succ, word_toNat]
    omega

/-- The array that the loops of `s` read is that of the padded message. -/
theorem padded_eq (bytes : List Byte) (hlen : 8 * bytes.length + 65 < 4294967296) :
    padded (wordsOf bytes) (8 * bytes.length) = wordsOf (pad bytes) := by
  have hindex : ushr (8 * bytes.length) 5 = ushr bytes.length 2 := by
    unfold ushr
    omega
  have hshift : 8 * bytes.length % 32 = bytes.length % 4 * 8 := by omega
  have hlast : ushr (8 * bytes.length + 65) 9 * 16 + 15 = 16 * ((bytes.length + 8) / 64) + 15 := by
    unfold ushr
    omega
  have hmarker : store 0 (wordsOf bytes) (ushr (8 * bytes.length) 5)
      ((wordsOf bytes).getD (ushr (8 * bytes.length) 5) 0 |||
        shl 128 (24 - (8 * bytes.length % 32 : ℕ))) = wordsOf (bytes ++ [0x80]) := by
    rw [hindex, hshift]
    exact congrArg Prod.fst (put_wordsOf bytes 0x80 (by omega))
  have hmarked := marked_length bytes
  have hpad := pad_length_eq bytes
  simp only [padded, hmarker, hlast]
  refine ext_getD 0 ?_ fun j hj => ?_
  · rw [store_length, wordsOf_length, wordsOf_length, List.length_append, List.length_singleton, hpad]
    omega
  · have hlength := lengthBytes_words (show 8 * bytes.length < 4294967296 by omega)
    rw [store_length, wordsOf_length, List.length_append, List.length_singleton] at hj
    rw [store_getD, wordsOf_getD, wordsOf_getD, pad_eq]
    by_cases hfront : j < 16 * ((bytes.length + 8) / 64) + 14
    · rw [if_neg (by omega), ← marked_wordAt, wordAt_append_left (by omega)]
    · by_cases hhigh : j = 16 * ((bytes.length + 8) / 64) + 14
      · have hzero := wordAt_append hmarked (lengthBytes bytes.length) 0
        rw [Nat.add_zero, ← hhigh, hlength.1] at hzero
        rw [if_neg (by omega), hzero, wordAt_of_le]
        rw [List.length_append, List.length_singleton]
        omega
      · have hlow := wordAt_append hmarked (lengthBytes bytes.length) 1
        rw [show 16 * ((bytes.length + 8) / 64) + 14 + 1 = j by omega, hlength.2] at hlow
        rw [if_pos (by omega), hlow]

/-- On a packed message whose length in bits, and the padding, fit 32 bits, `s` is SHA-1. -/
theorem s_eq (bytes : List Byte) (hlen : 8 * bytes.length + 65 < 4294967296) :
    s (wordsOf bytes) (8 * bytes.length) = (hashWords bytes).words := by
  have hblocks : ((wordsOf (pad bytes)).length + 15) / 16 = (pad bytes).length / 64 := by
    rw [wordsOf_length, pad_length_eq]
    omega
  have hread : (fun t => (wordsOf (pad bytes)).getD t 0) = wordAt (pad bytes) := by
    funext t
    rw [wordsOf_getD]
  unfold s hashWords
  simp only [padded_eq bytes hlen, hblocks]
  rw [← hread]
  exact outerLoop_eq (wordsOf (pad bytes)) ((pad bytes).length / 64)

end Auth8.Playground.JsSha
