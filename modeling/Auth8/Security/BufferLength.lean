import Auth8.Security.EncodeBytes

/-! # The length of the buffer of `encodeBytes`

The product `len * 4` is a wrapping int: from `2 ^ 29` bytes on the length of `outBuff` is negative or too
small, although the encoding would still fit in an array. -/
namespace Auth8.Security
open Base64 JavaArray
set_option autoImplicit false

/-- The length of `outBuff` is no negative number and leaves room for the padded encoding. -/
def SizesBuffer (len : ℕ) : Prop :=
  0 ≤ (bufferLength false (int len)).toInt ∧
    ((4 * ((len + 2) / 3) : ℕ) : ℤ) ≤ (bufferLength false (int len)).toInt

instance (len : ℕ) : Decidable (SizesBuffer len) :=
  inferInstanceAs (Decidable (_ ∧ _))

/-! ## The length as a number -/

theorem padding_toInt {len : ℕ} (hlen : len < 2 ^ 31) :
    (if (0 : Int32Bits).slt ((int len).srem 3) then (4 : Int32Bits) else 0).toInt =
      if 0 < len % 3 then 4 else 0 := by
  have hmod : (int len).srem 3 = int (len % 3) := int_srem hlen (by decide) (by decide)
  have htest : (0 : Int32Bits).slt (int (len % 3)) = decide (0 < len % 3) :=
    int_slt (by decide) (by omega)
  rw [hmod, htest]
  by_cases hpad : 0 < len % 3
  · rw [if_pos hpad, if_pos (by simpa using hpad)]
    rfl
  · rw [if_neg hpad, if_neg (by simpa using hpad)]
    rfl

/-- Rounding towards zero moves the product by at most two. -/
theorem three_mul_tdiv (x : ℤ) : x - 2 ≤ 3 * x.tdiv 3 ∧ 3 * x.tdiv 3 ≤ x + 2 := by
  rcases Int.le_total 0 x with hx | hx
  · rw [Int.tdiv_eq_ediv_of_nonneg hx]
    omega
  · obtain ⟨y, rfl⟩ : ∃ y, x = -y := ⟨-x, (Int.neg_neg x).symm⟩
    rw [Int.neg_tdiv, Int.tdiv_eq_ediv_of_nonneg (by omega)]
    omega

theorem bufferLength_toInt {len : ℕ} (hlen : len < 2 ^ 31) :
    (bufferLength false (int len)).toInt =
      (((len * 4 : ℕ) : ℤ).bmod (2 ^ 32)).tdiv 3 + if 0 < len % 3 then 4 else 0 := by
  have hsum : bufferLength false (int len) = (int len * 4).sdiv 3 +
      if (0 : Int32Bits).slt ((int len).srem 3) then 4 else 0 := BitVec.add_zero _
  have hfour : (int len * 4).toInt = _ := toInt_int_mul len 4
  have hthird : ((int len * 4).sdiv 3).toInt = (int len * 4).toInt.tdiv 3 :=
    toInt_sdiv_int (int len * 4) (n := 3) (by decide)
  obtain ⟨hlow, hhigh⟩ := three_mul_tdiv (int len * 4).toInt
  have hword := BitVec.le_toInt (int len * 4)
  have hword' := BitVec.toInt_lt (x := int len * 4)
  rw [← hthird] at hlow hhigh
  have hpad := padding_toInt hlen
  rw [← hfour, ← hpad, ← hthird, hsum]
  apply toInt_add_eq
  · rw [hpad]
    split <;> omega
  · rw [hpad]
    split <;> omega

/-- Where the encoding still fits in an array, the product wraps at most once. -/
theorem wrapped_product {len : ℕ} (hlarge : 2 ^ 31 ≤ 4 * len) (hfits : 4 * len < 2 ^ 32 + 2 ^ 31) :
    ((len * 4 : ℕ) : ℤ).bmod (2 ^ 32) = 4 * len - 2 ^ 32 := by
  have honce : ((len * 4 : ℕ) : ℤ) = 4 * len - 2 ^ 32 + (2 ^ 32 : ℕ) := by omega
  rw [honce, Int.add_bmod_right]
  exact Int.bmod_eq_of_le (by omega) (by omega)

theorem sizesBuffer_of_small {len : ℕ} (hlen : 4 * len < 2 ^ 31) : SizesBuffer len := by
  have hsmall : len * 4 / 3 + (if 0 < len % 3 then 4 else 0) < 2 ^ 31 := by
    split <;> omega
  unfold SizesBuffer
  rw [bufferLength_int hlen, int_toInt hsmall]
  refine ⟨Int.natCast_nonneg _, Int.ofNat_le.mpr ?_⟩
  split <;> omega

/-- Once the product has wrapped, a third of it is short by more than the padding. -/
theorem not_sizesBuffer {len : ℕ} (hlarge : 2 ^ 31 ≤ 4 * len)
    (hfits : 4 * ((len + 2) / 3) ≤ 2 ^ 31 - 1) : ¬ SizesBuffer len := by
  rintro ⟨hnonneg, hroom⟩
  obtain ⟨-, hthird⟩ := three_mul_tdiv (4 * len - 2 ^ 32)
  rw [bufferLength_toInt (by omega), wrapped_product hlarge (by omega)] at hnonneg hroom
  split at hroom <;> omega

theorem sizesBuffer_iff {len : ℕ} (hfits : 4 * ((len + 2) / 3) ≤ 2 ^ 31 - 1) :
    SizesBuffer len ↔ 4 * len < 2 ^ 31 := by
  constructor
  · intro h
    by_contra hlarge
    exact not_sizesBuffer (Nat.le_of_not_lt hlarge) hfits h
  · exact sizesBuffer_of_small

/-! ## What the writes need -/

section Writes

variable {source destination out : List Byte}

theorem four_writes_fit {out₁ out₂ out₃ : List Byte} {j k : Int32Bits} {p q r t : Byte} {i : ℕ}
    (hi : i + 3 < 2 ^ 31) (hfirst : write destination (int i) p = some out₁)
    (hsecond : write out₁ j q = some out₂) (hthird : write out₂ k r = some out₃)
    (hfourth : write out₃ (int i + 3) t = some out) :
    out.length = destination.length ∧ i + 3 < destination.length := by
  have hlast : int i + 3 = int (i + 3) := int_add i 3
  rw [hlast] at hfourth
  have hlt := lt_of_write hi hfourth
  have hkept : out₃.length = destination.length := by
    rw [length_of_write hthird, length_of_write hsecond, length_of_write hfirst]
  rw [hkept] at hlt
  exact ⟨(length_of_write hfourth).trans hkept, hlt⟩

/-- A group that is written fits in the destination. -/
theorem encode3to4_fits {srcOffset numSigBytes : Int32Bits} {i : ℕ} (hi : i + 3 < 2 ^ 31)
    (hbytes : numSigBytes = 3 ∨ numSigBytes = 2 ∨ numSigBytes = 1)
    (h : encode3to4 source srcOffset numSigBytes destination (int i) = some out) :
    out.length = destination.length ∧ i + 3 < destination.length := by
  unfold encode3to4 at h
  obtain ⟨_, -, h⟩ := Option.bind_eq_some_iff.mp h
  rcases hbytes with rfl | rfl | rfl
  · rw [if_pos rfl] at h
    simp only [Option.bind_eq_bind, Option.bind_eq_some_iff] at h
    obtain ⟨_, -, _, hfirst, _, -, _, hsecond, _, -, _, hthird, _, -, hfourth⟩ := h
    exact four_writes_fit hi hfirst hsecond hthird hfourth
  · rw [if_neg (by decide), if_pos rfl] at h
    simp only [Option.bind_eq_bind, Option.bind_eq_some_iff] at h
    obtain ⟨_, -, _, hfirst, _, -, _, hsecond, _, -, _, hthird, hfourth⟩ := h
    exact four_writes_fit hi hfirst hsecond hthird hfourth
  · rw [if_neg (by decide), if_neg (by decide), if_pos rfl] at h
    simp only [Option.bind_eq_bind, Option.bind_eq_some_iff] at h
    obtain ⟨_, -, _, hfirst, _, -, _, hsecond, _, hthird, hfourth⟩ := h
    exact four_writes_fit hi hfirst hsecond hthird hfourth

/-- One round writes a group and advances both positions. -/
theorem encodeGroup_inv {s t : Progress} (h : encodeGroup false source s = some t) :
    ∃ out, encode3to4 source s.d 3 s.outBuff s.e = some out ∧
      t = { d := s.d + 3, e := s.e + 4, lineLength := s.lineLength + 4, outBuff := out } := by
  unfold encodeGroup at h
  obtain ⟨out, hout, h⟩ := Option.bind_eq_some_iff.mp h
  exact ⟨out, hout, (Option.some.inj h).symm⟩

/-- The state of the loop after `k` groups, with a buffer of length `size`. -/
structure Grouped (len size k : ℕ) (s : Progress) : Prop where
  d : s.d = int (3 * k)
  e : s.e = int (4 * k)
  kept : s.outBuff.length = size
  read : 3 * k ≤ len
  written : 4 * k ≤ size

theorem encodeGroup_grouped {len size k : ℕ} {s t : Progress} (hs : Grouped len size k s)
    (hleft : 3 * k + 2 < len) (hfits : 4 * ((len + 2) / 3) ≤ 2 ^ 31 - 1)
    (h : encodeGroup false source s = some t) : Grouped len size (k + 1) t := by
  obtain ⟨hd, he, hkept, hread, hwritten⟩ := hs
  obtain ⟨out, hout, rfl⟩ := encodeGroup_inv h
  rw [he] at hout
  obtain ⟨hsize, hlt⟩ := encode3to4_fits (by omega) (Or.inl rfl) hout
  refine ⟨?_, ?_, hsize.trans hkept, by omega, by omega⟩
  · rw [hd]
    exact int_add (3 * k) 3
  · rw [he]
    exact int_add (4 * k) 4

theorem loop_test_int {len k : ℕ} {s : Progress} (hd : s.d = int (3 * k)) (hread : 3 * k ≤ len)
    (hlen : len < 2 ^ 31) : s.d.slt (int len - 2) = decide (3 * k + 2 < len) := by
  rw [hd]
  exact int_slt_sub (n := 2) (by omega) hlen (by decide)

theorem encodeLoop_grouped {len size : ℕ} (hfits : 4 * ((len + 2) / 3) ≤ 2 ^ 31 - 1) (fuel : ℕ)
    {k : ℕ} {s t : Progress} (hs : Grouped len size k s)
    (h : encodeLoop false source (int len - 2) fuel s = some t) :
    ∃ k', Grouped len size k' t ∧ len < 3 * k' + 3 := by
  -- the fuel does not matter: a loop that ends has left no full group
  induction fuel generalizing k s with
  | zero => cases h
  | succ fuel ih =>
    rw [encodeLoop, loop_test_int hs.d hs.read (by omega)] at h
    by_cases hleft : 3 * k + 2 < len
    · rw [if_pos (decide_eq_true hleft)] at h
      obtain ⟨s', hround, hrest⟩ := Option.bind_eq_some_iff.mp h
      exact ih (encodeGroup_grouped hs hleft hfits hround) hrest
    · rw [if_neg (by simpa using hleft)] at h
      cases h
      exact ⟨k, hs, by omega⟩

/-- Further rounds change nothing: the loop ends with a result or with an exception. -/
theorem encodeLoop_enough {len k : ℕ} {s : Progress} (fuel extra : ℕ) (hd : s.d = int (3 * k))
    (hread : 3 * k ≤ len) (hlen : len < 2 ^ 31) (hfuel : len < 3 * k + fuel) :
    encodeLoop false source (int len - 2) (fuel + extra) s =
      encodeLoop false source (int len - 2) fuel s := by
  induction fuel generalizing k s with
  | zero => omega
  | succ fuel ih =>
    rw [Nat.add_right_comm, encodeLoop, encodeLoop, loop_test_int hd hread hlen]
    by_cases hleft : 3 * k + 2 < len
    · rw [if_pos (decide_eq_true hleft), if_pos (decide_eq_true hleft)]
      refine Option.bind_congr fun t ht => ih (k := k + 1) ?_ (by omega) (by omega)
      obtain ⟨out, -, rfl⟩ := encodeGroup_inv ht
      rw [hd]
      exact int_add (3 * k) 3
    · rw [if_neg (by simpa using hleft), if_neg (by simpa using hleft)]

theorem encodeTail_room {len size k : ℕ} {s : Progress} {result : Int32Bits × List Byte}
    (hs : Grouped len size k s) (hlast : len < 3 * k + 3) (hfits : 4 * ((len + 2) / 3) ≤ 2 ^ 31 - 1)
    (h : encodeTail source (int len) s = some result) : 4 * ((len + 2) / 3) ≤ size := by
  obtain ⟨hd, he, hkept, hread, hwritten⟩ := hs
  have htest : s.d.slt (int len) = decide (3 * k < len) := by
    rw [hd]
    exact int_slt (by omega) (by omega)
  by_cases hleft : 3 * k < len
  · unfold encodeTail at h
    rw [htest, if_pos (decide_eq_true hleft)] at h
    obtain ⟨out, hout, -⟩ := Option.map_eq_some_iff.mp h
    -- two bytes are left, or one
    have hbytes : int len - s.d = 2 ∨ int len - s.d = 1 := by
      rw [hd, int_sub (by omega) hread]
      have hcases : len - 3 * k = 2 ∨ len - 3 * k = 1 := by omega
      exact hcases.imp (congrArg int) (congrArg int)
    rw [he] at hout
    have hlt := (encode3to4_fits (by omega) (Or.inr hbytes) hout).2
    omega
  · omega

end Writes

/-! ## The arrays on which the encoder does not throw -/

theorem fillBuffer_room {source : List Byte} {result : Int32Bits × List Byte}
    (hfits : 4 * ((source.length + 2) / 3) ≤ 2 ^ 31 - 1) (h : fillBuffer source = some result) :
    SizesBuffer source.length := by
  unfold fillBuffer at h
  obtain ⟨outBuff, halloc, h⟩ := Option.bind_eq_some_iff.mp h
  obtain ⟨s, hloop, htail⟩ := Option.bind_eq_some_iff.mp h
  have hsize := length_of_allocate halloc
  have hstart : Grouped source.length outBuff.length 0 ⟨0, 0, 0, outBuff⟩ :=
    ⟨rfl, rfl, rfl, by omega, by omega⟩
  obtain ⟨k, hs, hlast⟩ := encodeLoop_grouped hfits _ hstart hloop
  have hroom := encodeTail_room hs hlast hfits htail
  unfold SizesBuffer
  rw [← hsize]
  exact ⟨Int.natCast_nonneg _, Int.ofNat_le.mpr hroom⟩

/-- The encoder throws exactly where its buffer is missized. -/
theorem fillBuffer_isSome_iff {source : List Byte}
    (hfits : 4 * ((source.length + 2) / 3) ≤ 2 ^ 31 - 1) :
    (fillBuffer source).isSome = true ↔ SizesBuffer source.length := by
  constructor
  · intro h
    obtain ⟨result, hresult⟩ := Option.isSome_iff_exists.mp h
    exact fillBuffer_room hfits hresult
  · intro h
    obtain ⟨blank, hfill, -⟩ := fillBuffer_eq ((sizesBuffer_iff hfits).mp h)
    rw [hfill]
    rfl

theorem encodeBytes_isSome_iff {source : List Byte}
    (hfits : 4 * ((source.length + 2) / 3) ≤ 2 ^ 31 - 1) :
    (encodeBytes source).isSome = true ↔ 4 * source.length < 2 ^ 31 := by
  constructor
  · intro h
    obtain ⟨s, hs⟩ := Option.isSome_iff_exists.mp h
    rw [encodeBytes_eq_bind] at hs
    obtain ⟨result, hresult, -⟩ := Option.bind_eq_some_iff.mp hs
    exact (sizesBuffer_iff hfits).mp (fillBuffer_room hfits hresult)
  · intro h
    rw [encodeBytes_eq h]
    rfl

/-- The buffer is long enough, and nothing throws, for the arrays of less than `2 ^ 29` bytes only. -/
theorem sizesBuffer_fillBuffer_iff (source : List Byte)
    (hfits : 4 * ((source.length + 2) / 3) ≤ 2 ^ 31 - 1) :
    (SizesBuffer source.length ∧ (fillBuffer source).isSome = true) ↔
      4 * source.length < 2 ^ 31 := by
  rw [fillBuffer_isSome_iff hfits, and_self, sizesBuffer_iff hfits]

theorem fiveBytes_sizesBuffer :
    (SizesBuffer [0, 1, 2, 3, 4].length ∧ (fillBuffer [0, 1, 2, 3, 4]).isSome = true) ↔
      4 * [(0 : Byte), 1, 2, 3, 4].length < 2 ^ 31 :=
  sizesBuffer_fillBuffer_iff [0, 1, 2, 3, 4] (by decide)

/-- For `2 ^ 29` bytes the length of the buffer is `-715827882 + 4`. -/
theorem halfGigabyte_missized :
    ¬ ∀ source : List Byte, 4 * ((source.length + 2) / 3) ≤ 2 ^ 31 - 1 →
      SizesBuffer source.length ∧ (fillBuffer source).isSome = true := by
  intro h
  obtain ⟨source, hsource⟩ : ∃ source : List Byte, source.length = 2 ^ 29 :=
    ⟨List.replicate (2 ^ 29) 0, List.length_replicate⟩
  have hsized := (h source (by omega)).1
  rw [hsource] at hsized
  exact absurd hsized (by decide)

end Auth8.Security
