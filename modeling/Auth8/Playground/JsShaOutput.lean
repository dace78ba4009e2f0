import Auth8.Foundations.Base64
import Auth8.Playground.JsShaHmac
import Mathlib.Data.List.Basic
import Mathlib.Logic.Function.Iterate

/-! # The output of `sha1.js`

`z` goes through the bytes of an array by threes and writes Base64. With it `getHMAC` on two texts is the
Base64 of their HMAC. -/
namespace Auth8.Playground.JsSha
open BigEndian JsArray Unicode
open Base64 (digit sextet group alphabet encode)
set_option autoImplicit false

/-! ## Base64 by the place of a group -/

/-- The four characters of the `i`-th group of three bytes. -/
def groupDigits (bytes : List Byte) (i : ℕ) : List Char :=
  let v := group (bytes.getD (3 * i) 0) (bytes.getD (3 * i + 1) 0) (bytes.getD (3 * i + 2) 0)
  (List.range 4).flatMap fun d =>
    if 24 * i + 6 * d ≤ 8 * bytes.length then [digit (sextet (3 - d) v)] else ['=']

theorem groupDigits_succ (a b c : Byte) (bytes : List Byte) (i : ℕ) :
    groupDigits (a :: b :: c :: bytes) (i + 1) = groupDigits bytes i := by
  have hlen : ∀ d, 24 * (i + 1) + 6 * d ≤ 8 * (a :: b :: c :: bytes).length ↔
      24 * i + 6 * d ≤ 8 * bytes.length := by
    intro d
    simp only [List.length_cons]
    omega
  unfold groupDigits
  simp only [hlen]
  rfl

theorem groupDigits_encode (bytes : List Byte) :
    (List.range ((bytes.length + 2) / 3)).flatMap (groupDigits bytes) = encode bytes := by
  induction bytes using Base64.encode.induct with
  | case1 => rfl
  | case2 a => simp [groupDigits, encode, List.range_succ]
  | case3 a b => simp [groupDigits, encode, List.range_succ]
  | case4 a b c rest ih =>
    have hcount : ((a :: b :: c :: rest).length + 2) / 3 = (rest.length + 2) / 3 + 1 := by
      simp only [List.length_cons]
      omega
    have hzero : groupDigits (a :: b :: c :: rest) 0 =
        [digit (sextet 3 (group a b c)), digit (sextet 2 (group a b c)), digit (sextet 1 (group a b c)),
          digit (sextet 0 (group a b c))] := by
      unfold groupDigits
      rw [show List.range 4 = [0, 1, 2, 3] from rfl]
      simp only [List.flatMap_cons, List.flatMap_nil, List.length_cons]
      rw [if_pos (by omega), if_pos (by omega), if_pos (by omega), if_pos (by omega)]
      rfl
    rw [hcount, List.range_succ_eq_map, List.flatMap_cons, List.flatMap_map, hzero]
    simp only [groupDigits_succ, ih]
    rw [encode]
    rfl

/-! ## `z` -/

theorem shiftedAt_low (a : List Word) {c : ℕ} (hc : c < 4294967296) :
    shiftedAt a c &&& 255 = ((bytesOf a).getD c 0).setWidth 32 := by
  have hindex : ushr c 2 = c / 4 := by
    unfold ushr
    omega
  have hbyte : (bytesOf a).getD c 0 = byteOf (a.getD (c / 4) 0) (c % 4) := by
    rw [← byteOf_wordAt, wordAt_bytesOf]
  have hshift : 8 * (3 - c % 4) = 24 - 8 * (c % 4) := by omega
  rw [hbyte, shiftedAt, hindex, hshift, byteOf]
  apply BitVec.eq_of_toNat_eq
  rw [BitVec.toNat_and, BitVec.toNat_setWidth, BitVec.toNat_setWidth]
  have hmask : (a.getD (c / 4) 0 >>> (24 - 8 * (c % 4))).toNat &&& 255 =
      (a.getD (c / 4) 0 >>> (24 - 8 * (c % 4))).toNat % 256 := Nat.and_two_pow_sub_one_eq_mod _ 8
  rw [show (255 : Word).toNat = 255 from rfl, hmask]
  omega

/-- Three bytes put together are a group of 24 bits. -/
theorem group_word (x y z : Byte) :
    (x.setWidth 32 <<< 16 ||| y.setWidth 32 <<< 8 ||| z.setWidth 32 : Word).toNat = group x y z := by
  obtain ⟨-, hsecond, -, -⟩ := placed_eq_word x
  obtain ⟨-, -, hthird, -⟩ := placed_eq_word y
  obtain ⟨-, -, -, hfourth⟩ := placed_eq_word z
  have hplaces : (x.setWidth 32 <<< 16 ||| y.setWidth 32 <<< 8 ||| z.setWidth 32 : Word) =
      placed x 1 ||| placed y 2 ||| placed z 3 := by
    simp [placed]
  rw [hplaces, hsecond, hthird, hfourth, word_or, word_or, word_toNat]
  simp [group]

theorem base64Digits_getD (g : Word) (d : ℕ) :
    base64Digits.getD (g >>> (6 * d) &&& 63).toNat 'A' = digit (sextet d g.toNat) := by
  have htoNat : (g >>> (6 * d) &&& 63).toNat = sextet d g.toNat := by
    rw [BitVec.toNat_and, BitVec.toNat_ushiftRight, Nat.shiftRight_eq_div_pow, Nat.pow_mul]
    exact Nat.and_two_pow_sub_one_eq_mod _ 6
  have hlt : sextet d g.toNat < alphabet.length := Base64.sextet_lt _ _
  have hdigits : base64Digits = alphabet := by decide
  rw [htoNat, hdigits, digit, List.getD_eq_getElem _ _ hlt, List.getD_eq_getElem _ _ hlt]

theorem z_eq (a : List Word) (hlen : 4 * a.length + 2 < 4294967296) :
    z a (A none none) = encode (bytesOf a) := by
  have hcount : (bytesOf a).length = 4 * a.length := bytesOf_length a
  rw [← groupDigits_encode, hcount, z]
  refine List.flatMap_congr fun i hi => ?_
  rw [List.mem_range] at hi
  simp only [groupDigits, shiftedAt_low a (show 3 * i < 4294967296 by omega),
    shiftedAt_low a (show 3 * i + 1 < 4294967296 by omega),
    shiftedAt_low a (show 3 * i + 2 < 4294967296 by omega), base64Digits_getD, group_word, hcount]
  refine List.flatMap_congr fun d _ => ?_
  have hcond : 8 * (3 * i) + 6 * d ≤ 32 * a.length ↔ 24 * i + 6 * d ≤ 8 * (4 * a.length) := by omega
  simp only [hcond]
  rfl

/-- Of packed bytes a multiple of four, `z` writes the Base64. -/
theorem z_wordsOf {bytes : List Byte} (hwhole : bytes.length % 4 = 0)
    (hlen : bytes.length + 2 < 4294967296) : z (wordsOf bytes) (A none none) = encode bytes := by
  have hbytes : bytesOf (wordsOf bytes) = bytes := by
    refine wordsOf_injective ?_ (wordsOf_bytesOf _)
    rw [bytesOf_length, wordsOf_length]
    omega
  rw [z_eq _ (by rw [wordsOf_length]; omega), hbytes]

/-! ## `y` -/

theorem n_text {text : List CodeUnit} (hlen : (text.flatMap unitBytes).length < 4294967296) :
    n text "TEXT" none =
      .ok ⟨wordsOf (text.flatMap unitBytes), 8 * (text.flatMap unitBytes).length, "UTF8"⟩ := by
  have hpack : w text "UTF8" = pack (text.flatMap unitBytes) := w_eq hlen
  have hn : n text "TEXT" none = .ok ⟨(w text "UTF8").value, (w text "UTF8").binLen, "UTF8"⟩ := rfl
  rw [hn, hpack]
  rfl

/-- `new jsSHA(text, "TEXT").getHMAC(key, "TEXT", "SHA-1", "B64")`. -/
def textHmac (text key : List CodeUnit) : Except String (List Char) :=
  (n text "TEXT" none).bind fun o => o.getHMAC key "TEXT" "SHA-1" "B64" (A none none)

theorem textHmac_eq {text key : List CodeUnit}
    (htext : 8 * (text.flatMap unitBytes).length + 577 < 4294967296)
    (hkey : 8 * (key.flatMap unitBytes).length + 65 < 4294967296) :
    textHmac text key =
      .ok (encode (Sha1.hmac (key.flatMap unitBytes) (text.flatMap unitBytes))) := by
  have hinput : inputFormat key "TEXT" "UTF8" = .ok (pack (key.flatMap unitBytes)) := by
    rw [← w_eq (show (key.flatMap unitBytes).length < 4294967296 by omega)]
    rfl
  have hkeyed := keyed_eq (key.flatMap unitBytes) (text.flatMap unitBytes) (by omega) (by omega)
  have hbase64 : z (wordsOf (Sha1.hmac (key.flatMap unitBytes) (text.flatMap unitBytes)))
      (A none none) = encode (Sha1.hmac (key.flatMap unitBytes) (text.flatMap unitBytes)) :=
    z_wordsOf (by rw [Sha1.hmac_length]) (by rw [Sha1.hmac_length]; decide)
  have hformat : outputFormat "B64" "outputFormat must be HEX or B64" = .ok z := rfl
  rw [← hbase64, ← hkeyed, textHmac, n_text (by omega)]
  simp only [Except.bind, Sha.getHMAC, hformat, if_true, hinput]

end Auth8.Playground.JsSha
