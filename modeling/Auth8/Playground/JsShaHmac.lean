import Auth8.Foundations.Base64
import Auth8.Playground.JsShaText

/-! # `getHMAC` is HMAC-SHA1 in Base64 -/
namespace Auth8.Playground.JsSha
open BigEndian JsArray Sha1 Unicode
open Base64 (digit sextet group)
set_option autoImplicit false

/-! ## The key -/

theorem s_bytes (bytes : List Byte) (hlen : 8 * bytes.length + 65 < 4294967296) :
    s (wordsOf bytes) (8 * bytes.length) = wordsOf (digest bytes) := by
  rw [s_eq bytes hlen, digest, wordsOf_bytesOf]

/-- The last byte of a block is masked where the key does not reach it. -/
theorem masked_last {key : List Byte} (h : key.length < 64) :
    wordAt key 15 &&& 4294967040 = wordAt key 15 := by
  have hmask : (4294967040 : Word) = word 255 255 255 0 := by decide
  have hand : ∀ b : Byte, b &&& 255 = b := fun b => BitVec.and_allOnes
  unfold wordAt
  rw [hmask, word_and, hand, hand, hand, List.getD_eq_default key 0 (show key.length ≤ 4 * 15 + 3 by omega)]
  rfl

/-- What is put into a block: the key, or its hash. -/
def shortKey (key : List Byte) : List Byte := if 64 < key.length then digest key else key

theorem blockKey_wordAt (key : List Byte) (i : ℕ) :
    wordAt (blockKey key) i = wordAt (shortKey key) i := by
  unfold wordAt blockKey
  simp only [getD_append_replicate]
  rfl

/-- The sixteen words of the array are those of the block of the key. -/
theorem keyArray_getD (key : List Byte) (hlen : 8 * key.length + 65 < 4294967296) (i : ℕ) :
    (keyArray (pack key)).getD i 0 = wordAt (shortKey key) i := by
  have hbytes : 8 * key.length / 8 = key.length := by omega
  simp only [keyArray, pack, hbytes, shortKey]
  by_cases hlong : 64 < key.length
  · have hlast : wordAt (digest key) 15 = 0 := wordAt_of_le (by rw [digest_length]; decide)
    rw [if_pos hlong, if_pos hlong, s_bytes key hlen, store_getD, wordsOf_getD, wordsOf_getD, hlast]
    by_cases hi : i = 15
    · rw [if_pos hi, hi, hlast]
      rfl
    · rw [if_neg hi]
  · by_cases hshort : key.length < 64
    · rw [if_neg hlong, if_pos hshort, if_neg hlong, store_getD, wordsOf_getD, wordsOf_getD,
        masked_last hshort]
      by_cases hi : i = 15
      · rw [if_pos hi, hi]
      · rw [if_neg hi]
    · rw [if_neg hlong, if_neg hshort, if_neg hlong, wordsOf_getD]

theorem keyXor_eq (key : List Byte) (hlen : 8 * key.length + 65 < 4294967296) (x : Byte) :
    keyXor (keyArray (pack key)) (word x x x x) = wordsOf (keyPad key x) := by
  have hwords : (wordsOf (keyPad key x)).length = 16 := by
    rw [wordsOf_length, keyPad_length]
  refine ext_getD 0 (by rw [hwords, keyXor, List.length_map, List.length_range]) fun i hi => ?_
  rw [keyXor, List.length_map, List.length_range] at hi
  have hmap : ∀ j < 64, (keyPad key x).getD j 0 = (blockKey key).getD j 0 ^^^ x := by
    intro j hj
    rw [List.getD_eq_getElem _ _ (by rw [keyPad_length]; exact hj),
      List.getD_eq_getElem _ _ (by rw [blockKey_length]; exact hj)]
    exact List.getElem_map _
  rw [wordsOf_getD, keyXor, List.getD_eq_getElem _ _ (by simpa using hi), List.getElem_map,
    List.getElem_range, keyArray_getD key hlen, ← blockKey_wordAt, wordAt, wordAt, word_xor,
    hmap _ (by omega), hmap _ (by omega), hmap _ (by omega), hmap _ (by omega)]

theorem keyed_eq (key text : List Byte) (hkey : 8 * key.length + 65 < 4294967296)
    (htext : 8 * text.length + 577 < 4294967296) :
    s (keyXor (keyArray (pack key)) 1549556828 ++
      s (keyXor (keyArray (pack key)) 909522486 ++ wordsOf text) (512 + 8 * text.length)) (512 + 160) =
      wordsOf (hmac key text) := by
  have hopad : (1549556828 : Word) = word 0x5c 0x5c 0x5c 0x5c := by decide
  have hipad : (909522486 : Word) = word 0x36 0x36 0x36 0x36 := by decide
  have hinner : s (wordsOf (keyPad key 0x36 ++ text)) (512 + 8 * text.length) =
      wordsOf (digest (keyPad key 0x36 ++ text)) := by
    rw [← s_bytes _ (by rw [List.length_append, keyPad_length]; omega), List.length_append,
      keyPad_length]
    congr 1
    omega
  have houter : s (wordsOf (keyPad key 0x5c ++ digest (keyPad key 0x36 ++ text))) (512 + 160) =
      wordsOf (hmac key text) := by
    rw [hmac, ← s_bytes _ (by rw [List.length_append, keyPad_length, digest_length]; omega),
      List.length_append, keyPad_length, digest_length]
  rw [hopad, hipad, keyXor_eq key hkey, keyXor_eq key hkey,
    ← wordsOf_append (n := 16) (keyPad_length key 0x36), hinner,
    ← wordsOf_append (n := 16) (keyPad_length key 0x5c), houter]

end Auth8.Playground.JsSha
