import Mathlib.Algebra.Group.Nat.Defs
import Mathlib.Tactic.Common

/-! # Encodings of characters

The bytes of a character in UTF-8, and its code units in UTF-16, which determine the text. -/
namespace Unicode
set_option autoImplicit false

abbrev Octet := BitVec 8

abbrev CodeUnit := BitVec 16

def utf8 (c : Char) : List Octet := (String.utf8EncodeChar c).map UInt8.toBitVec

def utf16 (c : Char) : List CodeUnit :=
  if c.toNat < 65536 then [BitVec.ofNat 16 c.toNat]
  else [BitVec.ofNat 16 (0xd800 + (c.toNat - 65536) / 1024),
    BitVec.ofNat 16 (0xdc00 + (c.toNat - 65536) % 1024)]

def codeUnits (text : List Char) : List CodeUnit := text.flatMap utf16

/-- The number of code units of a text. -/
def utf16Length (text : String) : ℕ := (codeUnits text.toList).length

/-! ## The code units of a character -/

theorem utf16_one {c : Char} (h : c.toNat < 65536) : utf16 c = [BitVec.ofNat 16 c.toNat] := if_pos h

theorem utf16_two {c : Char} (h : 65536 ≤ c.toNat) :
    utf16 c = [BitVec.ofNat 16 (0xd800 + (c.toNat - 65536) / 1024),
      BitVec.ofNat 16 (0xdc00 + (c.toNat - 65536) % 1024)] := if_neg (Nat.not_lt_of_le h)

theorem toNat_lt (c : Char) : c.toNat < 1114112 := by
  have hvalid : c.toNat < 0xd800 ∨ 0xdfff < c.toNat ∧ c.toNat < 0x110000 := c.valid
  omega

/-- No character is half of a pair. -/
theorem not_surrogate (c : Char) : ¬ (0xd800 ≤ c.toNat ∧ c.toNat ≤ 0xdfff) := by
  have hvalid : c.toNat < 0xd800 ∨ 0xdfff < c.toNat ∧ c.toNat < 0x110000 := c.valid
  omega

theorem ofNat_eq_iff {a b : ℕ} (ha : a < 65536) (hb : b < 65536) :
    BitVec.ofNat 16 a = BitVec.ofNat 16 b ↔ a = b := by
  constructor
  · intro h
    have hnat := congrArg BitVec.toNat h
    rw [BitVec.toNat_ofNat, BitVec.toNat_ofNat] at hnat
    omega
  · rintro rfl
    rfl

/-- The units of a character end where they end, and tell which character it is. -/
theorem utf16_append_inj {c d : Char} {x y : List CodeUnit} (h : utf16 c ++ x = utf16 d ++ y) :
    c = d ∧ x = y := by
  have hc := toNat_lt c
  have hd := toNat_lt d
  have hcs := not_surrogate c
  have hds := not_surrogate d
  rcases Nat.lt_or_ge c.toNat 65536 with hclow | hchigh <;>
    rcases Nat.lt_or_ge d.toNat 65536 with hdlow | hdhigh
  · rw [utf16_one hclow, utf16_one hdlow, List.singleton_append, List.singleton_append,
      List.cons.injEq, ofNat_eq_iff hclow hdlow] at h
    exact ⟨Char.toNat_inj.mp h.1, h.2⟩
  · rw [utf16_one hclow, utf16_two hdhigh, List.singleton_append, List.cons_append,
      List.cons.injEq, ofNat_eq_iff hclow (by omega)] at h
    omega
  · rw [utf16_two hchigh, utf16_one hdlow, List.singleton_append, List.cons_append,
      List.cons.injEq, ofNat_eq_iff (by omega) hdlow] at h
    omega
  · rw [utf16_two hchigh, utf16_two hdhigh] at h
    simp only [List.cons_append, List.nil_append, List.cons.injEq] at h
    rw [ofNat_eq_iff (by omega) (by omega), ofNat_eq_iff (by omega) (by omega)] at h
    exact ⟨Char.toNat_inj.mp (by omega), h.2.2⟩

theorem codeUnits_injective : Function.Injective codeUnits := by
  have hne : ∀ c : Char, utf16 c ≠ [] := by
    intro c
    unfold utf16
    split <;> simp
  intro text
  induction text with
  | nil =>
    rintro (_ | ⟨d, other⟩) h
    · rfl
    · exact absurd h.symm (by simp [codeUnits, hne])
  | cons c text ih =>
    rintro (_ | ⟨d, other⟩) h
    · exact absurd h (by simp [codeUnits, hne])
    · obtain ⟨rfl, hrest⟩ := utf16_append_inj h
      rw [ih hrest]

/-! ## The bytes of a character -/

theorem utf8_one {c : Char} (h : c.toNat < 128) : utf8 c = [BitVec.ofNat 8 c.toNat] := by
  have hle : c.val.toNat ≤ 127 := Nat.le_of_lt_succ h
  unfold utf8 String.utf8EncodeChar
  simp only [hle, if_true]
  rfl

theorem utf8_two {c : Char} (hlow : 128 ≤ c.toNat) (h : c.toNat < 2048) :
    utf8 c = [BitVec.ofNat 8 (c.toNat / 64 % 32 + 192), BitVec.ofNat 8 (c.toNat % 64 + 128)] := by
  have hone : ¬ c.val.toNat ≤ 127 := Nat.not_le_of_lt hlow
  have hle : c.val.toNat ≤ 2047 := Nat.le_of_lt_succ h
  unfold utf8 String.utf8EncodeChar
  simp only [hone, hle, if_true, if_false]
  rfl

theorem utf8_three {c : Char} (hlow : 2048 ≤ c.toNat) (h : c.toNat < 65536) :
    utf8 c = [BitVec.ofNat 8 (c.toNat / 4096 % 16 + 224), BitVec.ofNat 8 (c.toNat / 64 % 64 + 128),
      BitVec.ofNat 8 (c.toNat % 64 + 128)] := by
  have hone : ¬ c.val.toNat ≤ 127 := Nat.not_le_of_lt (Nat.lt_of_lt_of_le (by decide) hlow)
  have htwo : ¬ c.val.toNat ≤ 2047 := Nat.not_le_of_lt hlow
  have hle : c.val.toNat ≤ 65535 := Nat.le_of_lt_succ h
  unfold utf8 String.utf8EncodeChar
  simp only [hone, htwo, hle, if_true, if_false]
  rfl

theorem utf8_four {c : Char} (hlow : 65536 ≤ c.toNat) :
    utf8 c = [BitVec.ofNat 8 (c.toNat / 262144 % 8 + 240), BitVec.ofNat 8 (c.toNat / 4096 % 64 + 128),
      BitVec.ofNat 8 (c.toNat / 64 % 64 + 128), BitVec.ofNat 8 (c.toNat % 64 + 128)] := by
  have hone : ¬ c.val.toNat ≤ 127 := Nat.not_le_of_lt (Nat.lt_of_lt_of_le (by decide) hlow)
  have htwo : ¬ c.val.toNat ≤ 2047 := Nat.not_le_of_lt (Nat.lt_of_lt_of_le (by decide) hlow)
  have hthree : ¬ c.val.toNat ≤ 65535 := Nat.not_le_of_lt hlow
  unfold utf8 String.utf8EncodeChar
  simp only [hone, htwo, hthree, if_false]
  rfl

/-! ## The bytes of a text -/

theorem byteArray_loop (bytes : ByteArray) (i : ℕ) (read : List UInt8) :
    ByteArray.toList.loop bytes i read = read.reverse ++ bytes.data.toList.drop i := by
  induction i, read using ByteArray.toList.loop.induct bytes with
  | case1 i read h ih =>
    have hi : i < bytes.data.toList.length := h
    rw [ByteArray.toList.loop, if_pos h, ih, List.drop_eq_getElem_cons hi, List.reverse_cons,
      List.append_assoc, List.singleton_append]
    congr 2
    exact getElem!_pos bytes.data i h
  | case2 i read h =>
    rw [ByteArray.toList.loop, if_neg h, List.drop_eq_nil_of_le (Nat.le_of_not_lt h), List.append_nil]

/-- The encoding of a text is that of its characters, one after the other. -/
theorem toUTF8_toList (text : String) :
    text.toUTF8.toList.map UInt8.toBitVec = text.toList.flatMap utf8 := by
  have hbytes : text.toUTF8.toList = text.toList.flatMap String.utf8EncodeChar := by
    rw [String.toUTF8_eq_toByteArray, ← String.utf8Encode_toList, ByteArray.toList, byteArray_loop,
      List.utf8Encode, List.toList_data_toByteArray]
    rfl
  rw [hbytes, List.map_flatMap]
  rfl

end Unicode
