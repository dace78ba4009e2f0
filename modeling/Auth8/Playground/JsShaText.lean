import Auth8.Foundations.Unicode
import Auth8.Playground.JsShaHash

/-! # Texts in `sha1.js`

`w` writes every code unit by itself, and compares with `2048 <` and `128 <`. Its bytes are those of UTF-8
exactly for the texts without U+0080, without U+0800 and without characters of two code units. -/
namespace Auth8.Playground.JsSha
open BigEndian JsArray Unicode
set_option autoImplicit false

/-! ## The bytes of a code unit -/

def unitValues (v : ℕ) : List ℕ :=
  if 2048 < v then [v / 4096 + 224, v / 64 % 64 + 128, v % 64 + 128]
  else if 128 < v then [v / 64 % 32 + 192, v % 64 + 128]
  else [v]

def unitBytes (unit : CodeUnit) : List Byte := (unitValues unit.toNat).map fun v => BitVec.ofNat 8 v

theorem unitValues_lt {v : ℕ} (hv : v < 65536) : ∀ x ∈ unitValues v, x < 256 := by
  intro x hx
  unfold unitValues at hx
  split at hx
  · simp only [List.mem_cons, List.not_mem_nil, or_false] at hx
    omega
  · split at hx
    · simp only [List.mem_cons, List.not_mem_nil, or_false] at hx
      omega
    · have hxv := List.mem_singleton.mp hx
      omega

theorem masked (x : Word) (k m : ℕ) (mask : Word) (hmask : mask.toNat = (2 ^ m - 1) <<< k) :
    ((x &&& mask) >>> k).toNat = x.toNat / 2 ^ k % 2 ^ m := by
  rw [BitVec.toNat_ushiftRight, BitVec.toNat_and, Nat.shiftRight_and_distrib, hmask,
    Nat.shiftLeft_shiftRight, Nat.and_two_pow_sub_one_eq_mod, Nat.shiftRight_eq_div_pow]

/-- Leading bits put before the bits of a character. -/
theorem marker_or {m lead v : ℕ} (marker x : Word) (hmarker : marker.toNat = lead <<< m)
    (hx : x.toNat = v) (hv : v < 2 ^ m) (hlt : v + lead * 2 ^ m < 256) :
    marker ||| x = BitVec.ofNat 32 (v + lead * 2 ^ m) := by
  subst hx
  apply BitVec.eq_of_toNat_eq
  rw [BitVec.toNat_or, hmarker, ← Nat.shiftLeft_add_eq_or_of_lt hv, Nat.shiftLeft_eq,
    BitVec.toNat_ofNat]
  omega

theorem continuation_eq (x : Word) {v : ℕ} (hx : x.toNat = v % 64) :
    128 ||| x = BitVec.ofNat 32 (v % 64 + 128) :=
  marker_or (m := 6) 128 x (show (128 : Word).toNat = 2 <<< 6 from rfl) hx (by omega) (by omega)

theorem utf8Unit_values (unit : CodeUnit) :
    utf8Unit unit = (unitValues unit.toNat).map fun v => BitVec.ofNat 32 v := by
  have hunit := unit.isLt
  have he : (unit.setWidth 32 : Word).toNat = unit.toNat := by
    rw [BitVec.toNat_setWidth]
    omega
  have hlast : ((unit.setWidth 32 : Word) &&& 63).toNat = unit.toNat % 64 := by
    rw [BitVec.toNat_and, he]
    exact Nat.and_two_pow_sub_one_eq_mod unit.toNat 6
  unfold utf8Unit unitValues
  by_cases h3 : 2048 < unit.toNat
  · have hfirst : (((unit.setWidth 32 : Word) &&& 61440) >>> 12).toNat = unit.toNat / 4096 := by
      rw [masked _ 12 4 _ rfl, he]
      omega
    have hsecond : (((unit.setWidth 32 : Word) &&& 4032) >>> 6).toNat = unit.toNat / 64 % 64 := by
      rw [masked _ 6 6 _ rfl, he]
      rfl
    simp only [if_pos h3, List.map_cons, List.map_nil]
    rw [continuation_eq _ hlast, continuation_eq _ hsecond,
      marker_or (m := 4) 224 _ (show (224 : Word).toNat = 14 <<< 4 from rfl) hfirst (by omega)
        (by omega)]
    rfl
  · by_cases h2 : 128 < unit.toNat
    · have hfirst : (((unit.setWidth 32 : Word) &&& 1984) >>> 6).toNat = unit.toNat / 64 % 32 := by
        rw [masked _ 6 5 _ rfl, he]
        rfl
      simp only [if_neg h3, if_pos h2, List.map_cons, List.map_nil]
      rw [continuation_eq _ hlast,
        marker_or (m := 5) 192 _ (show (192 : Word).toNat = 6 <<< 5 from rfl) hfirst (by omega)
          (by omega)]
      rfl
    · simp only [if_neg h3, if_neg h2, List.map_cons, List.map_nil]
      congr 1
      apply BitVec.eq_of_toNat_eq
      rw [he, BitVec.toNat_ofNat]
      omega

theorem utf8Unit_eq (unit : CodeUnit) :
    utf8Unit unit = (unitBytes unit).map fun x => x.setWidth 32 := by
  rw [utf8Unit_values, unitBytes, List.map_map]
  refine List.map_congr_left fun v hv => ?_
  have hlt := unitValues_lt unit.isLt v hv
  apply BitVec.eq_of_toNat_eq
  rw [Function.comp, BitVec.toNat_setWidth, BitVec.toNat_ofNat, BitVec.toNat_ofNat]
  omega

/-! ## Packing -/

theorem put_bytes (front bytes : List Byte) (hlen : (front ++ bytes).length < 4294967296) :
    (bytes.map fun x => x.setWidth 32).foldl put (wordsOf front, front.length) =
      (wordsOf (front ++ bytes), (front ++ bytes).length) := by
  induction bytes generalizing front with
  | nil => rw [List.append_nil]; rfl
  | cons x bytes ih =>
    rw [List.length_append, List.length_cons] at hlen
    rw [List.map_cons, List.foldl_cons, put_wordsOf front x (by omega), ih _ (by simp; omega),
      List.append_assoc, List.singleton_append]

theorem put_units (front : List Byte) (units : List CodeUnit)
    (hlen : (front ++ units.flatMap unitBytes).length < 4294967296) :
    units.foldl (fun bd unit => (utf8Unit unit).foldl put bd) (wordsOf front, front.length) =
      (wordsOf (front ++ units.flatMap unitBytes), (front ++ units.flatMap unitBytes).length) := by
  induction units generalizing front with
  | nil => rw [List.flatMap_nil, List.append_nil]; rfl
  | cons unit units ih =>
    rw [List.flatMap_cons, ← List.append_assoc] at hlen ⊢
    have hfront : (front ++ unitBytes unit).length < 4294967296 := by
      rw [List.length_append] at hlen
      omega
    rw [List.foldl_cons, utf8Unit_eq, put_bytes front _ hfront, ih _ hlen]

/-- The object for a list of bytes. -/
def pack (bytes : List Byte) : Packed := ⟨wordsOf bytes, 8 * bytes.length⟩

theorem w_eq {text : List CodeUnit} (hlen : (text.flatMap unitBytes).length < 4294967296) :
    w text "UTF8" = pack (text.flatMap unitBytes) := by
  have hfold : text.foldl (fun bd unit => (utf8Unit unit).foldl put bd) ([], 0) =
      (wordsOf (text.flatMap unitBytes), (text.flatMap unitBytes).length) := put_units [] text hlen
  unfold w pack
  simp only [if_true, hfold]

/-! ## Characters -/

/-- What `w` writes for a character. -/
def charBytes (c : Char) : List Byte := (utf16 c).flatMap unitBytes

/-- The characters that `w` writes as UTF-8. -/
def Plain (c : Char) : Prop := c.toNat ≠ 128 ∧ c.toNat ≠ 2048 ∧ c.toNat < 65536

instance (c : Char) : Decidable (Plain c) := inferInstanceAs (Decidable (_ ∧ _ ∧ _))

theorem plain_of_all {text : List Char} (h : text.all (fun c => decide (Plain c)) = true) :
    ∀ c ∈ text, Plain c := fun c hc => of_decide_eq_true (List.all_eq_true.mp h c hc)

theorem charBytes_one_unit {c : Char} (h : c.toNat < 65536) :
    charBytes c = (unitValues c.toNat).map fun v => BitVec.ofNat 8 v := by
  have hunit : (BitVec.ofNat 16 c.toNat).toNat = c.toNat := by
    rw [BitVec.toNat_ofNat]
    omega
  rw [charBytes, utf16, if_pos h, List.flatMap_singleton, unitBytes, hunit]

theorem charBytes_of_plain {c : Char} (h : Plain c) : charBytes c = utf8 c := by
  obtain ⟨h128, h2048, hlt⟩ := h
  rw [charBytes_one_unit hlt, unitValues]
  by_cases h3 : 2048 < c.toNat
  · have hmod : c.toNat / 4096 % 16 = c.toNat / 4096 := by omega
    rw [if_pos h3, utf8_three (by omega) hlt, hmod]
    rfl
  · by_cases h2 : 128 < c.toNat
    · rw [if_neg h3, if_pos h2, utf8_two (by omega) (by omega)]
      rfl
    · rw [if_neg h3, if_neg h2, utf8_one (by omega)]
      rfl

theorem ofNat_ne {m k : ℕ} (hm : m < 256) (hk : k < 256) (hne : m ≠ k) :
    BitVec.ofNat 8 m ≠ BitVec.ofNat 8 k := by
  intro h
  have htoNat := congrArg BitVec.toNat h
  rw [BitVec.toNat_ofNat, BitVec.toNat_ofNat] at htoNat
  omega

/-- The first half of a character of two code units begins with `0xed`. -/
theorem charBytes_two_units {c : Char} (h : 65536 ≤ c.toNat) :
    ∃ rest, charBytes c = BitVec.ofNat 8 237 :: rest := by
  have hmax : c.toNat < 1114112 := by
    have hvalid := c.valid
    simp only [UInt32.isValidChar, Nat.isValidChar] at hvalid
    have hval : c.val.toNat = c.toNat := rfl
    omega
  have hunit : (BitVec.ofNat 16 (0xd800 + (c.toNat - 65536) / 1024)).toNat =
      55296 + (c.toNat - 65536) / 1024 := by
    rw [BitVec.toNat_ofNat]
    omega
  have hfirst : (55296 + (c.toNat - 65536) / 1024) / 4096 + 224 = 237 := by omega
  rw [charBytes, utf16, if_neg (by omega), List.flatMap_cons, unitBytes, hunit, unitValues,
    if_pos (by omega), hfirst]
  exact ⟨_, rfl⟩

/-- The first bytes already differ. -/
theorem charBytes_of_not_plain {c : Char} (h : ¬ Plain c) (rest rest' : List Byte) :
    charBytes c ++ rest ≠ utf8 c ++ rest' := by
  intro heq
  by_cases hlt : c.toNat < 65536
  · have hcases : c.toNat = 128 ∨ c.toNat = 2048 := by
      unfold Plain at h
      omega
    rw [charBytes_one_unit hlt] at heq
    cases hcases with
    | inl h128 =>
      rw [utf8_two (by omega) (by omega), h128] at heq
      exact ofNat_ne (by decide) (by decide) (by decide) (List.cons.inj heq).1
    | inr h2048 =>
      rw [utf8_three (by omega) hlt, h2048] at heq
      exact ofNat_ne (by decide) (by decide) (by decide) (List.cons.inj heq).1
  · obtain ⟨tail, htail⟩ := charBytes_two_units (Nat.le_of_not_lt hlt)
    rw [htail, utf8_four (Nat.le_of_not_lt hlt)] at heq
    exact ofNat_ne (by decide) (by omega) (by omega) (List.cons.inj heq).1

theorem flatMap_charBytes_iff (text : List Char) :
    text.flatMap charBytes = text.flatMap utf8 ↔ ∀ c ∈ text, Plain c := by
  induction text with
  | nil => simp
  | cons c text ih =>
    rw [List.flatMap_cons, List.flatMap_cons, List.forall_mem_cons]
    by_cases hc : Plain c
    · rw [charBytes_of_plain hc, List.append_cancel_left_eq, ih]
      exact ⟨fun h => ⟨hc, h⟩, fun h => h.2⟩
    · exact ⟨fun h => absurd h (charBytes_of_not_plain hc _ _), fun h => absurd h.1 hc⟩

theorem codeUnits_bytes (text : List Char) :
    (codeUnits text).flatMap unitBytes = text.flatMap charBytes := List.flatMap_assoc

theorem pack_injective {xs ys : List Byte} (h : pack xs = pack ys) : xs = ys := by
  have hlen : 8 * xs.length = 8 * ys.length := congrArg Packed.binLen h
  exact wordsOf_injective (by omega) (congrArg Packed.value h)

/-- The script and the server see a text as the same bytes exactly when all of its characters are
plain. -/
theorem w_utf8_iff (text : String)
    (hlen : ((codeUnits text.toList).flatMap unitBytes).length < 4294967296) :
    w (codeUnits text.toList) "UTF8" = pack (text.toUTF8.toList.map UInt8.toBitVec) ↔
      ∀ c ∈ text.toList, Plain c := by
  rw [w_eq hlen, codeUnits_bytes, toUTF8_toList, ← flatMap_charBytes_iff]
  exact ⟨pack_injective, fun h => by rw [h]⟩

/-- A text with U+0080 in it. -/
theorem w_utf8_control :
    w (codeUnits (String.ofList ['a', Char.ofNat 128]).toList) "UTF8" =
        pack ((String.ofList ['a', Char.ofNat 128]).toUTF8.toList.map UInt8.toBitVec) ↔
      ∀ c ∈ (String.ofList ['a', Char.ofNat 128]).toList, Plain c :=
  w_utf8_iff (String.ofList ['a', Char.ofNat 128]) (by decide +kernel)

end Auth8.Playground.JsSha
