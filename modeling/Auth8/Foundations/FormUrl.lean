import Auth8.Foundations.Unicode
import Mathlib.Data.List.Basic
import Mathlib.Data.List.TakeWhile

/-! # Percent-encoding and queries

The percent-encoding of RFC 3986 over the UTF-8 bytes of a text, and the queries of HTML forms: parameters
`name=value` between ampersands, where `+` stands for a blank. -/
namespace FormUrl
open Unicode
set_option autoImplicit false

/-! ## Encoding -/

def hexDigits : List Char := "0123456789ABCDEF".toList

def hexDigit (n : ℕ) : Char := hexDigits.getD n '0'

def percentEncode (b : Octet) : List Char := ['%', hexDigit (b.toNat / 16), hexDigit (b.toNat % 16)]

/-- Encodes what `keep` does not keep. -/
def encode (keep : Char → Bool) (text : List Char) : List Char :=
  text.flatMap fun c => if keep c then [c] else (utf8 c).flatMap percentEncode

/-! ## Decoding -/

def hexValue (c : Char) : Option ℕ :=
  if '0' ≤ c ∧ c ≤ '9' then some (c.toNat - 48)
  else if 'A' ≤ c ∧ c ≤ 'F' then some (c.toNat - 55)
  else if 'a' ≤ c ∧ c ≤ 'f' then some (c.toNat - 87)
  else none

/-- None where a `%` is not followed by two hexadecimal digits. -/
def decodeBytes : List Char → Option (List Octet)
  | [] => some []
  | c :: rest =>
    if c = '%' then
      match rest with
      | a :: b :: rest => do
        let byte := BitVec.ofNat 8 (16 * (← hexValue a) + (← hexValue b))
        (decodeBytes rest).map (byte :: ·)
      | _ => none
    else if c = '+' then (decodeBytes rest).map (0x20 :: ·)
    else (decodeBytes rest).map (utf8 c ++ ·)

/-- None also where the bytes are no UTF-8. -/
def decode (chars : List Char) : Option String :=
  (decodeBytes chars).bind fun bytes => String.fromUTF8? (bytes.map UInt8.ofBitVec).toByteArray

/-! ## One character -/

theorem hexValue_hexDigit {n : ℕ} (hn : n < 16) : hexValue (hexDigit n) = some n := by
  revert n
  decide +kernel

theorem hexDigit_alphanumeric {n : ℕ} (hn : n < 16) : (hexDigit n).isAlphanum = true := by
  revert n
  decide +kernel

theorem decodeBytes_percentEncode (b : Octet) (rest : List Char) :
    decodeBytes (percentEncode b ++ rest) = (decodeBytes rest).map (b :: ·) := by
  have hb := b.isLt
  have hhigh : hexValue (hexDigit (b.toNat / 16)) = some (b.toNat / 16) :=
    hexValue_hexDigit (by omega)
  have hlow : hexValue (hexDigit (b.toNat % 16)) = some (b.toNat % 16) := hexValue_hexDigit (by omega)
  have hbyte : BitVec.ofNat 8 (16 * (b.toNat / 16) + b.toNat % 16) = b := by
    apply BitVec.eq_of_toNat_eq
    rw [BitVec.toNat_ofNat]
    omega
  simp only [percentEncode, List.cons_append, List.nil_append, decodeBytes, if_true, hhigh, hlow,
    Option.bind_eq_bind, Option.bind_some, hbyte]

theorem decodeBytes_flatMap (bytes : List Octet) (rest : List Char) :
    decodeBytes (bytes.flatMap percentEncode ++ rest) = (decodeBytes rest).map (bytes ++ ·) := by
  induction bytes with
  | nil => simp
  | cons b bytes ih =>
    rw [List.flatMap_cons, List.append_assoc, decodeBytes_percentEncode, ih, Option.map_map]
    rfl

theorem decodeBytes_plain {c : Char} (hpercent : c ≠ '%') (hplus : c ≠ '+') (rest : List Char) :
    decodeBytes (c :: rest) = (decodeBytes rest).map (utf8 c ++ ·) := by
  rw [decodeBytes.eq_def]
  simp only [if_neg hpercent, if_neg hplus]

/-! ## A text -/

/-- What is kept is not taken for the encoding of something else. -/
def Safe (keep : Char → Bool) : Prop := ∀ c, keep c = true → c ≠ '%' ∧ c ≠ '+'

theorem decodeBytes_encode {keep : Char → Bool} (hkeep : Safe keep) (text : List Char) :
    decodeBytes (encode keep text) = some (text.flatMap utf8) := by
  induction text with
  | nil => rfl
  | cons c text ih =>
    have hchar : decodeBytes ((if keep c then [c] else (utf8 c).flatMap percentEncode) ++
        encode keep text) = (decodeBytes (encode keep text)).map (utf8 c ++ ·) := by
      by_cases hc : keep c = true
      · rw [if_pos hc]
        exact decodeBytes_plain (hkeep c hc).1 (hkeep c hc).2 _
      · rw [if_neg hc]
        exact decodeBytes_flatMap (utf8 c) _
    have hcons : encode keep (c :: text) =
        (if keep c then [c] else (utf8 c).flatMap percentEncode) ++ encode keep text := List.flatMap_cons
    rw [hcons, hchar, ih]
    rfl

theorem decode_of_bytes {chars text : List Char}
    (h : decodeBytes chars = some (text.flatMap utf8)) : decode chars = some (String.ofList text) := by
  have hbytes : ((text.flatMap utf8).map UInt8.ofBitVec).toByteArray = (String.ofList text).toByteArray := by
    have hchar : ∀ c, (utf8 c).map UInt8.ofBitVec = String.utf8EncodeChar c := by
      intro c
      rw [utf8, List.map_map]
      exact List.map_id'' (fun b => rfl) _
    rw [List.map_flatMap, String.toByteArray_ofList, List.utf8Encode]
    simp only [hchar]
  rw [decode, h, Option.bind_some, hbytes, String.fromUTF8?]
  exact dif_pos (String.ofList text).isValidUTF8

/-- What has been encoded is read back. -/
theorem decode_encode {keep : Char → Bool} (hkeep : Safe keep) (text : List Char) :
    decode (encode keep text) = some (String.ofList text) :=
  decode_of_bytes (decodeBytes_encode hkeep text)

/-- A text that needs no encoding is read as it is. -/
theorem encode_of_kept {keep : Char → Bool} {text : List Char} (h : text.all keep = true) :
    encode keep text = text := by
  induction text with
  | nil => rfl
  | cons c text ih =>
    rw [List.all_cons, Bool.and_eq_true] at h
    have hcons : encode keep (c :: text) =
        (if keep c then [c] else (utf8 c).flatMap percentEncode) ++ encode keep text := List.flatMap_cons
    rw [hcons, if_pos h.1, ih h.2]
    rfl

/-- The characters of an encoding. -/
theorem mem_encode {keep : Char → Bool} {text : List Char} {c : Char} (h : c ∈ encode keep text) :
    (c ∈ text ∧ keep c = true) ∨ c = '%' ∨ c.isAlphanum = true := by
  obtain ⟨d, hmem, hc⟩ := List.mem_flatMap.mp h
  by_cases hd : keep d = true
  · rw [if_pos hd, List.mem_singleton] at hc
    subst hc
    exact .inl ⟨hmem, hd⟩
  · rw [if_neg hd] at hc
    obtain ⟨b, _, hb⟩ := List.mem_flatMap.mp hc
    have hlt := b.isLt
    simp only [percentEncode, List.mem_cons, List.not_mem_nil, or_false] at hb
    obtain rfl | rfl | rfl := hb
    · exact .inr (.inl rfl)
    · exact .inr (.inr (hexDigit_alphanumeric (by omega)))
    · exact .inr (.inr (hexDigit_alphanumeric (by omega)))

/-! ## Queries -/

/-- The name and the value of a parameter, before and after its first `=`. -/
def parameter (chars : List Char) : Option (String × String) := do
  let name ← decode (chars.takeWhile fun c => decide (c ≠ '='))
  let value ← decode ((chars.dropWhile fun c => decide (c ≠ '=')).drop 1)
  some (name, value)

/-- The parameters of a query in their order; none where one of them cannot be decoded. -/
def parse (query : List Char) : Option (List (String × String)) :=
  ((query.splitOn '&').filter fun chars => !chars.isEmpty).mapM parameter

theorem ne_of_not_mem {text : List Char} {c : Char} (h : c ∉ text) :
    ∀ d ∈ text, decide (d ≠ c) = true := by
  intro d hd
  rw [decide_eq_true_iff]
  rintro rfl
  exact h hd

theorem parameter_eq {name value : List Char} {n v : String} (hname : '=' ∉ name)
    (hn : decode name = some n) (hv : decode value = some v) :
    parameter (name ++ '=' :: value) = some (n, v) := by
  have hall := ne_of_not_mem hname
  have htake : (name ++ '=' :: value).takeWhile (fun c => decide (c ≠ '=')) = name := by
    rw [List.takeWhile_append_of_pos hall, List.takeWhile_cons_of_neg (by decide), List.append_nil]
  have hdrop : (name ++ '=' :: value).dropWhile (fun c => decide (c ≠ '=')) = '=' :: value := by
    rw [List.dropWhile_append_of_pos hall, List.dropWhile_cons_of_neg (by decide)]
  rw [parameter, htake, hdrop, hn]
  simp only [List.drop_succ_cons, List.drop_zero, Option.bind_eq_bind, Option.bind_some, hv]

/-- What stands after the first `?` of a URL. -/
def query (url : List Char) : List Char := (url.dropWhile fun c => decide (c ≠ '?')).drop 1

theorem query_append {front : List Char} (hfront : '?' ∉ front) (chars : List Char) :
    query (front ++ '?' :: chars) = chars := by
  rw [query, List.dropWhile_append_of_pos (ne_of_not_mem hfront), List.dropWhile_cons_of_neg (by decide),
    List.drop_succ_cons, List.drop_zero]

/-- Parameters put between ampersands are found again. -/
theorem parse_intercalate {ε : Type} {entries : List ε} (chars : ε → List Char)
    (read : ε → String × String) (hne : entries ≠ [])
    (hentry : ∀ e ∈ entries, '&' ∉ chars e ∧ chars e ≠ [] ∧ parameter (chars e) = some (read e)) :
    parse (['&'].intercalate (entries.map chars)) = some (entries.map read) := by
  have hamp : ∀ l ∈ entries.map chars, '&' ∉ l := by
    intro l hl
    obtain ⟨e, he, rfl⟩ := List.mem_map.mp hl
    exact (hentry e he).1
  have hfilter : ((entries.map chars).filter fun l => !l.isEmpty) = entries.map chars := by
    rw [List.filter_eq_self]
    intro l hl
    obtain ⟨e, he, rfl⟩ := List.mem_map.mp hl
    simpa using (hentry e he).2.1
  have hparameters : (entries.map chars).mapM parameter = some (entries.map read) := by
    clear hne hamp hfilter
    induction entries with
    | nil => rfl
    | cons e entries ih =>
      rw [List.map_cons, List.mapM_cons, (hentry e List.mem_cons_self).2.2,
        ih fun d hd => hentry d (List.mem_cons_of_mem e hd)]
      rfl
  rw [parse, List.splitOn_intercalate '&' hamp (by simpa using hne), hfilter, hparameters]

/-- A query of one parameter. -/
theorem parse_single {chars : List Char} {p : String × String} (hamp : '&' ∉ chars) (hne : chars ≠ [])
    (h : parameter chars = some p) : parse chars = some [p] := by
  have hparse := parse_intercalate id (fun _ => p) (List.cons_ne_nil chars [])
    fun c hc => by
      obtain rfl := List.mem_singleton.mp hc
      exact ⟨hamp, hne, h⟩
  rwa [List.map_singleton, id_eq, List.intercalate_singleton] at hparse

end FormUrl
