import Auth8.Playground.JsShaOutput
import Auth8.Security.Signature

/-! # Signing in the browser and on the server

The documentation page signs with the script, the server with `Signature`. Both write the Base64 of the
HMAC of a text under a private key. -/
namespace Auth8.Playground
open Persistent Security JsSha Unicode
set_option autoImplicit false

/-- The characters of the signature that the page puts into a URL. -/
def clientSignature (text privateKey : String) : Except String (List Char) :=
  textHmac (codeUnits text.toList) (codeUnits privateKey.toList)

/-- The numbers of bytes for which the counters of the script do not wrap: a key is hashed by itself, a
text after a block of 64 bytes. -/
structure Signable (text privateKey : String) : Prop where
  text : 8 * ((codeUnits text.toList).flatMap unitBytes).length + 577 < 4294967296
  key : 8 * ((codeUnits privateKey.toList).flatMap unitBytes).length + 65 < 4294967296

theorem clientSignature_eq {text privateKey : String} (h : Signable text privateKey) :
    clientSignature text privateKey =
      .ok (Base64.encode (Sha1.hmac (privateKey.toList.flatMap charBytes)
        (text.toList.flatMap charBytes))) := by
  rw [clientSignature, textHmac_eq h.text h.key, codeUnits_bytes, codeUnits_bytes]

theorem utf8Encode_eq (text : String) : utf8Encode text = text.toList.flatMap utf8 :=
  toUTF8_toList text

/-- Of plain characters the script sees the bytes of the server. -/
theorem charBytes_utf8Encode {text : String} (h : ∀ c ∈ text.toList, Plain c) :
    text.toList.flatMap charBytes = utf8Encode text := by
  rw [utf8Encode_eq, (flatMap_charBytes_iff _).mpr h]

/-- Whatever the key and the text, of plain characters the script writes the Base64 of the HMAC of their
UTF-8 bytes. -/
theorem clientSignature_utf8 {text privateKey : String} (h : Signable text privateKey)
    (htext : ∀ c ∈ text.toList, Plain c) (hprivate : ∀ c ∈ privateKey.toList, Plain c) :
    clientSignature text privateKey =
      .ok (Base64.encode (Sha1.hmac (utf8Encode privateKey) (utf8Encode text))) := by
  rw [clientSignature_eq h, charBytes_utf8Encode htext, charBytes_utf8Encode hprivate]

theorem clientSignature_changeit :
    clientSignature "/v1/$/users?timestamp=0" "changeit" =
      .ok (Base64.encode (Sha1.hmac (utf8Encode "changeit") (utf8Encode "/v1/$/users?timestamp=0"))) :=
  clientSignature_utf8 ⟨by decide +kernel, by decide +kernel⟩ (plain_of_all (by decide))
    (plain_of_all (by decide))

end Auth8.Playground
