import Auth8.Persistent.User
import Auth8.Security.EncodeBytes

/-! # The class `Signature`

`signUrl` looks up the user of a public key and signs under the private key of that user. The algorithm
HmacSHA1 is the platform's; `encodeBytes` is the class's own. -/
namespace Auth8.Security
open Base64 KeyedTable Persistent
set_option autoImplicit false

structure Platform where
  /-- `String.getBytes()`, in the charset of the platform -/
  getBytes : String → List Byte
  /-- `Mac.doFinal` under a key; none where the key is refused -/
  hmacSHA1 : List Byte → List Byte → Option (Vector Byte 20)

def utf8Encode (data : String) : List Byte := data.toUTF8.toList.map UInt8.toBitVec

/-- None where an exception is thrown or null is returned, either of which ends in an exception. -/
def hmacSha1 (platform : Platform) (secretKey : Option String) (data : List Byte) :
    Option (Vector Byte 20) :=
  secretKey.bind fun secretKey => platform.hmacSHA1 (platform.getBytes secretKey) data

def signUrl (platform : Platform) (order : UserOrder) (t : UserTable)
    (stringToSign publicKey : String) : Option String := do
  -- `get(0)` throws
  let user ← queryPublicKey order t publicKey
  let mac ← hmacSha1 platform user.2.privateKey (utf8Encode stringToSign)
  encodeBytes mac.toList

/-! ## What a signature is -/

/-- The Base64 encoding of the HMAC of a text under the private key of a user. -/
def signature (platform : Platform) (user : User) (stringToSign : String) : Option String :=
  (hmacSha1 platform user.privateKey (utf8Encode stringToSign)).map fun mac =>
    String.ofList (encode mac.toList)

theorem encodeBytes_mac (mac : Vector Byte 20) :
    encodeBytes mac.toList = some (String.ofList (encode mac.toList)) := by
  apply encodeBytes_eq
  rw [Vector.length_toList]
  decide

theorem signUrl_eq (platform : Platform) (order : UserOrder) (t : UserTable)
    (stringToSign publicKey : String) :
    signUrl platform order t stringToSign publicKey =
      (queryPublicKey order t publicKey).bind fun user => signature platform user.2 stringToSign := by
  unfold signUrl signature
  simp only [Option.bind_eq_bind, encodeBytes_mac, Option.map_eq_bind]
  rfl

end Auth8.Security
