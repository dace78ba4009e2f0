import Auth8.Playground.JsShaOutput

/-! # The output of `sha1.js` as its input

`v` reads the hexadecimal digits that `y` writes, and `x` the Base64 that `z` writes, as the same bytes. A
hash that has been written out can be hashed on from there. -/
namespace Auth8.Playground.JsSha
open BigEndian JsArray Unicode
open Base64 (digit sextet sextet_lt octet quantum group encode)
set_option autoImplicit false

end Auth8.Playground.JsSha
