import Auth8.Foundations.FormUrl
import Auth8.Playground.PathTemplate
import Auth8.Playground.Signing

/-! # The requests of the documentation page

The button of the playground fills in the path, puts the query parameters, the time and the public key
after it, signs what it has, and puts the signature at the end. -/
namespace Auth8.Playground
open FormUrl
set_option autoImplicit false

def unreserved (c : Char) : Bool :=
  c.isAlphanum || ['-', '_', '.', '!', '~', '*', Char.ofNat 39, '(', ')'].contains c

def encodeURIComponent (text : List Char) : List Char := encode unreserved text

def addParameter (path parameter : List Char) : List Char :=
  if '?' ∈ path then path ++ '&' :: parameter else path ++ '?' :: parameter

/-- An input that is left empty adds nothing. -/
def addInput (path : List Char) (input : List Char × List Char) : List Char :=
  if 0 < input.2.length then addParameter path (input.1 ++ '=' :: encodeURIComponent input.2) else path

/-- What the page knows when the button is pressed. -/
structure Form where
  basePath : List Char
  path : List Char
  pathparameters : List (List Char × List Char)
  queryparameters : List (List Char × List Char)
  inputPublicKey : List Char
  inputPrivateKey : List Char

/-- What is signed, without the base path. -/
def Form.replacedPath (form : Form) (time : ℕ) : List Char :=
  let replacedPath := replacePath form.path form.pathparameters
  let replacedPath := form.queryparameters.foldl addInput replacedPath
  let replacedPath := addParameter replacedPath ("timestamp=".toList ++ Nat.toDigits 10 time)
  replacedPath ++ ("&public_key=".toList ++ form.inputPublicKey)

/-- The URL that is called. -/
def Form.url (form : Form) (time : ℕ) : Except String (List Char) := do
  let replacedPath := form.replacedPath time
  let hmac ← clientSignature (String.ofList (form.basePath ++ replacedPath))
    (String.ofList form.inputPrivateKey)
  pure (form.basePath ++ (replacedPath ++ ("&signature=".toList ++ encodeURIComponent hmac)))

/-! ## The query -/

/-- A parameter as it stands in the URL. -/
def entryChars (entry : List Char × List Char) : List Char :=
  entry.1 ++ '=' :: encodeURIComponent entry.2

/-- The parameters with a value, and the time. -/
def Form.entries (form : Form) (time : ℕ) : List (List Char × List Char) :=
  (form.queryparameters.filter fun input => decide (0 < input.2.length)) ++
    [("timestamp".toList, Nat.toDigits 10 time), ("public_key".toList, form.inputPublicKey)]

end Auth8.Playground
