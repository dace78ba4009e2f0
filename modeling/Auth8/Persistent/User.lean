import Auth8.Foundations.UnitOfWork
import Auth8.Persistent.DeviceTable

/-! # The entity `User`

A row of `PUBLIC.SUBJECT`, both of whose columns are nullable, and its selection by public key. -/
namespace Auth8.Persistent
open KeyedTable
set_option autoImplicit false

structure User where
  publicKey : Option String
  privateKey : Option String
  deriving DecidableEq, Repr

def User.setPublicKey (publicKey : String) (user : User) : User :=
  { user with publicKey := some publicKey }

def User.setPrivateKey (privateKey : String) (user : User) : User :=
  { user with privateKey := some privateKey }

def User.isComplete (user : User) : Bool := user.publicKey.isSome && user.privateKey.isSome

abbrev UserTable := KeyedTable User

abbrev UserOrder := RowOrder (ℕ × User)

/-- `performQuery` for the users whose public key is like the pattern, and the first of them; a column
that is NULL is like nothing. -/
def queryPublicKey (order : UserOrder) (t : UserTable) (publicKey : String) : Option (ℕ × User) :=
  t.first order fun user => user.publicKey.any (likeExp (some publicKey))

end Auth8.Persistent
