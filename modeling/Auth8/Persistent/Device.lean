/-! The entity `Device` as `datamap.map.xml` maps it: a row of `PUBLIC.DEVICE`, whose columns `EMAIL`
and `REGID` are mandatory and whose column `NAME` is nullable. The generated primary key `ID` is kept
by the table that holds the row. -/
namespace Auth8.Persistent
set_option autoImplicit false

structure Device where
  email : String
  name : Option String
  regid : String
  deriving DecidableEq, Repr

def emailLength : Nat := 100
def nameLength : Nat := 100
def regidLength : Nat := 500

end Auth8.Persistent
