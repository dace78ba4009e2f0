import Auth8.Credentials.ExactUser
import Auth8.Security.AuthenticationFilter
import Mathlib.Algebra.Group.Int.Defs

/-! # Signed requests

The requests that are to reach a resource are those for the server time and the API documentation, and
those signed by a user within five minutes. The filter lets every request through, so the others are
served as well. -/
namespace Auth8.Credentials
open KeyedTable Persistent Jaxrs Security
set_option autoImplicit false

/-- The value of decimal digits. -/
def decimal (digits : List Char) : Option ℤ :=
  if digits.isEmpty || !digits.all Char.isDigit then none
  else some (digits.foldl (fun n c => 10 * n + (c.toNat - '0'.toNat : ℕ)) 0)

/-- `Long.parseLong` of a text of ASCII characters. -/
def parseLong (s : String) : Option ℤ :=
  let value := match s.toList with
    | '-' :: digits => (decimal digits).map fun n => -n
    | '+' :: digits => decimal digits
    | digits => decimal digits
  value.filter fun n => decide (-2 ^ 63 ≤ n ∧ n < 2 ^ 63)

/-- The server time, and the API documentation with no query. -/
def Exempt (uriInfo : UriInfo) : Prop :=
  uriInfo.path = "/v1/$/time" ∨ uriInfo.path = "/jsondoc" ∧ uriInfo.queryParameters = []

/-- The timestamp lies within five minutes of the server clock. -/
def Timely (now : ℤ) (uriInfo : UriInfo) : Prop :=
  ∃ timestamp time, uriInfo.getFirst "timestamp" = some timestamp ∧
    parseLong timestamp = some time ∧ now - 300000 ≤ time ∧ time ≤ now + 300000

/-- The request is timely, and its signature that of the user it names. -/
structure Signed (platform : Platform) (users : UserTable) (now : ℤ) (uriInfo : UriInfo) : Prop where
  timestamp : Timely now uriInfo
  signature : ∃ publicKey, uriInfo.getFirst "public_key" = some publicKey ∧
    ∃ row ∈ users.rows, row.2.publicKey = some publicKey ∧
      ∃ sign, uriInfo.getFirst "signature" = some sign ∧
        signature platform row.2 (withoutSignature uriInfo.requestUri) = some sign

/-- Whatever the resource method, the answer is 401 and the state is left as it is. -/
def Rejected (uriInfo : UriInfo) : Prop :=
  ∀ {σ : Type} (resource : σ → Option Response × σ) (s : σ),
    ∃ e, serve resource s uriInfo = (some (errorResponse 401 e), s)

/-- What the filter is to do with a request. -/
def Guarded (platform : Platform) (users : UserTable) (now : ℤ) (uriInfo : UriInfo) : Prop :=
  ¬ Exempt uriInfo → ¬ Signed platform users now uriInfo → Rejected uriInfo

theorem not_rejected (uriInfo : UriInfo) : ¬ Rejected uriInfo := by
  intro h
  obtain ⟨e, he⟩ := h (fun s : Unit => (none, s)) ()
  rw [serve_eq] at he
  cases he

/-- Exactly the requests that are to reach a resource are treated as they are to be. -/
theorem guarded_iff (platform : Platform) (users : UserTable) (now : ℤ) (uriInfo : UriInfo) :
    Guarded platform users now uriInfo ↔ Exempt uriInfo ∨ Signed platform users now uriInfo := by
  constructor
  · intro h
    by_contra hno
    obtain ⟨hexempt, hsigned⟩ := not_or.mp hno
    exact not_rejected uriInfo (h hexempt hsigned)
  · rintro (hexempt | hsigned) hnotExempt hnotSigned
    · exact absurd hexempt hnotExempt
    · exact absurd hsigned hnotSigned

/-! ## The requests of the playground -/

/-- With a MAC of zero bytes. -/
example : Signed ⟨utf8Encode, fun _ _ => some (Vector.replicate 20 0)⟩
    ((empty 200).insert ⟨some "changeit", some "changeit"⟩) 1404000000000
    ⟨"/v1/$/users",
      [("timestamp", "1404000000000"), ("public_key", "changeit"),
        ("signature", "AAAAAAAAAAAAAAAAAAAAAAAAAAA=")],
      "http://localhost:8080/api/v1/$/users?timestamp=1404000000000&public_key=changeit" ++
        "&signature=AAAAAAAAAAAAAAAAAAAAAAAAAAA%3D"⟩ where
  timestamp := ⟨"1404000000000", 1404000000000, by decide +kernel, by decide +kernel, by decide,
    by decide⟩
  signature := ⟨"changeit", by decide +kernel, _, List.mem_singleton_self _, rfl, _, rfl,
    by decide +kernel⟩

/-! ## A request without a signature -/

/-- `DELETE v1/$/users` for the default user. -/
def unsignedDelete : UriInfo :=
  ⟨"/v1/$/users", [("key", "changeit")], "http://localhost:8080/api/v1/$/users?key=changeit"⟩

theorem unsignedDelete_not_signed (platform : Platform) (users : UserTable) (now : ℤ) :
    ¬ Signed platform users now unsignedDelete := by
  intro h
  obtain ⟨timestamp, _, htimestamp, _⟩ := h.timestamp
  have hnone : unsignedDelete.getFirst "timestamp" = none := by decide +kernel
  rw [hnone] at htimestamp
  cases htimestamp

/-- The request is served, and the default user is gone. -/
theorem unsignedDelete_served :
    ((serve (fun s => deleteUser (.asStored _) (fun _ => .none) s ["changeit"]) (.clean defaultUser)
      unsignedDelete).1 = some removed) ∧
    ((serve (fun s => deleteUser (.asStored _) (fun _ => .none) s ["changeit"]) (.clean defaultUser)
      unsignedDelete).2.table.rows = []) := by
  decide +kernel

theorem unsignedDelete_not_guarded : ¬ ∀ (platform : Platform) (users : UserTable) (now : ℤ)
    (uriInfo : UriInfo), Guarded platform users now uriInfo := by
  intro h
  have hexempt : ¬ Exempt unsignedDelete := by
    unfold Exempt
    decide +kernel
  obtain ⟨e, he⟩ := h constantMac defaultUser 0 unsignedDelete hexempt (unsignedDelete_not_signed _ _ _)
    (fun s => deleteUser (.asStored _) (fun _ => .none) s ["changeit"]) (.clean defaultUser)
  have hanswer := unsignedDelete_served.1
  rw [he] at hanswer
  cases Option.some.inj hanswer

end Auth8.Credentials
