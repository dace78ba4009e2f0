/-! # Responses

`Success.response`, which answers 200 with the data and ignores its message, and the error bodies
`RestError.build` constructs. A response entity is a JSON object, here the list of its entries. -/
namespace Auth8.Jaxrs
set_option autoImplicit false

/-- The values the endpoints put into a response body. -/
inductive Value where
  | null
  | bool (b : Bool)
  | str (s : String)
  | list (l : List (Option String))
  deriving DecidableEq, Repr

def Value.ofString : Option String → Value
  | none => .null
  | some s => .str s

inductive ErrorType where
  | RESOURCE_NOT_FOUND
  | INVALID_CREDENTIALS
  | EXPIRED_TIMESTAMP
  | UNKNOWN_ERROR
  | DEVICE_NOT_REGISTERED
  | SERVER_ERROR
  deriving DecidableEq, Repr

structure RestError where
  code : Nat
  reason : String
  message : String
  location_type : String
  location : String
  deriving DecidableEq, Repr

def RestError.build : ErrorType → RestError
  | .INVALID_CREDENTIALS =>
    ⟨401, "invalid_credentials", "The supplied credentials are invalid.", "Request headers",
      "Authorization"⟩
  | .EXPIRED_TIMESTAMP =>
    ⟨401, "invalid_parameter",
      "The signature timestamp has expired. Timestamps are in UTC and are valid for 60 secounds.",
      "parameter", "timestamp"⟩
  | .RESOURCE_NOT_FOUND =>
    ⟨404, "resource_not_found", "The requested resource could not be found.", "URI", "URI"⟩
  | .UNKNOWN_ERROR =>
    ⟨503, "invalid_parameter",
      "OOPS we missed this one! If you see this message please contact SOLiD support with the " ++
        "query you tried to execute.", "parameter", "unknown"⟩
  | .SERVER_ERROR => ⟨503, "server_error", "Internal server error.", "internal", "server"⟩
  | .DEVICE_NOT_REGISTERED =>
    ⟨503, "device_not_registered", "No device is registered for this email.", "internal", "server"⟩

inductive Entity where
  | data (entries : Option (List (String × Value)))
  | error (e : RestError)
  deriving DecidableEq, Repr

structure Response where
  status : Nat
  entity : Entity
  deriving DecidableEq, Repr

/-- `Success.response(message, data, request)`. -/
def Success.response (_message : Option String) (data : Option (List (String × Value))) : Response :=
  ⟨200, .data data⟩

/-- `Response.status(status).entity(new RestError().build(e)).build()`. -/
def errorResponse (status : Nat) (e : ErrorType) : Response := ⟨status, .error (.build e)⟩

/-- A call has answered, with a success or with a `RestError`. -/
def IsAnswer (response : Option Response) : Prop :=
  ∃ r, response = some r ∧
    ((∃ message data, r = Success.response message data) ∨ ∃ status e, r = errorResponse status e)

theorem isAnswer_success (message : Option String) (data : Option (List (String × Value))) :
    IsAnswer (some (Success.response message data)) := ⟨_, rfl, .inl ⟨message, data, rfl⟩⟩

theorem isAnswer_error (status : Nat) (e : ErrorType) : IsAnswer (some (errorResponse status e)) :=
  ⟨_, rfl, .inr ⟨status, e, rfl⟩⟩

theorem not_isAnswer_none : ¬ IsAnswer none := nofun

end Auth8.Jaxrs
