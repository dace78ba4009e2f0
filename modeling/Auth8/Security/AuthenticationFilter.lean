import Auth8.Jaxrs.Response
import Mathlib.Data.List.Basic

/-! # The class `AuthenticationFilter`

The registered request filter, and the requests on which it runs before their resource method. All of the
statements of `filter` are commented out. -/
namespace Auth8.Security
open Jaxrs
set_option autoImplicit false

structure UriInfo where
  path : String
  /-- decoded, in the order of the query -/
  queryParameters : List (String × String)
  requestUri : String
  deriving DecidableEq, Repr

def UriInfo.getFirst (uriInfo : UriInfo) (name : String) : Option String :=
  (uriInfo.queryParameters.find? fun parameter => decide (parameter.1 = name)).map Prod.snd

structure ContainerRequestContext where
  uriInfo : UriInfo
  /-- the response of `abortWith` -/
  aborted : Option Response

def AuthenticationFilter.filter (requestContext : ContainerRequestContext) :
    ContainerRequestContext := requestContext

/-- The answer to a request: that of `abortWith`, or that of the resource method. -/
def serve {σ : Type} (resource : σ → Option Response × σ) (s : σ) (uriInfo : UriInfo) :
    Option Response × σ :=
  match (AuthenticationFilter.filter ⟨uriInfo, none⟩).aborted with
  | some response => (some response, s)
  | none => resource s

/-- Every request reaches its resource method. -/
theorem serve_eq {σ : Type} (resource : σ → Option Response × σ) (s : σ) (uriInfo : UriInfo) :
    serve resource s uriInfo = resource s := rfl

/-! ## The request URI without its signature -/

def isSignature (parameter : List Char) : Bool := "signature=".toList.isPrefixOf parameter

/-- The parameters of a query, without the signature. -/
def queryWithoutSignature (query : List Char) : List Char :=
  ['&'].intercalate ((query.splitOn '&').filter fun parameter => !isSignature parameter)

def withoutSignature (requestUri : String) : String :=
  let uri := requestUri.toList
  let base := uri.takeWhile fun c => decide (c ≠ '?')
  match uri.dropWhile fun c => decide (c ≠ '?') with
  | [] => requestUri
  | _ :: query =>
    match queryWithoutSignature query with
    | [] => String.ofList base
    | rest => String.ofList (base ++ '?' :: rest)

end Auth8.Security
