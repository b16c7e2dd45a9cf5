/-
Errors as callers of the service see them.
-/
import AccessPolicy.AuthorizationError
import AccessPolicy.Json

namespace AccessPolicy

/-- Why the service gave no answer. -/
inductive ServiceError where
  | unauthorized (reason : String)
  | forbidden (reason : String)
  | notFound (reason : String)
  | configuration (reason : String)
  | token (reason : String)
  | internal (reason : String)
deriving DecidableEq, Repr

namespace ServiceError

/-- The HTTP status.  A defect of the configuration is never shown as a
refusal. -/
def status : ServiceError → Nat
  | unauthorized _ => 401
  | forbidden _ => 403
  | notFound _ => 404
  | configuration _ => 500
  | token _ => 401
  | internal _ => 500

def code : ServiceError → String
  | unauthorized _ => "unauthorized"
  | forbidden _ => "forbidden"
  | notFound _ => "not_found"
  | configuration _ => "configuration"
  | token _ => "token"
  | internal _ => "internal"

def message : ServiceError → String
  | unauthorized reason => "unauthorized: " ++ reason
  | forbidden reason => "forbidden: " ++ reason
  | notFound reason => "not found: " ++ reason
  | configuration reason => "configuration error: " ++ reason
  | token reason => "token error: " ++ reason
  | internal reason => "internal server error: " ++ reason

def body (e : ServiceError) : Json :=
  .object [("error", .string e.code), ("message", .string e.message)]

/-- A failure of the store is the only authorization error that says nothing
about the caller or the configuration. -/
def ofAuthorization : AuthorizationError → ServiceError
  | .accessDenied denied => forbidden denied.message
  | .noPrincipal => unauthorized (AuthorizationError.message .noPrincipal)
  | .relatedEntityNotFound type identifier =>
    notFound (AuthorizationError.message (.relatedEntityNotFound type identifier))
  | .configuration error => configuration error.message
  | .store error => internal error.message

def ofStore (e : StoreError) : ServiceError := ofAuthorization (.ofStore e)

end ServiceError
end AccessPolicy
