/-
Outcomes of a check other than an answer.
-/
import AccessPolicy.ConfigurationError
import AccessPolicy.Resource

namespace AccessPolicy

/-- A refusal by the policy. -/
structure AccessDenied where
  resourceType : ResourceType
  action : Action
  instanceId : Option String
deriving DecidableEq, Repr

namespace AccessDenied

def message (d : AccessDenied) : String :=
  "access denied: `" ++ d.action.key ++ "` on `" ++ d.resourceType.name ++ "`" ++
    match d.instanceId with
    | some id => " (instance `" ++ id ++ "`)"
    | none => ""

end AccessDenied

/-- A failure of the store of roles and permissions or of an entity loader. -/
inductive StoreError where
  | backend (reason : String)
  | serialization (reason : String)
  | configuration (error : ConfigurationError)
  | corrupt (reason : String)
  | unavailable (reason : String)
deriving DecidableEq, Repr

namespace StoreError

def message : StoreError → String
  | backend reason => "store backend error: " ++ reason
  | serialization reason => "malformed stored value: " ++ reason
  | configuration error => error.message
  | corrupt reason => "corrupt stored record: " ++ reason
  | unavailable reason => "store unavailable: " ++ reason

end StoreError

inductive AuthorizationError where
  | accessDenied (denied : AccessDenied)
  | configuration (error : ConfigurationError)
  | store (error : StoreError)
  | relatedEntityNotFound (resourceType : ResourceType) (identifier : String)
  | noPrincipal
deriving DecidableEq, Repr

namespace AuthorizationError

def isAccessDenied : AuthorizationError → Bool
  | accessDenied _ => true
  | _ => false

/-- A configuration defect that a store reports is a configuration defect. -/
def ofStore : StoreError → AuthorizationError
  | .configuration error => .configuration error
  | error => .store error

def message : AuthorizationError → String
  | accessDenied denied => denied.message
  | configuration error => error.message
  | store error => error.message
  | relatedEntityNotFound resourceType identifier =>
    "related `" ++ resourceType.name ++ "` with identifier `" ++ identifier ++ "` not found"
  | noPrincipal => "no authenticated principal in scope"

/-- A result that can only fail by a defect of configuration. -/
def liftConfiguration {α : Type} (r : Except ConfigurationError α) :
    Except AuthorizationError α :=
  r.mapError configuration

/-- A result that can only fail in the store. -/
def liftStore {α : Type} (r : Except StoreError α) : Except AuthorizationError α :=
  r.mapError ofStore

end AuthorizationError
end AccessPolicy
