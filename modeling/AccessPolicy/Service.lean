/-
The service: the single entry point for permission checks.

Within a bypass scope every check succeeds.  Outside, the acting principal is
the delegate user of a delegate request and the current principal otherwise, and
the permissions that count are those of roles that the principal holds.
-/
import AccessPolicy.Repository
import AccessPolicy.Specification

namespace AccessPolicy

structure AuthorizationService where
  registry : Registry
  roles : RoleRepository
  principals : PrincipalSource

namespace AuthorizationService

open AuthorizationError (liftStore)

/-- The permissions of a role for exactly the type and action. -/
def permissionsOf (s : AuthorizationService) (role : Role) (type : ResourceType)
    (action : Action) : Except AuthorizationError (List Permission) := do
  let permissions ← liftStore (s.roles.permissionsFor role type)
  pure (permissions.filter fun p => p.grants type action)

/-- The permissions of several roles, one role after the other. -/
def permissionsOfAll (s : AuthorizationService) (type : ResourceType) (action : Action) :
    List Role → Except AuthorizationError (List Permission)
  | [] => .ok []
  | role :: rest => do
    let permissions ← s.permissionsOf role type action
    let others ← permissionsOfAll s type action rest
    pure (permissions ++ others)

/-- The permissions of the roles that grant the action and that the principal
holds. -/
def resolvePermissions (s : AuthorizationService) (principal : Principal) (type : ResourceType)
    (action : Action) : Except AuthorizationError (List Permission) := do
  let granting ← liftStore (s.roles.rolesGranting type action)
  s.permissionsOfAll type action (granting.filter principal.roles.contains).roles

/-- On whose behalf a request is decided. -/
def effectivePrincipal (s : AuthorizationService) (ambient : Ambient) (request : Request) :
    Except AuthorizationError Principal :=
  match request.subject with
  | .delegate user _ => (liftStore (s.roles.rolesOfUser user)).map fun roles => ⟨user, roles⟩
  | _ =>
    match s.principals.current ambient with
    | some principal => .ok principal
    | none => .error .noPrincipal

/-- The specification outside a bypass scope.  A `deny` request is refused
before anything is asked. -/
def specification (s : AuthorizationService) (ambient : Ambient) (request : Request) :
    Except AuthorizationError Specification :=
  if request.action.isDeny then .ok (.denied request.resourceType request.action)
  else do
    let principal ← s.effectivePrincipal ambient request
    let permissions ← s.resolvePermissions principal request.resourceType request.action
    Specification.compile s.registry ambient principal request permissions

/-- Whether the request is authorized. -/
def hasPermission (s : AuthorizationService) (ambient : Ambient) (request : Request) :
    Except AuthorizationError Bool :=
  if ambient.isBypassed then .ok true
  else do
    let specification ← s.specification ambient request
    specification.isAuthorized s.registry ambient

/-- Fails unless the request is authorized. -/
def requirePermission (s : AuthorizationService) (ambient : Ambient) (request : Request) :
    Except AuthorizationError Unit := do
  if ← s.hasPermission ambient request then pure ()
  else throw (.accessDenied ⟨request.resourceType, request.action, request.subject.identifier?⟩)

/-- The decision in a form that list queries can include.  A context given here
takes the place of the request's own. -/
def authorizationSpecification (s : AuthorizationService) (ambient : Ambient) (request : Request)
    (context : Option RequestContext) : Except AuthorizationError Specification :=
  let request := match context with
    | some context => request.withContext context
    | none => request
  if ambient.isBypassed then .ok (.unrestricted request.resourceType request.action)
  else s.specification ambient request

/-- The principal for whom placeholders are filled in while roles are searched:
the effective one, or the anonymous one when nobody is signed in. -/
def discoveringPrincipal (s : AuthorizationService) (ambient : Ambient) (request : Request) :
    Except AuthorizationError Principal :=
  match s.effectivePrincipal ambient request with
  | .error .noPrincipal => .ok .anonymous
  | r => r

/-- Whether the permissions of one role authorize the request. -/
def roleAuthorizes (s : AuthorizationService) (ambient : Ambient) (principal : Principal)
    (request : Request) (role : Role) : Except AuthorizationError Bool := do
  let permissions ← s.permissionsOf role request.resourceType request.action
  let specification ← Specification.compile s.registry ambient principal request permissions
  specification.isAuthorized s.registry ambient

/-- The roles of a list that authorize the request, each by itself. -/
def authorizingRoles (s : AuthorizationService) (ambient : Ambient) (principal : Principal)
    (request : Request) : List Role → Except AuthorizationError (List Role)
  | [] => .ok []
  | role :: rest => do
    let authorizes ← s.roleAuthorizes ambient principal request role
    let others ← authorizingRoles s ambient principal request rest
    pure (if authorizes then role :: others else others)

/-- Every role whose permissions authorize the request, whatever roles the
caller holds. -/
def authorizedRoles (s : AuthorizationService) (ambient : Ambient) (request : Request) :
    Except AuthorizationError RoleSet :=
  if request.action.isDeny then .ok .empty
  else do
    let principal ← s.discoveringPrincipal ambient request
    let granting ← liftStore (s.roles.rolesGranting request.resourceType request.action)
    let roles ← s.authorizingRoles ambient principal request granting.roles
    pure (.ofList roles)

end AuthorizationService
end AccessPolicy
