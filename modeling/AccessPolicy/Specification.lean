/-
Specifications: the decision on a request and the predicate that lists by it.

The conditions of a permission are joined by and, permissions by or, and without
any permission nothing is allowed.  A permission with a context requirement
takes part only when the request carries a context entity of that very type on
which the conditions of the requirement hold.  A request by way of a related
entity keeps the permissions whose conditions are all about the related type and
decides on the related row; when the related type is the requested one, the
conditions themselves are decided on the identified row.
-/
import AccessPolicy.Condition.Compile
import AccessPolicy.Permission
import AccessPolicy.Predicate.Load
import AccessPolicy.Request

namespace AccessPolicy

/-- What a specification decides on: the entity of the request if it has one,
or a related row. -/
inductive DecisionTarget where
  | entity (attributes : Option Json)
  | related (type : ResourceType) (identifierField : FieldPath) (identifier : String)
      (predicate : Predicate)

/-- `applicable` tells whether any permission takes part, which is the answer
for a request without entity. -/
structure Specification where
  resourceType : ResourceType
  action : Action
  predicate : Predicate
  applicable : Bool
  target : DecisionTarget

namespace Specification

open AuthorizationError (liftConfiguration liftStore)

/-- Never satisfied. -/
def denied (type : ResourceType) (action : Action) : Specification :=
  ⟨type, action, .never, false, .entity none⟩

/-- Always satisfied. -/
def unrestricted (type : ResourceType) (action : Action) : Specification :=
  ⟨type, action, .always, true, .entity none⟩

/-! ## Deciding -/

/-- Whether an entity satisfies a predicate.  A literal needs no rows. -/
def decideOn (registry : Registry) (ambient : Ambient) (attributes : Json) (predicate : Predicate) :
    Except AuthorizationError Bool :=
  if predicate.isUnsatisfiable || predicate.isUnrestricted then .ok predicate.isUnrestricted
  else (Row.load registry ambient attributes predicate).map predicate.holds

/-- The first entity of a type with an identifier. -/
def loadRelated (registry : Registry) (ambient : Ambient) (type : ResourceType)
    (identifierField : FieldPath) (identifier : String) : Except AuthorizationError Json := do
  let loader ← liftConfiguration (registry.loader type)
  let found ← liftStore (loader ambient.bypassing identifierField (.string identifier))
  match found with
  | entity :: _ => pure entity
  | [] => throw (.relatedEntityNotFound type identifier)

/-- The decision on the request from which the specification was compiled. -/
def isAuthorized (registry : Registry) (ambient : Ambient) (s : Specification) :
    Except AuthorizationError Bool :=
  match s.target with
  | .entity none => .ok s.applicable
  | .entity (some attributes) => decideOn registry ambient attributes s.predicate
  | .related type identifierField identifier predicate =>
    if predicate.isUnsatisfiable then .ok false
    else do
      let entity ← loadRelated registry ambient type identifierField identifier
      decideOn registry ambient entity predicate

/-- The decision on one entity, as a list filtered by the predicate makes it. -/
def isAuthorizedFor (registry : Registry) (ambient : Ambient) (s : Specification)
    (entity : Entity) : Except AuthorizationError Bool := do
  let attributes ← liftConfiguration (entity.attributesAs s.resourceType)
  decideOn registry ambient attributes s.predicate

/-- The predicate together with the caller's own filter. -/
def and (s : Specification) (filter : Predicate) : Predicate := s.predicate.both filter

/-! ## Compiling -/

/-- Conditions re-expressed on a related type: the contents of its containers,
or `none` when some condition is about anything else. -/
def projectOnto (related : ResourceType) : List Condition → Option (List Condition)
  | [] => some []
  | .container name conditions :: rest =>
    if name = related.name then (projectOnto related rest).map (conditions ++ ·) else none
  | .field _ _ _ :: _ => none

/-- Whether the context of a request meets the requirement of a permission. -/
def contextAllows (registry : Registry) (ambient : Ambient) (principal : Principal)
    (context : Option RequestContext) (permission : Permission) :
    Except AuthorizationError Bool :=
  match permission.context with
  | none => .ok true
  | some requirement =>
    match context.filter fun c => c.resourceType = requirement.resourceType with
    | none => .ok false
    | some context => do
      let predicate ← liftConfiguration
        (Condition.compileAll registry principal requirement.conditions requirement.resourceType)
      let row ← Row.load registry ambient context.attributes predicate
      pure (predicate.holds row)

/-- The permissions whose requirement the context meets. -/
def applicablePermissions (registry : Registry) (ambient : Ambient) (principal : Principal)
    (context : Option RequestContext) :
    List Permission → Except AuthorizationError (List Permission)
  | [] => .ok []
  | p :: rest => do
    let allowed ← contextAllows registry ambient principal context p
    let others ← applicablePermissions registry ambient principal context rest
    pure (if allowed then p :: others else others)

/-- The predicate and the target of an entity request. -/
def compileEntity (registry : Registry) (principal : Principal) (type : ResourceType)
    (entity : Option Entity) (applicable : List Permission) :
    Except ConfigurationError (Predicate × DecisionTarget) := do
  let fragments ← applicable.mapM fun p =>
    Condition.compileAll registry principal p.conditions type
  let attributes ← entity.mapM fun e => e.attributesAs type
  pure (.any fragments, .entity attributes)

/-- The fragments of a request by way of a related type.  Without a relation the
related type is the requested one, and every permission counts. -/
def relatedFragments (registry : Registry) (principal : Principal) (related : ResourceType)
    (relation : Option Relation) :
    List Permission → Except ConfigurationError (List Predicate)
  | [] => .ok []
  | p :: rest => do
    let conditions :=
      match relation with
      | none => some p.conditions
      | some _ => projectOnto related p.conditions
    match conditions with
    | none => relatedFragments registry principal related relation rest
    | some conditions =>
      let fragment ← Condition.compileAll registry principal conditions related
      let fragments ← relatedFragments registry principal related relation rest
      pure (fragment :: fragments)

/-- The predicate and the target of a request by way of a related entity. -/
def compileRelated (registry : Registry) (principal : Principal) (type related : ResourceType)
    (identifier : String) (applicable : List Permission) :
    Except ConfigurationError (Predicate × DecisionTarget) := do
  registry.ensureRegistered related
  let name ← registry.identifierField related
  let identifierField ← FieldPath.parse name
  let relation ←
    if related = type then pure none else (registry.relation type related).map some
  let fragments ← relatedFragments registry principal related relation applicable
  let predicate := Predicate.any fragments
  let joined := (Predicate.equal identifierField (.string identifier)).both predicate
  let whole := match relation with
    | some relation => Predicate.someRelated relation joined
    | none => joined
  pure (whole, .related related identifierField identifier predicate)

/-- The specification of a request under the permissions that were resolved for
the principal.  Permissions for other types and actions are ignored. -/
def compile (registry : Registry) (ambient : Ambient) (principal : Principal) (request : Request)
    (permissions : List Permission) : Except AuthorizationError Specification :=
  let type := request.resourceType
  if request.action.isDeny then .ok (denied type request.action)
  else do
    liftConfiguration (registry.ensureRegistered type)
    let applicable ← applicablePermissions registry ambient principal request.context
      (permissions.filter fun p => p.grants type request.action)
    let (predicate, target) ← liftConfiguration <|
      match request.subject with
      | .entity entity => compileEntity registry principal type entity applicable
      | .delegate _ entity => compileEntity registry principal type entity applicable
      | .related related identifier =>
        compileRelated registry principal type related identifier applicable
    pure ⟨type, request.action, predicate, !applicable.isEmpty, target⟩

end Specification
end AccessPolicy
