/-
Requests for a decision.
-/
import AccessPolicy.Resource

namespace AccessPolicy

/-- A further entity on which a permission may depend. -/
structure RequestContext where
  resourceType : ResourceType
  attributes : Json

namespace RequestContext

/-- A context is built from an entity that has attributes. -/
def ofEntity (type : ResourceType) (entity : Entity) : Except ConfigurationError RequestContext :=
  (entity.attributesAs type).map fun attributes => ⟨type, attributes⟩

end RequestContext

/-- What a request asks about: an entity, or no particular one; the same on
behalf of another user; or any entity by way of a related one. -/
inductive Subject where
  | entity (entity : Option Entity)
  | delegate (user : String) (entity : Option Entity)
  | related (type : ResourceType) (identifier : String)

namespace Subject

/-- The entity under check.  A request by way of a related entity has none. -/
def entity? : Subject → Option Entity
  | .entity e => e
  | .delegate _ e => e
  | .related _ _ => none

/-- What a refusal reports as the subject. -/
def identifier? : Subject → Option String
  | .related type identifier => some (type.name ++ ":" ++ identifier)
  | s => s.entity?.map (·.identifier)

end Subject

/-- A request on a kind of resource, for an action that the kind accepts. -/
structure Request where
  kind : ResourceKind
  action : Action
  accepted : kind.accepts action = true
  subject : Subject
  context : Option RequestContext

namespace Request

/-- The request without context, if the kind accepts the action. -/
def make (kind : ResourceKind) (action : Action) (subject : Subject) :
    Except ConfigurationError Request :=
  if h : kind.accepts action = true then .ok ⟨kind, action, h, subject, none⟩
  else .error (.unsupportedAction kind.type.name action.key)

def withContext (r : Request) (context : RequestContext) : Request :=
  { r with context := some context }

def resourceType (r : Request) : ResourceType := r.kind.type

end Request
end AccessPolicy
