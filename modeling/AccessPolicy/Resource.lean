/-
Kinds of protected resources and their entities.
-/
import AccessPolicy.Action
import AccessPolicy.ConfigurationError
import AccessPolicy.Json

namespace AccessPolicy

/-- The identity of a resource kind.  Two kinds may carry one name and are still
different types, so a name by itself confers nothing. -/
structure ResourceType where
  name : String
  identity : Nat
deriving DecidableEq, Repr

/-- What the engine knows about a kind of resource: the actions it offers, the
attribute that identifies an entity, and the attributes that hold a nested
document. -/
structure ResourceKind where
  type : ResourceType
  actions : List Action
  identifierField : String
  documentFields : List String
deriving DecidableEq, Repr

namespace ResourceKind

/-- `deny` is accepted for every kind. -/
def accepts (kind : ResourceKind) (action : Action) : Bool :=
  action.isDeny || kind.actions.contains action

def ensureAvailable (kind : ResourceKind) (action : Action) : Except ConfigurationError Unit :=
  if kind.accepts action then .ok ()
  else .error (.unsupportedAction kind.type.name action.key)

end ResourceKind

/-- An entity as the engine sees it: its identifier, and its attributes or the
reason why they cannot be had. -/
structure Entity where
  identifier : String
  attributes : Except String Json

namespace Entity

/-- The attributes of an entity of the given type. -/
def attributesAs (entity : Entity) (type : ResourceType) : Except ConfigurationError Json :=
  match entity.attributes with
  | .ok v => .ok v
  | .error reason => .error (.unserializableEntity type.name reason)

end Entity
end AccessPolicy
