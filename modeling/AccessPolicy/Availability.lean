/-
Which of several permissions the current user has.

A client that is about to show a page asks for the actions it might offer, each
on a resource kind by way of a related entity.  An item that cannot be decided
is not available, and it does not keep the others from being answered.
-/
import AccessPolicy.Service
import AccessPolicy.Workflow

namespace AccessPolicy

/-- An action on a resource kind by way of an entity, all by name. -/
structure AvailabilityItem where
  resource : String
  action : String
  contextResource : String
  contextIdentifier : String
deriving DecidableEq, Repr

namespace AvailabilityItem

open Json (Shape Draft Fault)

def shape : Shape :=
  .record [("resource", .required, .text), ("action", .required, .text),
    ("context", .required,
      .record [("resource", .required, .text), ("identifier", .required, .text)])]

/-- The item of a record of the shape. -/
def ofRecord? : Json → Option AvailabilityItem
  | .object [(_, .string resource), (_, .string action),
      (_, .object [(_, .string contextResource), (_, .string contextIdentifier)])] =>
    some ⟨resource, action, contextResource, contextIdentifier⟩
  | _ => none

/-- The items of a draft that holds a list of them. -/
def listOfDraft (d : Draft) : Except Fault (List AvailabilityItem) :=
  match Shape.read d (.list shape) with
  | .error fault => .error fault
  | .ok (.array records) =>
    match records.mapM ofRecord? with
    | some items => .ok items
    | none => .error .mismatched
  | .ok _ => .error .mismatched

/-- An item together with the answer to it. -/
def answered (item : AvailabilityItem) (available : Bool) : Json :=
  .object [("resource", .string item.resource), ("action", .string item.action),
    ("context", .object [("resource", .string item.contextResource),
      ("identifier", .string item.contextIdentifier)]),
    ("available", .bool available)]

/-- The request that an item stands for.  Its resource is one of the workflow
kinds and its context is any registered type. -/
def request (registry : Registry) (item : AvailabilityItem) :
    Except ConfigurationError Request :=
  match WorkflowKind.ofName? item.resource with
  | none => .error (.unknownResourceType item.resource)
  | some kind =>
    match Action.ofKey? item.action with
    | none => .error (.unknownAction item.action)
    | some action =>
      match registry.resourceType item.contextResource with
      | .error e => .error e
      | .ok related => Request.make kind.resource action (.related related item.contextIdentifier)

end AvailabilityItem

namespace AuthorizationService

/-- Whether the item is authorized; any failure counts as a refusal. -/
def isAvailable (s : AuthorizationService) (ambient : Ambient) (item : AvailabilityItem) : Bool :=
  match item.request s.registry with
  | .error _ => false
  | .ok request =>
    match s.hasPermission ambient request with
    | .error _ => false
    | .ok authorized => authorized

/-- Every item with its answer, in order. -/
def availability (s : AuthorizationService) (ambient : Ambient) (items : List AvailabilityItem) :
    List Json :=
  items.map fun item => item.answered (s.isAvailable ambient item)

end AuthorizationService
end AccessPolicy
