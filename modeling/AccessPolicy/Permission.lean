/-
Permissions: what a role may do, and when.
-/
import AccessPolicy.Condition
import AccessPolicy.Uuid

namespace AccessPolicy

/-- The request must carry a context entity of this type on which the conditions
hold. -/
structure ContextRequirement where
  resourceType : ResourceType
  conditions : List Condition

structure Permission where
  id : Uuid
  role : Role
  resourceType : ResourceType
  action : Action
  conditions : List Condition
  context : Option ContextRequirement

namespace Permission

/-- The permission is for exactly this type and action. -/
def grants (p : Permission) (type : ResourceType) (action : Action) : Bool :=
  p.resourceType = type && p.action = action

theorem grants_eq_true_iff {p : Permission} {type : ResourceType} {action : Action} :
    p.grants type action = true ↔ p.resourceType = type ∧ p.action = action := by
  rw [grants, Bool.and_eq_true, decide_eq_true_eq, decide_eq_true_eq]

/-- The first defect of a permission: an action its type does not offer, then
its conditions, then its context requirement. -/
def validate (registry : Registry) (p : Permission) : Except ConfigurationError Unit :=
  match registry.availableActions p.resourceType with
  | .error e => .error e
  | .ok actions =>
    if actions.contains p.action then
      match Condition.validateAll registry p.conditions p.resourceType with
      | .error e => .error e
      | .ok _ =>
        match p.context with
        | none => .ok ()
        | some requirement =>
          match registry.ensureRegistered requirement.resourceType with
          | .error e => .error e
          | .ok _ => Condition.validateAll registry requirement.conditions requirement.resourceType
    else .error (.unsupportedAction p.resourceType.name p.action.key)

end Permission
end AccessPolicy
