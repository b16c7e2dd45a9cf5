/-
Defects of a configuration.
-/

namespace AccessPolicy

/-- A defect of the program that uses the engine or of the policy it was given.
It is never the outcome of a policy. -/
inductive ConfigurationError where
  | unsupportedAction (resourceType action : String)
  | missingActionProvider (resourceType : String)
  | unknownResourceType (name : String)
  | unknownAction (key : String)
  | missingRelation (source target : String)
  | missingEntityLoader (resourceType : String)
  | invalidFieldPath (path : String)
  | invalidCondition (reason : String)
  | unmappedField (resourceType field : String)
  | unserializableEntity (resourceType reason : String)
deriving DecidableEq, Repr

namespace ConfigurationError

private def ticked (s : String) : String := "`" ++ s ++ "`"

def message : ConfigurationError → String
  | unsupportedAction resourceType action =>
    "action " ++ ticked action ++ " is not available for resource type " ++ ticked resourceType
  | missingActionProvider resourceType =>
    "no action provider registered for resource type " ++ ticked resourceType
  | unknownResourceType name => "unknown resource type " ++ ticked name
  | unknownAction key => "unknown action " ++ ticked key
  | missingRelation source target =>
    "no relation registered from " ++ ticked source ++ " to " ++ ticked target
  | missingEntityLoader resourceType =>
    "no entity loader registered for resource type " ++ ticked resourceType
  | invalidFieldPath path => "invalid field path " ++ ticked path
  | invalidCondition reason => "invalid permission condition: " ++ reason
  | unmappedField resourceType field =>
    "field " ++ ticked field ++ " is not mapped for resource type " ++ ticked resourceType
  | unserializableEntity resourceType reason =>
    "cannot serialize " ++ ticked resourceType ++ " entity: " ++ reason

end ConfigurationError
end AccessPolicy
