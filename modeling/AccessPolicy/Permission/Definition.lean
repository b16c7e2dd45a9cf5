/-
Permission definitions: permissions as they are written in a file to deploy.
-/
import AccessPolicy.Condition.Format
import AccessPolicy.Permission

namespace AccessPolicy

/-- A permission in which types, action and role are still names. -/
structure PermissionDefinition where
  resourceType : String
  action : String
  roleKey : String
  conditions : List Condition
  contextResourceType : Option String
  contextConditions : List Condition

namespace PermissionDefinition

open Json (Shape Draft)

/-! ## Reading and writing -/

def shape : Shape :=
  .record [("resourceType", .required, .text), ("action", .required, .text),
    ("roleKey", .required, .text),
    ("conditions", .defaulted (.array []), .list .verbatim),
    ("contextResourceType", .defaulted .null, .optionalText),
    ("contextConditions", .defaulted (.array []), .list .verbatim)]

/-- The definition of a record of the shape. -/
def ofRecord? : Json → Option PermissionDefinition
  | .object [(_, .string type), (_, .string action), (_, .string role),
      (_, .array conditions), (_, contextType), (_, .array contextConditions)] => do
    let conditions ← Condition.ofItems? false conditions
    let contextConditions ← Condition.ofItems? false contextConditions
    some ⟨type, action, role, conditions, contextType.string?, contextConditions⟩
  | _ => none

def ofDraft? (d : Draft) : Option PermissionDefinition :=
  match Shape.read d shape with
  | .ok record => ofRecord? record
  | .error _ => none

def ofJson? (v : Json) : Option PermissionDefinition := ofDraft? (.ofJson v)

def ofText? (text : String) : Option PermissionDefinition :=
  (Draft.ofDocument? text).bind ofDraft?

/-- The definitions of a draft that holds a list of them. -/
def listOfDraft? (d : Draft) : Option (List PermissionDefinition) :=
  match Shape.read d (.list shape) with
  | .ok (.array records) => records.mapM ofRecord?
  | _ => none

def listOfText? (text : String) : Option (List PermissionDefinition) :=
  (Draft.ofDocument? text).bind listOfDraft?

/-- The context is written only where there is something to write. -/
def toJson (d : PermissionDefinition) : Json :=
  .object ([("resourceType", .string d.resourceType), ("action", .string d.action),
      ("roleKey", .string d.roleKey), ("conditions", .array (Condition.toItems d.conditions))] ++
    (match d.contextResourceType with
      | some type => [("contextResourceType", .string type)]
      | none => []) ++
    (if d.contextConditions.isEmpty then []
      else [("contextConditions", .array (Condition.toItems d.contextConditions))]))

/-! ## Meaning -/

/-- The context requirement that a definition states. -/
def contextRequirement (registry : Registry) (d : PermissionDefinition) :
    Except ConfigurationError (Option ContextRequirement) :=
  match d.contextResourceType with
  | some name => (registry.resourceType name).map fun type => some ⟨type, d.contextConditions⟩
  | none =>
    if d.contextConditions.isEmpty then .ok none
    else .error (.invalidCondition "contextConditions given without contextResourceType")

/-- The validated permission of a definition, under the given identifier. -/
def toPermission (registry : Registry) (id : Uuid) (d : PermissionDefinition) :
    Except ConfigurationError Permission :=
  match registry.resourceType d.resourceType with
  | .error e => .error e
  | .ok type =>
    match registry.parseAction type d.action with
    | .error e => .error e
    | .ok action =>
      match d.contextRequirement registry with
      | .error e => .error e
      | .ok context =>
        let permission : Permission := ⟨id, ⟨d.roleKey⟩, type, action, d.conditions, context⟩
        match permission.validate registry with
        | .error e => .error e
        | .ok _ => .ok permission

end PermissionDefinition
end AccessPolicy
