/-
The store as a document, in which it is kept from one run of the tool to the
next.
-/
import AccessPolicy.Database.Entities
import AccessPolicy.Json.Text

namespace AccessPolicy
namespace Database
namespace Snapshot

open Json (Shape Draft)

/-! ## Writing -/

def ofRole (r : RoleRow) : Json :=
  .object [("id", .string r.id.text), ("key", .string r.key)]

def ofText? : Option String → Json
  | some s => .string s
  | none => .null

def ofPermission (r : PermissionRow) : Json :=
  .object [("id", .string r.id), ("role_id", .string r.roleId.text),
    ("resource_type", .string r.resourceType), ("action", .string r.action),
    ("conditions", .string r.conditions),
    ("context_resource_type", ofText? r.contextResourceType),
    ("context_conditions", ofText? r.contextConditions)]

def ofAssignment (r : AssignmentRow) : Json :=
  .object [("user", .string r.user), ("role_id", .string r.roleId.text)]

def ofEntities (db : Database) (k : WorkflowKind) : Json :=
  .array (((db.entities.lookup (tableName k)).map fun t =>
    t.rows.map (entityOf (mapping k))).getD [])

def ofDatabase (db : Database) : Json :=
  .object [("roles", .array (db.roles.map ofRole)),
    ("permissions", .array (db.permissions.map ofPermission)),
    ("assignments", .array (db.assignments.map ofAssignment)),
    ("entities", .array (WorkflowKind.all.map (ofEntities db))),
    ("present", .array (db.present.map .string)),
    ("issued", .int db.issued)]

def text (db : Database) : String := (ofDatabase db).text

/-! ## Reading -/

def shape : Shape :=
  .record [("roles", .required, .list (.record
      [("id", .required, .text), ("key", .required, .text)])),
    ("permissions", .required, .list (.record
      [("id", .required, .text), ("role_id", .required, .text),
        ("resource_type", .required, .text), ("action", .required, .text),
        ("conditions", .required, .text), ("context_resource_type", .optional, .optionalText),
        ("context_conditions", .optional, .optionalText)])),
    ("assignments", .required, .list (.record
      [("user", .required, .text), ("role_id", .required, .text)])),
    ("entities", .required, .list (.list .document)),
    ("present", .required, .list .text),
    ("issued", .required, .integer)]

def toRole? : Json → Option RoleRow
  | .object [(_, .string id), (_, .string key)] => (Uuid.ofText? id).map fun id => ⟨id, key⟩
  | _ => none

def toPermission? : Json → Option PermissionRow
  | .object [(_, .string id), (_, .string roleId), (_, .string resourceType), (_, .string action),
      (_, .string conditions), (_, contextType), (_, contextConditions)] =>
    (Uuid.ofText? roleId).map fun roleId =>
      ⟨id, roleId, resourceType, action, conditions, contextType.string?,
        contextConditions.string?⟩
  | _ => none

def toAssignment? : Json → Option AssignmentRow
  | .object [(_, .string user), (_, .string roleId)] =>
    (Uuid.ofText? roleId).map fun roleId => ⟨user, roleId⟩
  | _ => none

def toTable (k : WorkflowKind) (rows : Json) : String × Sql.Table :=
  let records := match rows with
    | .array items => items
    | _ => []
  (tableName k, ⟨columns k, records.map (rowOf k)⟩)

/-- The store of a record of the shape. -/
def toDatabase? : Json → Option Database
  | .object [(_, .array roles), (_, .array permissions), (_, .array assignments),
      (_, .array entities), (_, .array present), (_, .number (.integer issued))] => do
    let roles ← roles.mapM toRole?
    let permissions ← permissions.mapM toPermission?
    let assignments ← assignments.mapM toAssignment?
    let present ← present.mapM Json.string?
    some ⟨roles, permissions, assignments, List.zipWith toTable WorkflowKind.all entities,
      present, false, issued.toNat⟩
  | _ => none

/-- The store of a document.  An empty document is a store without tables. -/
def ofDocument? (text : String) : Option Database :=
  if text.isEmpty then some .blank
  else
    match (Draft.ofDocument? text).map fun d => Shape.read d shape with
    | some (.ok record) => toDatabase? record
    | _ => none

end Snapshot
end Database
end AccessPolicy
