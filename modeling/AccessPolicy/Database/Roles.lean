/-
Roles, permissions and assignments in the relational store.
-/
import AccessPolicy.Database
import AccessPolicy.Permission.Definition
import AccessPolicy.Repository

namespace AccessPolicy

namespace PermissionRow

/-- The conditions of a stored text. -/
def conditionsOf (text : String) : Except StoreError (List Condition) :=
  match Condition.listOfText? text with
  | some conditions => .ok conditions
  | none => .error (.serialization "the text holds no list of conditions")

/-- The context requirement that a row states.  Context conditions without a
context type state none. -/
def contextRequirement (registry : Registry) (row : PermissionRow) :
    Except StoreError (Option ContextRequirement) :=
  match row.contextResourceType with
  | none => .ok none
  | some name => do
    let conditions ← match row.contextConditions with
      | some text => conditionsOf text
      | none => pure []
    let type ← (registry.resourceType name).mapError StoreError.configuration
    pure (some ⟨type, conditions⟩)

/-- The permission of a row.  A row is checked as a definition is, so that no
slip in it can leave a resource unprotected. -/
def toPermission (registry : Registry) (roleKey : String) (row : PermissionRow) :
    Except StoreError Permission := do
  let type ← (registry.resourceType row.resourceType).mapError StoreError.configuration
  let action ← (registry.parseAction type row.action).mapError StoreError.configuration
  let conditions ← conditionsOf row.conditions
  let context ← row.contextRequirement registry
  match Uuid.ofText? row.id with
  | none => throw (.corrupt ("permission id `" ++ row.id ++ "`"))
  | some id =>
    let permission : Permission := ⟨id, ⟨roleKey⟩, type, action, conditions, context⟩
    (permission.validate registry).mapError StoreError.configuration
    pure permission

/-- The row that stores a permission. -/
def ofPermission (roleId : Uuid) (p : Permission) : PermissionRow :=
  ⟨p.id.text, roleId, p.resourceType.name, p.action.key, Condition.listText p.conditions,
    p.context.map (·.resourceType.name), p.context.map fun c => Condition.listText c.conditions⟩

end PermissionRow

namespace Database

/-! ## Writing -/

/-- The identifier of the role with a key, which is created if it is missing. -/
def ensureRole (db : Database) (key : String) : Except StoreError (Uuid × Database) := do
  db.require ["roles"]
  match db.roles.find? fun r => r.key == key with
  | some role => pure (role.id, db)
  | none =>
    let id := Uuid.issued db.issued
    pure (id, { db with roles := db.roles ++ [⟨id, key⟩], issued := db.issued + 1 })

/-- A row whose identifier is taken is refused. -/
def insertRow (db : Database) (row : PermissionRow) : Except StoreError Database := do
  db.require ["permissions"]
  if db.permissions.any fun r => r.id == row.id then
    throw (.backend "the identifier of the permission is taken")
  pure { db with permissions := db.permissions ++ [row] }

def insertPermission (db : Database) (p : Permission) : Except StoreError Database := do
  let (roleId, db) ← db.ensureRole p.role.key
  db.insertRow (.ofPermission roleId p)

def insertPermissions (db : Database) : List Permission → Except StoreError Database
  | [] => .ok db
  | p :: rest => do
    let db ← db.insertPermission p
    db.insertPermissions rest

/-- Replaces the stored permissions and creates the roles that are missing.  The
store is the one before unless every permission was written. -/
def replacePermissions (db : Database) (permissions : List Permission) :
    Except StoreError Database := do
  db.require ["permissions"]
  insertPermissions { db with permissions := [] } permissions

/-- Gives a role to a user.  Giving it again changes nothing. -/
def assignRole (db : Database) (user : String) (role : Role) : Except StoreError Database := do
  let (roleId, db) ← db.ensureRole role.key
  db.require ["user_roles"]
  let row : AssignmentRow := ⟨user, roleId⟩
  pure (if db.assignments.contains row then db
    else { db with assignments := db.assignments ++ [row] })

/-! ## Reading -/

/-- The key of a role by identifier. -/
def roleKey? (db : Database) (id : Uuid) : Option String :=
  (db.roles.find? fun r => r.id == id).map (·.key)

/-- The permissions whose role exists, with its key. -/
def joinedPermissions (db : Database) : List (String × PermissionRow) :=
  db.permissions.filterMap fun row => (db.roleKey? row.roleId).map fun key => (key, row)

def readAll (registry : Registry) (rows : List (String × PermissionRow)) :
    Except StoreError (List Permission) :=
  rows.mapM fun row => row.2.toPermission registry row.1

/-- Whether one listed permission comes before another or may stand with it: by
role, then type, then action. -/
def listedBefore (a b : String × PermissionRow) : Bool :=
  if a.1 = b.1 then
    if a.2.resourceType = b.2.resourceType then !(b.2.action < a.2.action : Bool)
    else a.2.resourceType < b.2.resourceType
  else a.1 < b.1

/-- Every stored permission. -/
def allPermissions (db : Database) (registry : Registry) :
    Except StoreError (List Permission) := do
  db.require ["permissions", "roles"]
  readAll registry (db.joinedPermissions.mergeSort listedBefore)

/-- The store as the service asks it. -/
def repository (db : Database) (registry : Registry) : RoleRepository where
  rolesGranting type action := do
    db.require ["permissions", "roles"]
    pure (.ofList ((db.joinedPermissions.filter fun row =>
      row.2.resourceType = type.name && row.2.action = action.key).map fun row => ⟨row.1⟩))
  permissionsFor role type := do
    db.require ["permissions", "roles"]
    readAll registry (db.joinedPermissions.filter fun row =>
      row.1 = role.key && row.2.resourceType = type.name)
  rolesOfUser user := do
    db.require ["user_roles", "roles"]
    pure (.ofList ((db.assignments.filter fun a => a.user = user).filterMap fun a =>
      (db.roleKey? a.roleId).map Role.mk))

end Database
end AccessPolicy
