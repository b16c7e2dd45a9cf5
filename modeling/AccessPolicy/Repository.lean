/-
Access to roles and their permissions.
-/
import AccessPolicy.Permission

namespace AccessPolicy

/-- A store of permissions and role assignments, as the service asks it.  Users
are looked up by identifier, not by who is signed in. -/
structure RoleRepository where
  /-- Every role with some permission for the type and action. -/
  rolesGranting : ResourceType → Action → Except StoreError RoleSet
  /-- The permissions of a role for a type, in the order of the store. -/
  permissionsFor : Role → ResourceType → Except StoreError (List Permission)
  /-- The roles that a user holds. -/
  rolesOfUser : String → Except StoreError RoleSet

/-- Permissions and role assignments held in memory. -/
structure MemoryRepository where
  permissions : List Permission
  userRoles : List (String × Role)

namespace MemoryRepository

def empty : MemoryRepository := ⟨[], []⟩

def grant (m : MemoryRepository) (p : Permission) : MemoryRepository :=
  { m with permissions := m.permissions ++ [p] }

def assign (m : MemoryRepository) (user : String) (role : Role) : MemoryRepository :=
  { m with userRoles := m.userRoles ++ [(user, role)] }

def repository (m : MemoryRepository) : RoleRepository where
  rolesGranting type action :=
    .ok (.ofList ((m.permissions.filter fun p => p.grants type action).map (·.role)))
  permissionsFor role type :=
    .ok (m.permissions.filter fun p => p.role = role && p.resourceType = type)
  rolesOfUser user := .ok (.ofList ((m.userRoles.filter fun a => a.1 = user).map (·.2)))

end MemoryRepository

/-- The loader over entities held in memory.  A missing or null attribute
matches nothing. -/
def memoryLoader (entities : List Json) : EntityLoader := fun _ field value =>
  .ok (entities.filter fun entity =>
    match Comparison.present (field.resolve entity) with
    | some found => found.agrees value
    | none => false)

end AccessPolicy
