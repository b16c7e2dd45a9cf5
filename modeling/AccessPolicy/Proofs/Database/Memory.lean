/-
A store that answers as a repository in memory does.

A store keeps permissions by the names of their types and the keys of their actions,
conditions as texts, and assignments by the identifiers of roles.  When it mirrors a
repository in memory every question about a registered type has the same answer from
both, apart from the identifiers of permissions.
-/
import AccessPolicy.Proofs.Database.Permissions
import Mathlib.Data.List.Sort

namespace AccessPolicy

/-! ## Sets of roles -/

namespace RoleSet

theorem ofList_congr {l l' : List Role} (h : ∀ r, r ∈ l ↔ r ∈ l') : ofList l = ofList l' := by
  have hroles : (ofList l).roles = (ofList l').roles :=
    roles_eq_of_mem_iff (ofList l).ascending (ofList l').ascending fun r =>
      mem_ofList.trans ((h r).trans mem_ofList.symm)
  generalize ofList l = s at hroles
  generalize ofList l' = s' at hroles
  cases s
  cases s'
  cases hroles
  rfl

end RoleSet

/-! ## Conditions and permissions -/

/-- The text of the conditions is read as these very conditions. -/
def Condition.Recovered (conditions : List Condition) : Prop :=
  listOfText? (listText conditions) = some conditions

theorem Condition.Storable.recovered {conditions : List Condition} (h : Storable conditions)
    (hread : rereadAll conditions = conditions) : Recovered conditions := by
  rw [Recovered, listOfText?_listText h, hread]

namespace Permission

/-- The conditions of the permission and those on the context are recovered. -/
structure Recovered (p : Permission) : Prop where
  conditions : Condition.Recovered p.conditions
  context : ∀ r, p.context = some r → Condition.Recovered r.conditions

/-- The permission apart from its identifier. -/
def unnumbered (p : Permission) : Permission := { p with id := ⟨0⟩ }

variable {registry : Registry} {p : Permission}

/-- A permission whose conditions are recovered is read from its row, perhaps under
another identifier. -/
theorem Recovered.toPermission (h : p.Recovered) (hvalid : p.validate registry = .ok ())
    (roleId : Uuid) :
    (PermissionRow.ofPermission roleId p).toPermission registry p.role.key =
      .ok { p with id := (Uuid.ofText? p.id.text).getD p.id } := by
  have hconditions : ∀ {conditions}, Condition.Recovered conditions →
      PermissionRow.conditionsOf (Condition.listText conditions) = .ok conditions := by
    intro conditions hrecovered
    rw [PermissionRow.conditionsOf, hrecovered]
  refine PermissionRow.toPermission_of_texts (fun conditions => conditions) hvalid
    (hconditions h.conditions) (fun r hr => hconditions (h.context r hr)) ?_ ?_ roleId
  · cases p.context <;> rfl
  · rw [validate] at hvalid ⊢
    exact hvalid

end Permission

namespace Registry

variable {registry : Registry}

/-- Registered types are told apart by their names. -/
theorem eq_of_name {type type' : ResourceType} {kind kind' : ResourceKind}
    (h : registry.registered type = .ok kind) (h' : registry.registered type' = .ok kind')
    (hname : type.name = type'.name) : type = type' := by
  have hfound := resourceType_of_registered h
  rw [hname, resourceType_of_registered h'] at hfound
  exact (Except.ok.inj hfound).symm

end Registry

theorem Action.key_injective {a b : Action} (h : a.key = b.key) : a = b := by
  have hfound := Action.ofKey?_key a
  rw [h, Action.ofKey?_key] at hfound
  exact (Option.some.inj hfound).symm

/-! ## Stores -/

namespace Database

/-- The store holds the permissions of a repository in memory and its assignments.  Every
role has a key of its own and every assignment belongs to a role. -/
structure Mirrors (registry : Registry) (db : Database) (memory : MemoryRepository) : Prop where
  stores : db.Stores registry memory.permissions
  recovered : ∀ p ∈ memory.permissions, p.Recovered
  keys : (db.roles.map (·.key)).Nodup
  usable : db.require ["user_roles", "roles"] = .ok ()
  owned : ∀ a ∈ db.assignments, ∃ key, db.roleKey? a.roleId = some key
  assigned : ∀ user role, (user, role) ∈ memory.userRoles ↔
    ∃ a ∈ db.assignments, a.user = user ∧ db.roleKey? a.roleId = some role.key

section

variable {registry : Registry} {db : Database} {memory : MemoryRepository}

theorem exists_role_of_roleKey? {id : Uuid} {key : String} (h : db.roleKey? id = some key) :
    ∃ role ∈ db.roles, role.id = id := by
  obtain ⟨role, hrole, _⟩ := Option.map_eq_some_iff.mp h
  have hid := List.find?_some hrole
  exact ⟨role, List.mem_of_find?_eq_some hrole, eq_of_beq hid⟩

theorem Mirrors.rolesOfUser (h : db.Mirrors registry memory) (user : String) :
    (db.repository registry).rolesOfUser user = memory.repository.rolesOfUser user := by
  refine Outcome.bind_eq_ok.mpr
    ⟨(), h.usable, congrArg Except.ok (RoleSet.ofList_congr fun r => ?_)⟩
  rw [List.mem_filterMap, List.mem_map]
  constructor
  · rintro ⟨a, ha, hrole⟩
    obtain ⟨ha, huser⟩ := List.mem_filter.mp ha
    obtain ⟨key, hkey, rfl⟩ := Option.map_eq_some_iff.mp hrole
    refine ⟨(user, ⟨key⟩), List.mem_filter.mpr ⟨?_, decide_eq_true rfl⟩, rfl⟩
    exact (h.assigned user ⟨key⟩).mpr ⟨a, ha, of_decide_eq_true huser, hkey⟩
  · rintro ⟨⟨user', role⟩, hmem, rfl⟩
    obtain ⟨hmem, huser⟩ := List.mem_filter.mp hmem
    obtain ⟨a, ha, hauser, hkey⟩ := (h.assigned user' role).mp hmem
    have huser : user' = user := of_decide_eq_true huser
    refine ⟨a, List.mem_filter.mpr ⟨ha, decide_eq_true (hauser.trans huser)⟩, ?_⟩
    rw [hkey]
    rfl

/-- The joined row is that of a valid permission whose conditions are recovered. -/
def RowFor (registry : Registry) (p : Permission) (row : String × PermissionRow) : Prop :=
  (p.validate registry = .ok () ∧ p.Recovered) ∧
    ∃ roleId, row = (p.role.key, PermissionRow.ofPermission roleId p)

theorem Mirrors.joined (h : db.Mirrors registry memory) :
    List.Forall₂ (RowFor registry) memory.permissions db.joinedPermissions :=
  (List.forall₂_and_left _ _).mpr
    ⟨fun p hp => ⟨h.stores.valid p hp, h.recovered p hp⟩, h.stores.joined⟩

theorem RowFor.toPermission {p : Permission} {row : String × PermissionRow}
    (h : RowFor registry p row) :
    row.2.toPermission registry row.1 =
      .ok { p with id := (Uuid.ofText? p.id.text).getD p.id } := by
  obtain ⟨⟨hvalid, hrecovered⟩, roleId, rfl⟩ := h
  exact hrecovered.toPermission hvalid roleId

section

variable {type : ResourceType} {kind : ResourceKind} (hkind : registry.registered type = .ok kind)
include hkind

/-- The name of a registered type stands for the type. -/
theorem name_eq_iff {p : Permission} (hvalid : p.validate registry = .ok ()) :
    p.resourceType.name = type.name ↔ p.resourceType = type := by
  obtain ⟨⟨actions, hactions, _⟩, _⟩ := Permission.of_validate hvalid
  obtain ⟨kind', hkind', _⟩ := Outcome.map_eq_ok.mp hactions
  exact ⟨Registry.eq_of_name hkind' hkind, congrArg ResourceType.name⟩

theorem Mirrors.rolesGranting (h : db.Mirrors registry memory) (action : Action) :
    (db.repository registry).rolesGranting type action =
      memory.repository.rolesGranting type action := by
  refine Outcome.bind_eq_ok.mpr ⟨(), h.stores.ready, ?_⟩
  refine congrArg (fun roles => Except.ok (RoleSet.ofList roles)) ?_
  refine Outcome.map_forall₂ ?_ (Outcome.filter_forall₂ ?_ h.joined)
  · rintro p _ ⟨_, roleId, rfl⟩
    rfl
  · rintro p _ ⟨⟨hvalid, _⟩, roleId, rfl⟩
    have haction : p.action.key = action.key ↔ p.action = action :=
      ⟨Action.key_injective, congrArg Action.key⟩
    simp only [PermissionRow.ofPermission, Permission.grants, name_eq_iff hkind hvalid, haction]

theorem Mirrors.permissionsFor (h : db.Mirrors registry memory) (role : Role) :
    ∃ found expected, (db.repository registry).permissionsFor role type = .ok found ∧
      memory.repository.permissionsFor role type = .ok expected ∧
      found.map Permission.unnumbered = expected.map Permission.unnumbered := by
  have hrows : List.Forall₂ (RowFor registry) (memory.permissions.filter fun p =>
      p.role = role && p.resourceType = type) (db.joinedPermissions.filter fun row =>
        row.1 = role.key && row.2.resourceType = type.name) := by
    refine Outcome.filter_forall₂ ?_ h.joined
    rintro p _ ⟨⟨hvalid, _⟩, roleId, rfl⟩
    have hrole : p.role.key = role.key ↔ p.role = role :=
      ⟨congrArg Role.mk, congrArg Role.key⟩
    simp only [PermissionRow.ofPermission, name_eq_iff hkind hvalid, hrole]
  have hread := Outcome.mapM_forall₂ (fun _ _ hrow => RowFor.toPermission hrow) hrows
  refine ⟨_, _, Outcome.bind_eq_ok.mpr ⟨(), h.stores.ready, hread⟩, rfl, ?_⟩
  rw [List.map_map]
  rfl

end

end

end Database
end AccessPolicy
