/-
Runs of deployments and assignments.

A run starts from a store without roles.  Every call in it is carried out as a whole or
leaves the tables as they were, and a repository in memory is kept beside the store: it
takes the permissions of each deployment that succeeds and every role that is given.
After any number of calls the store mirrors that repository.
-/
import AccessPolicy.Proofs.Database.Deploying
import AccessPolicy.Proofs.Database.Memory

namespace AccessPolicy
namespace Database

/-! ## Calls -/

/-- A call that writes to the store, with what goes wrong from outside during it. -/
inductive Call where
  | deploy (disturbance : Disturbance) (definitions : List PermissionDefinition)
  | assign (disturbance : Disturbance) (user : String) (role : Role)

namespace Call

/-- The conditions that the call deploys are recovered from their texts. -/
def Recovered : Call → Prop
  | .deploy _ definitions => ∀ d ∈ definitions,
      Condition.Recovered d.conditions ∧ Condition.Recovered d.contextConditions
  | .assign _ _ _ => True

/-- The role that the call gives to a user, if nothing goes wrong. -/
def assigned? : Call → Option (String × Role)
  | .deploy _ _ => none
  | .assign disturbance user role =>
    if disturbance.spares (assignment user role).length then some (user, role) else none

end Call

/-- A store and the repository in memory beside it. -/
structure Session where
  store : Database
  memory : MemoryRepository

namespace Session

/-- A store with empty tables and a repository without permissions. -/
def start : Session := ⟨blank.migrate, .empty⟩

/-- The session after a call.  The repository in memory follows the calls that succeed. -/
def after (registry : Registry) (s : Session) : Call → Session
  | .deploy disturbance definitions =>
    match Deployment.permissions registry s.store.issued 0 definitions,
      Deployment.attempt registry disturbance s.store definitions with
    | .ok ps, (.ok _, left) => ⟨left, { s.memory with permissions := ps }⟩
    | _, (_, left) => ⟨left, s.memory⟩
  | .assign disturbance user role =>
    match s.store.transact disturbance (assignment user role) with
    | (.ok _, left) => ⟨left, s.memory.assign user role⟩
    | (.error _, left) => ⟨left, s.memory⟩

/-- The session after some calls one after the other. -/
def run (registry : Registry) (calls : List Call) : Session :=
  calls.foldl (after registry) start

end Session

/-! ## Roles -/

section

variable {registry : Registry} {db db' : Database} {memory : MemoryRepository}

theorem AddsRoles.keepsRoles {keys : List String} (h : AddsRoles db.roles keys db'.roles) :
    db.KeepsRoles db' := by
  intro id key hkey
  obtain ⟨created, hroles, _⟩ := h
  obtain ⟨role, hrole, rfl⟩ := Option.map_eq_some_iff.mp hkey
  rw [roleKey?, hroles, List.find?_append, hrole]
  rfl

theorem AddsRoles.nodup {roles roles' : List RoleRow} {keys : List String}
    (h : AddsRoles roles keys roles') (hnodup : (roles.map (·.key)).Nodup) :
    (roles'.map (·.key)).Nodup := by
  obtain ⟨created, rfl, hcreated, hmem⟩ := h
  rw [List.map_append, List.nodup_append]
  refine ⟨hnodup, hcreated, fun a ha b hb hab => ?_⟩
  exact ((hmem b).mp hb).2 (hab ▸ ha)

/-- An assignment belongs to the same role for as long as roles keep their identifiers. -/
theorem Mirrors.roleKey?_iff (h : db.Mirrors registry memory) (hkeeps : db.KeepsRoles db')
    {a : AssignmentRow} (ha : a ∈ db.assignments) (key : String) :
    db'.roleKey? a.roleId = some key ↔ db.roleKey? a.roleId = some key := by
  refine ⟨fun hkey => ?_, hkeeps _ _⟩
  obtain ⟨key', hkey'⟩ := h.owned a ha
  rw [hkeeps _ _ hkey'] at hkey
  rw [hkey', hkey]

theorem require_of_require {tables required : List String} (h : db.require tables = .ok ())
    (hsubset : required ⊆ tables) : db.require required = .ok () := by
  rw [require] at h ⊢
  cases hclosed : db.closed with
  | true => simp only [hclosed, if_true] at h; cases h
  | false =>
    simp only [hclosed, Bool.false_eq_true, if_false] at h ⊢
    cases hfind : tables.find? fun t => !db.present.contains t with
    | some t => rw [hfind] at h; cases h
    | none =>
      have hnone : (required.find? fun t => !db.present.contains t) = none := by
        rw [List.find?_eq_none] at hfind ⊢
        exact fun t ht => hfind t (hsubset ht)
      rw [hnone]

/-! ## Deployments -/

theorem Mirrors.numbered (h : db.Mirrors registry memory) (n : Nat) :
    Mirrors registry { db with issued := db.issued + n } memory where
  stores := ⟨h.stores.distinct.numbered n, h.stores.ready, h.stores.valid, h.stores.rows⟩
  recovered := h.recovered
  keys := h.keys
  usable := h.usable
  owned := h.owned
  assigned := h.assigned

/-- Permissions that replace the others are mirrored, and assignments stay as they are. -/
theorem Mirrors.replaced (h : db.Mirrors registry memory) {permissions : List Permission}
    (hvalid : ∀ p ∈ permissions, p.validate registry = .ok ())
    (hrecovered : ∀ p ∈ permissions, p.Recovered)
    (hreplace : db.replacePermissions permissions = .ok db') :
    db'.Mirrors registry { memory with permissions := permissions } := by
  obtain ⟨hdistinct, hrows⟩ := of_replacePermissions h.stores.distinct hreplace
  have hkeeps := keeps_of_replacePermissions hreplace
  have hreplaces := replaces_of_replacePermissions hreplace
  have hroles := hreplaces.roles.keepsRoles
  refine ⟨⟨hdistinct, ?_, hvalid, hrows⟩, hrecovered, hreplaces.roles.nodup h.keys, ?_, ?_, ?_⟩
  · exact (require_of_keeps hkeeps).trans h.stores.ready
  · exact (require_of_keeps hkeeps).trans h.usable
  · rw [hreplaces.assignments]
    intro a ha
    obtain ⟨key, hkey⟩ := h.owned a ha
    exact ⟨key, hroles _ _ hkey⟩
  · intro user role
    rw [h.assigned, hreplaces.assignments]
    refine exists_congr fun a => and_congr_right fun ha => and_congr_right fun _ => ?_
    exact (h.roleKey?_iff hroles ha role.key).symm

theorem recovered_of_permissions {issued : Nat} {definitions : List PermissionDefinition}
    {permissions : List Permission}
    (h : Deployment.permissions registry issued 0 definitions = .ok permissions)
    (hrecovered : ∀ d ∈ definitions,
      Condition.Recovered d.conditions ∧ Condition.Recovered d.contextConditions) :
    ∀ p ∈ permissions, p.Recovered := by
  intro p hp
  obtain ⟨d, hd, hpermits⟩ := Outcome.exists_of_forall₂ (Deployment.permits_of_permissions h) p hp
  obtain ⟨hconditions, hcontext⟩ :=
    PermissionDefinition.conditions_of_toPermission hpermits
  refine ⟨?_, fun r hr => ?_⟩
  · rw [hconditions]
    exact (hrecovered d hd).1
  · rw [hcontext r hr]
    exact (hrecovered d hd).2

/-- What a deployment in a session comes to. -/
theorem Session.after_deploy (registry : Registry) (s : Session) (disturbance : Disturbance)
    (definitions : List PermissionDefinition) :
    (∃ ps left, Deployment.permissions registry s.store.issued 0 definitions = .ok ps ∧
      { s.store with issued := s.store.issued + definitions.length }.replacePermissions ps =
        .ok left ∧
      s.after registry (.deploy disturbance definitions) =
        ⟨left, { s.memory with permissions := ps }⟩) ∨
    ∃ n, s.after registry (.deploy disturbance definitions) =
      ⟨{ s.store with issued := s.store.issued + n }, s.memory⟩ := by
  rw [Session.after]
  generalize hattempt : Deployment.attempt registry disturbance s.store definitions = outcome
  obtain ⟨report, left⟩ := outcome
  cases report with
  | ok report =>
    obtain ⟨ps, hps, _, hreplaced⟩ := Deployment.of_attempt hattempt
    simp only [hps]
    exact .inl ⟨ps, left, rfl, hreplaced, rfl⟩
  | error e =>
    obtain ⟨n, hleft⟩ := Deployment.left_of_attempt (congrArg Prod.fst hattempt)
    rw [hattempt] at hleft
    cases hleft
    cases Deployment.permissions registry s.store.issued 0 definitions with
    | error e => exact .inr ⟨n, rfl⟩
    | ok ps => exact .inr ⟨n, rfl⟩

/-! ## Assignments -/

/-- Nothing that a store needs for an assignment is missing. -/
theorem Mirrors.exists_assignRole (h : db.Mirrors registry memory) (user : String) (role : Role) :
    ∃ db', db.assignRole user role = .ok db' := by
  have hroles : db.require ["roles"] = .ok () := require_of_require h.usable (by decide)
  have hensure : ∃ ensured, db.ensureRole role.key = .ok ensured := by
    rw [ensureRole, hroles]
    cases db.roles.find? fun r => r.key == role.key with
    | some found => exact ⟨_, rfl⟩
    | none => exact ⟨_, rfl⟩
  obtain ⟨⟨id, next⟩, hensured⟩ := hensure
  have husers : next.require ["user_roles"] = .ok () := by
    rw [require_of_keeps (keeps_of_ensureRole hensured)]
    exact require_of_require h.usable (by decide)
  rw [Database.assignRole, hensured]
  change ∃ db', (next.require ["user_roles"] >>= fun _ => pure _) = Except.ok db'
  rw [husers]
  exact ⟨_, rfl⟩

theorem mem_assignments_of_assignRole (h : db.DistinctRoles) {user : String} {role : Role}
    (hassign : db.assignRole user role = .ok db') :
    AddsRoles db.roles [role.key] db'.roles ∧ ∃ id, db'.roleKey? id = some role.key ∧
      ∀ a, a ∈ db'.assignments ↔ a ∈ db.assignments ∨ a = ⟨user, id⟩ := by
  rw [assignRole] at hassign
  obtain ⟨⟨id, next⟩, hensured, hassign⟩ := Outcome.bind_eq_ok.mp hassign
  obtain ⟨_, hkey, _, _⟩ := of_ensureRole h hensured
  obtain ⟨_, _, hassign⟩ := Outcome.bind_eq_ok.mp hassign
  cases hassign
  have hroles : AddsRoles db.roles [role.key] next.roles :=
    addsRoles_of_ensureRole (addsRoles_nil _) hensured
  obtain ⟨_, _, hsame⟩ := tables_of_ensureRole hensured
  split
  · rename_i hgiven
    refine ⟨hroles, id, hkey, fun a => ?_⟩
    rw [← hsame]
    refine ⟨.inl, ?_⟩
    rintro (ha | rfl)
    · exact ha
    · exact List.contains_iff_mem.mp hgiven
  · refine ⟨hroles, id, hkey, fun a => ?_⟩
    rw [← hsame, List.mem_append, List.mem_singleton]

/-- A role that is given is mirrored. -/
theorem Mirrors.assignRole (h : db.Mirrors registry memory) {user : String} {role : Role}
    (hassign : db.assignRole user role = .ok db') :
    db'.Mirrors registry (memory.assign user role) := by
  obtain ⟨hdistinct, hkeeps, hpermissions⟩ := of_assignRole h.stores.distinct hassign
  obtain ⟨hroles, id, hkey, hassignments⟩ := mem_assignments_of_assignRole h.stores.distinct hassign
  have htables : ∀ tables, db'.require tables = db.require tables :=
    fun _ => require_of_keeps (keeps_of_assignRole hassign)
  refine ⟨⟨hdistinct, (htables _).trans h.stores.ready, h.stores.valid, ?_⟩, h.recovered,
    hroles.nodup h.keys, (htables _).trans h.usable, fun a ha => ?_, fun user' role' => ?_⟩
  · rw [hpermissions]
    exact h.stores.rows.imp fun _ _ hstored => hstored.keeps hkeeps
  · rcases (hassignments a).mp ha with ha | rfl
    · obtain ⟨key, hkey⟩ := h.owned a ha
      exact ⟨key, hkeeps _ _ hkey⟩
    · exact ⟨role.key, hkey⟩
  · rw [MemoryRepository.assign, List.mem_append, List.mem_singleton, h.assigned]
    simp only [hassignments, or_and_right, exists_or, exists_eq_left]
    refine or_congr ?_ ?_
    · refine exists_congr fun a => and_congr_right fun ha => and_congr_right fun _ => ?_
      exact (h.roleKey?_iff hkeeps ha role'.key).symm
    · rw [hkey, Prod.mk.injEq, Option.some.injEq]
      refine and_congr eq_comm ⟨fun hrole => by rw [hrole], fun hname => ?_⟩
      exact congrArg Role.mk hname.symm

/-- What an assignment in a session comes to. -/
theorem Session.after_assign (registry : Registry) (s : Session) (disturbance : Disturbance)
    (user : String) (role : Role) :
    (disturbance.spares (assignment user role).length = true ∧
      ∃ left, s.store.assignRole user role = .ok left ∧
        s.after registry (.assign disturbance user role) = ⟨left, s.memory.assign user role⟩) ∨
    ((disturbance.spares (assignment user role).length = false ∨
        ∀ left, s.store.assignRole user role ≠ .ok left) ∧
      s.after registry (.assign disturbance user role) = s) := by
  rw [Session.after]
  generalize htransact : s.store.transact disturbance (assignment user role) = outcome
  obtain ⟨report, left⟩ := outcome
  cases report with
  | ok _ =>
    obtain ⟨hspared, hassign⟩ := transact_eq_ok_iff.mp htransact
    rw [foldlM_assignment] at hassign
    exact .inl ⟨hspared, left, hassign, rfl⟩
  | error e =>
    have hleft := transact_of_error (congrArg Prod.fst htransact)
    rw [htransact] at hleft
    cases hleft
    refine .inr ⟨?_, rfl⟩
    rw [or_iff_not_imp_left, Bool.not_eq_false]
    intro hspared left hassign
    rw [← foldlM_assignment] at hassign
    cases htransact.symm.trans (transact_eq_ok_iff.mpr ⟨hspared, hassign⟩)

/-! ## Runs -/

/-- A call keeps the store and the repository in memory in step. -/
theorem Mirrors.after {s : Session} (h : s.store.Mirrors registry s.memory) {c : Call}
    (hc : c.Recovered) :
    (s.after registry c).store.Mirrors registry (s.after registry c).memory ∧
      (s.after registry c).memory.userRoles = s.memory.userRoles ++ c.assigned?.toList := by
  cases c with
  | deploy disturbance definitions =>
    rw [Call.assigned?, Option.toList_none, List.append_nil]
    rcases s.after_deploy registry disturbance definitions with
      ⟨ps, left, hps, hreplaced, hafter⟩ | ⟨n, hafter⟩
    · rw [hafter]
      refine ⟨(h.numbered _).replaced (valid_of_permissions hps) ?_ hreplaced, rfl⟩
      exact recovered_of_permissions hps hc
    · rw [hafter]
      exact ⟨h.numbered n, rfl⟩
  | assign disturbance user role =>
    rw [Call.assigned?]
    rcases s.after_assign registry disturbance user role with
      ⟨hspared, left, hassign, hafter⟩ | ⟨hfails, hafter⟩
    · rw [hafter, if_pos hspared]
      exact ⟨h.assignRole hassign, rfl⟩
    · obtain ⟨left, hassign⟩ := h.exists_assignRole user role
      have hspared := hfails.resolve_right fun hnone => hnone left hassign
      rw [hafter, hspared]
      exact ⟨h, (List.append_nil _).symm⟩

theorem Mirrors.foldl {calls : List Call} :
    ∀ {s : Session}, s.store.Mirrors registry s.memory → (∀ c ∈ calls, c.Recovered) →
      (calls.foldl (Session.after registry) s).store.Mirrors registry
          (calls.foldl (Session.after registry) s).memory ∧
        (calls.foldl (Session.after registry) s).memory.userRoles =
          s.memory.userRoles ++ calls.filterMap Call.assigned? := by
  induction calls with
  | nil => exact fun h _ => ⟨h, (List.append_nil _).symm⟩
  | cons c rest ih =>
    intro s h hcalls
    obtain ⟨hc, hrest⟩ := List.forall_mem_cons.mp hcalls
    obtain ⟨hafter, hgiven⟩ := h.after hc
    obtain ⟨hmirrors, hall⟩ := ih hafter hrest
    refine ⟨hmirrors, ?_⟩
    rw [List.foldl_cons, hall, hgiven, List.append_assoc, List.filterMap_cons]
    cases c.assigned? <;> rfl

theorem mirrors_start (registry : Registry) :
    Session.start.store.Mirrors registry Session.start.memory where
  stores := ⟨⟨nofun, List.nodup_nil⟩, by decide, nofun, .nil⟩
  recovered := nofun
  keys := List.nodup_nil
  usable := by decide
  owned := nofun
  assigned user role := ⟨nofun, nofun⟩

theorem Mirrors.owner (h : db.Mirrors registry memory) :
    (∀ row ∈ db.permissions, ∃ role ∈ db.roles, role.id = row.roleId) ∧
      ∀ row ∈ db.assignments, ∃ role ∈ db.roles, role.id = row.roleId := by
  constructor
  · intro row hrow
    obtain ⟨p, _, _, hkey⟩ := Outcome.exists_of_forall₂ h.stores.rows row hrow
    exact exists_role_of_roleKey? hkey
  · intro row hrow
    obtain ⟨key, hkey⟩ := h.owned row hrow
    exact exists_role_of_roleKey? hkey

end

/-- After any run roles have distinct keys, and every row belongs to a role.  A user has
the roles that were given in the run.  For a registered type the store answers as a
repository in memory does that holds the permissions of the last deployment that
succeeded, up to their order and identifiers. -/
theorem run_mirrors_memory (registry : Registry) (calls : List Call)
    (hcalls : ∀ c ∈ calls, c.Recovered) :
    ((Session.run registry calls).store.roles.map (·.key)).Nodup ∧
    (∀ row ∈ (Session.run registry calls).store.permissions,
      ∃ role ∈ (Session.run registry calls).store.roles, role.id = row.roleId) ∧
    (∀ row ∈ (Session.run registry calls).store.assignments,
      ∃ role ∈ (Session.run registry calls).store.roles, role.id = row.roleId) ∧
    (∀ user, ((Session.run registry calls).store.repository registry).rolesOfUser user =
      .ok (.ofList (((calls.filterMap Call.assigned?).filter fun given =>
        given.1 = user).map (·.2)))) ∧
    ∀ type kind, registry.registered type = .ok kind →
      (∀ action,
        ((Session.run registry calls).store.repository registry).rolesGranting type action =
          (Session.run registry calls).memory.repository.rolesGranting type action) ∧
      ∀ role, ∃ found expected,
        ((Session.run registry calls).store.repository registry).permissionsFor role type =
          .ok found ∧
        (Session.run registry calls).memory.repository.permissionsFor role type = .ok expected ∧
        (found.map Permission.unnumbered).Perm (expected.map Permission.unnumbered) := by
  obtain ⟨hmirrors, hgiven⟩ := (mirrors_start registry).foldl hcalls
  obtain ⟨hpermissions, hassignments⟩ := hmirrors.owner
  refine ⟨hmirrors.keys, hpermissions, hassignments, fun user => ?_, fun type kind hkind =>
    ⟨hmirrors.rolesGranting hkind, fun role => ?_⟩⟩
  · refine (hmirrors.rolesOfUser user).trans ?_
    rw [MemoryRepository.repository, hgiven]
    rfl
  · obtain ⟨found, expected, hfound, hexpected, hsame⟩ := hmirrors.permissionsFor hkind role
    exact ⟨found, expected, hfound, hexpected, .of_eq hsame⟩

namespace Attended

open Deployment.Staffed (ghostly fullAt)

def ownTasks : List Condition :=
  [.field "assignee" (.compare .equal) (.string Condition.currentUserIdentifier)]

/-- A role views its own tasks wherever the request comes with some document. -/
def attending (role : String) : PermissionDefinition :=
  ⟨"task", "view", role, ownTasks, some "document", []⟩

/-- A deployment, the same role given twice, a deployment that is rejected and one during
which the store is full. -/
def calls : List Call :=
  [.deploy .none [attending "reader"], .assign .none "user" ⟨"reader"⟩,
    .deploy .none [ghostly], .assign .none "user" ⟨"reader"⟩, .assign (fullAt 1) "user" ⟨"clerk"⟩,
    .deploy (fullAt 2) [attending "clerk"], .assign .none "user" ⟨"writer"⟩]

theorem recovered_ownTasks : Condition.Recovered ownTasks := by
  refine Condition.Storable.recovered ⟨?_, by decide⟩ rfl
  simp [ownTasks, Condition.toItems, Condition.toJson, Json.HasValidNumbers,
    Json.ItemsHaveValidNumbers, Json.MembersHaveValidNumbers]

theorem recovered_calls : ∀ c ∈ calls, c.Recovered := by
  have hempty : Condition.Recovered [] :=
    Condition.Storable.recovered ⟨trivial, by decide⟩ rfl
  simp [calls, Call.Recovered, attending, ghostly, recovered_ownTasks, hempty]

end Attended

open Attended in
/-- The user has both roles once, and the permission with its requirement on the context
is the one that readers were given first. -/
theorem run_mirrors_memory_attended :
    (∀ c ∈ calls, c.Recovered) ∧
      ((Session.run WorkflowKind.registry calls).store.roles.map (·.key)) = ["reader", "writer"] ∧
      ((Session.run WorkflowKind.registry calls).store.roles.map (·.key)).Nodup ∧
      ((Session.run WorkflowKind.registry calls).store.repository
          WorkflowKind.registry).rolesOfUser "user" =
        .ok (.ofList [⟨"reader"⟩, ⟨"reader"⟩, ⟨"writer"⟩]) ∧
      ∃ found expected, ((Session.run WorkflowKind.registry calls).store.repository
          WorkflowKind.registry).permissionsFor ⟨"reader"⟩ WorkflowKind.task.type = .ok found ∧
        expected = [⟨.issued 0, ⟨"reader"⟩, WorkflowKind.task.type, .view,
          ownTasks, some ⟨WorkflowKind.document.type, []⟩⟩] ∧
        (found.map Permission.unnumbered).Perm (expected.map Permission.unnumbered) := by
  obtain ⟨hkeys, _, _, hroles, hanswers⟩ :=
    run_mirrors_memory WorkflowKind.registry calls recovered_calls
  obtain ⟨_, hpermissions⟩ := hanswers WorkflowKind.task.type WorkflowKind.task.resource rfl
  obtain ⟨found, expected, hfound, hexpected, hsame⟩ := hpermissions ⟨"reader"⟩
  refine ⟨recovered_calls, rfl, hkeys, hroles "user", found, expected, hfound, ?_, hsame⟩
  exact (Except.ok.inj hexpected).symm.trans rfl

end Database
end AccessPolicy
