/-
What a deployment leaves behind.

A deployment that fails leaves every table as it was, whether a definition was
rejected, a row could not be written or the store was disturbed.  One that succeeds
creates the roles that were missing, writes one row for each definition with the
identifier of its role and touches nothing else.
-/
import AccessPolicy.Proofs.Database.Permissions
import AccessPolicy.Proofs.Database.Transaction
import Mathlib.Data.Finset.Card

namespace AccessPolicy
namespace Database

theorem nodup_map_snoc {α β : Type} {f : α → β} {l : List α} {a : α} (h : (l.map f).Nodup)
    (ha : f a ∉ l.map f) : ((l ++ [a]).map f).Nodup := by
  rw [List.map_append, List.map_singleton, ← List.concat_eq_append]
  exact h.concat ha

/-! ## Roles -/

/-- The roles, and after them one new role for each of the keys that was missing. -/
def AddsRoles (roles : List RoleRow) (keys : List String) (roles' : List RoleRow) : Prop :=
  ∃ created, roles' = roles ++ created ∧ (created.map (·.key)).Nodup ∧
    ∀ key, key ∈ created.map (·.key) ↔ key ∈ keys ∧ key ∉ roles.map (·.key)

section

variable {roles roles' : List RoleRow} {keys : List String} {key : String}

theorem addsRoles_nil (roles : List RoleRow) : AddsRoles roles [] roles :=
  ⟨[], (List.append_nil roles).symm, List.nodup_nil, by simp⟩

/-- A role that is there is not created. -/
theorem AddsRoles.known (h : AddsRoles roles keys roles') (hkey : key ∈ roles'.map (·.key)) :
    AddsRoles roles (keys ++ [key]) roles' := by
  obtain ⟨created, rfl, hnodup, hmem⟩ := h
  refine ⟨created, rfl, hnodup, fun other => ?_⟩
  rw [List.map_append, List.mem_append] at hkey
  rw [List.mem_append, List.mem_singleton]
  constructor
  · intro hother
    obtain ⟨hasked, hmissing⟩ := (hmem other).mp hother
    exact ⟨.inl hasked, hmissing⟩
  · rintro ⟨hasked | rfl, hmissing⟩
    · exact (hmem other).mpr ⟨hasked, hmissing⟩
    · exact hkey.resolve_left hmissing

theorem AddsRoles.created (h : AddsRoles roles keys roles') (hkey : key ∉ roles'.map (·.key))
    (id : Uuid) : AddsRoles roles (keys ++ [key]) (roles' ++ [⟨id, key⟩]) := by
  obtain ⟨created, rfl, hnodup, hmem⟩ := h
  rw [List.map_append, List.mem_append, not_or] at hkey
  refine ⟨created ++ [⟨id, key⟩], List.append_assoc _ _ _, nodup_map_snoc hnodup hkey.2,
    fun other => ?_⟩
  · rw [List.map_append, List.mem_append, List.map_singleton, List.mem_singleton, List.mem_append,
      List.mem_singleton, hmem]
    constructor
    · rintro (⟨hasked, hmissing⟩ | rfl)
      · exact ⟨.inl hasked, hmissing⟩
      · exact ⟨.inr rfl, hkey.1⟩
    · rintro ⟨hasked | rfl, hmissing⟩
      · exact .inl ⟨hasked, hmissing⟩
      · exact .inr rfl

end

/-! ## Rows -/

/-- The row of a permission, with the identifier of a role that has its key. -/
def WrittenFor (roles : List RoleRow) (p : Permission) (row : PermissionRow) : Prop :=
  ∃ role ∈ roles, role.key = p.role.key ∧ row = .ofPermission role.id p

theorem WrittenFor.mono {roles roles' : List RoleRow} (hsubset : roles ⊆ roles') {p : Permission}
    {row : PermissionRow} (h : WrittenFor roles p row) : WrittenFor roles' p row := by
  obtain ⟨role, hrole, hrow⟩ := h
  exact ⟨role, hsubset hrole, hrow⟩

/-- One store is the other with these permissions in the place of its own. -/
structure Replaces (db : Database) (permissions : List Permission) (db' : Database) : Prop where
  roles : AddsRoles db.roles (permissions.map (·.role.key)) db'.roles
  rows : List.Forall₂ (WrittenFor db'.roles) permissions db'.permissions
  distinct : (db'.permissions.map (·.id)).Nodup
  assignments : db'.assignments = db.assignments

section

variable {db db' db'' : Database} {permissions : List Permission}

/-- Asking for a role adds it unless it is there. -/
theorem addsRoles_of_ensureRole {key : String} {id : Uuid} {roles : List RoleRow}
    {keys : List String} (h : AddsRoles roles keys db.roles)
    (hensure : db.ensureRole key = .ok (id, db')) :
    AddsRoles roles (keys ++ [key]) db'.roles := by
  rcases ensureRole_cases hensure with ⟨rfl, role, hfound, _⟩ | ⟨hmissing, _, rfl⟩
  · have hkey := List.find?_some hfound
    exact h.known (List.mem_map.mpr ⟨role, List.mem_of_find?_eq_some hfound, eq_of_beq hkey⟩)
  · refine h.created (fun hkey => ?_) id
    obtain ⟨role, hrole, rfl⟩ := List.mem_map.mp hkey
    exact List.find?_eq_none.mp hmissing role hrole (beq_self_eq_true _)

/-- Earlier roles and the other tables are left as they were. -/
theorem tables_of_ensureRole {key : String} {id : Uuid} (h : db.ensureRole key = .ok (id, db')) :
    db.roles ⊆ db'.roles ∧ db'.permissions = db.permissions ∧
      db'.assignments = db.assignments := by
  rcases ensureRole_cases h with ⟨rfl, _⟩ | ⟨_, _, rfl⟩
  · exact ⟨List.Subset.refl _, rfl, rfl⟩
  · exact ⟨List.subset_append_left _ _, rfl, rfl⟩

/-- Inserting a permission adds it to those that took the place of the others. -/
theorem Replaces.insertPermission {p : Permission} (h : Replaces db permissions db')
    (hinsert : db'.insertPermission p = .ok db'') : Replaces db (permissions ++ [p]) db'' := by
  rw [Database.insertPermission] at hinsert
  obtain ⟨⟨id, ensured⟩, hensured, hinsert⟩ := Outcome.bind_eq_ok.mp hinsert
  obtain ⟨hfree, rfl⟩ := insertRow_eq_ok hinsert
  obtain ⟨hsubset, hpermissions, hassignments⟩ := tables_of_ensureRole hensured
  obtain ⟨role, hfound, rfl⟩ := find_of_ensureRole hensured
  have hkey := List.find?_some hfound
  have hrow : WrittenFor ensured.roles p (.ofPermission role.id p) :=
    ⟨role, List.mem_of_find?_eq_some hfound, eq_of_beq hkey, rfl⟩
  have hroles := addsRoles_of_ensureRole h.roles hensured
  refine ⟨?_, ?_, nodup_map_snoc ?_ hfree, hassignments.trans h.assignments⟩
  · rw [List.map_append]
    exact hroles
  · rw [hpermissions]
    exact List.rel_append (h.rows.imp fun _ _ hrow => hrow.mono hsubset) (.cons hrow .nil)
  · rw [hpermissions]
    exact h.distinct

theorem Replaces.insertPermissions {inserted : List Permission} :
    ∀ {permissions : List Permission} {db' : Database}, Replaces db permissions db' →
      db'.insertPermissions inserted = .ok db'' → Replaces db (permissions ++ inserted) db'' := by
  induction inserted with
  | nil =>
    intro permissions db' h hinsert
    rw [Database.insertPermissions] at hinsert
    cases hinsert
    rwa [List.append_nil]
  | cons p rest ih =>
    intro permissions db' h hinsert
    rw [Database.insertPermissions] at hinsert
    obtain ⟨next, hnext, hinsert⟩ := Outcome.bind_eq_ok.mp hinsert
    rw [List.append_cons]
    exact ih (h.insertPermission hnext) hinsert

theorem replaces_of_replacePermissions (h : db.replacePermissions permissions = .ok db') :
    Replaces db permissions db' := by
  rw [replacePermissions] at h
  obtain ⟨_, _, h⟩ := Outcome.bind_eq_ok.mp h
  have hcleared : Replaces db [] { db with permissions := [] } :=
    ⟨addsRoles_nil db.roles, .nil, List.nodup_nil, rfl⟩
  exact hcleared.insertPermissions h

/-- The rows have identifiers of their own, so the permissions do. -/
theorem Replaces.nodup (h : Replaces db permissions db') : (permissions.map (·.id)).Nodup := by
  have hids : (permissions.map (·.id)).map Uuid.text = db'.permissions.map (·.id) := by
    have hrows := h.rows
    generalize db'.permissions = rows at hrows
    clear h
    induction hrows with
    | nil => rfl
    | cons hrow _ ih =>
      obtain ⟨role, _, _, rfl⟩ := hrow
      simp only [List.map_cons, ih]
      rfl
  exact .of_map Uuid.text (hids ▸ h.distinct)

end

end Database

/-! ## Definitions -/

namespace PermissionDefinition

variable {registry : Registry}

/-- The definition is rejected with an error, whichever identifier it is given. -/
def RejectedWith (registry : Registry) (e : ConfigurationError) (d : PermissionDefinition) : Prop :=
  ∀ id, d.toPermission registry id = .error e

/-- What a definition says does not depend on the identifier. -/
theorem toPermission_numbered (d : PermissionDefinition) (id id' : Uuid) :
    d.toPermission registry id' =
      (d.toPermission registry id).map fun p => { p with id := id' } := by
  rw [toPermission, toPermission]
  cases registry.resourceType d.resourceType with
  | error e => rfl
  | ok type =>
    simp only
    cases registry.parseAction type d.action with
    | error e => rfl
    | ok action =>
      simp only
      cases d.contextRequirement registry with
      | error e => rfl
      | ok context =>
        have hvalid : ∀ id,
            Permission.validate registry
                ⟨id, ⟨d.roleKey⟩, type, action, d.conditions, context⟩ =
              Permission.validate registry
                ⟨id', ⟨d.roleKey⟩, type, action, d.conditions, context⟩ := fun _ => rfl
        simp only [hvalid]
        cases Permission.validate registry
            ⟨id', ⟨d.roleKey⟩, type, action, d.conditions, context⟩ with
        | error e => rfl
        | ok _ => rfl

theorem rejectedWith_iff {d : PermissionDefinition} {e : ConfigurationError} (id : Uuid) :
    d.RejectedWith registry e ↔ d.toPermission registry id = .error e := by
  refine ⟨fun h => h id, fun h id' => ?_⟩
  rw [toPermission_numbered d id id', h]
  rfl

end PermissionDefinition

/-! ## Deployments -/

namespace Deployment

open Database (Disturbance replacement)
open PermissionDefinition (RejectedWith)

variable {registry : Registry}

/-- The definition at the index is rejected with an error, and none before it is rejected. -/
def FirstRejected (registry : Registry) (definitions : List PermissionDefinition) (index : Nat)
    (e : ConfigurationError) : Prop :=
  (∃ d, definitions[index]? = some d ∧ d.RejectedWith registry e) ∧
    ∀ d ∈ definitions.take index, ∀ e, ¬ d.RejectedWith registry e

/-- The permission has the identifier that the definition was given, and says what it says. -/
def Permits (registry : Registry) (d : PermissionDefinition) (p : Permission) : Prop :=
  d.toPermission registry p.id = .ok p

/-- Either every definition gives a permission, or the first that is rejected is reported. -/
theorem permissions_cases (registry : Registry) (issued : Nat)
    (definitions : List PermissionDefinition) :
    ∀ index, (∃ ps, permissions registry issued index definitions = .ok ps ∧
        List.Forall₂ (Permits registry) definitions ps) ∨
      ∃ i e, permissions registry issued index definitions = .error (.definition (index + i) e) ∧
        FirstRejected registry definitions i e := by
  induction definitions with
  | nil => exact fun index => .inl ⟨[], rfl, .nil⟩
  | cons d rest ih =>
    intro index
    rw [permissions]
    cases hfirst : d.toPermission registry (.issued (issued + index)) with
    | error e =>
      have hrejected := (PermissionDefinition.rejectedWith_iff _).mpr hfirst
      exact .inr ⟨0, e, rfl, ⟨d, rfl, hrejected⟩, List.forall_mem_nil _⟩
    | ok p =>
      have hpermits : Permits registry d p := by
        obtain ⟨_, _, _, _, _, _, rfl, _⟩ := PermissionDefinition.of_toPermission hfirst
        exact hfirst
      have haccepted : ∀ e, ¬ d.RejectedWith registry e := by
        intro e hrejected
        rw [hrejected] at hfirst
        cases hfirst
      rcases ih (index + 1) with ⟨ps, hps, hforall⟩ | ⟨i, e, herror, hrejected, hbefore⟩
      · exact .inl ⟨p :: ps, by simp only [hps]; rfl, .cons hpermits hforall⟩
      · refine .inr ⟨i + 1, e, ?_, hrejected, ?_⟩
        · simp only [herror]
          rw [Nat.add_right_comm, ← Nat.add_assoc]
          rfl
        · rw [List.take_succ_cons]
          exact List.forall_mem_cons.mpr ⟨haccepted, hbefore⟩

theorem permits_of_permissions {issued index : Nat} {definitions : List PermissionDefinition}
    {ps : List Permission} (h : permissions registry issued index definitions = .ok ps) :
    List.Forall₂ (Permits registry) definitions ps := by
  rcases permissions_cases registry issued definitions index with
    ⟨ps', hps', hpermits⟩ | ⟨i, e, herror, _⟩
  · cases h.symm.trans hps'
    exact hpermits
  · cases h.symm.trans herror

/-- What a deployment reports and the store that it leaves, when the store is disturbed. -/
def attempt (registry : Registry) (disturbance : Disturbance) (db : Database)
    (definitions : List PermissionDefinition) :
    Except DeploymentError DeploymentSummary × Database :=
  match permissions registry db.issued 0 definitions with
  | .error e => (.error e, db)
  | .ok ps =>
    match { db with issued := db.issued + definitions.length }.transact disturbance
        (replacement ps) with
    | (.error e, left) => (.error (.store e), left)
    | (.ok _, left) => (.ok (summary ps), left)

/-- A deployment is an attempt that nothing disturbs. -/
theorem deploy_eq_attempt (registry : Registry) (db : Database)
    (definitions : List PermissionDefinition) :
    deploy registry db definitions =
      match attempt registry .none db definitions with
      | (.ok summary, left) => .ok (summary, left)
      | (.error e, _) => .error e := by
  rw [deploy, attempt]
  cases permissions registry db.issued 0 definitions with
  | error e => rfl
  | ok ps =>
    simp only [Database.transact_replacement]
    change ((Database.replacePermissions { db with issued := db.issued + definitions.length }
      ps).mapError DeploymentError.store >>= fun left => pure (summary ps, left)) = _
    cases Database.replacePermissions { db with issued := db.issued + definitions.length } ps with
    | error e => rfl
    | ok left => rfl

/-- Every table is as before. -/
structure Untouched (db left : Database) : Prop where
  roles : left.roles = db.roles
  permissions : left.permissions = db.permissions
  assignments : left.assignments = db.assignments
  entities : left.entities = db.entities

/-- The permissions of the definitions took the place of the others.  The roles that
were missing were created, and every other role and the assignments are as before. -/
structure Redeployed (registry : Registry) (definitions : List PermissionDefinition)
    (db left : Database) : Prop where
  roles : Database.AddsRoles db.roles (definitions.map (·.roleKey)) left.roles
  rows : List.Forall₂
    (fun d row => ∃ p, Permits registry d p ∧ Database.WrittenFor left.roles p row)
    definitions left.permissions
  assignments : left.assignments = db.assignments
  entities : left.entities = db.entities

section

variable {disturbance : Disturbance} {db left : Database}
  {definitions : List PermissionDefinition} {ps : List Permission}

theorem roleKeys_of_permits (h : List.Forall₂ (Permits registry) definitions ps) :
    ps.map (·.role.key) = definitions.map (·.roleKey) := by
  induction h with
  | nil => rfl
  | cons hp _ ih =>
    obtain ⟨_, _, _, _, _, _, hp, _⟩ := PermissionDefinition.of_toPermission hp
    rw [List.map_cons, List.map_cons, ih, hp]

/-- The summary counts the definitions and the distinct keys of their roles. -/
theorem summary_of_permits (h : List.Forall₂ (Permits registry) definitions ps) :
    summary ps = ⟨definitions.length, (definitions.map (·.roleKey)).toFinset.card⟩ := by
  have hkeys : ((RoleSet.ofList (ps.map (·.role))).roles.map (·.key)).toFinset =
      (definitions.map (·.roleKey)).toFinset := by
    ext key
    rw [List.mem_toFinset, List.mem_toFinset, ← roleKeys_of_permits h, List.mem_map, List.mem_map]
    constructor
    · rintro ⟨role, hrole, rfl⟩
      obtain ⟨p, hp, rfl⟩ := List.mem_map.mp (RoleSet.mem_ofList.mp hrole)
      exact ⟨p, hp, rfl⟩
    · rintro ⟨p, hp, rfl⟩
      exact ⟨p.role, RoleSet.mem_ofList.mpr (List.mem_map_of_mem hp), rfl⟩
  have hnodup : ((RoleSet.ofList (ps.map (·.role))).roles.map (·.key)).Nodup := by
    refine (List.Pairwise.map _ (fun a b (hab : a < b) => ?_)
      (RoleSet.ofList (ps.map (·.role))).ascending)
    exact String.ne_of_lt hab
  rw [summary, ← hkeys, List.toFinset_card_of_nodup hnodup, List.length_map, h.length_eq]

/-- An attempt that fails uses up identifiers at most. -/
theorem left_of_attempt {e : DeploymentError}
    (h : (attempt registry disturbance db definitions).1 = .error e) :
    ∃ n, (attempt registry disturbance db definitions).2 = { db with issued := db.issued + n } := by
  rw [attempt] at h ⊢
  cases hps : permissions registry db.issued 0 definitions with
  | error e => exact ⟨0, rfl⟩
  | ok ps =>
    simp only [hps] at h ⊢
    generalize htransact :
      ({ db with issued := db.issued + definitions.length } : Database).transact disturbance
        (replacement ps) = outcome at h ⊢
    obtain ⟨report, left⟩ := outcome
    cases report with
    | ok _ => cases h
    | error e =>
      have hleft := Database.transact_of_error (congrArg Prod.fst htransact)
      rw [htransact] at hleft
      exact ⟨definitions.length, hleft⟩

theorem untouched_of_attempt {e : DeploymentError}
    (h : (attempt registry disturbance db definitions).1 = .error e) :
    Untouched db (attempt registry disturbance db definitions).2 := by
  obtain ⟨n, hleft⟩ := left_of_attempt h
  rw [hleft]
  exact ⟨rfl, rfl, rfl, rfl⟩

/-- An attempt that succeeds does what the deployment does. -/
theorem of_attempt {report : DeploymentSummary}
    (h : attempt registry disturbance db definitions = (.ok report, left)) :
    ∃ ps, permissions registry db.issued 0 definitions = .ok ps ∧ report = summary ps ∧
      { db with issued := db.issued + definitions.length }.replacePermissions ps = .ok left := by
  rw [attempt] at h
  split at h
  · cases h
  · rename_i ps hps
    split at h
    · cases h
    · rename_i htransact
      cases h
      exact ⟨ps, hps, rfl,
        (Database.foldlM_replacement ps).symm.trans (Database.transact_eq_ok_iff.mp htransact).2⟩

theorem redeployed_of_attempt {report : DeploymentSummary}
    (h : attempt registry disturbance db definitions = (.ok report, left)) :
    report = ⟨definitions.length, (definitions.map (·.roleKey)).toFinset.card⟩ ∧
      Redeployed registry definitions db left := by
  obtain ⟨ps, hps, rfl, hreplaced⟩ := of_attempt h
  have hpermits := permits_of_permissions hps
  have hreplaces := Database.replaces_of_replacePermissions hreplaced
  refine ⟨summary_of_permits hpermits, ?_, ?_, hreplaces.assignments, ?_⟩
  · rw [← roleKeys_of_permits hpermits]
    exact hreplaces.roles
  · exact Outcome.forall₂_comp hpermits hreplaces.rows
  · exact (Database.keeps_of_replacePermissions hreplaced).entities

theorem attempt_of_rejected {d : PermissionDefinition} (hd : d ∈ definitions)
    {e : ConfigurationError} (hrejected : d.RejectedWith registry e) :
    ∃ index e, FirstRejected registry definitions index e ∧
      attempt registry disturbance db definitions = (.error (.definition index e), db) := by
  rcases permissions_cases registry db.issued definitions 0 with
    ⟨ps, _, hpermits⟩ | ⟨index, e, herror, hfirst⟩
  · obtain ⟨p, _, hp⟩ := Outcome.exists_of_forall₂ hpermits.flip d hd
    cases (hrejected p.id).symm.trans hp
  · rw [Nat.zero_add] at herror
    refine ⟨index, e, hfirst, ?_⟩
    rw [attempt]
    simp only [herror]

end

/-! ## All or nothing -/

/-- A deployment either fails and leaves every table as it was, or it replaces the
permissions as a whole.  The first definition that is rejected is reported before
anything is written.  Permissions of which two have one identifier cannot be
written, and then neither those before them nor their roles are. -/
theorem attempt_all_or_nothing (registry : Registry) (disturbance : Disturbance) (db : Database)
    (definitions : List PermissionDefinition) :
    ((∃ d ∈ definitions, ∃ e, d.RejectedWith registry e) →
      ∃ index e, FirstRejected registry definitions index e ∧
        attempt registry disturbance db definitions = (.error (.definition index e), db)) ∧
    (∀ e, (attempt registry disturbance db definitions).1 = .error e →
      Untouched db (attempt registry disturbance db definitions).2) ∧
    (∀ report left, attempt registry disturbance db definitions = (.ok report, left) →
      report = ⟨definitions.length, (definitions.map (·.roleKey)).toFinset.card⟩ ∧
        Redeployed registry definitions db left) ∧
    (∀ ps : List Permission,
      (∀ e, (db.transact disturbance (replacement ps)).1 = .error e →
        (db.transact disturbance (replacement ps)).2 = db) ∧
      (¬ (ps.map (·.id)).Nodup →
        ∃ e, (db.transact disturbance (replacement ps)).1 = .error e)) ∧
    deploy registry db definitions =
      match attempt registry .none db definitions with
      | (.ok summary, left) => .ok (summary, left)
      | (.error e, _) => .error e := by
  refine ⟨?_, fun e => untouched_of_attempt, fun report left => redeployed_of_attempt, fun ps => ?_,
    deploy_eq_attempt registry db definitions⟩
  · rintro ⟨d, hd, e, hrejected⟩
    exact attempt_of_rejected hd hrejected
  · refine ⟨fun e => Database.transact_of_error, fun hrepeated => ?_⟩
    generalize htransact : db.transact disturbance (replacement ps) = outcome
    obtain ⟨report, left⟩ := outcome
    cases report with
    | error e => exact ⟨e, rfl⟩
    | ok _ =>
      have hreplaced := (Database.foldlM_replacement ps).symm.trans
        (Database.transact_eq_ok_iff.mp htransact).2
      exact absurd (Database.replaces_of_replacePermissions hreplaced).nodup hrepeated

namespace Staffed

/-- A store in which a user has a role. -/
def staffed : Database :=
  { Database.blank.migrate with
    roles := [⟨.issued 0, "reader"⟩]
    assignments := [⟨"user", .issued 0⟩]
    issued := 1 }

def viewing (role : String) : PermissionDefinition := ⟨"task", "view", role, [], none, []⟩

/-- A definition for a type that is not registered. -/
def ghostly : PermissionDefinition := ⟨"ghost", "view", "writer", [], none, []⟩

/-- The store is full at one statement. -/
def fullAt (n : Nat) : Disturbance := fun m => if m = n then some (.backend "full") else none

end Staffed

open Staffed in
/-- The second definition is rejected; or the last row cannot be written, after a role was
created; or both permissions are deployed. -/
theorem attempt_all_or_nothing_staffed :
    attempt WorkflowKind.registry .none staffed [viewing "writer", ghostly, ghostly] =
        (.error (.definition 1 (.unknownResourceType "ghost")), staffed) ∧
      (attempt WorkflowKind.registry (fullAt 4) staffed [viewing "writer", viewing "reader"]).1 =
        .error (.store (.backend "full")) ∧
      Untouched staffed
        (attempt WorkflowKind.registry (fullAt 4) staffed [viewing "writer", viewing "reader"]).2 ∧
      ∃ left, attempt WorkflowKind.registry .none staffed [viewing "writer", viewing "reader"] =
          (.ok ⟨2, 2⟩, left) ∧
        left.roles = [⟨.issued 0, "reader"⟩, ⟨.issued 3, "writer"⟩] ∧
        Redeployed WorkflowKind.registry [viewing "writer", viewing "reader"] staffed left := by
  have hfull : (attempt WorkflowKind.registry (fullAt 4) staffed
      [viewing "writer", viewing "reader"]).1 = .error (.store (.backend "full")) := rfl
  have hdone : attempt WorkflowKind.registry .none staffed [viewing "writer", viewing "reader"] =
      (.ok ⟨2, 2⟩, _) := rfl
  refine ⟨rfl, hfull, ?_, _, hdone, rfl, ?_⟩
  · exact (attempt_all_or_nothing _ _ _ _).2.1 _ hfull
  · exact ((attempt_all_or_nothing _ _ _ _).2.2.1 _ _ hdone).2

end Deployment
end AccessPolicy
