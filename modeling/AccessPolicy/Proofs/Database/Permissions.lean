/-
Permissions that come back from the store.

A store that was written to holds one row for each permission that was last deployed.
Every row belongs to the role of its permission and is read as that permission with its
conditions as they come back from their texts, so the store answers out of these
permissions.
-/
import AccessPolicy.Proofs.Condition.Stored
import AccessPolicy.Proofs.Database.Populated
import AccessPolicy.Proofs.Service.Holdings

namespace AccessPolicy

/-! ## Identifiers -/

namespace Uuid

/-- A hexadecimal digit in either case. -/
def IsHex (c : Char) : Prop := (Digits.hexValue? c).isSome = true

instance (c : Char) : Decidable (IsHex c) :=
  inferInstanceAs (Decidable ((Digits.hexValue? c).isSome = true))

theorem isHex_digitChar {n : Nat} (h : n < 16) : IsHex (Nat.digitChar n) := by
  have hall : ∀ n < 16, (Digits.hexValue? (Nat.digitChar n)).isSome = true := by decide
  exact hall n h

theorem length_hexDigits (width n : Nat) : (hexDigits width n).length = width := by
  induction width generalizing n with
  | zero => rfl
  | succ width ih => rw [hexDigits, List.length_append, ih, List.length_singleton]

theorem isHex_hexDigits {width n : Nat} : ∀ c ∈ hexDigits width n, IsHex c := by
  induction width generalizing n with
  | zero => exact fun c hc => absurd hc List.not_mem_nil
  | succ width ih =>
    intro c hc
    rcases List.mem_append.mp hc with hc | hc
    · exact ih c hc
    · rw [List.mem_singleton.mp hc]
      exact isHex_digitChar (Nat.mod_lt _ (by decide))

theorem ofDigits?_isSome {cs : List Char} (hlength : cs.length = 32) (hhex : ∀ c ∈ cs, IsHex c) :
    (ofDigits? cs).isSome = true := by
  have hfold : ∀ n, (cs.foldlM (fun n c => (Digits.hexValue? c).map (n * 16 + ·)) n).isSome =
      true := by
    clear hlength
    induction cs with
    | nil => exact fun n => rfl
    | cons c rest ih =>
      intro n
      rw [List.forall_mem_cons] at hhex
      obtain ⟨v, hv⟩ := Option.isSome_iff_exists.mp hhex.1
      rw [List.foldlM_cons, hv]
      exact ih hhex.2 _
  rw [ofDigits?, if_pos hlength, Option.isSome_map]
  exact hfold 0

/-- The digits of a text in five groups. -/
theorem ofGroups?_isSome {a b c d e : List Char} (ha : a.length = 8) (hb : b.length = 4)
    (hc : c.length = 4) (hd : d.length = 4) (he : e.length = 12)
    (hhex : ∀ x ∈ a ++ b ++ c ++ d ++ e, IsHex x) :
    (ofGroups? (a ++ '-' :: b ++ '-' :: c ++ '-' :: d ++ '-' :: e)).isSome = true := by
  have hdigits : ∀ x : List Char, x = a ++ b ++ c ++ d ++ e → (ofDigits? x).isSome = true := by
    rintro x rfl
    refine ofDigits?_isSome ?_ hhex
    simp [ha, hb, hc, hd, he]
  rw [ofGroups?, if_pos ?_]
  · refine hdigits _ ?_
    simp [List.drop_append, ha, hb, hc, hd, List.drop_eq_nil_of_le]
  · simp [ha, hb, hc, hd, he, List.getElem?_append, List.getElem?_cons]

theorem ofText?_isSome {cs : List Char} (hhex : ∃ c ∈ cs.head?, IsHex c)
    (hgroups : (ofGroups? cs).isSome = true) : (ofText? (String.ofList cs)).isSome = true := by
  obtain ⟨c, hc, hhex⟩ := hhex
  cases cs with
  | nil => cases hc
  | cons d rest =>
    cases hc
    rw [ofText?, String.toList_ofList]
    split
    · rfl
    · split
      · rename_i heq
        obtain ⟨rfl, -⟩ := List.cons.inj heq
        exact absurd hhex (by decide)
      · rename_i heq
        obtain ⟨rfl, -⟩ := List.cons.inj heq
        exact absurd hhex (by decide)
      · exact hgroups

/-- An identifier is read from its text. -/
theorem ofText?_text_isSome (u : Uuid) : (ofText? u.text).isSome = true := by
  have hlength := length_hexDigits 32 u.value
  have hhex : ∀ c ∈ hexDigits 32 u.value, IsHex c := isHex_hexDigits
  rw [text]
  generalize hexDigits 32 u.value = d at hlength hhex
  refine ofText?_isSome ?_ ?_
  · cases d with
    | nil => cases hlength
    | cons c rest => exact ⟨c, rfl, hhex c List.mem_cons_self⟩
  · refine ofGroups?_isSome ?_ ?_ ?_ ?_ ?_ fun x hx => hhex x ?_
    · simp [hlength]
    · simp [hlength]
    · simp [hlength]
    · simp [hlength]
    · simp [hlength]
    · simp only [List.mem_append, or_assoc] at hx
      rcases hx with hx | hx | hx | hx | hx
      · exact List.mem_of_mem_take hx
      · exact List.mem_of_mem_drop (List.mem_of_mem_take hx)
      · exact List.mem_of_mem_drop (List.mem_of_mem_take hx)
      · exact List.mem_of_mem_drop (List.mem_of_mem_take hx)
      · exact List.mem_of_mem_drop hx

end Uuid

/-! ## Rows -/

namespace Registry

variable {registry : Registry} {type : ResourceType}

theorem parseAction_key {actions : List Action} (h : registry.availableActions type = .ok actions)
    {action : Action} (haction : actions.contains action = true) :
    registry.parseAction type action.key = .ok action := by
  rw [parseAction, Action.ofKey?_key]
  simp only [h]
  rw [if_pos haction]

end Registry

namespace Permission

/-- A permission as it comes back from its row. -/
def reread (p : Permission) : Permission :=
  { p with
    id := (Uuid.ofText? p.id.text).getD p.id
    conditions := Condition.rereadAll p.conditions
    context := p.context.map fun r => { r with conditions := Condition.rereadAll r.conditions } }

@[simp]
theorem reread_role (p : Permission) : p.reread.role = p.role := by simp only [reread]

@[simp]
theorem reread_resourceType (p : Permission) : p.reread.resourceType = p.resourceType := by
  simp only [reread]

@[simp]
theorem reread_action (p : Permission) : p.reread.action = p.action := by simp only [reread]

theorem grants_reread (p : Permission) (type : ResourceType) (action : Action) :
    p.reread.grants type action = p.grants type action := by
  rw [grants, grants, reread_resourceType, reread_action]

/-- The conditions of the permission and those on the context can be stored. -/
structure Storable (p : Permission) : Prop where
  conditions : Condition.Storable p.conditions
  context : ∀ r, p.context = some r → Condition.Storable r.conditions

variable {registry : Registry} {p : Permission}

theorem validate_reread (p : Permission) : p.reread.validate registry = p.validate registry := by
  rw [validate, validate, reread]
  cases p.context with
  | none => simp only [Condition.validateAll_reread, Option.map_none]
  | some r => simp only [Condition.validateAll_reread, Option.map_some]

/-- What a permission for registered types refers to. -/
theorem of_validate (h : p.validate registry = .ok ()) :
    (∃ actions, registry.availableActions p.resourceType = .ok actions ∧
      actions.contains p.action = true) ∧
    ∀ r, p.context = some r → ∃ kind, registry.registered r.resourceType = .ok kind := by
  rw [validate] at h
  split at h
  · cases h
  · rename_i actions hactions
    split at h
    · rename_i haction
      refine ⟨⟨actions, hactions, haction⟩, fun r hr => ?_⟩
      rw [hr] at h
      split at h
      · cases h
      · simp only at h
        split at h
        · cases h
        · rename_i hregistered
          obtain ⟨kind, hkind, -⟩ := Outcome.map_eq_ok.mp hregistered
          exact ⟨kind, hkind⟩
    · cases h

end Permission

namespace PermissionRow

variable {registry : Registry} {p : Permission}

theorem conditionsOf_listText {conditions : List Condition} (h : Condition.Storable conditions) :
    conditionsOf (Condition.listText conditions) = .ok (Condition.rereadAll conditions) := by
  rw [conditionsOf, Condition.listOfText?_listText h]

section

variable (read : List Condition → List Condition)

theorem contextRequirement_of_texts (hvalid : p.validate registry = .ok ())
    (hcontext : ∀ r, p.context = some r →
      conditionsOf (Condition.listText r.conditions) = .ok (read r.conditions)) (roleId : Uuid) :
    (ofPermission roleId p).contextRequirement registry =
      .ok (p.context.map fun r => { r with conditions := read r.conditions }) := by
  rw [contextRequirement, ofPermission]
  cases hrequired : p.context with
  | none => rfl
  | some r =>
    obtain ⟨kind, hkind⟩ := (Permission.of_validate hvalid).2 r hrequired
    simp only [Option.map_some, hcontext r hrequired, Registry.resourceType_of_registered hkind]
    rfl

/-- The row of a valid permission is read as the permission with what its texts are read
as, as long as that is valid too. -/
theorem toPermission_of_texts {q : Permission} (hvalid : p.validate registry = .ok ())
    (hconditions : conditionsOf (Condition.listText p.conditions) = .ok (read p.conditions))
    (hcontext : ∀ r, p.context = some r →
      conditionsOf (Condition.listText r.conditions) = .ok (read r.conditions))
    (hq : q = { p with
      id := (Uuid.ofText? p.id.text).getD p.id
      conditions := read p.conditions
      context := p.context.map fun r => { r with conditions := read r.conditions } })
    (hread : q.validate registry = .ok ()) (roleId : Uuid) :
    (ofPermission roleId p).toPermission registry p.role.key = .ok q := by
  obtain ⟨⟨actions, hactions, haction⟩, -⟩ := Permission.of_validate hvalid
  obtain ⟨kind, hkind, -⟩ := Outcome.map_eq_ok.mp hactions
  obtain ⟨id, hid⟩ := Option.isSome_iff_exists.mp (Uuid.ofText?_text_isSome p.id)
  rw [toPermission]
  refine Outcome.bind_eq_ok.mpr ⟨p.resourceType, ?_, ?_⟩
  · exact Outcome.mapError_eq_ok.mpr (Registry.resourceType_of_registered hkind)
  refine Outcome.bind_eq_ok.mpr ⟨p.action, ?_, ?_⟩
  · exact Outcome.mapError_eq_ok.mpr (Registry.parseAction_key hactions haction)
  refine Outcome.bind_eq_ok.mpr ⟨_, hconditions, ?_⟩
  refine Outcome.bind_eq_ok.mpr ⟨_, contextRequirement_of_texts read hvalid hcontext roleId, ?_⟩
  have hrowId : Uuid.ofText? (ofPermission roleId p).id = some id := hid
  rw [hid] at hq
  simp only [hrowId]
  subst hq
  exact Outcome.bind_eq_ok.mpr ⟨(), Outcome.mapError_eq_ok.mpr hread, rfl⟩

end

/-- The row of a valid permission is read as the permission. -/
theorem toPermission_ofPermission (hvalid : p.validate registry = .ok ())
    (hstorable : p.Storable) (roleId : Uuid) :
    (ofPermission roleId p).toPermission registry p.role.key = .ok p.reread := by
  refine toPermission_of_texts Condition.rereadAll hvalid
    (conditionsOf_listText hstorable.conditions)
    (fun r hr => conditionsOf_listText (hstorable.context r hr)) ?_ ?_ roleId
  · rw [Permission.reread]
  · exact (Permission.validate_reread p).trans hvalid

end PermissionRow

/-! ## Definitions -/

namespace PermissionDefinition

variable {registry : Registry} {d : PermissionDefinition} {id : Uuid} {p : Permission}

/-- What a permission takes from its definition, and what was looked up and checked. -/
theorem of_toPermission (h : d.toPermission registry id = .ok p) :
    ∃ type action context, registry.resourceType d.resourceType = .ok type ∧
      registry.parseAction type d.action = .ok action ∧
      d.contextRequirement registry = .ok context ∧
      p = ⟨id, ⟨d.roleKey⟩, type, action, d.conditions, context⟩ ∧
      p.validate registry = .ok () := by
  rw [toPermission] at h
  split at h
  · cases h
  · rename_i type htype
    split at h
    · cases h
    · rename_i action haction
      split at h
      · cases h
      · rename_i context hcontext
        simp only at h
        split at h
        · cases h
        · rename_i hvalid
          cases h
          exact ⟨type, action, context, htype, haction, hcontext, rfl, hvalid⟩

theorem valid_of_toPermission (h : d.toPermission registry id = .ok p) :
    p.validate registry = .ok () := by
  obtain ⟨_, _, _, _, _, _, _, hvalid⟩ := of_toPermission h
  exact hvalid

/-- The conditions of a permission are those of its definition. -/
theorem conditions_of_toPermission (h : d.toPermission registry id = .ok p) :
    p.conditions = d.conditions ∧ ∀ r, p.context = some r → r.conditions = d.contextConditions := by
  obtain ⟨_, _, context, _, _, hcontext, rfl, _⟩ := of_toPermission h
  refine ⟨rfl, fun r hr => ?_⟩
  obtain rfl : context = some r := hr
  rw [contextRequirement] at hcontext
  split at hcontext
  · obtain ⟨type, _, htype⟩ := Outcome.map_eq_ok.mp hcontext
    cases htype
    rfl
  · split at hcontext
    · cases hcontext
    · cases hcontext

end PermissionDefinition

/-! ## Stores -/

namespace Database

/-- The roles are told apart by their identifiers, all of which were handed out. -/
structure DistinctRoles (db : Database) : Prop where
  issued : ∀ r ∈ db.roles, ∃ n < db.issued, r.id = Uuid.issued n
  nodup : (db.roles.map (·.id)).Nodup

/-- The row is that of the permission and belongs to its role. -/
def StoredAs (db : Database) (p : Permission) (row : PermissionRow) : Prop :=
  row = .ofPermission row.roleId p ∧ db.roleKey? row.roleId = some p.role.key

/-- Every role keeps its identifier. -/
def KeepsRoles (db db' : Database) : Prop :=
  ∀ id key, db.roleKey? id = some key → db'.roleKey? id = some key

/-- A store with these permissions, which was written to with success.  They are those
of the last deployment, whatever was inserted and assigned around it. -/
inductive Deployed : Registry → Database → List Permission → Prop where
  | migrated (registry : Registry) : Deployed registry blank.migrate []
  | inserted {registry : Registry} {db db' : Database} {permissions : List Permission}
      {k : WorkflowKind} {record : Json} (h : Deployed registry db permissions)
      (hinsert : db.insertEntity k record = .ok db') : Deployed registry db' permissions
  | assigned {registry : Registry} {db db' : Database} {permissions : List Permission}
      {user : String} {role : Role} (h : Deployed registry db permissions)
      (hassign : db.assignRole user role = .ok db') : Deployed registry db' permissions
  | deployed {registry earlier : Registry} {db db' : Database}
      {permissions replaced : List Permission} {definitions : List PermissionDefinition}
      {summary : DeploymentSummary} (h : Deployed earlier db replaced)
      (hpermissions : Deployment.permissions registry db.issued 0 definitions = .ok permissions)
      (hdeploy : Deployment.deploy registry db definitions = .ok (summary, db')) :
      Deployed registry db' permissions
  | replaced {registry earlier : Registry} {db db' : Database}
      {permissions replaced : List Permission} (h : Deployed earlier db replaced)
      (hvalid : ∀ p ∈ permissions, p.validate registry = .ok ())
      (hreplace : db.replacePermissions permissions = .ok db') : Deployed registry db' permissions

/-- What such a store is like. -/
structure Stores (db : Database) (registry : Registry) (permissions : List Permission) : Prop where
  distinct : db.DistinctRoles
  ready : db.require ["permissions", "roles"] = .ok ()
  valid : ∀ p ∈ permissions, p.validate registry = .ok ()
  rows : List.Forall₂ db.StoredAs permissions db.permissions

section

variable {db db' : Database} {registry : Registry} {permissions : List Permission}

/-! ### Writing -/

theorem StoredAs.keeps {p : Permission} {row : PermissionRow} (h : db.StoredAs p row)
    (hkeeps : db.KeepsRoles db') : db'.StoredAs p row :=
  ⟨h.1, hkeeps _ _ h.2⟩

/-- A role has an identifier of its own once it was asked for. -/
theorem of_ensureRole (h : db.DistinctRoles) {key : String} {id : Uuid}
    (hensure : db.ensureRole key = .ok (id, db')) :
    db'.DistinctRoles ∧ db'.roleKey? id = some key ∧ db.KeepsRoles db' ∧
      db'.permissions = db.permissions := by
  rcases ensureRole_cases hensure with ⟨rfl, role, hrole, rfl⟩ | ⟨_, rfl, rfl⟩
  · refine ⟨h, ?_, fun _ _ hid => hid, rfl⟩
    have hmem := List.mem_of_find?_eq_some hrole
    have hfind : db'.roles.find? (fun r => r.id == role.id) = some role :=
      Predicate.find_of_mem RoleRow.id h.nodup hmem
    have hkey : role.key = key := by simpa using List.find?_some hrole
    rw [roleKey?, hfind, ← hkey]
    rfl
  · -- The identifier that is handed out next belongs to no role yet.
    have hfresh : ∀ r ∈ db.roles, r.id ≠ Uuid.issued db.issued := by
      intro r hr heq
      obtain ⟨n, hn, hid⟩ := h.issued r hr
      rw [hid] at heq
      exact absurd (Uuid.issued_injective heq) (Nat.ne_of_lt hn)
    refine ⟨⟨fun r hr => ?_, ?_⟩, ?_, fun id' key' hid => ?_, rfl⟩
    · rcases List.mem_append.mp hr with hr | hr
      · obtain ⟨n, hn, hid⟩ := h.issued r hr
        exact ⟨n, Nat.lt_succ_of_lt hn, hid⟩
      · rw [List.mem_singleton.mp hr]
        exact ⟨db.issued, Nat.lt_succ_self _, rfl⟩
    · rw [List.map_append, List.nodup_append]
      refine ⟨h.nodup, List.pairwise_singleton _ _, fun a ha b hb => ?_⟩
      obtain ⟨r, hr, rfl⟩ := List.mem_map.mp ha
      rw [List.map_singleton, List.mem_singleton] at hb
      rw [hb]
      exact hfresh r hr
    · have hnone : db.roles.find? (fun r => r.id == Uuid.issued db.issued) = none := by
        rw [List.find?_eq_none]
        intro r hr heq
        exact hfresh r hr (beq_iff_eq.mp heq)
      rw [roleKey?, List.find?_append, hnone]
      simp
    · rw [roleKey?] at hid ⊢
      obtain ⟨r, hr, rfl⟩ := Option.map_eq_some_iff.mp hid
      rw [List.find?_append, hr]
      rfl

theorem of_insertPermission (h : db.DistinctRoles) {p : Permission}
    (hinsert : db.insertPermission p = .ok db') :
    db'.DistinctRoles ∧ db.KeepsRoles db' ∧
      ∃ row, db'.StoredAs p row ∧ db'.permissions = db.permissions ++ [row] := by
  rw [insertPermission] at hinsert
  obtain ⟨⟨id, ensured⟩, hensure, hinsert⟩ := Outcome.bind_eq_ok.mp hinsert
  obtain ⟨hdistinct, hkey, hkeeps, hpermissions⟩ := of_ensureRole h hensure
  obtain ⟨_, rfl⟩ := insertRow_eq_ok hinsert
  refine ⟨⟨hdistinct.issued, hdistinct.nodup⟩, hkeeps, .ofPermission id p, ⟨rfl, hkey⟩, ?_⟩
  rw [← hpermissions]

/-- The rows of permissions are put after the others, each with the role of its
permission. -/
theorem of_insertPermissions {inserted : List Permission} :
    ∀ {db : Database} {permissions : List Permission}, db.DistinctRoles →
      List.Forall₂ db.StoredAs permissions db.permissions →
      db.insertPermissions inserted = .ok db' →
      db'.DistinctRoles ∧ List.Forall₂ db'.StoredAs (permissions ++ inserted) db'.permissions := by
  induction inserted with
  | nil =>
    intro db permissions h hrows hinsert
    rw [insertPermissions] at hinsert
    cases hinsert
    rw [List.append_nil]
    exact ⟨h, hrows⟩
  | cons p rest ih =>
    intro db permissions h hrows hinsert
    rw [insertPermissions] at hinsert
    obtain ⟨next, hnext, hinsert⟩ := Outcome.bind_eq_ok.mp hinsert
    obtain ⟨hdistinct, hkeeps, row, hrow, hpermissions⟩ := of_insertPermission h hnext
    rw [List.append_cons]
    refine ih hdistinct ?_ hinsert
    rw [hpermissions]
    exact List.rel_append (hrows.imp fun _ _ hstored => hstored.keeps hkeeps) (.cons hrow .nil)

theorem of_replacePermissions (h : db.DistinctRoles)
    (hreplace : db.replacePermissions permissions = .ok db') :
    db'.DistinctRoles ∧ List.Forall₂ db'.StoredAs permissions db'.permissions := by
  rw [replacePermissions] at hreplace
  obtain ⟨_, _, hreplace⟩ := Outcome.bind_eq_ok.mp hreplace
  have hcleared : DistinctRoles { db with permissions := [] } := ⟨h.issued, h.nodup⟩
  have hempty : List.Forall₂ (StoredAs { db with permissions := [] }) [] [] := .nil
  exact of_insertPermissions hcleared hempty hreplace

theorem DistinctRoles.numbered (h : db.DistinctRoles) (n : Nat) :
    DistinctRoles { db with issued := db.issued + n } := by
  refine ⟨fun r hr => ?_, h.nodup⟩
  obtain ⟨m, hm, hid⟩ := h.issued r hr
  exact ⟨m, Nat.lt_add_right _ hm, hid⟩

theorem of_deploy (h : db.DistinctRoles) {definitions : List PermissionDefinition}
    {summary : DeploymentSummary}
    (hpermissions : Deployment.permissions registry db.issued 0 definitions = .ok permissions)
    (hdeploy : Deployment.deploy registry db definitions = .ok (summary, db')) :
    db'.DistinctRoles ∧ List.Forall₂ db'.StoredAs permissions db'.permissions := by
  rw [Deployment.deploy, hpermissions] at hdeploy
  obtain ⟨_, hchecked, hdeploy⟩ := Outcome.bind_eq_ok.mp hdeploy
  obtain rfl := Except.ok.inj hchecked
  obtain ⟨written, hwritten, hdeploy⟩ := Outcome.bind_eq_ok.mp hdeploy
  cases hdeploy
  exact of_replacePermissions (h.numbered _) (Outcome.mapError_eq_ok.mp hwritten)

/-- What is deployed was checked. -/
theorem valid_of_permissions {issued : Nat} {definitions : List PermissionDefinition} :
    ∀ {index : Nat} {permissions : List Permission},
      Deployment.permissions registry issued index definitions = .ok permissions →
      ∀ p ∈ permissions, p.validate registry = .ok () := by
  induction definitions with
  | nil =>
    intro index permissions h
    rw [Deployment.permissions] at h
    cases h
    nofun
  | cons d rest ih =>
    intro index permissions h
    rw [Deployment.permissions] at h
    split at h
    · cases h
    · rename_i p hp
      obtain ⟨others, hothers, rfl⟩ := Outcome.map_eq_ok.mp h
      rw [List.forall_mem_cons]
      exact ⟨PermissionDefinition.valid_of_toPermission hp, ih hothers⟩

theorem of_assignRole (h : db.DistinctRoles) {user : String} {role : Role}
    (hassign : db.assignRole user role = .ok db') :
    db'.DistinctRoles ∧ db.KeepsRoles db' ∧ db'.permissions = db.permissions := by
  rw [assignRole] at hassign
  obtain ⟨⟨id, ensured⟩, hensure, hassign⟩ := Outcome.bind_eq_ok.mp hassign
  obtain ⟨hdistinct, -, hkeeps, hpermissions⟩ := of_ensureRole h hensure
  obtain ⟨_, _, hassign⟩ := Outcome.bind_eq_ok.mp hassign
  cases hassign
  split
  · exact ⟨hdistinct, hkeeps, hpermissions⟩
  · exact ⟨⟨hdistinct.issued, hdistinct.nodup⟩, hkeeps, hpermissions⟩

theorem of_insertEntity_eq {k : WorkflowKind} {record : Json}
    (hinsert : db.insertEntity k record = .ok db') :
    ∃ entities, db' = { db with entities := entities } := by
  rw [insertEntity] at hinsert
  obtain ⟨_, _, hinsert⟩ := Outcome.bind_eq_ok.mp hinsert
  simp only at hinsert
  split at hinsert
  · cases hinsert
  · cases hinsert
    exact ⟨_, rfl⟩

/-! ### Stores that were written to -/

theorem require_of_keeps {tables : List String} (hkeeps : KeepsEntities db db') :
    db'.require tables = db.require tables := by
  rw [require, require, hkeeps.closed, hkeeps.present]

/-- What was deployed last is stored, row by row. -/
theorem Deployed.stores (h : Deployed registry db permissions) :
    db.Stores registry permissions := by
  induction h with
  | migrated registry =>
    exact ⟨⟨nofun, List.nodup_nil⟩, by decide, nofun, .nil⟩
  | inserted _ hinsert ih =>
    obtain ⟨entities, rfl⟩ := of_insertEntity_eq hinsert
    exact ⟨⟨ih.distinct.issued, ih.distinct.nodup⟩, ih.ready, ih.valid, ih.rows⟩
  | assigned _ hassign ih =>
    obtain ⟨hdistinct, hkeeps, hpermissions⟩ := of_assignRole ih.distinct hassign
    refine ⟨hdistinct, (require_of_keeps (keeps_of_assignRole hassign)).trans ih.ready, ih.valid, ?_⟩
    rw [hpermissions]
    exact ih.rows.imp fun _ _ hstored => hstored.keeps hkeeps
  | deployed _ hpermissions hdeploy ih =>
    obtain ⟨hdistinct, hrows⟩ := of_deploy ih.distinct hpermissions hdeploy
    exact ⟨hdistinct, (require_of_keeps (keeps_of_deploy hdeploy)).trans ih.ready,
      valid_of_permissions hpermissions, hrows⟩
  | replaced _ hvalid hreplace ih =>
    obtain ⟨hdistinct, hrows⟩ := of_replacePermissions ih.distinct hreplace
    exact ⟨hdistinct, (require_of_keeps (keeps_of_replacePermissions hreplace)).trans ih.ready,
      hvalid, hrows⟩

/-! ### Reading -/

/-- The joined rows are those of the permissions, each with the key of its role. -/
theorem Stores.joined (h : db.Stores registry permissions) :
    List.Forall₂ (fun p row => ∃ roleId, row = (p.role.key, PermissionRow.ofPermission roleId p))
      permissions db.joinedPermissions := by
  have hrows := h.rows
  clear h
  rw [joinedPermissions]
  generalize db.permissions = rows at hrows
  induction hrows with
  | nil => exact .nil
  | @cons p row _ _ hrow _ ih =>
    obtain ⟨hrow, hkey⟩ := hrow
    rw [List.filterMap_cons, hkey]
    exact .cons ⟨row.roleId, by rw [← hrow]⟩ ih

theorem Stores.mem_joined (h : db.Stores registry permissions) {p : Permission}
    (hp : p ∈ permissions) :
    ∃ roleId, (p.role.key, PermissionRow.ofPermission roleId p) ∈ db.joinedPermissions := by
  obtain ⟨row, hrow, roleId, rfl⟩ := Outcome.exists_of_forall₂ h.joined.flip p hp
  exact ⟨roleId, hrow⟩

theorem Stores.rolesGranting (h : db.Stores registry permissions) (type : ResourceType)
    (action : Action) :
    ∃ found, (db.repository registry).rolesGranting type action = .ok found ∧
      ∀ p ∈ permissions, p.grants type action = true → p.role ∈ found := by
  refine ⟨_, Outcome.bind_eq_ok.mpr ⟨(), h.ready, rfl⟩, fun p hp hgrants => ?_⟩
  obtain ⟨htype, haction⟩ := Bool.and_eq_true_iff.mp hgrants
  have htype : p.resourceType = type := of_decide_eq_true htype
  have haction : p.action = action := of_decide_eq_true haction
  obtain ⟨roleId, hrow⟩ := h.mem_joined hp
  rw [RoleSet.mem_ofList, List.mem_map]
  refine ⟨_, List.mem_filter.mpr ⟨hrow, ?_⟩, rfl⟩
  simp [PermissionRow.ofPermission, htype, haction]

/-- Every row is read as one of the permissions. -/
theorem Stores.toPermission_of_mem_joined (h : db.Stores registry permissions)
    (hstorable : ∀ p ∈ permissions, p.Storable) {row : String × PermissionRow}
    (hrow : row ∈ db.joinedPermissions) :
    ∃ p ∈ permissions, row.1 = p.role.key ∧
      row.2.toPermission registry row.1 = .ok p.reread := by
  obtain ⟨p, hp, roleId, rfl⟩ := Outcome.exists_of_forall₂ h.joined row hrow
  exact ⟨p, hp, rfl,
    PermissionRow.toPermission_ofPermission (h.valid p hp) (hstorable p hp) roleId⟩

theorem Stores.permissionsFor (h : db.Stores registry permissions)
    (hstorable : ∀ p ∈ permissions, p.Storable) (role : Role) (type : ResourceType) :
    ∃ found, (db.repository registry).permissionsFor role type = .ok found ∧
      ∀ q, q.resourceType = type →
        (q ∈ found ↔ q ∈ permissions.map Permission.reread ∧ q.role = role) := by
  have hall : ∀ row ∈ db.joinedPermissions.filter fun row =>
      row.1 = role.key && row.2.resourceType = type.name,
      ∃ p, row.2.toPermission registry row.1 = .ok p := by
    intro row hrow
    obtain ⟨p, -, -, hp⟩ := h.toPermission_of_mem_joined hstorable (List.mem_filter.mp hrow).1
    exact ⟨_, hp⟩
  obtain ⟨found, hfound⟩ := Outcome.exists_mapM.mpr hall
  refine ⟨found, Outcome.bind_eq_ok.mpr ⟨(), h.ready, hfound⟩, fun q htype => ?_⟩
  rw [Outcome.mem_of_mapM hfound]
  constructor
  · rintro ⟨row, hrow, hq⟩
    obtain ⟨hrow, hkeys⟩ := List.mem_filter.mp hrow
    obtain ⟨p, hp, hkey, hpermission⟩ := h.toPermission_of_mem_joined hstorable hrow
    obtain rfl : p.reread = q := Except.ok.inj (hpermission.symm.trans hq)
    have hrole : row.1 = role.key := of_decide_eq_true (Bool.and_eq_true_iff.mp hkeys).1
    refine ⟨List.mem_map_of_mem hp, ?_⟩
    rw [Permission.reread_role]
    exact congrArg Role.mk (hkey.symm.trans hrole)
  · rintro ⟨hq, hrole⟩
    obtain ⟨p, hp, rfl⟩ := List.mem_map.mp hq
    rw [Permission.reread_role] at hrole
    rw [Permission.reread_resourceType] at htype
    obtain ⟨roleId, hrow⟩ := h.mem_joined hp
    refine ⟨_, List.mem_filter.mpr ⟨hrow, ?_⟩,
      PermissionRow.toPermission_ofPermission (h.valid p hp) (hstorable p hp) roleId⟩
    simp [PermissionRow.ofPermission, htype, hrole]

/-- The store answers out of the permissions that were deployed last, as they come back
from their rows. -/
theorem Deployed.holds (h : Deployed registry db permissions)
    (hstorable : ∀ p ∈ permissions, p.Storable) :
    (db.repository registry).Holds (permissions.map Permission.reread) where
  granting type action := by
    obtain ⟨found, hfound, hroles⟩ := h.stores.rolesGranting type action
    refine ⟨found, hfound, fun q hq hgrants => ?_⟩
    obtain ⟨p, hp, rfl⟩ := List.mem_map.mp hq
    rw [Permission.grants_reread] at hgrants
    rw [Permission.reread_role]
    exact hroles p hp hgrants
  stored role type := h.stores.permissionsFor hstorable role type

end

end Database
end AccessPolicy
