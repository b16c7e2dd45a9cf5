/-
Stores as they come to be.

A store starts out migrated, and then rows are inserted, permissions deployed and
roles assigned.  Throughout, it is open with a table for every kind, its rows are
well typed and can be read back, and no two rows of a table have one identifier.
-/
import AccessPolicy.Deployment
import AccessPolicy.Proofs.Database.Loaders
import AccessPolicy.Proofs.Database.Records

namespace AccessPolicy
namespace Database

/-- A store that was migrated and then written to.  What is inserted can be read back. -/
inductive Populated : Database → Prop where
  | migrated : Populated blank.migrate
  | inserted {db db' : Database} {k : WorkflowKind} {v record : Json} (h : Populated db)
      (hrecord : k.record? v = some record) (hread : (Stored.mk k (rowOf k record)).ReadsBack)
      (hinsert : db.insertEntity k record = .ok db') : Populated db'
  | deployed {db db' : Database} {registry : Registry} {definitions : List PermissionDefinition}
      {summary : DeploymentSummary} (h : Populated db)
      (hdeploy : Deployment.deploy registry db definitions = .ok (summary, db')) : Populated db'
  | assigned {db db' : Database} {user : String} {role : Role} (h : Populated db)
      (hassign : db.assignRole user role = .ok db') : Populated db'

/-! ## Migrating -/

theorem lookup_migrate (k : WorkflowKind) :
    blank.migrate.entities.lookup (tableName k) = some ⟨columns k, []⟩ := by
  cases k <;> rfl

theorem sound_migrate : blank.migrate.Sound where
  opened := rfl
  present k := by cases k <;> decide
  stored k := ⟨_, lookup_migrate k⟩
  typed := by
    constructor
    · intro k t ht
      rw [lookup_migrate] at ht
      cases ht
      rfl
    · intro k t ht row hrow
      rw [lookup_migrate] at ht
      cases ht
      cases hrow
  distinct k t ht := by
    rw [lookup_migrate] at ht
    cases ht
    exact List.nodup_nil
  readsBack k t ht row hrow := by
    rw [lookup_migrate] at ht
    cases ht
    cases hrow

/-! ## Rows -/

theorem tableName_inj {k l : WorkflowKind} (h : tableName k = tableName l) : k = l := by
  cases k <;> cases l <;> first | rfl | exact absurd h (by decide)

theorem lookup_replaced (name key : String) (table : Sql.Table)
    (entities : List (String × Sql.Table)) :
    (entities.map fun e => if e.1 = key then (e.1, table) else e).lookup name =
      if name = key then (entities.lookup name).map fun _ => table else entities.lookup name := by
  induction entities with
  | nil => split <;> rfl
  | cons e rest ih =>
    rw [List.map_cons]
    by_cases hkey : e.1 = key
    · rw [if_pos hkey, List.lookup_cons, List.lookup_cons, ih]
      by_cases hname : name = key
      · have hself : (name == e.1) = true := beq_iff_eq.mpr (hname.trans hkey.symm)
        rw [if_pos hname, if_pos hname, hself]
        rfl
      · have hother : (name == e.1) = false := beq_eq_false_iff_ne.mpr fun h => hname (h.trans hkey)
        rw [if_neg hname, if_neg hname, hother]
    · rw [if_neg hkey, List.lookup_cons, List.lookup_cons, ih]
      by_cases hname : name = key
      · have hother : (name == e.1) = false :=
          beq_eq_false_iff_ne.mpr fun h => hkey (h.symm.trans hname)
        rw [if_pos hname, if_pos hname, hother]
      · rw [if_neg hname, if_neg hname]

/-- A row is put after the others of its table, unless its identifier is taken. -/
theorem of_insertEntity {db db' : Database} (h : db.Ready) {k : WorkflowKind} {record : Json}
    (hinsert : db.insertEntity k record = .ok db') :
    ∃ t, db.entities.lookup (tableName k) = some t ∧
      (∀ r ∈ t.rows, identifierOf r ≠ identifierOf (rowOf k record)) ∧
      db'.present = db.present ∧ db'.closed = db.closed ∧
      ∀ l, db'.entities.lookup (tableName l) =
        if l = k then some { t with rows := t.rows ++ [rowOf k record] }
        else db.entities.lookup (tableName l) := by
  obtain ⟨t, ht⟩ := h.stored k
  rw [insertEntity, require_of_ready h] at hinsert
  change (if (((db.entities.lookup (tableName k)).getD ⟨columns k, []⟩).rows.any fun r =>
      identifierOf r == identifierOf (rowOf k record)) then
        (throw (StoreError.backend "the identifier of the row is taken") >>= fun _ => _)
      else _) = Except.ok db' at hinsert
  rw [ht] at hinsert
  split at hinsert
  · cases hinsert
  · rename_i hfree
    cases hinsert
    refine ⟨t, ht, fun r hr heq => hfree (List.any_eq_true.mpr ⟨r, hr, beq_iff_eq.mpr heq⟩),
      rfl, rfl, fun l => ?_⟩
    change (db.entities.map fun e => if e.1 = tableName k then
      (e.1, { t with rows := t.rows ++ [rowOf k record] }) else e).lookup (tableName l) = _
    rw [lookup_replaced]
    by_cases hl : l = k
    · rw [if_pos (congrArg tableName hl), if_pos hl, hl, ht]
      rfl
    · rw [if_neg fun e => hl (tableName_inj e), if_neg hl]

theorem sound_insertEntity {db db' : Database} (h : db.Sound) {k : WorkflowKind} {v record : Json}
    (hrecord : k.record? v = some record) (hread : (Stored.mk k (rowOf k record)).ReadsBack)
    (hinsert : db.insertEntity k record = .ok db') : db'.Sound := by
  obtain ⟨t, ht, hfree, hpresent, hclosed, hlookup⟩ := of_insertEntity h.toReady hinsert
  have hcases : ∀ l u, db'.entities.lookup (tableName l) = some u →
      (l = k ∧ u = { t with rows := t.rows ++ [rowOf k record] }) ∨
        db.entities.lookup (tableName l) = some u := by
    intro l u hu
    rw [hlookup] at hu
    split at hu
    · rename_i hl
      cases hu
      exact .inl ⟨hl, rfl⟩
    · exact .inr hu
  refine { opened := hclosed ▸ h.opened, present := fun l => hpresent ▸ h.present l,
           stored := fun l => ?_, typed := ⟨fun l u hu => ?_, fun l u hu => ?_⟩,
           distinct := fun l u hu => ?_, readsBack := fun l u hu => ?_ }
  · rw [hlookup]
    split
    · exact ⟨_, rfl⟩
    · exact h.stored l
  · obtain ⟨rfl, rfl⟩ | hu := hcases l u hu
    · exact h.typed.columns l t ht
    · exact h.typed.columns l u hu
  · obtain ⟨rfl, rfl⟩ | hu := hcases l u hu
    · intro row hrow
      rcases List.mem_append.mp hrow with hrow | hrow
      · exact h.typed.rows l t ht row hrow
      · rw [List.mem_singleton.mp hrow]
        exact Stored.wellTyped_rowOf hrecord
    · exact h.typed.rows l u hu
  · obtain ⟨rfl, rfl⟩ | hu := hcases l u hu
    · rw [List.map_append, List.nodup_append]
      refine ⟨h.distinct l t ht, List.pairwise_singleton _ _, fun a ha b hb => ?_⟩
      obtain ⟨r, hr, rfl⟩ := List.mem_map.mp ha
      rw [List.map_singleton, List.mem_singleton] at hb
      rw [hb]
      exact hfree r hr
    · exact h.distinct l u hu
  · obtain ⟨rfl, rfl⟩ | hu := hcases l u hu
    · intro row hrow
      rcases List.mem_append.mp hrow with hrow | hrow
      · exact h.readsBack l t ht row hrow
      · rw [List.mem_singleton.mp hrow]
        exact hread
    · exact h.readsBack l u hu

/-! ## Roles and permissions -/

/-- Nothing is written to the entities. -/
structure KeepsEntities (db db' : Database) : Prop where
  entities : db'.entities = db.entities
  present : db'.present = db.present
  closed : db'.closed = db.closed

theorem KeepsEntities.refl (db : Database) : KeepsEntities db db := ⟨rfl, rfl, rfl⟩

theorem KeepsEntities.trans {db db' db'' : Database} (h : KeepsEntities db db')
    (h' : KeepsEntities db' db'') : KeepsEntities db db'' :=
  ⟨h'.entities.trans h.entities, h'.present.trans h.present, h'.closed.trans h.closed⟩

theorem KeepsEntities.sound {db db' : Database} (hkeeps : KeepsEntities db db') (h : db.Sound) :
    db'.Sound where
  opened := hkeeps.closed ▸ h.opened
  present k := hkeeps.present ▸ h.present k
  stored k := hkeeps.entities ▸ h.stored k
  typed := hkeeps.entities ▸ h.typed
  distinct := hkeeps.entities ▸ h.distinct
  readsBack := hkeeps.entities ▸ h.readsBack

variable {db db' : Database}

/-- A role that is there is looked up by its key, and one that is missing is put after
the others with the next identifier. -/
theorem ensureRole_cases {key : String} {id : Uuid} (h : db.ensureRole key = .ok (id, db')) :
    (db' = db ∧ ∃ role, db.roles.find? (fun r => r.key == key) = some role ∧ role.id = id) ∨
      (db.roles.find? (fun r => r.key == key) = none ∧ id = .issued db.issued ∧
        db' = { db with roles := db.roles ++ [⟨id, key⟩], issued := db.issued + 1 }) := by
  rw [ensureRole] at h
  obtain ⟨_, _, h⟩ := Outcome.bind_eq_ok.mp h
  split at h
  · rename_i role hfound
    cases h
    exact .inl ⟨rfl, role, hfound, rfl⟩
  · rename_i hmissing
    cases h
    exact .inr ⟨hmissing, rfl, rfl⟩

/-- A row with an identifier of its own is put after the others. -/
theorem insertRow_eq_ok {row : PermissionRow} (h : db.insertRow row = .ok db') :
    row.id ∉ db.permissions.map (·.id) ∧
      db' = { db with permissions := db.permissions ++ [row] } := by
  rw [insertRow] at h
  obtain ⟨_, _, h⟩ := Outcome.bind_eq_ok.mp h
  split at h
  · cases h
  · rename_i htaken
    cases h
    refine ⟨fun hmem => htaken ?_, rfl⟩
    obtain ⟨other, hother, hid⟩ := List.mem_map.mp hmem
    exact List.any_eq_true.mpr ⟨other, hother, beq_iff_eq.mpr hid⟩

theorem keeps_of_ensureRole {key : String} {id : Uuid} (h : db.ensureRole key = .ok (id, db')) :
    KeepsEntities db db' := by
  rcases ensureRole_cases h with ⟨rfl, _⟩ | ⟨_, _, rfl⟩
  · exact .refl db'
  · exact ⟨rfl, rfl, rfl⟩

theorem keeps_of_insertRow {row : PermissionRow} (h : db.insertRow row = .ok db') :
    KeepsEntities db db' := by
  obtain ⟨_, rfl⟩ := insertRow_eq_ok h
  exact ⟨rfl, rfl, rfl⟩

theorem keeps_of_insertPermissions {permissions : List Permission} :
    ∀ {db : Database}, db.insertPermissions permissions = .ok db' → KeepsEntities db db' := by
  induction permissions with
  | nil =>
    intro db h
    rw [insertPermissions] at h
    cases h
    exact .refl _
  | cons p rest ih =>
    intro db h
    rw [insertPermissions] at h
    obtain ⟨inserted, hinsert, h⟩ := Outcome.bind_eq_ok.mp h
    rw [insertPermission] at hinsert
    obtain ⟨⟨id, ensured⟩, hensure, hrow⟩ := Outcome.bind_eq_ok.mp hinsert
    exact ((keeps_of_ensureRole hensure).trans (keeps_of_insertRow hrow)).trans (ih h)

theorem keeps_of_replacePermissions {permissions : List Permission}
    (h : db.replacePermissions permissions = .ok db') : KeepsEntities db db' := by
  rw [replacePermissions] at h
  obtain ⟨_, _, h⟩ := Outcome.bind_eq_ok.mp h
  have hkeeps := keeps_of_insertPermissions h
  exact ⟨hkeeps.entities, hkeeps.present, hkeeps.closed⟩

theorem keeps_of_deploy {registry : Registry} {definitions : List PermissionDefinition}
    {summary : DeploymentSummary}
    (h : Deployment.deploy registry db definitions = .ok (summary, db')) : KeepsEntities db db' := by
  rw [Deployment.deploy] at h
  obtain ⟨permissions, _, h⟩ := Outcome.bind_eq_ok.mp h
  obtain ⟨written, hwritten, h⟩ := Outcome.bind_eq_ok.mp h
  cases h
  have hkeeps := keeps_of_replacePermissions (Outcome.mapError_eq_ok.mp hwritten)
  exact ⟨hkeeps.entities, hkeeps.present, hkeeps.closed⟩

theorem keeps_of_assignRole {user : String} {role : Role}
    (h : db.assignRole user role = .ok db') : KeepsEntities db db' := by
  rw [assignRole] at h
  obtain ⟨⟨id, ensured⟩, hensure, h⟩ := Outcome.bind_eq_ok.mp h
  obtain ⟨_, _, h⟩ := Outcome.bind_eq_ok.mp h
  cases h
  refine (keeps_of_ensureRole hensure).trans ?_
  split
  · exact .refl ensured
  · exact ⟨rfl, rfl, rfl⟩

/-- Every store that comes to be is sound. -/
theorem Populated.sound (h : Populated db) : db.Sound := by
  induction h with
  | migrated => exact sound_migrate
  | inserted _ hrecord hread hinsert ih => exact sound_insertEntity ih hrecord hread hinsert
  | deployed _ hdeploy ih => exact (keeps_of_deploy hdeploy).sound ih
  | assigned _ hassign ih => exact (keeps_of_assignRole hassign).sound ih

/-! ## Entities told apart -/

/-- The value that identifies a row can be read off its entity. -/
theorem identifierOf_eq_of_entity {k : WorkflowKind} {x y : Sql.StoredRow}
    (hx : (Stored.mk k x).WellTyped) (hy : (Stored.mk k y).WellTyped)
    (h : (Stored.mk k x).entity = (Stored.mk k y).entity) : identifierOf x = identifierOf y := by
  have hid : ("id", Json.Presence.required, Json.Shape.text) ∈ k.fields := by
    cases k <;> exact List.mem_cons_self
  obtain ⟨cell, hcell, hfits⟩ := hx _ hid
  obtain ⟨cell', hcell', hfits'⟩ := hy _ hid
  have hresolve := congrArg (FieldPath.resolve ⟨"id", [], rfl⟩) h
  rw [Stored.resolve_entity hid rfl hcell, Stored.resolve_entity hid rfl hcell'] at hresolve
  rw [identifierOf, identifierOf, show x.lookup "id" = some cell from hcell,
    show y.lookup "id" = some cell' from hcell']
  cases hfits with
  | null _ =>
    cases hfits' with
    | null _ => rfl
    | text t => cases hresolve
  | text s =>
    cases hfits' with
    | null _ => cases hresolve
    | text t =>
      cases hresolve
      rfl

/-- No two rows of a kind stand for the same entity. -/
theorem Sound.nodup_entities (h : db.Sound) (type : ResourceType) :
    ((Stored.ofType db.entities type).map Stored.entity).Nodup := by
  rw [Stored.ofType]
  split
  · exact List.nodup_nil
  · rename_i k _
    split
    · exact List.nodup_nil
    · rename_i t ht
      have hdistinct := h.distinct k t ht
      rw [List.Nodup, List.pairwise_map] at hdistinct
      rw [List.Nodup, List.pairwise_map, List.pairwise_map]
      refine hdistinct.imp_of_mem fun {x y} hx hy hne heq => hne ?_
      exact identifierOf_eq_of_entity (h.typed.rows k t ht x hx) (h.typed.rows k t ht y hy) heq

end Database
end AccessPolicy
