/-
The relational store: its tables and the rows in them.

The store is a value.  An operation either answers with the store after it or
fails, and a failed operation leaves the store as it was, which is what a
transaction that is not committed does.
-/
import AccessPolicy.AuthorizationError
import AccessPolicy.Sql.Evaluation
import AccessPolicy.Sql.Mapping
import AccessPolicy.Uuid
import AccessPolicy.Workflow

namespace AccessPolicy

structure RoleRow where
  id : Uuid
  key : String
deriving DecidableEq

/-- A stored permission.  Its type, action and conditions are texts that are
checked again whenever the row is read. -/
structure PermissionRow where
  id : String
  roleId : Uuid
  resourceType : String
  action : String
  conditions : String
  contextResourceType : Option String
  contextConditions : Option String
deriving DecidableEq

structure AssignmentRow where
  user : String
  roleId : Uuid
deriving DecidableEq

/-- `present` names the tables that exist and `issued` counts the identifiers
that were handed out. -/
structure Database where
  roles : List RoleRow
  permissions : List PermissionRow
  assignments : List AssignmentRow
  entities : List (String × Sql.Table)
  present : List String
  closed : Bool
  issued : Nat

namespace Database

/-! ## Tables -/

/-- The table of a workflow kind. -/
def tableName : WorkflowKind → String
  | .task => "tasks"
  | .document => "documents"
  | .processDefinition => "process_definitions"
  | .execution => "executions"

def mapping (k : WorkflowKind) : Sql.TableMapping :=
  ⟨tableName k, k.fields.map (·.1), k.documentFields⟩

/-- The tables of all workflow kinds. -/
def mappings : Sql.TableMappings := WorkflowKind.all.map fun k => (k.type, mapping k)

/-- Integers are declared as such and everything else as text. -/
def affinityOf : Json.Shape → Sql.Affinity
  | .integer => .integer
  | _ => .text

def columns (k : WorkflowKind) : List (String × Sql.Affinity) :=
  k.fields.map fun f => (f.1, affinityOf f.2.2)

/-- A store without tables. -/
def blank : Database := ⟨[], [], [], [], [], false, 0⟩

/-- Creates every table that does not exist. -/
def migrate (db : Database) : Database :=
  { db with
    entities := WorkflowKind.all.map fun k =>
      (tableName k, (db.entities.lookup (tableName k)).getD ⟨columns k, []⟩)
    present := ["roles", "permissions", "user_roles"] ++ WorkflowKind.all.map tableName }

/-- Fails unless the store is open and has the tables. -/
def require (db : Database) (tables : List String) : Except StoreError Unit :=
  if db.closed then .error (.backend "the store is closed")
  else
    match tables.find? fun t => !db.present.contains t with
    | some t => .error (.backend ("no such table: " ++ t))
    | none => .ok ()

def close (db : Database) : Database := { db with closed := true }

def dropTable (db : Database) (table : String) : Except StoreError Database :=
  (db.require [table]).map fun _ => { db with present := db.present.filter (· != table) }

/-! ## Entities -/

/-- The cell of an attribute.  The content of a JSON column is kept as a
document. -/
def cellOf (shape : Json.Shape) (v : Json) : Sql.Cell :=
  match shape with
  | .document => .document v
  | _ => .value (.ofJson v)

/-- The row of an entity record. -/
def rowOf (k : WorkflowKind) (record : Json) : Sql.StoredRow :=
  k.fields.map fun f => (f.1, cellOf f.2.2 ((record.get? f.1).getD .null))

/-- A row whose identifier is taken is refused. -/
def insertEntity (db : Database) (k : WorkflowKind) (record : Json) :
    Except StoreError Database := do
  db.require [tableName k]
  let table := (db.entities.lookup (tableName k)).getD ⟨columns k, []⟩
  let row := rowOf k record
  let id := (row.lookup "id").map Sql.Cell.toValue
  if table.rows.any fun r => (r.lookup "id").map Sql.Cell.toValue == id then
    throw (.backend "the identifier of the row is taken")
  let table := { table with rows := table.rows ++ [row] }
  pure { db with
    entities := db.entities.map fun e => if e.1 = tableName k then (e.1, table) else e }

end Database
end AccessPolicy
