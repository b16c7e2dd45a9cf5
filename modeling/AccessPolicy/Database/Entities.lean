/-
Entities read from the relational store.
-/
import AccessPolicy.Database
import AccessPolicy.Json.Reader
import AccessPolicy.Sql.Limits
import AccessPolicy.Sql.Render

namespace AccessPolicy

namespace Number

/-- A number as it comes back from its text. -/
def reread : Number → Number
  | .integer n => .integer n
  | .double x =>
    match Json.ofText? x.text with
    | some (.number n) => n
    | _ => .double x

end Number

namespace Json

mutual

/-- A value as it comes back from its text: reading may move a double that is
written with more than fifteen digits. -/
def reread : Json → Json
  | .number n => .number n.reread
  | .array items => .array (rereadItems items)
  | .object members => .object (rereadMembers members)
  | v => v

def rereadItems : List Json → List Json
  | [] => []
  | v :: rest => reread v :: rereadItems rest

def rereadMembers : List (String × Json) → List (String × Json)
  | [] => []
  | (k, v) :: rest => (k, reread v) :: rereadMembers rest

end

end Json

namespace Database

/-- The value that a cell contributes to an entity. -/
def cellJson : Sql.Cell → Json
  | .document d => d.reread
  | .value .null => .null
  | .value (.integer n) => .int n
  | .value (.real (.finite x)) => .number (.double x)
  | .value (.real (.infinite _)) => .null
  | .value (.text s) => .string s

/-- The attributes of a row in the order of the columns. -/
def attributesOf (mapping : Sql.TableMapping) (row : Sql.StoredRow) : Json :=
  .object (mapping.columns.map fun c => (c, ((row.lookup c).map cellJson).getD .null))

/-- The entity of a row. -/
def entityOf (mapping : Sql.TableMapping) (row : Sql.StoredRow) : Json :=
  (attributesOf mapping row).canonical

/-- Reads the entity of a row.  The store answers with the text of the attributes, and
a text is not read in which arrays and objects are nested too deeply. -/
def readEntity (mapping : Sql.TableMapping) (row : Sql.StoredRow) : Except StoreError Json :=
  if (attributesOf mapping row).nesting < Json.Reader.nestingLimit then .ok (entityOf mapping row)
  else .error (.serialization "the attributes are nested too deeply")

/-- The expression of a condition that the store can read. -/
def readable (condition : Sql.Fragment) : Except StoreError Sql.Expr :=
  if condition.binds.length ≤ Sql.parameterLimit then
    match Sql.Expr.read? condition.tokens (condition.binds.map .ofJson) with
    | some e =>
      if e.isReadable then .ok e else .error (.backend "the condition is nested too deeply")
    | none => .error (.backend "the condition cannot be read")
  else .error (.backend "the condition has too many parameters")

/-- The entities of a table whose rows satisfy a condition, in the order of the
rows.  The condition is carried out as it is written, and each of the rows has to be
read. -/
def select (db : Database) (mapping : Sql.TableMapping) (condition : Sql.Fragment) :
    Except StoreError (List Json) :=
  match readable condition with
  | .error e => .error e
  | .ok e => do
    db.require (mapping.table :: e.tables)
    match db.entities.lookup mapping.table with
    | none => throw (.backend ("no such table: " ++ mapping.table))
    | some table => (table.select db.entities e).mapM (readEntity mapping)

/-- The entities of a type that satisfy a predicate. -/
def findMatching (db : Database) (type : ResourceType) (predicate : Predicate) :
    Except StoreError (List Json) := do
  let condition ← (Sql.render mappings type predicate).mapError StoreError.configuration
  let mapping ← (mappings.get type).mapError StoreError.configuration
  db.select mapping condition

/-- The condition that a column equals a value.  The affinity of the column
applies to the value. -/
def equalityOf (c : Sql.ColumnRef) (value : Json) : Sql.Fragment :=
  ⟨[.column c, .operator .equal, .parameter], [value]⟩

/-- The entities of a type whose field equals a value. -/
def findByField (db : Database) (type : ResourceType) (field : FieldPath) (value : Json) :
    Except StoreError (List Json) := do
  let mapping ← (mappings.get type).mapError StoreError.configuration
  let column ← (mapping.column 0 type field).mapError StoreError.configuration
  db.select mapping (equalityOf column value)

/-- Loads entities of a type from the store, whatever the context. -/
def loader (db : Database) (type : ResourceType) : EntityLoader := fun _ field value =>
  db.findByField type field value

/-- A registry with loaders for all workflow kinds. -/
def withLoaders (db : Database) (registry : Registry) : Registry :=
  WorkflowKind.all.foldl (fun r k => r.withLoader k.type (db.loader k.type)) registry

/-- The registry of the workflow kinds with their loaders. -/
def registry (db : Database) : Registry := db.withLoaders WorkflowKind.registry

end Database
end AccessPolicy
