/-
Tables behind resource types.
-/
import AccessPolicy.Registry
import AccessPolicy.Sql.Token

namespace AccessPolicy
namespace Sql

/-- The table of a resource kind.  Attributes are columns of the same name, and
a dotted path leads into the document of a JSON column. -/
structure TableMapping where
  table : String
  columns : List String
  jsonColumns : List String
deriving DecidableEq, Repr

namespace TableMapping

/-- Checks that a field has a place in the table. -/
def locate (m : TableMapping) (type : ResourceType) (field : FieldPath) :
    Except ConfigurationError Unit :=
  if m.columns.contains field.root then
    if field.nested.isEmpty || m.jsonColumns.contains field.root then .ok ()
    else .error (.invalidFieldPath field.text)
  else .error (.unmappedField type.name field.text)

/-- The column of a field in a slot. -/
def column (m : TableMapping) (slot : Nat) (type : ResourceType) (field : FieldPath) :
    Except ConfigurationError ColumnRef :=
  (m.locate type field).map fun _ => ⟨slot, field.root, field.nested⟩

/-- The text of the column of a field of a table that goes by a name. -/
def columnText (m : TableMapping) (name : String) (type : ResourceType) (field : FieldPath) :
    Except ConfigurationError String :=
  (m.locate type field).map fun _ => Sql.columnText name field.root field.nested

/-- The expression that puts an entity together from its columns. -/
def jsonObject (m : TableMapping) (name : String) : String :=
  let pair (column : String) : String :=
    let value := Sql.columnText name column []
    "'" ++ column ++ "', " ++
      (if m.jsonColumns.contains column then "json(" ++ value ++ ")" else value)
  "json_object(" ++ String.intercalate ", " (m.columns.map pair) ++ ")"

end TableMapping

abbrev TableMappings := List (ResourceType × TableMapping)

namespace TableMappings

def get (mappings : TableMappings) (type : ResourceType) :
    Except ConfigurationError TableMapping :=
  match mappings.find? fun m => m.1 == type with
  | some m => .ok m.2
  | none => .error (.unmappedField type.name "*")

end TableMappings
end Sql
end AccessPolicy
