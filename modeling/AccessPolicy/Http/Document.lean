/-
The description of the service in the OpenAPI format.
-/
import AccessPolicy.Json

namespace AccessPolicy
namespace Http
namespace Document

/-! ## Schemas -/

def reference (name : String) : Json :=
  .object [("$ref", .string ("#/components/schemas/" ++ name))]

def arrayOf (item : Json) : Json :=
  .object [("type", .string "array"), ("items", item)]

/-- A text with an example and, where one is given, a description. -/
def textField (sample : String) (description : Option String) : Json :=
  .object ([("type", .string "string"), ("example", .string sample)] ++
    match description with
    | some d => [("description", .string d)]
    | none => [])

/-- An object schema in which the named properties are required. -/
def record (required : List String) (properties : List (String × Json)) : Json :=
  .object [("type", .string "object"), ("required", .array (required.map .string)),
    ("properties", .object properties)]

def healthSchema : Json :=
  record ["status", "db_ok"]
    [("status", .object [("type", .string "string")]),
      ("db_ok", .object [("type", .string "boolean")]),
      ("db_error", .object [("type", .string "string"), ("nullable", .bool true)])]

def contextSchema : Json :=
  record ["resource", "identifier"]
    [("resource", textField "document"
        (some "Resource type name of the related entity, e.g. \x60document\x60.")),
      ("identifier", textField "doc-1" none)]

/-- What a question and the answer to it have in common. -/
def itemProperties : List (String × Json) :=
  [("resource", textField "task" none), ("action", textField "claim" none),
    ("context", reference "PermissionContext")]

def requestSchema : Json := record ["resource", "action", "context"] itemProperties

def resultSchema : Json :=
  record ["resource", "action", "context", "available"]
    [("resource", .object [("type", .string "string")]),
      ("action", .object [("type", .string "string")]),
      ("context", reference "PermissionContext"),
      ("available", .object [("type", .string "boolean")])]

/-! ## Examples -/

def item (resource action contextResource identifier : String) : List (String × Json) :=
  [("resource", .string resource), ("action", .string action),
    ("context", .object [("resource", .string contextResource),
      ("identifier", .string identifier)])]

def claimItem : List (String × Json) := item "task" "claim" "document" "doc-1"

def modifyItem : List (String × Json) := item "document" "modify" "task" "task-7"

def requestExample : Json := .array [.object claimItem, .object modifyItem]

def resultExample : Json :=
  .array [.object (claimItem ++ [("available", .bool true)]),
    .object (modifyItem ++ [("available", .bool false)])]

/-! ## Operations -/

/-- JSON content of a schema, with an example where one is given. -/
def content (schema : Json) (sample : Option Json) : Json :=
  .object [("application/json", .object ([("schema", schema)] ++
    match sample with
    | some e => [("example", e)]
    | none => []))]

def healthOperation : Json :=
  .object [("tags", .array [.string "Health"]), ("operationId", .string "health"),
    ("responses", .object [("200", .object [("description", .string "Health check"),
      ("content", content (reference "HealthResponse") none)])])]

def permissionsOperation : Json :=
  .object [("tags", .array [.string "Permissions"]),
    ("operationId", .string "permissions_available"),
    ("requestBody", .object
      [("content", content (arrayOf (reference "PermissionAvailableRequest"))
          (some requestExample)),
        ("required", .bool true)]),
    ("responses", .object
      [("200", .object
          [("description", .string "Availability of each requested permission"),
            ("content", content (arrayOf (reference "PermissionAvailableResult"))
              (some resultExample))]),
        ("401", .object [("description", .string "Missing or invalid bearer token")])]),
    ("security", .array [.object [("bearerAuth", .array [])]])]

def tag (name description : String) : Json :=
  .object [("name", .string name), ("description", .string description)]

end Document

open Document in
/-- The document of a server that listens on the local host. -/
def document (listeningPort : Nat) : Json :=
  .object [("openapi", .string "3.0.3"),
    ("info", .object [("title", .string "workflow-authz"), ("description", .string ""),
      ("contact", .object [("name", .string "workflow-authz team")]),
      ("license", .object [("name", .string "")]), ("version", .string "0.1.0")]),
    ("servers", .array [.object
      [("url", .string ("http://localhost:" ++ toString listeningPort))]]),
    ("paths", .object
      [("/api/health", .object [("get", healthOperation)]),
        ("/api/v1/permissions", .object [("post", permissionsOperation)])]),
    ("components", .object
      [("schemas", .object
          [("HealthResponse", healthSchema),
            ("PermissionContext", contextSchema),
            ("PermissionAvailableRequest", requestSchema),
            ("PermissionAvailableResult", resultSchema)]),
        ("securitySchemes", .object [("bearerAuth", .object
          [("type", .string "http"), ("scheme", .string "bearer"),
            ("bearerFormat", .string "JWT")])])]),
    ("tags", .array
      [tag "Health" "Service liveness",
        tag "Permissions" "Permission availability for the current user"])]

end Http
end AccessPolicy
