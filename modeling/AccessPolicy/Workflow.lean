/-
The resource kinds of a workflow platform and the relations between them.
-/
import AccessPolicy.Json.Shape
import AccessPolicy.Registry

namespace AccessPolicy

inductive WorkflowKind where
  | task
  | document
  | processDefinition
  | execution
deriving DecidableEq, Repr

namespace WorkflowKind

open Json (Shape)

def all : List WorkflowKind := [task, document, processDefinition, execution]

def name : WorkflowKind → String
  | task => "task"
  | document => "document"
  | processDefinition => "process_definition"
  | execution => "execution"

def type (k : WorkflowKind) : ResourceType := ⟨k.name, 0⟩

/-- A task is claimed, assigned and completed; a running execution is started by
`create`. -/
def actions : WorkflowKind → List Action
  | task => [.view, .viewList, .claim, .assign, .assignable, .complete]
  | document =>
    [.view, .viewList, .create, .modify, .delete, .claim, .assign, .assignable]
  | processDefinition => [.view, .viewList, .create, .modify, .delete]
  | execution => [.create, .view, .viewList]

/-- Only the content of a document is a nested document. -/
def documentFields : WorkflowKind → List String
  | document => ["content"]
  | _ => []

def resource (k : WorkflowKind) : ResourceKind :=
  ⟨k.type, k.actions, "id", k.documentFields⟩

/-- The kind of a name. -/
def ofName? (name : String) : Option WorkflowKind := all.find? fun k => k.name == name

/-! ## Entities -/

/-- The attributes of an entity in order of declaration. -/
def fields : WorkflowKind → List (String × Json.Presence × Shape)
  | task =>
    [("id", .required, .text), ("name", .required, .text),
      ("assignee", .optional, .optionalText), ("candidate_group", .optional, .optionalText),
      ("case_team", .optional, .optionalText), ("document_id", .optional, .optionalText),
      ("process_definition_id", .required, .text)]
  | document =>
    [("id", .required, .text), ("definition_name", .required, .text),
      ("assignee", .optional, .optionalText), ("team", .optional, .optionalText),
      ("content", .required, .document)]
  | processDefinition =>
    [("id", .required, .text), ("definition_key", .required, .text),
      ("version", .required, .integer)]
  | execution =>
    [("id", .required, .text), ("process_definition_id", .required, .text),
      ("business_key", .optional, .optionalText)]

/-- The record of an entity, if the value has the fields of the kind. -/
def record? (k : WorkflowKind) (v : Json) : Option Json :=
  match Shape.read (.ofJson v) (.record k.fields) with
  | .ok record => some record
  | .error _ => none

def entityOfRecord (record : Json) : Entity :=
  ⟨((record.get? "id").bind Json.string?).getD "", .ok record.canonical⟩

def entity? (k : WorkflowKind) (v : Json) : Option Entity := (k.record? v).map entityOfRecord

/-! ## Registry -/

def documentOfTask : Relation :=
  ⟨task.type, document.type, ⟨"document_id", [], rfl⟩, ⟨"id", [], rfl⟩⟩

def definitionOfTask : Relation :=
  ⟨task.type, processDefinition.type, ⟨"process_definition_id", [], rfl⟩, ⟨"id", [], rfl⟩⟩

def definitionOfExecution : Relation :=
  ⟨execution.type, processDefinition.type, ⟨"process_definition_id", [], rfl⟩, ⟨"id", [], rfl⟩⟩

def tasksOfDocument : Relation :=
  ⟨document.type, task.type, ⟨"id", [], rfl⟩, ⟨"document_id", [], rfl⟩⟩

/-- Every kind and the relations between them, without loaders. -/
def registry : Registry :=
  let kinds := all.foldl (fun r k => r.withKind k.resource) Registry.empty
  [documentOfTask, definitionOfTask, definitionOfExecution, tasksOfDocument].foldl
    Registry.withRelation kinds

end WorkflowKind
end AccessPolicy
