/-
The operations that permissions grant.
-/

namespace AccessPolicy

/-- Every operation the engine knows about.  Which of them a resource kind
offers is part of the kind; `deny` is accepted for every kind and never
granted. -/
inductive Action where
  | view
  | viewList
  | create
  | modify
  | delete
  | claim
  | assign
  | assignable
  | complete
  | deny
deriving DecidableEq, Repr

namespace Action

/-- All actions in their order of declaration, which is their order. -/
def all : List Action :=
  [view, viewList, create, modify, delete, claim, assign, assignable, complete, deny]

/-- The key by which texts name the action. -/
def key : Action → String
  | view => "view"
  | viewList => "view_list"
  | create => "create"
  | modify => "modify"
  | delete => "delete"
  | claim => "claim"
  | assign => "assign"
  | assignable => "assignable"
  | complete => "complete"
  | deny => "deny"

/-- The action of a key. -/
def ofKey? (key : String) : Option Action := all.find? fun a => a.key == key

def isDeny (a : Action) : Bool := a = deny

theorem ofKey?_key (a : Action) : ofKey? a.key = some a := by
  cases a <;> decide +kernel

theorem key_of_ofKey? {key : String} {a : Action} (h : ofKey? key = some a) : a.key = key := by
  simpa using List.find?_some h

/-- The distinct actions of a list in their order. -/
def sorted (actions : List Action) : List Action := all.filter actions.contains

end Action
end AccessPolicy
