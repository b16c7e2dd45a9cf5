/-
Conditions attached to permissions.
-/
import AccessPolicy.Comparison
import AccessPolicy.Registry

namespace AccessPolicy

/-- How a condition relates a field to its value.  `isIn` is a membership test,
not a comparison. -/
inductive Operator where
  | compare (comparison : Comparison)
  | isIn
deriving DecidableEq, Repr

namespace Operator

def all : List Operator :=
  [.compare .equal, .compare .notEqual, .compare .greater, .compare .greaterOrEqual,
    .compare .less, .compare .lessOrEqual, .isIn]

def key : Operator → String
  | .compare .equal => "=="
  | .compare .notEqual => "!="
  | .compare .greater => ">"
  | .compare .greaterOrEqual => ">="
  | .compare .less => "<"
  | .compare .lessOrEqual => "<="
  | .isIn => "in"

def ofKey? (key : String) : Option Operator := all.find? fun o => o.key == key

theorem ofKey?_key (o : Operator) : ofKey? o.key = some o := by
  rcases o with c | _
  · cases c <;> decide +kernel
  · decide +kernel

end Operator

/-- A condition compares a field of the candidate entity, or asks that nested
conditions hold on a related entity of the named type. -/
inductive Condition where
  | field (field : String) (operator : Operator) (value : Json)
  | container (resourceType : String) (conditions : List Condition)

namespace Condition

/-! ## Placeholders -/

/-- Stands for the identifier of the acting principal. -/
def currentUserIdentifier : String := "$\x7bcurrentUserIdentifier\x7d"

/-- Stands for the list of role keys of the acting principal. -/
def currentUserRoles : String := "$\x7bcurrentUserRoles\x7d"

def nullValue : String := "$\x7bnull\x7d"

/-- A value with its placeholder filled in.  Only a whole text is a
placeholder. -/
def resolveValue (principal : Principal) (value : Json) : Json :=
  match value with
  | .string s =>
    if s = currentUserIdentifier then .string principal.identifier
    else if s = currentUserRoles then .array (principal.roles.keys.map .string)
    else if s = nullValue then .null
    else value
  | _ => value

/-- The candidates of a membership test.  A placeholder that stands for a list
contributes its elements. -/
def resolveValues (principal : Principal) (value : Json) : List Json :=
  let items := match value with
    | .array items => items
    | single => [single]
  items.flatMap fun item =>
    match resolveValue principal item with
    | .array resolved => resolved
    | resolved => [resolved]

/-! ## Validation -/

/-- A comparison on the field with this text was given a list. -/
def listRefused (text : String) : ConfigurationError :=
  .invalidCondition ("operator on `" ++ text ++ "` does not accept a list")

mutual

/-- Checks paths, operators and relations for a condition on entities of a
type. -/
def validate (registry : Registry) : Condition → ResourceType → Except ConfigurationError Unit
  | .field text operator value, type =>
    match FieldPath.parse text with
    | .error e => .error e
    | .ok path =>
      match registry.checkField type path with
      | .error e => .error e
      | .ok _ =>
        if operator ≠ .isIn ∧ value.isArray then .error (listRefused text) else .ok ()
  | .container name conditions, type =>
    match registry.resourceType name with
    | .error e => .error e
    | .ok target =>
      match registry.relation type target with
      | .error e => .error e
      | .ok _ => validateAll registry conditions target

/-- Checks conditions in order and reports the first defect. -/
def validateAll (registry : Registry) :
    List Condition → ResourceType → Except ConfigurationError Unit
  | [], _ => .ok ()
  | c :: rest, type =>
    match validate registry c type with
    | .error e => .error e
    | .ok _ => validateAll registry rest type

end

end Condition
end AccessPolicy
