/-
The JSON form of conditions.

A condition is an object whose `type` names its kind, or an array that gives the
kind first and the fields after it.  Inside a container, where the kind is read
from values that were already taken apart, its position among the kinds serves
as well as its name.
-/
import AccessPolicy.Condition
import AccessPolicy.Json.Reader
import AccessPolicy.Json.Shape
import AccessPolicy.Json.Text

namespace AccessPolicy

namespace Operator

/-- An operator is its key, or an object with the key as its only member and
nothing in it. -/
def ofJson? : Json → Option Operator
  | .string key => ofKey? key
  | .object [(key, .null)] => ofKey? key
  | .object [(key, .object [])] => ofKey? key
  | _ => none

end Operator

namespace Condition

inductive Kind where
  | field
  | container
deriving DecidableEq, Repr

namespace Kind

def ofTag? (nested : Bool) : Json → Option Kind
  | .string s =>
    if s = "field" then some .field else if s = "container" then some .container else none
  | .number (.integer n) =>
    if nested && n == 0 then some .field
    else if nested && n == 1 then some .container
    else none
  | _ => none

end Kind

/-- The value of the member with a key, if there is exactly one. -/
def onlyMember? (key : String) (members : List (String × Json)) : Option Json :=
  match members.filter fun m => m.1 == key with
  | [m] => some m.2
  | _ => none

/-- A field condition from its parts.  The value is taken in canonical form. -/
def ofFieldParts? (name operator value : Json) : Option Condition := do
  let text ← name.string?
  let op ← Operator.ofJson? operator
  some (.field text op value.canonical)

mutual

/-- The condition of a value. -/
def ofJson? : Bool → Json → Option Condition
  | nested, .object members =>
    match (onlyMember? "type" members).bind (Kind.ofTag? nested) with
    | none => none
    | some .field => do
      let name ← onlyMember? "field" members
      let operator ← onlyMember? "operator" members
      let value ← onlyMember? "value" members
      ofFieldParts? name operator value
    | some .container => do
      let type ← (onlyMember? "resourceType" members).bind Json.string?
      let _ ← onlyMember? "conditions" members
      let conditions ← ofNested? members
      some (.container type conditions)
  | nested, .array (tag :: rest) =>
    match Kind.ofTag? nested tag, rest with
    | some .field, [name, operator, value] => ofFieldParts? name operator value
    | some .container, [.string type, .array items] =>
      (ofItems? true items).map (.container type)
    | _, _ => none
  | _, _ => none

/-- The conditions in the member `conditions`. -/
def ofNested? : List (String × Json) → Option (List Condition)
  | [] => none
  | (key, .array items) :: rest =>
    if key = "conditions" then ofItems? true items else ofNested? rest
  | (key, _) :: rest => if key = "conditions" then none else ofNested? rest

def ofItems? : Bool → List Json → Option (List Condition)
  | _, [] => some []
  | nested, v :: rest => do
    let c ← ofJson? nested v
    let cs ← ofItems? nested rest
    some (c :: cs)

end

mutual

def toJson : Condition → Json
  | .field text operator value =>
    .object [("type", .string "field"), ("field", .string text),
      ("operator", .string operator.key), ("value", value)]
  | .container type conditions =>
    .object [("type", .string "container"), ("resourceType", .string type),
      ("conditions", .array (toItems conditions))]

def toItems : List Condition → List Json
  | [] => []
  | c :: rest => toJson c :: toItems rest

end

/-- The text under which conditions are stored. -/
def listText (conditions : List Condition) : String := (Json.array (toItems conditions)).text

/-- The conditions of a draft that holds a list of them. -/
def listOfDraft? (d : Json.Draft) : Option (List Condition) :=
  match Json.Shape.read d (.list .verbatim) with
  | .ok (.array items) => ofItems? false items
  | _ => none

/-- The conditions of a stored text. -/
def listOfText? (text : String) : Option (List Condition) :=
  (Json.Draft.ofDocument? text).bind listOfDraft?

end Condition
end AccessPolicy
