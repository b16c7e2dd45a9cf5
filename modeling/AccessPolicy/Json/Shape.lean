/-
Records read from JSON.

A record is written as an object of its fields or as an array of them in the
order of their declaration.  In an object a field is given at most once and
other members are skipped.  An array gives every field up to the defaulted ones
at its end and no more.  Reading goes through the draft in order, so of two
faults the first one written is reported.
-/
import AccessPolicy.Json.Draft

namespace AccessPolicy
namespace Json

/-- Why a draft is not what a reader wants: the text itself is at fault, or it
holds another kind of value. -/
inductive Fault where
  | malformed
  | mismatched
deriving DecidableEq, Repr

/-- What an absent field means.  An optional field may be left out of an object
but holds its place in an array. -/
inductive Presence where
  | required
  | optional
  | defaulted (fallback : Json)

/-- The kinds of value that records hold.  A `document` is any value in
canonical form, and `verbatim` is any value as written. -/
inductive Shape where
  | text
  | optionalText
  | integer
  | document
  | verbatim
  | list (item : Shape)
  | record (fields : List (String × Presence × Shape))

namespace Shape

/-- A draft that is no list or record, read as a single value. -/
def readSingle (d : Draft) : Shape → Except Fault Json
  | .text =>
    match d with
    | .string (some s) => .ok (.string s)
    | .absent | .string none | .number none => .error .malformed
    | _ => .error .mismatched
  | .optionalText =>
    match d with
    | .string (some s) => .ok (.string s)
    | .null => .ok .null
    | .absent | .string none | .number none => .error .malformed
    | _ => .error .mismatched
  | .integer =>
    match d with
    | .number (some (.integer n)) =>
      if Number.isSigned n then .ok (.int n) else .error .mismatched
    | .absent | .string none | .number none => .error .malformed
    | _ => .error .mismatched
  | .document =>
    match d.toJson? with
    | some v => .ok v.canonical
    | none => .error .malformed
  | .verbatim =>
    match d.toJson? with
    | some v => .ok v
    | none => .error .malformed
  | .list _ | .record _ =>
    match d with
    | .absent | .string none | .number none => .error .malformed
    | _ => .error .mismatched

/-- The fields of a record in order of declaration, from the members seen. -/
def complete (seen : List (String × Json)) :
    List (String × Presence × Shape) → Except Fault (List (String × Json))
  | [] => .ok []
  | (name, presence, _) :: rest =>
    match seen.lookup name, presence with
    | some v, _ => (complete seen rest).map ((name, v) :: ·)
    | none, .required => .error .mismatched
    | none, .optional => (complete seen rest).map ((name, .null) :: ·)
    | none, .defaulted v => (complete seen rest).map ((name, v) :: ·)

/-- The fields that an array left out. -/
def defaults : List (String × Presence × Shape) → Except Fault (List (String × Json))
  | [] => .ok []
  | (name, .defaulted v, _) :: rest => (defaults rest).map ((name, v) :: ·)
  | _ :: _ => .error .mismatched

mutual

/-- The value of a draft under a shape.  A record comes out as the object of all
its fields in order of declaration. -/
def read : Draft → Shape → Except Fault Json
  | .array deep items closed, .list item =>
    if deep then .error .malformed else (readItems closed items item).map .array
  | .array deep items closed, .record fields =>
    if deep then .error .malformed else (readPlaces closed items fields).map .object
  | .object deep members closed, .record fields =>
    if deep then .error .malformed
    else
      match readMembers fields members [] with
      | .error e => .error e
      | .ok seen => if closed then (complete seen fields).map .object else .error .malformed
  | d, shape => readSingle d shape

def readItems (closed : Bool) : List Draft → Shape → Except Fault (List Json)
  | [], _ => if closed then .ok [] else .error .malformed
  | d :: rest, item =>
    match read d item with
    | .error e => .error e
    | .ok v => (readItems closed rest item).map (v :: ·)

def readPlaces (closed : Bool) :
    List Draft → List (String × Presence × Shape) → Except Fault (List (String × Json))
  | [], fields => if closed then defaults fields else .error .malformed
  | _ :: _, [] => .error .malformed
  | d :: rest, (name, _, shape) :: fields =>
    match read d shape with
    | .error e => .error e
    | .ok v => (readPlaces closed rest fields).map ((name, v) :: ·)

/-- The known members of an object, the latest first. -/
def readMembers (fields : List (String × Presence × Shape)) :
    List (Option String × Draft) → List (String × Json) → Except Fault (List (String × Json))
  | [], seen => .ok seen
  | (none, _) :: _, _ => .error .malformed
  | (some key, d) :: rest, seen =>
    match fields.lookup key with
    | none => if d.wellFormed then readMembers fields rest seen else .error .malformed
    | some (_, shape) =>
      if (seen.lookup key).isSome then .error .mismatched
      else
        match read d shape with
        | .error e => .error e
        | .ok v => readMembers fields rest ((key, v) :: seen)

end

end Shape
end Json
end AccessPolicy
