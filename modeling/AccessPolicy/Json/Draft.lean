/-
A JSON text as a reader meets it.

A reader of a record takes a text in order and stops at the first thing wrong,
which may be a fault of the text or a value of another kind than the record
wants.  A `Draft` is what there is to meet: the values in order, and the places
where the text breaks off, nests too deeply or holds a number or a string that
stands for no value.  What a record skips needs only be well formed.
-/
import AccessPolicy.Json

namespace AccessPolicy
namespace Json

/-- A value as written.  `none` stands for a number beyond the doubles and for a
string with half of a surrogate pair.  An array or object is `closed` when its
end was reached, and `deep` when it lies below the nesting limit. -/
inductive Draft where
  | absent
  | null
  | bool (value : Bool)
  | number (value : Option Number)
  | string (value : Option String)
  | array (deep : Bool) (items : List Draft) (closed : Bool)
  | object (deep : Bool) (members : List (Option String × Draft)) (closed : Bool)
deriving Repr

namespace Draft

mutual

/-- A value whose text does not break off.  This is all that is asked of a value
that is skipped. -/
def wellFormed : Draft → Bool
  | .absent => false
  | .array _ items closed => wellFormedItems items && closed
  | .object _ members closed => wellFormedMembers members && closed
  | _ => true

def wellFormedItems : List Draft → Bool
  | [] => true
  | d :: rest => wellFormed d && wellFormedItems rest

def wellFormedMembers : List (Option String × Draft) → Bool
  | [] => true
  | (_, d) :: rest => wellFormed d && wellFormedMembers rest

end

mutual

/-- The value, when nothing in it is at fault.  Repeated members are kept. -/
def toJson? : Draft → Option Json
  | .absent => none
  | .null => some .null
  | .bool b => some (.bool b)
  | .number n => n.map .number
  | .string s => s.map .string
  | .array deep items closed =>
    if closed && !deep then (toItems? items).map .array else none
  | .object deep members closed =>
    if closed && !deep then (toMembers? members).map .object else none

def toItems? : List Draft → Option (List Json)
  | [] => some []
  | d :: rest => do
    let v ← toJson? d
    let vs ← toItems? rest
    some (v :: vs)

def toMembers? : List (Option String × Draft) → Option (List (String × Json))
  | [] => some []
  | (none, _) :: _ => none
  | (some k, d) :: rest => do
    let v ← toJson? d
    let vs ← toMembers? rest
    some ((k, v) :: vs)

end

mutual

/-- A value read from nowhere: all of it is there and no limit applies. -/
def ofJson : Json → Draft
  | .null => .null
  | .bool b => .bool b
  | .number n => .number (some n)
  | .string s => .string (some s)
  | .array items => .array false (ofItems items) true
  | .object members => .object false (ofMembers members) true

def ofItems : List Json → List Draft
  | [] => []
  | v :: rest => ofJson v :: ofItems rest

def ofMembers : List (String × Json) → List (Option String × Draft)
  | [] => []
  | (k, v) :: rest => (some k, ofJson v) :: ofMembers rest

end

mutual

theorem toJson?_ofJson (v : Json) : toJson? (ofJson v) = some v := by
  cases v with
  | array items => simp [ofJson, toJson?, toItems?_ofItems items]
  | object members => simp [ofJson, toJson?, toMembers?_ofMembers members]
  | _ => simp [ofJson, toJson?]

theorem toItems?_ofItems (items : List Json) : toItems? (ofItems items) = some items := by
  cases items with
  | nil => rfl
  | cons v rest => simp [ofItems, toItems?, toJson?_ofJson v, toItems?_ofItems rest]

theorem toMembers?_ofMembers (members : List (String × Json)) :
    toMembers? (ofMembers members) = some members := by
  match members with
  | [] => rfl
  | (k, v) :: rest =>
    simp [ofMembers, toMembers?, toJson?_ofJson v, toMembers?_ofMembers rest]

end

end Draft
end Json
end AccessPolicy
