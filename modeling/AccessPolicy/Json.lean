/-
JSON values.

An object is the list of its members in order.  A text may give a member more
than once; `Json.canonical` is the reading in which members are sorted by key
and the last of several wins, and every free-form value the engine works with is
in that form.
-/
import AccessPolicy.Binary64

namespace AccessPolicy

/-- A JSON number.  A number written without point and exponent is an integer
when 64 bits hold it, signed or unsigned, and a double otherwise. -/
inductive Number where
  | integer (value : Int)
  | double (value : Binary64)
deriving DecidableEq, Repr

namespace Number

/-- The integers of 64 bits with a sign. -/
def isSigned (n : Int) : Bool := -9223372036854775808 ≤ n && n < 9223372036854775808

/-- The integers of 64 bits without a sign end before this. -/
def unsignedLimit : Nat := 18446744073709551616

/-- The value as a double, in units.  Integers beyond 53 bits are rounded, so
this is the order in which values are compared in memory. -/
def approximate : Number → Int
  | .integer n => (Binary64.ofInt n).value
  | .double x => x.value

/-- The exact value, in units. -/
def exact : Number → Int
  | .integer n => n * (Binary64.unitsPerOne : Int)
  | .double x => x.value

/-- Structural equality: an integer never equals a double, and the two zeros
are the same double. -/
def same : Number → Number → Bool
  | .integer a, .integer b => a == b
  | .double a, .double b => a.value == b.value
  | _, _ => false

def text : Number → String
  | .integer n => toString n
  | .double x => x.text

end Number

inductive Json where
  | null
  | bool (value : Bool)
  | number (value : Number)
  | string (value : String)
  | array (items : List Json)
  | object (members : List (String × Json))
deriving Repr, Inhabited

namespace Json

/-- An integer value. -/
def int (n : Int) : Json := .number (.integer n)

def isNull : Json → Bool
  | .null => true
  | _ => false

def isArray : Json → Bool
  | .array _ => true
  | _ => false

def string? : Json → Option String
  | .string s => some s
  | _ => none

/-- The first member of an object with the given key. -/
def get? (key : String) : Json → Option Json
  | .object members => (members.find? fun m => m.1 == key).map (·.2)
  | _ => none

/-! ## Nesting -/

mutual

/-- How many arrays and objects stand inside each other. -/
def nesting : Json → Nat
  | .array items => nestingItems items + 1
  | .object members => nestingMembers members + 1
  | _ => 0

def nestingItems : List Json → Nat
  | [] => 0
  | v :: rest => max (nesting v) (nestingItems rest)

def nestingMembers : List (String × Json) → Nat
  | [] => 0
  | (_, v) :: rest => max (nesting v) (nestingMembers rest)

end

/-! ## Equality -/

mutual

/-- Structural equality, with numbers compared by `Number.same`. -/
def same : Json → Json → Bool
  | .null, .null => true
  | .bool a, .bool b => a == b
  | .number a, .number b => a.same b
  | .string a, .string b => a == b
  | .array as, .array bs => sameItems as bs
  | .object as, .object bs => sameMembers as bs
  | _, _ => false

def sameItems : List Json → List Json → Bool
  | [], [] => true
  | a :: as, b :: bs => same a b && sameItems as bs
  | _, _ => false

def sameMembers : List (String × Json) → List (String × Json) → Bool
  | [], [] => true
  | (k, a) :: as, (l, b) :: bs => k == l && same a b && sameMembers as bs
  | _, _ => false

end

mutual

/-- Equality of the representation, which also tells the two zeros apart. -/
def identical : Json → Json → Bool
  | .null, .null => true
  | .bool a, .bool b => a == b
  | .number a, .number b => decide (a = b)
  | .string a, .string b => decide (a = b)
  | .array as, .array bs => identicalItems as bs
  | .object as, .object bs => identicalMembers as bs
  | _, _ => false

def identicalItems : List Json → List Json → Bool
  | [], [] => true
  | a :: as, b :: bs => identical a b && identicalItems as bs
  | _, _ => false

def identicalMembers : List (String × Json) → List (String × Json) → Bool
  | [], [] => true
  | (k, a) :: as, (l, b) :: bs => decide (k = l) && identical a b && identicalMembers as bs
  | _, _ => false

end

mutual

theorem identical_iff (a b : Json) : identical a b = true ↔ a = b := by
  cases a <;> cases b <;>
    simp [identical, identicalItems_iff, identicalMembers_iff]

theorem identicalItems_iff (as bs : List Json) : identicalItems as bs = true ↔ as = bs := by
  match as, bs with
  | [], [] => simp [identicalItems]
  | [], _ :: _ => simp [identicalItems]
  | _ :: _, [] => simp [identicalItems]
  | a :: as, b :: bs =>
    simp [identicalItems, identical_iff a b, identicalItems_iff as bs]

theorem identicalMembers_iff (as bs : List (String × Json)) :
    identicalMembers as bs = true ↔ as = bs := by
  match as, bs with
  | [], [] => simp [identicalMembers]
  | [], _ :: _ => simp [identicalMembers]
  | _ :: _, [] => simp [identicalMembers]
  | (k, a) :: as, (l, b) :: bs =>
    simp [identicalMembers, identical_iff a b, identicalMembers_iff as bs]

end

instance : DecidableEq Json := fun a b => decidable_of_iff _ (identical_iff a b)

/-! ## Canonical form -/

/-- Insertion into members sorted by key, replacing a member of the same key. -/
def insertMember (key : String) (value : Json) : List (String × Json) → List (String × Json)
  | [] => [(key, value)]
  | (k, v) :: rest =>
    if key < k then (key, value) :: (k, v) :: rest
    else if key = k then (key, value) :: rest
    else (k, v) :: insertMember key value rest

mutual

/-- Members sorted by key throughout, the last of several members winning. -/
def canonical : Json → Json
  | .array items => .array (canonicalItems items)
  | .object members =>
    .object ((canonicalMembers members).foldl (fun acc m => insertMember m.1 m.2 acc) [])
  | v => v

def canonicalItems : List Json → List Json
  | [] => []
  | v :: rest => canonical v :: canonicalItems rest

def canonicalMembers : List (String × Json) → List (String × Json)
  | [] => []
  | (k, v) :: rest => (k, canonical v) :: canonicalMembers rest

end

end Json
end AccessPolicy
