/-
Comparing an attribute with a value.
-/
import AccessPolicy.Json

namespace AccessPolicy

namespace Json

/-- The value of a number, or of a boolean as zero or one, as a double in
units. -/
def numeric? : Json → Option Int
  | .number n => some n.approximate
  | .bool b => some (if b then (Binary64.unitsPerOne : Int) else 0)
  | _ => none

/-- Equality of an attribute and a value.  Numbers and booleans compare by value
and everything else by structure, so text never equals a number. -/
def agrees (a b : Json) : Bool :=
  match a.numeric?, b.numeric? with
  | some x, some y => x == y
  | _, _ => a.same b

/-- Only two texts or two numeric values have an order. -/
def order? (a b : Json) : Option Ordering :=
  match a, b with
  | .string s, .string t => some (if s < t then .lt else if s = t then .eq else .gt)
  | _, _ =>
    match a.numeric?, b.numeric? with
    | some x, some y => some (compare x y)
    | _, _ => none

end Json

inductive Comparison where
  | equal
  | notEqual
  | greater
  | greaterOrEqual
  | less
  | lessOrEqual
deriving DecidableEq, Repr

namespace Comparison

def sqlOperator : Comparison → String
  | equal => "="
  | notEqual => "!="
  | greater => ">"
  | greaterOrEqual => ">="
  | less => "<"
  | lessOrEqual => "<="

/-- Whether an order satisfies the comparison. -/
def admitsOrder : Comparison → Ordering → Bool
  | equal, o => o == .eq
  | notEqual, o => o != .eq
  | greater, o => o == .gt
  | greaterOrEqual, o => o != .lt
  | less, o => o == .lt
  | lessOrEqual, o => o != .gt

/-- A missing attribute is a null one. -/
def present (stored : Option Json) : Option Json := stored.filter fun v => !v.isNull

/-- Whether an attribute satisfies the comparison with a value.  A null value
asks whether the attribute is null, and a null attribute satisfies nothing
else. -/
def test (comparison : Comparison) (stored : Option Json) (value : Json) : Bool :=
  if value.isNull then
    match comparison with
    | equal => (present stored).isNone
    | notEqual => (present stored).isSome
    | _ => false
  else
    match present stored with
    | none => false
    | some a =>
      match comparison with
      | equal => a.agrees value
      | notEqual => !a.agrees value
      | c =>
        match a.order? value with
        | some o => c.admitsOrder o
        | none => false

/-- Whether an attribute is one of the values that are not null. -/
def member (stored : Option Json) (values : List Json) : Bool :=
  match present stored with
  | none => false
  | some a => values.any fun v => !v.isNull && a.agrees v

end Comparison
end AccessPolicy
