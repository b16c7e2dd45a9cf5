/-
Values of a relational store and how they compare.

A value is null, an integer, a real or a text.  Before two operands are
compared, the affinity of a column may turn a number into text or a text into a
number; numbers are then compared exactly, texts by code point, and every number
comes before every text.
-/
import AccessPolicy.Comparison
import AccessPolicy.Json.Text
import AccessPolicy.Sql.Real

namespace AccessPolicy
namespace Sql

inductive Value where
  | null
  | integer (value : Int)
  | real (value : Real)
  | text (value : String)
deriving DecidableEq, Repr

/-- The conversion that a column asks of values compared with it. -/
inductive Affinity where
  | none
  | text
  | integer
deriving DecidableEq, Repr

namespace Value

/-- The value as which JSON is bound to a parameter.  Booleans become integers,
integers beyond 64 signed bits become reals, and arrays and objects become their
compact text. -/
def ofJson : Json → Value
  | .null => .null
  | .bool b => .integer (if b then 1 else 0)
  | .number (.integer n) =>
    if Number.isSigned n then .integer n else .real (.finite (.ofInt n))
  | .number (.double x) => .real (.finite x)
  | .string s => .text s
  | v => .text v.text

/-- A text up to the first NUL in it. -/
def untilNul (s : String) : String := String.ofList (s.toList.takeWhile (· != '\x00'))

/-- The value that is extracted from a stored document.  A document is stored as
text, so its reals are read from it and a NUL ends a text. -/
def ofStored : Json → Value
  | .number (.integer n) =>
    if Number.isSigned n then .integer n else .real (.ofText (toString n))
  | .number (.double x) => .real (.ofText x.text)
  | .string s => .text (untilNul s)
  | v => ofJson v

/-- The name of the storage class. -/
def typeName : Value → String
  | .null => "null"
  | .integer _ => "integer"
  | .real _ => "real"
  | .text _ => "text"

/-! ## Text as numbers -/

def isSpace (c : Char) : Bool := c = ' ' || (9 ≤ c.toNat && c.toNat ≤ 13)

def trimmed (cs : List Char) : List Char :=
  ((cs.dropWhile isSpace).reverse.dropWhile isSpace).reverse

/-- The number that a text stands for, blanks around it aside.  Integers of 64
signed bits are kept exactly. -/
def numberOfText? (s : String) : Option Value :=
  (Numeral.read? (trimmed s.toList)).map fun l =>
    match l.integer? with
    | some n => if Number.isSigned n then .integer n else .real l.real
    | none => .real l.real

/-! ## Affinity -/

def asText : Value → Value
  | .integer n => .text (toString n)
  | .real x => .text x.text
  | v => v

def asNumber : Value → Value
  | .text s => (numberOfText? s).getD (.text s)
  | v => v

/-- The affinity under which two operands are compared.  Of two columns only a
numeric one counts, and otherwise the column's affinity decides. -/
def commonAffinity : Affinity → Affinity → Affinity
  | .integer, _ => .integer
  | _, .integer => .integer
  | .text, .text => .none
  | .text, .none => .text
  | .none, .text => .text
  | .none, .none => .none

def underAffinity : Value → Affinity → Value
  | v, .none => v
  | v, .text => v.asText
  | v, .integer => v.asNumber

/-! ## Order -/

/-- The exact value of a number, in units. -/
def magnitude? : Value → Option Int
  | .integer n => some (n * (Binary64.unitsPerOne : Int))
  | .real x => some x.rank
  | _ => .none

/-- The order of two values, unless one of them is null. -/
def order? : Value → Value → Option Ordering
  | .null, _ => .none
  | _, .null => .none
  | .text a, .text b => some (if a < b then .lt else if a = b then .eq else .gt)
  | .text _, _ => some .gt
  | _, .text _ => some .lt
  | a, b =>
    match a.magnitude?, b.magnitude? with
    | some x, some y => some (Ord.compare x y)
    | _, _ => .none

/-- The three-valued result of a comparison. -/
def test (c : Comparison) (a : Value) (aAffinity : Affinity) (b : Value) (bAffinity : Affinity) :
    Option Bool :=
  let affinity := commonAffinity aAffinity bAffinity
  ((a.underAffinity affinity).order? (b.underAffinity affinity)).map c.admitsOrder

end Value
end Sql
end AccessPolicy
