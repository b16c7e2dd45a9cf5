/-
What a store can read.

A query is read with a stack of symbols of bounded height, and the tree it is
read into is bounded too.  `peak` is the number of symbols that reading a phrase
puts on the stack at most, its own symbol included, and `height` the height of
its tree.  Names are looked up from the outermost query to the innermost, and
while a subquery is looked up the heights of the conditions around it count as
well.
-/
import AccessPolicy.Sql.Expr

namespace AccessPolicy
namespace Sql

namespace ColumnRef

/-- A column is a name, a point and a name.  A member of a document is a call
with two arguments, and a call holds the symbols `name ( quantifier`. -/
def peak (c : ColumnRef) : Nat := if c.path.isEmpty then 3 else 6

def height (c : ColumnRef) : Nat := if c.path.isEmpty then 2 else 3

end ColumnRef

namespace Operand

def peak : Operand → Nat
  | column c => c.peak
  | value _ => 1
  | typeOf c => 3 + c.peak

def height : Operand → Nat
  | column c => c.height
  | value _ => 1
  | typeOf c => 1 + c.height

end Operand

namespace Expr

/-! ## Stack -/

/-- The items of a list after the symbols `operand IN (`, and after the first
also those before it and a comma. -/
def itemsPeak : List Operand → Nat
  | [] => 5
  | first :: rest => max 5 (max (3 + first.peak) ((rest.map fun o => 5 + o.peak).foldl max 0))

/-- Connectives keep their left side and themselves on the stack while the right
side is read.  A subquery holds seven symbols when its condition begins, and the
clauses before and after the condition take eleven. -/
def peak : Expr → Nat
  | compare _ l r => max l.peak (2 + r.peak)
  | isNull o negated => max o.peak (if negated then 4 else 3)
  | inList o items => max o.peak (itemsPeak items)
  | group e => max 3 (1 + e.peak)
  | not e => 1 + e.peak
  | and l r => max l.peak (2 + r.peak)
  | or l r => max l.peak (2 + r.peak)
  | exist _ _ e => max 11 (7 + e.peak)

/-- The symbols on the stack when the condition of a query begins: `SELECT`, its
quantifier, the columns, the tables and `WHERE`. -/
def queryPrefix : Nat := 5

def stackLimit : Nat := 99

/-! ## Tree -/

/-- Membership in a single item is kept as an equation with the item under a
sign. -/
def itemsHeight : List Operand → Nat
  | [item] => 1 + item.height
  | items => (items.map Operand.height).foldl max 0

def height : Expr → Nat
  | compare _ l r => 1 + max l.height r.height
  | isNull o _ => 1 + o.height
  | inList o items => 1 + max o.height (itemsHeight items)
  | group e => e.height
  | not e => 1 + e.height
  | and l r => 1 + max l.height r.height
  | or l r => 1 + max l.height r.height
  | exist _ _ e => 1 + e.height

/-- The greatest sum of the heights of conditions inside one another, below a
condition. -/
def nestedHeight : Expr → Nat
  | group e => e.nestedHeight
  | not e => e.nestedHeight
  | and l r => max l.nestedHeight r.nestedHeight
  | or l r => max l.nestedHeight r.nestedHeight
  | exist _ _ e => e.height + e.nestedHeight
  | _ => 0

def heightLimit : Nat := 1000

/-- Whether a store can read the condition of a query. -/
def isReadable (e : Expr) : Bool :=
  queryPrefix + e.peak ≤ stackLimit && e.height + e.nestedHeight ≤ heightLimit

end Expr

/-- A query takes no more values than this. -/
def parameterLimit : Nat := 32766

end Sql
end AccessPolicy
