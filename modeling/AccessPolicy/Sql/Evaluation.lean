/-
Query conditions evaluated on stored rows, in three-valued logic.
-/
import AccessPolicy.FieldPath
import AccessPolicy.Sql.Expr

namespace AccessPolicy
namespace Sql

/-- What a column holds.  A JSON column holds a document; read as a column it is
the document's compact text. -/
inductive Cell where
  | value (value : Value)
  | document (document : Json)

namespace Cell

def toValue : Cell → Value
  | value v => v
  | document d => .text d.text

/-- The member of a document at a path, null when there is none. -/
def extract (path : List String) : Cell → Value
  | document d =>
    match FieldPath.descend path d with
    | some v => .ofStored v
    | none => .null
  | value _ => .null

end Cell

/-- A stored row by column name. -/
abbrev StoredRow := List (String × Cell)

/-- A table with the affinities of its columns and its rows in the order in
which they were stored. -/
structure Table where
  columns : List (String × Affinity)
  rows : List StoredRow

/-- The row that a slot stands for. -/
structure Binding where
  slot : Nat
  columns : List (String × Affinity)
  row : StoredRow

namespace ColumnRef

/-- The value of a column where the slots are bound. -/
def value (c : ColumnRef) (env : List Binding) : Value :=
  match env.find? fun b => b.slot == c.slot with
  | none => .null
  | some b =>
    match b.row.lookup c.column with
    | none => .null
    | some cell => if c.path.isEmpty then cell.toValue else cell.extract c.path

/-- A column has the affinity of its declaration and a member of a document has
none. -/
def affinity (c : ColumnRef) (env : List Binding) : Affinity :=
  if c.path.isEmpty then
    match env.find? fun b => b.slot == c.slot with
    | none => .none
    | some b => (b.columns.lookup c.column).getD .none
  else .none

end ColumnRef

namespace Operand

def eval (env : List Binding) : Operand → Value
  | column c => c.value env
  | value v => v
  | typeOf c => .text (c.value env).typeName

def affinity (env : List Binding) : Operand → Affinity
  | column c => c.affinity env
  | _ => .none

end Operand

/-! ## Three-valued logic -/

def not3 : Option Bool → Option Bool
  | some b => some !b
  | none => none

def and3 : Option Bool → Option Bool → Option Bool
  | some false, _ => some false
  | _, some false => some false
  | some true, some true => some true
  | _, _ => none

def or3 : Option Bool → Option Bool → Option Bool
  | some true, _ => some true
  | _, some true => some true
  | some false, some false => some false
  | _, _ => none

namespace Expr

/-- Membership compares with each item under the affinity of the operand. -/
def inItems (v : Value) (affinity : Affinity) (env : List Binding) : List Operand → Option Bool
  | [] => some false
  | item :: rest =>
    or3 (v.test .equal affinity (item.eval env) .none) (inItems v affinity env rest)

/-- The truth value of a condition over tables where slots are bound. -/
def eval (tables : List (String × Table)) : List Binding → Expr → Option Bool
  | env, compare c l r => (l.eval env).test c (l.affinity env) (r.eval env) (r.affinity env)
  | env, isNull o negated => some ((o.eval env == .null) != negated)
  | env, inList o items => inItems (o.eval env) (o.affinity env) env items
  | env, group e => eval tables env e
  | env, not e => not3 (eval tables env e)
  | env, and a b => and3 (eval tables env a) (eval tables env b)
  | env, or a b => or3 (eval tables env a) (eval tables env b)
  | env, exist name slot e =>
    match tables.lookup name with
    | none => some false
    | some table =>
      some (table.rows.any fun row =>
        eval tables (⟨slot, table.columns, row⟩ :: env) e == some true)

end Expr

/-- The rows of a table that satisfy a condition, in the order of the table.
The table has the slot zero. -/
def Table.select (tables : List (String × Table)) (table : Table) (condition : Expr) :
    List StoredRow :=
  table.rows.filter fun row => condition.eval tables [⟨0, table.columns, row⟩] == some true

end Sql
end AccessPolicy
