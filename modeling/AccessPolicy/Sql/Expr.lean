/-
Query conditions as they are read.

`Expr.read?` gives tokens the structure that the precedence of the connectives
determines: NOT binds tighter than AND, and AND tighter than OR.  Connectives of
one kind group to the left.  Parameters take the bound values in the order in
which they are written.  Parentheses are kept, because they count towards what a
store can read.
-/
import AccessPolicy.Sql.Token
import AccessPolicy.Sql.Value

namespace AccessPolicy
namespace Sql

inductive Operand where
  | column (ref : ColumnRef)
  | value (value : Value)
  | typeOf (ref : ColumnRef)
deriving DecidableEq, Repr

inductive Expr where
  | compare (comparison : Comparison) (left right : Operand)
  | isNull (operand : Operand) (negated : Bool)
  | inList (operand : Operand) (items : List Operand)
  | group (inner : Expr)
  | not (inner : Expr)
  | and (left right : Expr)
  | or (left right : Expr)
  | exist (table : String) (slot : Nat) (condition : Expr)
deriving DecidableEq, Repr

namespace Expr

/-- What is left of the tokens and of the bound values. -/
structure Rest where
  tokens : List Token
  binds : List Value

open Token

def operand? : Rest → Option (Operand × Rest)
  | ⟨column c :: ts, bs⟩ => some (.column c, ⟨ts, bs⟩)
  | ⟨parameter :: ts, b :: bs⟩ => some (.value b, ⟨ts, bs⟩)
  | ⟨number n :: ts, bs⟩ => some (.value (.integer n), ⟨ts, bs⟩)
  | ⟨literal s :: ts, bs⟩ => some (.value (.text s), ⟨ts, bs⟩)
  | ⟨word .TYPEOF :: opening :: column c :: closing :: ts, bs⟩ => some (.typeOf c, ⟨ts, bs⟩)
  | _ => none

/-- Operands separated by commas, up to the closing parenthesis. -/
def operands? : Nat → Rest → Option (List Operand × Rest)
  | 0, _ => none
  | fuel + 1, r =>
    match operand? r with
    | some (o, ⟨comma :: ts, bs⟩) =>
      (operands? fuel ⟨ts, bs⟩).map fun (os, r) => (o :: os, r)
    | some (o, ⟨closing :: ts, bs⟩) => some ([o], ⟨ts, bs⟩)
    | _ => none

/-- A test on an operand. -/
def simple? (fuel : Nat) (r : Rest) : Option (Expr × Rest) :=
  match operand? r with
  | none => none
  | some (o, r) =>
    match r with
    | ⟨operator c :: ts, bs⟩ =>
      (operand? ⟨ts, bs⟩).map fun (right, r) => (.compare c o right, r)
    | ⟨word .IS :: word .NULL :: ts, bs⟩ => some (.isNull o false, ⟨ts, bs⟩)
    | ⟨word .IS :: word .NOT :: word .NULL :: ts, bs⟩ => some (.isNull o true, ⟨ts, bs⟩)
    | ⟨word .IN :: opening :: ts, bs⟩ =>
      (operands? fuel ⟨ts, bs⟩).map fun (items, r) => (.inList o items, r)
    | _ => none

/-- The rest after a closing parenthesis. -/
def closed? {α : Type} : α × Rest → Option (α × Rest)
  | (a, ⟨closing :: ts, bs⟩) => some (a, ⟨ts, bs⟩)
  | _ => none

mutual

def disjunction? : Nat → Rest → Option (Expr × Rest)
  | 0, _ => none
  | fuel + 1, r =>
    match conjunction? fuel r with
    | some (e, r) => disjoined? fuel e r
    | none => none

/-- The rest of a disjunction that begins with a condition. -/
def disjoined? : Nat → Expr → Rest → Option (Expr × Rest)
  | fuel + 1, e, ⟨word .OR :: ts, bs⟩ =>
    match conjunction? fuel ⟨ts, bs⟩ with
    | some (next, r) => disjoined? fuel (.or e next) r
    | none => none
  | _, e, r => some (e, r)

def conjunction? : Nat → Rest → Option (Expr × Rest)
  | 0, _ => none
  | fuel + 1, r =>
    match negation? fuel r with
    | some (e, r) => conjoined? fuel e r
    | none => none

/-- The rest of a conjunction that begins with a condition. -/
def conjoined? : Nat → Expr → Rest → Option (Expr × Rest)
  | fuel + 1, e, ⟨word .AND :: ts, bs⟩ =>
    match negation? fuel ⟨ts, bs⟩ with
    | some (next, r) => conjoined? fuel (.and e next) r
    | none => none
  | _, e, r => some (e, r)

def negation? : Nat → Rest → Option (Expr × Rest)
  | 0, _ => none
  | fuel + 1, ⟨word .NOT :: ts, bs⟩ =>
    (negation? fuel ⟨ts, bs⟩).map fun (e, r) => (.not e, r)
  | fuel + 1, r => primary? fuel r

def primary? : Nat → Rest → Option (Expr × Rest)
  | 0, _ => none
  | fuel + 1, ⟨opening :: ts, bs⟩ =>
    ((disjunction? fuel ⟨ts, bs⟩).bind closed?).map fun (e, r) => (.group e, r)
  | fuel + 1, ⟨word .EXISTS :: opening :: word .SELECT :: number _ :: word .FROM ::
      Token.table name :: tableAlias slot :: word .WHERE :: ts, bs⟩ =>
    ((disjunction? fuel ⟨ts, bs⟩).bind closed?).map fun (e, r) => (.exist name slot e, r)
  | fuel + 1, r => simple? fuel r

end

/-- The condition that the tokens express with the bound values, if all of both
are taken up.  Each token takes at most four steps. -/
def read? (tokens : List Token) (binds : List Value) : Option Expr :=
  match disjunction? (4 * tokens.length + 4) ⟨tokens, binds⟩ with
  | some (e, ⟨[], []⟩) => some e
  | _ => none

/-- The tables that the condition names. -/
def tables : Expr → List String
  | group e => e.tables
  | not e => e.tables
  | and a b => a.tables ++ b.tables
  | or a b => a.tables ++ b.tables
  | exist name _ e => name :: e.tables
  | _ => []

end Expr
end Sql
end AccessPolicy
