/-
The words of a query condition.

Conditions are put together from tokens and become text only at the end.  How a
token is written and where blanks stand is decided here once.
-/
import AccessPolicy.Comparison

namespace AccessPolicy
namespace Sql

/-- The text of a column, or of the member of a JSON column that a path leads
to. -/
def columnText (name column : String) (path : List String) : String :=
  if path.isEmpty then name ++ "." ++ column
  else "json_extract(" ++ name ++ "." ++ column ++ ", '$." ++ String.intercalate "." path ++ "')"

/-- The tables of a query are told apart by slots, and a slot is written as a
numbered alias. -/
def aliasName (slot : Nat) : String := "t" ++ toString slot

/-- A column of the table in a slot, or a member of the document in it. -/
structure ColumnRef where
  slot : Nat
  column : String
  path : List String
deriving DecidableEq, Repr

def ColumnRef.text (c : ColumnRef) : String := columnText (aliasName c.slot) c.column c.path

inductive Keyword where
  | AND
  | OR
  | NOT
  | IS
  | NULL
  | IN
  | EXISTS
  | SELECT
  | FROM
  | WHERE
  | TYPEOF
deriving DecidableEq, Repr

def Keyword.text : Keyword → String
  | AND => "AND"
  | OR => "OR"
  | NOT => "NOT"
  | IS => "IS"
  | NULL => "NULL"
  | IN => "IN"
  | EXISTS => "EXISTS"
  | SELECT => "SELECT"
  | FROM => "FROM"
  | WHERE => "WHERE"
  | TYPEOF => "typeof"

/-- A `parameter` stands for the next value of the list bound to the query. -/
inductive Token where
  | word (keyword : Keyword)
  | column (ref : ColumnRef)
  | parameter
  | number (value : Nat)
  | literal (value : String)
  | table (name : String)
  | tableAlias (slot : Nat)
  | operator (comparison : Comparison)
  | opening
  | closing
  | comma
deriving DecidableEq, Repr

namespace Token

def text : Token → String
  | word k => k.text
  | column c => c.text
  | parameter => "?"
  | number n => toString n
  | literal s => "'" ++ s ++ "'"
  | table name => name
  | tableAlias n => aliasName n
  | operator c => c.sqlOperator
  | opening => "("
  | closing => ")"
  | comma => ","

/-- No blank stands after an opening parenthesis, before a closing one or a
comma, and between a function and its argument. -/
def adjoins : Token → Token → Bool
  | opening, _ => true
  | _, closing => true
  | _, comma => true
  | word .TYPEOF, opening => true
  | _, _ => false

/-- The text of tokens in a row. -/
def rowText : List Token → String
  | [] => ""
  | [t] => t.text
  | t :: u :: rest => t.text ++ (if adjoins t u then "" else " ") ++ rowText (u :: rest)

end Token
end Sql
end AccessPolicy
