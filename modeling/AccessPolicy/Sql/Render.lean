/-
Predicates rendered as query conditions.

A comparison is guarded by the storage class of the value it compares with, so
that the affinity of a column never turns a text into the number it looks like.
No value enters the text: each is a parameter, bound in the order of the text.
-/
import AccessPolicy.Predicate.Query
import AccessPolicy.Sql.Mapping

namespace AccessPolicy
namespace Sql

/-- A condition with the values for its parameters. -/
structure Fragment where
  tokens : List Token
  binds : List Json
deriving DecidableEq

namespace Fragment

open Token

def text (f : Fragment) : String := rowText f.tokens

/-- `1 = 1` or `1 = 0`. -/
def constant (value : Bool) : Fragment :=
  ⟨[number 1, operator .equal, number (if value then 1 else 0)], []⟩

def parenthesized (f : Fragment) : List Token := opening :: f.tokens ++ [closing]

/-- Parenthesized parts joined by a connective, or its neutral constant. -/
def joined (connective : Keyword) (neutral : Bool) : List Fragment → Fragment
  | [] => constant neutral
  | [f] => ⟨f.parenthesized, f.binds⟩
  | f :: rest =>
    let others := joined connective neutral rest
    ⟨f.parenthesized ++ word connective :: others.tokens, f.binds ++ others.binds⟩

/-- Numbers and booleans are stored and compared as numbers. -/
def isNumeric : Json → Bool
  | .number _ => true
  | .bool _ => true
  | _ => false

/-- Restricts a comparison to stored values of the kind of the bound value. -/
def typeGuard (c : ColumnRef) (numeric : Bool) : List Token :=
  [word .TYPEOF, opening, column c, closing] ++
    if numeric then
      [word .IN, opening, literal "integer", comma, literal "real", closing]
    else [operator .equal, literal "text"]

def comparing (c : ColumnRef) (comparison : Comparison) (value : Json) : Fragment :=
  if value.isNull then
    match comparison with
    | .equal => ⟨[column c, word .IS, word .NULL], []⟩
    | .notEqual => ⟨[column c, word .IS, word .NOT, word .NULL], []⟩
    | _ => constant false
  else
    let guard := typeGuard c (isNumeric value)
    match comparison with
    | .notEqual =>
      ⟨[column c, word .IS, word .NOT, word .NULL, word .AND, word .NOT, opening] ++ guard ++
        [word .AND, column c, operator .equal, parameter, closing], [value]⟩
    | other => ⟨guard ++ [word .AND, column c, operator other, parameter], [value]⟩

def parameters : Nat → List Token
  | 0 => []
  | 1 => [parameter]
  | n + 1 => parameter :: comma :: parameters n

/-- Membership in values of one kind. -/
def memberOfKind (c : ColumnRef) (numeric : Bool) (values : List Json) : Fragment :=
  ⟨typeGuard c numeric ++ [word .AND, column c, word .IN, opening] ++
    parameters values.length ++ [closing], values⟩

/-- Membership in values of any kind: those compared as text first, then the
numeric ones. -/
def membership (c : ColumnRef) (values : List Json) : Fragment :=
  let present := values.filter fun v => !v.isNull
  let texts := present.filter fun v => !isNumeric v
  let numbers := present.filter isNumeric
  match texts.isEmpty, numbers.isEmpty with
  | true, true => constant false
  | false, true => memberOfKind c false texts
  | true, false => memberOfKind c true numbers
  | false, false => joined .OR false [memberOfKind c false texts, memberOfKind c true numbers]

/-- Some row of a table that is joined by two columns satisfies a filter. -/
def existing (table : String) (slot : Nat) (inner outer : ColumnRef) (filter : Fragment) :
    Fragment :=
  ⟨[word .EXISTS, opening, word .SELECT, number 1, word .FROM, Token.table table,
      tableAlias slot, word .WHERE, column inner, operator .equal, column outer, word .AND] ++
    filter.parenthesized ++ [closing], filter.binds⟩

end Fragment

/-- A table in whose scope conditions are rendered. -/
structure Scope where
  type : ResourceType
  slot : Nat
deriving DecidableEq, Repr

/-- The open scopes, the innermost first, and the slot for the next one. -/
structure RenderState where
  scopes : List Scope
  nextSlot : Nat
deriving DecidableEq, Repr

namespace RenderState

/-- Conditions on the rows of one table, which has the slot zero. -/
def start (type : ResourceType) : RenderState := ⟨[⟨type, 0⟩], 1⟩

/-- The column of a field in the innermost scope. -/
def column (mappings : TableMappings) (s : RenderState) (field : FieldPath) :
    Except ConfigurationError ColumnRef :=
  match s.scopes with
  | [] => .error (.invalidCondition "predicate rendered outside any table scope")
  | scope :: _ =>
    match mappings.get scope.type with
    | .error e => .error e
    | .ok mapping => mapping.column scope.slot scope.type field

end RenderState

/-- The outputs of a list, or the first failure among them. -/
def collected {ε α : Type} : List (Except ε α) → Except ε (List α)
  | [] => .ok []
  | .error e :: _ => .error e
  | .ok a :: rest => (collected rest).map (a :: ·)

/-- Leaves the innermost scope with the filter on its rows. -/
def leaveScope (mappings : TableMappings) (relation : Relation)
    (filter : Except ConfigurationError Fragment) (s : RenderState) :
    Except ConfigurationError Fragment × RenderState :=
  match s.scopes with
  | [] => (.error (.invalidCondition "unbalanced subquery scope"), s)
  | inner :: outer =>
    let s : RenderState := { s with scopes := outer }
    let result : Except ConfigurationError Fragment := do
      let filter ← filter
      let mapping ← mappings.get inner.type
      let innerColumn ← mapping.column inner.slot inner.type relation.targetField
      let outerColumn ← s.column mappings relation.sourceField
      pure (.existing mapping.table inner.slot innerColumn outerColumn filter)
    (result, s)

/-- Renders predicates over the given tables. -/
def renderer (mappings : TableMappings) :
    QueryBuilder RenderState (Except ConfigurationError Fragment) where
  literal value s := (.ok (.constant value), s)
  and parts s := ((collected parts).map (.joined .AND true), s)
  or parts s := ((collected parts).map (.joined .OR false), s)
  compare field comparison value s :=
    ((s.column mappings field).map fun c => .comparing c comparison value, s)
  oneOf field values s := ((s.column mappings field).map fun c => .membership c values, s)
  enter relation s := ⟨⟨relation.target, s.nextSlot⟩ :: s.scopes, s.nextSlot + 1⟩
  leave relation filter s := leaveScope mappings relation filter s

/-- The condition of a predicate on the rows of a type. -/
def render (mappings : TableMappings) (type : ResourceType) (predicate : Predicate) :
    Except ConfigurationError Fragment :=
  (predicate.build (renderer mappings) (.start type)).1

end Sql
end AccessPolicy
