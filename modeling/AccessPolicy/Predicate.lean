/-
Predicates over the rows of one resource type.

A compiled policy is a predicate.  The same tree is evaluated against rows held
in memory and rendered into queries, which is what keeps a check of one entity
and a filter over a list in agreement.
-/
import AccessPolicy.Comparison
import AccessPolicy.Registry

namespace AccessPolicy

/-- `related relation filter` holds of a row when some row joined to it by the
relation satisfies the filter. -/
inductive Predicate where
  | literal (value : Bool)
  | and (parts : List Predicate)
  | or (parts : List Predicate)
  | compare (field : FieldPath) (comparison : Comparison) (value : Json)
  | oneOf (field : FieldPath) (values : List Json)
  | related (relation : Relation) (filter : Predicate)

namespace Predicate

def always : Predicate := .literal true

def never : Predicate := .literal false

/-- The predicate is the false literal.  On predicates in normal form this tells
whether any row can satisfy it. -/
def isUnsatisfiable : Predicate → Bool
  | .literal b => !b
  | _ => false

def isUnrestricted : Predicate → Bool
  | .literal b => b
  | _ => false

def equal (field : FieldPath) (value : Json) : Predicate := .compare field .equal value

/-! ## Folding constructors -/

/-- The parts of a conjunction without true literals and with conjunctions
opened up, or `none` when a part is false. -/
def conjuncts : List Predicate → Option (List Predicate)
  | [] => some []
  | .literal true :: rest => conjuncts rest
  | .literal false :: _ => none
  | .and inner :: rest => (conjuncts rest).map (inner ++ ·)
  | p :: rest => (conjuncts rest).map (p :: ·)

/-- The parts of a disjunction without false literals and with disjunctions
opened up, or `none` when a part is true. -/
def disjuncts : List Predicate → Option (List Predicate)
  | [] => some []
  | .literal false :: rest => disjuncts rest
  | .literal true :: _ => none
  | .or inner :: rest => (disjuncts rest).map (inner ++ ·)
  | p :: rest => (disjuncts rest).map (p :: ·)

/-- Conjunction with constants folded. -/
def all (parts : List Predicate) : Predicate :=
  match conjuncts parts with
  | none => never
  | some [] => always
  | some [p] => p
  | some ps => .and ps

/-- Disjunction with constants folded. -/
def any (parts : List Predicate) : Predicate :=
  match disjuncts parts with
  | none => always
  | some [] => never
  | some [p] => p
  | some ps => .or ps

/-- A related row satisfies the filter; no row does when the filter is false. -/
def someRelated (relation : Relation) (filter : Predicate) : Predicate :=
  if filter.isUnsatisfiable then never else .related relation filter

def both (p q : Predicate) : Predicate := all [p, q]

def either (p q : Predicate) : Predicate := any [p, q]

/-! ## Nesting -/

mutual

/-- How deeply related rows are nested in the predicate. -/
def nesting : Predicate → Nat
  | .and parts => nestingOf parts
  | .or parts => nestingOf parts
  | .related _ filter => nesting filter + 1
  | _ => 0

def nestingOf : List Predicate → Nat
  | [] => 0
  | p :: rest => max (nesting p) (nestingOf rest)

end

/-! ## Subqueries -/

mutual

/-- The relations and filters reached without crossing another relation, in
order. -/
def relatedParts : Predicate → List (Relation × Predicate)
  | .and parts => relatedPartsOf parts
  | .or parts => relatedPartsOf parts
  | .related relation filter => [(relation, filter)]
  | _ => []

def relatedPartsOf : List Predicate → List (Relation × Predicate)
  | [] => []
  | p :: rest => relatedParts p ++ relatedPartsOf rest

end

/-- Adds a filter to the group of its relation key, opening a group at the end
for a new key. -/
def addToGroup (relation : Relation) (filter : Predicate) :
    List (Relation × List Predicate) → List (Relation × List Predicate)
  | [] => [(relation, [filter])]
  | (r, filters) :: rest =>
    if r.key = relation.key then (r, filters ++ [filter]) :: rest
    else (r, filters) :: addToGroup relation filter rest

/-- Parts grouped by relation key in the order of first appearance. -/
def groups (parts : List (Relation × Predicate)) : List (Relation × List Predicate) :=
  parts.foldl (fun acc part => addToGroup part.1 part.2 acc) []

/-- For each relation key at this level, the union of the filters on its rows. -/
def subqueries (p : Predicate) : List (Relation × Predicate) :=
  (groups p.relatedParts).map fun g => (g.1, any g.2)

end Predicate
end AccessPolicy
