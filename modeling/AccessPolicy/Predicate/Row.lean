/-
Rows held in memory and predicates evaluated on them.
-/
import AccessPolicy.Predicate

namespace AccessPolicy

/-- The attributes of an entity together with the rows joined to it, by
relation key. -/
inductive Row where
  | mk (attributes : Json) (related : List (RelationKey × List Row))

namespace Row

def ofAttributes (attributes : Json) : Row := .mk attributes []

def attributes : Row → Json
  | .mk attributes _ => attributes

def related : Row → List (RelationKey × List Row)
  | .mk _ related => related

/-- The rows joined by a relation key, none when the key is absent. -/
def joined (row : Row) (key : RelationKey) : List Row :=
  ((row.related.find? fun entry => entry.1 == key).map (·.2)).getD []

/-- Puts rows under a relation key in place of those it held. -/
def withRelated (row : Row) (key : RelationKey) (rows : List Row) : Row :=
  .mk row.attributes ((key, rows) :: row.related.filter fun entry => entry.1 != key)

end Row

namespace Predicate

mutual

/-- Whether a row satisfies the predicate. -/
def holds : Predicate → Row → Bool
  | .literal value, _ => value
  | .and parts, row => allHold parts row
  | .or parts, row => anyHolds parts row
  | .compare field comparison value, row =>
    comparison.test (field.resolve row.attributes) value
  | .oneOf field values, row => Comparison.member (field.resolve row.attributes) values
  | .related relation filter, row => (row.joined relation.key).any fun r => holds filter r

def allHold : List Predicate → Row → Bool
  | [], _ => true
  | p :: rest, row => holds p row && allHold rest row

def anyHolds : List Predicate → Row → Bool
  | [], _ => false
  | p :: rest, row => holds p row || anyHolds rest row

end

theorem allHold_eq_all (parts : List Predicate) (row : Row) :
    allHold parts row = parts.all (holds · row) := by
  induction parts with
  | nil => rfl
  | cons p rest ih => simp [allHold, ih]

theorem anyHolds_eq_any (parts : List Predicate) (row : Row) :
    anyHolds parts row = parts.any (holds · row) := by
  induction parts with
  | nil => rfl
  | cons p rest ih => simp [anyHolds, ih]

end Predicate
end AccessPolicy
