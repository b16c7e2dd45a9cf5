/-
Rows loaded for a predicate.

Before a predicate is evaluated on an entity, the rows that its subqueries range
over are fetched, to the depth to which the predicate nests them and without
authorization.  Each relation key is fetched once for the union of the filters
on it, so cyclic data does no harm.
-/
import AccessPolicy.Predicate.Row

namespace AccessPolicy
namespace Row

/-- The value by which a row is joined, if it has one. -/
def joinKey (relation : Relation) (attributes : Json) : Option Json :=
  (relation.sourceField.resolve attributes).filter fun v => !v.isNull

/-- The row of an entity with the rows related to it, to a number of levels.
A row without join key has no related rows and needs no loader. -/
def loadLevels (registry : Registry) (ambient : Ambient) :
    Nat → Json → Predicate → Except AuthorizationError Row
  | 0, attributes, _ => .ok (.ofAttributes attributes)
  | levels + 1, attributes, predicate => do
    let related ← predicate.subqueries.mapM fun part => do
      match joinKey part.1 attributes with
      | none => pure (part.1.key, [])
      | some key =>
        let loader ← AuthorizationError.liftConfiguration (registry.loader part.1.target)
        let entities ← AuthorizationError.liftStore
          (loader ambient.bypassing part.1.targetField key)
        let rows ← entities.mapM fun entity => loadLevels registry ambient levels entity part.2
        pure (part.1.key, rows)
    pure (.mk attributes related)

/-- The row of an entity with all rows that the predicate ranges over. -/
def load (registry : Registry) (ambient : Ambient) (attributes : Json) (predicate : Predicate) :
    Except AuthorizationError Row :=
  loadLevels registry ambient predicate.nesting attributes predicate

end Row
end AccessPolicy
