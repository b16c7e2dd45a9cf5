/-
Predicates rendered into queries.

A query builder turns the nodes of a predicate into outputs, one call a node.
The calls thread a state, because a builder has to know in which subquery it
is; the scope of a related row is entered before its filter is built and left
with the filter's output.
-/
import AccessPolicy.Predicate

namespace AccessPolicy

/-- A target of rendering with state `σ` and output `α`. -/
structure QueryBuilder (σ α : Type) where
  literal : Bool → σ → α × σ
  and : List α → σ → α × σ
  or : List α → σ → α × σ
  compare : FieldPath → Comparison → Json → σ → α × σ
  oneOf : FieldPath → List Json → σ → α × σ
  enter : Relation → σ → σ
  leave : Relation → α → σ → α × σ

namespace Predicate

variable {σ α : Type}

mutual

def build (b : QueryBuilder σ α) : Predicate → σ → α × σ
  | .literal value, s => b.literal value s
  | .and parts, s =>
    let (outputs, s) := buildParts b parts s
    b.and outputs s
  | .or parts, s =>
    let (outputs, s) := buildParts b parts s
    b.or outputs s
  | .compare field comparison value, s => b.compare field comparison value s
  | .oneOf field values, s => b.oneOf field values s
  | .related relation filter, s =>
    let (inner, s) := build b filter (b.enter relation s)
    b.leave relation inner s

def buildParts (b : QueryBuilder σ α) : List Predicate → σ → List α × σ
  | [], s => ([], s)
  | p :: rest, s =>
    let (output, s) := build b p s
    let (outputs, s) := buildParts b rest s
    (output :: outputs, s)

end

end Predicate

/-- A call that building a predicate makes.  A connective names the number of
outputs it joins. -/
inductive QueryCall where
  | literal (value : Bool)
  | and (parts : Nat)
  | or (parts : Nat)
  | compare (field : FieldPath) (comparison : Comparison) (value : Json)
  | oneOf (field : FieldPath) (values : List Json)
  | enter (relation : Relation)
  | leave (relation : Relation)

/-- Records the calls in order. -/
def callRecorder : QueryBuilder (List QueryCall) Unit where
  literal value calls := ((), calls ++ [.literal value])
  and parts calls := ((), calls ++ [.and parts.length])
  or parts calls := ((), calls ++ [.or parts.length])
  compare field comparison value calls := ((), calls ++ [.compare field comparison value])
  oneOf field values calls := ((), calls ++ [.oneOf field values])
  enter relation calls := calls ++ [.enter relation]
  leave relation _ calls := ((), calls ++ [.leave relation])

namespace Predicate

/-- The calls that building the predicate makes. -/
def calls (p : Predicate) : List QueryCall := (p.build callRecorder []).2

end Predicate
end AccessPolicy
