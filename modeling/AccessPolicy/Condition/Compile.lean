/-
Conditions turned into predicates.
-/
import AccessPolicy.Condition
import AccessPolicy.Predicate

namespace AccessPolicy
namespace Condition

mutual

/-- The predicate of a condition on rows of a type, with the placeholders of a
principal filled in.  Equality with a list is membership, and no other
comparison takes one. -/
def compile (registry : Registry) (principal : Principal) :
    Condition → ResourceType → Except ConfigurationError Predicate
  | .field text operator value, type =>
    match FieldPath.parse text with
    | .error e => .error e
    | .ok path =>
      match registry.checkField type path with
      | .error e => .error e
      | .ok _ =>
        match operator with
        | .isIn => .ok (.oneOf path (resolveValues principal value))
        | .compare comparison =>
          match resolveValue principal value with
          | .array values =>
            if comparison = .equal then .ok (.oneOf path values)
            else .error (listRefused path.text)
          | resolved => .ok (.compare path comparison resolved)
  | .container name conditions, type =>
    match registry.resourceType name with
    | .error e => .error e
    | .ok target =>
      match registry.relation type target with
      | .error e => .error e
      | .ok relation =>
        match compileParts registry principal conditions target with
        | .error e => .error e
        | .ok parts => .ok (.someRelated relation (.all parts))

def compileParts (registry : Registry) (principal : Principal) :
    List Condition → ResourceType → Except ConfigurationError (List Predicate)
  | [], _ => .ok []
  | c :: rest, type =>
    match compile registry principal c type with
    | .error e => .error e
    | .ok p =>
      match compileParts registry principal rest type with
      | .error e => .error e
      | .ok ps => .ok (p :: ps)

end

/-- All of the conditions together. -/
def compileAll (registry : Registry) (principal : Principal) (conditions : List Condition)
    (type : ResourceType) : Except ConfigurationError Predicate :=
  (compileParts registry principal conditions type).map .all

end Condition
end AccessPolicy
