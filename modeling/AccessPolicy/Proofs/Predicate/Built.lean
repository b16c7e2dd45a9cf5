/-
Predicates built up by folding.

Compiling makes predicates in one way only: from comparisons and membership
tests on the rows of a type, put together by the folding constructors, with the
relations that the registry has from type to type.  What is known about the form
of compiled predicates is known of everything built in that way.
-/
import AccessPolicy.Proofs.Predicate.Subqueries

namespace AccessPolicy
namespace Predicate

/-- The predicate is about rows of a type and is built of leaves, folded connectives
and the relations that the registry has from that type on. -/
inductive Built (registry : Registry) : ResourceType → Predicate → Prop where
  | compare {type : ResourceType} (field : FieldPath) (comparison : Comparison) (value : Json) :
      Built registry type (.compare field comparison value)
  | oneOf {type : ResourceType} (field : FieldPath) (values : List Json) :
      Built registry type (.oneOf field values)
  | all {type : ResourceType} {parts : List Predicate} (h : ∀ p ∈ parts, Built registry type p) :
      Built registry type (.all parts)
  | any {type : ResourceType} {parts : List Predicate} (h : ∀ p ∈ parts, Built registry type p) :
      Built registry type (.any parts)
  | someRelated {type target : ResourceType} {relation : Relation} {filter : Predicate}
      (hrelation : registry.relation type target = .ok relation)
      (h : Built registry target filter) : Built registry type (.someRelated relation filter)

variable {registry : Registry} {type : ResourceType} {p : Predicate}

theorem Built.never : never.Built registry type :=
  .any (List.forall_mem_nil _)

theorem Built.both {q : Predicate} (hp : p.Built registry type) (hq : q.Built registry type) :
    (p.both q).Built registry type :=
  .all (List.forall_mem_cons.mpr ⟨hp, List.forall_mem_singleton.mpr hq⟩)

theorem Built.drawnFrom (h : p.Built registry type) : p.DrawnFrom registry := by
  induction h with
  | compare field comparison value => trivial
  | oneOf field values => trivial
  | all _ ih => exact relationsIn_all ih
  | any _ ih => exact relationsIn_any ih
  | someRelated hrelation _ ih =>
    exact relationsIn_someRelated (Registry.registers_of_relation hrelation) ih

/-- Every relation leads on from the type of the rows on which it stands. -/
theorem Built.along (h : p.Built registry type) :
    Along (fun _ _ _ => True)
      (fun source relation target => relation.source = source ∧ relation.target = target) type p := by
  induction h with
  | compare field comparison value => trivial
  | oneOf field values => trivial
  | all _ ih => exact all_of_forall (fun _ => trivial) (fun _ => along_and) ih
  | any _ ih => exact any_of_forall (fun _ => trivial) (fun _ => along_or) ih
  | someRelated hrelation _ ih =>
    have hkey := Registry.key_of_relation hrelation
    simp only [Relation.key, RelationKey.mk.injEq] at hkey
    exact someRelated_of (fun _ => trivial) ⟨_, hkey, ih⟩

end Predicate
end AccessPolicy
