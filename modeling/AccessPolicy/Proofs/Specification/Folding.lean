/-
What folding keeps.

Compiling puts predicates together by constructors that fold constants and open
up nested connectives, and callers read from the shape of the result whether any
row can satisfy it.  Folding changes neither what a predicate says of a row nor,
once there is nothing to fold, that there is nothing to fold.
-/
import AccessPolicy.Proofs.Predicate.Normal
import AccessPolicy.Proofs.Specification.Policy

namespace AccessPolicy
namespace Specification

theorem holds_and_iff (s : Specification) (filter : Predicate) (row : Row) :
    (s.and filter).holds row = true ↔
      s.predicate.holds row = true ∧ filter.holds row = true := by
  rw [Specification.and, Predicate.holds_both, Bool.and_eq_true]

/-- Folding keeps the meaning on every row and the normal form at every depth.  Whatever
compiling produces is therefore in normal form, and a constant in it is the whole of it or
asks, below a relation, for any row. -/
theorem folding_keeps_meaning_and_form :
    (∀ (parts : List Predicate) (row : Row),
      (Predicate.all parts).holds row = parts.all (fun p => p.holds row) ∧
      (Predicate.any parts).holds row = parts.any fun p => p.holds row) ∧
    (∀ (relation : Relation) (filter : Predicate) (row : Row),
      (Predicate.someRelated relation filter).holds row =
        (row.joined relation.key).any filter.holds) ∧
    (∀ (s : Specification) (filter : Predicate) (row : Row),
      (s.and filter).holds row = true ↔
        s.predicate.holds row = true ∧ filter.holds row = true) ∧
    (∀ parts : List Predicate, (∀ p ∈ parts, p.Normal) →
      (Predicate.all parts).Normal ∧ (Predicate.any parts).Normal) ∧
    (∀ (relation : Relation) (filter : Predicate), filter.Normal →
      (Predicate.someRelated relation filter).Normal) ∧
    ∀ (registry : Registry) (ambient : Ambient) (p : Predicate), Produced registry ambient p →
      p.Normal ∧ ∀ (q : Predicate) (value : Bool), q.OccursIn p → .literal value ∈ q.children →
        value = true ∧ ∃ relation, q = .related relation .always := by
  refine ⟨fun parts row => ⟨Predicate.holds_all parts row, Predicate.holds_any parts row⟩,
    Predicate.holds_someRelated, holds_and_iff,
    fun parts h => ⟨Predicate.normal_all h, Predicate.normal_any h⟩,
    fun relation filter h => Predicate.normal_someRelated relation h, ?_⟩
  intro registry ambient p h
  obtain ⟨type, hbuilt⟩ := h.built
  exact ⟨hbuilt.normal, fun q value hq hvalue => hbuilt.normal.of_literal_mem hq hvalue⟩

open Absorption in
/-- The user's own tasks that have a document, and all tasks of a document to which a task
of the north belongs: the predicate is in normal form with the constant filter in it, and
stays so when it is joined with another. -/
theorem folding_keeps_meaning_and_form_granted :
    Produced Absorption.registry .fresh granted ∧ granted.Normal ∧
      (Predicate.all [granted, northern]).Normal ∧ (Predicate.any [granted, northern]).Normal ∧
      (Predicate.someRelated WorkflowKind.tasksOfDocument granted).Normal ∧
      ∃ q : Predicate, q.OccursIn granted ∧ Predicate.literal true ∈ q.children ∧
        ∃ relation, q = .related relation .always := by
  obtain ⟨_, _, _, hconnectives, hrelated, hproduced⟩ := folding_keeps_meaning_and_form
  have hcompiled : compile Absorption.registry .fresh principal request grants =
      .ok ⟨WorkflowKind.task.type, .view, granted, true, .entity (some task)⟩ := rfl
  have hwhole : Produced Absorption.registry .fresh granted := .whole hcompiled
  have hgranted := hproduced Absorption.registry .fresh granted hwhole
  have hnorthern : northern.Normal :=
    (Predicate.normal_iff.mp hgranted.1).2 northern (List.mem_cons_of_mem _ List.mem_cons_self)
  have hboth : ∀ p ∈ [granted, northern], p.Normal :=
    List.forall_mem_cons.mpr ⟨hgranted.1, List.forall_mem_singleton.mpr hnorthern⟩
  have hconstant : (Predicate.related WorkflowKind.documentOfTask .always).OccursIn granted :=
    .part List.mem_cons_self (.part (List.mem_cons_of_mem _ List.mem_cons_self) .whole)
  exact ⟨hwhole, hgranted.1, (hconnectives _ hboth).1, (hconnectives _ hboth).2,
    hrelated _ _ hgranted.1, _, hconstant, List.mem_cons_self,
    (hgranted.2 _ true hconstant List.mem_cons_self).2⟩

end Specification
end AccessPolicy
