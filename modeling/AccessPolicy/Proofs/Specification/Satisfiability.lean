/-
When a specification is constant.

Whether anything can be allowed is read off the form of the predicate: the false literal
denies, the true literal allows, and neither needs any rows.  The form is exact.  Conditions
do not fold into constants, so the predicate of a request about the entities themselves is
false only where no permission takes part, and true only where one takes part that asks for
nothing.  The answer to a request without entity, which looks at the permissions and not at
the predicate, is therefore the same as the form would give.
-/
import AccessPolicy.Proofs.Condition.Atoms
import AccessPolicy.Proofs.Predicate.Scopes
import AccessPolicy.Proofs.Specification.Policy

namespace AccessPolicy
namespace Specification

section

variable {registry : Registry} {ambient : Ambient} {principal : Principal} {request : Request}
  {permissions : List Permission} {s : Specification}

/-! ## Unions of conditions -/

section

variable {type : ResourceType} {applicable : List Permission} {fragments : List Predicate}
  (hfragments : List.Forall₂
    (fun p q => Condition.compileAll registry principal p.conditions type = .ok q)
    applicable fragments)
include hfragments

theorem fragments_ne_or : ∀ q ∈ fragments, ∀ inner, q ≠ .or inner := by
  intro q hq
  obtain ⟨p, _, hp⟩ := Outcome.exists_of_forall₂ hfragments q hq
  exact Condition.compileAll_ne_or hp

/-- No permission asks for the impossible. -/
theorem any_fragments_eq_never_iff : Predicate.any fragments = .never ↔ applicable = [] := by
  constructor
  · intro h
    have hall := (Predicate.isUnsatisfiable_any (fragments_ne_or hfragments)).mp (by rw [h]; rfl)
    by_contra hne
    obtain ⟨p, hp⟩ := List.exists_mem_of_ne_nil applicable hne
    obtain ⟨q, hq, hcompile⟩ := Outcome.exists_of_forall₂ hfragments.flip p hp
    have hnever := Predicate.eq_never_of_isUnsatisfiable (hall q hq)
    cases ((Condition.compileAll_eq_literal_iff hcompile).mp hnever).2
  · rintro rfl
    cases hfragments
    rfl

theorem any_fragments_eq_always_iff :
    Predicate.any fragments = .always ↔ ∃ p ∈ applicable, p.conditions = [] := by
  rw [Predicate.any_eq_always_iff (fragments_ne_or hfragments)]
  constructor
  · intro hmem
    obtain ⟨p, hp, hcompile⟩ := Outcome.exists_of_forall₂ hfragments _ hmem
    exact ⟨p, hp, ((Condition.compileAll_eq_literal_iff hcompile).mp rfl).1⟩
  · rintro ⟨p, hp, hnil⟩
    obtain ⟨q, hq, hcompile⟩ := Outcome.exists_of_forall₂ hfragments.flip p hp
    have halways : q = .always := (Condition.compileAll_eq_literal_iff hcompile).mpr ⟨hnil, rfl⟩
    exact halways ▸ hq

end

/-! ## Requests about the entities themselves -/

/-- The predicate is the false literal exactly when no permission takes part, and the true
literal exactly when one without conditions does.  A request without entity is allowed
unless the predicate is the false literal. -/
theorem constant_iff_of_compile
    (h : compile registry ambient principal request permissions = .ok s)
    (hdeny : request.action ≠ .deny)
    (hsubject : ∀ type identifier, request.subject ≠ .related type identifier) :
    (s.predicate = .literal false ↔
      ∀ p ∈ permissions, p.resourceType = request.resourceType → p.action = request.action →
        ¬ p.TakesPart registry ambient principal request.context) ∧
    (s.predicate = .literal true ↔
      ∃ p ∈ permissions, p.resourceType = request.resourceType ∧ p.action = request.action ∧
        p.TakesPart registry ambient principal request.context ∧ p.conditions = []) ∧
    (request.subject.entity? = none → ∀ now : Ambient, ∃ decision,
      s.isAuthorized registry now = .ok decision ∧
        (decision = true ↔ s.predicate ≠ .literal false)) := by
  obtain ⟨applicable, hmem, hcompiled, hnonempty⟩ := of_compile_direct h hdeny hsubject
  obtain ⟨fragments, attributes, hfragments, hattributes, hpredicate, htarget⟩ :=
    of_compileEntity hcompiled
  have hnever : s.predicate = .literal false ↔ applicable = [] := by
    rw [hpredicate]
    exact any_fragments_eq_never_iff hfragments
  have halways : s.predicate = .literal true ↔ ∃ p ∈ applicable, p.conditions = [] := by
    rw [hpredicate]
    exact any_fragments_eq_always_iff hfragments
  refine ⟨?_, ?_, fun hentity now => ⟨s.applicable, ?_, ?_⟩⟩
  · rw [hnever, List.eq_nil_iff_forall_not_mem]
    simp only [hmem, not_and]
  · simp only [halways, hmem, and_assoc]
  · rw [hentity] at hattributes
    cases hattributes
    rw [isAuthorized, htarget]
  · rw [hnonempty, ne_eq, hnever, Bool.not_eq_true', List.isEmpty_eq_false_iff]

end

/-! ## A request without the context that is asked for -/

open OwnTasks in
/-- Readers who may view their own tasks in some context only, and readers who may view all
tasks: without a context the first permission takes no part, and the second asks nothing. -/
theorem constant_iff_own_tasks :
    ∃ s, compile Absorption.registry .fresh Absorption.principal
        { request with context := none } [permission, Absorption.grant []] = .ok s ∧
      s.predicate = .literal true ∧
      (∃ p ∈ [permission, Absorption.grant []],
        p.resourceType = request.resourceType ∧ p.action = request.action ∧
        p.TakesPart Absorption.registry .fresh Absorption.principal none ∧ p.conditions = []) ∧
      ∃ decision, s.isAuthorized Absorption.registry .fresh = .ok decision ∧
        (decision = true ↔ s.predicate ≠ .literal false) := by
  have hcompiled : compile Absorption.registry .fresh Absorption.principal
      { request with context := none } [permission, Absorption.grant []] =
        .ok ⟨WorkflowKind.task.type, .view, .always, true, .entity none⟩ := by cbv
  have hsubject : ∀ type identifier, request.subject ≠ .related type identifier := by
    intro type identifier h
    cases h
  obtain ⟨_, halways, hauthorized⟩ := constant_iff_of_compile hcompiled (by decide) hsubject
  exact ⟨_, hcompiled, rfl, halways.mp rfl, hauthorized rfl .fresh⟩

end Specification
end AccessPolicy
