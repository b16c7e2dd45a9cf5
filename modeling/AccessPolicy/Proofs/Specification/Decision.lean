/-
What is decided on an entity.

The predicates that compiling produces are evaluated on rows that were loaded
for them.  The answer is the meaning of the fetched part of the predicate, and
so the meaning of the predicate itself wherever nothing of it is absorbed.
-/
import AccessPolicy.Proofs.Specification.Compiling
import AccessPolicy.Repository
import AccessPolicy.Workflow

namespace AccessPolicy
namespace Specification

section

variable {registry : Registry} {ambient : Ambient}

/-! ## The predicates that compiling produces -/

/-- The predicate of a specification, the one decided on its related row, and the
one that a requirement on the context is compiled to. -/
inductive Produced (registry : Registry) (ambient : Ambient) : Predicate → Prop where
  | whole {principal : Principal} {request : Request} {permissions : List Permission}
      {s : Specification} (h : compile registry ambient principal request permissions = .ok s) :
      Produced registry ambient s.predicate
  | target {principal : Principal} {request : Request} {permissions : List Permission}
      {s : Specification} {type : ResourceType} {field : FieldPath} {identifier : String}
      {predicate : Predicate} (h : compile registry ambient principal request permissions = .ok s)
      (htarget : s.target = .related type field identifier predicate) :
      Produced registry ambient predicate
  | requirement {principal : Principal} {requirement : ContextRequirement} {predicate : Predicate}
      (h : Condition.compileAll registry principal requirement.conditions
        requirement.resourceType = .ok predicate) :
      Produced registry ambient predicate

theorem built_of_compileEntity {principal : Principal} {type : ResourceType}
    {entity : Option Entity} {applicable : List Permission} {predicate : Predicate}
    {target : DecisionTarget}
    (h : compileEntity registry principal type entity applicable = .ok (predicate, target)) :
    predicate.Built registry type ∧ ∃ attributes, target = .entity attributes := by
  obtain ⟨fragments, attributes, hfragments, _, rfl, rfl⟩ := of_compileEntity h
  refine ⟨.any fun q hq => ?_, attributes, rfl⟩
  obtain ⟨p, _, hp⟩ := Outcome.exists_of_forall₂ hfragments q hq
  exact Condition.built_compileAll hp

theorem built_of_compileRelated {principal : Principal} {type related : ResourceType}
    {identifier : String} {applicable : List Permission} {predicate : Predicate}
    {target : DecisionTarget}
    (h : compileRelated registry principal type related identifier applicable =
      .ok (predicate, target)) :
    predicate.Built registry type ∧ ∃ field decided,
      target = .related related field identifier decided ∧ decided.Built registry related := by
  obtain ⟨name, field, relation, fragments, _, _, hrelation, hfragments, rfl, rfl⟩ :=
    of_compileRelated h
  have hunion : (Predicate.any fragments).Built registry related := by
    refine .any fun q hq => ?_
    obtain ⟨p, _, conditions, _, hp⟩ := of_relatedFragments hfragments q hq
    exact Condition.built_compileAll hp
  have hjoined := (Predicate.Built.compare field .equal (.string identifier)).both hunion
  refine ⟨?_, field, _, rfl, hunion⟩
  obtain ⟨rfl, rfl⟩ | ⟨r, rfl, _, hr⟩ := hrelation
  · exact hjoined
  · exact .someRelated hr hjoined

theorem built_of_compileSubject {principal : Principal} {request : Request}
    {applicable : List Permission} {predicate : Predicate} {target : DecisionTarget}
    (h : compileSubject registry principal request applicable = .ok (predicate, target)) :
    predicate.Built registry request.resourceType ∧ ∀ type field identifier decided,
      target = .related type field identifier decided → decided.Built registry type := by
  rw [compileSubject] at h
  cases hsubject : request.subject with
  | entity entity =>
    rw [hsubject] at h
    obtain ⟨hbuilt, _, rfl⟩ := built_of_compileEntity h
    exact ⟨hbuilt, fun _ _ _ _ htarget => by cases htarget⟩
  | delegate user entity =>
    rw [hsubject] at h
    obtain ⟨hbuilt, _, rfl⟩ := built_of_compileEntity h
    exact ⟨hbuilt, fun _ _ _ _ htarget => by cases htarget⟩
  | related type identifier =>
    rw [hsubject] at h
    obtain ⟨hbuilt, _, _, rfl, hdecided⟩ := built_of_compileRelated h
    refine ⟨hbuilt, fun _ _ _ _ htarget => ?_⟩
    cases htarget
    exact hdecided

/-- The predicate of a specification is built for the requested type, and the one that is
decided on a related row for the type of that row. -/
theorem built_of_compile {principal : Principal} {request : Request}
    {permissions : List Permission} {s : Specification}
    (h : compile registry ambient principal request permissions = .ok s) :
    s.predicate.Built registry request.resourceType ∧ ∀ type field identifier decided,
      s.target = .related type field identifier decided → decided.Built registry type := by
  obtain ⟨_, rfl⟩ | ⟨_, applicable, _, hsubject, _⟩ := of_compile h
  · exact ⟨.never, fun _ _ _ _ htarget => by cases htarget⟩
  · exact built_of_compileSubject hsubject

/-- A predicate that a request is compiled to, with the type of the rows it is about: the one
that lists, or the one decided on the related row. -/
inductive CompiledFor (registry : Registry) (ambient : Ambient) :
    ResourceType → Predicate → Prop where
  | whole {principal : Principal} {request : Request} {permissions : List Permission}
      {s : Specification} (h : compile registry ambient principal request permissions = .ok s) :
      CompiledFor registry ambient request.resourceType s.predicate
  | target {principal : Principal} {request : Request} {permissions : List Permission}
      {s : Specification} {type : ResourceType} {field : FieldPath} {identifier : String}
      {predicate : Predicate} (h : compile registry ambient principal request permissions = .ok s)
      (htarget : s.target = .related type field identifier predicate) :
      CompiledFor registry ambient type predicate

theorem CompiledFor.built {type : ResourceType} {p : Predicate}
    (h : CompiledFor registry ambient type p) : p.Built registry type := by
  cases h with
  | whole h => exact (built_of_compile h).1
  | target h htarget => exact (built_of_compile h).2 _ _ _ _ htarget

/-- Every produced predicate is built for the rows of some type. -/
theorem Produced.built {p : Predicate} (h : Produced registry ambient p) :
    ∃ type, p.Built registry type := by
  cases h with
  | whole h => exact ⟨_, (CompiledFor.whole h).built⟩
  | target h htarget => exact ⟨_, (CompiledFor.target h htarget).built⟩
  | requirement h => exact ⟨_, Condition.built_compileAll h⟩

/-- Compiling joins types by relations of the registry alone. -/
theorem Produced.drawnFrom {p : Predicate} (h : Produced registry ambient p) :
    p.DrawnFrom registry := by
  obtain ⟨_, hbuilt⟩ := h.built
  exact hbuilt.drawnFrom

/-! ## Decisions -/

theorem holds_of_load {p : Predicate} {entity : Json} {row : Row} (hp : p.DrawnFrom registry)
    (h : Row.load registry ambient entity p = .ok row) :
    p.holds row = Predicate.satisfies (registry.interpretation ambient) p.fetched entity :=
  Row.holds_of_loadLevels hp hp (Nat.le_refl _) h

/-- A decision on an entity is the meaning of what was fetched for it. -/
theorem of_decideOn {p : Predicate} {entity : Json} {decision : Bool} (hp : p.DrawnFrom registry)
    (h : decideOn registry ambient entity p = .ok decision) :
    decision = Predicate.satisfies (registry.interpretation ambient) p.fetched entity := by
  rw [decideOn] at h
  split at h
  · rename_i hliteral
    cases h
    cases p with
    | literal value => cases value <;> rfl
    | _ => cases hliteral
  · obtain ⟨row, hrow, rfl⟩ := Outcome.map_eq_ok.mp h
    exact holds_of_load hp hrow

/-- Evaluating a produced predicate on the row loaded for it gives its direct
meaning exactly when the part that was fetched shows that meaning, and always
gives it where nothing is absorbed. -/
theorem holds_eq_meaning_iff {p : Predicate} {entity : Json} {row : Row}
    (hp : Produced registry ambient p) (h : Row.load registry ambient entity p = .ok row) :
    (p.holds row = Predicate.satisfies (registry.interpretation ambient) p entity ↔
      (Predicate.satisfies (registry.interpretation ambient) p entity = true →
        Predicate.satisfies (registry.interpretation ambient) p.fetched entity = true)) ∧
    (p.Unabsorbed →
      p.holds row = Predicate.satisfies (registry.interpretation ambient) p entity) := by
  rw [holds_of_load hp.drawnFrom h]
  constructor
  · constructor
    · intro heq hdirect
      rw [heq, hdirect]
    · intro himp
      rw [Bool.eq_iff_iff]
      exact ⟨Predicate.satisfies_of_within _, himp⟩
  · intro hunabsorbed
    rw [Predicate.fetched_eq_self hunabsorbed]

end

/-! ## An absorbed filter -/

namespace Absorption

/-- A task on a document, to which a task of the north belongs too. -/
def task : Json := .object [("document_id", .string "d0"), ("id", .string "t0")]

def northernTask : Json :=
  .object [("case_team", .string "north"), ("document_id", .string "d0"), ("id", .string "t1")]

def document : Json := .object [("id", .string "d0")]

def assignee : FieldPath := ⟨"assignee", [], rfl⟩

def caseTeam : FieldPath := ⟨"case_team", [], rfl⟩

def registry : Registry :=
  (WorkflowKind.registry.withLoader WorkflowKind.task.type (memoryLoader [task, northernTask]))
    |>.withLoader WorkflowKind.document.type (memoryLoader [document])

def principal : Principal := ⟨"user", .empty⟩

def grant (conditions : List Condition) : Permission :=
  ⟨⟨0⟩, ⟨"reader"⟩, WorkflowKind.task.type, .view, conditions, none⟩

def northernDocument : Condition :=
  .container "document" [.container "task" [.field "case_team" (.compare .equal) (.string "north")]]

/-- The user's own tasks that have a document, and all tasks of a document to
which a task of the north belongs. -/
def grants : List Permission :=
  [grant [.field "assignee" (.compare .equal) (.string "user"), .container "document" []],
    grant [northernDocument]]

def request : Request :=
  ⟨WorkflowKind.task.resource, .view, rfl, .entity (some ⟨"t0", .ok task⟩), none⟩

def northern : Predicate :=
  .related WorkflowKind.documentOfTask
    (.related WorkflowKind.tasksOfDocument
      (.compare caseTeam .equal (.string "north")))

def granted : Predicate :=
  .or [.and [.compare assignee .equal (.string "user"),
      .related WorkflowKind.documentOfTask .always],
    northern]

end Absorption

open Absorption in
/-- The second permission alone is decided as it reads. -/
theorem holds_eq_meaning_iff_northern :
    ∃ row, Row.load Absorption.registry .fresh task northern = .ok row ∧
      ((northern.holds row =
          Predicate.satisfies (Absorption.registry.interpretation .fresh) northern task ↔
        (Predicate.satisfies (Absorption.registry.interpretation .fresh) northern task = true →
          Predicate.satisfies (Absorption.registry.interpretation .fresh) northern.fetched task =
            true)) ∧
      (northern.Unabsorbed → northern.holds row =
        Predicate.satisfies (Absorption.registry.interpretation .fresh) northern task)) := by
  let requirement : ContextRequirement := ⟨WorkflowKind.task.type, [northernDocument]⟩
  have hcompiled : Condition.compileAll Absorption.registry principal requirement.conditions
      requirement.resourceType = .ok northern := rfl
  exact ⟨_, rfl, holds_eq_meaning_iff (.requirement hcompiled) rfl⟩

open Absorption in
/-- Beside the first permission it is not: the task has its document, so nothing
below the document is fetched, and the task of the north is not found. -/
theorem holds_ne_meaning_of_absorbed :
    ∃ s row, compile Absorption.registry .fresh principal request grants = .ok s ∧
      Row.load Absorption.registry .fresh task s.predicate = .ok row ∧
      s.predicate.holds row = false ∧
      Predicate.satisfies (Absorption.registry.interpretation .fresh) s.predicate task = true :=
  ⟨⟨WorkflowKind.task.type, .view, granted, true, .entity (some task)⟩, _, rfl, rfl, rfl, rfl⟩

end Specification
end AccessPolicy
