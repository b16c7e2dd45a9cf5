/-
The policy behind a predicate.

A specification of an entity request has a single predicate.  On every row it says
what the permissions say: one of those that grant the action takes part in the
request, and all of its conditions hold on the row.
-/
import AccessPolicy.Proofs.Specification.Decision
import Mathlib

namespace AccessPolicy

namespace Permission

/-- The permission requires no context, or the request carries an entity of the
very type it requires and the conditions on it hold on the row that is loaded for
them. -/
def TakesPart (registry : Registry) (ambient : Ambient) (principal : Principal)
    (context : Option RequestContext) (p : Permission) : Prop :=
  ∀ requirement, p.context = some requirement →
    ∃ c predicate row, context = some c ∧ c.resourceType = requirement.resourceType ∧
      Condition.compileAll registry principal requirement.conditions requirement.resourceType =
        .ok predicate ∧
      Row.load registry ambient c.attributes predicate = .ok row ∧
      ∀ condition ∈ requirement.conditions,
        condition.holdsOnRow registry principal requirement.resourceType row = true

end Permission

namespace Specification

section

variable {registry : Registry} {ambient : Ambient} {principal : Principal}

theorem contextAllows_eq_true_iff {context : Option RequestContext} {p : Permission} :
    contextAllows registry ambient principal context p = .ok true ↔
      p.TakesPart registry ambient principal context := by
  cases hrequirement : p.context with
  | none => simp [contextAllows, Permission.TakesPart, hrequirement]
  | some requirement =>
    simp only [contextAllows, Permission.TakesPart, hrequirement, Option.some.injEq, forall_eq']
    constructor
    · intro h
      split at h
      · cases h
      · rename_i c hc
        obtain ⟨hc, htype⟩ := Option.filter_eq_some_iff.mp hc
        obtain ⟨predicate, hcompile, h⟩ := Outcome.bind_eq_ok.mp h
        obtain ⟨row, hrow, h⟩ := Outcome.bind_eq_ok.mp h
        have hcompile := Outcome.mapError_eq_ok.mp hcompile
        have hholds : predicate.holds row = true := Except.ok.inj h
        rw [Condition.holds_compileAll hcompile, List.all_eq_true] at hholds
        exact ⟨c, predicate, row, hc, of_decide_eq_true htype, hcompile, hrow, hholds⟩
    · rintro ⟨c, predicate, row, rfl, htype, hcompile, hrow, hholds⟩
      have hkept : (some c).filter (fun c => c.resourceType = requirement.resourceType) = some c :=
        Option.filter_eq_some_iff.mpr ⟨rfl, decide_eq_true htype⟩
      have htrue : predicate.holds row = true := by
        rw [Condition.holds_compileAll hcompile, List.all_eq_true]
        exact hholds
      rw [hkept]
      refine Outcome.bind_eq_ok.mpr ⟨predicate, Outcome.mapError_eq_ok.mpr hcompile, ?_⟩
      exact Outcome.bind_eq_ok.mpr ⟨row, hrow, congrArg Except.ok htrue⟩

/-- The union of the permissions' conditions holds on the rows on which the
conditions of one permission hold. -/
theorem holds_of_compileEntity {type : ResourceType} {entity : Option Entity}
    {applicable : List Permission} {predicate : Predicate} {target : DecisionTarget}
    (h : compileEntity registry principal type entity applicable = .ok (predicate, target))
    (row : Row) :
    predicate.holds row = applicable.any fun p =>
      p.conditions.all fun c => c.holdsOnRow registry principal type row := by
  obtain ⟨fragments, _, hfragments, _, rfl, _⟩ := of_compileEntity h
  rw [Predicate.holds_eq_satisfies, Predicate.satisfies_any]
  refine Outcome.any_forall₂ (fun p q hq => ?_) hfragments
  rw [← Predicate.holds_eq_satisfies]
  exact Condition.holds_compileAll hq

/-- A request about the entities themselves is compiled from the permissions that grant
the action and take part. -/
theorem of_compile_direct {request : Request} {permissions : List Permission} {s : Specification}
    (h : compile registry ambient principal request permissions = .ok s)
    (hdeny : request.action ≠ .deny)
    (hsubject : ∀ type identifier, request.subject ≠ .related type identifier) :
    ∃ applicable,
      (∀ p, p ∈ applicable ↔ p ∈ permissions ∧ p.resourceType = request.resourceType ∧
        p.action = request.action ∧ p.TakesPart registry ambient principal request.context) ∧
      compileEntity registry principal request.resourceType request.subject.entity? applicable =
        .ok (s.predicate, s.target) ∧
      s.applicable = !applicable.isEmpty := by
  obtain ⟨hdenied, _⟩ | ⟨_, applicable, happlicable, hcompiled, hnonempty⟩ := of_compile h
  · exact absurd (of_decide_eq_true hdenied) hdeny
  rw [compileSubject_eq_compileEntity hsubject] at hcompiled
  refine ⟨applicable, fun p => ?_, hcompiled, hnonempty⟩
  rw [mem_applicablePermissions happlicable, contextAllows_eq_true_iff, List.mem_filter,
    Permission.grants_eq_true_iff, and_assoc, and_assoc]

/-- On every row the predicate of an entity request says what the permissions
say. -/
theorem holds_iff_permitted {request : Request} {permissions : List Permission} {s : Specification}
    (h : compile registry ambient principal request permissions = .ok s)
    (hdeny : request.action ≠ .deny)
    (hsubject : ∀ type identifier, request.subject ≠ .related type identifier) (row : Row) :
    s.predicate.holds row = true ↔
      ∃ p ∈ permissions, p.resourceType = request.resourceType ∧ p.action = request.action ∧
        p.TakesPart registry ambient principal request.context ∧
        ∀ c ∈ p.conditions,
          c.holdsOnRow registry principal request.resourceType row = true := by
  obtain ⟨applicable, hmem, hcompiled, _⟩ := of_compile_direct h hdeny hsubject
  rw [holds_of_compileEntity hcompiled, List.any_eq_true]
  constructor
  · rintro ⟨p, hp, hholds⟩
    obtain ⟨hp, htype, haction, htakes⟩ := (hmem p).mp hp
    exact ⟨p, hp, htype, haction, htakes, List.all_eq_true.mp hholds⟩
  · rintro ⟨p, hp, htype, haction, htakes, hholds⟩
    exact ⟨p, (hmem p).mpr ⟨hp, htype, haction, htakes⟩, List.all_eq_true.mpr hholds⟩

end

/-! ## A case and its document -/

namespace OwnTasks

open WorkflowKind (task document documentOfTask)

/-- A member of the north whose roles are named for teams. -/
def member : Principal := ⟨"user", .ofList [⟨"north"⟩, ⟨"reader"⟩]⟩

/-- Readers view those of their own tasks on a document that belong to a team of theirs
or to the south, in the context of a document that has a task of the north without an
assignee. -/
def permission : Permission :=
  { id := ⟨1⟩
    role := ⟨"reader"⟩
    resourceType := task.type
    action := .view
    conditions := [
      .field "assignee" (.compare .equal) (.string "$\x7bcurrentUserIdentifier\x7d"),
      .field "case_team" .isIn (.array [.string "$\x7bcurrentUserRoles\x7d", .string "south"]),
      .container "document" [.field "id" .isIn (.array [.string "d0", .string "d1"])]]
    context := some ⟨document.type, [.container "task"
      [.field "case_team" (.compare .equal) (.string "north"),
        .field "assignee" (.compare .equal) (.string "$\x7bnull\x7d")]]⟩ }

def request : Request :=
  { Absorption.request with
    subject := .delegate "user" none
    context := some ⟨document.type, Absorption.document⟩ }

/-- A task of the user and the north with its document. -/
def row : Row :=
  .mk (.object [("assignee", .string "user"), ("case_team", .string "north")])
    [(documentOfTask.key, [.ofAttributes Absorption.document])]

def specification : Specification where
  resourceType := task.type
  action := .view
  predicate := .and [.compare Absorption.assignee .equal (.string "user"),
    .oneOf Absorption.caseTeam [.string "north", .string "reader", .string "south"],
    .related documentOfTask (.oneOf documentOfTask.targetField [.string "d0", .string "d1"])]
  applicable := true
  target := .entity none

end OwnTasks

open OwnTasks in
theorem holds_iff_permitted_own_tasks :
    compile Absorption.registry .fresh member request [permission] = .ok specification ∧
      request.action ≠ .deny ∧
      (∀ type identifier, request.subject ≠ .related type identifier) ∧
      specification.predicate.holds row = true ∧
      (specification.predicate.holds row = true ↔
        ∃ p ∈ [permission], p.resourceType = request.resourceType ∧ p.action = request.action ∧
          p.TakesPart Absorption.registry .fresh member request.context ∧
          ∀ c ∈ p.conditions, c.holdsOnRow Absorption.registry member
            request.resourceType row = true) := by
  have hcompiled : compile Absorption.registry .fresh member request [permission] =
      .ok specification := by cbv
  have hdeny : request.action ≠ .deny := by decide
  have hsubject : ∀ type identifier, request.subject ≠ .related type identifier := by
    intro type identifier h
    cases h
  have hholds : specification.predicate.holds row = true := by cbv
  exact ⟨hcompiled, hdeny, hsubject, hholds, holds_iff_permitted hcompiled hdeny hsubject row⟩

end Specification
end AccessPolicy
