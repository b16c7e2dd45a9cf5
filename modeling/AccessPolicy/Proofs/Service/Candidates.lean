/-
Entities put to a specification.

A specification of a request that names no entity can be asked about one entity after
the other.  The check of the request about an entity compiles its own specification,
from the same permissions, and reads the attributes of the entity before it decides.
Both give the same result for every entity that has attributes.
-/
import AccessPolicy.Proofs.Service.Justification

namespace AccessPolicy

/-! ## Requests about an entity -/

namespace Subject

/-- The subject asks about entities of the requested type, and names none of them. -/
def NamesNone (s : Subject) : Prop := s = .entity none ∨ ∃ user, s = .delegate user none

/-- The subject with an entity under check.  Asking by way of a related entity, it has
no place for one. -/
def withEntity (e : Entity) : Subject → Subject
  | .entity _ => .entity (some e)
  | .delegate user _ => .delegate user (some e)
  | .related type identifier => .related type identifier

end Subject

namespace Request

/-- The request with a context, if one is given, in place of its own. -/
def under (r : Request) : Option RequestContext → Request
  | some context => r.withContext context
  | none => r

theorem subject_under (r : Request) (context : Option RequestContext) :
    (r.under context).subject = r.subject := by
  cases context <;> rfl

/-- The request with an entity under check. -/
def withEntity (r : Request) (e : Entity) : Request :=
  { r with subject := r.subject.withEntity e }

end Request

/-! ## Specifications -/

namespace Specification

variable {registry : Registry} {ambient : Ambient} {principal : Principal}

/-- The specification decided on an entity of its type. -/
def onEntity (s : Specification) (attributes : Json) : Specification :=
  { s with target := .entity (some attributes) }

theorem compileEntity_some {type : ResourceType} {e : Entity} {v : Json}
    (he : e.attributes = .ok v) (applicable : List Permission) :
    compileEntity registry principal type (some e) applicable =
      (compileEntity registry principal type none applicable).map fun compiled =>
        (compiled.1, .entity (some v)) := by
  rw [compileEntity, compileEntity, Option.mapM_some, Entity.attributesAs, he]
  cases applicable.mapM fun p => Condition.compileAll registry principal p.conditions type with
  | error e => rfl
  | ok fragments => rfl

theorem compileSubject_withEntity {request : Request} (hsubject : request.subject.NamesNone)
    {e : Entity} {v : Json} (he : e.attributes = .ok v) (applicable : List Permission) :
    compileSubject registry principal (request.withEntity e) applicable =
      (compileSubject registry principal request applicable).map fun compiled =>
        (compiled.1, .entity (some v)) := by
  rw [compileSubject, compileSubject, Request.withEntity]
  obtain h | ⟨user, h⟩ := hsubject
  · rw [h]
    exact compileEntity_some he applicable
  · rw [h]
    exact compileEntity_some he applicable

/-- Naming an entity changes nothing of the specification but what it decides on. -/
theorem compile_withEntity {request : Request} (hsubject : request.subject.NamesNone)
    (hdeny : request.action.isDeny = false) {e : Entity} {v : Json} (he : e.attributes = .ok v)
    (permissions : List Permission) :
    compile registry ambient principal (request.withEntity e) permissions =
      (compile registry ambient principal request permissions).map (·.onEntity v) := by
  have hnamed : (request.withEntity e).action.isDeny = false := hdeny
  rw [compile_eq hdeny, compile_eq hnamed, Outcome.map_bind]
  refine bind_congr fun _ => ?_
  rw [Outcome.map_bind]
  refine bind_congr fun applicable => ?_
  rw [compileSubject_withEntity hsubject he]
  cases compileSubject registry principal request applicable with
  | error e => rfl
  | ok compiled => rfl

/-- A specification decides on the entity of its request as it does when asked about
it. -/
theorem isAuthorized_onEntity (s : Specification) {e : Entity} {v : Json}
    (he : e.attributes = .ok v) :
    (s.onEntity v).isAuthorized registry ambient = s.isAuthorizedFor registry ambient e := by
  rw [isAuthorizedFor, Entity.attributesAs, he]
  rfl

end Specification

/-! ## Checks -/

namespace AuthorizationService

variable {s : AuthorizationService} {ambient : Ambient} {request : Request} {e : Entity} {v : Json}

theorem effectivePrincipal_withEntity (hsubject : request.subject.NamesNone) :
    s.effectivePrincipal ambient (request.withEntity e) =
      s.effectivePrincipal ambient request := by
  rw [effectivePrincipal, effectivePrincipal, Request.withEntity]
  obtain h | ⟨user, h⟩ := hsubject
  · rw [h]
    rfl
  · rw [h]
    rfl

/-- Outside a bypass scope the check of an entity is what the specification answers. -/
theorem specification_withEntity (hsubject : request.subject.NamesNone)
    (he : e.attributes = .ok v) :
    (s.specification ambient (request.withEntity e) >>= fun spec =>
        spec.isAuthorized s.registry ambient) =
      s.specification ambient request >>= fun spec =>
        spec.isAuthorizedFor s.registry ambient e := by
  rw [specification, specification, effectivePrincipal_withEntity hsubject]
  by_cases hdeny : request.action.isDeny = true
  · rw [if_pos hdeny]
    refine (congrArg (· >>= _) (if_pos hdeny)).trans ?_
    show _ = (Specification.denied request.resourceType request.action).isAuthorizedFor
      s.registry ambient e
    rw [← Specification.isAuthorized_onEntity _ he]
    rfl
  · rw [if_neg hdeny]
    refine (congrArg (· >>= _) (if_neg hdeny)).trans ?_
    simp only [bind_assoc]
    refine bind_congr fun principal => bind_congr fun permissions => ?_
    rw [Specification.compile_withEntity hsubject (Bool.eq_false_iff.mpr hdeny) he,
      Outcome.bind_map]
    refine bind_congr fun spec => ?_
    exact Specification.isAuthorized_onEntity spec he

theorem authorizationSpecification_eq (context : Option RequestContext) :
    s.authorizationSpecification ambient request context =
      if ambient.isBypassed then
        .ok (.unrestricted (request.under context).resourceType (request.under context).action)
      else s.specification ambient (request.under context) := by
  cases context <;> rfl

/-- The check of an entity is the request's specification asked about it, in a bypass
scope as well. -/
theorem hasPermission_withEntity (hsubject : request.subject.NamesNone)
    (he : e.attributes = .ok v) (context : Option RequestContext) :
    s.hasPermission ambient ((request.under context).withEntity e) =
      s.authorizationSpecification ambient request context >>= fun spec =>
        spec.isAuthorizedFor s.registry ambient e := by
  rw [authorizationSpecification_eq, hasPermission]
  by_cases hbypass : ambient.isBypassed = true
  · rw [if_pos hbypass, if_pos hbypass]
    show _ = (Specification.unrestricted _ _).isAuthorizedFor s.registry ambient e
    rw [← Specification.isAuthorized_onEntity _ he]
    rfl
  · rw [if_neg hbypass, if_neg hbypass]
    rw [← Request.subject_under request context] at hsubject
    exact specification_withEntity hsubject he

/-- A specification that was obtained without an entity gives for each the result of its
check, an answer or an error, and where there is no specification every check fails as
it did. -/
theorem isAuthorizedFor_eq_hasPermission (hsubject : request.subject.NamesNone)
    (he : e.attributes = .ok v) (context : Option RequestContext) :
    (∀ spec, s.authorizationSpecification ambient request context = .ok spec →
      spec.isAuthorizedFor s.registry ambient e =
        s.hasPermission ambient ((request.under context).withEntity e)) ∧
      ∀ error, s.authorizationSpecification ambient request context = .error error →
        s.hasPermission ambient ((request.under context).withEntity e) = .error error := by
  rw [hasPermission_withEntity hsubject he]
  constructor
  · intro spec hspec
    rw [hspec]
    rfl
  · intro error herror
    rw [herror]
    rfl

/-- A reader asks for the tasks to be seen. -/
def anyTask : Request := { byDocument with subject := .entity none }

/-- The specification grants the reader the task of a document of the north, as the check
of the task does.  Nobody gets a specification without being signed in. -/
theorem isAuthorizedFor_eq_hasPermission_northern :
    anyTask.subject.NamesNone ∧
      (⟨"t0", .ok Specification.Absorption.task⟩ : Entity).attributes =
        .ok Specification.Absorption.task ∧
      (∃ spec, northernReaders.authorizationSpecification reader anyTask none = .ok spec ∧
        spec.isAuthorizedFor northernReaders.registry reader
            ⟨"t0", .ok Specification.Absorption.task⟩ = .ok true ∧
        northernReaders.hasPermission reader
          ((anyTask.under none).withEntity ⟨"t0", .ok Specification.Absorption.task⟩) = .ok true) ∧
      northernReaders.authorizationSpecification .fresh anyTask none = .error .noPrincipal ∧
      northernReaders.hasPermission .fresh
          ((anyTask.under none).withEntity ⟨"t0", .ok Specification.Absorption.task⟩) =
        .error .noPrincipal := by
  have hspec : northernReaders.authorizationSpecification reader anyTask none =
      .ok ⟨WorkflowKind.task.type, .view, Specification.Absorption.northern, true,
        .entity none⟩ := by cbv
  have hgranted : (⟨WorkflowKind.task.type, .view, Specification.Absorption.northern, true,
      .entity none⟩ : Specification).isAuthorizedFor northernReaders.registry reader
        ⟨"t0", .ok Specification.Absorption.task⟩ = .ok true := by cbv
  have hnobody : northernReaders.authorizationSpecification .fresh anyTask none =
      .error .noPrincipal := by cbv
  obtain ⟨hagrees, _⟩ := @isAuthorizedFor_eq_hasPermission northernReaders reader anyTask
    ⟨"t0", .ok Specification.Absorption.task⟩ _ (.inl rfl) rfl none
  obtain ⟨_, hfails⟩ := @isAuthorizedFor_eq_hasPermission northernReaders .fresh anyTask
    ⟨"t0", .ok Specification.Absorption.task⟩ _ (.inl rfl) rfl none
  exact ⟨.inl rfl, rfl, ⟨_, hspec, hgranted, (hagrees _ hspec).symm.trans hgranted⟩, hnobody,
    hfails _ hnobody⟩

end AuthorizationService
end AccessPolicy
