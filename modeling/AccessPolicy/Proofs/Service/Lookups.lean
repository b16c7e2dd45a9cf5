/-
Lookups that find the same.

A decision asks a registry for entities by its loaders alone, and always one bypass scope
further in than it is made itself.  Where the loaders have the same answers there, every
step of a decision has the same result, from the rows to the specification.  Of the
principal a step takes no more than the placeholders that the permissions mention.
-/
import AccessPolicy.Proofs.Condition.Placeholders
import AccessPolicy.Proofs.Specification.Terms
import AccessPolicy.Service

namespace AccessPolicy

open Outcome (Alongside)

/-- The registries, each asked in a context of its own, know the same kinds and relations,
and a loader of one answers in a bypass scope as that of the other does. -/
structure Registry.AnswersAlike (registry : Registry) (ambient : Ambient) (registry' : Registry)
    (ambient' : Ambient) : Prop extends registry.DescribesAlike registry' where
  loaders : ∀ type, Alongside
    (fun loader loader' : EntityLoader => ∀ field key,
      loader ambient.bypassing field key = loader' ambient'.bypassing field key)
    (registry.loader type) (registry'.loader type)

namespace Registry.AnswersAlike

variable {registry registry' : Registry} {ambient ambient' : Ambient}
  {principal principal' : Principal} {request : Request}

/-! ## Rows -/

/-- A loader that is looked up and asked. -/
theorem asked_eq (h : registry.AnswersAlike ambient registry' ambient') {β : Type}
    (type : ResourceType) (field : FieldPath) (key : Json)
    (use : List Json → Except AuthorizationError β) :
    (AuthorizationError.liftConfiguration (registry.loader type) >>= fun loader =>
        AuthorizationError.liftStore (loader ambient.bypassing field key) >>= use) =
      AuthorizationError.liftConfiguration (registry'.loader type) >>= fun loader =>
        AuthorizationError.liftStore (loader ambient'.bypassing field key) >>= use :=
  (h.loaders type).mapError.bind_eq fun _ _ hloader => by rw [hloader]

theorem loadLevels_eq (h : registry.AnswersAlike ambient registry' ambient') (levels : Nat) :
    Row.loadLevels registry ambient levels = Row.loadLevels registry' ambient' levels := by
  induction levels with
  | zero => rfl
  | succ levels ih =>
    funext attributes predicate
    rw [Row.loadLevels, Row.loadLevels, ih]
    congr 2
    funext part
    cases Row.joinKey part.1 attributes with
    | none => rfl
    | some key => exact h.asked_eq part.1.target part.1.targetField key _

theorem load_eq (h : registry.AnswersAlike ambient registry' ambient') :
    Row.load registry ambient = Row.load registry' ambient' := by
  funext attributes predicate
  rw [Row.load, Row.load, h.loadLevels_eq]

/-! ## Deciding -/

theorem decideOn_eq (h : registry.AnswersAlike ambient registry' ambient') :
    Specification.decideOn registry ambient = Specification.decideOn registry' ambient' := by
  funext attributes predicate
  rw [Specification.decideOn, Specification.decideOn, h.load_eq]

theorem loadRelated_eq (h : registry.AnswersAlike ambient registry' ambient') :
    Specification.loadRelated registry ambient = Specification.loadRelated registry' ambient' := by
  funext type field identifier
  exact h.asked_eq type field (.string identifier) _

theorem isAuthorized_eq (h : registry.AnswersAlike ambient registry' ambient') :
    Specification.isAuthorized registry ambient =
      Specification.isAuthorized registry' ambient' := by
  funext s
  rw [Specification.isAuthorized, Specification.isAuthorized, h.decideOn_eq, h.loadRelated_eq]

theorem isAuthorizedFor_eq (h : registry.AnswersAlike ambient registry' ambient') :
    Specification.isAuthorizedFor registry ambient =
      Specification.isAuthorizedFor registry' ambient' := by
  funext s entity
  rw [Specification.isAuthorizedFor, Specification.isAuthorizedFor, h.decideOn_eq]

/-! ## Permissions that take part -/

theorem contextAllows_eq (h : registry.AnswersAlike ambient registry' ambient')
    {p : Permission} (hagree : principal.AgreeOn principal' (Permission.mentions · p))
    (context : Option RequestContext) :
    Specification.contextAllows registry ambient principal context p =
      Specification.contextAllows registry' ambient' principal' context p := by
  rw [Specification.contextAllows, Specification.contextAllows]
  cases hrequirement : p.context with
  | none => rfl
  | some requirement =>
    simp only [h.load_eq,
      Condition.compileAll_congr h.toDescribesAlike (hagree.required hrequirement)]

theorem applicablePermissions_eq (h : registry.AnswersAlike ambient registry' ambient')
    {permissions : List Permission}
    (hagree : ∀ p ∈ permissions, principal.AgreeOn principal' (Permission.mentions · p))
    (context : Option RequestContext) :
    Specification.applicablePermissions registry ambient principal context permissions =
      Specification.applicablePermissions registry' ambient' principal' context permissions := by
  induction permissions with
  | nil => rfl
  | cons p rest ih =>
    obtain ⟨hp, hrest⟩ := List.forall_mem_cons.mp hagree
    rw [Specification.applicablePermissions, Specification.applicablePermissions,
      h.contextAllows_eq hp, ih hrest]

end Registry.AnswersAlike

/-! ## Specifications -/

namespace Registry.DescribesAlike

variable {registry registry' : Registry} {principal principal' : Principal}
  {applicable : List Permission} (h : registry.DescribesAlike registry')
  (hagree : ∀ p ∈ applicable, principal.AgreeOn principal' (Permission.mentions · p))
include h

theorem joining_eq : Specification.joining registry = Specification.joining registry' := by
  funext type related
  rw [Specification.joining, Specification.joining, h.ensureRegistered_eq, h.identifierField_eq,
    h.relation_eq]

include hagree

theorem relatedFragments_eq (related : ResourceType) (relation : Option Relation) :
    Specification.relatedFragments registry principal related relation applicable =
      Specification.relatedFragments registry' principal' related relation applicable := by
  rw [Specification.relatedFragments_eq_mapM, Specification.relatedFragments_eq_mapM]
  refine Outcome.mapM_congr fun conditions hconditions => ?_
  obtain ⟨p, hp, hconditions⟩ := List.mem_filterMap.mp hconditions
  refine Condition.compileAll_congr h ((hagree p hp).own.mono fun placeholder hm => ?_) related
  exact Specification.anyMentions_of_conditionsOn hconditions hm

theorem compileEntity_eq (type : ResourceType) (entity : Option Entity) :
    Specification.compileEntity registry principal type entity applicable =
      Specification.compileEntity registry' principal' type entity applicable := by
  rw [Specification.compileEntity, Specification.compileEntity]
  congr 1
  exact Outcome.mapM_congr fun p hp => Condition.compileAll_congr h (hagree p hp).own type

theorem compileSubject_eq (request : Request) :
    Specification.compileSubject registry principal request applicable =
      Specification.compileSubject registry' principal' request applicable := by
  rw [Specification.compileSubject, Specification.compileSubject]
  cases request.subject with
  | entity entity => exact h.compileEntity_eq hagree request.resourceType entity
  | delegate user entity => exact h.compileEntity_eq hagree request.resourceType entity
  | related related identifier =>
    simp only [Specification.compileRelated_eq, h.joining_eq, h.relatedFragments_eq hagree]

end Registry.DescribesAlike

namespace Registry.AnswersAlike

variable {registry registry' : Registry} {ambient ambient' : Ambient}
  {principal principal' : Principal} {request : Request} {permissions : List Permission}

/-- A specification is compiled alike for two principals that agree on what the
permissions for the request mention. -/
theorem compile_eq (h : registry.AnswersAlike ambient registry' ambient')
    (hagree : ∀ p ∈ permissions, p.grants request.resourceType request.action = true →
      principal.AgreeOn principal' (Permission.mentions · p)) :
    Specification.compile registry ambient principal request permissions =
      Specification.compile registry' ambient' principal' request permissions := by
  cases hdeny : request.action.isDeny with
  | true => rw [Specification.compile, Specification.compile, if_pos hdeny, if_pos hdeny]
  | false =>
    have hgranting : ∀ p ∈ permissions.filter fun p =>
        p.grants request.resourceType request.action,
        principal.AgreeOn principal' (Permission.mentions · p) := by
      intro p hp
      obtain ⟨hmem, hgrants⟩ := List.mem_filter.mp hp
      exact hagree p hmem hgrants
    rw [Specification.compile_eq hdeny, Specification.compile_eq hdeny, h.ensureRegistered_eq,
      h.applicablePermissions_eq hgranting]
    refine bind_congr fun _ => ?_
    -- What takes part is known only after the contexts were checked.
    cases happlicable : Specification.applicablePermissions registry' ambient' principal'
        request.context _ with
    | error e => rfl
    | ok applicable =>
      have htaking : ∀ p ∈ applicable, principal.AgreeOn principal' (Permission.mentions · p) :=
        fun p hp => hgranting p (Specification.of_applicablePermissions happlicable p hp).1
      show Except.map _ _ = Except.map _ _
      rw [h.compileSubject_eq htaking]

end Registry.AnswersAlike

/-! ## Checks -/

namespace AuthorizationService

section

variable {s t : AuthorizationService}

theorem permissionsOfAll_of_roles (hroles : s.roles = t.roles) :
    s.permissionsOfAll = t.permissionsOfAll := by
  funext type action candidates
  induction candidates with
  | nil => rfl
  | cons role rest ih =>
    rw [permissionsOfAll, permissionsOfAll, ih, permissionsOf, permissionsOf, hroles]

theorem resolvePermissions_of_roles (hroles : s.roles = t.roles) :
    s.resolvePermissions = t.resolvePermissions := by
  funext principal type action
  rw [resolvePermissions, resolvePermissions, permissionsOfAll_of_roles hroles, hroles]

end

variable {s : AuthorizationService} {ambient : Ambient}

/-- A check does not tell registries apart that answer alike where it looks rows up. -/
theorem hasPermission_withRegistry {registry' : Registry}
    (h : s.registry.AnswersAlike ambient registry' ambient) (request : Request) :
    { s with registry := registry' }.hasPermission ambient request =
      s.hasPermission ambient request := by
  have hresolved : { s with registry := registry' }.resolvePermissions = s.resolvePermissions :=
    resolvePermissions_of_roles rfl
  have hspecification : { s with registry := registry' }.specification ambient request =
      s.specification ambient request := by
    rw [specification, specification, hresolved]
    congr 1
    refine bind_congr fun principal => bind_congr fun permissions => ?_
    exact (h.compile_eq fun p _ _ => .refl principal (Permission.mentions · p)).symm
  rw [hasPermission, hasPermission, hspecification]
  dsimp only
  rw [h.isAuthorized_eq]

end AuthorizationService

/-! ## Loaders that work in one context alone -/

namespace Registry

/-- The registry with loaders that report an error unless they are asked in this very
context. -/
def answeringOnlyIn (registry : Registry) (context : Ambient) (e : StoreError) : Registry :=
  { registry with
    loaders := registry.loaders.map fun entry =>
      (entry.1, fun a field key => if a = context then entry.2 a field key else .error e) }

/-- All rows are looked up in the context of one bypass scope more. -/
theorem answersAlike_answeringOnlyIn (registry : Registry) (ambient : Ambient) (e : StoreError) :
    registry.AnswersAlike ambient (registry.answeringOnlyIn ambient.bypassing e) ambient := by
  refine ⟨⟨rfl, rfl⟩, fun type => ?_⟩
  rw [loader, loader, answeringOnlyIn, List.find?_map]
  simp only [Function.comp_def]
  cases registry.loaders.find? fun entry => entry.1 == type with
  | none => exact .error _
  | some entry => exact .ok fun field key => (if_pos rfl).symm

end Registry

namespace AuthorizationService

/-- The service with loaders that work in this one context. -/
def lookingUpOnlyIn (s : AuthorizationService) (context : Ambient) (e : StoreError) :
    AuthorizationService :=
  { s with registry := s.registry.answeringOnlyIn context e }

/-- A check asks the loaders in the context of one bypass scope more, and in no other. -/
theorem hasPermission_lookingUpOnlyIn (s : AuthorizationService) (ambient : Ambient)
    (e : StoreError) (request : Request) :
    (s.lookingUpOnlyIn ambient.bypassing e).hasPermission ambient request =
      s.hasPermission ambient request :=
  hasPermission_withRegistry (s.registry.answersAlike_answeringOnlyIn ambient e) request

end AuthorizationService
end AccessPolicy
