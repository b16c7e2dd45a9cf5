/-
Requests on behalf of another user.

A delegate request is decided for the user that it names, with the roles stored for
that user.  Whoever asks, the answers are those that the user gets, since nothing
about the caller enters the decision once it is known on whose behalf it is made.
-/
import AccessPolicy.Database.Entities
import AccessPolicy.Proofs.Ambient.Programs
import AccessPolicy.Proofs.Service.Justification
import AccessPolicy.Proofs.Service.Lookups

namespace AccessPolicy

/-! ## Contexts in which the same entities are found -/

/-- The loaders of the registry answer to a field and a value alike in both contexts,
whoever is signed in. -/
def Registry.FindsAlike (registry : Registry) (ambient ambient' : Ambient) : Prop :=
  ∀ type loader, registry.loader type = .ok loader → ∀ field key,
    loader ambient.bypassing field key = loader ambient'.bypassing field key

section

variable {registry : Registry} {ambient ambient' : Ambient}

theorem Registry.findsAlike_of_loaders
    (h : ∀ entry ∈ registry.loaders, ∀ a a' field key, entry.2 a field key = entry.2 a' field key) :
    registry.FindsAlike ambient ambient' := by
  intro type loader hloader
  rw [Registry.loader] at hloader
  split at hloader
  · rename_i entry hentry
    cases hloader
    exact h entry (List.mem_of_find?_eq_some hentry) _ _
  · cases hloader

/-- The loaders over a store find the same entities whoever is signed in. -/
theorem Database.findsAlike_registry (db : Database) : db.registry.FindsAlike ambient ambient' := by
  refine Registry.findsAlike_of_loaders fun entry hentry => ?_
  have hloader : ∃ k : WorkflowKind, entry.2 = db.loader k.type := by
    change entry ∈ WorkflowKind.all.reverse.map fun k => (k.type, db.loader k.type) at hentry
    obtain ⟨k, _, rfl⟩ := List.mem_map.mp hentry
    exact ⟨k, rfl⟩
  obtain ⟨k, hk⟩ := hloader
  intro a a' field key
  rw [hk]
  rfl

theorem Registry.FindsAlike.answersAlike (h : registry.FindsAlike ambient ambient') :
    registry.AnswersAlike ambient registry ambient' := by
  refine ⟨.refl registry, fun type => ?_⟩
  cases hloader : registry.loader type with
  | error e => exact .error e
  | ok loader => exact .ok (h type loader hloader)

namespace Specification

theorem isAuthorized_congr (h : registry.FindsAlike ambient ambient') :
    isAuthorized registry ambient = isAuthorized registry ambient' :=
  h.answersAlike.isAuthorized_eq

theorem isAuthorizedFor_congr (h : registry.FindsAlike ambient ambient') :
    isAuthorizedFor registry ambient = isAuthorizedFor registry ambient' :=
  h.answersAlike.isAuthorizedFor_eq

theorem compile_congr (h : registry.FindsAlike ambient ambient') :
    compile registry ambient = compile registry ambient' := by
  funext principal request permissions
  exact h.answersAlike.compile_eq fun p _ _ => .refl principal (Permission.mentions · p)

end Specification

end

/-! ## The same request for another user -/

/-- The request about the same entity on behalf of a user. -/
def Request.onBehalfOf (request : Request) (user : String) : Request :=
  { request with subject := .delegate user request.subject.entity? }

namespace AuthorizationService

section

variable {s : AuthorizationService} {source : PrincipalSource} {ambient direct : Ambient}
  {request : Request} {user : String} {entity : Option Entity} {roles : RoleSet}

theorem compile_onBehalfOf (hsubject : request.subject = .entity entity) (registry : Registry)
    (ambient : Ambient) (principal : Principal) (permissions : List Permission) :
    Specification.compile registry ambient principal (request.onBehalfOf user) permissions =
      Specification.compile registry ambient principal request permissions := by
  rw [Specification.compile, Specification.compile, Request.onBehalfOf, hsubject]
  rfl

theorem effectivePrincipal_onBehalfOf (hroles : s.roles.rolesOfUser user = .ok roles) :
    s.effectivePrincipal ambient (request.onBehalfOf user) = .ok ⟨user, roles⟩ := by
  rw [effectivePrincipal, Request.onBehalfOf]
  simp only [hroles]
  rfl

theorem effectivePrincipal_of_current (hsubject : request.subject = .entity entity)
    (hcurrent : s.principals.current direct = some ⟨user, roles⟩) :
    s.effectivePrincipal direct request = .ok ⟨user, roles⟩ := by
  rw [effectivePrincipal, hsubject]
  simp only [hcurrent]

/-- On behalf of a user and for that user the same specification is compiled. -/
theorem specification_onBehalfOf (hsubject : request.subject = .entity entity)
    (hroles : s.roles.rolesOfUser user = .ok roles)
    (hcurrent : source.current direct = some ⟨user, roles⟩)
    (hfinds : s.registry.FindsAlike ambient direct) :
    s.specification ambient (request.onBehalfOf user) =
      { s with principals := source }.specification direct request := by
  rw [specification, specification]
  by_cases hdeny : request.action.isDeny = true
  · rw [if_pos hdeny]
    exact if_pos hdeny
  · rw [if_neg hdeny, effectivePrincipal_of_current hsubject hcurrent]
    refine (if_neg hdeny).trans ?_
    have hresolved : { s with principals := source }.resolvePermissions = s.resolvePermissions :=
      resolvePermissions_of_roles rfl
    rw [effectivePrincipal_onBehalfOf hroles, hresolved]
    simp only [Specification.compile_congr hfinds, compile_onBehalfOf hsubject]
    rfl

theorem authorizingRoles_onBehalfOf (source : PrincipalSource)
    (hsubject : request.subject = .entity entity)
    (hfinds : s.registry.FindsAlike ambient direct) (principal : Principal)
    (candidates : List Role) :
    s.authorizingRoles ambient principal (request.onBehalfOf user) candidates =
      { s with principals := source }.authorizingRoles direct principal request candidates := by
  induction candidates with
  | nil => rfl
  | cons role rest ih =>
    rw [authorizingRoles, authorizingRoles, ih, roleAuthorizes, roleAuthorizes]
    simp only [Specification.compile_congr hfinds, compile_onBehalfOf hsubject,
      Specification.isAuthorized_congr hfinds]
    rfl

/-- A request on behalf of a user has the results, errors included, that the request
for the same entity has when that user is the current principal: whether it is
granted, what a refusal reports, the specification and what that decides, and the
authorized roles.  It does not matter who asks.  A program of such requests leaves the
caller's context as it was. -/
theorem onBehalfOf_eq_direct (hsubject : request.subject = .entity entity)
    (hroles : s.roles.rolesOfUser user = .ok roles)
    (hcurrent : source.current direct = some ⟨user, roles⟩)
    (hbypass : ambient.isBypassed = false) (hbypass' : direct.isBypassed = false)
    (hfinds : s.registry.FindsAlike ambient direct) :
    let d : AuthorizationService := { s with principals := source }
    s.hasPermission ambient (request.onBehalfOf user) = d.hasPermission direct request ∧
      s.requirePermission ambient (request.onBehalfOf user) =
        d.requirePermission direct request ∧
      (∀ context, s.authorizationSpecification ambient (request.onBehalfOf user) context =
        d.authorizationSpecification direct request context) ∧
      (∀ spec : Specification,
        spec.isAuthorized s.registry ambient = spec.isAuthorized d.registry direct ∧
        ∀ e, spec.isAuthorizedFor s.registry ambient e =
          spec.isAuthorizedFor d.registry direct e) ∧
      s.authorizedRoles ambient (request.onBehalfOf user) = d.authorizedRoles direct request ∧
      ((Ambient.Program.require (request.onBehalfOf user)).run s ambient).result =
        d.requirePermission direct request ∧
      ∀ p : Ambient.Program, (p.run s ambient).after = ambient := by
  intro d
  have hpermission : s.hasPermission ambient (request.onBehalfOf user) =
      d.hasPermission direct request := by
    rw [hasPermission, hasPermission, if_neg (Bool.eq_false_iff.mp hbypass),
      if_neg (Bool.eq_false_iff.mp hbypass'),
      specification_onBehalfOf hsubject hroles hcurrent hfinds,
      Specification.isAuthorized_congr hfinds]
  have hrequired : s.requirePermission ambient (request.onBehalfOf user) =
      d.requirePermission direct request := by
    rw [requirePermission, requirePermission, hpermission, Request.onBehalfOf, hsubject]
    rfl
  refine ⟨hpermission, hrequired, fun context => ?_, fun spec => ⟨?_, fun e => ?_⟩, ?_,
    (Ambient.Program.result_require s _ ambient).trans hrequired,
    fun p => p.after_run s ambient⟩
  · have hspecification : ∀ r : Request, r.subject = .entity entity →
        (if ambient.isBypassed then .ok (.unrestricted r.resourceType r.action)
          else s.specification ambient (r.onBehalfOf user)) =
        (if direct.isBypassed then .ok (.unrestricted r.resourceType r.action)
          else d.specification direct r) := by
      intro r hr
      rw [if_neg (Bool.eq_false_iff.mp hbypass), if_neg (Bool.eq_false_iff.mp hbypass')]
      exact specification_onBehalfOf hr hroles hcurrent hfinds
    cases context with
    | none => exact hspecification request hsubject
    | some c => exact hspecification (request.withContext c) hsubject
  · rw [Specification.isAuthorized_congr hfinds]
  · rw [Specification.isAuthorizedFor_congr hfinds]
  · rw [authorizedRoles, authorizedRoles, discoveringPrincipal, discoveringPrincipal,
      effectivePrincipal_onBehalfOf hroles, effectivePrincipal_of_current hsubject hcurrent]
    simp only [authorizingRoles_onBehalfOf source hsubject hfinds]
    rfl

end

/-- The readers of the north, one of whom the service finds by name. -/
def delegatingReaders : AuthorizationService :=
  { northernReaders with
    roles := ((MemoryRepository.empty.grant
      (Specification.Absorption.grant [Specification.Absorption.northernDocument])).assign "user"
        ⟨"reader"⟩).repository }

/-- A caller without roles asks for the reader. -/
def caller : Ambient := Ambient.fresh.actingAs ⟨"caller", .empty⟩

open Specification.Absorption in
theorem findsAlike_absorption (ambient ambient' : Ambient) :
    Specification.Absorption.registry.FindsAlike ambient ambient' := by
  refine Registry.findsAlike_of_loaders fun entry hentry a a' field key => ?_
  change entry ∈ [(WorkflowKind.document.type, memoryLoader [document]),
    (WorkflowKind.task.type, memoryLoader [task, northernTask])] at hentry
  rcases List.mem_cons.mp hentry with rfl | hentry
  · rfl
  · obtain rfl := List.mem_singleton.mp hentry
    rfl

open Specification.Absorption in
theorem onBehalfOf_eq_direct_reader :
    request.subject = .entity (some ⟨"t0", .ok task⟩) ∧
      delegatingReaders.roles.rolesOfUser "user" = .ok (.ofList [⟨"reader"⟩]) ∧
      PrincipalSource.ambient.current reader = some ⟨"user", .ofList [⟨"reader"⟩]⟩ ∧
      caller.isBypassed = false ∧ reader.isBypassed = false ∧
      delegatingReaders.registry.FindsAlike caller reader ∧
      delegatingReaders.hasPermission caller (request.onBehalfOf "user") =
        delegatingReaders.hasPermission reader request ∧
      delegatingReaders.hasPermission reader request = .ok true ∧
      ((Ambient.Program.require (request.onBehalfOf "user")).run delegatingReaders caller).result =
        .ok () ∧
      ((Ambient.Program.require (request.onBehalfOf "user")).run delegatingReaders caller).after =
        caller := by
  have hfinds : delegatingReaders.registry.FindsAlike caller reader := findsAlike_absorption _ _
  have hroles : delegatingReaders.roles.rolesOfUser "user" = .ok (.ofList [⟨"reader"⟩]) := by cbv
  have hgranted : delegatingReaders.hasPermission reader request = .ok true := by cbv
  have hsubject : request.subject = .entity (some ⟨"t0", .ok task⟩) := rfl
  have hcurrent : PrincipalSource.ambient.current reader =
      some ⟨"user", .ofList [⟨"reader"⟩]⟩ := rfl
  have hcaller : caller.isBypassed = false := rfl
  obtain ⟨hsame, _, _, _, _, hrequired, hafter⟩ :=
    onBehalfOf_eq_direct hsubject hroles hcurrent hcaller rfl hfinds
  have hdirect : delegatingReaders.requirePermission reader request = .ok () := by cbv
  exact ⟨hsubject, hroles, hcurrent, hcaller, rfl, hfinds, hsame, hgranted,
    hrequired.trans hdirect, hafter _⟩

end AuthorizationService
end AccessPolicy
