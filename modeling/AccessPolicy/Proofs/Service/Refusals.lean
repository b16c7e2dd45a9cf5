/-
Refusals told apart from defects.

A refusal is a decision, and only requiring a permission reports it as an error.  All else
that keeps the service from an answer is a defect: nobody acts, the configuration does not
fit, a store reports an error, or a row is missing.  This holds whatever the stores and
loaders do.  A `deny` request asks none of them, and within a bypass scope no check does.
-/
import AccessPolicy.Proofs.Service.Candidates
import AccessPolicy.Proofs.Service.Failures

namespace AccessPolicy

open Outcome (FailsOnly)

/-! ## Reports -/

/-- The refusal says what was asked: the type, the action, and the entity under check or
the related one with its type. -/
structure AccessDenied.Reports (d : AccessDenied) (request : Request) : Prop where
  resourceType : d.resourceType = request.resourceType
  action : d.action = request.action
  related : ∀ type identifier, request.subject = .related type identifier →
    d.instanceId = some (type.name ++ ":" ++ identifier)
  entity : (∀ type identifier, request.subject ≠ .related type identifier) →
    d.instanceId = request.subject.entity?.map (·.identifier)

theorem AccessDenied.reports_iff {d : AccessDenied} {request : Request} :
    d.Reports request ↔
      d = ⟨request.resourceType, request.action, request.subject.identifier?⟩ := by
  have hinstance : ((∀ type identifier, request.subject = .related type identifier →
      d.instanceId = some (type.name ++ ":" ++ identifier)) ∧
      ((∀ type identifier, request.subject ≠ .related type identifier) →
        d.instanceId = request.subject.entity?.map (·.identifier))) ↔
      d.instanceId = request.subject.identifier? := by
    cases request.subject with
    | entity entity => simp [Subject.identifier?, Subject.entity?]
    | delegate user entity => simp [Subject.identifier?, Subject.entity?]
    | related type identifier =>
      constructor
      · exact fun h => h.1 type identifier rfl
      · intro h
        refine ⟨?_, fun hne => absurd rfl (hne type identifier)⟩
        rintro _ _ ⟨⟩
        exact h
  constructor
  · rintro ⟨htype, haction, hrelated, hentity⟩
    obtain ⟨type, action, id⟩ := d
    cases htype
    cases haction
    cases hinstance.mp ⟨hrelated, hentity⟩
    rfl
  · rintro rfl
    obtain ⟨hrelated, hentity⟩ := hinstance.mpr rfl
    exact ⟨rfl, rfl, hrelated, hentity⟩

/-- The specification lets nothing through: its predicate is known to be unsatisfiable, no
row satisfies it, and whoever decides by it refuses. -/
structure Specification.LetsNothingThrough (spec : Specification) : Prop where
  unsatisfiable : spec.predicate.isUnsatisfiable = true
  rows : ∀ row, spec.predicate.holds row = false
  request : ∀ registry ambient, spec.isAuthorized registry ambient = .ok false
  entities : ∀ registry ambient (entity : Entity) v, entity.attributes = .ok v →
    spec.isAuthorizedFor registry ambient entity = .ok false

theorem Specification.letsNothingThrough_denied (type : ResourceType) (action : Action) :
    (denied type action).LetsNothingThrough where
  unsatisfiable := rfl
  rows _ := rfl
  request _ _ := rfl
  entities registry ambient entity v hv := by
    rw [isAuthorizedFor, Entity.attributesAs, hv]
    rfl

/-! ## Defects -/

theorem AuthorizationError.isAccessDenied_ofStore (e : StoreError) :
    (ofStore e).isAccessDenied = false := by
  cases e <;> rfl

namespace AuthorizationService

/-- Why a request has no answer. -/
inductive Defect (s : AuthorizationService) (ambient : Ambient) (request : Request) :
    AuthorizationError → Prop where
  | nobodyActs (h : s.principals.current ambient = none) : Defect s ambient request .noPrincipal
  | misconfigured (e : ConfigurationError) : Defect s ambient request (.configuration e)
  | rolesOfUser {user : String} {entity : Option Entity} {e : StoreError}
      (hsubject : request.subject = .delegate user entity)
      (h : s.roles.rolesOfUser user = .error e) : Defect s ambient request (.ofStore e)
  | rolesGranting {e : StoreError}
      (h : s.roles.rolesGranting request.resourceType request.action = .error e) :
      Defect s ambient request (.ofStore e)
  | permissionsFor {role : Role} {e : StoreError}
      (h : s.roles.permissionsFor role request.resourceType = .error e) :
      Defect s ambient request (.ofStore e)
  | unloaded {e : AuthorizationError} (h : s.registry.LoadingFails ambient e) :
      Defect s ambient request e
  | notFound {type : ResourceType} {identifier : String}
      (hsubject : request.subject = .related type identifier) :
      Defect s ambient request (.relatedEntityNotFound type identifier)

section

variable {s : AuthorizationService} {ambient : Ambient} {request : Request}
  {e : AuthorizationError}

theorem Defect.isAccessDenied (h : s.Defect ambient request e) : e.isAccessDenied = false := by
  cases h with
  | nobodyActs | misconfigured | notFound => rfl
  | rolesOfUser | rolesGranting | permissionsFor =>
    exact AuthorizationError.isAccessDenied_ofStore _
  | unloaded h =>
    cases h with
    | missing => rfl
    | reported => exact AuthorizationError.isAccessDenied_ofStore _

/-- The context of a request does not enter its defects but by the configuration. -/
theorem Defect.of_under {context : Option RequestContext}
    (h : s.Defect ambient (request.under context) e) : s.Defect ambient request e := by
  have hsubject := Request.subject_under request context
  have htype : (request.under context).resourceType = request.resourceType := by
    cases context <;> rfl
  have haction : (request.under context).action = request.action := by cases context <;> rfl
  cases h with
  | nobodyActs h => exact .nobodyActs h
  | misconfigured e => exact .misconfigured e
  | rolesOfUser hdelegate h => exact .rolesOfUser (hsubject ▸ hdelegate) h
  | rolesGranting h => exact .rolesGranting (htype ▸ haction ▸ h)
  | permissionsFor h => exact .permissionsFor (htype ▸ h)
  | unloaded h => exact .unloaded h
  | notFound hrelated => exact .notFound (hsubject ▸ hrelated)

theorem Defect.of_failsAnyway (h : Specification.FailsAnyway s.registry ambient request e) :
    s.Defect ambient request e := by
  cases h with
  | unregistered | unserializable | relatedUnregistered | unidentified | unrelated =>
    exact .misconfigured _
  | unloaded h => exact .unloaded h
  | notFound hsubject => exact .notFound hsubject

/-! ## Each step fails by a defect -/

theorem defects_effectivePrincipal :
    FailsOnly (s.effectivePrincipal ambient request) (s.Defect ambient request) := by
  rw [effectivePrincipal]
  split
  · rename_i user entity hsubject
    exact Outcome.failsOnly_map (Outcome.failsOnly_mapError fun e he => .rolesOfUser hsubject he)
  · split
    · exact Outcome.failsOnly_ok _
    · rename_i hnobody
      exact Outcome.failsOnly_error (.nobodyActs hnobody)

theorem defects_permissionsOf (role : Role) :
    FailsOnly (s.permissionsOf role request.resourceType request.action)
      (s.Defect ambient request) :=
  Outcome.failsOnly_bind (Outcome.failsOnly_mapError fun _ he => .permissionsFor he)
    fun _ _ => Outcome.failsOnly_ok _

theorem defects_permissionsOfAll (roles : List Role) :
    FailsOnly (s.permissionsOfAll request.resourceType request.action roles)
      (s.Defect ambient request) := by
  induction roles with
  | nil => exact Outcome.failsOnly_ok _
  | cons role rest ih =>
    rw [permissionsOfAll]
    refine Outcome.failsOnly_bind (defects_permissionsOf role) fun permissions _ => ?_
    exact Outcome.failsOnly_bind ih fun others _ => Outcome.failsOnly_ok _

theorem defects_resolvePermissions (principal : Principal) :
    FailsOnly (s.resolvePermissions principal request.resourceType request.action)
      (s.Defect ambient request) :=
  Outcome.failsOnly_bind (Outcome.failsOnly_mapError fun _ he => .rolesGranting he)
    fun _ _ => defects_permissionsOfAll _

theorem defects_contextAllows (principal : Principal) (p : Permission) :
    FailsOnly
      (Specification.contextAllows s.registry ambient principal request.context p)
      (s.Defect ambient request) := by
  rw [Specification.contextAllows]
  split
  · exact Outcome.failsOnly_ok _
  · split
    · exact Outcome.failsOnly_ok _
    · refine Outcome.failsOnly_bind (Outcome.failsOnly_mapError fun e _ => .misconfigured e)
        fun predicate _ => ?_
      refine Outcome.failsOnly_bind (fun e he => .unloaded ?_) fun row _ => Outcome.failsOnly_ok _
      exact Row.failsOnly_loadLevels _ _ _ e he

theorem defects_applicablePermissions (principal : Principal) (permissions : List Permission) :
    FailsOnly
      (Specification.applicablePermissions s.registry ambient principal request.context permissions)
      (s.Defect ambient request) := by
  induction permissions with
  | nil => exact Outcome.failsOnly_ok _
  | cons p rest ih =>
    rw [Specification.applicablePermissions]
    refine Outcome.failsOnly_bind (defects_contextAllows principal p) fun allowed _ => ?_
    exact Outcome.failsOnly_bind ih fun others _ => Outcome.failsOnly_ok _

theorem defects_compile (principal : Principal) (permissions : List Permission) :
    FailsOnly (Specification.compile s.registry ambient principal request permissions)
      (s.Defect ambient request) := by
  cases hdeny : request.action.isDeny with
  | true =>
    rw [Specification.compile, if_pos hdeny]
    exact Outcome.failsOnly_ok _
  | false =>
    rw [Specification.compile_eq hdeny]
    refine Outcome.failsOnly_bind (Outcome.failsOnly_mapError fun e _ => .misconfigured e)
      fun _ _ => ?_
    refine Outcome.failsOnly_bind (defects_applicablePermissions principal _) fun applicable _ => ?_
    exact Outcome.failsOnly_map (Outcome.failsOnly_mapError fun e _ => .misconfigured e)

theorem defects_specification :
    FailsOnly (s.specification ambient request) (s.Defect ambient request) := by
  rw [specification]
  split
  · exact Outcome.failsOnly_ok _
  · refine Outcome.failsOnly_bind defects_effectivePrincipal fun principal _ => ?_
    refine Outcome.failsOnly_bind (defects_resolvePermissions principal) fun permissions _ => ?_
    exact defects_compile principal permissions

theorem defects_isAuthorized {principal : Principal} {permissions : List Permission}
    {spec : Specification}
    (h : Specification.compile s.registry ambient principal request permissions = .ok spec) :
    FailsOnly (spec.isAuthorized s.registry ambient) (s.Defect ambient request) :=
  fun e he => .of_failsAnyway (Specification.failsOnly_isAuthorized h e he)

theorem defects_roleAuthorizes (principal : Principal) (role : Role) :
    FailsOnly (s.roleAuthorizes ambient principal request role) (s.Defect ambient request) := by
  refine Outcome.failsOnly_bind (defects_permissionsOf role) fun permissions _ => ?_
  exact Outcome.failsOnly_bind (defects_compile principal permissions)
    fun spec hspec => defects_isAuthorized hspec

theorem defects_authorizingRoles (principal : Principal) (candidates : List Role) :
    FailsOnly (s.authorizingRoles ambient principal request candidates)
      (s.Defect ambient request) := by
  induction candidates with
  | nil => exact Outcome.failsOnly_ok _
  | cons role rest ih =>
    rw [authorizingRoles]
    refine Outcome.failsOnly_bind (defects_roleAuthorizes principal role) fun authorizes _ => ?_
    exact Outcome.failsOnly_bind ih fun others _ => Outcome.failsOnly_ok _

/-! ## Each operation fails by a defect -/

theorem defects_hasPermission :
    FailsOnly (s.hasPermission ambient request) (s.Defect ambient request) := by
  rw [hasPermission]
  split
  · exact Outcome.failsOnly_ok _
  · refine Outcome.failsOnly_bind defects_specification fun spec hspec => ?_
    rw [specification] at hspec
    split at hspec
    · cases hspec
      exact Outcome.failsOnly_ok false
    · obtain ⟨principal, _, hspec⟩ := Outcome.bind_eq_ok.mp hspec
      obtain ⟨permissions, _, hspec⟩ := Outcome.bind_eq_ok.mp hspec
      exact defects_isAuthorized hspec

theorem defects_authorizationSpecification (context : Option RequestContext) :
    FailsOnly (s.authorizationSpecification ambient request context)
      (s.Defect ambient request) := by
  rw [authorizationSpecification_eq]
  split
  · exact Outcome.failsOnly_ok _
  · exact fun e he => (defects_specification e he).of_under

theorem defects_authorizedRoles :
    FailsOnly (s.authorizedRoles ambient request) (s.Defect ambient request) := by
  rw [authorizedRoles]
  split
  · exact Outcome.failsOnly_ok _
  · refine Outcome.failsOnly_bind ?_ fun principal _ => ?_
    · rw [discoveringPrincipal]
      split
      · exact Outcome.failsOnly_ok _
      · exact defects_effectivePrincipal
    · refine Outcome.failsOnly_bind (Outcome.failsOnly_mapError fun e he => .rolesGranting he)
        fun granting _ => ?_
      exact Outcome.failsOnly_bind (defects_authorizingRoles principal _)
        fun roles _ => Outcome.failsOnly_ok _

/-! ## Refusals -/

/-- Requiring a permission makes an error of a refusal, and leaves failures as they are. -/
theorem requirePermission_eq :
    s.requirePermission ambient request =
      match s.hasPermission ambient request with
      | .ok true => .ok ()
      | .ok false => .error (.accessDenied
          ⟨request.resourceType, request.action, request.subject.identifier?⟩)
      | .error e => .error e := by
  rw [requirePermission]
  cases s.hasPermission ambient request with
  | error e => rfl
  | ok authorized => cases authorized <;> rfl

theorem hasPermission_of_bypassed (hbypass : 0 < ambient.bypassDepth) :
    s.hasPermission ambient request = .ok true := by
  rw [hasPermission]
  exact if_pos (decide_eq_true hbypass)

theorem specification_deny (hdeny : request.action = .deny) :
    s.specification ambient request = .ok (.denied request.resourceType request.action) := by
  rw [specification]
  exact if_pos (decide_eq_true hdeny)

theorem hasPermission_deny (hbypass : ambient.bypassDepth = 0) (hdeny : request.action = .deny) :
    s.hasPermission ambient request = .ok false := by
  rw [hasPermission, Ambient.isBypassed, hbypass, specification_deny hdeny]
  rfl

theorem authorizationSpecification_deny (hbypass : ambient.bypassDepth = 0)
    (hdeny : request.action = .deny) (context : Option RequestContext) :
    s.authorizationSpecification ambient request context =
      .ok (.denied request.resourceType .deny) := by
  have hunder : (request.under context).action = .deny := by cases context <;> exact hdeny
  rw [authorizationSpecification_eq, Ambient.isBypassed, hbypass, specification_deny hunder, hunder]
  cases context <;> rfl

theorem authorizedRoles_deny (hdeny : request.action = .deny) :
    s.authorizedRoles ambient request = .ok .empty := by
  rw [authorizedRoles]
  exact if_pos (decide_eq_true hdeny)

variable (s ambient request) in
/-- Whatever the stores and loaders do, whoever acts and at every bypass depth: a check, a
specification and a search for roles fail by defects alone, and no defect is a refusal.
Requiring a permission succeeds when the check says yes, is refused with a report of the
request when it says no, and fails as the check fails.  Outside a bypass scope a `deny`
request is refused and its specification lets nothing through, and at no depth has it
roles.  Inside a bypass scope every check says yes. -/
theorem refusals_apart_from_defects :
    (FailsOnly (s.hasPermission ambient request) (s.Defect ambient request) ∧
      (∀ context, FailsOnly (s.authorizationSpecification ambient request context)
        (s.Defect ambient request)) ∧
      FailsOnly (s.authorizedRoles ambient request) (s.Defect ambient request) ∧
      ∀ d, ¬ s.Defect ambient request (.accessDenied d)) ∧
    ((s.requirePermission ambient request = .ok () ↔
        s.hasPermission ambient request = .ok true) ∧
      (∀ d, s.requirePermission ambient request = .error (.accessDenied d) ↔
        s.hasPermission ambient request = .ok false ∧ d.Reports request) ∧
      ∀ e, e.isAccessDenied = false →
        (s.requirePermission ambient request = .error e ↔
          s.hasPermission ambient request = .error e)) ∧
    (request.action = .deny →
      s.authorizedRoles ambient request = .ok .empty ∧
      (ambient.bypassDepth = 0 →
        s.hasPermission ambient request = .ok false ∧
        ∀ context, ∃ spec, s.authorizationSpecification ambient request context = .ok spec ∧
          spec.LetsNothingThrough)) ∧
    (0 < ambient.bypassDepth → s.hasPermission ambient request = .ok true) := by
  have hnever : ∀ d, ¬ s.Defect ambient request (.accessDenied d) :=
    fun d h => Bool.noConfusion (h.isAccessDenied : true = false)
  refine ⟨⟨defects_hasPermission, fun _ => defects_authorizationSpecification _,
    defects_authorizedRoles, hnever⟩, ?_, ?_, hasPermission_of_bypassed⟩
  · have hdefects : FailsOnly (s.hasPermission ambient request) (s.Defect ambient request) :=
      defects_hasPermission
    rw [requirePermission_eq]
    cases hchecked : s.hasPermission ambient request with
    | error e =>
      refine ⟨⟨nofun, nofun⟩, fun d => ⟨?_, nofun⟩, fun e' _ => ?_⟩
      · rintro ⟨⟩
        exact absurd (hdefects _ hchecked) (hnever d)
      · exact ⟨by rintro ⟨⟩; rfl, by rintro ⟨⟩; rfl⟩
    | ok authorized =>
      cases authorized with
      | true =>
        exact ⟨⟨fun _ => rfl, fun _ => rfl⟩, fun d => ⟨nofun, nofun⟩, fun e _ => ⟨nofun, nofun⟩⟩
      | false =>
        refine ⟨⟨nofun, nofun⟩, fun d => ?_, fun e he => ⟨?_, nofun⟩⟩
        · rw [AccessDenied.reports_iff]
          exact ⟨by rintro ⟨⟩; exact ⟨rfl, rfl⟩, by rintro ⟨_, rfl⟩; rfl⟩
        · rintro ⟨⟩
          cases he
  · intro hdeny
    refine ⟨authorizedRoles_deny hdeny, fun hbypass => ⟨hasPermission_deny hbypass hdeny, ?_⟩⟩
    exact fun context => ⟨_, authorizationSpecification_deny hbypass hdeny context,
      Specification.letsNothingThrough_denied _ _⟩

end

/-- A store of roles that is out of reach. -/
def unreachable : RoleRepository where
  rolesGranting _ _ := .error (.unavailable "no store")
  permissionsFor _ _ := .error (.unavailable "no store")
  rolesOfUser _ := .error (.unavailable "no store")

/-- A request of a reader that is to be refused in any case. -/
def denial : Request := { byDocument with action := .deny, accepted := rfl }

/-- Somebody without roles is refused the tasks of the document, and with the store out of
reach a reader gets no answer.  A `deny` request is answered all the same, and a check in a
bypass scope is as well. -/
theorem refusals_apart_from_defects_byDocument :
    northernReaders.requirePermission ⟨0, some ⟨"user", .empty⟩⟩ byDocument =
        .error (.accessDenied ⟨WorkflowKind.task.type, .view, some "document:d0"⟩) ∧
      { northernReaders with roles := unreachable }.requirePermission reader byDocument =
        .error (.store (.unavailable "no store")) ∧
      { northernReaders with roles := unreachable }.requirePermission .fresh denial =
        .error (.accessDenied ⟨WorkflowKind.task.type, .deny, some "document:d0"⟩) ∧
      { northernReaders with roles := unreachable }.hasPermission (Ambient.fresh.bypassing)
        byDocument = .ok true := by
  obtain ⟨_, ⟨_, hrefused, _⟩, _⟩ :=
    refusals_apart_from_defects northernReaders ⟨0, some ⟨"user", .empty⟩⟩ byDocument
  obtain ⟨_, ⟨_, _, hfails⟩, _⟩ :=
    refusals_apart_from_defects { northernReaders with roles := unreachable } reader byDocument
  obtain ⟨_, ⟨_, hdenied, _⟩, hdeny, _⟩ :=
    refusals_apart_from_defects { northernReaders with roles := unreachable } .fresh denial
  obtain ⟨_, _, _, hbypassed⟩ :=
    refusals_apart_from_defects { northernReaders with roles := unreachable }
      Ambient.fresh.bypassing byDocument
  refine ⟨(hrefused _).mpr ⟨by cbv, AccessDenied.reports_iff.mpr (by cbv)⟩,
    (hfails _ rfl).mpr (by cbv), ?_, hbypassed Nat.one_pos⟩
  exact (hdenied _).mpr ⟨((hdeny rfl).2 rfl).1, AccessDenied.reports_iff.mpr (by cbv)⟩

end AuthorizationService
end AccessPolicy
