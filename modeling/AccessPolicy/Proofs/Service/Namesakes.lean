/-
Types that share a name.

A type is what it is by its identity, and a name stands for the one type that is
registered under it.  A request on another type of that name, or by way of one, finds no
authority in what is granted for the name.  Nor does a permission that requires a context
take part for a context whose type merely has the required name: the request is decided
as if the permission were not there.
-/
import AccessPolicy.Proofs.Service.Candidates
import AccessPolicy.Proofs.Service.Discovery

namespace AccessPolicy

open Outcome (Alongside)
open AuthorizationError (liftStore)

/-! ## Foreign types -/

namespace Registry

/-- The name of the type is free, or another type is registered under it. -/
def Foreign (registry : Registry) (type : ResourceType) : Prop :=
  registry.resourceType type.name ≠ .ok type

theorem Foreign.ensureRegistered {registry : Registry} {type : ResourceType}
    (h : registry.Foreign type) :
    registry.ensureRegistered type = .error (.missingActionProvider type.name) := by
  rw [Foreign, resourceType] at h
  rw [Registry.ensureRegistered, registered]
  cases hfind : registry.kinds.find? fun k => k.type.name == type.name with
  | none => rfl
  | some kind =>
    rw [hfind] at h
    have hother : kind.type ≠ type := fun heq => h (congrArg Except.ok heq)
    simp only [if_neg hother]
    rfl

end Registry

/-- The request is on a foreign type or by way of one. -/
def Request.OnForeign (request : Request) (registry : Registry) : Prop :=
  registry.Foreign request.resourceType ∨
    ∃ related identifier, request.subject = .related related identifier ∧ registry.Foreign related

namespace Specification

variable {registry : Registry} {ambient : Ambient} {principal : Principal} {request : Request}

/-- Nothing is compiled for a foreign type, whatever the permissions. -/
theorem compile_ne_ok_of_foreign (hforeign : request.OnForeign registry)
    (hdeny : request.action.isDeny = false) (permissions : List Permission)
    (spec : Specification) :
    compile registry ambient principal request permissions ≠ .ok spec := by
  intro hspec
  obtain htype | ⟨related, identifier, hsubject, hrelated⟩ := hforeign
  · obtain ⟨hregistered, _⟩ := (compile_eq_ok_iff hdeny).mp hspec
    rw [htype.ensureRegistered] at hregistered
    cases hregistered
  · obtain ⟨hdenied, _⟩ | ⟨_, applicable, _, hcompiled, _⟩ := of_compile hspec
    · rw [hdeny] at hdenied
      cases hdenied
    · rw [compileSubject, hsubject] at hcompiled
      obtain ⟨_, hregistered, _⟩ := Outcome.bind_eq_ok.mp hcompiled
      rw [hrelated.ensureRegistered] at hregistered
      cases hregistered

end Specification

namespace AuthorizationService

variable {s : AuthorizationService} {ambient : Ambient} {request : Request}

/-- The request is not answered, and no role would do for it. -/
structure Refused (s : AuthorizationService) (ambient : Ambient) (request : Request) : Prop where
  hasPermission : ∃ e, s.hasPermission ambient request = .error e
  requirePermission : ∃ e, s.requirePermission ambient request = .error e
  specification : ∀ context, ∃ e, s.authorizationSpecification ambient request context = .error e
  roles : ∀ roles, s.authorizedRoles ambient request = .ok roles → ∀ role, role ∉ roles

theorem specification_ne_ok_of_foreign (hforeign : request.OnForeign s.registry)
    (hdeny : request.action.isDeny = false) (spec : Specification) :
    s.specification ambient request ≠ .ok spec := by
  intro h
  rw [AuthorizationService.specification, if_neg (Bool.eq_false_iff.mp hdeny)] at h
  obtain ⟨principal, _, h⟩ := Outcome.bind_eq_ok.mp h
  obtain ⟨permissions, _, h⟩ := Outcome.bind_eq_ok.mp h
  exact Specification.compile_ne_ok_of_foreign hforeign hdeny permissions spec h

theorem refused_of_foreign (hbypass : ambient.isBypassed = false)
    (hdeny : request.action.isDeny = false) (hforeign : request.OnForeign s.registry) :
    s.Refused ambient request := by
  have hpermission : ∃ e, s.hasPermission ambient request = .error e := by
    refine Outcome.exists_error fun decision h => ?_
    rw [AuthorizationService.hasPermission, if_neg (Bool.eq_false_iff.mp hbypass)] at h
    obtain ⟨spec, hspec, _⟩ := Outcome.bind_eq_ok.mp h
    exact specification_ne_ok_of_foreign hforeign hdeny spec hspec
  refine ⟨hpermission, ?_, fun context => ?_, fun roles hroles role hrole => ?_⟩
  · obtain ⟨e, he⟩ := hpermission
    refine ⟨e, ?_⟩
    rw [AuthorizationService.requirePermission, he]
    rfl
  · refine Outcome.exists_error fun spec h => ?_
    rw [authorizationSpecification_eq, if_neg (Bool.eq_false_iff.mp hbypass)] at h
    have hunder : (request.under context).OnForeign s.registry := by
      cases context <;> exact hforeign
    refine specification_ne_ok_of_foreign hunder ?_ spec h
    cases context <;> exact hdeny
  · obtain ⟨principal, granting, _, _, hmem⟩ := of_authorizedRoles hdeny hroles
    obtain ⟨_, hauthorizes⟩ := (hmem role).2.mp hrole
    rw [roleAuthorizes] at hauthorizes
    obtain ⟨own, _, hauthorizes⟩ := Outcome.bind_eq_ok.mp hauthorizes
    obtain ⟨spec, hspec, _⟩ := Outcome.bind_eq_ok.mp hauthorizes
    exact Specification.compile_ne_ok_of_foreign hforeign hdeny own spec hspec

end AuthorizationService

/-! ## Contexts of another type -/

/-- The permission requires a context of a type, and the request carries none of that very
type. -/
def Permission.Unmet (p : Permission) (request : Request) : Prop :=
  ∃ requirement, p.context = some requirement ∧
    ∀ context, request.context = some context → context.resourceType ≠ requirement.resourceType

/-- The second list has the permissions of the first, apart from some that the request
leaves unmet. -/
inductive WithoutUnmet (request : Request) : List Permission → List Permission → Prop where
  | nil : WithoutUnmet request [] []
  | kept (p : Permission) {l l' : List Permission} (h : WithoutUnmet request l l') :
      WithoutUnmet request (p :: l) (p :: l')
  | left {p : Permission} (hp : p.Unmet request) {l l' : List Permission}
      (h : WithoutUnmet request l l') : WithoutUnmet request (p :: l) l'

namespace WithoutUnmet

variable {request : Request} {l l' m m' : List Permission}

theorem of_unmet (h : ∀ p ∈ l, p.Unmet request) : WithoutUnmet request l [] := by
  induction l with
  | nil => exact .nil
  | cons p rest ih =>
    obtain ⟨hp, hrest⟩ := List.forall_mem_cons.mp h
    exact .left hp (ih hrest)

theorem append (h : WithoutUnmet request l l') (hm : WithoutUnmet request m m') :
    WithoutUnmet request (l ++ m) (l' ++ m') := by
  induction h with
  | nil => exact hm
  | kept p _ ih => exact .kept p ih
  | left hp _ ih => exact .left hp ih

theorem filter (test : Permission → Bool) (h : WithoutUnmet request l l') :
    WithoutUnmet request (l.filter test) (l'.filter test) := by
  induction h with
  | nil => exact .nil
  | kept p _ ih =>
    rw [List.filter_cons, List.filter_cons]
    cases test p with
    | true => exact .kept p ih
    | false => exact ih
  | @left p hp l l' _ ih =>
    rw [List.filter_cons]
    cases test p with
    | true => exact .left hp ih
    | false => exact ih

theorem mem_or_unmet (h : WithoutUnmet request l l') :
    (∀ p ∈ l', p ∈ l) ∧ ∀ p ∈ l, p ∈ l' ∨ p.Unmet request := by
  induction h with
  | nil => exact ⟨fun _ hp => hp, fun _ hp => .inl hp⟩
  | kept q _ ih =>
    constructor
    · intro p hp
      rcases List.mem_cons.mp hp with rfl | hp
      · exact List.mem_cons_self
      · exact List.mem_cons_of_mem _ (ih.1 p hp)
    · intro p hp
      rcases List.mem_cons.mp hp with rfl | hp
      · exact .inl List.mem_cons_self
      · exact (ih.2 p hp).imp_left (List.mem_cons_of_mem _)
  | left hq _ ih =>
    constructor
    · intro p hp
      exact List.mem_cons_of_mem _ (ih.1 p hp)
    · intro p hp
      rcases List.mem_cons.mp hp with rfl | hp
      · exact .inr hq
      · exact ih.2 p hp

end WithoutUnmet

namespace Specification

variable {registry : Registry} {ambient : Ambient} {principal : Principal} {request : Request}
  {l l' : List Permission}

theorem contextAllows_of_unmet {p : Permission} (h : p.Unmet request) :
    contextAllows registry ambient principal request.context p = .ok false := by
  obtain ⟨requirement, hrequirement, hother⟩ := h
  have hfilter : (request.context.filter fun c =>
      c.resourceType = requirement.resourceType) = none := by
    cases hcontext : request.context with
    | none => rfl
    | some context => simp [Option.filter, hother context hcontext]
  rw [contextAllows, hrequirement]
  simp only [hfilter]

theorem applicablePermissions_withoutUnmet (h : WithoutUnmet request l l') :
    applicablePermissions registry ambient principal request.context l' =
      applicablePermissions registry ambient principal request.context l := by
  induction h with
  | nil => rfl
  | kept p _ ih => rw [applicablePermissions, applicablePermissions, ih]
  | left hp _ ih =>
    rw [applicablePermissions, contextAllows_of_unmet hp, ih]
    exact (bind_pure _).symm

/-- Permissions that are left unmet make no difference to the specification, nor to why
there is none. -/
theorem compile_withoutUnmet (h : WithoutUnmet request l l') :
    compile registry ambient principal request l' =
      compile registry ambient principal request l := by
  rw [compile, compile, applicablePermissions_withoutUnmet (h.filter _)]

/-- Without permissions nothing is authorized. -/
theorem isAuthorized_ne_true_of_nil {s : AuthorizationService} {spec : Specification}
    (h : compile s.registry ambient principal request [] = .ok spec) :
    spec.isAuthorized s.registry ambient ≠ .ok true := by
  intro hauthorized
  obtain ⟨_, rfl⟩ | ⟨_, applicable, happlicable, hsubject, hnonempty⟩ := of_compile h
  · cases hauthorized
  · cases happlicable
    obtain ⟨p, hp, _⟩ :=
      AuthorizationService.subjectMet_of_isAuthorized hsubject hnonempty hauthorized
    cases hp

end Specification

/-! ## Repositories without such permissions -/

/-- What the role may do for the request is left unmet by it. -/
def RoleRepository.LeftUnmet (roles : RoleRepository) (request : Request) (role : Role) : Prop :=
  ∃ stored, roles.permissionsFor role request.resourceType = .ok stored ∧
    ∀ p ∈ stored, p.grants request.resourceType request.action = true → p.Unmet request

/-- The second repository answers a request as the first would if some permissions that
the request leaves unmet had not been granted.  It need not report a role that has no
other permission for the action. -/
structure RoleRepository.WithoutUnmet (request : Request) (roles roles' : RoleRepository) :
    Prop where
  rolesOfUser : ∀ user, roles'.rolesOfUser user = roles.rolesOfUser user
  permissionsFor : ∀ role, Alongside (AccessPolicy.WithoutUnmet request)
    (roles.permissionsFor role request.resourceType)
    (roles'.permissionsFor role request.resourceType)
  rolesGranting : Alongside
    (fun found found' => (∀ role ∈ found', role ∈ found) ∧
      ∀ role ∈ found, role ∉ found' → roles.LeftUnmet request role)
    (roles.rolesGranting request.resourceType request.action)
    (roles'.rolesGranting request.resourceType request.action)

theorem MemoryRepository.withoutUnmet {request : Request} {l l' : List Permission}
    (h : WithoutUnmet request l l') (userRoles : List (String × Role)) :
    RoleRepository.WithoutUnmet request (MemoryRepository.mk l userRoles).repository
      (MemoryRepository.mk l' userRoles).repository where
  rolesOfUser _ := rfl
  permissionsFor _ := .ok (h.filter _)
  rolesGranting := by
    obtain ⟨hsubset, hleft⟩ := h.mem_or_unmet
    refine .ok ⟨fun role hrole => ?_, fun role hrole hleaves => ⟨_, rfl, fun p hp hgrants => ?_⟩⟩
    · rw [RoleSet.mem_ofList, List.mem_map] at hrole ⊢
      obtain ⟨p, hp, hrole⟩ := hrole
      obtain ⟨hp, hgrants⟩ := List.mem_filter.mp hp
      exact ⟨p, List.mem_filter.mpr ⟨hsubset p hp, hgrants⟩, hrole⟩
    · obtain ⟨hp, hof⟩ := List.mem_filter.mp hp
      rw [Bool.and_eq_true, decide_eq_true_eq] at hof
      refine (hleft p hp).resolve_left fun hkept => hleaves ?_
      rw [RoleSet.mem_ofList, List.mem_map]
      exact ⟨p, List.mem_filter.mpr ⟨hkept, hgrants⟩, hof.1⟩

namespace AuthorizationService

section

variable {s : AuthorizationService} {ambient : Ambient} {request : Request}
  {roles' : RoleRepository}

theorem effectivePrincipal_withoutUnmet (h : s.roles.WithoutUnmet request roles') :
    { s with roles := roles' }.effectivePrincipal ambient request =
      s.effectivePrincipal ambient request := by
  rw [effectivePrincipal, effectivePrincipal]
  cases request.subject with
  | delegate user entity => simp only [h.rolesOfUser]
  | entity entity => rfl
  | related related identifier => rfl

theorem permissionsOf_withoutUnmet (h : s.roles.WithoutUnmet request roles') (role : Role) :
    Alongside (WithoutUnmet request) (s.permissionsOf role request.resourceType request.action)
      ({ s with roles := roles' }.permissionsOf role request.resourceType request.action) := by
  rw [permissionsOf, permissionsOf]
  exact ((h.permissionsFor role).mapError).bind fun _ _ hstored => .ok (hstored.filter _)

theorem permissionsOf_of_leftUnmet {role : Role} (h : s.roles.LeftUnmet request role) :
    ∃ own, s.permissionsOf role request.resourceType request.action = .ok own ∧
      WithoutUnmet request own [] := by
  obtain ⟨stored, hstored, hunmet⟩ := h
  refine ⟨stored.filter fun p => p.grants request.resourceType request.action, ?_,
    .of_unmet fun p hp => ?_⟩
  · rw [permissionsOf, hstored]
    rfl
  · obtain ⟨hp, hgrants⟩ := List.mem_filter.mp hp
    exact hunmet p hp hgrants

/-- Roles that are left unmet need not be asked. -/
theorem permissionsOfAll_withoutUnmet (h : s.roles.WithoutUnmet request roles')
    {asked : Role → Bool} {candidates : List Role}
    (hunasked : ∀ role ∈ candidates, asked role = false → s.roles.LeftUnmet request role) :
    Alongside (WithoutUnmet request)
      (s.permissionsOfAll request.resourceType request.action candidates)
      ({ s with roles := roles' }.permissionsOfAll request.resourceType request.action
        (candidates.filter asked)) := by
  induction candidates with
  | nil => exact .ok .nil
  | cons role rest ih =>
    obtain ⟨hfirst, hrest⟩ := List.forall_mem_cons.mp hunasked
    have hothers := ih hrest
    rw [permissionsOfAll, List.filter_cons]
    cases hasked : asked role with
    | true =>
      show Alongside _ _ (permissionsOfAll _ _ _ (role :: rest.filter asked))
      rw [permissionsOfAll]
      refine (permissionsOf_withoutUnmet h role).bind fun own own' hown => ?_
      exact hothers.bind fun others others' hothers => .ok (hown.append hothers)
    | false =>
      obtain ⟨own, hown, hnone⟩ := permissionsOf_of_leftUnmet (hfirst hasked)
      rw [hown]
      -- What the role has is left unmet, so nothing of it stands on the other side.
      have hkept := hothers.bind (f := fun others => pure (own ++ others)) (g := pure)
        fun others others' hothers => .ok (hnone.append hothers)
      rw [bind_pure] at hkept
      exact hkept

/-- The roles that are still reported are those of the first report that are. -/
theorem roles_eq_filter {found found' : RoleSet} (h : ∀ role ∈ found', role ∈ found) :
    found'.roles = found.roles.filter found'.contains := by
  refine RoleSet.roles_eq_of_mem_iff found'.ascending (found.ascending.filter _) fun role => ?_
  rw [List.mem_filter, RoleSet.contains, decide_eq_true_eq]
  exact ⟨fun hrole => ⟨h role hrole, hrole⟩, fun hrole => hrole.2⟩

theorem resolvePermissions_withoutUnmet (h : s.roles.WithoutUnmet request roles')
    (principal : Principal) :
    Alongside (WithoutUnmet request)
      (s.resolvePermissions principal request.resourceType request.action)
      ({ s with roles := roles' }.resolvePermissions principal request.resourceType
        request.action) := by
  rw [resolvePermissions, resolvePermissions]
  refine h.rolesGranting.mapError.bind fun found found' hfound => ?_
  have hheld : (found'.filter principal.roles.contains).roles =
      (found.filter principal.roles.contains).roles.filter found'.contains := by
    show found'.roles.filter _ = (found.roles.filter _).filter _
    rw [roles_eq_filter hfound.1, List.filter_filter, List.filter_filter]
    exact List.filter_congr fun role _ => Bool.and_comm _ _
  rw [hheld]
  refine permissionsOfAll_withoutUnmet h fun role hrole hasked => ?_
  rw [RoleSet.contains, decide_eq_false_iff_not] at hasked
  exact hfound.2 role (List.mem_filter.mp hrole).1 hasked

theorem specification_withoutUnmet (h : s.roles.WithoutUnmet request roles') :
    { s with roles := roles' }.specification ambient request = s.specification ambient request := by
  rw [specification, specification, effectivePrincipal_withoutUnmet h]
  by_cases hdeny : request.action.isDeny = true
  · rw [if_pos hdeny, if_pos hdeny]
  · rw [if_neg hdeny, if_neg hdeny]
    refine bind_congr fun principal => ?_
    exact ((resolvePermissions_withoutUnmet h principal).bind_eq fun _ _ hfound =>
      (Specification.compile_withoutUnmet hfound).symm).symm

theorem roleAuthorizes_withoutUnmet (h : s.roles.WithoutUnmet request roles')
    (principal : Principal) (role : Role) :
    { s with roles := roles' }.roleAuthorizes ambient principal request role =
      s.roleAuthorizes ambient principal request role := by
  rw [roleAuthorizes, roleAuthorizes]
  refine ((permissionsOf_withoutUnmet h role).bind_eq fun own own' hown => ?_).symm
  rw [Specification.compile_withoutUnmet hown]

theorem roleAuthorizes_of_leftUnmet {principal : Principal} {role : Role}
    (h : s.roles.LeftUnmet request role) {decision : Bool}
    (hdecision : s.roleAuthorizes ambient principal request role = .ok decision) :
    decision = false := by
  obtain ⟨own, hown, hnone⟩ := permissionsOf_of_leftUnmet h
  rw [roleAuthorizes, hown] at hdecision
  obtain ⟨_, ⟨⟩, hdecision⟩ := Outcome.bind_eq_ok.mp hdecision
  obtain ⟨spec, hspec, hauthorized⟩ := Outcome.bind_eq_ok.mp hdecision
  rw [← Specification.compile_withoutUnmet hnone] at hspec
  rw [Bool.eq_false_iff]
  intro htrue
  rw [htrue] at hauthorized
  exact Specification.isAuthorized_ne_true_of_nil hspec hauthorized

theorem authorizingRoles_withoutUnmet (h : s.roles.WithoutUnmet request roles')
    {principal : Principal} {asked : Role → Bool} {candidates : List Role}
    (hunasked : ∀ role ∈ candidates, asked role = false → s.roles.LeftUnmet request role) :
    ∀ {found : List Role}, s.authorizingRoles ambient principal request candidates = .ok found →
      { s with roles := roles' }.authorizingRoles ambient principal request
        (candidates.filter asked) = .ok found := by
  induction candidates with
  | nil => exact fun hfound => hfound
  | cons role rest ih =>
    intro found hfound
    obtain ⟨hfirst, hrest⟩ := List.forall_mem_cons.mp hunasked
    rw [authorizingRoles] at hfound
    obtain ⟨authorizes, hauthorizes, hfound⟩ := Outcome.bind_eq_ok.mp hfound
    obtain ⟨others, hothers, hfound⟩ := Outcome.bind_eq_ok.mp hfound
    have hothers' := ih hrest hothers
    rw [List.filter_cons]
    cases hasked : asked role with
    | true =>
      show authorizingRoles _ _ _ _ (role :: rest.filter asked) = _
      rw [authorizingRoles, roleAuthorizes_withoutUnmet h, hauthorizes, hothers']
      exact hfound
    | false =>
      obtain rfl := roleAuthorizes_of_leftUnmet (hfirst hasked) hauthorizes
      cases hfound
      exact hothers'

theorem authorizedRoles_withoutUnmet (h : s.roles.WithoutUnmet request roles')
    {roles : RoleSet} (hroles : s.authorizedRoles ambient request = .ok roles) :
    { s with roles := roles' }.authorizedRoles ambient request = .ok roles := by
  rw [authorizedRoles] at hroles ⊢
  by_cases hdeny : request.action.isDeny = true
  · rw [if_pos hdeny] at hroles ⊢
    exact hroles
  · rw [if_neg hdeny] at hroles ⊢
    obtain ⟨principal, hprincipal, hroles⟩ := Outcome.bind_eq_ok.mp hroles
    obtain ⟨found, hfound, hroles⟩ := Outcome.bind_eq_ok.mp hroles
    obtain ⟨authorizing, hauthorizing, hroles⟩ := Outcome.bind_eq_ok.mp hroles
    obtain ⟨found', hfound', hreported⟩ :=
      h.rolesGranting.of_ok (Outcome.mapError_eq_ok.mp hfound)
    refine Outcome.bind_eq_ok.mpr ⟨principal, ?_, ?_⟩
    · rw [discoveringPrincipal, effectivePrincipal_withoutUnmet h]
      exact hprincipal
    refine Outcome.bind_eq_ok.mpr ⟨found', Outcome.mapError_eq_ok.mpr hfound', ?_⟩
    refine Outcome.bind_eq_ok.mpr ⟨authorizing, ?_, hroles⟩
    rw [roles_eq_filter hreported.1]
    refine authorizingRoles_withoutUnmet h (fun role hrole hasked => ?_) hauthorizing
    rw [RoleSet.contains, decide_eq_false_iff_not] at hasked
    exact hreported.2 role hrole hasked

/-- Where the same roles are reported, the search gives the same result, errors included. -/
theorem authorizedRoles_eq_withoutUnmet (h : s.roles.WithoutUnmet request roles')
    (hreport : roles'.rolesGranting request.resourceType request.action =
      s.roles.rolesGranting request.resourceType request.action) :
    { s with roles := roles' }.authorizedRoles ambient request =
      s.authorizedRoles ambient request := by
  have hauthorizing : ∀ principal candidates,
      { s with roles := roles' }.authorizingRoles ambient principal request candidates =
        s.authorizingRoles ambient principal request candidates := by
    intro principal candidates
    induction candidates with
    | nil => rfl
    | cons role rest ih =>
      rw [authorizingRoles, authorizingRoles, roleAuthorizes_withoutUnmet h, ih]
  rw [authorizedRoles, authorizedRoles, discoveringPrincipal, discoveringPrincipal,
    effectivePrincipal_withoutUnmet h, hreport]
  simp only [hauthorizing]

/-! ## Names -/

/-- A name confers no authority.  A request on a type that is not the registered one of its
name, or by way of such a type, is refused whatever is stored.  A permission that requires
a context of a type which the request does not carry contributes nothing, neither to a
specification nor to an answer of the service.  The search for roles asks each the same
question with the same answer, and only a role with such permissions alone need not be
asked. -/
theorem no_authority_of_name (s : AuthorizationService) (ambient : Ambient) (request : Request) :
    (ambient.isBypassed = false → request.action.isDeny = false →
      request.OnForeign s.registry → s.Refused ambient request) ∧
    (∀ principal l l', WithoutUnmet request l l' →
      Specification.compile s.registry ambient principal request l' =
        Specification.compile s.registry ambient principal request l) ∧
    (∀ context roles', s.roles.WithoutUnmet (request.under context) roles' →
      { s with roles := roles' }.authorizationSpecification ambient request context =
        s.authorizationSpecification ambient request context) ∧
    ∀ roles', s.roles.WithoutUnmet request roles' →
      let s' : AuthorizationService := { s with roles := roles' }
      s'.hasPermission ambient request = s.hasPermission ambient request ∧
      s'.requirePermission ambient request = s.requirePermission ambient request ∧
      (∀ principal role, s'.roleAuthorizes ambient principal request role =
        s.roleAuthorizes ambient principal request role) ∧
      (∀ roles, s.authorizedRoles ambient request = .ok roles →
        s'.authorizedRoles ambient request = .ok roles) ∧
      (roles'.rolesGranting request.resourceType request.action =
          s.roles.rolesGranting request.resourceType request.action →
        s'.authorizedRoles ambient request = s.authorizedRoles ambient request) := by
  refine ⟨refused_of_foreign, fun principal l l' h => Specification.compile_withoutUnmet h,
    fun context roles' h => ?_, fun roles' h => ?_⟩
  · rw [authorizationSpecification_eq, authorizationSpecification_eq,
      specification_withoutUnmet h]
  · intro s'
    have hpermission : s'.hasPermission ambient request = s.hasPermission ambient request := by
      rw [hasPermission, hasPermission, specification_withoutUnmet h]
    refine ⟨hpermission, ?_, roleAuthorizes_withoutUnmet h,
      fun roles => authorizedRoles_withoutUnmet h, authorizedRoles_eq_withoutUnmet h⟩
    rw [requirePermission, requirePermission, hpermission]

end

/-! ## Readers of documents at hand -/

open Specification.Absorption (document grant request task)

/-- All tasks, when the request comes with a document. -/
def withDocument : Permission :=
  { grant [] with context := some ⟨WorkflowKind.document.type, []⟩ }

def documentReaders : AuthorizationService :=
  { northernReaders with roles := (MemoryRepository.empty.grant withDocument).repository }

/-- A view of something that is called a task and is none. -/
def onNamesake : Request :=
  { request with kind := { WorkflowKind.task.resource with type := ⟨"task", 99⟩ }, accepted := rfl }

/-- A view of a task that comes with something called a document. -/
def withNamesake : Request := request.withContext ⟨⟨"document", 99⟩, document⟩

/-- With a document a reader sees the task.  With a namesake of a document the permission
is as good as absent, and a namesake of a task is not decided on at all. -/
theorem no_authority_of_name_reader :
    reader.isBypassed = false ∧ onNamesake.action.isDeny = false ∧
      onNamesake.OnForeign documentReaders.registry ∧ documentReaders.Refused reader onNamesake ∧
      documentReaders.hasPermission reader
        (request.withContext ⟨WorkflowKind.document.type, document⟩) = .ok true ∧
      documentReaders.roles.WithoutUnmet withNamesake MemoryRepository.empty.repository ∧
      documentReaders.hasPermission reader withNamesake = .ok false ∧
      { documentReaders with roles := MemoryRepository.empty.repository }.hasPermission reader
        withNamesake = .ok false := by
  have hforeign : onNamesake.OnForeign documentReaders.registry := by
    refine .inl ?_
    rw [Registry.Foreign]
    decide
  have hgranted : documentReaders.hasPermission reader
      (request.withContext ⟨WorkflowKind.document.type, document⟩) = .ok true := by cbv
  have hrefused : documentReaders.hasPermission reader withNamesake = .ok false := by cbv
  have hunmet : withDocument.Unmet withNamesake := by
    refine ⟨_, rfl, fun context hcontext => ?_⟩
    cases hcontext
    decide
  have hwithout : documentReaders.roles.WithoutUnmet withNamesake
      MemoryRepository.empty.repository :=
    MemoryRepository.withoutUnmet (.left hunmet .nil) []
  obtain ⟨hrefuse, _⟩ := no_authority_of_name documentReaders reader onNamesake
  obtain ⟨_, _, _, hsame⟩ := no_authority_of_name documentReaders reader withNamesake
  obtain ⟨hpermission, _⟩ := hsame _ hwithout
  exact ⟨rfl, rfl, hforeign, hrefuse rfl rfl hforeign, hgranted, hwithout, hrefused,
    hpermission.trans hrefused⟩

end AuthorizationService
end AccessPolicy
