/-
Why a request is granted.

Outside a bypass scope a request is granted only by a stored permission of a role
that the acting principal holds, and only when the conditions of the permission
hold where the request asks: on its context, on its entity or on the related row
that it identifies.
-/
import AccessPolicy.Service
import AccessPolicy.Proofs.Specification.Decision
import Mathlib

namespace AccessPolicy
namespace AuthorizationService

/-! ## Justifications -/

/-- Who acts: the user of a delegate request with the roles stored for it, and
else the current principal. -/
def ActsAs (s : AuthorizationService) (ambient : Ambient) (request : Request)
    (principal : Principal) : Prop :=
  match request.subject with
  | .delegate user _ =>
    principal.identifier = user ∧ s.roles.rolesOfUser user = .ok principal.roles
  | _ => s.principals.current ambient = some principal

/-- Conditions hold together on an entity of a type. -/
def HoldOn (s : AuthorizationService) (ambient : Ambient) (principal : Principal)
    (conditions : List Condition) (type : ResourceType) (entity : Json) : Prop :=
  ∀ c ∈ conditions, c.holdsOn s.registry ambient principal type entity = true

/-- The request carries the context that a permission requires, if it requires
any. -/
def ContextMet (s : AuthorizationService) (ambient : Ambient) (principal : Principal)
    (request : Request) (p : Permission) : Prop :=
  ∀ requirement, p.context = some requirement →
    ∃ context, request.context = some context ∧
      context.resourceType = requirement.resourceType ∧
      s.HoldOn ambient principal requirement.conditions requirement.resourceType context.attributes

/-- The row of a type with an identifier, the first when there are several. -/
def Identifies (s : AuthorizationService) (ambient : Ambient) (type : ResourceType)
    (identifier : String) (row : Json) : Prop :=
  ∃ name field loader rest, s.registry.identifierField type = .ok name ∧
    FieldPath.parse name = .ok field ∧ s.registry.loader type = .ok loader ∧
    loader ambient.bypassing field (.string identifier) = .ok (row :: rest)

/-- The conditions of a permission hold on the entity of a request, if there is
one, or on the related row. -/
def SubjectMet (s : AuthorizationService) (ambient : Ambient) (principal : Principal)
    (request : Request) (p : Permission) : Prop :=
  match request.subject with
  | .related type identifier =>
    ∃ row, s.Identifies ambient type identifier row ∧
      ((type = request.resourceType ∧ s.HoldOn ambient principal p.conditions type row) ∨
        ∀ c ∈ p.conditions, ∃ inner, c = .container type.name inner ∧
          s.HoldOn ambient principal inner type row)
  | subject =>
    ∀ entity, subject.entity? = some entity → ∃ attributes, entity.attributes = .ok attributes ∧
      s.HoldOn ambient principal p.conditions request.resourceType attributes

/-- A permission by which a request is granted to a principal. -/
structure GrantedBy (s : AuthorizationService) (ambient : Ambient) (request : Request)
    (principal : Principal) (role : Role) (p : Permission) : Prop where
  held : role ∈ principal.roles
  stored : ∃ permissions, s.roles.permissionsFor role request.resourceType = .ok permissions ∧
    p ∈ permissions
  type : p.resourceType = request.resourceType
  action : p.action = request.action
  context : s.ContextMet ambient principal request p
  subject : s.SubjectMet ambient principal request p

section

variable {s : AuthorizationService} {ambient : Ambient} {request : Request} {principal : Principal}

/-! ## Permissions -/

theorem actsAs_of_effectivePrincipal (h : s.effectivePrincipal ambient request = .ok principal) :
    s.ActsAs ambient request principal := by
  rw [effectivePrincipal] at h
  rw [ActsAs]
  cases hsubject : request.subject with
  | delegate user entity =>
    rw [hsubject] at h
    obtain ⟨roles, hroles, rfl⟩ := Outcome.map_eq_ok.mp h
    exact ⟨rfl, Outcome.mapError_eq_ok.mp hroles⟩
  | entity entity =>
    rw [hsubject] at h
    simp only at h ⊢
    split at h
    · rename_i hcurrent
      cases h
      exact hcurrent
    · cases h
  | related type identifier =>
    rw [hsubject] at h
    simp only at h ⊢
    split at h
    · rename_i hcurrent
      cases h
      exact hcurrent
    · cases h

/-- Each of the permissions of several roles comes with all that its role has. -/
theorem mem_permissionsOfAll {type : ResourceType} {action : Action} {roles : List Role} :
    ∀ {permissions : List Permission},
      s.permissionsOfAll type action roles = .ok permissions →
      ∀ p ∈ permissions, ∃ role ∈ roles, ∃ own,
        s.permissionsOf role type action = .ok own ∧ p ∈ own ∧ own ⊆ permissions := by
  induction roles with
  | nil =>
    intro permissions h
    rw [permissionsOfAll] at h
    cases h
    intro p hp
    cases hp
  | cons role rest ih =>
    intro permissions h
    rw [permissionsOfAll] at h
    obtain ⟨own, hown, h⟩ := Outcome.bind_eq_ok.mp h
    obtain ⟨others, hothers, h⟩ := Outcome.bind_eq_ok.mp h
    cases h
    intro p hp
    rcases List.mem_append.mp hp with hp | hp
    · exact ⟨role, List.mem_cons_self, own, hown, hp, List.subset_append_left own others⟩
    · obtain ⟨r, hr, found, hfound, hp, hsubset⟩ := ih hothers p hp
      exact ⟨r, List.mem_cons_of_mem _ hr, found, hfound, hp,
        List.subset_append_of_subset_right own hsubset⟩

theorem of_permissionsOfAll {type : ResourceType} {action : Action} {roles : List Role}
    {permissions : List Permission} (h : s.permissionsOfAll type action roles = .ok permissions) :
    ∀ p ∈ permissions, ∃ role ∈ roles, ∃ stored,
      s.roles.permissionsFor role type = .ok stored ∧ p ∈ stored := by
  intro p hp
  obtain ⟨role, hrole, own, hown, hp, _⟩ := mem_permissionsOfAll h p hp
  obtain ⟨stored, hstored, hfilter⟩ := Outcome.bind_eq_ok.mp hown
  cases hfilter
  exact ⟨role, hrole, stored, Outcome.mapError_eq_ok.mp hstored, (List.mem_filter.mp hp).1⟩

/-- The permissions that count are stored for roles the principal holds. -/
theorem of_resolvePermissions {type : ResourceType} {action : Action}
    {permissions : List Permission}
    (h : s.resolvePermissions principal type action = .ok permissions) :
    ∀ p ∈ permissions, ∃ role ∈ principal.roles, ∃ stored,
      s.roles.permissionsFor role type = .ok stored ∧ p ∈ stored := by
  rw [resolvePermissions] at h
  obtain ⟨granting, _, h⟩ := Outcome.bind_eq_ok.mp h
  intro p hp
  obtain ⟨role, hrole, hstored⟩ := of_permissionsOfAll h p hp
  have hheld := (RoleSet.mem_filter.mp hrole).2
  exact ⟨role, of_decide_eq_true hheld, hstored⟩

/-! ## Conditions -/

theorem holdOn_of_compileAll {conditions : List Condition} {type : ResourceType} {p : Predicate}
    {entity : Json} (h : Condition.compileAll s.registry principal conditions type = .ok p)
    (hp : Predicate.satisfies (s.registry.interpretation ambient) p entity = true) :
    s.HoldOn ambient principal conditions type entity := by
  rw [Condition.satisfies_compileAll h] at hp
  exact List.all_eq_true.mp hp

theorem satisfies_of_decideOn {p : Predicate} {entity : Json} (hp : p.DrawnFrom s.registry)
    (h : Specification.decideOn s.registry ambient entity p = .ok true) :
    Predicate.satisfies (s.registry.interpretation ambient) p entity = true :=
  Predicate.satisfies_of_within _ (Specification.of_decideOn hp h).symm

theorem contextMet_of_contextAllows {p : Permission}
    (h : Specification.contextAllows s.registry ambient principal request.context p = .ok true) :
    s.ContextMet ambient principal request p := by
  intro requirement hrequirement
  simp only [Specification.contextAllows, hrequirement] at h
  split at h
  · cases h
  · rename_i context hcontext
    obtain ⟨hcontext, htype⟩ := Option.filter_eq_some_iff.mp hcontext
    obtain ⟨predicate, hcompile, h⟩ := Outcome.bind_eq_ok.mp h
    obtain ⟨row, hrow, h⟩ := Outcome.bind_eq_ok.mp h
    have hcompile := Outcome.mapError_eq_ok.mp hcompile
    have hholds : predicate.holds row = true := Except.ok.inj h
    rw [Specification.holds_of_load (Condition.built_compileAll hcompile).drawnFrom hrow] at hholds
    exact ⟨context, hcontext, of_decide_eq_true htype,
      holdOn_of_compileAll hcompile (Predicate.satisfies_of_within _ hholds)⟩

/-! ## Subjects -/

theorem attributes_of_mapM {type : ResourceType} {entity : Option Entity}
    {attributes : Option Json}
    (h : entity.mapM (fun e => e.attributesAs type) = .ok attributes) :
    (entity = none ∧ attributes = none) ∨
      ∃ e v, entity = some e ∧ attributes = some v ∧ e.attributes = .ok v := by
  cases entity with
  | none => cases h; exact .inl ⟨rfl, rfl⟩
  | some e =>
    rw [Option.mapM_some] at h
    obtain ⟨v, hv, rfl⟩ := Outcome.map_eq_ok.mp h
    refine .inr ⟨e, v, rfl, rfl, ?_⟩
    rw [Entity.attributesAs] at hv
    split at hv
    · rename_i v' hattributes
      cases hv
      exact hattributes
    · cases hv

/-- An entity request is granted by a permission that takes part. -/
theorem of_isAuthorized_entity {spec : Specification} {type : ResourceType}
    {entity : Option Entity} {applicable : List Permission}
    (h : Specification.compileEntity s.registry principal type entity applicable =
      .ok (spec.predicate, spec.target))
    (happlicable : spec.applicable = !applicable.isEmpty)
    (hauthorized : spec.isAuthorized s.registry ambient = .ok true) :
    ∃ p ∈ applicable, ∀ e, entity = some e → ∃ attributes, e.attributes = .ok attributes ∧
      s.HoldOn ambient principal p.conditions type attributes := by
  have hdrawn := (Specification.built_of_compileEntity h).1.drawnFrom
  obtain ⟨fragments, attributes, hfragments, hattributes, hpredicate, htarget⟩ :=
    Specification.of_compileEntity h
  rw [Specification.isAuthorized, htarget] at hauthorized
  obtain ⟨rfl, rfl⟩ | ⟨e, v, rfl, rfl, he⟩ := attributes_of_mapM hattributes
  · have hsome : spec.applicable = true := Except.ok.inj hauthorized
    rw [happlicable] at hsome
    cases applicable with
    | nil => cases hsome
    | cons p rest => exact ⟨p, List.mem_cons_self, fun e he => by cases he⟩
  · have hsatisfies := satisfies_of_decideOn hdrawn hauthorized
    rw [hpredicate, Predicate.satisfies_any, List.any_eq_true] at hsatisfies
    obtain ⟨q, hq, hsatisfies⟩ := hsatisfies
    obtain ⟨p, hp, hcompile⟩ := Outcome.exists_of_forall₂ hfragments q hq
    refine ⟨p, hp, fun e' he' => ⟨v, ?_, holdOn_of_compileAll hcompile hsatisfies⟩⟩
    cases he'
    exact he

/-- A request by way of a related entity is granted on the row it identifies. -/
theorem of_isAuthorized_related {spec : Specification} {type related : ResourceType}
    {identifier : String} {applicable : List Permission}
    (h : Specification.compileRelated s.registry principal type related identifier applicable =
      .ok (spec.predicate, spec.target))
    (hauthorized : spec.isAuthorized s.registry ambient = .ok true) :
    ∃ p ∈ applicable, ∃ row, s.Identifies ambient related identifier row ∧
      ((related = type ∧ s.HoldOn ambient principal p.conditions related row) ∨
        ∀ c ∈ p.conditions, ∃ inner, c = .container related.name inner ∧
          s.HoldOn ambient principal inner related row) := by
  obtain ⟨_, _, _, htarget', hbuilt⟩ := Specification.built_of_compileRelated h
  obtain ⟨name, field, relation, fragments, hname, hfield, hrelation, hfragments, htarget, _⟩ :=
    Specification.of_compileRelated h
  rw [htarget] at htarget'
  cases htarget'
  rw [Specification.isAuthorized, htarget] at hauthorized
  simp only at hauthorized
  split at hauthorized
  · cases hauthorized
  · obtain ⟨row, hrow, hdecide⟩ := Outcome.bind_eq_ok.mp hauthorized
    have hidentifies : s.Identifies ambient related identifier row := by
      rw [Specification.loadRelated] at hrow
      obtain ⟨loader, hloader, hrow⟩ := Outcome.bind_eq_ok.mp hrow
      obtain ⟨found, hfound, hrow⟩ := Outcome.bind_eq_ok.mp hrow
      cases found with
      | nil => cases hrow
      | cons first rest =>
        cases hrow
        exact ⟨name, _, loader, rest, hname, hfield, Outcome.mapError_eq_ok.mp hloader,
          Outcome.mapError_eq_ok.mp hfound⟩
    have hsatisfies := satisfies_of_decideOn hbuilt.drawnFrom hdecide
    rw [Predicate.satisfies_any, List.any_eq_true] at hsatisfies
    obtain ⟨q, hq, hsatisfies⟩ := hsatisfies
    obtain ⟨p, hp, conditions, hconditions, hcompile⟩ :=
      Specification.of_relatedFragments hfragments q hq
    have hhold := holdOn_of_compileAll hcompile hsatisfies
    refine ⟨p, hp, row, hidentifies, ?_⟩
    obtain ⟨rfl, heq⟩ | ⟨r, rfl, _, _⟩ := hrelation
    · cases hconditions
      exact .inl ⟨heq, hhold⟩
    · exact .inr (Specification.of_projectOnto hconditions hhold)

theorem subjectMet_of_isAuthorized {spec : Specification} {applicable : List Permission}
    (h : Specification.compileSubject s.registry principal request applicable =
      .ok (spec.predicate, spec.target))
    (happlicable : spec.applicable = !applicable.isEmpty)
    (hauthorized : spec.isAuthorized s.registry ambient = .ok true) :
    ∃ p ∈ applicable, s.SubjectMet ambient principal request p := by
  rw [Specification.compileSubject] at h
  simp only [SubjectMet]
  cases hsubject : request.subject with
  | entity entity =>
    rw [hsubject] at h
    exact of_isAuthorized_entity h happlicable hauthorized
  | delegate user entity =>
    rw [hsubject] at h
    exact of_isAuthorized_entity h happlicable hauthorized
  | related type identifier =>
    rw [hsubject] at h
    exact of_isAuthorized_related h hauthorized

/-! ## Grants -/

/-- Outside a bypass scope nothing is granted without a permission that justifies
it. -/
theorem justified_of_hasPermission (hbypass : ambient.isBypassed = false)
    (h : s.hasPermission ambient request = .ok true) :
    request.action ≠ .deny ∧ ∃ principal role p,
      s.ActsAs ambient request principal ∧ s.GrantedBy ambient request principal role p := by
  rw [hasPermission, hbypass] at h
  obtain ⟨spec, hspec, hauthorized⟩ := Outcome.bind_eq_ok.mp h
  rw [specification] at hspec
  split at hspec
  · cases hspec
    cases hauthorized
  · obtain ⟨principal, hprincipal, hspec⟩ := Outcome.bind_eq_ok.mp hspec
    obtain ⟨permissions, hpermissions, hspec⟩ := Outcome.bind_eq_ok.mp hspec
    obtain ⟨_, rfl⟩ | ⟨hdeny, applicable, happlicable, hsubject, hnonempty⟩ :=
      Specification.of_compile hspec
    · cases hauthorized
    · obtain ⟨p, hp, hmet⟩ := subjectMet_of_isAuthorized hsubject hnonempty hauthorized
      obtain ⟨hmem, hallows⟩ := Specification.of_applicablePermissions happlicable p hp
      obtain ⟨hresolved, hgrants⟩ := List.mem_filter.mp hmem
      obtain ⟨role, hrole, hstored⟩ := of_resolvePermissions hpermissions p hresolved
      obtain ⟨htype, haction⟩ := Permission.grants_eq_true_iff.mp hgrants
      exact ⟨of_decide_eq_false hdeny, principal, role, p,
        actsAs_of_effectivePrincipal hprincipal,
        hrole, hstored, htype, haction, contextMet_of_contextAllows hallows, hmet⟩

end

/-- A reader asks for the tasks of a document by way of the document. -/
def byDocument : Request :=
  { Specification.Absorption.request with subject := .related WorkflowKind.document.type "d0" }

/-- Readers see the tasks of a document with a task of the north. -/
def northernReaders : AuthorizationService :=
  ⟨Specification.Absorption.registry,
    (MemoryRepository.empty.grant
      (Specification.Absorption.grant [Specification.Absorption.northernDocument])).repository,
    .ambient⟩

def reader : Ambient := ⟨0, some ⟨"user", .ofList [⟨"reader"⟩]⟩⟩

theorem justified_of_hasPermission_northern :
    reader.isBypassed = false ∧ northernReaders.hasPermission reader byDocument = .ok true ∧
      byDocument.action ≠ .deny ∧ ∃ principal role p,
        northernReaders.ActsAs reader byDocument principal ∧
        northernReaders.GrantedBy reader byDocument principal role p := by
  have hpermitted : northernReaders.hasPermission reader byDocument = .ok true := by cbv
  exact ⟨rfl, hpermitted, justified_of_hasPermission rfl hpermitted⟩

end AuthorizationService
end AccessPolicy
