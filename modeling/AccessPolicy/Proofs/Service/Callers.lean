/-
Roles that would do, whoever asks.

The search for roles takes the permissions from the store, one role after the other, and
not from the roles of the caller.  The caller enters by the placeholders of the conditions
alone, so what none of the permissions mentions makes no difference, and neither does the
bypass scope in which the search is made.
-/
import AccessPolicy.Proofs.Service.Delegation

namespace AccessPolicy

open Outcome (Alongside)

/-! ## What stored permissions mention -/

namespace RoleRepository

/-- The permission is stored with some role and is for exactly this type and action. -/
def HasStored (r : RoleRepository) (type : ResourceType) (action : Action) (p : Permission) :
    Prop :=
  ∃ role stored, r.permissionsFor role type = .ok stored ∧ p ∈ stored ∧
    p.grants type action = true

/-- No permission stored for the type and the action mentions the placeholder, neither in
its conditions nor in those on the context. -/
def Unmentioned (r : RoleRepository) (type : ResourceType) (action : Action)
    (placeholder : String) : Prop :=
  ∀ p, r.HasStored type action p → p.mentions placeholder = false

end RoleRepository

theorem MemoryRepository.unmentioned {m : MemoryRepository} {placeholder : String}
    (h : ∀ p ∈ m.permissions, p.mentions placeholder = false) (type : ResourceType)
    (action : Action) : m.repository.Unmentioned type action placeholder := by
  rintro p ⟨role, stored, hstored, hp, _⟩
  cases hstored
  exact h p (List.mem_filter.mp hp).1

namespace AuthorizationService

section

variable {s : AuthorizationService} {ambient ambient' : Ambient} {principal principal' : Principal}
  {request : Request}

/-! ## The search for two principals -/

/-- Placeholders are filled in for the user whom the request names, or else for whoever is
signed in. -/
theorem alongside_discoveringPrincipal {R : Principal → Principal → Prop}
    (hrefl : ∀ principal, R principal principal)
    (hcurrent : R ((s.principals.current ambient).getD .anonymous)
      ((s.principals.current ambient').getD .anonymous)) :
    Alongside R (s.discoveringPrincipal ambient request)
      (s.discoveringPrincipal ambient' request) := by
  have hsigned : ∀ a : Ambient, (∀ user entity, request.subject ≠ .delegate user entity) →
      s.discoveringPrincipal a request = .ok ((s.principals.current a).getD .anonymous) := by
    intro a hsubject
    rw [discoveringPrincipal, effectivePrincipal]
    cases h : request.subject with
    | delegate user entity => exact absurd h (hsubject user entity)
    | entity | related => cases s.principals.current a <;> rfl
  cases hsubject : request.subject with
  | delegate user entity =>
    have hsame : s.discoveringPrincipal ambient request =
        s.discoveringPrincipal ambient' request := by
      simp only [discoveringPrincipal, effectivePrincipal, hsubject]
    rw [hsame]
    cases s.discoveringPrincipal ambient' request with
    | error e => exact .error e
    | ok principal => exact .ok (hrefl principal)
  | entity | related =>
    have hnamed : ∀ user entity, request.subject ≠ .delegate user entity := by simp [hsubject]
    rw [hsigned ambient hnamed, hsigned ambient' hnamed]
    exact .ok hcurrent

section

variable (hfinds : s.registry.FindsAlike ambient ambient')
  (hagree : ∀ p, s.roles.HasStored request.resourceType request.action p →
    principal.AgreeOn principal' (Permission.mentions · p))
include hfinds hagree

theorem roleAuthorizes_congr (role : Role) :
    s.roleAuthorizes ambient principal request role =
      s.roleAuthorizes ambient' principal' request role := by
  rw [roleAuthorizes, roleAuthorizes, permissionsOf]
  cases hstored : s.roles.permissionsFor role request.resourceType with
  | error e => rfl
  | ok stored =>
    have hcompiled : Specification.compile s.registry ambient principal request
        (stored.filter fun p => p.grants request.resourceType request.action) =
        Specification.compile s.registry ambient' principal' request
          (stored.filter fun p => p.grants request.resourceType request.action) :=
      hfinds.answersAlike.compile_eq fun p hp hgrants =>
        hagree p ⟨role, stored, hstored, (List.mem_filter.mp hp).1, hgrants⟩
    show (Specification.compile s.registry ambient principal request _ >>= fun _ => _) = _
    rw [hcompiled, Specification.isAuthorized_congr hfinds]
    rfl

theorem authorizingRoles_congr (candidates : List Role) :
    s.authorizingRoles ambient principal request candidates =
      s.authorizingRoles ambient' principal' request candidates := by
  induction candidates with
  | nil => rfl
  | cons role rest ih =>
    rw [authorizingRoles, authorizingRoles, roleAuthorizes_congr hfinds hagree role, ih]

end

theorem authorizedRoles_congr (hfinds : s.registry.FindsAlike ambient ambient')
    (hagree : ∀ p, s.roles.HasStored request.resourceType request.action p →
      ((s.principals.current ambient).getD .anonymous).AgreeOn
        ((s.principals.current ambient').getD .anonymous) (Permission.mentions · p)) :
    s.authorizedRoles ambient request = s.authorizedRoles ambient' request := by
  have hdiscovering : Alongside
      (fun principal principal' => ∀ p,
        s.roles.HasStored request.resourceType request.action p →
          principal.AgreeOn principal' (Permission.mentions · p))
      (s.discoveringPrincipal ambient request) (s.discoveringPrincipal ambient' request) :=
    alongside_discoveringPrincipal (fun principal p _ => .refl principal _) hagree
  rw [authorizedRoles, authorizedRoles, hdiscovering.bind_eq fun principal principal' h => ?_]
  simp only [authorizingRoles_congr hfinds h]

/-- The search for roles returns the same, errors included, for two callers with one
identifier whatever roles they hold, at whatever bypass depths, where no stored permission
for the type and the action mentions the roles of the caller.  The identifier of a caller
who is not signed in is the empty one.  Where none mentions the identifier either, the
search returns the same for all callers.  The loaders are to find the same entities for
both, as those do that are not told who asks. -/
theorem authorizedRoles_of_unmentioned (hfinds : s.registry.FindsAlike ambient ambient')
    (hroles : s.roles.Unmentioned request.resourceType request.action Condition.currentUserRoles) :
    (((s.principals.current ambient).getD .anonymous).identifier =
        ((s.principals.current ambient').getD .anonymous).identifier →
      s.authorizedRoles ambient request = s.authorizedRoles ambient' request) ∧
    (s.roles.Unmentioned request.resourceType request.action Condition.currentUserIdentifier →
      s.authorizedRoles ambient request = s.authorizedRoles ambient' request) := by
  have hunmentioned : ∀ {placeholder : String} {p : Permission} {P : Prop},
      s.roles.Unmentioned request.resourceType request.action placeholder →
      s.roles.HasStored request.resourceType request.action p →
      p.mentions placeholder = true → P := by
    intro placeholder p P h hp hm
    rw [h p hp] at hm
    cases hm
  constructor
  · intro hidentifier
    exact authorizedRoles_congr hfinds fun p hp => ⟨fun _ => hidentifier, hunmentioned hroles hp⟩
  · intro hidentifier
    exact authorizedRoles_congr hfinds fun p hp =>
      ⟨hunmentioned hidentifier hp, hunmentioned hroles hp⟩

end

/-- Readers see the tasks that are assigned to them. -/
def assignedReaders : MemoryRepository :=
  MemoryRepository.empty.grant (Specification.Absorption.grant
    [.field "assignee" (.compare .equal) (.string Condition.currentUserIdentifier)])

/-- A request about a task that is assigned to a user. -/
def assignedTask : Request :=
  { byDocument with
    subject := .entity (some ⟨"t2", .ok (.object [("assignee", .string "user")])⟩) }

/-- The user finds the role of the readers without holding it and in a bypass scope, and
somebody else does not, as the identifier is mentioned.  The tasks of the document lead
everybody to that role. -/
theorem authorizedRoles_of_unmentioned_assignee :
    let assigned : AuthorizationService :=
      { northernReaders with roles := assignedReaders.repository }
    let deep : Ambient := ⟨2, some ⟨"user", .empty⟩⟩
    assigned.registry.FindsAlike reader deep ∧
      assigned.roles.Unmentioned assignedTask.resourceType assignedTask.action
        Condition.currentUserRoles ∧
      assigned.authorizedRoles reader assignedTask = .ok (.ofList [⟨"reader"⟩]) ∧
      assigned.authorizedRoles deep assignedTask = .ok (.ofList [⟨"reader"⟩]) ∧
      assigned.authorizedRoles caller assignedTask = .ok .empty ∧
      northernReaders.authorizedRoles reader byDocument = .ok (.ofList [⟨"reader"⟩]) ∧
      northernReaders.authorizedRoles .fresh byDocument = .ok (.ofList [⟨"reader"⟩]) := by
  intro assigned deep
  have hfinds : assigned.registry.FindsAlike reader deep := findsAlike_absorption _ _
  have hunmentioned : assigned.roles.Unmentioned assignedTask.resourceType assignedTask.action
      Condition.currentUserRoles :=
    MemoryRepository.unmentioned (List.forall_mem_singleton.mpr (by decide +kernel)) _ _
  have hnorthern : ∀ placeholder, placeholder ≠ "north" →
      northernReaders.roles.Unmentioned byDocument.resourceType byDocument.action placeholder := by
    intro placeholder hne
    refine MemoryRepository.unmentioned (List.forall_mem_singleton.mpr ?_) _ _
    have hmentions : (Specification.Absorption.grant
        [Specification.Absorption.northernDocument]).mentions placeholder =
        ((decide ("north" = placeholder) || false) || false || false || false) := rfl
    rw [hmentions, decide_eq_false (Ne.symm hne)]
    rfl
  have hassigned : assigned.authorizedRoles reader assignedTask = .ok (.ofList [⟨"reader"⟩]) := by
    cbv
  have hfound : northernReaders.authorizedRoles reader byDocument =
      .ok (.ofList [⟨"reader"⟩]) := by cbv
  obtain ⟨hidentified, _⟩ := authorizedRoles_of_unmentioned hfinds hunmentioned
  obtain ⟨_, hanybody⟩ := authorizedRoles_of_unmentioned (s := northernReaders)
    (findsAlike_absorption reader .fresh) (hnorthern Condition.currentUserRoles (by decide))
  exact ⟨hfinds, hunmentioned, hassigned, (hidentified rfl).symm.trans hassigned, by cbv, hfound,
    (hanybody (hnorthern Condition.currentUserIdentifier (by decide))).symm.trans hfound⟩

end AuthorizationService
end AccessPolicy
