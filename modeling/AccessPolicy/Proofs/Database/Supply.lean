/-
What a decision depends on.

A service takes its permissions from a repository that holds them as they are, or from a
store to which they were deployed.  Either way only the terms on which the acting
principal is granted the action count.  Which of the held roles carries a permission,
how often and in which order it is stored and what else is stored never matter.
-/
import AccessPolicy.Proofs.Database.Permissions

namespace AccessPolicy

/-- Where a service takes its permissions from, and what becomes of them on the way: a
repository answers out of them as they are, and a store to which they were deployed out
of what comes back from its rows.  What a store answers out of it also holds as it is,
by `Database.Deployed.holds`, so a store can be set beside any other repository. -/
inductive RoleRepository.Supplies (registry : Registry) :
    (Permission → Permission) → RoleRepository → List Permission → Prop where
  | held {roles : RoleRepository} {permissions : List Permission}
      (h : roles.Holds permissions) : Supplies registry id roles permissions
  | stored {db : Database} {permissions : List Permission}
      (h : Database.Deployed registry db permissions)
      (hstorable : ∀ p ∈ permissions, p.Storable) :
      Supplies registry Permission.reread (db.repository registry) permissions

/-- What a permission is granted for stays, and its terms depend on the terms before. -/
structure Permission.KeepsGrants (read : Permission → Permission) : Prop where
  role : ∀ p, (read p).role = p.role
  grants : ∀ p type action, (read p).grants type action = p.grants type action
  terms : ∃ change : List Condition × Option ContextRequirement →
    List Condition × Option ContextRequirement, ∀ p, (read p).terms = change p.terms

theorem Permission.keepsGrants_reread : KeepsGrants reread where
  role := reread_role
  grants := grants_reread
  terms := ⟨fun terms => (Condition.rereadAll terms.1, terms.2.map fun r =>
    { r with conditions := Condition.rereadAll r.conditions }), fun p => by
      simp only [Permission.terms, reread]⟩

namespace RoleRepository.Supplies

variable {registry : Registry} {read : Permission → Permission} {roles : RoleRepository}
  {permissions : List Permission}

theorem holds (h : roles.Supplies registry read permissions) :
    roles.Holds (permissions.map read) := by
  cases h with
  | held h =>
    rw [List.map_id]
    exact h
  | stored h hstorable => exact h.holds hstorable

theorem keepsGrants (h : roles.Supplies registry read permissions) :
    Permission.KeepsGrants read := by
  cases h with
  | held h => exact ⟨fun _ => rfl, fun _ _ _ => rfl, id, fun _ => rfl⟩
  | stored h hstorable => exact Permission.keepsGrants_reread

end RoleRepository.Supplies

/-- Grants on the same terms are on the same terms after they were read. -/
theorem Permission.KeepsGrants.terms_heldGrants {read : Permission → Permission}
    (h : KeepsGrants read) {permissions permissions' : List Permission} {principal : Principal}
    {type : ResourceType} {action : Action}
    (hterms : ∀ terms, terms ∈ (heldGrants permissions principal type action).map Permission.terms ↔
      terms ∈ (heldGrants permissions' principal type action).map Permission.terms) :
    ∀ terms, terms ∈ (heldGrants (permissions.map read) principal type action).map
        Permission.terms ↔
      terms ∈ (heldGrants (permissions'.map read) principal type action).map
        Permission.terms := by
  obtain ⟨change, hchange⟩ := h.terms
  have hheld : ∀ l : List Permission,
      (heldGrants (l.map read) principal type action).map Permission.terms =
        ((heldGrants l principal type action).map Permission.terms).map change := by
    intro l
    rw [heldGrants, heldGrants, List.filter_map, List.map_map, List.map_map]
    have hgrants : (fun p : Permission => principal.roles.contains p.role && p.grants type action) ∘
        read = fun p => principal.roles.contains p.role && p.grants type action := by
      funext p
      rw [Function.comp_apply, h.role, h.grants]
    rw [hgrants]
    exact List.map_congr_left fun p _ => hchange p
  intro terms
  rw [hheld, hheld, List.mem_map, List.mem_map]
  exact exists_congr fun before => and_congr_left fun _ => hterms before

namespace AuthorizationService

/-- The decision depends only on the set of terms on which whoever acts is granted the
action.  Two services that agree on it decide alike, or both fail. -/
theorem hasPermission_iff_of_same_terms {s s' : AuthorizationService} {ambient : Ambient}
    {request : Request} (hagrees : s.AgreesOn s' request) {read : Permission → Permission}
    {permissions permissions' : List Permission}
    (hsupplies : s.roles.Supplies s.registry read permissions)
    (hsupplies' : s'.roles.Supplies s'.registry read permissions')
    (hterms : ∀ principal, s.ActsAs ambient request principal → ∀ terms,
      terms ∈ (heldGrants permissions principal request.resourceType request.action).map
          Permission.terms ↔
        terms ∈ (heldGrants permissions' principal request.resourceType request.action).map
          Permission.terms)
    (hbypass : ambient.isBypassed = false) (decision : Bool) :
    s.hasPermission ambient request = .ok decision ↔
      s'.hasPermission ambient request = .ok decision := by
  have hread := fun principal hacts =>
    hsupplies.keepsGrants.terms_heldGrants (hterms principal hacts)
  constructor
  · exact hasPermission_of_same_terms hagrees hsupplies.holds hsupplies'.holds hread hbypass
  · refine hasPermission_of_same_terms hagrees.symm hsupplies'.holds hsupplies.holds
      (fun principal hacts terms => ?_) hbypass
    exact (hread principal ((hagrees.actsAs principal).mp hacts) terms).symm

/-! ## Two stores on the same terms -/

open Specification.Absorption (northernDocument request)

/-- A permission to view tasks, as it is deployed. -/
def viewing (role : String) (conditions : List Condition) : PermissionDefinition :=
  ⟨"task", "view", role, conditions, none, []⟩

def ownTasks : List Condition :=
  [.field "assignee" (.compare .equal) (.string Condition.currentUserIdentifier)]

/-- The permissions of definitions, in their order. -/
def permissionsOfRoles (grants : List (String × List Condition)) : List Permission :=
  grants.zipIdx.map fun g =>
    ⟨.issued g.2, ⟨g.1.1⟩, WorkflowKind.task.type, .view, g.1.2, none⟩

def byDocumentFirst : List (String × List Condition) :=
  [("reader", [northernDocument]), ("reader", ownTasks)]

/-- The same in another order and twice, beside what a clerk may do. -/
def byOwnerFirst : List (String × List Condition) :=
  [("clerk", []), ("reader", ownTasks), ("reader", [northernDocument]), ("reader", ownTasks)]

/-- A fresh store after the permissions were deployed, with their roles as they first
occur. -/
def storeOf (grants : List (String × List Condition)) (roles : List String) : Database :=
  { Database.blank.migrate with
    roles := roles.zipIdx.map fun r => ⟨.issued (grants.length + r.2), r.1⟩
    permissions := (permissionsOfRoles grants).map fun p =>
      .ofPermission (.issued (grants.length + roles.idxOf p.role.key)) p
    issued := grants.length + roles.length }

def storedReaders (store : Database) : AuthorizationService :=
  ⟨Specification.Absorption.registry, store.repository Specification.Absorption.registry, .ambient⟩

theorem deployed_byDocumentFirst :
    Database.Deployed Specification.Absorption.registry (storeOf byDocumentFirst ["reader"])
      (permissionsOfRoles byDocumentFirst) := by
  have hdeploy : Deployment.deploy Specification.Absorption.registry Database.blank.migrate
      (byDocumentFirst.map fun g => viewing g.1 g.2) =
        .ok (⟨2, 1⟩, storeOf byDocumentFirst ["reader"]) := rfl
  exact .deployed (.migrated Specification.Absorption.registry) rfl hdeploy

theorem deployed_byOwnerFirst :
    Database.Deployed Specification.Absorption.registry (storeOf byOwnerFirst ["clerk", "reader"])
      (permissionsOfRoles byOwnerFirst) := by
  have hdeploy : Deployment.deploy Specification.Absorption.registry Database.blank.migrate
      (byOwnerFirst.map fun g => viewing g.1 g.2) =
        .ok (⟨4, 2⟩, storeOf byOwnerFirst ["clerk", "reader"]) := rfl
  exact .deployed (.migrated Specification.Absorption.registry) rfl hdeploy

theorem storable_permissionsOfRoles {grants : List (String × List Condition)}
    (h : ∀ g ∈ grants, Condition.Storable g.2) : ∀ p ∈ permissionsOfRoles grants, p.Storable := by
  intro p hp
  obtain ⟨g, hg, rfl⟩ := List.mem_map.mp hp
  exact ⟨h g.1 (List.fst_mem_of_mem_zipIdx hg), nofun⟩

theorem storable_northernDocument : Condition.Storable [northernDocument] where
  numbers := by
    simp [northernDocument, Condition.toItems, Condition.toJson, Json.HasValidNumbers,
      Json.ItemsHaveValidNumbers, Json.MembersHaveValidNumbers]
  nesting := by decide

theorem storable_ownTasks : Condition.Storable ownTasks where
  numbers := by
    simp [ownTasks, Condition.toItems, Condition.toJson, Json.HasValidNumbers,
      Json.ItemsHaveValidNumbers, Json.MembersHaveValidNumbers]
  nesting := by decide

theorem storable_none : Condition.Storable [] where
  numbers := trivial
  nesting := by decide

/-- Both stores grant the task, though one of them stores more and in another order. -/
theorem hasPermission_iff_of_same_terms_readers :
    ∃ s s' : AuthorizationService, s.AgreesOn s' request ∧
      s.roles.Supplies s.registry Permission.reread (permissionsOfRoles byDocumentFirst) ∧
      s'.roles.Supplies s'.registry Permission.reread (permissionsOfRoles byOwnerFirst) ∧
      (∀ principal, s.ActsAs reader request principal → ∀ terms,
        terms ∈ (heldGrants (permissionsOfRoles byDocumentFirst) principal request.resourceType
            request.action).map Permission.terms ↔
          terms ∈ (heldGrants (permissionsOfRoles byOwnerFirst) principal request.resourceType
            request.action).map Permission.terms) ∧
      reader.isBypassed = false ∧ s.hasPermission reader request = .ok true ∧
      s'.hasPermission reader request = .ok true := by
  have hagrees : (storedReaders (storeOf byDocumentFirst ["reader"])).AgreesOn
      (storedReaders (storeOf byOwnerFirst ["clerk", "reader"])) request :=
    ⟨rfl, rfl, nofun⟩
  have hsupplies := RoleRepository.Supplies.stored deployed_byDocumentFirst
    (storable_permissionsOfRoles (by
      simp [byDocumentFirst, storable_northernDocument, storable_ownTasks]))
  have hsupplies' := RoleRepository.Supplies.stored deployed_byOwnerFirst
    (storable_permissionsOfRoles (by
      simp [byOwnerFirst, storable_northernDocument, storable_ownTasks, storable_none]))
  have hterms : ∀ principal, (storedReaders (storeOf byDocumentFirst ["reader"])).ActsAs reader
      request principal → ∀ terms,
      terms ∈ (heldGrants (permissionsOfRoles byDocumentFirst) principal request.resourceType
          request.action).map Permission.terms ↔
        terms ∈ (heldGrants (permissionsOfRoles byOwnerFirst) principal request.resourceType
          request.action).map Permission.terms := by
    intro principal hacts terms
    obtain rfl : (⟨"user", .ofList [⟨"reader"⟩]⟩ : Principal) = principal :=
      Option.some.inj hacts
    have hfirst : (heldGrants (permissionsOfRoles byDocumentFirst)
        ⟨"user", .ofList [⟨"reader"⟩]⟩ request.resourceType request.action).map Permission.terms =
          [([northernDocument], none), (ownTasks, none)] := rfl
    have hsecond : (heldGrants (permissionsOfRoles byOwnerFirst)
        ⟨"user", .ofList [⟨"reader"⟩]⟩ request.resourceType request.action).map Permission.terms =
          [(ownTasks, none), ([northernDocument], none), (ownTasks, none)] := rfl
    rw [hfirst, hsecond]
    simp only [List.mem_cons, List.not_mem_nil, or_false]
    constructor
    · rintro (h | h)
      · exact .inr (.inl h)
      · exact .inl h
    · rintro (h | h | h)
      · exact .inr h
      · exact .inl h
      · exact .inr h
  have hgranted : (storedReaders (storeOf byDocumentFirst ["reader"])).hasPermission reader
      request = .ok true := by decide +kernel
  exact ⟨_, _, hagrees, hsupplies, hsupplies', hterms, rfl, hgranted,
    (hasPermission_iff_of_same_terms hagrees hsupplies hsupplies' hterms rfl true).mp hgranted⟩

end AuthorizationService
end AccessPolicy
