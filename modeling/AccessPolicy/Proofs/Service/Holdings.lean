/-
What a role repository holds.

The service asks a repository for the roles that grant an action and for their
permissions.  From a repository that answers out of a list of permissions it gets,
in some order, those for the action that are granted to a role of the principal.
The decision depends on the terms of these permissions and on nothing else of them.
-/
import AccessPolicy.Proofs.Service.Justification
import AccessPolicy.Proofs.Specification.Terms

namespace AccessPolicy

/-! ## Sets of roles -/

/-- Sets with the same members hold them in the same order. -/
theorem RoleSet.roles_eq_of_mem_iff {l l' : List Role} (hl : l.Pairwise (· < ·))
    (hl' : l'.Pairwise (· < ·)) (h : ∀ r, r ∈ l ↔ r ∈ l') : l = l' := by
  have hirrefl : Std.Irrefl (· < · : Role → Role → Prop) := ⟨fun r => String.lt_irrefl r.key⟩
  have hasymm : Std.Asymm (· < · : Role → Role → Prop) := ⟨fun _ _ => String.lt_asymm⟩
  exact List.Pairwise.eq_of_mem_iff hl hl' h

/-! ## Repositories -/

/-- The repository answers out of these permissions.  For a type that shares its name
with the one in question it may answer anything. -/
structure RoleRepository.Holds (roles : RoleRepository) (permissions : List Permission) :
    Prop where
  granting : ∀ type action, ∃ found, roles.rolesGranting type action = .ok found ∧
    ∀ p ∈ permissions, p.grants type action = true → p.role ∈ found
  stored : ∀ role type, ∃ found, roles.permissionsFor role type = .ok found ∧
    ∀ p, p.resourceType = type → (p ∈ found ↔ p ∈ permissions ∧ p.role = role)

theorem MemoryRepository.holds (m : MemoryRepository) : m.repository.Holds m.permissions where
  granting type action := by
    refine ⟨_, rfl, fun p hp hgrants => ?_⟩
    rw [RoleSet.mem_ofList, List.mem_map]
    exact ⟨p, List.mem_filter.mpr ⟨hp, hgrants⟩, rfl⟩
  stored role type := by
    refine ⟨_, rfl, fun p htype => ?_⟩
    simp only [List.mem_filter, Bool.and_eq_true, decide_eq_true_eq, htype, and_true]

/-- The permissions for exactly a type and an action, granted to roles that the
principal holds. -/
def heldGrants (permissions : List Permission) (principal : Principal) (type : ResourceType)
    (action : Action) : List Permission :=
  permissions.filter fun p => principal.roles.contains p.role && p.grants type action

theorem mem_heldGrants {permissions : List Permission} {principal : Principal}
    {type : ResourceType} {action : Action} {p : Permission} :
    p ∈ heldGrants permissions principal type action ↔
      p ∈ permissions ∧ p.role ∈ principal.roles ∧ p.grants type action = true := by
  rw [heldGrants, List.mem_filter, Bool.and_eq_true, RoleSet.contains, decide_eq_true_eq]

namespace AuthorizationService

section

variable {s : AuthorizationService} {ambient : Ambient} {request : Request}
  {permissions : List Permission}

theorem permissionsOfAll_of_holds (h : s.roles.Holds permissions) (type : ResourceType)
    (action : Action) (roles : List Role) :
    ∃ found, s.permissionsOfAll type action roles = .ok found ∧
      ∀ p, p ∈ found ↔ p ∈ permissions ∧ p.role ∈ roles ∧ p.grants type action = true := by
  induction roles with
  | nil => exact ⟨[], rfl, fun p => by simp⟩
  | cons role rest ih =>
    obtain ⟨stored, hstored, hmem⟩ := h.stored role type
    obtain ⟨others, hothers, hrest⟩ := ih
    have hown : s.permissionsOf role type action =
        .ok (stored.filter fun p => p.grants type action) :=
      Outcome.bind_eq_ok.mpr ⟨stored, Outcome.mapError_eq_ok.mpr hstored, rfl⟩
    have hmem : ∀ p, (p ∈ stored ∧ p.grants type action = true) ↔
        (p ∈ permissions ∧ p.role = role) ∧ p.grants type action = true := by
      intro p
      refine and_congr_left fun hgrants => hmem p ?_
      exact of_decide_eq_true (Bool.and_eq_true_iff.mp hgrants).1
    refine ⟨_, Outcome.bind_eq_ok.mpr ⟨_, hown, Outcome.bind_eq_ok.mpr ⟨others, hothers, rfl⟩⟩,
      fun p => ?_⟩
    rw [List.mem_append, List.mem_filter, hmem, hrest, List.mem_cons]
    constructor
    · rintro (⟨⟨hp, hrole⟩, hgrants⟩ | ⟨hp, hrole, hgrants⟩)
      · exact ⟨hp, .inl hrole, hgrants⟩
      · exact ⟨hp, .inr hrole, hgrants⟩
    · rintro ⟨hp, hrole | hrole, hgrants⟩
      · exact .inl ⟨⟨hp, hrole⟩, hgrants⟩
      · exact .inr ⟨hp, hrole, hgrants⟩

/-- What counts for a principal are the grants to roles the principal holds. -/
theorem resolvePermissions_of_holds (h : s.roles.Holds permissions) (principal : Principal)
    (type : ResourceType) (action : Action) :
    ∃ found, s.resolvePermissions principal type action = .ok found ∧
      ∀ p, p ∈ found ↔ p ∈ heldGrants permissions principal type action := by
  obtain ⟨granting, hgranting, hroles⟩ := h.granting type action
  obtain ⟨found, hfound, hmem⟩ :=
    permissionsOfAll_of_holds h type action (granting.filter principal.roles.contains).roles
  refine ⟨found, Outcome.bind_eq_ok.mpr ⟨granting, Outcome.mapError_eq_ok.mpr hgranting, hfound⟩,
    fun p => ?_⟩
  rw [hmem, mem_heldGrants]
  refine and_congr_right fun hp => and_congr_left fun hgrants => ?_
  show p.role ∈ granting.filter principal.roles.contains ↔ _
  rw [RoleSet.mem_filter, RoleSet.contains, decide_eq_true_eq]
  exact and_iff_right (hroles p hp hgrants)

theorem mem_of_resolvePermissions (h : s.roles.Holds permissions) {principal : Principal}
    {type : ResourceType} {action : Action} {found : List Permission}
    (hfound : s.resolvePermissions principal type action = .ok found) (p : Permission) :
    p ∈ found ↔ p ∈ heldGrants permissions principal type action := by
  obtain ⟨found', hfound', hmem⟩ := resolvePermissions_of_holds h principal type action
  obtain rfl : found = found' := Except.ok.inj (hfound.symm.trans hfound')
  exact hmem p

theorem terms_of_resolvePermissions {principal : Principal} {found : List Permission}
    (hmem : ∀ p, p ∈ found ↔
      p ∈ heldGrants permissions principal request.resourceType request.action) :
    ∀ terms, terms ∈ Specification.requestedTerms request found ↔
      terms ∈ (heldGrants permissions principal request.resourceType request.action).map
        Permission.terms := by
  intro terms
  simp only [Specification.requestedTerms, List.mem_map, List.mem_filter, hmem]
  exact exists_congr fun p =>
    and_congr_left fun _ => and_iff_left_of_imp fun hp => (mem_heldGrants.mp hp).2.2

/-! ## Decisions taken apart -/

theorem effectivePrincipal_eq_ok_iff {principal : Principal} :
    s.effectivePrincipal ambient request = .ok principal ↔ s.ActsAs ambient request principal := by
  refine ⟨actsAs_of_effectivePrincipal, fun h => ?_⟩
  rw [ActsAs] at h
  rw [effectivePrincipal]
  cases hsubject : request.subject with
  | delegate user entity =>
    rw [hsubject] at h
    obtain ⟨rfl, hroles⟩ := h
    exact Outcome.map_eq_ok.mpr ⟨principal.roles, Outcome.mapError_eq_ok.mpr hroles, rfl⟩
  | entity entity =>
    rw [hsubject] at h
    simp only at h ⊢
    rw [h]
  | related type identifier =>
    rw [hsubject] at h
    simp only at h ⊢
    rw [h]

/-- Outside a bypass scope a decision is that of the specification which is compiled
for whoever acts. -/
theorem hasPermission_eq_ok_iff (hbypass : ambient.isBypassed = false)
    (hdeny : request.action.isDeny = false) {decision : Bool} :
    s.hasPermission ambient request = .ok decision ↔
      ∃ principal found spec, s.ActsAs ambient request principal ∧
        s.resolvePermissions principal request.resourceType request.action = .ok found ∧
        Specification.compile s.registry ambient principal request found = .ok spec ∧
        spec.isAuthorized s.registry ambient = .ok decision := by
  rw [hasPermission, if_neg (Bool.eq_false_iff.mp hbypass), specification,
    if_neg (Bool.eq_false_iff.mp hdeny)]
  constructor
  · intro h
    obtain ⟨spec, hspec, hauthorized⟩ := Outcome.bind_eq_ok.mp h
    obtain ⟨principal, hprincipal, hspec⟩ := Outcome.bind_eq_ok.mp hspec
    obtain ⟨found, hfound, hspec⟩ := Outcome.bind_eq_ok.mp hspec
    exact ⟨principal, found, spec, effectivePrincipal_eq_ok_iff.mp hprincipal, hfound, hspec,
      hauthorized⟩
  · rintro ⟨principal, found, spec, hprincipal, hfound, hspec, hauthorized⟩
    refine Outcome.bind_eq_ok.mpr ⟨spec, ?_, hauthorized⟩
    refine Outcome.bind_eq_ok.mpr ⟨principal, effectivePrincipal_eq_ok_iff.mpr hprincipal, ?_⟩
    exact Outcome.bind_eq_ok.mpr ⟨found, hfound, hspec⟩

end

/-! ## Services that differ in their repository -/

/-- The services have the same registry and take the principal from the same source,
and the repositories agree on the roles of a delegate user. -/
structure AgreesOn (s s' : AuthorizationService) (request : Request) : Prop where
  registry : s'.registry = s.registry
  principals : s'.principals = s.principals
  rolesOfUser : ∀ user entity, request.subject = .delegate user entity →
    s'.roles.rolesOfUser user = s.roles.rolesOfUser user

section

variable {s s' : AuthorizationService} {ambient : Ambient} {request : Request}
  {permissions permissions' : List Permission}

theorem AgreesOn.symm (h : s.AgreesOn s' request) : s'.AgreesOn s request where
  registry := h.registry.symm
  principals := h.principals.symm
  rolesOfUser user entity hsubject := (h.rolesOfUser user entity hsubject).symm

theorem AgreesOn.actsAs (h : s.AgreesOn s' request) (principal : Principal) :
    s'.ActsAs ambient request principal ↔ s.ActsAs ambient request principal := by
  rw [ActsAs, ActsAs]
  cases hsubject : request.subject with
  | delegate user entity => simp only [h.rolesOfUser user entity hsubject]
  | entity entity => simp only [h.principals]
  | related type identifier => simp only [h.principals]

/-- A decision is the same with every repository that holds, for whoever acts, grants
of the action on the same terms. -/
theorem hasPermission_of_same_terms (hagrees : s.AgreesOn s' request)
    (hholds : s.roles.Holds permissions) (hholds' : s'.roles.Holds permissions')
    (hterms : ∀ principal, s.ActsAs ambient request principal → ∀ terms,
      terms ∈ (heldGrants permissions principal request.resourceType request.action).map
          Permission.terms ↔
        terms ∈ (heldGrants permissions' principal request.resourceType request.action).map
          Permission.terms)
    (hbypass : ambient.isBypassed = false) {decision : Bool}
    (h : s.hasPermission ambient request = .ok decision) :
    s'.hasPermission ambient request = .ok decision := by
  cases hdeny : request.action.isDeny with
  | true =>
    rw [hasPermission, hbypass, specification, if_pos hdeny] at h ⊢
    exact h
  | false =>
    obtain ⟨principal, found, spec, hacts, hfound, hspec, hauthorized⟩ :=
      (hasPermission_eq_ok_iff hbypass hdeny).mp h
    have hmem := mem_of_resolvePermissions hholds hfound
    obtain ⟨found', hfound', hmem'⟩ := resolvePermissions_of_holds hholds' principal
      request.resourceType request.action
    have hsame : ∀ terms, terms ∈ Specification.requestedTerms request found ↔
        terms ∈ Specification.requestedTerms request found' := by
      intro terms
      rw [terms_of_resolvePermissions hmem, terms_of_resolvePermissions hmem']
      exact hterms principal hacts terms
    obtain ⟨assemble, fs, fs', applicable, hassemble, rfl, hspec', hfs, hplain⟩ :=
      Specification.compile_of_same_terms hdeny hsame hspec
    refine (hasPermission_eq_ok_iff hbypass hdeny).mpr ⟨principal, found',
      Specification.assembled request assemble fs' applicable,
      (hagrees.actsAs principal).mpr hacts, hfound', ?_, ?_⟩
    · rw [hagrees.registry]
      exact hspec'
    · rw [hagrees.registry]
      exact Specification.isAuthorized_assembled_congr hassemble hfs hplain hauthorized

end

end AuthorizationService
end AccessPolicy
