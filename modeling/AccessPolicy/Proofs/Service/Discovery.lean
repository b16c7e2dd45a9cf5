/-
Roles that would do.

A check compiles the permissions of all roles that its principal holds together, the
search for roles compiles those of each role by itself.  A permission that grants the
check is among those of one of these roles.  Fewer permissions absorb fewer filters, so
the rows that are fetched for the role alone show the grant as well, and the search
finds that role.
-/
import AccessPolicy.Proofs.Service.Granting

namespace AccessPolicy

/-! ## Parts of the permissions -/

namespace Specification

variable {registry : Registry} {ambient : Ambient} {principal : Principal} {request : Request}

/-- What the permissions that take part grant is granted by one of them, also when only
some of the others take part beside it. -/
theorem exists_granting {assemble : Predicate → Predicate × DecisionTarget}
    {applicable : List Permission} {fs : List Predicate}
    (hassemble : assembly registry request = .ok assemble)
    (hfs : fragments registry principal request applicable = .ok fs)
    (h : (assembled request assemble fs (!applicable.isEmpty)).Grants registry ambient
      Predicate.fetched) :
    ∃ p ∈ applicable, ∀ part fs', p ∈ part → part ⊆ applicable →
      fragments registry principal request part = .ok fs' →
      (assembled request assemble fs' (!part.isEmpty)).Grants registry ambient
        Predicate.fetched := by
  have hshown : ∀ row,
      Predicate.satisfies (registry.interpretation ambient) (Predicate.any fs).fetched row = true →
        ∃ p ∈ applicable, ∀ part fs', p ∈ part → part ⊆ applicable →
          fragments registry principal request part = .ok fs' →
          Predicate.satisfies (registry.interpretation ambient) (Predicate.any fs').fetched row =
            true := by
    intro row hrow
    rw [Predicate.satisfies_fetched_any, List.any_eq_true] at hrow
    obtain ⟨q, hq, hrow⟩ := hrow
    obtain ⟨conditions, hconditions, hcompile⟩ := (Outcome.mem_of_mapM hfs).mp hq
    obtain ⟨p, hp, hdecided⟩ := List.mem_filterMap.mp hconditions
    refine ⟨p, hp, fun part fs' hmem hpart hfs' => ?_⟩
    have hq' : q ∈ fs' := (Outcome.mem_of_mapM hfs').mpr
      ⟨conditions, List.mem_filterMap.mpr ⟨p, hmem, hdecided⟩, hcompile⟩
    have hsubset : fs' ⊆ fs := fragments_subset (List.map_subset _ hpart) hfs' hfs
    exact Predicate.satisfies_fetched_of_subset _ hsubset hq' hrow
  simp only [Grants, decided_assembled hassemble] at h ⊢
  obtain ⟨attributes, hentity⟩ | ⟨related, identifier, joined, rfl⟩ := of_assembly hassemble
  · simp only [assembled, hentity] at h ⊢
    cases attributes with
    | none =>
      cases applicable with
      | nil => cases h
      | cons p rest =>
        refine ⟨p, List.mem_cons_self, fun part _ hmem _ _ => ?_⟩
        rw [Bool.not_eq_true', List.isEmpty_eq_false_iff]
        exact List.ne_nil_of_mem hmem
    | some attributes => exact hshown attributes h
  · simp only [assembled, onRelated] at h ⊢
    obtain ⟨row, hrow, h⟩ := h
    obtain ⟨p, hp, hpart⟩ := hshown row h
    exact ⟨p, hp, fun part fs' hmem hsubset hfs' => ⟨row, hrow, hpart part fs' hmem hsubset hfs'⟩⟩

/-- What takes part of a selection of the permissions are the selected ones among those
that take part of all. -/
theorem mem_applicablePermissions_of_subset {own found part applicable : List Permission}
    {test : Permission → Bool} {context : Option RequestContext} (hown : own ⊆ found)
    (hpart : applicablePermissions registry ambient principal context (own.filter test) = .ok part)
    (happlicable : applicablePermissions registry ambient principal context (found.filter test) =
      .ok applicable) {p : Permission} :
    p ∈ part ↔ p ∈ own ∧ p ∈ applicable := by
  rw [mem_applicablePermissions hpart, mem_applicablePermissions happlicable, List.mem_filter,
    List.mem_filter]
  constructor
  · rintro ⟨⟨hp, htest⟩, hallows⟩
    exact ⟨hp, ⟨hown hp, htest⟩, hallows⟩
  · rintro ⟨hp, ⟨_, htest⟩, hallows⟩
    exact ⟨⟨hp, htest⟩, hallows⟩

/-- What a specification authorizes is authorized for the sake of one of its permissions,
also when only some of the others stand beside it. -/
theorem exists_authorizing {found : List Permission} {spec : Specification}
    (hdeny : request.action.isDeny = false)
    (hspec : compile registry ambient principal request found = .ok spec)
    (hauthorized : spec.isAuthorized registry ambient = .ok true) :
    ∃ p ∈ found, ∀ own spec' decision, p ∈ own → own ⊆ found →
      compile registry ambient principal request own = .ok spec' →
      spec'.isAuthorized registry ambient = .ok decision → decision = true := by
  obtain ⟨_, applicable, assemble, fs, happlicable, hassemble, hfs, rfl⟩ :=
    (compile_eq_ok_iff hdeny).mp hspec
  have hgrants := (isAuthorized_iff_grants_fetched hassemble
    (fun q hq => (of_mem_fragments hfs hq).1) hauthorized).mp rfl
  obtain ⟨p, hp, hgranted⟩ := exists_granting hassemble hfs hgrants
  have hfound : p ∈ found :=
    (List.mem_filter.mp ((mem_applicablePermissions happlicable).mp hp).1).1
  refine ⟨p, hfound, fun own spec' decision hmem hown hspec' hdecision => ?_⟩
  obtain ⟨_, part, assemble', fs', hpart, hassemble', hfs', rfl⟩ :=
    (compile_eq_ok_iff hdeny).mp hspec'
  obtain rfl : assemble = assemble' := Except.ok.inj (hassemble.symm.trans hassemble')
  have hselected : ∀ {q : Permission}, q ∈ part ↔ q ∈ own ∧ q ∈ applicable :=
    mem_applicablePermissions_of_subset hown hpart happlicable
  have hpart' : part ⊆ applicable := fun q hq => (hselected.mp hq).2
  exact (isAuthorized_iff_grants_fetched hassemble
    (fun q hq => (of_mem_fragments hfs' hq).1) hdecision).mpr
    (hgranted part fs' (hselected.mpr ⟨hmem, hp⟩) hpart' hfs')

end Specification

namespace AuthorizationService

variable {s : AuthorizationService} {ambient : Ambient} {principal : Principal} {request : Request}

/-! ## The search -/

/-- The search asks every candidate, and keeps those that authorize the request by
themselves. -/
theorem of_authorizingRoles {candidates : List Role} :
    ∀ {found : List Role},
      s.authorizingRoles ambient principal request candidates = .ok found →
      ∀ role, (role ∈ candidates → ∃ decision,
          s.roleAuthorizes ambient principal request role = .ok decision) ∧
        (role ∈ found ↔
          role ∈ candidates ∧ s.roleAuthorizes ambient principal request role = .ok true) := by
  induction candidates with
  | nil =>
    intro found h role
    rw [authorizingRoles] at h
    cases h
    simp
  | cons first rest ih =>
    intro found h role
    rw [authorizingRoles] at h
    obtain ⟨authorizes, hauthorizes, h⟩ := Outcome.bind_eq_ok.mp h
    obtain ⟨others, hothers, h⟩ := Outcome.bind_eq_ok.mp h
    obtain ⟨hasked, hmem⟩ := ih hothers role
    have hkept : role ∈ found ↔ (role = first ∧ authorizes = true) ∨ role ∈ others := by
      cases h
      cases authorizes <;> simp
    have hfirst : (role = first ∧ authorizes = true) ↔
        role = first ∧ s.roleAuthorizes ambient principal request role = .ok true := by
      refine and_congr_right fun hrole => ?_
      rw [hrole, hauthorizes, Except.ok.injEq]
    constructor
    · intro hrole
      rcases List.mem_cons.mp hrole with rfl | hrole
      · exact ⟨authorizes, hauthorizes⟩
      · exact hasked hrole
    · rw [hkept, hfirst, hmem, List.mem_cons, or_and_right]

/-- What the search returns was found among the roles that the repository reports. -/
theorem of_authorizedRoles {roles : RoleSet} (hdeny : request.action.isDeny = false)
    (h : s.authorizedRoles ambient request = .ok roles) :
    ∃ principal granting, s.discoveringPrincipal ambient request = .ok principal ∧
      s.roles.rolesGranting request.resourceType request.action = .ok granting ∧
      ∀ role, (role ∈ granting → ∃ decision,
          s.roleAuthorizes ambient principal request role = .ok decision) ∧
        (role ∈ roles ↔
          role ∈ granting ∧ s.roleAuthorizes ambient principal request role = .ok true) := by
  rw [authorizedRoles, if_neg (Bool.eq_false_iff.mp hdeny)] at h
  obtain ⟨principal, hprincipal, h⟩ := Outcome.bind_eq_ok.mp h
  obtain ⟨granting, hgranting, h⟩ := Outcome.bind_eq_ok.mp h
  obtain ⟨found, hfound, h⟩ := Outcome.bind_eq_ok.mp h
  cases h
  refine ⟨principal, granting, hprincipal, Outcome.mapError_eq_ok.mp hgranting, fun role => ?_⟩
  rw [RoleSet.mem_ofList]
  exact of_authorizingRoles hfound role

theorem discoveringPrincipal_of_actsAs (h : s.ActsAs ambient request principal) :
    s.discoveringPrincipal ambient request = .ok principal := by
  rw [discoveringPrincipal, effectivePrincipal_eq_ok_iff.mpr h]

/-- A role with the permission that grants the check authorizes the request. -/
theorem exists_roleAuthorizes (hdeny : request.action.isDeny = false)
    {found : List Permission} {spec : Specification}
    (hfound : s.resolvePermissions principal request.resourceType request.action = .ok found)
    (hspec : Specification.compile s.registry ambient principal request found = .ok spec)
    (hauthorized : spec.isAuthorized s.registry ambient = .ok true) :
    ∃ granting, s.roles.rolesGranting request.resourceType request.action = .ok granting ∧
      ∃ role ∈ principal.roles, role ∈ granting ∧ ∀ decision,
        s.roleAuthorizes ambient principal request role = .ok decision → decision = true := by
  obtain ⟨p, hp, hauthorizing⟩ := Specification.exists_authorizing hdeny hspec hauthorized
  rw [resolvePermissions] at hfound
  obtain ⟨granting, hgranting, hfound⟩ := Outcome.bind_eq_ok.mp hfound
  obtain ⟨role, hrole, own, hown, hp', hsubset⟩ := mem_permissionsOfAll hfound p hp
  obtain ⟨hmem, hheld⟩ := RoleSet.mem_filter.mp hrole
  refine ⟨granting, Outcome.mapError_eq_ok.mp hgranting, role, of_decide_eq_true hheld, hmem,
    fun decision hdecision => ?_⟩
  rw [roleAuthorizes, hown] at hdecision
  obtain ⟨_, ⟨⟩, hdecision⟩ := Outcome.bind_eq_ok.mp hdecision
  obtain ⟨spec', hspec', hdecision⟩ := Outcome.bind_eq_ok.mp hdecision
  exact hauthorizing own spec' decision hp' hsubset hspec' hdecision

/-- When a check outside a bypass scope succeeds, so does the search for roles to find
one that the principal holds.  It finds none but those that the repository reports for
the type and the action. -/
theorem held_role_of_authorizedRoles {roles : RoleSet} (hbypass : ambient.isBypassed = false)
    (hroles : s.authorizedRoles ambient request = .ok roles) :
    (s.hasPermission ambient request = .ok true → ∃ principal,
      s.ActsAs ambient request principal ∧ ∃ role ∈ principal.roles, role ∈ roles) ∧
      ∀ role ∈ roles, ∃ granting,
        s.roles.rolesGranting request.resourceType request.action = .ok granting ∧
          role ∈ granting := by
  cases hdeny : request.action.isDeny with
  | true =>
    rw [authorizedRoles, if_pos hdeny] at hroles
    cases hroles
    constructor
    · intro hgranted
      exact ((justified_of_hasPermission hbypass hgranted).1 (of_decide_eq_true hdeny)).elim
    · intro role hrole
      exact (List.not_mem_nil hrole).elim
  | false =>
    obtain ⟨principal, granting, hprincipal, hgranting, hmem⟩ := of_authorizedRoles hdeny hroles
    constructor
    · intro hgranted
      obtain ⟨acting, found, spec, hacts, hfound, hspec, hauthorized⟩ :=
        (hasPermission_eq_ok_iff hbypass hdeny).mp hgranted
      obtain rfl : acting = principal :=
        Except.ok.inj ((discoveringPrincipal_of_actsAs hacts).symm.trans hprincipal)
      obtain ⟨granting', hgranting', role, hheld, hrole, hauthorizes⟩ :=
        exists_roleAuthorizes hdeny hfound hspec hauthorized
      obtain rfl : granting = granting' := Except.ok.inj (hgranting.symm.trans hgranting')
      obtain ⟨decision, hdecision⟩ := (hmem role).1 hrole
      obtain rfl := hauthorizes decision hdecision
      exact ⟨acting, hacts, role, hheld, (hmem role).2.mpr ⟨hrole, hdecision⟩⟩
    · intro role hrole
      exact ⟨granting, hgranting, ((hmem role).2.mp hrole).1⟩

/-- The task of the document of the north is granted to a reader, and the search finds
the role of the readers. -/
theorem held_role_of_authorizedRoles_northern :
    reader.isBypassed = false ∧
      northernReaders.authorizedRoles reader byDocument = .ok (.ofList [⟨"reader"⟩]) ∧
      northernReaders.hasPermission reader byDocument = .ok true ∧
      (∃ principal, northernReaders.ActsAs reader byDocument principal ∧
        ∃ role ∈ principal.roles, role ∈ RoleSet.ofList [⟨"reader"⟩]) ∧
      ∀ role ∈ RoleSet.ofList [⟨"reader"⟩], ∃ granting,
        northernReaders.roles.rolesGranting byDocument.resourceType byDocument.action =
          .ok granting ∧ role ∈ granting := by
  have hroles : northernReaders.authorizedRoles reader byDocument =
      .ok (.ofList [⟨"reader"⟩]) := by cbv
  have hgranted : northernReaders.hasPermission reader byDocument = .ok true := by cbv
  obtain ⟨hheld, hreported⟩ := held_role_of_authorizedRoles rfl hroles
  exact ⟨rfl, hroles, hgranted, hheld hgranted, hreported⟩

end AuthorizationService
end AccessPolicy
