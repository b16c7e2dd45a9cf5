/-
What becomes of a granted request when more permissions are granted.

Permissions are joined by or, so by its meaning the policy only ever grants more.
The rows of related entities, however, are fetched for all permissions together, and
a further permission may absorb the filter for which a row below was fetched.  A
request that was granted stays granted exactly when what is then fetched still shows
what the permissions mean.
-/
import AccessPolicy.Proofs.Service.Holdings

namespace AccessPolicy

namespace Specification

/-- The predicate that is decided on the rows of a request. -/
def decided (s : Specification) : Predicate :=
  match s.target with
  | .entity _ => s.predicate
  | .related _ _ _ predicate => predicate

/-- What the specification grants when a predicate is decided by a part of it. -/
def Grants (registry : Registry) (ambient : Ambient) (part : Predicate → Predicate)
    (s : Specification) : Prop :=
  match s.target with
  | .entity none => s.applicable = true
  | .entity (some attributes) =>
    Predicate.satisfies (registry.interpretation ambient) (part s.decided) attributes = true
  | .related type field identifier _ =>
    ∃ row, loadRelated registry ambient type field identifier = .ok row ∧
      Predicate.satisfies (registry.interpretation ambient) (part s.decided) row = true

section

variable {registry : Registry} {ambient : Ambient} {request : Request}
  {assemble : Predicate → Predicate × DecisionTarget} {fs fs' : List Predicate}
  {applicable applicable' : Bool}

theorem decided_assembled (hassemble : assembly registry request = .ok assemble) :
    (assembled request assemble fs applicable).decided = .any fs := by
  rw [decided, assembled]
  obtain ⟨attributes, hentity⟩ | ⟨related, identifier, joined, rfl⟩ := of_assembly hassemble
  · simp only [hentity]
  · rfl

/-- A specification grants what the fetched part of its predicate grants. -/
theorem isAuthorized_iff_grants_fetched (hassemble : assembly registry request = .ok assemble)
    (hdrawn : ∀ q ∈ fs, q.DrawnFrom registry) {decision : Bool}
    (h : (assembled request assemble fs applicable).isAuthorized registry ambient =
      .ok decision) :
    decision = true ↔
      (assembled request assemble fs applicable).Grants registry ambient Predicate.fetched := by
  have hunion : (Predicate.any fs).DrawnFrom registry := Predicate.relationsIn_any hdrawn
  rw [Grants, decided_assembled hassemble]
  rw [isAuthorized] at h
  obtain ⟨attributes, hentity⟩ | ⟨related, identifier, joined, rfl⟩ := of_assembly hassemble
  · simp only [assembled, hentity] at h ⊢
    cases attributes with
    | none =>
      cases h
      exact Iff.rfl
    | some attributes => rw [of_decideOn hunion h]
  · simp only [assembled, onRelated] at h ⊢
    by_cases hnever : (Predicate.any fs).isUnsatisfiable = true
    · rw [if_pos hnever] at h
      cases h
      -- Nothing is loaded for the false literal, which no row satisfies.
      rw [Predicate.eq_never_of_isUnsatisfiable hnever]
      constructor
      · intro h
        cases h
      · rintro ⟨row, _, hrow⟩
        exact hrow
    · rw [if_neg hnever] at h
      obtain ⟨row, hrow, h⟩ := Outcome.bind_eq_ok.mp h
      rw [of_decideOn hunion h]
      constructor
      · intro hholds
        exact ⟨row, hrow, hholds⟩
      · rintro ⟨row', hrow', hholds⟩
        obtain rfl : row = row' := Except.ok.inj (hrow.symm.trans hrow')
        exact hholds

/-- By its meaning a specification grants at least what some of its fragments
grant. -/
theorem grants_mono (hassemble : assembly registry request = .ok assemble) (hfs : fs ⊆ fs')
    (happlicable : applicable = true → applicable' = true)
    (h : (assembled request assemble fs applicable).Grants registry ambient Predicate.fetched) :
    (assembled request assemble fs' applicable').Grants registry ambient id := by
  have hgrow : ∀ row,
      Predicate.satisfies (registry.interpretation ambient) (Predicate.any fs).fetched row = true →
        Predicate.satisfies (registry.interpretation ambient) (id (Predicate.any fs')) row =
          true := by
    intro row hrow
    have hdirect := Predicate.satisfies_of_within _ hrow
    rw [Predicate.satisfies_any, List.any_eq_true] at hdirect
    obtain ⟨q, hq, hsatisfies⟩ := hdirect
    rw [id, Predicate.satisfies_any, List.any_eq_true]
    exact ⟨q, hfs hq, hsatisfies⟩
  rw [Grants, decided_assembled hassemble] at h ⊢
  obtain ⟨attributes, hentity⟩ | ⟨related, identifier, joined, rfl⟩ := of_assembly hassemble
  · simp only [assembled, hentity] at h ⊢
    cases attributes with
    | none => exact happlicable h
    | some attributes => exact hgrow attributes h
  · simp only [assembled, onRelated] at h ⊢
    obtain ⟨row, hrow, h⟩ := h
    exact ⟨row, hrow, hgrow row h⟩

end

end Specification

namespace AuthorizationService

section

variable {s s' : AuthorizationService} {ambient : Ambient} {request : Request}
  {permissions permissions' : List Permission}

/-- Terms that count still count when more permissions are held. -/
theorem requestedTerms_subset {principal : Principal} {found found' : List Permission}
    (hholds : s.roles.Holds permissions) (hholds' : s'.roles.Holds permissions')
    (hmore : ∀ p ∈ permissions, ∃ id, { p with id := id } ∈ permissions')
    (h : s.resolvePermissions principal request.resourceType request.action = .ok found)
    (h' : s'.resolvePermissions principal request.resourceType request.action = .ok found') :
    Specification.requestedTerms request found ⊆ Specification.requestedTerms request found' := by
  intro terms hterms
  rw [terms_of_resolvePermissions (mem_of_resolvePermissions hholds h)] at hterms
  rw [terms_of_resolvePermissions (mem_of_resolvePermissions hholds' h')]
  obtain ⟨p, hp, rfl⟩ := List.mem_map.mp hterms
  obtain ⟨hp, hrole, hgrants⟩ := mem_heldGrants.mp hp
  obtain ⟨id, hid⟩ := hmore p hp
  exact List.mem_map.mpr ⟨{ p with id := id }, mem_heldGrants.mpr ⟨hid, hrole, hgrants⟩, rfl⟩

/-- A request that was granted is, with more permissions, still granted by what the
specification means.  It stays granted exactly when the fetched part of the predicate
shows as much, and always does where nothing is absorbed. -/
theorem granted_after_granting_iff (hagrees : s.AgreesOn s' request)
    (hholds : s.roles.Holds permissions) (hholds' : s'.roles.Holds permissions')
    (hmore : ∀ p ∈ permissions, ∃ id, { p with id := id } ∈ permissions')
    (hbypass : ambient.isBypassed = false) (hgranted : s.hasPermission ambient request = .ok true)
    {decision : Bool} (h : s'.hasPermission ambient request = .ok decision) :
    ∃ spec, s'.specification ambient request = .ok spec ∧
      spec.Grants s'.registry ambient id ∧
      (decision = true ↔ spec.Grants s'.registry ambient Predicate.fetched) ∧
      (spec.decided.Unabsorbed → decision = true) := by
  have hdeny : request.action.isDeny = false := by
    rw [Bool.eq_false_iff]
    exact fun hdeny => (justified_of_hasPermission hbypass hgranted).1 (of_decide_eq_true hdeny)
  obtain ⟨principal, found, spec, hacts, hfound, hspec, hauthorized⟩ :=
    (hasPermission_eq_ok_iff hbypass hdeny).mp hgranted
  obtain ⟨principal', found', spec', hacts', hfound', hspec', hauthorized'⟩ :=
    (hasPermission_eq_ok_iff hbypass hdeny).mp h
  have hprincipal : principal' = principal := by
    have hacts' := effectivePrincipal_eq_ok_iff.mpr ((hagrees.actsAs principal').mp hacts')
    exact Except.ok.inj (hacts'.symm.trans (effectivePrincipal_eq_ok_iff.mpr hacts))
  subst hprincipal
  rw [hagrees.registry] at hspec' hauthorized'
  have hterms := requestedTerms_subset hholds hholds' hmore hfound hfound'
  obtain ⟨assemble, fs, fs', applicable, applicable', hassemble, rfl, rfl, hfs, happlicable,
    hplain⟩ := Specification.fragments_grow hdeny hterms hspec hspec'
  have hdrawn : ∀ q ∈ fs', q.DrawnFrom s.registry := fun q hq => (hplain q hq).1
  have hdecision := Specification.isAuthorized_iff_grants_fetched hassemble hdrawn hauthorized'
  have hdirect := Specification.grants_mono hassemble hfs happlicable
    ((Specification.isAuthorized_iff_grants_fetched hassemble (fun q hq => hdrawn q (hfs hq))
      hauthorized).mp rfl)
  rw [hagrees.registry]
  refine ⟨_, ?_, hdirect, hdecision, fun hunabsorbed => hdecision.mpr ?_⟩
  · rw [specification, if_neg (Bool.eq_false_iff.mp hdeny), hagrees.registry]
    refine Outcome.bind_eq_ok.mpr ⟨principal', effectivePrincipal_eq_ok_iff.mpr hacts', ?_⟩
    exact Outcome.bind_eq_ok.mpr ⟨found', hfound', hspec'⟩
  · rw [Specification.Grants, Predicate.fetched_eq_self hunabsorbed]
    exact hdirect

end

/-! ## A permission beside that of the northern readers -/

open Specification.Absorption

/-- The readers of the north with one more permission. -/
def northernReadersAnd (p : Permission) : AuthorizationService :=
  { northernReaders with
    roles := ((MemoryRepository.empty.grant (grant [northernDocument])).grant p).repository }

def ownTask : Condition := .field "assignee" (.compare .equal) (.string "user")

/-- Readers also view their own tasks.  The task of the document stays granted. -/
theorem granted_after_granting_iff_own_task :
    northernReaders.AgreesOn (northernReadersAnd (grant [ownTask])) request ∧
      northernReaders.roles.Holds [grant [northernDocument]] ∧
      (northernReadersAnd (grant [ownTask])).roles.Holds
        [grant [northernDocument], grant [ownTask]] ∧
      (∀ p ∈ [grant [northernDocument]], ∃ id,
        { p with id := id } ∈ [grant [northernDocument], grant [ownTask]]) ∧
      reader.isBypassed = false ∧ northernReaders.hasPermission reader request = .ok true ∧
      (northernReadersAnd (grant [ownTask])).hasPermission reader request = .ok true ∧
      ∃ spec, (northernReadersAnd (grant [ownTask])).specification reader request = .ok spec ∧
        spec.Grants northernReaders.registry reader id ∧
        (true = true ↔ spec.Grants northernReaders.registry reader Predicate.fetched) ∧
        (spec.decided.Unabsorbed → true = true) := by
  have hagrees : northernReaders.AgreesOn (northernReadersAnd (grant [ownTask])) request :=
    ⟨rfl, rfl, fun _ _ _ => rfl⟩
  have hmore : ∀ p ∈ [grant [northernDocument]], ∃ id,
      { p with id := id } ∈ [grant [northernDocument], grant [ownTask]] := by
    intro p hp
    exact ⟨p.id, List.mem_cons.mpr (.inl (List.mem_singleton.mp hp))⟩
  have hgranted : northernReaders.hasPermission reader request = .ok true := by cbv
  have hstill : (northernReadersAnd (grant [ownTask])).hasPermission reader request =
      .ok true := by cbv
  have hholds := MemoryRepository.holds ⟨[grant [northernDocument]], []⟩
  have hholds' := MemoryRepository.holds ⟨[grant [northernDocument], grant [ownTask]], []⟩
  exact ⟨hagrees, hholds, hholds', hmore, rfl, hgranted, hstill,
    granted_after_granting_iff hagrees hholds hholds' hmore rfl hgranted hstill⟩

/-- Readers also view their own tasks that have a document.  The new permission is
valid, and with it the task that was granted to the reader is refused: its document is
fetched for both permissions together, and none of the tasks of the document. -/
theorem revoked_by_granting :
    (grant [ownTask, .container "document" []]).validate northernReaders.registry = .ok () ∧
      northernReaders.hasPermission reader request = .ok true ∧
      (northernReadersAnd (grant [ownTask, .container "document" []])).hasPermission reader
        request = .ok false := by
  have hvalid : (grant [ownTask, .container "document" []]).validate northernReaders.registry =
      .ok () := by cbv
  have hgranted : northernReaders.hasPermission reader request = .ok true := by cbv
  have hrefused : (northernReadersAnd (grant [ownTask, .container "document" []])).hasPermission
      reader request = .ok false := by cbv
  exact ⟨hvalid, hgranted, hrefused⟩

end AuthorizationService
end AccessPolicy
