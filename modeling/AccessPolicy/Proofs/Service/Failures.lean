/-
Why a check fails.

A check compiles the permissions that count and loads the rows they ask for.  Accepted
permissions compile, unless they compare with the roles of the principal.  A check that
only such permissions take part in fails for a reason that would remain without them:
nobody acts, the request is about something unknown, or entities cannot be had.
-/
import AccessPolicy.Proofs.Condition.Acceptance
import AccessPolicy.Proofs.Database.Permissions

namespace AccessPolicy

open Outcome (FailsOnly)

/-! ## Accepted permissions -/

namespace Permission

/-- The permission was found valid: by itself, on being made from a definition, or on being
read from its row. -/
inductive Accepted (registry : Registry) : Permission → Prop where
  | checked {p : Permission} (h : p.validate registry = .ok ()) : Accepted registry p
  | defined {d : PermissionDefinition} {id : Uuid} {p : Permission}
      (h : d.toPermission registry id = .ok p) : Accepted registry p
  | stored {row : PermissionRow} {roleKey : String} {p : Permission}
      (h : row.toPermission registry roleKey = .ok p) : Accepted registry p

/-- Some condition of the permission, on its type or on the context, compares with the
roles of the principal. -/
def comparesRoles (p : Permission) : Bool :=
  Condition.anyComparesRoles p.conditions ||
    match p.context with
    | none => false
    | some r => Condition.anyComparesRoles r.conditions

/-- The conditions compile on the type of the permission, and those on the context on the
type of the context. -/
def Compiles (registry : Registry) (principal : Principal) (p : Permission) : Prop :=
  (∃ q, Condition.compileAll registry principal p.conditions p.resourceType = .ok q) ∧
    ∀ r, p.context = some r →
      ∃ q, Condition.compileAll registry principal r.conditions r.resourceType = .ok q

variable {registry : Registry} {principal : Principal} {p : Permission}

theorem valid_of_row {row : PermissionRow} {roleKey : String}
    (h : row.toPermission registry roleKey = .ok p) : p.validate registry = .ok () := by
  rw [PermissionRow.toPermission] at h
  obtain ⟨type, _, h⟩ := Outcome.bind_eq_ok.mp h
  obtain ⟨action, _, h⟩ := Outcome.bind_eq_ok.mp h
  obtain ⟨conditions, _, h⟩ := Outcome.bind_eq_ok.mp h
  obtain ⟨context, _, h⟩ := Outcome.bind_eq_ok.mp h
  split at h
  · cases h
  · obtain ⟨_, hvalid, h⟩ := Outcome.bind_eq_ok.mp h
    cases h
    exact Outcome.mapError_eq_ok.mp hvalid

theorem Accepted.valid (h : p.Accepted registry) : p.validate registry = .ok () := by
  cases h with
  | checked h => exact h
  | defined h => exact PermissionDefinition.valid_of_toPermission h
  | stored h => exact valid_of_row h

theorem validateAll_of_validate (h : p.validate registry = .ok ()) :
    Condition.validateAll registry p.conditions p.resourceType = .ok () ∧
      ∀ r, p.context = some r →
        Condition.validateAll registry r.conditions r.resourceType = .ok () := by
  rw [validate] at h
  split at h
  · cases h
  · split at h
    · split at h
      · cases h
      · rename_i hconditions
        refine ⟨hconditions, fun r hr => ?_⟩
        rw [hr] at h
        simp only at h
        split at h
        · cases h
        · exact h
    · cases h

theorem compiles_iff (h : p.validate registry = .ok ()) :
    p.Compiles registry principal ↔ p.comparesRoles = false := by
  obtain ⟨hconditions, hcontext⟩ := validateAll_of_validate h
  have hown := Condition.exists_compileAll_iff principal hconditions
  rw [Compiles, comparesRoles, hown, Bool.or_eq_false_iff]
  refine and_congr_right fun _ => ?_
  cases hr : p.context with
  | none => exact ⟨fun _ => rfl, fun _ => nofun⟩
  | some r =>
    have hrequired := Condition.exists_compileAll_iff principal (hcontext r hr)
    simp only [Option.some.injEq, forall_eq', hrequired]

end Permission

/-! ## Rows -/

/-- Why rows cannot be loaded: a type has no loader, or its loader reports an error. -/
inductive Registry.LoadingFails (registry : Registry) (ambient : Ambient) :
    AuthorizationError → Prop where
  | missing {type : ResourceType} {e : ConfigurationError} (h : registry.loader type = .error e) :
      LoadingFails registry ambient (.configuration e)
  | reported {type : ResourceType} {loader : EntityLoader} {field : FieldPath} {value : Json}
      {e : StoreError} (hloader : registry.loader type = .ok loader)
      (h : loader ambient.bypassing field value = .error e) :
      LoadingFails registry ambient (.ofStore e)

section

variable {registry : Registry} {ambient : Ambient}

theorem Row.failsOnly_loadLevels (levels : Nat) :
    ∀ (attributes : Json) (p : Predicate),
      FailsOnly (Row.loadLevels registry ambient levels attributes p)
        (registry.LoadingFails ambient) := by
  induction levels with
  | zero => exact fun attributes p => Outcome.failsOnly_ok _
  | succ levels ih =>
    intro attributes p
    rw [Row.loadLevels]
    refine Outcome.failsOnly_bind (Outcome.failsOnly_mapM fun part _ => ?_) fun _ _ =>
      Outcome.failsOnly_ok _
    split
    · exact Outcome.failsOnly_ok _
    · refine Outcome.failsOnly_bind (Outcome.failsOnly_mapError fun e he => .missing he)
        fun loader hloader => ?_
      have hloader := Outcome.mapError_eq_ok.mp hloader
      refine Outcome.failsOnly_bind (Outcome.failsOnly_mapError fun e he => .reported hloader he)
        fun entities _ => ?_
      exact Outcome.failsOnly_bind (Outcome.failsOnly_mapM fun entity _ => ih entity part.2)
        fun rows _ => Outcome.failsOnly_ok _

namespace Specification

open AuthorizationError (liftConfiguration liftStore)

/-- Why a request fails whatever the permissions are.  Its type or the related type is not
registered, the related type has no readable identifier or no relation, its entity has no
attributes, rows cannot be loaded, or the related row does not exist. -/
inductive FailsAnyway (registry : Registry) (ambient : Ambient) (request : Request) :
    AuthorizationError → Prop where
  | unregistered {e : ConfigurationError}
      (h : registry.ensureRegistered request.resourceType = .error e) :
      FailsAnyway registry ambient request (.configuration e)
  | unserializable {entity : Entity} {e : ConfigurationError}
      (hsubject : request.subject.entity? = some entity)
      (h : entity.attributesAs request.resourceType = .error e) :
      FailsAnyway registry ambient request (.configuration e)
  | relatedUnregistered {type : ResourceType} {identifier : String} {e : ConfigurationError}
      (hsubject : request.subject = .related type identifier)
      (h : registry.ensureRegistered type = .error e) :
      FailsAnyway registry ambient request (.configuration e)
  | unidentified {type : ResourceType} {identifier name : String} {e : ConfigurationError}
      (hsubject : request.subject = .related type identifier)
      (hname : registry.identifierField type = .ok name) (h : FieldPath.parse name = .error e) :
      FailsAnyway registry ambient request (.configuration e)
  | unrelated {type : ResourceType} {identifier : String} {e : ConfigurationError}
      (hsubject : request.subject = .related type identifier)
      (h : registry.relation request.resourceType type = .error e) :
      FailsAnyway registry ambient request (.configuration e)
  | unloaded {e : AuthorizationError} (h : registry.LoadingFails ambient e) :
      FailsAnyway registry ambient request e
  | notFound {type : ResourceType} {identifier : String}
      (hsubject : request.subject = .related type identifier) :
      FailsAnyway registry ambient request (.relatedEntityNotFound type identifier)

variable {principal : Principal} {request : Request} {permissions : List Permission}

/-! ## Deciding -/

theorem failsOnly_decideOn (attributes : Json) (p : Predicate) :
    FailsOnly (decideOn registry ambient attributes p) (registry.LoadingFails ambient) := by
  rw [decideOn]
  split
  · exact Outcome.failsOnly_ok _
  · exact Outcome.failsOnly_map (Row.failsOnly_loadLevels _ attributes p)

theorem failsOnly_loadRelated {type : ResourceType} {field : FieldPath} {identifier : String}
    (hsubject : request.subject = .related type identifier) :
    FailsOnly (loadRelated registry ambient type field identifier)
      (FailsAnyway registry ambient request) := by
  rw [loadRelated]
  refine Outcome.failsOnly_bind
    (Outcome.failsOnly_mapError fun e he => .unloaded (.missing he)) fun loader hloader => ?_
  have hloader := Outcome.mapError_eq_ok.mp hloader
  refine Outcome.failsOnly_bind
    (Outcome.failsOnly_mapError fun e he => .unloaded (.reported hloader he)) fun found _ => ?_
  split
  · exact Outcome.failsOnly_ok _
  · exact Outcome.failsOnly_error (.notFound hsubject)

/-- What is decided on is what the request is about. -/
theorem failsOnly_isAuthorized {s : Specification}
    (h : compile registry ambient principal request permissions = .ok s) :
    FailsOnly (s.isAuthorized registry ambient) (FailsAnyway registry ambient request) := by
  have hdecided : ∀ attributes p, FailsOnly (decideOn registry ambient attributes p)
      (FailsAnyway registry ambient request) :=
    fun attributes p e he => .unloaded (failsOnly_decideOn attributes p e he)
  rw [isAuthorized]
  cases htarget : s.target with
  | entity attributes =>
    cases attributes with
    | none => exact Outcome.failsOnly_ok _
    | some attributes => exact hdecided attributes s.predicate
  | related type field identifier p =>
    have hsubject : request.subject = .related type identifier := by
      obtain ⟨_, rfl⟩ | ⟨_, applicable, _, hcompiled, _⟩ := of_compile h
      · cases htarget
      · rw [htarget, compileSubject] at hcompiled
        split at hcompiled
        · obtain ⟨_, _, _, _, _, hentity⟩ := of_compileEntity hcompiled
          cases hentity
        · obtain ⟨_, _, _, _, _, hentity⟩ := of_compileEntity hcompiled
          cases hentity
        · rename_i hsubject
          obtain ⟨_, _, _, _, _, _, _, _, hrelated, _⟩ := of_compileRelated hcompiled
          cases hrelated
          exact hsubject
    simp only
    split
    · exact Outcome.failsOnly_ok _
    · exact Outcome.failsOnly_bind (failsOnly_loadRelated hsubject)
        fun entity _ => hdecided entity p

/-! ## Compiling -/

/-- Of a permission that is accepted and does not compare with the roles. -/
def Harmless (registry : Registry) (p : Permission) : Prop :=
  p.validate registry = .ok () ∧ p.comparesRoles = false

theorem Harmless.compiles {p : Permission} (h : Harmless registry p) :
    p.Compiles registry principal :=
  (Permission.compiles_iff h.1).mpr h.2

theorem failsOnly_contextAllows {context : Option RequestContext} {p : Permission}
    (h : Harmless registry p) :
    FailsOnly (contextAllows registry ambient principal context p)
      (registry.LoadingFails ambient) := by
  rw [contextAllows]
  split
  · exact Outcome.failsOnly_ok _
  · rename_i requirement hrequirement
    split
    · exact Outcome.failsOnly_ok _
    · obtain ⟨q, hq⟩ := h.compiles.2 requirement hrequirement
      refine Outcome.failsOnly_bind
        (Outcome.failsOnly_mapError (Outcome.failsOnly_of_exists ⟨q, hq⟩)) fun _ _ => ?_
      exact Outcome.failsOnly_bind (Row.failsOnly_loadLevels _ _ _) fun _ _ =>
        Outcome.failsOnly_ok _

theorem failsOnly_applicablePermissions {context : Option RequestContext}
    (h : ∀ p ∈ permissions, Harmless registry p) :
    FailsOnly (applicablePermissions registry ambient principal context permissions)
      (registry.LoadingFails ambient) := by
  induction permissions with
  | nil => exact Outcome.failsOnly_ok _
  | cons p rest ih =>
    rw [List.forall_mem_cons] at h
    rw [applicablePermissions]
    refine Outcome.failsOnly_bind (failsOnly_contextAllows h.1) fun allowed _ => ?_
    exact Outcome.failsOnly_bind (ih h.2) fun others _ => Outcome.failsOnly_ok _

theorem failsOnly_compileEntity {entity : Option Entity}
    (hsubject : request.subject.entity? = entity)
    (h : ∀ p ∈ permissions, Harmless registry p ∧ p.resourceType = request.resourceType) :
    FailsOnly (compileEntity registry principal request.resourceType entity permissions)
      fun e => FailsAnyway registry ambient request (.configuration e) := by
  rw [compileEntity]
  refine Outcome.failsOnly_bind (Outcome.failsOnly_mapM fun p hp => ?_) fun _ _ => ?_
  · obtain ⟨hharmless, htype⟩ := h p hp
    rw [← htype]
    exact Outcome.failsOnly_of_exists hharmless.compiles.1
  · refine Outcome.failsOnly_bind ?_ fun _ _ => Outcome.failsOnly_ok _
    cases entity with
    | none => exact Outcome.failsOnly_ok _
    | some entity =>
      rw [Option.mapM_some]
      exact Outcome.failsOnly_map fun e he => .unserializable hsubject he

/-- The contents of containers are accepted on the type of the containers. -/
theorem validateAll_of_projectOnto {type related : ResourceType}
    (hrelated : registry.resourceType related.name = .ok related)
    {conditions projected : List Condition}
    (h : projectOnto related conditions = some projected)
    (hvalid : Condition.validateAll registry conditions type = .ok ())
    (hplain : Condition.anyComparesRoles conditions = false) :
    Condition.validateAll registry projected related = .ok () ∧
      Condition.anyComparesRoles projected = false := by
  obtain ⟨contents, rfl, rfl⟩ := eq_containers_of_projectOnto h
  clear h
  induction contents with
  | nil => exact ⟨rfl, rfl⟩
  | cons inner rest ih =>
    rw [List.map_cons, Condition.validateAll, Condition.validate, hrelated] at hvalid
    rw [List.map_cons, Condition.anyComparesRoles, Condition.comparesRoles,
      Bool.or_eq_false_iff] at hplain
    split at hvalid
    · cases hvalid
    · rename_i hfirst
      simp only at hfirst
      split at hfirst
      · cases hfirst
      · obtain ⟨hrest, hrestPlain⟩ := ih hvalid hplain.2
        rw [List.flatten_cons, Condition.validateAll_append, Condition.anyComparesRoles_append]
        exact ⟨⟨hfirst, hrest⟩, by rw [hplain.1, hrestPlain]; rfl⟩

theorem exists_relatedFragments {related : ResourceType} {relation : Option Relation}
    (hrelated : registry.resourceType related.name = .ok related)
    (hrelation : relation = none → related = request.resourceType)
    (h : ∀ p ∈ permissions, Harmless registry p ∧ p.resourceType = request.resourceType) :
    ∃ fragments, relatedFragments registry principal related relation permissions =
      .ok fragments := by
  induction permissions with
  | nil => exact ⟨[], rfl⟩
  | cons p rest ih =>
    rw [List.forall_mem_cons] at h
    obtain ⟨⟨hharmless, htype⟩, hrest⟩ := h
    obtain ⟨fragments, hfragments⟩ := ih hrest
    rw [relatedFragments_cons, hfragments]
    cases hconditions : conditionsOn related relation p with
    | none => exact ⟨fragments, rfl⟩
    | some conditions =>
      have hcompiled : ∃ q, Condition.compileAll registry principal conditions related = .ok q := by
        cases relation with
        | none =>
          cases hconditions
          rw [hrelation rfl, ← htype]
          exact hharmless.compiles.1
        | some r =>
          have hplain := (Bool.or_eq_false_iff.mp hharmless.2).1
          have hvalid := (Permission.validateAll_of_validate hharmless.1).1
          obtain ⟨hprojected, hprojectedPlain⟩ :=
            validateAll_of_projectOnto hrelated hconditions hvalid hplain
          exact (Condition.exists_compileAll_iff principal hprojected).mpr hprojectedPlain
      obtain ⟨q, hq⟩ := hcompiled
      exact ⟨q :: fragments, Outcome.bind_eq_ok.mpr ⟨q, hq, rfl⟩⟩

theorem failsOnly_compileRelated {related : ResourceType} {identifier : String}
    (hsubject : request.subject = .related related identifier)
    (h : ∀ p ∈ permissions, Harmless registry p ∧ p.resourceType = request.resourceType) :
    FailsOnly
      (compileRelated registry principal request.resourceType related identifier permissions)
      fun e => FailsAnyway registry ambient request (.configuration e) := by
  rw [compileRelated]
  refine Outcome.failsOnly_bind (fun e he => .relatedUnregistered hsubject he)
    fun _ hregistered => ?_
  obtain ⟨kind, hkind, _⟩ := Outcome.map_eq_ok.mp hregistered
  have hrelated := Registry.resourceType_of_registered hkind
  refine Outcome.failsOnly_bind (Outcome.failsOnly_of_exists ⟨kind.identifierField, ?_⟩)
    fun name hname => ?_
  · exact Outcome.map_eq_ok.mpr ⟨kind, hkind, rfl⟩
  refine Outcome.failsOnly_bind (fun e he => .unidentified hsubject hname he) fun field _ => ?_
  by_cases heq : related = request.resourceType
  · simp only [if_pos heq, pure_bind]
    exact Outcome.failsOnly_bind
      (Outcome.failsOnly_of_exists (exists_relatedFragments hrelated (fun _ => heq) h))
      fun _ _ => Outcome.failsOnly_ok _
  · simp only [if_neg heq]
    refine Outcome.failsOnly_bind (Outcome.failsOnly_map fun e he => .unrelated hsubject he)
      fun relation hrelation => ?_
    obtain ⟨r, _, rfl⟩ := Outcome.map_eq_ok.mp hrelation
    exact Outcome.failsOnly_bind
      (Outcome.failsOnly_of_exists (exists_relatedFragments hrelated
        (fun hnone => absurd hnone (Option.some_ne_none _)) h))
      fun _ _ => Outcome.failsOnly_ok _

/-- Compiling harmless permissions fails only as compiling none does. -/
theorem failsOnly_compile
    (h : ∀ p ∈ permissions, p.grants request.resourceType request.action = true →
      Harmless registry p) :
    FailsOnly (compile registry ambient principal request permissions)
      (FailsAnyway registry ambient request) := by
  have hgranting : ∀ p ∈ permissions.filter fun p =>
      p.grants request.resourceType request.action,
      Harmless registry p ∧ p.resourceType = request.resourceType := by
    intro p hp
    obtain ⟨hmem, hgrants⟩ := List.mem_filter.mp hp
    exact ⟨h p hmem hgrants, of_decide_eq_true (Bool.and_eq_true_iff.mp hgrants).1⟩
  rw [compile]
  split
  · exact Outcome.failsOnly_ok _
  · refine Outcome.failsOnly_bind (Outcome.failsOnly_mapError fun e he => .unregistered he)
      fun _ _ => ?_
    refine Outcome.failsOnly_bind (fun e he => .unloaded
      (failsOnly_applicablePermissions (fun p hp => (hgranting p hp).1) e he))
      fun applicable happlicable => ?_
    have hpart : ∀ p ∈ applicable, Harmless registry p ∧ p.resourceType = request.resourceType :=
      fun p hp => hgranting p (of_applicablePermissions happlicable p hp).1
    refine Outcome.failsOnly_bind (Outcome.failsOnly_mapError ?_) fun _ _ =>
      Outcome.failsOnly_ok _
    cases hsubject : request.subject with
    | entity entity => exact failsOnly_compileEntity (by rw [hsubject]; rfl) hpart
    | delegate user entity => exact failsOnly_compileEntity (by rw [hsubject]; rfl) hpart
    | related type identifier => exact failsOnly_compileRelated hsubject hpart

/-- A direct check compiles the conditions of every permission that takes part. -/
theorem exists_compileAll_of_compileSubject {applicable : List Permission}
    {compiled : Predicate × DecisionTarget}
    (hdirect : ∀ type identifier, request.subject ≠ .related type identifier)
    (h : compileSubject registry principal request applicable = .ok compiled)
    {p : Permission} (hp : p ∈ applicable) :
    ∃ q, Condition.compileAll registry principal p.conditions request.resourceType = .ok q := by
  rw [compileSubject_eq_compileEntity hdirect] at h
  obtain ⟨fragments, _, hfragments, _⟩ := of_compileEntity h
  obtain ⟨q, _, hq⟩ := Outcome.exists_of_forall₂ hfragments.flip p hp
  exact ⟨q, hq⟩

end Specification

end

/-! ## Checks -/

namespace AuthorizationService

open Specification (FailsAnyway Harmless)

section

variable {s : AuthorizationService} {permissions : List Permission}

/-- A check that only harmless permissions take part in fails because nobody acts, or for
a reason that lies in the request and the entities. -/
theorem failsOnly_hasPermission (hholds : s.roles.Holds permissions) {ambient : Ambient}
    {request : Request}
    (h : ∀ p ∈ permissions, p.grants request.resourceType request.action = true →
      Harmless s.registry p) :
    FailsOnly (s.hasPermission ambient request) fun e =>
      s.effectivePrincipal ambient request = .error e ∨
        FailsAnyway s.registry ambient request e := by
  rw [hasPermission]
  split
  · exact Outcome.failsOnly_ok _
  · rw [specification]
    split
    · exact Outcome.failsOnly_bind (Outcome.failsOnly_ok _) fun spec hspec => by
        cases hspec
        exact Outcome.failsOnly_ok false
    · refine Outcome.failsOnly_bind ?_ fun spec hspec => ?_
      · refine Outcome.failsOnly_bind (fun e he => .inl he) fun principal _ => ?_
        obtain ⟨found, hfound, hmem⟩ := resolvePermissions_of_holds hholds principal
          request.resourceType request.action
        rw [hfound]
        refine Outcome.failsOnly_bind (Outcome.failsOnly_ok _) fun _ hsame e he => .inr ?_
        cases hsame
        refine Specification.failsOnly_compile (fun p hp hgrants => ?_) e he
        exact h p (mem_heldGrants.mp ((hmem p).mp hp)).1 hgrants
      · obtain ⟨principal, _, hspec⟩ := Outcome.bind_eq_ok.mp hspec
        obtain ⟨found, _, hspec⟩ := Outcome.bind_eq_ok.mp hspec
        exact fun e he => .inr (Specification.failsOnly_isAuthorized hspec e he)

/-- An accepted permission compiles for a principal exactly when it does not compare with
the roles of the principal.  Where no permission for the type and the action does, a check
fails only because nobody acts, or for a reason that lies in the request and the entities. -/
theorem compiles_iff_of_accepted (haccepted : ∀ p ∈ permissions, p.Accepted s.registry) :
    (∀ p ∈ permissions, ∀ principal,
      p.Compiles s.registry principal ↔ p.comparesRoles = false) ∧
    (s.roles.Holds permissions → ∀ (ambient : Ambient) (request : Request),
      (∀ p ∈ permissions, p.grants request.resourceType request.action = true →
        p.comparesRoles = false) →
      ∀ e, s.hasPermission ambient request = .error e →
        s.effectivePrincipal ambient request = .error e ∨
          FailsAnyway s.registry ambient request e) := by
  constructor
  · exact fun p hp principal => Permission.compiles_iff (haccepted p hp).valid
  · intro hholds ambient request hplain
    refine failsOnly_hasPermission hholds fun p hp hgrants => ?_
    exact ⟨(haccepted p hp).valid, hplain p hp hgrants⟩

/-- No direct check that a permission without requirement on the context takes part in has
an answer, when the permission compares with the roles of the principal. -/
theorem hasPermission_ne_ok_of_comparesRoles (hholds : s.roles.Holds permissions)
    {ambient : Ambient} {request : Request} {principal : Principal} {p : Permission}
    (hbypass : ambient.isBypassed = false) (hdeny : request.action.isDeny = false)
    (hsubject : ∀ type identifier, request.subject ≠ .related type identifier)
    (hacts : s.ActsAs ambient request principal)
    (hp : p ∈ heldGrants permissions principal request.resourceType request.action)
    (hvalid : p.validate s.registry = .ok ()) (hcontext : p.context = none)
    (hcompares : p.comparesRoles = true) (decision : Bool) :
    s.hasPermission ambient request ≠ .ok decision := by
  intro h
  obtain ⟨principal', found, spec, hacts', hfound, hcompiled, _⟩ :=
    (hasPermission_eq_ok_iff hbypass hdeny).mp h
  obtain rfl : principal = principal' := by
    have hprincipal := effectivePrincipal_eq_ok_iff.mpr hacts
    rw [effectivePrincipal_eq_ok_iff.mpr hacts'] at hprincipal
    exact (Except.ok.inj hprincipal).symm
  obtain ⟨hmem, hrole, hgrants⟩ := mem_heldGrants.mp hp
  have hp := (mem_of_resolvePermissions hholds hfound p).mpr hp
  obtain ⟨hdenied, _⟩ | ⟨_, applicable, happlicable, hcompiled, _⟩ :=
    Specification.of_compile hcompiled
  · rw [hdeny] at hdenied
    cases hdenied
  have hallowed : Specification.contextAllows s.registry ambient principal request.context p =
      .ok true := by
    rw [Specification.contextAllows, hcontext]
  have happlies := (Specification.mem_applicablePermissions happlicable).mpr
    ⟨List.mem_filter.mpr ⟨hp, hgrants⟩, hallowed⟩
  have htype : p.resourceType = request.resourceType :=
    of_decide_eq_true (Bool.and_eq_true_iff.mp hgrants).1
  have hown :
      ∃ q, Condition.compileAll s.registry principal p.conditions p.resourceType = .ok q := by
    rw [htype]
    exact Specification.exists_compileAll_of_compileSubject hsubject hcompiled happlies
  have hplain := (Permission.compiles_iff hvalid).mp ⟨hown, by simp [hcontext]⟩
  rw [hcompares] at hplain
  cases hplain

end

/-! ## Roles as a value -/

open Specification.Absorption (request)

/-- Readers view the tasks of which a field stands in some relation to their roles. -/
def byRoles (field : String) (operator : Operator) : PermissionDefinition :=
  ⟨"task", "view", "reader", [.field field operator (.string Condition.currentUserRoles)], none, []⟩

/-- The permission of such a definition. -/
def byRolesPermission (field : String) (operator : Operator) : Permission :=
  ⟨.issued 0, ⟨"reader"⟩, WorkflowKind.task.type, .view, (byRoles field operator).conditions, none⟩

def rolesService (field : String) (operator : Operator) : AuthorizationService :=
  ⟨Specification.Absorption.registry,
    (MemoryRepository.empty.grant (byRolesPermission field operator)).repository, .ambient⟩

/-- Membership in the roles is accepted and compiles for everybody, and a check fails only
where nobody acts. -/
theorem compiles_iff_of_accepted_group :
    (∀ p ∈ [byRolesPermission "candidate_group" .isIn],
      p.Accepted (rolesService "candidate_group" .isIn).registry) ∧
    (∀ principal, (byRolesPermission "candidate_group" .isIn).Compiles
      Specification.Absorption.registry principal) ∧
    (rolesService "candidate_group" .isIn).hasPermission reader request = .ok false ∧
    (rolesService "candidate_group" .isIn).hasPermission .fresh request = .error .noPrincipal ∧
    ((rolesService "candidate_group" .isIn).effectivePrincipal .fresh request =
        .error .noPrincipal ∨
      FailsAnyway Specification.Absorption.registry .fresh request .noPrincipal) := by
  have haccepted : ∀ p ∈ [byRolesPermission "candidate_group" .isIn],
      p.Accepted (rolesService "candidate_group" .isIn).registry :=
    List.forall_mem_singleton.mpr (.defined (d := byRoles "candidate_group" .isIn) rfl)
  obtain ⟨hcompiles, hfails⟩ := compiles_iff_of_accepted haccepted
  have hnobody : (rolesService "candidate_group" .isIn).hasPermission .fresh request =
      .error .noPrincipal := rfl
  refine ⟨haccepted, fun principal => ?_, by decide +kernel, hnobody, ?_⟩
  · exact (hcompiles _ List.mem_cons_self principal).mpr rfl
  · exact hfails (MemoryRepository.holds _) .fresh request (by decide) _ hnobody

/-- A definition that compares with the roles is accepted, and then no check that a reader
makes of its action has an answer. -/
theorem not_compiles_of_accepted_assignee :
    (byRolesPermission "assignee" (.compare .notEqual)).Accepted
      Specification.Absorption.registry ∧
    (∀ principal, ¬ (byRolesPermission "assignee" (.compare .notEqual)).Compiles
      Specification.Absorption.registry principal) ∧
    (∀ (ambient : Ambient) (principal : Principal), ambient.isBypassed = false →
      (rolesService "assignee" (.compare .notEqual)).ActsAs ambient request principal →
      ⟨"reader"⟩ ∈ principal.roles → ∀ decision,
        (rolesService "assignee" (.compare .notEqual)).hasPermission ambient request ≠
          .ok decision) ∧
    (rolesService "assignee" (.compare .notEqual)).hasPermission reader request =
      .error (.configuration (Condition.listRefused "assignee")) := by
  have haccepted : (byRolesPermission "assignee" (.compare .notEqual)).Accepted
      Specification.Absorption.registry :=
    .defined (d := byRoles "assignee" (.compare .notEqual)) rfl
  refine ⟨haccepted, fun principal hcompiles => ?_, ?_, by decide +kernel⟩
  · have hplain := (Permission.compiles_iff haccepted.valid).mp hcompiles
    exact absurd hplain (by decide)
  · intro ambient principal hbypass hacts hrole
    refine hasPermission_ne_ok_of_comparesRoles (MemoryRepository.holds _) hbypass rfl nofun hacts
      (mem_heldGrants.mpr ⟨List.mem_cons_self, hrole, by decide⟩) haccepted.valid rfl (by decide)

end AuthorizationService
end AccessPolicy
