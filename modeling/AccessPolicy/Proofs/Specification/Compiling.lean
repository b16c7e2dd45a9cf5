/-
What compiling a specification gives.

Compiling is taken apart here once: into the permissions that take part, the
fragments of their conditions and the union of the fragments.  Everything known
about the predicates of a specification follows from these steps.
-/
import AccessPolicy.Specification
import AccessPolicy.Proofs.Condition.Meaning

namespace AccessPolicy

/-- A registered type is the one its name leads to. -/
theorem Registry.resourceType_of_registered {registry : Registry} {type : ResourceType}
    {kind : ResourceKind} (h : registry.registered type = .ok kind) :
    registry.resourceType type.name = .ok type := by
  rw [registered] at h
  rw [resourceType]
  cases hfind : registry.kinds.find? fun k => k.type.name == type.name with
  | none => rw [hfind] at h; cases h
  | some found =>
    rw [hfind] at h
    simp only at h ⊢
    split at h
    · rename_i htype
      rw [htype]
    · cases h

namespace Specification

open AuthorizationError (liftConfiguration)

variable {registry : Registry} {ambient : Ambient} {principal : Principal}

/-! ## Permissions that take part -/

theorem mem_applicablePermissions {context : Option RequestContext}
    {permissions : List Permission} {p : Permission} :
    ∀ {applicable : List Permission},
      applicablePermissions registry ambient principal context permissions = .ok applicable →
      (p ∈ applicable ↔ p ∈ permissions ∧
        contextAllows registry ambient principal context p = .ok true) := by
  induction permissions with
  | nil =>
    intro applicable h
    rw [applicablePermissions] at h
    cases h
    simp
  | cons first rest ih =>
    intro applicable h
    rw [applicablePermissions] at h
    obtain ⟨allowed, hallowed, h⟩ := Outcome.bind_eq_ok.mp h
    obtain ⟨others, hothers, h⟩ := Outcome.bind_eq_ok.mp h
    have hrest := ih hothers
    cases allowed with
    | false =>
      cases h
      -- The first permission does not take part, so it is a member on neither side.
      have hfirst : p = first →
          ¬ contextAllows registry ambient principal context p = .ok true := by
        rintro rfl htrue
        rw [hallowed] at htrue
        cases htrue
      show p ∈ others ↔ _
      rw [hrest, List.mem_cons]
      exact ⟨fun h => ⟨.inr h.1, h.2⟩, fun h => ⟨h.1.resolve_left fun e => hfirst e h.2, h.2⟩⟩
    | true =>
      cases h
      show p ∈ first :: others ↔ _
      rw [List.mem_cons, List.mem_cons, hrest]
      constructor
      · rintro (rfl | ⟨hmem, htrue⟩)
        · exact ⟨.inl rfl, hallowed⟩
        · exact ⟨.inr hmem, htrue⟩
      · rintro ⟨rfl | hmem, htrue⟩
        · exact .inl rfl
        · exact .inr ⟨hmem, htrue⟩

/-- Nothing but the check of some permission's context keeps the others from being
found. -/
theorem exists_applicablePermissions {context : Option RequestContext}
    {permissions : List Permission} :
    (∃ applicable,
        applicablePermissions registry ambient principal context permissions = .ok applicable) ↔
      ∀ p ∈ permissions, ∃ allowed,
        contextAllows registry ambient principal context p = .ok allowed := by
  induction permissions with
  | nil => exact ⟨fun _ p hp => (List.not_mem_nil hp).elim, fun _ => ⟨[], rfl⟩⟩
  | cons first rest ih =>
    rw [List.forall_mem_cons, ← ih]
    constructor
    · rintro ⟨applicable, h⟩
      rw [applicablePermissions] at h
      obtain ⟨allowed, hallowed, h⟩ := Outcome.bind_eq_ok.mp h
      obtain ⟨others, hothers, _⟩ := Outcome.bind_eq_ok.mp h
      exact ⟨⟨allowed, hallowed⟩, others, hothers⟩
    · rintro ⟨⟨allowed, hallowed⟩, others, hothers⟩
      refine ⟨if allowed then first :: others else others, ?_⟩
      rw [applicablePermissions, hallowed, hothers]
      rfl

theorem of_applicablePermissions {context : Option RequestContext} {permissions : List Permission}
    {applicable : List Permission}
    (h : applicablePermissions registry ambient principal context permissions = .ok applicable) :
    ∀ p ∈ applicable, p ∈ permissions ∧
      contextAllows registry ambient principal context p = .ok true :=
  fun _ hp => (mem_applicablePermissions h).mp hp

/-! ## Entity requests -/

/-- The predicate of an entity request is the union of the permissions'
conditions, and it is decided on the entity of the request. -/
theorem of_compileEntity {type : ResourceType} {entity : Option Entity}
    {applicable : List Permission} {predicate : Predicate} {target : DecisionTarget}
    (h : compileEntity registry principal type entity applicable = .ok (predicate, target)) :
    ∃ fragments attributes,
      List.Forall₂ (fun p q => Condition.compileAll registry principal p.conditions type = .ok q)
        applicable fragments ∧
      entity.mapM (fun e => e.attributesAs type) = .ok attributes ∧
      predicate = .any fragments ∧ target = .entity attributes := by
  rw [compileEntity] at h
  obtain ⟨fragments, hfragments, h⟩ := Outcome.bind_eq_ok.mp h
  obtain ⟨attributes, hattributes, h⟩ := Outcome.bind_eq_ok.mp h
  cases h
  exact ⟨fragments, attributes, Outcome.forall₂_of_mapM hfragments, hattributes, rfl, rfl⟩

/-! ## Requests by way of a related entity -/

/-- The conditions of a permission as they apply to a related entity: all of
them when the related type is the requested one, and else the contents of the
containers, when there is nothing but containers of the related type. -/
def conditionsOn (related : ResourceType) (relation : Option Relation) (p : Permission) :
    Option (List Condition) :=
  match relation with
  | none => some p.conditions
  | some _ => projectOnto related p.conditions

/-- Conditions are projected onto a type when they are containers of it, and then to the
contents of the containers. -/
theorem eq_containers_of_projectOnto {related : ResourceType} {conditions : List Condition} :
    ∀ {projected : List Condition}, projectOnto related conditions = some projected →
      ∃ contents : List (List Condition),
        conditions = contents.map (.container related.name) ∧ projected = contents.flatten := by
  induction conditions with
  | nil =>
    intro projected h
    rw [projectOnto] at h
    cases h
    exact ⟨[], rfl, rfl⟩
  | cons first rest ih =>
    intro projected h
    cases first with
    | field text operator value =>
      rw [projectOnto] at h
      cases h
    | container name inner =>
      rw [projectOnto] at h
      split at h
      · rename_i hname
        obtain ⟨others, hothers, rfl⟩ := Option.map_eq_some_iff.mp h
        obtain ⟨contents, rfl, rfl⟩ := ih hothers
        exact ⟨inner :: contents, by rw [hname, List.map_cons], rfl⟩
      · cases h

/-- What is true of all projected conditions is true of the contents of the containers. -/
theorem of_projectOnto {related : ResourceType} {P : Condition → Prop}
    {conditions projected : List Condition} (h : projectOnto related conditions = some projected)
    (hprojected : ∀ c ∈ projected, P c) :
    ∀ c ∈ conditions, ∃ inner, c = .container related.name inner ∧ ∀ d ∈ inner, P d := by
  obtain ⟨contents, rfl, rfl⟩ := eq_containers_of_projectOnto h
  intro c hc
  obtain ⟨inner, hinner, rfl⟩ := List.mem_map.mp hc
  exact ⟨inner, rfl, fun d hd => hprojected d (List.mem_flatten.mpr ⟨inner, hinner, hd⟩)⟩

theorem relatedFragments_cons (related : ResourceType) (relation : Option Relation)
    (first : Permission) (rest : List Permission) :
    relatedFragments registry principal related relation (first :: rest) =
      (conditionsOn related relation first).elim
        (relatedFragments registry principal related relation rest)
        fun conditions => Condition.compileAll registry principal conditions related >>=
          fun fragment => (relatedFragments registry principal related relation rest).map
            (fragment :: ·) := by
  cases hconditions : conditionsOn related relation first with
  | none => cases relation <;> simp_all [relatedFragments, conditionsOn]
  | some conditions => cases relation <;> simp_all [relatedFragments, conditionsOn] <;> rfl

theorem of_relatedFragments {related : ResourceType} {relation : Option Relation}
    {permissions : List Permission} :
    ∀ {fragments : List Predicate},
      relatedFragments registry principal related relation permissions = .ok fragments →
      ∀ q ∈ fragments, ∃ p ∈ permissions, ∃ conditions,
        conditionsOn related relation p = some conditions ∧
        Condition.compileAll registry principal conditions related = .ok q := by
  induction permissions with
  | nil =>
    intro fragments h
    rw [relatedFragments] at h
    cases h
    intro q hq
    cases hq
  | cons first rest ih =>
    intro fragments h
    rw [relatedFragments_cons] at h
    cases hconditions : conditionsOn related relation first with
    | none =>
      rw [hconditions] at h
      intro q hq
      obtain ⟨p, hp, hq⟩ := ih h q hq
      exact ⟨p, List.mem_cons_of_mem _ hp, hq⟩
    | some conditions =>
      rw [hconditions] at h
      obtain ⟨fragment, hfragment, h⟩ := Outcome.bind_eq_ok.mp h
      obtain ⟨others, hothers, rfl⟩ := Outcome.map_eq_ok.mp h
      intro q hq
      rcases List.mem_cons.mp hq with rfl | hq
      · exact ⟨first, List.mem_cons_self, conditions, hconditions, hfragment⟩
      · obtain ⟨p, hp, hq⟩ := ih hothers q hq
        exact ⟨p, List.mem_cons_of_mem _ hp, hq⟩

/-- A request by way of a related entity is decided on the row with the
identifier, by the union of the fragments about the related type. -/
theorem of_compileRelated {type related : ResourceType} {identifier : String}
    {applicable : List Permission} {predicate : Predicate} {target : DecisionTarget}
    (h : compileRelated registry principal type related identifier applicable =
      .ok (predicate, target)) :
    ∃ name field relation fragments,
      registry.identifierField related = .ok name ∧ FieldPath.parse name = .ok field ∧
      (relation = none ∧ related = type ∨
        ∃ r, relation = some r ∧ related ≠ type ∧ registry.relation type related = .ok r) ∧
      relatedFragments registry principal related relation applicable = .ok fragments ∧
      target = .related related field identifier (.any fragments) ∧
      predicate = (match relation with
        | none => (Predicate.equal field (.string identifier)).both (.any fragments)
        | some r => .someRelated r
            ((Predicate.equal field (.string identifier)).both (.any fragments))) := by
  rw [compileRelated] at h
  obtain ⟨_, _, h⟩ := Outcome.bind_eq_ok.mp h
  obtain ⟨name, hname, h⟩ := Outcome.bind_eq_ok.mp h
  obtain ⟨field, hfield, h⟩ := Outcome.bind_eq_ok.mp h
  by_cases heq : related = type
  · simp only [if_pos heq, pure_bind] at h
    obtain ⟨fragments, hfragments, h⟩ := Outcome.bind_eq_ok.mp h
    cases h
    exact ⟨name, field, none, fragments, hname, hfield, .inl ⟨rfl, heq⟩, hfragments, rfl, rfl⟩
  · simp only [if_neg heq] at h
    obtain ⟨_, hsome, h⟩ := Outcome.bind_eq_ok.mp h
    obtain ⟨relation, hrelation, rfl⟩ := Outcome.map_eq_ok.mp hsome
    obtain ⟨fragments, hfragments, h⟩ := Outcome.bind_eq_ok.mp h
    cases h
    exact ⟨name, field, some relation, fragments, hname, hfield,
      .inr ⟨relation, rfl, heq, hrelation⟩, hfragments, rfl, rfl⟩

/-! ## Specifications -/

/-- The predicate and the target of a request, from the permissions that take
part. -/
def compileSubject (registry : Registry) (principal : Principal) (request : Request)
    (applicable : List Permission) : Except ConfigurationError (Predicate × DecisionTarget) :=
  match request.subject with
  | .entity entity => compileEntity registry principal request.resourceType entity applicable
  | .delegate _ entity => compileEntity registry principal request.resourceType entity applicable
  | .related related identifier =>
    compileRelated registry principal request.resourceType related identifier applicable

/-- A request that names no related entity is compiled from the conditions of all
permissions that take part. -/
theorem compileSubject_eq_compileEntity {request : Request}
    (hsubject : ∀ type identifier, request.subject ≠ .related type identifier)
    (applicable : List Permission) :
    compileSubject registry principal request applicable =
      compileEntity registry principal request.resourceType request.subject.entity?
        applicable := by
  rw [compileSubject]
  cases hrequest : request.subject with
  | entity entity => rfl
  | delegate user entity => rfl
  | related type identifier => exact absurd hrequest (hsubject type identifier)

/-- A request enters the specification by its type and action, by its context and by its
subject, each in one place. -/
theorem compile_eq {request : Request} (hdeny : request.action.isDeny = false)
    (permissions : List Permission) :
    compile registry ambient principal request permissions =
      (liftConfiguration (registry.ensureRegistered request.resourceType) >>= fun _ =>
        applicablePermissions registry ambient principal request.context
            (permissions.filter fun p => p.grants request.resourceType request.action) >>=
          fun applicable =>
            (liftConfiguration (compileSubject registry principal request applicable)).map
              fun compiled => ⟨request.resourceType, request.action, compiled.1,
                !applicable.isEmpty, compiled.2⟩) := by
  rw [compile, if_neg (Bool.eq_false_iff.mp hdeny)]
  rfl

theorem of_compile {request : Request} {permissions : List Permission} {s : Specification}
    (h : compile registry ambient principal request permissions = .ok s) :
    (request.action.isDeny = true ∧ s = denied request.resourceType request.action) ∨
      (request.action.isDeny = false ∧ ∃ applicable,
        applicablePermissions registry ambient principal request.context
          (permissions.filter fun p => p.grants request.resourceType request.action) =
            .ok applicable ∧
        compileSubject registry principal request applicable = .ok (s.predicate, s.target) ∧
        s.applicable = !applicable.isEmpty) := by
  rw [compile] at h
  cases hdeny : request.action.isDeny with
  | true =>
    rw [hdeny] at h
    cases h
    exact .inl ⟨rfl, rfl⟩
  | false =>
    rw [hdeny] at h
    refine .inr ⟨rfl, ?_⟩
    obtain ⟨_, _, h⟩ := Outcome.bind_eq_ok.mp h
    obtain ⟨applicable, happlicable, h⟩ := Outcome.bind_eq_ok.mp h
    obtain ⟨⟨predicate, target⟩, hsubject, h⟩ := Outcome.bind_eq_ok.mp h
    cases h
    exact ⟨applicable, happlicable, Outcome.mapError_eq_ok.mp hsubject, rfl⟩

end Specification
end AccessPolicy
