/-
Requests by way of a related row.

Such a request keeps the permissions that ask for nothing but rows of the related type,
and asks it of the one row that it names.  Its predicate never holds of a row that the
permissions themselves do not grant.  What it answers about the named row is what it
answers about the rows that are joined to it.
-/
import AccessPolicy.Proofs.Specification.Policy
import AccessPolicy.Proofs.Specification.Terms

namespace AccessPolicy

namespace Json

theorem agrees_string_iff {a : Json} {text : String} :
    a.agrees (.string text) = true ↔ a = .string text := by
  cases a with
  | string s =>
    show (s == text) = true ↔ _
    rw [beq_iff_eq, Json.string.injEq]
  | _ => exact iff_of_false (by intro h; cases h) (by intro h; cases h)

end Json

namespace Comparison

theorem equal_test_string_iff {stored : Option Json} {text : String} :
    equal.test stored (.string text) = true ↔ stored = some (.string text) := by
  rw [test, if_neg (by exact Bool.false_ne_true)]
  cases stored with
  | none => exact iff_of_false (by intro h; cases h) (by intro h; cases h)
  | some a =>
    rw [Option.some.injEq, ← Json.agrees_string_iff]
    cases a with
    | null => exact iff_of_false (by intro h; cases h) (by intro h; cases h)
    | _ => exact Iff.rfl

end Comparison

namespace Registry

/-- The entity has the identifier, in the field by which its type is identified. -/
def Identifies (registry : Registry) (type : ResourceType) (identifier : String) (entity : Json) :
    Prop :=
  ∃ name field, registry.identifierField type = .ok name ∧ FieldPath.parse name = .ok field ∧
    field.resolve entity = some (.string identifier)

/-- No two of the entities have the same identifier. -/
def TellsApart (registry : Registry) (type : ResourceType) (entities : List Json) : Prop :=
  ∀ identifier, ∀ e ∈ entities, ∀ e' ∈ entities,
    registry.Identifies type identifier e → registry.Identifies type identifier e' → e = e'

theorem identifies_iff {registry : Registry} {type : ResourceType} {name : String}
    {field : FieldPath} (hname : registry.identifierField type = .ok name)
    (hfield : FieldPath.parse name = .ok field) {identifier : String} {entity : Json} :
    registry.Identifies type identifier entity ↔
      field.resolve entity = some (.string identifier) := by
  constructor
  · rintro ⟨name', field', hname', hfield', hresolve⟩
    obtain rfl := Except.ok.inj (hname.symm.trans hname')
    obtain rfl := Except.ok.inj (hfield.symm.trans hfield')
    exact hresolve
  · intro hresolve
    exact ⟨name, field, hname, hfield, hresolve⟩

end Registry

namespace Specification

section

variable {registry : Registry} {ambient : Ambient} {principal : Principal}

/-! ## Conditions on a related row -/

/-- Containers of the related type hold where their contents hold together on one row
that is joined. -/
theorem holdsAt_of_projectOnto {σ : Type} {attributes : σ → Json} {joined : Relation → σ → List σ}
    {type related : ResourceType} {relation : Relation} {conditions projected : List Condition}
    (htype : registry.resourceType related.name = .ok related)
    (hrelation : registry.relation type related = .ok relation)
    (hprojected : projectOnto related conditions = some projected) {x y : σ}
    (hy : y ∈ joined relation x)
    (hholds : ∀ c ∈ projected, c.holdsAt registry principal attributes joined related y = true) :
    ∀ c ∈ conditions, c.holdsAt registry principal attributes joined type x = true := by
  intro c hc
  obtain ⟨inner, rfl, hinner⟩ := of_projectOnto hprojected hholds c hc
  rw [Condition.holdsAt_container x htype hrelation, List.any_eq_true]
  exact ⟨y, hy, List.all_eq_true.mpr hinner⟩

/-- A row that satisfies the predicate of a request by way of a related row satisfies
all that some permission asks, and where the types differ this permission asks only for
rows of the related type. -/
theorem permitted_of_compileRelated {type related : ResourceType} {identifier : String}
    {applicable : List Permission} {predicate : Predicate} {target : DecisionTarget} {row : Row}
    (h : compileRelated registry principal type related identifier applicable =
      .ok (predicate, target))
    (hholds : predicate.holds row = true) :
    ∃ p ∈ applicable,
      (related ≠ type → ∀ c ∈ p.conditions, ∃ inner, c = .container related.name inner) ∧
      ∀ c ∈ p.conditions, c.holdsOnRow registry principal type row = true := by
  obtain ⟨name, field, relation, fragments, hname, _, hrelation, hfragments, _, rfl⟩ :=
    of_compileRelated h
  -- The identifier and one of the fragments hold on the row that is decided.
  have hdecided : ∀ r : Row,
      ((Predicate.equal field (.string identifier)).both (.any fragments)).holds r = true →
      ∃ p ∈ applicable, ∃ conditions, conditionsOn related relation p = some conditions ∧
        ∀ c ∈ conditions, c.holdsOnRow registry principal related r = true := by
    intro r hr
    rw [Predicate.holds_eq_satisfies, Predicate.both, Predicate.satisfies_all] at hr
    have hunion := List.all_eq_true.mp hr (.any fragments) (by simp)
    rw [Predicate.satisfies_any, List.any_eq_true] at hunion
    obtain ⟨q, hq, hr⟩ := hunion
    obtain ⟨p, hp, conditions, hconditions, hcompile⟩ := of_relatedFragments hfragments q hq
    rw [← Predicate.holds_eq_satisfies, Condition.holds_compileAll hcompile] at hr
    exact ⟨p, hp, conditions, hconditions, List.all_eq_true.mp hr⟩
  obtain ⟨rfl, rfl⟩ | ⟨r, rfl, hne, hr⟩ := hrelation
  · obtain ⟨p, hp, conditions, hconditions, hrow⟩ := hdecided row hholds
    cases hconditions
    exact ⟨p, hp, fun hne => absurd rfl hne, hrow⟩
  · rw [Predicate.holds_eq_satisfies, Predicate.satisfies_someRelated, List.any_eq_true] at hholds
    obtain ⟨y, hy, hholds⟩ := hholds
    rw [← Predicate.holds_eq_satisfies] at hholds
    obtain ⟨p, hp, conditions, hconditions, hrow⟩ := hdecided y hholds
    obtain ⟨kind, hkind, _⟩ := Outcome.map_eq_ok.mp hname
    refine ⟨p, hp, fun _ c hc => ?_, ?_⟩
    · obtain ⟨inner, hinner, _⟩ := of_projectOnto hconditions hrow c hc
      exact ⟨inner, hinner⟩
    · exact holdsAt_of_projectOnto (Registry.resourceType_of_registered hkind) hr hconditions hy hrow

/-- A request by way of a related row lists nothing that the same request about the
entities themselves does not list.  A permission lists a row only when it asks for
nothing but rows of the related type, and all that it asks holds of the listed row. -/
theorem holds_of_holds_related {request : Request} {permissions : List Permission}
    {s s' : Specification} {related : ResourceType} {identifier : String} {row : Row}
    (hsubject : request.subject = .related related identifier)
    (hrelated : compile registry ambient principal request permissions = .ok s)
    (hentity : compile registry ambient principal { request with subject := .entity none }
      permissions = .ok s')
    (hholds : s.predicate.holds row = true) :
    s'.predicate.holds row = true ∧
      ∃ p ∈ permissions, p.resourceType = request.resourceType ∧ p.action = request.action ∧
        p.TakesPart registry ambient principal request.context ∧
        (related ≠ request.resourceType →
          ∀ c ∈ p.conditions, ∃ inner, c = .container related.name inner) ∧
        ∀ c ∈ p.conditions,
          c.holdsOnRow registry principal request.resourceType row = true := by
  obtain ⟨_, rfl⟩ | ⟨hdeny, applicable, happlicable, hcompiled, _⟩ := of_compile hrelated
  · cases hholds
  obtain ⟨hdenied, _⟩ | ⟨_, applicable', happlicable', hcompiled', _⟩ := of_compile hentity
  · exact absurd (hdeny.symm.trans hdenied) Bool.false_ne_true
  -- The context of both requests is the same, and so the same permissions take part.
  obtain rfl : applicable = applicable' := Except.ok.inj (happlicable.symm.trans happlicable')
  simp only [compileSubject, hsubject] at hcompiled
  obtain ⟨p, hp, honly, hrow⟩ := permitted_of_compileRelated hcompiled hholds
  obtain ⟨hgranted, hallows⟩ := of_applicablePermissions happlicable p hp
  obtain ⟨hmem, hgrants⟩ := List.mem_filter.mp hgranted
  obtain ⟨htype, haction⟩ := Permission.grants_eq_true_iff.mp hgrants
  refine ⟨?_, p, hmem, htype, haction, contextAllows_eq_true_iff.mp hallows, honly, hrow⟩
  rw [holds_of_compileEntity hcompiled', List.any_eq_true]
  exact ⟨p, hp, List.all_eq_true.mpr hrow⟩

end

/-! ## Tasks on a named document -/

namespace NamedDocument

open WorkflowKind (task document)

/-- Readers view the tasks on two documents, and their own tasks on any. -/
def grants : List Permission :=
  [Absorption.grant [.container "document" [.field "id" .isIn (.array [.string "d0", .string "d1"])]],
    Absorption.grant [.field "assignee" (.compare .equal) (.string "user"),
      .container "document" []]]

def request : Request :=
  { Absorption.request with subject := .related document.type "d0" }

end NamedDocument

open NamedDocument in
theorem holds_of_holds_related_document :
    ∃ s s', compile Absorption.registry .fresh Absorption.principal request grants = .ok s ∧
      compile Absorption.registry .fresh Absorption.principal
        { request with subject := .entity none } grants = .ok s' ∧
      s.predicate.holds OwnTasks.row = true ∧
      s'.predicate.holds OwnTasks.row = true ∧
      ∃ p ∈ grants, p.resourceType = request.resourceType ∧ p.action = request.action ∧
        p.TakesPart Absorption.registry .fresh Absorption.principal request.context ∧
        (WorkflowKind.document.type ≠ request.resourceType →
          ∀ c ∈ p.conditions, ∃ inner, c = .container WorkflowKind.document.type.name inner) ∧
        ∀ c ∈ p.conditions, c.holdsOnRow Absorption.registry Absorption.principal
          request.resourceType OwnTasks.row = true :=
  ⟨_, _, rfl, rfl, rfl, holds_of_holds_related rfl rfl rfl rfl⟩

section

variable {registry : Registry} {ambient : Ambient} {principal : Principal}

/-! ## The named row -/

/-- Where identifiers tell the entities apart, the named row is the one with the
identifier. -/
theorem loadRelated_of_identifies {related : ResourceType} {entities : List Json} {name : String}
    {field : FieldPath} {identifier : String} {b : Json}
    (hloader : registry.loader related = .ok (memoryLoader entities))
    (hunique : registry.TellsApart related entities)
    (hname : registry.identifierField related = .ok name) (hfield : FieldPath.parse name = .ok field)
    (hb : b ∈ entities) (hidentifies : registry.Identifies related identifier b) :
    loadRelated registry ambient related field identifier = .ok b := by
  have hmem : ∀ e, e ∈ entities.filter (fun e =>
      Comparison.equal.test (field.resolve e) (.string identifier)) ↔ e = b := by
    intro e
    rw [List.mem_filter, Comparison.equal_test_string_iff,
      ← Registry.identifies_iff hname hfield]
    constructor
    · rintro ⟨he, hidentifies'⟩
      exact hunique identifier e he b hb hidentifies' hidentifies
    · rintro rfl
      exact ⟨hb, hidentifies⟩
  rw [loadRelated, hloader]
  refine Outcome.bind_eq_ok.mpr ⟨_, rfl, Outcome.bind_eq_ok.mpr ⟨_,
    Outcome.mapError_eq_ok.mpr (memoryLoader_eq entities _ field rfl), ?_⟩⟩
  cases hfound : entities.filter fun e =>
      Comparison.equal.test (field.resolve e) (.string identifier) with
  | nil =>
    rw [hfound] at hmem
    exact absurd ((hmem b).mpr rfl) List.not_mem_nil
  | cons e rest =>
    rw [hfound] at hmem
    obtain rfl := (hmem e).mp List.mem_cons_self
    rfl

/-- Nothing needs to be loaded for a false predicate, so it decides as any other on the
named row. -/
theorem isAuthorized_eq_decideOn {s : Specification} {type : ResourceType} {field : FieldPath}
    {identifier : String} {p : Predicate} {b : Json}
    (htarget : s.target = .related type field identifier p)
    (hb : loadRelated registry ambient type field identifier = .ok b) :
    s.isAuthorized registry ambient = decideOn registry ambient b p := by
  simp only [isAuthorized, htarget]
  by_cases hnever : p.isUnsatisfiable = true
  · rw [if_pos hnever, Predicate.eq_never_of_isUnsatisfiable hnever]
    rfl
  · rw [if_neg hnever, hb]
    rfl

theorem of_isAuthorizedFor {s : Specification} (hs : s.predicate.DrawnFrom registry) {a : Entity}
    {decision : Bool} (h : s.isAuthorizedFor registry ambient a = .ok decision) :
    ∃ attributes, a.attributes = .ok attributes ∧
      decision = Predicate.satisfies (registry.interpretation ambient) s.predicate.fetched
        attributes := by
  obtain ⟨attributes, hattributes, h⟩ := Outcome.bind_eq_ok.mp h
  have hattributes := Outcome.mapError_eq_ok.mp hattributes
  rw [Entity.attributesAs] at hattributes
  split at hattributes
  · cases hattributes
    exact ⟨attributes, ‹_›, of_decideOn hs h⟩
  · cases hattributes

/-! ## Rows joined to the named row -/

theorem mem_of_mem_relatedEntities {related : ResourceType} {relation : Relation}
    {entities : List Json} {attributes e : Json} (htarget : relation.target = related)
    (hloader : registry.loader related = .ok (memoryLoader entities))
    (he : e ∈ Row.relatedEntities registry ambient relation attributes) : e ∈ entities := by
  rw [Row.relatedEntities] at he
  split at he
  · cases he
  · rw [htarget, hloader] at he
    exact (List.mem_filter.mp he).1

/-- A row that is joined to a row with the identifier is joined to the named row, and
decided by it. -/
theorem satisfies_fetched_related (ambient : Ambient) {related : ResourceType} {relation : Relation}
    {entities : List Json} {name : String} {field : FieldPath} {identifier : String} {b : Json}
    (htarget : relation.target = related)
    (hloader : registry.loader related = .ok (memoryLoader entities))
    (hunique : registry.TellsApart related entities)
    (hname : registry.identifierField related = .ok name) (hfield : FieldPath.parse name = .ok field)
    (hb : b ∈ entities) (hidentifies : registry.Identifies related identifier b)
    (p : Predicate) (attributes : Json) :
    Predicate.satisfies (registry.interpretation ambient)
        (Predicate.someRelated relation ((Predicate.equal field (.string identifier)).both p)).fetched
        attributes = true ↔
      b ∈ Row.relatedEntities registry ambient relation attributes ∧
        Predicate.satisfies (registry.interpretation ambient) p.fetched b = true := by
  have hequal : ∀ e, (registry.interpretation ambient).compares field .equal (.string identifier) e =
      true ↔ registry.Identifies related identifier e := fun e =>
    Comparison.equal_test_string_iff.trans (Registry.identifies_iff hname hfield).symm
  simp only [Predicate.satisfies_fetched_someRelated, Predicate.satisfies_fetched_both,
    List.any_eq_true, Bool.and_eq_true, hequal]
  constructor
  · rintro ⟨e, he, hidentifies', hholds⟩
    obtain rfl := hunique identifier e (mem_of_mem_relatedEntities htarget hloader he) b hb
      hidentifies' hidentifies
    exact ⟨he, hholds⟩
  · rintro ⟨hjoined, hholds⟩
    exact ⟨b, hjoined, hidentifies, hholds⟩

/-! ## One answer in two forms -/

/-- A specification that decides on the rows joined to a row by what it decides on the
row itself, and grants no other row. -/
structure AgreesAcross (registry : Registry) (ambient : Ambient) (s : Specification)
    (relation : Relation) (b : Json) : Prop where
  joined : ∀ (a : Entity) (attributes : Json) (decision decision' : Bool),
    a.attributes = .ok attributes →
    b ∈ Row.relatedEntities registry ambient relation attributes →
    s.isAuthorizedFor registry ambient a = .ok decision →
    s.isAuthorized registry ambient = .ok decision' → decision = decision'
  apart : ∀ a : Entity, s.isAuthorizedFor registry ambient a = .ok true →
    ∃ attributes, a.attributes = .ok attributes ∧
      b ∈ Row.relatedEntities registry ambient relation attributes

/-- A specification that decides on a row, or fails, as the same request about the entity
with the attributes of the row, and grants no row with another identifier. -/
structure AgreesOnEntity (registry : Registry) (ambient : Ambient) (principal : Principal)
    (request : Request) (permissions : List Permission) (s : Specification)
    (identifier : String) (b : Json) : Prop where
  entity : ∀ e : Entity, e.attributes = .ok b →
    s.isAuthorized registry ambient =
      compile registry ambient principal { request with subject := .entity (some e) } permissions >>=
        fun s' => s'.isAuthorized registry ambient
  apart : ∀ a : Entity, s.isAuthorizedFor registry ambient a = .ok true →
    ∃ attributes, a.attributes = .ok attributes ∧
      registry.Identifies request.resourceType identifier attributes

theorem joining_cases {type related : ResourceType} {joined : FieldPath × Option Relation}
    (h : joining registry type related = .ok joined) :
    (∃ name, registry.identifierField related = .ok name ∧ FieldPath.parse name = .ok joined.1) ∧
      (related = type ∧ joined.2 = none ∨
        related ≠ type ∧ ∃ relation, joined.2 = some relation ∧
          registry.relation type related = .ok relation) := by
  rw [joining] at h
  obtain ⟨_, _, h⟩ := Outcome.bind_eq_ok.mp h
  obtain ⟨name, hname, h⟩ := Outcome.bind_eq_ok.mp h
  obtain ⟨field, hfield, h⟩ := Outcome.bind_eq_ok.mp h
  by_cases heq : related = type
  · rw [if_pos heq] at h
    cases h
    exact ⟨⟨name, hname, hfield⟩, .inl ⟨heq, rfl⟩⟩
  · rw [if_neg heq] at h
    obtain ⟨relation, hrelation, rfl⟩ := Outcome.map_eq_ok.mp h
    exact ⟨⟨name, hname, hfield⟩, .inr ⟨heq, relation, rfl, hrelation⟩⟩

/-- What a request by way of a related row compiles to. -/
theorem of_compile_related {request : Request} {permissions : List Permission} {s : Specification}
    {related : ResourceType} {identifier : String} (hdeny : request.action.isDeny = false)
    (hsubject : request.subject = .related related identifier)
    (hcompile : compile registry ambient principal request permissions = .ok s) :
    ∃ applicable joined fs, registry.ensureRegistered request.resourceType = .ok () ∧
      joining registry request.resourceType related = .ok joined ∧
      applicablePermissions registry ambient principal request.context
        (permissions.filter fun p => p.grants request.resourceType request.action) =
          .ok applicable ∧
      fragments registry principal request applicable = .ok fs ∧
      s.target = .related related joined.1 identifier (.any fs) ∧
      s.predicate = (onRelated related identifier joined (.any fs)).1 := by
  obtain ⟨hregistered, applicable, assemble, fs, happlicable, hassemble, hfs, rfl⟩ :=
    (compile_eq_ok_iff hdeny).mp hcompile
  rw [assembly, hsubject] at hassemble
  obtain ⟨joined, hjoined, rfl⟩ := Outcome.map_eq_ok.mp hassemble
  exact ⟨applicable, joined, fs, hregistered, hjoined, happlicable, hfs, rfl, rfl⟩

/-- Where the related type is the requested one, the entity is asked for all that the
named row is asked for. -/
theorem compile_entity_of_related {request : Request} {permissions applicable : List Permission}
    {related : ResourceType} {identifier : String} {fs : List Predicate} {e : Entity} {b : Json}
    (hdeny : request.action.isDeny = false)
    (hsubject : request.subject = .related related identifier)
    (hrelated : related = request.resourceType) (he : e.attributes = .ok b)
    (hregistered : registry.ensureRegistered request.resourceType = .ok ())
    (happlicable : applicablePermissions registry ambient principal request.context
      (permissions.filter fun p => p.grants request.resourceType request.action) = .ok applicable)
    (hfs : fragments registry principal request applicable = .ok fs) :
    compile registry ambient principal { request with subject := .entity (some e) } permissions =
      .ok ⟨request.resourceType, request.action, .any fs, !applicable.isEmpty,
        .entity (some b)⟩ := by
  have hdecided : decidedType { request with subject := .entity (some e) } =
      decidedType request := by
    rw [decidedType, decidedType, hsubject]
    exact hrelated.symm
  have hdeny' : ({ request with subject := .entity (some e) } : Request).action.isDeny = false :=
    hdeny
  have hassemble : assembly registry { request with subject := .entity (some e) } =
      .ok fun union => (union, .entity (some b)) := by
    show ((some e).mapM fun e : Entity => e.attributesAs request.resourceType).map _ = _
    rw [Option.mapM_some, Entity.attributesAs, he]
    rfl
  have hfragments : fragments registry principal { request with subject := .entity (some e) }
      applicable = .ok fs := by
    rw [← hfs, fragments, fragments]
    simp only [decidedConditions, hdecided]
    rfl
  exact (compile_eq_ok_iff hdeny').mpr
    ⟨hregistered, applicable, _, fs, happlicable, hassemble, hfragments, rfl⟩

theorem of_isAuthorizedFor_denied {type : ResourceType} {action : Action} {a : Entity}
    {decision : Bool}
    (h : (denied type action).isAuthorizedFor registry ambient a = .ok decision) :
    decision = false := by
  have hdrawn : (denied type action).predicate.DrawnFrom registry := trivial
  obtain ⟨_, _, rfl⟩ := of_isAuthorizedFor hdrawn h
  rfl

theorem agreesAcross_denied (type : ResourceType) (action : Action) (relation : Relation)
    (b : Json) : AgreesAcross registry ambient (denied type action) relation b where
  joined := by
    intro a attributes decision decision' _ _ hfor hrequest
    rw [of_isAuthorizedFor_denied hfor]
    exact Except.ok.inj hrequest
  apart := fun _ hfor => nomatch of_isAuthorizedFor_denied hfor

theorem compile_of_isDeny {request : Request} (hdeny : request.action.isDeny = true)
    (permissions : List Permission) :
    compile registry ambient principal request permissions =
      .ok (denied request.resourceType request.action) := by
  rw [compile, if_pos hdeny]

theorem agreesOnEntity_denied {request : Request} (hdeny : request.action.isDeny = true)
    (permissions : List Permission) (identifier : String) (b : Json) :
    AgreesOnEntity registry ambient principal request permissions
      (denied request.resourceType request.action) identifier b where
  entity := by
    intro e _
    have hdeny' : ({ request with subject := .entity (some e) } : Request).action.isDeny = true :=
      hdeny
    rw [compile_of_isDeny hdeny']
    rfl
  apart := fun _ hfor => nomatch of_isAuthorizedFor_denied hfor

section

variable {request : Request} {permissions : List Permission} {s : Specification}
  {related : ResourceType} {identifier : String} {entities : List Json} {b : Json}
  (hdeny : request.action.isDeny = false)
  (hsubject : request.subject = .related related identifier)
  (hcompile : compile registry ambient principal request permissions = .ok s)
  (hloader : registry.loader related = .ok (memoryLoader entities))
  (hunique : registry.TellsApart related entities)
  (hb : b ∈ entities) (hidentifies : registry.Identifies related identifier b)

include hdeny hsubject hcompile hloader hunique hb hidentifies

theorem agreesAcross_of_compile {relation : Relation} (hne : related ≠ request.resourceType)
    (hr : registry.relation request.resourceType related = .ok relation) :
    AgreesAcross registry ambient s relation b := by
  obtain ⟨_, joined, fs, _, hjoined, _, _, htarget, hpredicate⟩ :=
    of_compile_related hdeny hsubject hcompile
  obtain ⟨⟨name, hname, hfield⟩, ⟨heq, _⟩ | ⟨_, relation', hsome, hr'⟩⟩ := joining_cases hjoined
  · exact absurd heq hne
  obtain rfl : relation = relation' := Except.ok.inj (hr.symm.trans hr')
  rw [onRelated, hsome] at hpredicate
  have hdrawn := (Produced.whole hcompile).drawnFrom
  have hload : loadRelated registry ambient related joined.1 identifier = .ok b :=
    loadRelated_of_identifies hloader hunique hname hfield hb hidentifies
  have hmeaning := satisfies_fetched_related ambient
    (congrArg RelationKey.target (Registry.key_of_relation hr)) hloader hunique hname hfield hb
    hidentifies (.any fs)
  refine ⟨?_, ?_⟩
  · intro a attributes decision decision' hattributes hmem hfor hrequest
    obtain ⟨_, ha, rfl⟩ := of_isAuthorizedFor hdrawn hfor
    obtain rfl := Except.ok.inj (hattributes.symm.trans ha)
    rw [isAuthorized_eq_decideOn htarget hload] at hrequest
    rw [of_decideOn (Produced.target hcompile htarget).drawnFrom hrequest, hpredicate,
      Bool.eq_iff_iff, hmeaning attributes]
    exact and_iff_right hmem
  · intro a hfor
    obtain ⟨attributes, hattributes, hholds⟩ := of_isAuthorizedFor hdrawn hfor
    rw [hpredicate] at hholds
    exact ⟨attributes, hattributes, ((hmeaning attributes).mp hholds.symm).1⟩

theorem agreesOnEntity_of_compile (heq : related = request.resourceType) :
    AgreesOnEntity registry ambient principal request permissions s identifier b := by
  obtain ⟨applicable, joined, fs, hregistered, hjoined, happlicable, hfs, htarget, hpredicate⟩ :=
    of_compile_related hdeny hsubject hcompile
  obtain ⟨⟨name, hname, hfield⟩, ⟨_, hnone⟩ | ⟨hne, _⟩⟩ := joining_cases hjoined
  · rw [onRelated, hnone] at hpredicate
    have hload : loadRelated registry ambient related joined.1 identifier = .ok b :=
      loadRelated_of_identifies hloader hunique hname hfield hb hidentifies
    refine ⟨fun e he => ?_, fun a hfor => ?_⟩
    · rw [isAuthorized_eq_decideOn htarget hload,
        compile_entity_of_related hdeny hsubject heq he hregistered happlicable hfs]
      rfl
    · obtain ⟨attributes, hattributes, hholds⟩ :=
        of_isAuthorizedFor (Produced.whole hcompile).drawnFrom hfor
      rw [hpredicate, Predicate.satisfies_fetched_both, eq_comm, Bool.and_eq_true] at hholds
      rw [heq] at hname
      exact ⟨attributes, hattributes,
        (Registry.identifies_iff hname hfield).mpr (Comparison.equal_test_string_iff.mp hholds.1)⟩
  · exact absurd heq hne

end

/-- Both forms of a request by way of a related row answer alike.  Of another type, the
rows joined to the named row are decided as the named row is; of the requested type, the
named row is decided as the entity with its attributes. -/
theorem related_forms_agree {request : Request} {permissions : List Permission}
    {s : Specification} {related : ResourceType} {identifier : String} {entities : List Json}
    {b : Json} (hsubject : request.subject = .related related identifier)
    (hcompile : compile registry ambient principal request permissions = .ok s)
    (hloader : registry.loader related = .ok (memoryLoader entities))
    (hunique : registry.TellsApart related entities)
    (hb : b ∈ entities) (hidentifies : registry.Identifies related identifier b) :
    (related ≠ request.resourceType → ∀ relation,
      registry.relation request.resourceType related = .ok relation →
      AgreesAcross registry ambient s relation b) ∧
    (related = request.resourceType →
      AgreesOnEntity registry ambient principal request permissions s identifier b) := by
  cases hdeny : request.action.isDeny with
  | true =>
    rw [compile_of_isDeny hdeny] at hcompile
    cases hcompile
    exact ⟨fun _ relation _ => agreesAcross_denied _ _ relation b,
      fun _ => agreesOnEntity_denied hdeny permissions identifier b⟩
  | false =>
    exact ⟨fun hne _ hr => agreesAcross_of_compile hdeny hsubject hcompile hloader hunique hb
        hidentifies hne hr,
      agreesOnEntity_of_compile hdeny hsubject hcompile hloader hunique hb hidentifies⟩

end

namespace NamedDocument

/-- The same by way of a task itself. -/
def ownRequest : Request :=
  { Absorption.request with subject := .related WorkflowKind.task.type "t0" }

theorem tellsApart_tasks :
    Absorption.registry.TellsApart WorkflowKind.task.type
      [Absorption.task, Absorption.northernTask] := by
  have hiff : ∀ (identifier : String) (e : Json),
      Absorption.registry.Identifies WorkflowKind.task.type identifier e ↔
        (FieldPath.mk "id" [] rfl).resolve e = some (.string identifier) :=
    fun _ _ => Registry.identifies_iff rfl rfl
  intro identifier e he e' he' hidentifies hidentifies'
  rw [hiff] at hidentifies hidentifies'
  have hdifferent : some (Json.string "t0") ≠ some (.string "t1") := by simp
  simp only [List.mem_cons, List.not_mem_nil, or_false] at he he'
  -- The identifiers are compared only where the tasks are different ones.
  rcases he with rfl | rfl <;> rcases he' with rfl | rfl
  · rfl
  · exact absurd (hidentifies.trans hidentifies'.symm) hdifferent
  · exact absurd (hidentifies'.trans hidentifies.symm) hdifferent
  · rfl

end NamedDocument

open NamedDocument in
theorem related_forms_agree_document :
    ∃ s s', compile Absorption.registry .fresh Absorption.principal request grants = .ok s ∧
      compile Absorption.registry .fresh Absorption.principal ownRequest grants = .ok s' ∧
      AgreesAcross Absorption.registry .fresh s WorkflowKind.documentOfTask Absorption.document ∧
      AgreesOnEntity Absorption.registry .fresh Absorption.principal ownRequest grants s' "t0"
        Absorption.task := by
  have hdocument : Absorption.registry.Identifies WorkflowKind.document.type "d0"
      Absorption.document := ⟨_, _, rfl, rfl, rfl⟩
  have htask : Absorption.registry.Identifies WorkflowKind.task.type "t0" Absorption.task :=
    ⟨_, _, rfl, rfl, rfl⟩
  have hsingle : Absorption.registry.TellsApart WorkflowKind.document.type
      [Absorption.document] := by
    intro identifier e he e' he' _ _
    rw [List.mem_singleton.mp he, List.mem_singleton.mp he']
  obtain ⟨s, hs⟩ : ∃ s, compile Absorption.registry .fresh Absorption.principal request grants =
      .ok s := ⟨_, rfl⟩
  obtain ⟨s', hs'⟩ : ∃ s', compile Absorption.registry .fresh Absorption.principal ownRequest
      grants = .ok s' := ⟨_, rfl⟩
  refine ⟨s, s', hs, hs', ?_, ?_⟩
  · exact (related_forms_agree rfl hs rfl hsingle List.mem_cons_self hdocument).1 (by decide) _ rfl
  · exact (related_forms_agree rfl hs' rfl tellsApart_tasks List.mem_cons_self htask).2 rfl

end Specification
end AccessPolicy
