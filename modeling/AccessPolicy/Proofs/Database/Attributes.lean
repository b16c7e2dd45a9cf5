/-
Which accepted conditions can be listed.

A condition is accepted by what the registry knows of a kind: which attributes
are documents, and which kinds it is related to.  It is rendered by the columns
of the table of the kind.  The two agree on documents and on relations, but the
registry accepts the name of any attribute.  A condition can therefore be
listed exactly when every field in it, however deeply nested, is an attribute of
the kind on which it is compared, and otherwise a field that is none is reported.
-/
import AccessPolicy.Proofs.Condition.Atoms
import AccessPolicy.Proofs.Database.Listing

namespace AccessPolicy

open Outcome (FailsOnly)

/-! ## Fields of compiled conditions -/

namespace Condition

variable {registry : Registry} {principal : Principal}

/-- The field of a compiled condition was checked on its type. -/
theorem checkField_of_compile {text : String} {operator : Operator} {value : Json}
    {type : ResourceType} {path : FieldPath} {p : Predicate}
    (hpath : FieldPath.parse text = .ok path)
    (h : compile registry principal (.field text operator value) type = .ok p) :
    registry.checkField type path = .ok () := by
  rw [compile, hpath] at h
  simp only at h
  split at h
  · cases h
  · assumption

/-- The steps and the leaves of a compiled condition are those of its conditions. -/
theorem along_compile_field {text : String} {operator : Operator} {value : Json}
    {type : ResourceType} {path : FieldPath} {p : Predicate}
    {leaf : ResourceType → FieldPath → Prop}
    {step : ResourceType → Relation → ResourceType → Prop}
    (hpath : FieldPath.parse text = .ok path)
    (h : compile registry principal (.field text operator value) type = .ok p) :
    Predicate.Along (fun type field _ => leaf type field) step type p ↔ leaf type path := by
  obtain ⟨path', hpath', ⟨values, rfl, _⟩ | ⟨comparison, resolved, rfl, _⟩⟩ := of_compile_field h
  · cases hpath.symm.trans hpath'
    exact Iff.rfl
  · cases hpath.symm.trans hpath'
    exact Iff.rfl

theorem along_compile_container {relation : Relation} {target : ResourceType}
    {conditions : List Condition} {parts : List Predicate} {type : ResourceType}
    {leaf : ResourceType → FieldPath → List Json → Prop}
    {step : ResourceType → Relation → ResourceType → Prop}
    (hparts : compileParts registry principal conditions target = .ok parts) :
    Predicate.Along leaf step type (.someRelated relation (.all parts)) ↔
      ∃ next, step type relation next ∧ ∀ p ∈ parts, Predicate.Along leaf step next p := by
  have hatoms := isAtom_compileParts hparts
  rw [Predicate.someRelated, Predicate.not_isUnsatisfiable_all hatoms]
  change (∃ next, step type relation next ∧ Predicate.Along leaf step next (.all parts)) ↔ _
  simp only [Predicate.along_all hatoms]

/-! ## Attributes -/

mutual

/-- Every field in the condition is an attribute of the kind on which it is compared. -/
def namesAttributes : WorkflowKind → Condition → Bool
  | k, .field text _ _ =>
    match FieldPath.parse text with
    | .error _ => false
    | .ok path => (k.fields.map (·.1)).contains path.root
  | _, .container name conditions =>
    match WorkflowKind.ofName? name with
    | none => false
    | some target => allNameAttributes target conditions

def allNameAttributes : WorkflowKind → List Condition → Bool
  | _, [] => true
  | k, c :: rest => namesAttributes k c && allNameAttributes k rest

end

theorem allNameAttributes_eq_all (k : WorkflowKind) (conditions : List Condition) :
    allNameAttributes k conditions = conditions.all (namesAttributes k) := by
  induction conditions with
  | nil => rfl
  | cons c rest ih => rw [allNameAttributes, ih, List.all_cons]

end Condition

/-! ## The registry of the kinds -/

namespace WorkflowKind

/-- The kinds and their relations with some loaders. -/
def registryWith (loaders : List (ResourceType × EntityLoader)) : Registry :=
  { registry with loaders := loaders }

variable {loaders : List (ResourceType × EntityLoader)}

theorem ofName?_name (k : WorkflowKind) : ofName? k.name = some k := by
  cases k <;> rfl

theorem registered_type (k : WorkflowKind) :
    (registryWith loaders).registered k.type = .ok k.resource := by
  cases k <;> rfl

theorem of_resourceType {name : String} {type : ResourceType}
    (h : (registryWith loaders).resourceType name = .ok type) :
    ∃ k, ofName? name = some k ∧ type = k.type := by
  have hkinds : ∀ kind ∈ registry.kinds, ∃ k ∈ all, kind = k.resource := by decide
  rw [Registry.resourceType] at h
  split at h
  · rename_i kind hkind
    cases h
    obtain ⟨k, _, rfl⟩ := hkinds kind (List.mem_of_find?_eq_some hkind)
    have hname := List.find?_some hkind
    obtain rfl : k.name = name := eq_of_beq hname
    exact ⟨k, ofName?_name k, rfl⟩
  · cases h

theorem of_relation {source target : ResourceType} {relation : Relation}
    (h : (registryWith loaders).relation source target = .ok relation) :
    relation ∈ registry.relations ∧ relation.source = source ∧ relation.target = target := by
  rw [Registry.relation] at h
  split at h
  · rename_i found hfound
    cases h
    have hfound' := List.find?_some hfound
    have hkey : relation.key = ⟨source, target⟩ := eq_of_beq hfound'
    exact ⟨List.mem_of_find?_eq_some hfound, congrArg RelationKey.source hkey,
      congrArg RelationKey.target hkey⟩
  · cases h

end WorkflowKind

/-! ## Places -/

namespace Database

open Sql (Located AllLocated PlacedUnless)

variable {loaders : List (ResourceType × EntityLoader)} {principal : Principal}

/-- The field is reported as one that the kind does not have. -/
inductive Unmapped : ConfigurationError → Prop where
  | intro (k : WorkflowKind) (field : FieldPath) (h : field.root ∉ k.fields.map (·.1)) :
      Unmapped (.unmappedField k.name field.text)

/-- The relations of the kinds join by columns. -/
theorem place_of_relation {source target : ResourceType} {relation : Relation}
    (h : (WorkflowKind.registryWith loaders).relation source target = .ok relation) :
    mappings.place source relation.sourceField = .ok () ∧
      mappings.place target relation.targetField = .ok () := by
  have hall : ∀ r ∈ WorkflowKind.registry.relations,
      mappings.place r.source r.sourceField = .ok () ∧
        mappings.place r.target r.targetField = .ok () := by decide
  obtain ⟨hmem, rfl, rfl⟩ := WorkflowKind.of_relation h
  exact hall relation hmem

/-- On a field that is accepted, the table only asks whether it is an attribute. -/
theorem place_of_checkField {k : WorkflowKind} {path : FieldPath}
    (h : (WorkflowKind.registryWith loaders).checkField k.type path = .ok ()) :
    mappings.place k.type path =
      if (k.fields.map (·.1)).contains path.root then .ok ()
      else .error (.unmappedField k.name path.text) := by
  rw [Registry.checkField, WorkflowKind.registered_type] at h
  have haccepted : (path.nested.isEmpty || k.documentFields.contains path.root) = true := by
    by_contra hrefused
    rw [Bool.not_eq_true] at hrefused
    simp only [WorkflowKind.resource, hrefused] at h
    cases h
  rw [Sql.TableMappings.place, get_mappings_type]
  change (mapping k).locate k.type path = _
  rw [Sql.TableMapping.locate]
  simp only [mapping, haccepted, if_true]
  rfl

theorem located_iff_of_checkField {k : WorkflowKind} {path : FieldPath}
    (h : (WorkflowKind.registryWith loaders).checkField k.type path = .ok ()) :
    Located mappings k.type path ↔ (k.fields.map (·.1)).contains path.root = true := by
  rw [Sql.located_iff_place, place_of_checkField h]
  split
  · rename_i hattribute
    exact ⟨fun _ => hattribute, fun _ => rfl⟩
  · rename_i hattribute
    exact ⟨nofun, fun h => absurd h hattribute⟩

theorem failsOnly_place {k : WorkflowKind} {path : FieldPath}
    (h : (WorkflowKind.registryWith loaders).checkField k.type path = .ok ()) :
    FailsOnly (mappings.place k.type path) Unmapped := by
  rw [place_of_checkField h]
  split
  · exact Outcome.failsOnly_ok _
  · rename_i hattribute
    exact Outcome.failsOnly_error
      (.intro k path fun hmem => hattribute (List.contains_iff_mem.mpr hmem))

/-! ## Rendered conditions -/

/-- A predicate asks for the places of attributes exactly when a test says so, and
otherwise only for the place of a field that the kind does not have. -/
def LocatedIff (k : WorkflowKind) (p : Predicate) (named : Bool) : Prop :=
  (AllLocated mappings k.type p ↔ named = true) ∧ PlacedUnless mappings Unmapped k.type p

theorem located_compileParts {conditions : List Condition}
    (hconditions : ∀ c ∈ conditions, ∀ (k : WorkflowKind) (p : Predicate),
      c.compile (WorkflowKind.registryWith loaders) principal k.type = .ok p →
        LocatedIff k p (c.namesAttributes k))
    {k : WorkflowKind} {parts : List Predicate}
    (h : Condition.compileParts (WorkflowKind.registryWith loaders) principal conditions k.type =
      .ok parts) :
    ((∀ p ∈ parts, AllLocated mappings k.type p) ↔
        Condition.allNameAttributes k conditions = true) ∧
      ∀ p ∈ parts, PlacedUnless mappings Unmapped k.type p := by
  rw [Condition.allNameAttributes_eq_all]
  replace h := Condition.forall₂_of_compileParts h
  induction h with
  | nil => exact ⟨⟨fun _ => rfl, fun _ => nofun⟩, nofun⟩
  | cons hc _ ih =>
    obtain ⟨hfirst, hrest⟩ := List.forall_mem_cons.mp hconditions
    obtain ⟨hlocated, hplaced⟩ := hfirst k _ hc
    obtain ⟨hlocatedRest, hplacedRest⟩ := ih hrest
    rw [List.forall_mem_cons, List.forall_mem_cons, List.all_cons, Bool.and_eq_true, hlocated,
      hlocatedRest]
    exact ⟨Iff.rfl, hplaced, hplacedRest⟩

/-- A compiled condition asks for the places of attributes exactly when it names
attributes. -/
theorem located_compile (c : Condition) :
    ∀ (k : WorkflowKind) (p : Predicate),
      c.compile (WorkflowKind.registryWith loaders) principal k.type = .ok p →
        LocatedIff k p (c.namesAttributes k) := by
  induction c with
  | field text operator value =>
    intro k p h
    obtain ⟨path, hpath, _⟩ := Condition.of_compile_field h
    have hfield := Condition.checkField_of_compile hpath h
    rw [LocatedIff, AllLocated, PlacedUnless, Condition.along_compile_field hpath h,
      Condition.along_compile_field hpath h, Condition.namesAttributes, hpath]
    exact ⟨located_iff_of_checkField hfield, failsOnly_place hfield⟩
  | container name conditions ih =>
    intro k p h
    obtain ⟨_, relation, parts, htarget, hrelation, hparts, rfl⟩ :=
      Condition.of_compile_container h
    obtain ⟨target, hname, rfl⟩ := WorkflowKind.of_resourceType htarget
    obtain ⟨hsourceField, htargetField⟩ := place_of_relation hrelation
    obtain ⟨_, _, hrelationTarget⟩ := WorkflowKind.of_relation hrelation
    obtain ⟨hlocated, hplaced⟩ := located_compileParts ih hparts
    rw [LocatedIff, AllLocated, PlacedUnless, Condition.along_compile_container hparts,
      Condition.along_compile_container hparts, Condition.namesAttributes, hname, hrelationTarget]
    refine ⟨?_, target.type, ⟨rfl, ?_, ?_⟩, hplaced⟩
    · rw [← hlocated]
      constructor
      · rintro ⟨_, ⟨rfl, _⟩, hparts⟩
        exact hparts
      · intro hparts
        exact ⟨target.type, ⟨rfl, Sql.located_iff_place.mpr hsourceField,
          Sql.located_iff_place.mpr htargetField⟩, hparts⟩
    · exact Outcome.failsOnly_of_exists ⟨(), hsourceField⟩
    · exact Outcome.failsOnly_of_exists ⟨(), htargetField⟩

/-- Conditions that compile on a kind can be listed exactly when they name attributes.
Otherwise a field is reported that the kind on which it is compared does not have. -/
theorem renders_iff_allNameAttributes {k : WorkflowKind} {conditions : List Condition}
    {p : Predicate}
    (h : Condition.compileAll (WorkflowKind.registryWith loaders) principal conditions k.type =
      .ok p) :
    ((∃ condition, Sql.render mappings k.type p = .ok condition) ↔
        Condition.allNameAttributes k conditions = true) ∧
      ∀ e, Sql.render mappings k.type p = .error e → Unmapped e := by
  obtain ⟨parts, hparts, rfl⟩ := Outcome.map_eq_ok.mp h
  have hatoms := Condition.isAtom_compileParts hparts
  obtain ⟨hlocated, hplaced⟩ := located_compileParts (fun c _ => located_compile c) hparts
  rw [Sql.render_iff_allLocated, AllLocated, Predicate.along_all hatoms]
  exact ⟨hlocated, Sql.failsOnly_render ((Predicate.along_all hatoms).mpr hplaced)⟩

namespace Filed

/-- Tasks on a document of a team. -/
def ofTeam : List Condition :=
  [.container "document" [.field "content.team" (.compare .equal) (.string "north")]]

/-- Tasks without a priority, which tasks do not have. -/
def unranked : List (List Condition) := [[.field "priority" (.compare .equal) .null]]

def withoutPriority : Predicate := .compare ⟨"priority", [], rfl⟩ .equal .null

end Filed

open Filed in
/-- A path into the content of the document of a task can be listed. -/
theorem renders_iff_allNameAttributes_content :
    ∃ p, Condition.compileAll (WorkflowKind.registryWith []) Specification.Absorption.principal
        ofTeam WorkflowKind.task.type = .ok p ∧
      Condition.allNameAttributes .task ofTeam = true ∧
      ∃ condition, Sql.render mappings WorkflowKind.task.type p = .ok condition := by
  have hcompiled : Condition.compileAll (WorkflowKind.registryWith [])
      Specification.Absorption.principal ofTeam WorkflowKind.task.type = .ok _ := rfl
  have hnamed : Condition.allNameAttributes .task ofTeam = true := by decide
  exact ⟨_, hcompiled, hnamed, (renders_iff_allNameAttributes hcompiled).1.mpr hnamed⟩

open Filed in
/-- A permission on the priority of tasks is accepted and deployed, and it grants every
task that is checked by itself.  Listing the tasks fails. -/
theorem not_listed_of_accepted_priority :
    Deployment.deploy WorkflowKind.registry filed (unranked.map definition) =
      .ok (⟨1, 1⟩, deployed unranked) ∧
    (∀ conditions ∈ unranked, Condition.validateAll (deployed unranked).registry conditions
      WorkflowKind.task.type = .ok ()) ∧
    (service (deployed unranked)).authorizationSpecification reader viewing none =
      .ok (listing withoutPriority) ∧
    (∀ x ∈ Stored.ofType (deployed unranked).entities WorkflowKind.task.type,
      (service (deployed unranked)).hasPermission reader (viewing.about x.instance) = .ok true) ∧
    Sql.render mappings WorkflowKind.task.type withoutPriority =
      .error (.unmappedField "task" "priority") ∧
    (deployed unranked).findMatching WorkflowKind.task.type withoutPriority =
      .error (.configuration (.unmappedField "task" "priority")) := by
  have hspec : (service (deployed unranked)).authorizationSpecification reader viewing none =
      .ok (listing withoutPriority) := by cbv
  have hspecified : (service (deployed unranked)).specification reader (viewing.under none) =
      .ok (listing withoutPriority) := AuthorizationService.specification_under rfl hspec
  refine ⟨rfl, List.forall_mem_singleton.mpr rfl, hspec, fun x hx => ?_, rfl, rfl⟩
  refine (AuthorizationService.hasPermission_about rfl rfl rfl hspecified).trans ?_
  rcases List.mem_pair.mp hx with rfl | rfl
  · rfl
  · rfl

end Database
end AccessPolicy
