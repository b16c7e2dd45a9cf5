/-
Listing and deciding.

A list is filtered in the store by the predicate of a specification, and an
entity is decided on by evaluating that predicate on rows loaded for it.  The two
agree on the entities on which the condition in the store means what the fetched
part of the predicate means.
-/
import AccessPolicy.Proofs.Database.Populated
import AccessPolicy.Proofs.Service.Candidates
import Mathlib

namespace AccessPolicy

/-- The request about an entity. -/
def Request.about (r : Request) (e : Entity) : Request := { r with subject := .entity (some e) }

/-- A stored entity as it is asked about. -/
def Stored.instance (x : Stored) : Entity :=
  ⟨((x.entity.get? "id").bind Json.string?).getD "", .ok x.entity⟩

/-! ## Decisions on an entity -/

namespace AuthorizationService

variable {s : AuthorizationService} {ambient : Ambient}

/-- Outside a bypass scope, an entity is decided on by the predicate that lists
the entities of its type. -/
theorem hasPermission_about (hambient : ambient.isBypassed = false) {request : Request}
    (hsubject : request.subject = .entity none) {e : Entity} {v : Json}
    (he : e.attributes = .ok v) {spec : Specification}
    (h : s.specification ambient request = .ok spec) :
    s.hasPermission ambient (request.about e) =
      Specification.decideOn s.registry ambient v spec.predicate := by
  have habout : request.about e = request.withEntity e := by
    rw [Request.about, Request.withEntity, hsubject]
    rfl
  rw [hasPermission, if_neg (Bool.eq_false_iff.mp hambient), habout,
    specification_withEntity (.inl hsubject) he, h]
  show spec.isAuthorizedFor s.registry ambient e = _
  rw [Specification.isAuthorizedFor, Entity.attributesAs, he]
  rfl

theorem specification_under (hambient : ambient.isBypassed = false) {request : Request}
    {context : Option RequestContext} {spec : Specification}
    (h : s.authorizationSpecification ambient request context = .ok spec) :
    s.specification ambient (request.under context) = .ok spec := by
  rw [authorizationSpecification_eq, if_neg (Bool.eq_false_iff.mp hambient)] at h
  exact h

/-- A specification joins types by relations of the registry alone. -/
theorem drawnFrom_of_specification {request : Request} {spec : Specification}
    (h : s.specification ambient request = .ok spec) :
    spec.predicate.DrawnFrom s.registry := by
  rw [specification] at h
  split at h
  · cases h
    exact trivial
  · obtain ⟨_, _, h⟩ := Outcome.bind_eq_ok.mp h
    obtain ⟨_, _, h⟩ := Outcome.bind_eq_ok.mp h
    exact (Specification.Produced.whole h).drawnFrom

end AuthorizationService

/-! ## Lists -/

namespace Database

variable {db : Database}

/-- A list holds the entities whose rows satisfy the predicate in the store, in
the order of the rows. -/
theorem of_findMatching (htables : Sql.WellTyped db.entities) {k : WorkflowKind} {p : Predicate}
    {listed : List Json} (h : db.findMatching k.type p = .ok listed) :
    Sql.AllLocated mappings k.type p ∧
      listed = ((Stored.ofType db.entities k.type).filter fun x =>
        Predicate.satisfies (Sql.interpretation mappings db.entities) p x.site).map
          Stored.entity := by
  rw [findMatching] at h
  obtain ⟨condition, hcondition, h⟩ := Outcome.bind_eq_ok.mp h
  obtain ⟨m, hm, h⟩ := Outcome.bind_eq_ok.mp h
  rw [Outcome.mapError_eq_ok] at hcondition hm
  rw [get_mappings_type] at hm
  cases hm
  refine ⟨Sql.allLocated_of_render hcondition, ?_⟩
  obtain ⟨e, hread, heval⟩ := Sql.eval_of_render db.entities hcondition
  rw [select] at h
  split at h
  · cases h
  · rename_i e' hreadable
    have he : e' = e := by
      rw [readable] at hreadable
      split at hreadable
      · rw [hread] at hreadable
        split at hreadable
        · rename_i e'' hsome
          cases hsome
          split at hreadable
          · cases hreadable
            rfl
          · cases hreadable
        · cases hreadable
      · cases hreadable
    obtain ⟨_, _, h⟩ := Outcome.bind_eq_ok.mp h
    split at h
    · cases h
    · rename_i t ht
      rw [eq_map_of_mapM_readEntity h, he, map_entityOf_select htables ht]
      refine congrArg (List.map _) (List.filter_congr fun x _ => ?_)
      rw [heval]
      cases Predicate.satisfies (Sql.interpretation mappings db.entities) p x.site <;> rfl

/-- The condition in the store means what the predicate means by way of the
loaders, as far as it compares plain values and reads no text with a NUL. -/
theorem satisfies_site_eq_entity (hdb : db.Sound) (ambient : Ambient) {k : WorkflowKind}
    {p : Predicate} (hlocated : Sql.AllLocated mappings k.type p) (hp : p.DrawnFrom db.registry)
    (hplain : Stored.ComparesPlain db.entities k.type p)
    (hnul : Stored.ReadsNulFree db.entities k.type p) {x : Stored}
    (hx : x ∈ Stored.ofType db.entities k.type) :
    Predicate.satisfies (Sql.interpretation mappings db.entities) p x.site =
      Predicate.satisfies (db.registry.interpretation ambient) p x.entity := by
  have hjoins : p.RelationsIn Relation.JoinsTexts := hp.imp fun _ hr => joinsTexts_of_registers hr
  rw [Stored.satisfies_site hdb.typed hx hlocated hplain hjoins,
    Stored.satisfies_untilNul hdb.typed hx hlocated hplain hnul,
    satisfies_entity hdb hx hlocated hp]

/-- Of entities that are told apart those are found that were chosen. -/
theorem mem_map_filter_iff {rows : List Stored} (hrows : (rows.map Stored.entity).Nodup)
    {choice : Stored → Bool} {x : Stored} (hx : x ∈ rows) :
    x.entity ∈ (rows.filter choice).map Stored.entity ↔ choice x = true := by
  constructor
  · intro h
    obtain ⟨y, hy, heq⟩ := List.mem_map.mp h
    obtain ⟨hy, hchoice⟩ := List.mem_filter.mp hy
    rw [← List.inj_on_of_nodup_map hrows hy hx heq]
    exact hchoice
  · intro h
    exact List.mem_map.mpr ⟨x, List.mem_filter.mpr ⟨hx, h⟩, rfl⟩

/-- Two choices among entities that are told apart are the same list only when
they are the same choice. -/
theorem map_filter_eq_iff {rows : List Stored} (hrows : (rows.map Stored.entity).Nodup)
    {chosen granted : Stored → Bool} :
    (rows.filter chosen).map Stored.entity = (rows.filter granted).map Stored.entity ↔
      ∀ x ∈ rows, chosen x = granted x := by
  constructor
  · intro heq x hx
    rw [Bool.eq_iff_iff, ← mem_map_filter_iff hrows hx, heq, mem_map_filter_iff hrows hx]
  · intro h
    rw [List.filter_congr h]

/-- A list and the checks on single entities agree exactly when the condition in
the store means on every row what is decided on its entity.  Where plain values
are compared and no text that is read has a NUL, every entity that is granted is
listed, and nothing else is when nothing of the predicate is absorbed. -/
theorem listed_eq_granted_iff (hdb : db.Populated) {s : AuthorizationService}
    (hregistry : s.registry = db.registry) {ambient : Ambient}
    (hambient : ambient.isBypassed = false) {k : WorkflowKind} {request : Request}
    (hsubject : request.subject = .entity none)
    {context : Option RequestContext} {spec : Specification}
    (hspec : s.authorizationSpecification ambient request context = .ok spec) {listed : List Json}
    (hlisted : db.findMatching k.type spec.predicate = .ok listed) {granted : Stored → Bool}
    (hgranted : ∀ x ∈ Stored.ofType db.entities k.type,
      s.hasPermission ambient ((request.under context).about x.instance) = .ok (granted x)) :
    listed.Nodup ∧
      (listed = ((Stored.ofType db.entities k.type).filter granted).map Stored.entity ↔
        ∀ x ∈ Stored.ofType db.entities k.type,
          Predicate.satisfies (Sql.interpretation mappings db.entities) spec.predicate x.site =
            Predicate.satisfies (db.registry.interpretation ambient) spec.predicate.fetched
              x.entity) ∧
      (Stored.ComparesPlain db.entities k.type spec.predicate →
        Stored.ReadsNulFree db.entities k.type spec.predicate →
        (∀ x ∈ Stored.ofType db.entities k.type, granted x = true → x.entity ∈ listed) ∧
          (spec.predicate.Unabsorbed →
            listed = ((Stored.ofType db.entities k.type).filter granted).map Stored.entity)) := by
  have hsound := hdb.sound
  have hnodup := hsound.nodup_entities k.type
  obtain ⟨hlocated, hrows⟩ := of_findMatching hsound.typed hlisted
  have hspecified := AuthorizationService.specification_under hambient hspec
  have hdrawn : spec.predicate.DrawnFrom db.registry :=
    hregistry ▸ AuthorizationService.drawnFrom_of_specification hspecified
  -- Both sides come from one predicate: the list by its rows, each check by its fetched part.
  have hdecided : ∀ x ∈ Stored.ofType db.entities k.type, granted x =
      Predicate.satisfies (db.registry.interpretation ambient) spec.predicate.fetched x.entity := by
    intro x hx
    have hdecision := hgranted x hx
    rw [AuthorizationService.hasPermission_about hambient
      ((Request.subject_under request context).trans hsubject) rfl hspecified, hregistry] at hdecision
    exact Specification.of_decideOn hdrawn hdecision
  have hmeans := fun hplain hnul (x : Stored) hx =>
    satisfies_site_eq_entity (x := x) hsound ambient hlocated hdrawn hplain hnul hx
  rw [hrows]
  refine ⟨?_, ?_, fun hplain hnul => ⟨fun x hx hx' => ?_, fun hunabsorbed => ?_⟩⟩
  · exact hnodup.sublist (List.filter_sublist.map _)
  · rw [map_filter_eq_iff hnodup]
    refine forall₂_congr fun x hx => ?_
    rw [hdecided x hx]
  · rw [hdecided x hx] at hx'
    refine List.mem_map.mpr ⟨x, List.mem_filter.mpr ⟨hx, ?_⟩, rfl⟩
    rw [hmeans hplain hnul x hx]
    exact Predicate.satisfies_of_within _ hx'
  · rw [map_filter_eq_iff hnodup]
    intro x hx
    rw [hdecided x hx, Predicate.fetched_eq_self hunabsorbed, hmeans hplain hnul x hx]

/-! ## A filed case -/

namespace Filed

open Specification.Absorption (assignee caseTeam request)

def document : Json :=
  .object [("id", .string "d0"), ("definition_name", .string "case"), ("assignee", .null),
    ("team", .null), ("content", .null)]

/-- A task on the document, perhaps one of a team. -/
def task (id : String) (team : Json) : Json :=
  .object [("id", .string id), ("name", .string "review"), ("assignee", .null),
    ("candidate_group", .null), ("case_team", team), ("document_id", .string "d0"),
    ("process_definition_id", .string "p0")]

/-- The store with the document and two tasks on it. -/
def filed : Database :=
  { blank.migrate with
    entities :=
      [(tableName .task, ⟨columns .task,
          [rowOf .task (task "t0" .null), rowOf .task (task "t1" (.string "north"))]⟩),
        (tableName .document, ⟨columns .document, [rowOf .document document]⟩),
        (tableName .processDefinition, ⟨columns .processDefinition, []⟩),
        (tableName .execution, ⟨columns .execution, []⟩)] }

theorem populated_filed : filed.Populated := by
  have hdocument := Populated.inserted (k := .document) (v := document) .migrated rfl (by decide) rfl
  have htask := hdocument.inserted (k := .task) (v := task "t0" .null) rfl (by decide) rfl
  exact htask.inserted (k := .task) (v := task "t1" (.string "north")) rfl (by decide) rfl

def definition (conditions : List Condition) : PermissionDefinition :=
  ⟨"task", "view", "reader", conditions, none, []⟩

/-- The store after permissions for readers were deployed, one for each list of
conditions. -/
def deployed (conditions : List (List Condition)) : Database :=
  { filed with
    roles := [⟨.issued conditions.length, "reader"⟩]
    permissions := conditions.zipIdx.map fun d =>
      .ofPermission (.issued conditions.length)
        ⟨.issued d.2, ⟨"reader"⟩, WorkflowKind.task.type, .view, d.1, none⟩
    issued := conditions.length + 1 }

def service (db : Database) : AuthorizationService :=
  ⟨db.registry, db.repository db.registry, .ambient⟩

def reader : Ambient := ⟨0, some ⟨"user", .ofList [⟨"reader"⟩]⟩⟩

def viewing : Request := { request with subject := .entity none }

def listing (p : Predicate) : Specification :=
  ⟨WorkflowKind.task.type, .view, p, true, .entity none⟩

/-- The tasks of a team. -/
def northern : List (List Condition) := [[.field "case_team" (.compare .equal) (.string "north")]]

def ofNorth : Predicate := .compare caseTeam .equal (.string "north")

theorem populated_northern : (deployed northern).Populated := by
  have hdeploy : Deployment.deploy WorkflowKind.registry filed (northern.map definition) =
      .ok (⟨1, 1⟩, deployed northern) := rfl
  exact populated_filed.deployed hdeploy

/-- The user's own tasks that have a document, and all tasks of a document that
has tasks. -/
def absorbing : List (List Condition) :=
  [[.field "assignee" (.compare .equal) (.string "user"), .container "document" []],
    [.container "document" [.container "task" []]]]

def ofDocument : Predicate :=
  .or [.and [.compare assignee .equal (.string "user"),
      .related WorkflowKind.documentOfTask .always],
    .related WorkflowKind.documentOfTask (.related WorkflowKind.tasksOfDocument .always)]

theorem populated_absorbing : (deployed absorbing).Populated := by
  have hdeploy : Deployment.deploy WorkflowKind.registry filed (absorbing.map definition) =
      .ok (⟨2, 1⟩, deployed absorbing) := rfl
  exact populated_filed.deployed hdeploy

end Filed

open Filed in
/-- The tasks of the north are listed and no other task is. -/
theorem listed_eq_granted_northern :
    ∃ granted : Stored → Bool,
      (deployed northern).Populated ∧ reader.isBypassed = false ∧
      (service (deployed northern)).authorizationSpecification reader viewing none =
        .ok (listing ofNorth) ∧
      (deployed northern).findMatching WorkflowKind.task.type ofNorth =
        .ok [(task "t1" (.string "north")).canonical] ∧
      (∀ x ∈ Stored.ofType (deployed northern).entities WorkflowKind.task.type,
        (service (deployed northern)).hasPermission reader
          ((viewing.under none).about x.instance) = .ok (granted x)) ∧
      ofNorth.Unabsorbed ∧
      Stored.ComparesPlain (deployed northern).entities WorkflowKind.task.type ofNorth ∧
      Stored.ReadsNulFree (deployed northern).entities WorkflowKind.task.type ofNorth ∧
      [(task "t1" (.string "north")).canonical] =
        ((Stored.ofType (deployed northern).entities WorkflowKind.task.type).filter granted).map
          Stored.entity := by
  have hspec : (service (deployed northern)).authorizationSpecification reader viewing none =
      .ok (listing ofNorth) := by cbv
  have hlisted : (deployed northern).findMatching WorkflowKind.task.type ofNorth =
      .ok [(task "t1" (.string "north")).canonical] := by decide +kernel
  have hgranted : ∀ x ∈ Stored.ofType (deployed northern).entities WorkflowKind.task.type,
      (service (deployed northern)).hasPermission reader ((viewing.under none).about x.instance) =
        .ok (ofNorth.holds (.ofAttributes x.entity)) := by
    intro x _
    exact AuthorizationService.hasPermission_about rfl rfl rfl
      (AuthorizationService.specification_under rfl hspec)
  have hunabsorbed : ofNorth.Unabsorbed := Predicate.unabsorbed_of_relatedParts rfl
  have hplain : Stored.ComparesPlain (deployed northern).entities WorkflowKind.task.type
      ofNorth := by
    refine ⟨fun v hv => ?_, fun x hx => ?_⟩
    · rw [List.mem_singleton.mp hv]
      rfl
    · rcases List.mem_pair.mp hx with rfl | rfl <;> exact trivial
  have hnul : Stored.ReadsNulFree (deployed northern).entities WorkflowKind.task.type
      ofNorth := by
    intro x hx d hd
    rcases List.mem_pair.mp hx with rfl | rfl <;> cases hd
  have hagree := listed_eq_granted_iff (s := service (deployed northern)) (k := .task)
    populated_northern rfl rfl rfl hspec hlisted hgranted
  exact ⟨_, populated_northern, rfl, hspec, hlisted, hgranted, hunabsorbed, hplain, hnul,
    (hagree.2.2 hplain hnul).2 hunabsorbed⟩

open Filed in
/-- Both tasks are on a document that has tasks, and both are listed.  Checked by
itself neither is granted, for the other permission asks for the document alone
and its tasks are not fetched. -/
theorem listed_ne_granted_of_absorbed :
    (deployed absorbing).Populated ∧ reader.isBypassed = false ∧
      (service (deployed absorbing)).authorizationSpecification reader viewing none =
        .ok (listing ofDocument) ∧
      (deployed absorbing).findMatching WorkflowKind.task.type ofDocument =
        .ok [(task "t0" .null).canonical, (task "t1" (.string "north")).canonical] ∧
      ∀ x ∈ Stored.ofType (deployed absorbing).entities WorkflowKind.task.type,
        (service (deployed absorbing)).hasPermission reader (viewing.about x.instance) =
          .ok false := by
  have hspec : (service (deployed absorbing)).authorizationSpecification reader viewing none =
      .ok (listing ofDocument) := by cbv
  have hspecified : (service (deployed absorbing)).specification reader (viewing.under none) =
      .ok (listing ofDocument) := AuthorizationService.specification_under rfl hspec
  have hlisted : (deployed absorbing).findMatching WorkflowKind.task.type ofDocument =
      .ok [(task "t0" .null).canonical, (task "t1" (.string "north")).canonical] := by
    decide +kernel
  refine ⟨populated_absorbing, rfl, hspec, hlisted, fun x hx => ?_⟩
  refine (AuthorizationService.hasPermission_about rfl rfl rfl hspecified).trans ?_
  rcases List.mem_pair.mp hx with rfl | rfl
  · rfl
  · rfl

end Database
end AccessPolicy
