/-
Rows and definitions of permissions.

A row states what a definition states, and both are checked in the same order.  They are
read alike but for context conditions without a context type: a definition that states
such conditions is rejected, and a row that states them is read as if it did not.
-/
import AccessPolicy.Proofs.Database.Deploying

namespace AccessPolicy

namespace PermissionDefinition

/-- The error of a definition whose context conditions have no type. -/
def orphaned : ConfigurationError :=
  .invalidCondition "contextConditions given without contextResourceType"

/-- The definition states context conditions and no type for them. -/
def Orphans (d : PermissionDefinition) : Prop :=
  d.contextResourceType = none ∧ d.contextConditions ≠ []

/-- The definition names a type and an action that permissions grant on it. -/
def NamesGrant (registry : Registry) (d : PermissionDefinition) : Prop :=
  ∃ type action, registry.resourceType d.resourceType = .ok type ∧
    registry.parseAction type d.action = .ok action

/-- The definition without context conditions that have no type. -/
def withoutOrphans (d : PermissionDefinition) : PermissionDefinition :=
  if d.contextResourceType = none then { d with contextConditions := [] } else d

end PermissionDefinition

/-- The permission requires all that a definition states. -/
structure Permission.RequiresAllOf (registry : Registry) (d : PermissionDefinition)
    (p : Permission) : Prop where
  conditions : p.conditions = d.conditions
  contextType : ∀ name, d.contextResourceType = some name →
    ∃ r, p.context = some r ∧ registry.resourceType name = .ok r.resourceType
  contextConditions : d.contextConditions ≠ [] →
    ∃ r, p.context = some r ∧ r.conditions = d.contextConditions

namespace PermissionRow

/-- The context conditions that a row states.  A row without a text for them states an
empty list. -/
def contextConditions? (row : PermissionRow) : Option (List Condition) :=
  match row.contextConditions with
  | none => some []
  | some text => Condition.listOfText? text

/-- The definition that a row states, unless one of its texts holds no conditions. -/
def definition? (roleKey : String) (row : PermissionRow) : Option PermissionDefinition := do
  let conditions ← Condition.listOfText? row.conditions
  let contextConditions ← row.contextConditions?
  some ⟨row.resourceType, row.action, roleKey, conditions, row.contextResourceType,
    contextConditions⟩

end PermissionRow

/-! ## What is never reported of a permission -/

section

open PermissionDefinition (orphaned)
open Outcome (FailsOnly)

variable {registry : Registry}

theorem FieldPath.parse_ne_orphaned (text : String) :
    FailsOnly (parse text) (· ≠ orphaned) := by
  rw [parse]
  simp only
  split
  · exact Outcome.failsOnly_ok _
  · exact Outcome.failsOnly_error (by intro h; cases h)

theorem Registry.registered_ne_orphaned (type : ResourceType) :
    FailsOnly (registry.registered type) (· ≠ orphaned) := by
  rw [registered]
  split
  · split
    · exact Outcome.failsOnly_ok _
    · exact Outcome.failsOnly_error (by intro h; cases h)
  · exact Outcome.failsOnly_error (by intro h; cases h)

theorem Registry.checkField_ne_orphaned (type : ResourceType) (field : FieldPath) :
    FailsOnly (registry.checkField type field) (· ≠ orphaned) := by
  rw [checkField]
  split
  · exact Outcome.failsOnly_error (registered_ne_orphaned type _ ‹_›)
  · split
    · exact Outcome.failsOnly_ok _
    · exact Outcome.failsOnly_error (by intro h; cases h)

theorem Registry.resourceType_ne_orphaned (name : String) :
    FailsOnly (registry.resourceType name) (· ≠ orphaned) := by
  rw [resourceType]
  split
  · exact Outcome.failsOnly_ok _
  · exact Outcome.failsOnly_error (by intro h; cases h)

theorem Registry.parseAction_ne_orphaned (type : ResourceType) (key : String) :
    FailsOnly (registry.parseAction type key) (· ≠ orphaned) := by
  rw [parseAction]
  split
  · exact Outcome.failsOnly_error (by intro h; cases h)
  · split
    · rename_i e he
      exact Outcome.failsOnly_error
        (Outcome.failsOnly_map (registered_ne_orphaned type) e he)
    · split
      · exact Outcome.failsOnly_ok _
      · exact Outcome.failsOnly_error (by intro h; cases h)

theorem Registry.relation_ne_orphaned (source target : ResourceType) :
    FailsOnly (registry.relation source target) (· ≠ orphaned) := by
  rw [relation]
  split
  · exact Outcome.failsOnly_ok _
  · exact Outcome.failsOnly_error (by intro h; cases h)

namespace Condition

theorem listRefused_ne_orphaned (text : String) : listRefused text ≠ orphaned := by
  intro h
  have htext := congrArg String.toList (ConfigurationError.invalidCondition.inj h)
  rw [String.toList_append, String.toList_append] at htext
  exact absurd (List.cons.inj htext).1 (by decide)

theorem validateAll_ne_orphaned_of_forall {conditions : List Condition} {type : ResourceType}
    (h : ∀ c ∈ conditions, FailsOnly (c.validate registry type) (· ≠ orphaned)) :
    FailsOnly (validateAll registry conditions type) (· ≠ orphaned) := by
  induction conditions with
  | nil => exact Outcome.failsOnly_ok _
  | cons c rest ih =>
    rw [List.forall_mem_cons] at h
    rw [validateAll]
    split
    · exact Outcome.failsOnly_error (h.1 _ ‹_›)
    · exact ih h.2

theorem validate_ne_orphaned (c : Condition) :
    ∀ type, FailsOnly (c.validate registry type) (· ≠ orphaned) := by
  induction c with
  | field text operator value =>
    intro type
    rw [validate]
    split
    · exact Outcome.failsOnly_error (FieldPath.parse_ne_orphaned text _ ‹_›)
    · split
      · exact Outcome.failsOnly_error (Registry.checkField_ne_orphaned type _ _ ‹_›)
      · split
        · exact Outcome.failsOnly_error (listRefused_ne_orphaned text)
        · exact Outcome.failsOnly_ok _
  | container name conditions ih =>
    intro type
    rw [validate]
    split
    · exact Outcome.failsOnly_error (Registry.resourceType_ne_orphaned name _ ‹_›)
    · split
      · exact Outcome.failsOnly_error (Registry.relation_ne_orphaned type _ _ ‹_›)
      · exact validateAll_ne_orphaned_of_forall fun c hc => ih c hc _

theorem validateAll_ne_orphaned (conditions : List Condition) (type : ResourceType) :
    FailsOnly (validateAll registry conditions type) (· ≠ orphaned) :=
  validateAll_ne_orphaned_of_forall fun c _ => validate_ne_orphaned c type

end Condition

/-- A permission states its requirement as a whole, so it is never found to lack the type
of one. -/
theorem Permission.validate_ne_orphaned (p : Permission) :
    FailsOnly (p.validate registry) (· ≠ orphaned) := by
  rw [validate]
  split
  · rename_i e he
    exact Outcome.failsOnly_error
      (Outcome.failsOnly_map (Registry.registered_ne_orphaned p.resourceType) e he)
  · split
    · split
      · exact Outcome.failsOnly_error (Condition.validateAll_ne_orphaned _ _ _ ‹_›)
      · split
        · exact Outcome.failsOnly_ok _
        · split
          · rename_i e he
            exact Outcome.failsOnly_error
              (Outcome.failsOnly_map (Registry.registered_ne_orphaned _) e he)
          · exact Condition.validateAll_ne_orphaned _ _
    · exact Outcome.failsOnly_error (by intro h; cases h)

end

/-! ## Rows read as definitions -/

namespace PermissionDefinition

open Outcome (FailsOnly)

variable {registry : Registry} {d : PermissionDefinition}

theorem withoutOrphans_of_not_orphans (h : ¬ d.Orphans) : d.withoutOrphans = d := by
  rw [withoutOrphans]
  split
  · rename_i hnone
    have hnil : d.contextConditions = [] := not_not.mp fun hne => h ⟨hnone, hne⟩
    rw [← hnil]
  · rfl

theorem contextRequirement_withoutOrphans (d : PermissionDefinition) :
    d.withoutOrphans.contextRequirement registry =
      match d.contextResourceType with
      | some name => (registry.resourceType name).map fun type => some ⟨type, d.contextConditions⟩
      | none => .ok none := by
  obtain ⟨type, action, roleKey, conditions, contextType, contextConditions⟩ := d
  cases contextType with
  | none => rfl
  | some name => rfl

theorem fields_withoutOrphans (d : PermissionDefinition) :
    d.withoutOrphans.resourceType = d.resourceType ∧ d.withoutOrphans.action = d.action ∧
      d.withoutOrphans.roleKey = d.roleKey ∧ d.withoutOrphans.conditions = d.conditions := by
  rw [withoutOrphans]
  split <;> exact ⟨rfl, rfl, rfl, rfl⟩

/-- A definition is checked name by name and then as the permission that it states. -/
theorem toPermission_eq (d : PermissionDefinition) (id : Uuid) :
    d.toPermission registry id =
      registry.resourceType d.resourceType >>= fun type =>
        registry.parseAction type d.action >>= fun action =>
        d.contextRequirement registry >>= fun context =>
        (Permission.validate registry ⟨id, ⟨d.roleKey⟩, type, action, d.conditions, context⟩).map
          fun _ => ⟨id, ⟨d.roleKey⟩, type, action, d.conditions, context⟩ := by
  rw [toPermission]
  cases registry.resourceType d.resourceType with
  | error e => rfl
  | ok type =>
    simp only
    cases haction : registry.parseAction type d.action with
    | error e => simp only [haction, bind, Except.bind]
    | ok action =>
      simp only [haction, bind, Except.bind]
      cases d.contextRequirement registry with
      | error e => rfl
      | ok context =>
        simp only
        cases Permission.validate registry
          ⟨id, ⟨d.roleKey⟩, type, action, d.conditions, context⟩ <;> rfl

theorem toPermission_of_orphans (h : d.Orphans) (hnames : d.NamesGrant registry) (id : Uuid) :
    d.toPermission registry id = .error orphaned := by
  obtain ⟨type, action, htype, haction⟩ := hnames
  have hcontext : d.contextRequirement registry = .error orphaned := by
    rw [contextRequirement, h.1]
    exact if_neg (by simpa using h.2)
  simp only [toPermission, htype, haction, hcontext]

/-- Where the type or the action is not found, the context is not looked at. -/
theorem toPermission_of_not_namesGrant (h : ¬ d.NamesGrant registry) (id : Uuid) :
    d.withoutOrphans.toPermission registry id = d.toPermission registry id := by
  obtain ⟨htype, haction, -, -⟩ := fields_withoutOrphans d
  rw [toPermission_eq, toPermission_eq, htype, haction]
  cases htype : registry.resourceType d.resourceType with
  | error e => rfl
  | ok type =>
    cases haction : registry.parseAction type d.action with
    | error e => simp only [haction, bind, Except.bind]
    | ok action => exact absurd ⟨type, action, htype, haction⟩ h

theorem withoutOrphans_ne_orphaned (d : PermissionDefinition) (id : Uuid) :
    FailsOnly (d.withoutOrphans.toPermission registry id) (· ≠ orphaned) := by
  rw [toPermission_eq, contextRequirement_withoutOrphans]
  refine Outcome.failsOnly_bind (Registry.resourceType_ne_orphaned _) fun type _ => ?_
  refine Outcome.failsOnly_bind (Registry.parseAction_ne_orphaned _ _) fun action _ => ?_
  refine Outcome.failsOnly_bind ?_ fun context _ => ?_
  · split
    · exact Outcome.failsOnly_map (Registry.resourceType_ne_orphaned _)
    · exact Outcome.failsOnly_ok _
  · exact Outcome.failsOnly_map (Permission.validate_ne_orphaned _)

end PermissionDefinition

namespace PermissionRow

section

variable {registry : Registry} {roleKey : String} {row : PermissionRow} {id : Uuid}
  {d : PermissionDefinition}

theorem of_definition? (h : row.definition? roleKey = some d) :
    ∃ conditions contextConditions, Condition.listOfText? row.conditions = some conditions ∧
      row.contextConditions? = some contextConditions ∧
      d = ⟨row.resourceType, row.action, roleKey, conditions, row.contextResourceType,
        contextConditions⟩ := by
  obtain ⟨conditions, hconditions, h⟩ := Option.bind_eq_some_iff.mp h
  obtain ⟨contextConditions, hcontext, h⟩ := Option.bind_eq_some_iff.mp h
  exact ⟨conditions, contextConditions, hconditions, hcontext, (Option.some.inj h).symm⟩

/-- A row without a context type states no requirement, whatever conditions it holds. -/
theorem contextRequirement_eq {contextConditions : List Condition}
    (hcontext : row.contextConditions? = some contextConditions) :
    row.contextRequirement registry =
      (match row.contextResourceType with
        | some name => (registry.resourceType name).map fun type => some ⟨type, contextConditions⟩
        | none => .ok none : Except ConfigurationError (Option ContextRequirement)).mapError
          StoreError.configuration := by
  rw [contextRequirement]
  cases row.contextResourceType with
  | none => rfl
  | some name =>
    rw [contextConditions?] at hcontext
    cases htext : row.contextConditions with
    | none =>
      rw [htext] at hcontext
      cases hcontext
      simp only
      cases registry.resourceType name <;> rfl
    | some text =>
      rw [htext] at hcontext
      simp only [conditionsOf, hcontext]
      cases registry.resourceType name <;> rfl

/-- A row is read as the definition that it states, without context conditions that have
no type. -/
theorem toPermission_eq (hid : Uuid.ofText? row.id = some id)
    (hd : row.definition? roleKey = some d) :
    row.toPermission registry roleKey =
      (d.withoutOrphans.toPermission registry id).mapError StoreError.configuration := by
  obtain ⟨conditions, contextConditions, hconditions, hcontext, rfl⟩ := of_definition? hd
  obtain ⟨htype, haction, hrole, hkept⟩ := PermissionDefinition.fields_withoutOrphans
    ⟨row.resourceType, row.action, roleKey, conditions, row.contextResourceType, contextConditions⟩
  rw [PermissionDefinition.toPermission_eq, PermissionDefinition.contextRequirement_withoutOrphans,
    htype, haction, hrole, hkept, toPermission, contextRequirement_eq hcontext, conditionsOf,
    hconditions, hid]
  cases registry.resourceType row.resourceType with
  | error e => rfl
  | ok type =>
    cases haction : registry.parseAction type row.action with
    | error e => simp only [haction, bind, Except.bind, Except.mapError]
    | ok action =>
      simp only [haction, bind, Except.bind, Except.mapError]
      cases (match row.contextResourceType with
        | some name => (registry.resourceType name).map fun type => some ⟨type, contextConditions⟩
        | none => .ok none : Except ConfigurationError (Option ContextRequirement)) with
      | error e => rfl
      | ok context =>
        simp only
        cases Permission.validate registry
          ⟨id, ⟨roleKey⟩, type, action, conditions, context⟩ <;> rfl

/-- What a row is read as requires all that the row states, unless that includes context
conditions without a type. -/
theorem requiresAllOf_iff (hid : Uuid.ofText? row.id = some id)
    (hd : row.definition? roleKey = some d) {p : Permission}
    (h : row.toPermission registry roleKey = .ok p) : p.RequiresAllOf registry d ↔ ¬ d.Orphans := by
  rw [toPermission_eq hid hd, PermissionDefinition.toPermission_eq] at h
  obtain ⟨type, _, h⟩ := Outcome.bind_eq_ok.mp (Outcome.mapError_eq_ok.mp h)
  obtain ⟨action, _, h⟩ := Outcome.bind_eq_ok.mp h
  obtain ⟨context, hcontext, h⟩ := Outcome.bind_eq_ok.mp h
  obtain ⟨_, _, rfl⟩ := Outcome.map_eq_ok.mp h
  rw [PermissionDefinition.contextRequirement_withoutOrphans] at hcontext
  have hconditions := (PermissionDefinition.fields_withoutOrphans d).2.2.2
  cases htype : d.contextResourceType with
  | none =>
    rw [htype] at hcontext
    cases hcontext
    constructor
    · rintro hrequires ⟨_, hne⟩
      obtain ⟨r, hr, _⟩ := hrequires.contextConditions hne
      cases hr
    · intro horphans
      refine ⟨hconditions, fun name hname => ?_, fun hne => absurd ⟨htype, hne⟩ horphans⟩
      rw [htype] at hname
      cases hname
  | some name =>
    rw [htype] at hcontext
    obtain ⟨required, hrequired, rfl⟩ := Outcome.map_eq_ok.mp hcontext
    constructor
    · rintro _ ⟨hnone, _⟩
      rw [htype] at hnone
      cases hnone
    · intro _
      refine ⟨hconditions, fun name' hname => ⟨_, rfl, ?_⟩, fun _ => ⟨_, rfl, rfl⟩⟩
      rw [htype] at hname
      cases hname
      exact hrequired

/-- A row is read as the definition that it states, with the same permission but for its
identifier or the same error, exactly when the definition is not rejected for context
conditions without a type.  Where it is, the row is read without them. -/
theorem toPermission_eq_definition_iff (hid : Uuid.ofText? row.id = some id)
    (hd : row.definition? roleKey = some d) (id' : Uuid) :
    (row.toPermission registry roleKey =
        ((d.toPermission registry id').map fun p => { p with id := id }).mapError
          StoreError.configuration ↔
      ¬ (d.Orphans ∧ d.NamesGrant registry)) ∧
    ∀ p, row.toPermission registry roleKey = .ok p →
      (p.RequiresAllOf registry d ↔ ¬ d.Orphans) := by
  refine ⟨?_, fun p => requiresAllOf_iff hid hd⟩
  rw [← PermissionDefinition.toPermission_numbered d id' id, toPermission_eq hid hd]
  constructor
  · rintro heq ⟨horphans, hnames⟩
    rw [PermissionDefinition.toPermission_of_orphans horphans hnames] at heq
    cases hread : d.withoutOrphans.toPermission registry id with
    | ok p => rw [hread] at heq; cases heq
    | error e =>
      rw [hread] at heq
      cases heq
      exact PermissionDefinition.withoutOrphans_ne_orphaned d id _ hread rfl
  · intro h
    by_cases horphans : d.Orphans
    · have hnames : ¬ d.NamesGrant registry := fun hnames => h ⟨horphans, hnames⟩
      rw [PermissionDefinition.toPermission_of_not_namesGrant hnames]
    · rw [PermissionDefinition.withoutOrphans_of_not_orphans horphans]

end

/-! ## Viewing in the context of a document -/

namespace InContext

/-- Readers view tasks in the context of a document that has a task. -/
def stored : PermissionRow :=
  { id := "00000000-0000-0000-0000-000000000001"
    roleId := ⟨0⟩
    resourceType := "task"
    action := "view"
    conditions := "[]"
    contextResourceType := some "document"
    contextConditions := some "[[\"container\",\"task\",[]]]" }

/-- The row without the type of the context. -/
def orphan : PermissionRow := { stored with contextResourceType := none }

def definition (contextType : Option String) : PermissionDefinition :=
  ⟨"task", "view", "reader", [], contextType, [.container "task" []]⟩

end InContext

open InContext in
theorem toPermission_eq_definition_iff_in_context :
    Uuid.ofText? stored.id = some ⟨1⟩ ∧
      stored.definition? "reader" = some (definition (some "document")) ∧
      (stored.toPermission WorkflowKind.registry "reader" =
          (((definition (some "document")).toPermission WorkflowKind.registry ⟨2⟩).map
            fun p => { p with id := ⟨1⟩ }).mapError StoreError.configuration ↔
        ¬ ((definition (some "document")).Orphans ∧
          (definition (some "document")).NamesGrant WorkflowKind.registry)) ∧
      ∀ p, stored.toPermission WorkflowKind.registry "reader" = .ok p →
        (p.RequiresAllOf WorkflowKind.registry (definition (some "document")) ↔
          ¬ (definition (some "document")).Orphans) := by
  have hid : Uuid.ofText? stored.id = some ⟨1⟩ := by cbv
  have hd : stored.definition? "reader" = some (definition (some "document")) := by cbv
  exact ⟨hid, hd, toPermission_eq_definition_iff hid hd ⟨2⟩⟩

open InContext in
/-- Without the type of the context the definition is rejected, and the row grants in any
context. -/
theorem toPermission_ne_definition_of_orphan :
    ∃ d p, Uuid.ofText? orphan.id = some ⟨1⟩ ∧ orphan.definition? "reader" = some d ∧
      d.toPermission WorkflowKind.registry ⟨1⟩ = .error PermissionDefinition.orphaned ∧
      orphan.toPermission WorkflowKind.registry "reader" = .ok p ∧
      d.contextConditions ≠ [] ∧ p.conditions = [] ∧ p.context = none :=
  ⟨definition none, ⟨⟨1⟩, ⟨"reader"⟩, WorkflowKind.task.type, .view, [], none⟩, by cbv, by cbv,
    by cbv, by cbv, List.cons_ne_nil _ _, rfl, rfl⟩

end PermissionRow

end AccessPolicy
