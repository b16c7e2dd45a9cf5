/-
Roles that would do when nobody acts.

Where nobody is signed in, the search for roles fills the identifier of the acting user in
as the empty text.  It is an ordinary text to the comparisons that follow.  A condition
that asks for the identifier of the acting user therefore holds of no entity, except of
one that has the empty text in the field.
-/
import AccessPolicy.Proofs.Service.Callers
import AccessPolicy.Proofs.Service.Discovery
import AccessPolicy.Proofs.Specification.Related
import AccessPolicy.Proofs.Specification.Satisfiability

namespace AccessPolicy

/-! ## The identifier of the acting user -/

/-- The text is a path, and the path leads to the value. -/
def FieldPath.Leads (text : String) (attributes value : Json) : Prop :=
  ∃ path, parse text = .ok path ∧ path.resolve attributes = some value

namespace Condition

/-- The field that the condition compares with the identifier of the acting user and with
nothing else. -/
def identified? : Condition → Option String
  | .field text (.compare .equal) (.string value) =>
    if value = currentUserIdentifier then some text else none
  | .field text .isIn (.string value) =>
    if value = currentUserIdentifier then some text else none
  | _ => none

section

variable {registry : Registry} {principal : Principal}

theorem denotes_currentUserIdentifier :
    denotes principal (.string currentUserIdentifier) = .string principal.identifier := rfl

theorem candidates_currentUserIdentifier :
    candidates principal (.string currentUserIdentifier) = [.string principal.identifier] := rfl

/-- The placeholder stands for the identifier, whether as a value or as the only candidate. -/
theorem fieldHolds_currentUserIdentifier {operator : Operator} {stored : Option Json}
    (h : operator = .compare .equal ∨ operator = .isIn) :
    fieldHolds principal operator (.string currentUserIdentifier) stored = true ↔
      stored = some (.string principal.identifier) := by
  obtain rfl | rfl := h
  · rw [fieldHolds, denotes_currentUserIdentifier]
    exact Comparison.equal_test_string_iff
  · have hpresent : ([.string principal.identifier] : List Json).filter (fun v => !v.isNull) =
        [.string principal.identifier] := rfl
    rw [fieldHolds, candidates_currentUserIdentifier, Comparison.member_eq_any_test, hpresent,
      List.any_cons, List.any_nil, Bool.or_false]
    exact Comparison.equal_test_string_iff

theorem eq_field_of_identified {c : Condition} {text : String} (h : c.identified? = some text) :
    ∃ operator, c = .field text operator (.string currentUserIdentifier) ∧
      (operator = .compare .equal ∨ operator = .isIn) := by
  unfold identified? at h
  split at h
  · split at h
    · rename_i hvalue
      cases h
      exact ⟨_, by rw [hvalue], .inl rfl⟩
    · cases h
  · split at h
    · rename_i hvalue
      cases h
      exact ⟨_, by rw [hvalue], .inr rfl⟩
    · cases h
  · cases h

/-- Such a condition holds of the rows that have the identifier in the field. -/
theorem holdsOnRow_of_identified {c : Condition} {text : String} {type : ResourceType} {row : Row}
    (h : c.identified? = some text) :
    c.holdsOnRow registry principal type row = true ↔
      FieldPath.Leads text row.attributes (.string principal.identifier) := by
  obtain ⟨operator, rfl, hoperator⟩ := eq_field_of_identified h
  cases hpath : FieldPath.parse text with
  | error e =>
    have hholds : holdsOnRow registry principal
        (.field text operator (.string currentUserIdentifier)) type row = false := by
      simp only [holdsOnRow, holdsAt, hpath]
    rw [hholds]
    refine iff_of_false Bool.false_ne_true ?_
    rintro ⟨path, hparsed, _⟩
    cases hpath.symm.trans hparsed
  | ok path =>
    rw [holdsOnRow, holdsAt_field type row hpath, fieldHolds_currentUserIdentifier hoperator]
    constructor
    · exact fun hresolve => ⟨path, hpath, hresolve⟩
    · rintro ⟨path', hparsed, hresolve⟩
      obtain rfl := Except.ok.inj (hpath.symm.trans hparsed)
      exact hresolve

/-- What the condition asks of a row where nobody acts: a field that is compared with the
identifier of the acting user has to be the empty text. -/
def HoldsForNobody (registry : Registry) (c : Condition) (type : ResourceType) (row : Row) : Prop :=
  match c.identified? with
  | some text => FieldPath.Leads text row.attributes (.string "")
  | none => c.holdsOnRow registry .anonymous type row = true

theorem holdsForNobody_iff {c : Condition} {type : ResourceType} {row : Row} :
    c.HoldsForNobody registry type row ↔ c.holdsOnRow registry .anonymous type row = true := by
  rw [HoldsForNobody]
  cases h : c.identified? with
  | none => exact Iff.rfl
  | some text =>
    have hrow : c.holdsOnRow registry .anonymous type row = true ↔
        FieldPath.Leads text row.attributes (.string "") := holdsOnRow_of_identified h
    exact hrow.symm

end

end Condition

/-! ## Requests about one entity -/

namespace Specification

variable {registry : Registry} {ambient : Ambient} {principal : Principal} {request : Request}
  {permissions : List Permission} {s : Specification} {e : Entity}

/-- A predicate that is not the true literal is decided on the rows that are loaded. -/
theorem decideOn_eq_true_iff {attributes : Json} {p : Predicate} (hp : p ≠ .always) :
    decideOn registry ambient attributes p = .ok true ↔
      ∃ row, Row.load registry ambient attributes p = .ok row ∧ p.holds row = true := by
  rw [decideOn]
  split
  · rename_i hliteral
    have hnever : p = .never := by
      cases p with
      | literal value =>
        cases value with
        | false => rfl
        | true => exact absurd rfl hp
      | _ => cases hliteral
    subst hnever
    refine iff_of_false (by intro h; cases h) ?_
    rintro ⟨row, _, hholds⟩
    cases hholds
  · exact Outcome.map_eq_ok

/-- Where every permission has conditions, an entity is allowed by a permission whose
conditions hold on the row that is loaded for all of them. -/
theorem isAuthorized_iff_of_conditions
    (h : compile registry ambient principal request permissions = .ok s)
    (hdeny : request.action ≠ .deny) (hsubject : request.subject = .entity (some e))
    (hconditions : ∀ p ∈ permissions, p.grants request.resourceType request.action = true →
      p.conditions ≠ []) :
    s.isAuthorized registry ambient = .ok true ↔
      ∃ attributes row, e.attributes = .ok attributes ∧
        Row.load registry ambient attributes s.predicate = .ok row ∧
        ∃ p ∈ permissions, p.grants request.resourceType request.action = true ∧
          p.TakesPart registry ambient principal request.context ∧
          ∀ c ∈ p.conditions,
            c.holdsOnRow registry principal request.resourceType row = true := by
  obtain ⟨applicable, hmem, hcompiled, _⟩ := of_compile_direct h hdeny
    fun _ _ hrelated => Subject.noConfusion (hsubject.symm.trans hrelated)
  have hholds : ∀ row, s.predicate.holds row = true ↔
      ∃ p ∈ permissions, p.grants request.resourceType request.action = true ∧
        p.TakesPart registry ambient principal request.context ∧
        ∀ c ∈ p.conditions, c.holdsOnRow registry principal request.resourceType row = true := by
    intro row
    rw [holds_of_compileEntity hcompiled]
    simp only [List.any_eq_true, List.all_eq_true, hmem, Permission.grants_eq_true_iff, and_assoc]
  obtain ⟨fragments, _, hfragments, hattributes, hpredicate, htarget⟩ :=
    of_compileEntity hcompiled
  obtain ⟨hnone, _⟩ | ⟨_, attributes, hsome, rfl, he⟩ :=
    AuthorizationService.attributes_of_mapM hattributes
  · rw [hsubject] at hnone
    cases hnone
  rw [hsubject] at hsome
  cases hsome
  -- Only a permission without conditions makes the predicate hold without any rows.
  have hopen : s.predicate ≠ .always := by
    intro halways
    rw [hpredicate] at halways
    obtain ⟨p, hp, hnil⟩ := (any_fragments_eq_always_iff hfragments).mp halways
    obtain ⟨hpermission, htype, haction, _⟩ := (hmem p).mp hp
    exact hconditions p hpermission (Permission.grants_eq_true_iff.mpr ⟨htype, haction⟩) hnil
  rw [isAuthorized, htarget]
  show decideOn registry ambient attributes s.predicate = .ok true ↔ _
  simp only [decideOn_eq_true_iff hopen, hholds, he, Except.ok.injEq, exists_and_left,
    exists_eq_left']

end Specification

namespace AuthorizationService

section

variable {s : AuthorizationService} {ambient : Ambient} {principal : Principal} {request : Request}
  {role : Role} {e : Entity}

/-- A permission of the role grants the action and takes part in the request, and each of
its conditions holds, as told, on the row that is loaded for all permissions of the role. -/
def GrantedOnRow (s : AuthorizationService) (ambient : Ambient) (principal : Principal)
    (request : Request) (e : Entity) (role : Role) (holds : Condition → Row → Prop) : Prop :=
  ∃ stored attributes spec row,
    s.roles.permissionsFor role request.resourceType = .ok stored ∧
    e.attributes = .ok attributes ∧
    Specification.compile s.registry ambient principal request
      (stored.filter fun p => p.grants request.resourceType request.action) = .ok spec ∧
    Row.load s.registry ambient attributes spec.predicate = .ok row ∧
    ∃ p ∈ stored, p.grants request.resourceType request.action = true ∧
      p.TakesPart s.registry ambient principal request.context ∧
      ∀ c ∈ p.conditions, holds c row

theorem roleAuthorizes_iff_of_conditions (hdeny : request.action ≠ .deny)
    (hsubject : request.subject = .entity (some e))
    (hconditions : ∀ stored, s.roles.permissionsFor role request.resourceType = .ok stored →
      ∀ p ∈ stored, p.grants request.resourceType request.action = true → p.conditions ≠ []) :
    s.roleAuthorizes ambient principal request role = .ok true ↔
      s.GrantedOnRow ambient principal request e role fun c row =>
        c.holdsOnRow s.registry principal request.resourceType row = true := by
  rw [roleAuthorizes, permissionsOf]
  constructor
  · intro h
    obtain ⟨permissions, hpermissions, h⟩ := Outcome.bind_eq_ok.mp h
    obtain ⟨stored, hstored, hpermissions⟩ := Outcome.bind_eq_ok.mp hpermissions
    obtain ⟨spec, hspec, hauthorized⟩ := Outcome.bind_eq_ok.mp h
    cases hpermissions
    have hstored := Outcome.mapError_eq_ok.mp hstored
    obtain ⟨attributes, row, hattributes, hrow, p, hp, hgranted⟩ :=
      (Specification.isAuthorized_iff_of_conditions hspec hdeny hsubject fun p hp =>
        hconditions stored hstored p (List.mem_filter.mp hp).1).mp hauthorized
    exact ⟨stored, attributes, spec, row, hstored, hattributes, hspec, hrow, p,
      (List.mem_filter.mp hp).1, hgranted⟩
  · rintro ⟨stored, attributes, spec, row, hstored, hattributes, hspec, hrow, p, hp, hgranted⟩
    have hauthorized := (Specification.isAuthorized_iff_of_conditions hspec hdeny hsubject
      fun p hp => hconditions stored hstored p (List.mem_filter.mp hp).1).mpr
        ⟨attributes, row, hattributes, hrow, p, List.mem_filter.mpr ⟨hp, hgranted.1⟩, hgranted⟩
    refine Outcome.bind_eq_ok.mpr ⟨_, Outcome.bind_eq_ok.mpr
      ⟨stored, Outcome.mapError_eq_ok.mpr hstored, rfl⟩, ?_⟩
    exact Outcome.bind_eq_ok.mpr ⟨spec, hspec, hauthorized⟩

theorem discoveringPrincipal_of_nobody {entity : Option Entity}
    (hcurrent : s.principals.current ambient = none) (hsubject : request.subject = .entity entity) :
    s.discoveringPrincipal ambient request = .ok .anonymous := by
  rw [discoveringPrincipal, effectivePrincipal, hsubject]
  simp only [hcurrent]

section

variable {roles : RoleSet} (hcurrent : s.principals.current ambient = none)
  (hsubject : request.subject = .entity (some e))
  (hroles : s.authorizedRoles ambient request = .ok roles)
include hcurrent hsubject hroles

theorem mem_authorizedRoles_iff_of_conditions
    (hconditions : ∀ stored, s.roles.permissionsFor role request.resourceType = .ok stored →
      ∀ p ∈ stored, p.grants request.resourceType request.action = true → p.conditions ≠ []) :
    role ∈ roles ↔ request.action ≠ .deny ∧
      (∃ granting, s.roles.rolesGranting request.resourceType request.action = .ok granting ∧
        role ∈ granting) ∧
      s.GrantedOnRow ambient .anonymous request e role fun c row =>
        c.holdsOnRow s.registry .anonymous request.resourceType row = true := by
  by_cases hdeny : request.action = .deny
  · have hdenied : request.action.isDeny = true := decide_eq_true hdeny
    rw [authorizedRoles, if_pos hdenied] at hroles
    cases hroles
    exact iff_of_false List.not_mem_nil fun h => h.1 hdeny
  · obtain ⟨principal, granting, hprincipal, hgranting, hfound⟩ :=
      of_authorizedRoles (decide_eq_false hdeny) hroles
    obtain rfl : .anonymous = principal :=
      Except.ok.inj ((discoveringPrincipal_of_nobody hcurrent hsubject).symm.trans hprincipal)
    rw [(hfound role).2, roleAuthorizes_iff_of_conditions hdeny hsubject hconditions]
    constructor
    · rintro ⟨hrole, hgranted⟩
      exact ⟨hdeny, ⟨granting, hgranting, hrole⟩, hgranted⟩
    · rintro ⟨_, ⟨granting', hgranting', hrole⟩, hgranted⟩
      obtain rfl := Except.ok.inj (hgranting.symm.trans hgranting')
      exact ⟨hrole, hgranted⟩

/-- Where nobody acts, and every permission of a role for the type and the action compares
some field with the identifier of the acting user, the search finds the role for an entity
exactly when some of these permissions is granted with the empty text in each such field.
It never finds the role for an entity that has something else in one such field of each
permission. -/
theorem mem_authorizedRoles_of_nobody
    (hidentified : ∀ stored, s.roles.permissionsFor role request.resourceType = .ok stored →
      ∀ p ∈ stored, p.grants request.resourceType request.action = true →
        ∃ c ∈ p.conditions, c.identified?.isSome = true) :
    (role ∈ roles ↔ request.action ≠ .deny ∧
      (∃ granting, s.roles.rolesGranting request.resourceType request.action = .ok granting ∧
        role ∈ granting) ∧
      s.GrantedOnRow ambient .anonymous request e role fun c row =>
        c.HoldsForNobody s.registry request.resourceType row) ∧
    ((∀ stored attributes, s.roles.permissionsFor role request.resourceType = .ok stored →
        e.attributes = .ok attributes →
        ∀ p ∈ stored, p.grants request.resourceType request.action = true →
          ∃ c ∈ p.conditions, ∃ text, c.identified? = some text ∧
            ¬ FieldPath.Leads text attributes (.string "")) →
      role ∉ roles) := by
  have hconditions : ∀ stored, s.roles.permissionsFor role request.resourceType = .ok stored →
      ∀ p ∈ stored, p.grants request.resourceType request.action = true → p.conditions ≠ [] := by
    intro stored hstored p hp hgrants
    obtain ⟨c, hc, _⟩ := hidentified stored hstored p hp hgrants
    exact List.ne_nil_of_mem hc
  have hmem := mem_authorizedRoles_iff_of_conditions hcurrent hsubject hroles hconditions
  constructor
  · simp only [Condition.holdsForNobody_iff]
    exact hmem
  · intro hfilled hrole
    obtain ⟨_, _, stored, attributes, spec, row, hstored, hattributes, _, hrow, p, hp, hgrants, _,
      hholds⟩ := hmem.mp hrole
    obtain ⟨c, hc, text, htext, hne⟩ := hfilled stored attributes hstored hattributes p hp hgrants
    have hleads := (Condition.holdsOnRow_of_identified htext).mp (hholds c hc)
    rw [Row.attributes_of_loadLevels hrow] at hleads
    exact hne hleads

end

end

/-! ## Tasks of nobody -/

/-- Readers see the tasks that are assigned to them. -/
def ownTaskReaders : AuthorizationService :=
  { northernReaders with roles := assignedReaders.repository }

theorem identified_ownTaskReaders {stored : List Permission}
    (h : ownTaskReaders.roles.permissionsFor ⟨"reader"⟩ WorkflowKind.task.type = .ok stored) :
    ∀ p ∈ stored, ∃ c ∈ p.conditions, c.identified? = some "assignee" := by
  intro p hp
  cases h
  obtain rfl := List.mem_singleton.mp (List.mem_filter.mp hp).1
  exact ⟨_, List.mem_singleton_self _, rfl⟩

/-- Nobody is led to the readers by a task that is assigned to a user. -/
theorem mem_authorizedRoles_of_nobody_assignee :
    ownTaskReaders.principals.current .fresh = none ∧
      assignedTask.subject = .entity (some ⟨"t2", .ok (.object [("assignee", .string "user")])⟩) ∧
      ∃ roles, ownTaskReaders.authorizedRoles .fresh assignedTask = .ok roles ∧
        (⟨"reader"⟩ : Role) ∉ roles := by
  have hroles : ownTaskReaders.authorizedRoles .fresh assignedTask = .ok .empty := by cbv
  refine ⟨rfl, rfl, .empty, hroles, (mem_authorizedRoles_of_nobody rfl rfl hroles ?_).2 ?_⟩
  · intro stored hstored p hp _
    obtain ⟨c, hc, htext⟩ := identified_ownTaskReaders hstored p hp
    exact ⟨c, hc, by rw [htext]; rfl⟩
  · intro stored attributes hstored hattributes p hp _
    obtain ⟨c, hc, htext⟩ := identified_ownTaskReaders hstored p hp
    refine ⟨c, hc, "assignee", htext, ?_⟩
    rintro ⟨path, hpath, hresolve⟩
    have hassignee : FieldPath.parse "assignee" = .ok Specification.Absorption.assignee := rfl
    obtain rfl := Except.ok.inj (hassignee.symm.trans hpath)
    cases hattributes
    exact absurd hresolve (by decide)

/-- A request about a task whose assignee is the empty text. -/
def unnamedTask : Request :=
  { assignedTask with
    subject := .entity (some ⟨"t0", .ok (.object [("assignee", .string ""),
      ("document_id", .string "d0"), ("id", .string "t0"), ("name", .string "review"),
      ("process_definition_id", .string "p0")])⟩) }

/-- The identifier of nobody is taken for the assignee of that task, and the search finds
the readers, each of whose permissions compares the assignee with the acting user. -/
theorem mem_authorizedRoles_of_empty_assignee :
    ownTaskReaders.principals.current .fresh = none ∧
      (∃ e, unnamedTask.subject = .entity (some e)) ∧
      (∀ stored,
        ownTaskReaders.roles.permissionsFor ⟨"reader"⟩ unnamedTask.resourceType = .ok stored →
        ∀ p ∈ stored, p.grants unnamedTask.resourceType unnamedTask.action = true →
          .field "assignee" (.compare .equal) (.string Condition.currentUserIdentifier) ∈
            p.conditions) ∧
      ∃ roles, ownTaskReaders.authorizedRoles .fresh unnamedTask = .ok roles ∧
        (⟨"reader"⟩ : Role) ∈ roles := by
  have hroles : ownTaskReaders.authorizedRoles .fresh unnamedTask =
      .ok (.ofList [⟨"reader"⟩]) := by cbv
  refine ⟨rfl, ⟨_, rfl⟩, fun stored hstored p hp _ => ?_, _, hroles, by decide⟩
  cases hstored
  obtain rfl := List.mem_singleton.mp (List.mem_filter.mp hp).1
  exact List.mem_singleton_self _

end AuthorizationService
end AccessPolicy
