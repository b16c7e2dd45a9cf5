/-
Why conditions are refused.

Conditions are gone through twice, when they are checked and when they are compiled for
a principal.  Both go through them depth first, and what each condition is judged by
follows from the containers around it alone.  Apart from values that the two read
differently, a list under equality and the placeholder for the roles, both report the
first defect or find none.
-/
import AccessPolicy.Proofs.Condition.Acceptance
import AccessPolicy.Proofs.FieldPaths
import AccessPolicy.Proofs.Predicate.Alike
import AccessPolicy.Workflow

namespace AccessPolicy
namespace Condition

/-! ## Defects -/

/-- The reason why there is no result, if there is none. -/
def reasons {α : Type} : Except ConfigurationError α → List ConfigurationError
  | .error e => [e]
  | .ok _ => []

/-- The first defect of a list is reported. -/
def reported : List ConfigurationError → Except ConfigurationError Unit
  | [] => .ok ()
  | e :: _ => .error e

theorem reported_reasons {α : Type} (x : Except ConfigurationError α) :
    reported (reasons x) = x.map fun _ => () := by
  cases x <;> rfl

theorem reported_append (es ds : List ConfigurationError) :
    reported (es ++ ds) = reported es >>= fun _ => reported ds := by
  cases es <;> rfl

theorem reported_eq_error {es : List ConfigurationError} {e : ConfigurationError} :
    reported es = .error e ↔ es.head? = some e := by
  cases es with
  | nil => exact ⟨nofun, nofun⟩
  | cons d rest =>
    rw [reported, List.head?_cons, Except.error.injEq, Option.some_inj]

mutual

/-- All defects of a condition on entities of a type, depth first.  Nothing can be said of
what is in a container of an unknown type. -/
def defects (registry : Registry) : Condition → ResourceType → List ConfigurationError
  | .field text operator value, type =>
    reasons (FieldPath.parse text >>= registry.checkField type) ++
      if operator ≠ .isIn ∧ value.isArray then [listRefused text] else []
  | .container name conditions, type =>
    match registry.resourceType name with
    | .error e => [e]
    | .ok target =>
      reasons (registry.relation type target) ++ allDefects registry conditions target

def allDefects (registry : Registry) : List Condition → ResourceType → List ConfigurationError
  | [], _ => []
  | c :: rest, type => defects registry c type ++ allDefects registry rest type

end

mutual

/-- Somewhere in the condition a field is compared with a list for equality. -/
def equalsList : Condition → Bool
  | .field _ operator value => operator = .compare .equal && value.isArray
  | .container _ conditions => anyEqualsList conditions

def anyEqualsList : List Condition → Bool
  | [] => false
  | c :: rest => equalsList c || anyEqualsList rest

end

section

variable {registry : Registry} {principal : Principal}

/-! ## Checking -/

theorem validate_field (text : String) (operator : Operator) (value : Json)
    (type : ResourceType) :
    validate registry (.field text operator value) type =
      (FieldPath.parse text >>= registry.checkField type) >>= fun _ =>
        if operator ≠ .isIn ∧ value.isArray then .error (listRefused text) else .ok () := by
  rw [validate]
  cases FieldPath.parse text with
  | error e => rfl
  | ok path =>
    change _ = registry.checkField type path >>= fun _ => _
    dsimp only
    cases registry.checkField type path <;> rfl

theorem validate_container (name : String) (conditions : List Condition) (type : ResourceType) :
    validate registry (.container name conditions) type =
      registry.resourceType name >>= fun target => registry.relation type target >>= fun _ =>
        validateAll registry conditions target := by
  rw [validate]
  cases registry.resourceType name with
  | error e => rfl
  | ok target =>
    change _ = registry.relation type target >>= fun _ => _
    dsimp only
    cases registry.relation type target <;> rfl

theorem validateAll_cons (c : Condition) (rest : List Condition) (type : ResourceType) :
    validateAll registry (c :: rest) type =
      validate registry c type >>= fun _ => validateAll registry rest type := by
  rw [validateAll]
  cases validate registry c type <;> rfl

theorem validateAll_eq_reported_of_forall {conditions : List Condition}
    (h : ∀ c ∈ conditions, ∀ type, validate registry c type = reported (defects registry c type))
    (type : ResourceType) :
    validateAll registry conditions type = reported (allDefects registry conditions type) := by
  induction conditions with
  | nil => rfl
  | cons c rest ih =>
    obtain ⟨hc, hrest⟩ := List.forall_mem_cons.mp h
    rw [validateAll_cons, allDefects, reported_append, hc, ih hrest]

/-- The check reports the first defect. -/
theorem validate_eq_reported (c : Condition) :
    ∀ type, validate registry c type = reported (defects registry c type) := by
  induction c with
  | field text operator value =>
    intro type
    rw [validate_field, defects, reported_append, reported_reasons, Outcome.bind_map]
    refine bind_congr fun _ => ?_
    split <;> rfl
  | container name conditions ih =>
    intro type
    rw [validate_container, defects]
    cases registry.resourceType name with
    | error e => rfl
    | ok target =>
      change (registry.relation type target >>= fun _ => validateAll registry conditions target) =
        reported (reasons (registry.relation type target) ++ _)
      rw [reported_append, reported_reasons, Outcome.bind_map,
        validateAll_eq_reported_of_forall ih]

theorem validateAll_eq_reported (conditions : List Condition) (type : ResourceType) :
    validateAll registry conditions type = reported (allDefects registry conditions type) :=
  validateAll_eq_reported_of_forall (fun c _ => validate_eq_reported c) type

/-! ## Compiling -/

/-- A value that both read alike is refused in a comparison when it is a list. -/
theorem comparedWith_map {text : String} {path : FieldPath} {comparison : Comparison}
    {value : Json} (htext : path.text = text)
    (hlist : equalsList (.field text (.compare comparison) value) = false)
    (hroles : comparesRoles (.field text (.compare comparison) value) = false) :
    (comparedWith path comparison (resolveValue principal value)).map (fun _ => ()) =
      if value.isArray then .error (listRefused text) else .ok () := by
  cases value with
  | array items =>
    have hne : comparison ≠ .equal := by
      rintro rfl
      cases hlist
    change (comparedWith path comparison (.array items)).map _ = .error (listRefused text)
    rw [comparedWith, if_neg hne, htext]
    rfl
  | string s =>
    rcases resolveValue_string principal s with ⟨rfl, hresolved⟩ | ⟨_, hne⟩
    · have hequal : comparison = .equal := by
        simpa [comparesRoles] using hroles
      rw [hresolved, comparedWith, if_pos hequal]
      rfl
    · cases hresolved : resolveValue principal (.string s) with
      | array values => exact absurd hresolved (hne values)
      | _ => rfl
  | null => rfl
  | bool b => rfl
  | number n => rfl
  | object members => rfl

theorem compileParts_map_of_forall {conditions : List Condition}
    (h : ∀ c ∈ conditions, equalsList c = false → comparesRoles c = false → ∀ type,
      (compile registry principal c type).map (fun _ => ()) = reported (defects registry c type))
    (hlists : anyEqualsList conditions = false) (hroles : anyComparesRoles conditions = false)
    (type : ResourceType) :
    (compileParts registry principal conditions type).map (fun _ => ()) =
      reported (allDefects registry conditions type) := by
  induction conditions with
  | nil => rfl
  | cons c rest ih =>
    obtain ⟨hc, hrest⟩ := List.forall_mem_cons.mp h
    rw [anyEqualsList, Bool.or_eq_false_iff] at hlists
    rw [anyComparesRoles, Bool.or_eq_false_iff] at hroles
    rw [compileParts_cons, Outcome.map_bind, allDefects, reported_append,
      ← hc hlists.1 hroles.1, Outcome.bind_map]
    refine bind_congr fun p => ?_
    rw [Outcome.map_map]
    exact ih hrest hlists.2 hroles.2

/-- Compiling reports the first defect as well. -/
theorem compile_map (c : Condition) :
    equalsList c = false → comparesRoles c = false → ∀ type,
      (compile registry principal c type).map (fun _ => ()) =
        reported (defects registry c type) := by
  induction c with
  | field text operator value =>
    intro hlist hroles type
    rw [compile_field, Outcome.map_bind, defects, reported_append, reported_reasons,
      Outcome.bind_map]
    cases hpath : FieldPath.parse text with
    | error e => rfl
    | ok path =>
      change ((registry.checkField type path >>= fun _ => _).map _) =
        registry.checkField type path >>= fun _ => _
      rw [Outcome.map_bind]
      refine bind_congr fun _ => ?_
      -- Past the path and the field, only a list of values can still be refused.
      cases operator with
      | isIn => rfl
      | compare comparison =>
        rw [comparedWith_map (FieldPath.text_of_parse hpath) hlist hroles]
        simp only [ne_eq, reduceCtorEq, not_false_eq_true, true_and]
        split <;> rfl
  | container name conditions ih =>
    intro hlist hroles type
    rw [compile_container, Outcome.map_bind, defects]
    cases registry.resourceType name with
    | error e => rfl
    | ok target =>
      change ((registry.relation type target >>= fun _ => _).map _) =
        reported (reasons (registry.relation type target) ++ _)
      rw [Outcome.map_bind, reported_append, reported_reasons, Outcome.bind_map]
      refine bind_congr fun relation => ?_
      rw [Outcome.map_map]
      exact compileParts_map_of_forall ih hlist hroles target

variable (registry principal) in
theorem compileAll_map {conditions : List Condition} (type : ResourceType)
    (hlists : anyEqualsList conditions = false) (hroles : anyComparesRoles conditions = false) :
    (compileAll registry principal conditions type).map (fun _ => ()) =
      reported (allDefects registry conditions type) := by
  rw [compileAll, Outcome.map_map]
  exact compileParts_map_of_forall (fun c _ => compile_map c) hlists hroles type

/-- Conditions without the values that are read differently are refused for the same
reason, the first of their defects, whether they are checked or compiled. -/
theorem refused_by_first_defect {conditions : List Condition} (type : ResourceType)
    (hlists : anyEqualsList conditions = false) (hroles : anyComparesRoles conditions = false) :
    (validateAll registry conditions type = .ok () ↔
        ∃ p, compileAll registry principal conditions type = .ok p) ∧
      ∀ e, (validateAll registry conditions type = .error e ↔
          compileAll registry principal conditions type = .error e) ∧
        (validateAll registry conditions type = .error e ↔
          (allDefects registry conditions type).head? = some e) := by
  have hcompile := compileAll_map registry principal type hlists hroles
  rw [validateAll_eq_reported]
  refine ⟨?_, fun e => ⟨?_, reported_eq_error⟩⟩
  · rw [← hcompile, Outcome.map_eq_ok]
    exact ⟨fun ⟨p, hp, _⟩ => ⟨p, hp⟩, fun ⟨p, hp⟩ => ⟨p, hp, rfl⟩⟩
  · rw [← hcompile]
    cases compileAll registry principal conditions type with
    | error d => exact ⟨fun h => congrArg Except.error (Except.error.inj h), fun h => h ▸ rfl⟩
    | ok p => exact ⟨nofun, nofun⟩

end

/-- A defect stands behind conditions without one, and further defects stand behind it. -/
def defective : List Condition :=
  [.container "document"
      [.field "content.region" .isIn (.array [.string "eu", .string currentUserRoles]),
        .container "task" [.field "assignee" (.compare .equal) (.string currentUserRoles)],
        .field "content.team" (.compare .less) (.array []),
        .field "team.name" (.compare .equal) .null],
    .container "execution" []]

theorem refused_by_first_defect_nested :
    anyEqualsList defective = false ∧ anyComparesRoles defective = false ∧
      allDefects WorkflowKind.registry defective WorkflowKind.task.type =
        [listRefused "content.team", .invalidFieldPath "team.name",
          .missingRelation "task" "execution"] ∧
      validateAll WorkflowKind.registry defective WorkflowKind.task.type =
        .error (listRefused "content.team") ∧
      compileAll WorkflowKind.registry .anonymous defective WorkflowKind.task.type =
        .error (listRefused "content.team") := by
  have hlists : anyEqualsList defective = false := by decide
  have hroles : anyComparesRoles defective = false := by decide
  have hdefects : allDefects WorkflowKind.registry defective WorkflowKind.task.type =
      [listRefused "content.team", .invalidFieldPath "team.name",
        .missingRelation "task" "execution"] := by rfl
  obtain ⟨hsame, hfirst⟩ := (@refused_by_first_defect WorkflowKind.registry .anonymous _
    WorkflowKind.task.type hlists hroles).2 (listRefused "content.team")
  have hvalidate := hfirst.mpr (congrArg List.head? hdefects)
  exact ⟨hlists, hroles, hdefects, hvalidate, hsame.mp hvalidate⟩

end Condition
end AccessPolicy
