/-
What conditions mean.

A condition is about an entity of a type and asks its relations of the registry.
Its values are those that are written, but for three texts that stand for something
else.  The predicate that it is compiled to holds of exactly the entities on which the
condition holds, and reaches them by relations of the registry alone.  Where the
related entities come from does not matter: it is the same for entities behind
loaders and for rows in memory.
-/
import AccessPolicy.Condition.Compile
import AccessPolicy.Proofs.Predicate.Built
import AccessPolicy.Proofs.Predicate.Loading

namespace AccessPolicy
namespace Condition

/-- Induction over a condition, with the conditions of a container taken together. -/
@[elab_as_elim, induction_eliminator]
theorem induct {motive : Condition → Prop}
    (field : ∀ text operator value, motive (.field text operator value))
    (container : ∀ name conditions, (∀ c ∈ conditions, motive c) →
      motive (.container name conditions)) :
    ∀ c, motive c
  | .field text operator value => field text operator value
  | .container name conditions =>
    container name conditions fun c _ => induct field container c

/-! ## What values stand for -/

/-- What a value stands for.  Three texts do not stand for themselves, but for the
identifier of the principal, for the list of the keys of its roles and for null. -/
def denotes (principal : Principal) : Json → Json
  | .string "$\x7bcurrentUserIdentifier\x7d" => .string principal.identifier
  | .string "$\x7bcurrentUserRoles\x7d" =>
    .array (principal.roles.roles.map fun role => .string role.key)
  | .string "$\x7bnull\x7d" => .null
  | value => value

/-- What one item adds to the candidates of a membership test: the elements, if it
stands for a list. -/
def offered (principal : Principal) (item : Json) : List Json :=
  match denotes principal item with
  | .array elements => elements
  | single => [single]

/-- The candidates of a membership test.  A list offers what its items offer. -/
def candidates (principal : Principal) : Json → List Json
  | .array items => items.flatMap (offered principal)
  | single => offered principal single

theorem resolveValue_eq_denotes (principal : Principal) (value : Json) :
    resolveValue principal value = denotes principal value := by
  cases value with
  | string s =>
    by_cases hidentifier : s = currentUserIdentifier
    · subst hidentifier
      rfl
    by_cases hroles : s = currentUserRoles
    · subst hroles
      exact congrArg Json.array (List.map_map ..)
    by_cases hnull : s = nullValue
    · subst hnull
      rfl
    rw [resolveValue, if_neg hidentifier, if_neg hroles, if_neg hnull, denotes]
    · exact fun h => hidentifier (Json.string.inj h)
    · exact fun h => hroles (Json.string.inj h)
    · exact fun h => hnull (Json.string.inj h)
  | _ => rfl

theorem resolveValues_eq_candidates (principal : Principal) (value : Json) :
    resolveValues principal value = candidates principal value := by
  have hitems : resolveValues principal value =
      (match value with
        | .array items => items
        | single => [single]).flatMap (offered principal) := by
    refine List.flatMap_congr fun item _ => ?_
    rw [resolveValue_eq_denotes]
    rfl
  rw [hitems]
  cases value with
  | array items => rfl
  | _ => exact List.flatMap_singleton ..

/-! ## Meaning -/

/-- Whether a field satisfies an operator with a value.  Equality with a list is
membership in it. -/
def fieldHolds (principal : Principal) (operator : Operator) (value : Json)
    (stored : Option Json) : Bool :=
  match operator with
  | .isIn => Comparison.member stored (candidates principal value)
  | .compare comparison =>
    match denotes principal value with
    | .array values => comparison = .equal && Comparison.member stored values
    | single => comparison.test stored single

mutual

/-- Whether a condition holds at a point with attributes, from which relations
lead to further points. -/
def holdsAt {σ : Type} (registry : Registry) (principal : Principal) (attributes : σ → Json)
    (joined : Relation → σ → List σ) : Condition → ResourceType → σ → Bool
  | .field text operator value, _, x =>
    match FieldPath.parse text with
    | .error _ => false
    | .ok path => fieldHolds principal operator value (path.resolve (attributes x))
  | .container name conditions, type, x =>
    match registry.resourceType name with
    | .error _ => false
    | .ok target =>
      match registry.relation type target with
      | .error _ => false
      | .ok relation =>
        (joined relation x).any fun y =>
          allHoldAt registry principal attributes joined conditions target y

/-- Whether conditions hold together at a point. -/
def allHoldAt {σ : Type} (registry : Registry) (principal : Principal) (attributes : σ → Json)
    (joined : Relation → σ → List σ) : List Condition → ResourceType → σ → Bool
  | [], _, _ => true
  | c :: rest, type, x =>
    holdsAt registry principal attributes joined c type x &&
      allHoldAt registry principal attributes joined rest type x

end

mutual

/-- Whether a condition holds on an entity of a type. -/
def holdsOn (registry : Registry) (ambient : Ambient) (principal : Principal) :
    Condition → ResourceType → Json → Bool
  | .field text operator value, _, attributes =>
    match FieldPath.parse text with
    | .error _ => false
    | .ok path => fieldHolds principal operator value (path.resolve attributes)
  | .container name conditions, type, attributes =>
    match registry.resourceType name with
    | .error _ => false
    | .ok target =>
      match registry.relation type target with
      | .error _ => false
      | .ok relation =>
        (Row.relatedEntities registry ambient relation attributes).any fun entity =>
          allHoldOn registry ambient principal conditions target entity

/-- Whether conditions hold together on an entity of a type. -/
def allHoldOn (registry : Registry) (ambient : Ambient) (principal : Principal) :
    List Condition → ResourceType → Json → Bool
  | [], _, _ => true
  | c :: rest, type, attributes =>
    holdsOn registry ambient principal c type attributes &&
      allHoldOn registry ambient principal rest type attributes

end

section

variable {registry : Registry} {ambient : Ambient} {principal : Principal}

theorem allHoldOn_eq_all (conditions : List Condition) (type : ResourceType) (attributes : Json) :
    allHoldOn registry ambient principal conditions type attributes =
      conditions.all fun c => holdsOn registry ambient principal c type attributes := by
  induction conditions with
  | nil => rfl
  | cons c rest ih => rw [allHoldOn, ih, List.all_cons]

/-! ## What compiling gives -/

theorem forall₂_of_compileParts {conditions : List Condition} {type : ResourceType} :
    ∀ {ps : List Predicate}, compileParts registry principal conditions type = .ok ps →
      List.Forall₂ (fun c p => compile registry principal c type = .ok p) conditions ps := by
  induction conditions with
  | nil =>
    intro ps h
    rw [compileParts] at h
    cases h
    exact .nil
  | cons c rest ih =>
    intro ps h
    rw [compileParts] at h
    split at h
    · cases h
    · rename_i p hp
      split at h
      · cases h
      · rename_i qs hqs
        cases h
        exact .cons hp (ih hqs)

/-- A condition on a field becomes a comparison or a membership test of the same
field. -/
theorem of_compile_field {text : String} {operator : Operator} {value : Json}
    {type : ResourceType} {p : Predicate}
    (h : compile registry principal (.field text operator value) type = .ok p) :
    ∃ path, FieldPath.parse text = .ok path ∧
      ((∃ values, p = .oneOf path values ∧ ∀ stored,
          fieldHolds principal operator value stored = Comparison.member stored values) ∨
        ∃ comparison resolved, p = .compare path comparison resolved ∧ ∀ stored,
          fieldHolds principal operator value stored = comparison.test stored resolved) := by
  rw [compile] at h
  split at h
  · cases h
  · rename_i path hpath
    refine ⟨path, hpath, ?_⟩
    split at h
    · cases h
    · split at h
      · cases h
        refine .inl ⟨_, rfl, fun stored => ?_⟩
        rw [fieldHolds, resolveValues_eq_candidates]
      · rename_i comparison
        rw [resolveValue_eq_denotes] at h
        split at h
        · rename_i values hvalues
          split at h
          · rename_i hequal
            cases h
            refine .inl ⟨_, rfl, fun stored => ?_⟩
            simp [fieldHolds, hvalues, hequal]
          · cases h
        · rename_i hresolved
          cases h
          refine .inr ⟨_, _, rfl, fun stored => ?_⟩
          rw [fieldHolds]
          split
          · rename_i values hvalues
            exact absurd hvalues (hresolved values)
          · rfl

/-- A container becomes a subquery over the relation to the type it names. -/
theorem of_compile_container {name : String} {conditions : List Condition} {type : ResourceType}
    {p : Predicate} (h : compile registry principal (.container name conditions) type = .ok p) :
    ∃ target relation parts, registry.resourceType name = .ok target ∧
      registry.relation type target = .ok relation ∧
      compileParts registry principal conditions target = .ok parts ∧
      p = .someRelated relation (.all parts) := by
  rw [compile] at h
  split at h
  · cases h
  · rename_i target htarget
    split at h
    · cases h
    · rename_i relation hrelation
      split at h
      · cases h
      · rename_i parts hparts
        cases h
        exact ⟨target, relation, parts, htarget, hrelation, hparts, rfl⟩

section

variable {σ : Type} {attributes : σ → Json} {joined : Relation → σ → List σ}

theorem allHoldAt_eq_all (conditions : List Condition) (type : ResourceType) (x : σ) :
    allHoldAt registry principal attributes joined conditions type x =
      conditions.all fun c => holdsAt registry principal attributes joined c type x := by
  induction conditions with
  | nil => rfl
  | cons c rest ih => rw [allHoldAt, ih, List.all_cons]

theorem holdsAt_field {text : String} {operator : Operator} {value : Json} {path : FieldPath}
    (type : ResourceType) (x : σ) (h : FieldPath.parse text = .ok path) :
    holdsAt registry principal attributes joined (.field text operator value) type x =
      fieldHolds principal operator value (path.resolve (attributes x)) := by
  simp only [holdsAt, h]

theorem holdsAt_container {name : String} {conditions : List Condition} {type target : ResourceType}
    {relation : Relation} (x : σ) (htarget : registry.resourceType name = .ok target)
    (hrelation : registry.relation type target = .ok relation) :
    holdsAt registry principal attributes joined (.container name conditions) type x =
      (joined relation x).any fun y =>
        conditions.all fun c => holdsAt registry principal attributes joined c target y := by
  simp only [holdsAt, htarget, hrelation, allHoldAt_eq_all]

/-- A compiled condition means what the condition says. -/
theorem satisfies_compile {c : Condition} :
    ∀ {type : ResourceType} {p : Predicate} {x : σ}, compile registry principal c type = .ok p →
      Predicate.satisfies (.onAttributes attributes joined) p x =
        holdsAt registry principal attributes joined c type x := by
  induction c with
  | field text operator value =>
    intro type p x h
    obtain ⟨path, hpath, ⟨values, rfl, hholds⟩ | ⟨comparison, resolved, rfl, hholds⟩⟩ :=
      of_compile_field h
    · rw [holdsAt_field _ _ hpath, hholds, Predicate.satisfies_oneOf]
      rfl
    · rw [holdsAt_field _ _ hpath, hholds, Predicate.satisfies_compare]
      rfl
  | container name conditions ih =>
    intro type p x h
    obtain ⟨target, relation, parts, htarget, hrelation, hparts, rfl⟩ := of_compile_container h
    rw [holdsAt_container _ htarget hrelation, Predicate.satisfies_someRelated]
    refine Predicate.any_eq_any fun y _ => ?_
    rw [Predicate.satisfies_all]
    have hmeaning := (List.forall₂_and_left _ _).mpr ⟨ih, forall₂_of_compileParts hparts⟩
    exact Outcome.all_forall₂ (fun c p h => h.1 h.2) hmeaning

theorem satisfies_compileAll_at {conditions : List Condition} {type : ResourceType} {p : Predicate}
    {x : σ} (h : compileAll registry principal conditions type = .ok p) :
    Predicate.satisfies (.onAttributes attributes joined) p x =
      conditions.all fun c => holdsAt registry principal attributes joined c type x := by
  obtain ⟨parts, hparts, rfl⟩ := Outcome.map_eq_ok.mp h
  rw [Predicate.satisfies_all]
  exact Outcome.all_forall₂ (fun _ _ h => satisfies_compile h) (forall₂_of_compileParts hparts)

end

/-! ## Entities behind loaders -/

theorem holdsOn_eq_holdsAt {c : Condition} : ∀ {type : ResourceType} {entity : Json},
    holdsOn registry ambient principal c type entity =
      holdsAt registry principal id (Row.relatedEntities registry ambient) c type entity := by
  induction c with
  | field text operator value =>
    intro type entity
    rw [holdsOn, holdsAt]
    rfl
  | container name conditions ih =>
    intro type entity
    rw [holdsOn, holdsAt]
    cases registry.resourceType name with
    | error e => rfl
    | ok target =>
      cases hrelation : registry.relation type target with
      | error e => simp only [hrelation]
      | ok relation =>
        simp only [hrelation, allHoldOn_eq_all, allHoldAt_eq_all]
        exact Predicate.any_eq_any fun e _ => Predicate.all_eq_all fun c hc => ih c hc

theorem satisfies_compileAll {conditions : List Condition} {type : ResourceType} {p : Predicate}
    {entity : Json} (h : compileAll registry principal conditions type = .ok p) :
    Predicate.satisfies (registry.interpretation ambient) p entity =
      conditions.all fun c => holdsOn registry ambient principal c type entity :=
  (satisfies_compileAll_at h).trans (Predicate.all_eq_all fun _ _ => holdsOn_eq_holdsAt.symm)

/-! ## Rows in memory -/

/-- Whether a condition holds on a row of a type. -/
def holdsOnRow (registry : Registry) (principal : Principal) (c : Condition) (type : ResourceType)
    (row : Row) : Bool :=
  holdsAt registry principal Row.attributes (fun relation row => row.joined relation.key) c type row

/-- A row satisfies compiled conditions when each of them holds on it. -/
theorem holds_compileAll {conditions : List Condition} {type : ResourceType} {p : Predicate}
    {row : Row} (h : compileAll registry principal conditions type = .ok p) :
    p.holds row = conditions.all fun c => holdsOnRow registry principal c type row := by
  rw [Predicate.holds_eq_satisfies]
  exact satisfies_compileAll_at h

/-! ## The form of what compiling gives -/

theorem built_compile {c : Condition} :
    ∀ {type : ResourceType} {p : Predicate}, compile registry principal c type = .ok p →
      p.Built registry type := by
  induction c with
  | field text operator value =>
    intro type p h
    obtain ⟨path, _, ⟨values, rfl, _⟩ | ⟨comparison, resolved, rfl, _⟩⟩ := of_compile_field h
    · exact .oneOf path values
    · exact .compare path comparison resolved
  | container name conditions ih =>
    intro type p h
    obtain ⟨target, relation, parts, _, hrelation, hparts, rfl⟩ := of_compile_container h
    refine .someRelated hrelation (.all fun q hq => ?_)
    obtain ⟨c, hc, hq⟩ := Outcome.exists_of_forall₂ (forall₂_of_compileParts hparts) q hq
    exact ih c hc hq

theorem built_compileAll {conditions : List Condition} {type : ResourceType} {p : Predicate}
    (h : compileAll registry principal conditions type = .ok p) : p.Built registry type := by
  obtain ⟨parts, hparts, rfl⟩ := Outcome.map_eq_ok.mp h
  refine .all fun q hq => ?_
  obtain ⟨c, _, hq⟩ := Outcome.exists_of_forall₂ (forall₂_of_compileParts hparts) q hq
  exact built_compile hq

theorem plain_compile {c : Condition} {type : ResourceType} {p : Predicate}
    (h : compile registry principal c type = .ok p) (inner : List Predicate) :
    p ≠ .and inner ∧ p ≠ .or inner := by
  cases c with
  | field text operator value =>
    obtain ⟨path, _, ⟨values, rfl, _⟩ | ⟨comparison, resolved, rfl, _⟩⟩ := of_compile_field h
    · exact ⟨nofun, nofun⟩
    · exact ⟨nofun, nofun⟩
  | container name conditions =>
    obtain ⟨target, relation, parts, _, _, _, rfl⟩ := of_compile_container h
    unfold Predicate.someRelated
    split
    · exact ⟨nofun, nofun⟩
    · exact ⟨nofun, nofun⟩

/-- Conditions taken together are never a disjunction. -/
theorem compileAll_ne_or {conditions : List Condition} {type : ResourceType} {p : Predicate}
    (h : compileAll registry principal conditions type = .ok p) (inner : List Predicate) :
    p ≠ .or inner := by
  obtain ⟨parts, hparts, rfl⟩ := Outcome.map_eq_ok.mp h
  have hplain : ∀ q ∈ parts, ∀ inner, q ≠ .and inner ∧ q ≠ .or inner := by
    intro q hq
    obtain ⟨c, _, hc⟩ := Outcome.exists_of_forall₂ (forall₂_of_compileParts hparts) q hq
    exact plain_compile hc
  have hmem : ∀ ps, Predicate.conjuncts parts = some ps → ∀ q ∈ ps, q ∈ parts := fun ps hps =>
    Predicate.mem_of_conjuncts (fun q hq inner => (hplain q hq inner).1) hps
  unfold Predicate.all
  split
  · exact nofun
  · exact nofun
  · rename_i q hq
    exact (hplain q (hmem _ hq q List.mem_cons_self) inner).2
  · exact nofun

end

end Condition
end AccessPolicy
