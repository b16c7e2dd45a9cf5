/-
What conditions take from the principal.

A principal enters the predicate of a condition by the placeholders among the values of
its fields, and by nothing else.  Two principals that agree on what the placeholders of a
condition stand for are the same to it, down to the reason why it does not compile.
-/
import AccessPolicy.Proofs.Predicate.Alike
import AccessPolicy.Proofs.Specification.Compiling

namespace AccessPolicy

/-! ## Placeholders that are mentioned -/

/-- The value is this placeholder. -/
def Json.isPlaceholder (placeholder : String) : Json → Bool
  | .string s => s = placeholder
  | _ => false

namespace Condition

/-- The value is the placeholder, or a list that contains it. -/
def valueMentions (placeholder : String) : Json → Bool
  | .array items => items.any (Json.isPlaceholder placeholder)
  | value => value.isPlaceholder placeholder

mutual

/-- Some field in the condition, at whatever depth, has a value that mentions the
placeholder. -/
def mentions (placeholder : String) : Condition → Bool
  | .field _ _ value => valueMentions placeholder value
  | .container _ conditions => anyMentions placeholder conditions

def anyMentions (placeholder : String) : List Condition → Bool
  | [] => false
  | c :: rest => mentions placeholder c || anyMentions placeholder rest

end

theorem anyMentions_eq_any (placeholder : String) (conditions : List Condition) :
    anyMentions placeholder conditions = conditions.any (mentions placeholder) := by
  induction conditions with
  | nil => rfl
  | cons c rest ih => rw [anyMentions, List.any_cons, ih]

end Condition

/-- Some condition of the permission, on its type or on the context, mentions the
placeholder. -/
def Permission.mentions (placeholder : String) (p : Permission) : Bool :=
  Condition.anyMentions placeholder p.conditions ||
    match p.context with
    | none => false
    | some requirement => Condition.anyMentions placeholder requirement.conditions

/-! ## Principals that agree -/

/-- The principals are the same as far as the placeholders go that are mentioned. -/
structure Principal.AgreeOn (principal principal' : Principal) (mentioned : String → Bool) :
    Prop where
  identifier : mentioned Condition.currentUserIdentifier = true →
    principal.identifier = principal'.identifier
  roles : mentioned Condition.currentUserRoles = true → principal.roles = principal'.roles

namespace Principal

variable {principal principal' : Principal} {mentioned mentioned' : String → Bool}

theorem AgreeOn.refl (principal : Principal) (mentioned : String → Bool) :
    principal.AgreeOn principal mentioned := ⟨fun _ => rfl, fun _ => rfl⟩

theorem AgreeOn.mono (h : principal.AgreeOn principal' mentioned)
    (hmentioned : ∀ placeholder, mentioned' placeholder = true → mentioned placeholder = true) :
    principal.AgreeOn principal' mentioned' :=
  ⟨fun hm => h.identifier (hmentioned _ hm), fun hm => h.roles (hmentioned _ hm)⟩

theorem AgreeOn.part {conditions : List Condition}
    (h : principal.AgreeOn principal' (Condition.anyMentions · conditions)) {c : Condition}
    (hc : c ∈ conditions) : principal.AgreeOn principal' (Condition.mentions · c) :=
  h.mono fun placeholder hm => by
    rw [Condition.anyMentions_eq_any]
    exact List.any_eq_true.mpr ⟨c, hc, hm⟩

theorem AgreeOn.own {p : Permission} (h : principal.AgreeOn principal' (Permission.mentions · p)) :
    principal.AgreeOn principal' (Condition.anyMentions · p.conditions) :=
  h.mono fun placeholder hm => by rw [Permission.mentions, hm, Bool.true_or]

theorem AgreeOn.required {p : Permission} {requirement : ContextRequirement}
    (h : principal.AgreeOn principal' (Permission.mentions · p))
    (hrequirement : p.context = some requirement) :
    principal.AgreeOn principal' (Condition.anyMentions · requirement.conditions) :=
  h.mono fun placeholder hm => by
    rw [Permission.mentions, hrequirement]
    exact Bool.or_eq_true_iff.mpr (.inr hm)

end Principal

/-! ## Registries that differ in their loaders -/

/-- The registries know the same kinds and relations, whatever their loaders are. -/
structure Registry.DescribesAlike (registry registry' : Registry) : Prop where
  kinds : registry.kinds = registry'.kinds
  relations : registry.relations = registry'.relations

namespace Registry.DescribesAlike

variable {registry registry' : Registry}

theorem refl (registry : Registry) : registry.DescribesAlike registry := ⟨rfl, rfl⟩

variable (h : registry.DescribesAlike registry')
include h

theorem resourceType_eq : registry.resourceType = registry'.resourceType := by
  funext name
  rw [Registry.resourceType, Registry.resourceType, h.kinds]

theorem registered_eq : registry.registered = registry'.registered := by
  funext type
  rw [Registry.registered, Registry.registered, h.kinds]

theorem ensureRegistered_eq : registry.ensureRegistered = registry'.ensureRegistered := by
  funext type
  rw [Registry.ensureRegistered, Registry.ensureRegistered, h.registered_eq]

theorem identifierField_eq : registry.identifierField = registry'.identifierField := by
  funext type
  rw [Registry.identifierField, Registry.identifierField, h.registered_eq]

theorem checkField_eq : registry.checkField = registry'.checkField := by
  funext type field
  rw [Registry.checkField, Registry.checkField, h.registered_eq]

theorem relation_eq : registry.relation = registry'.relation := by
  funext source target
  rw [Registry.relation, Registry.relation, h.relations]

end Registry.DescribesAlike

/-! ## Compiling for either principal -/

namespace Condition

variable {registry registry' : Registry} {principal principal' : Principal}

theorem resolveValue_congr {value : Json}
    (h : principal.AgreeOn principal' (Json.isPlaceholder · value)) :
    resolveValue principal value = resolveValue principal' value := by
  cases value with
  | string s =>
    rw [resolveValue, resolveValue]
    by_cases hidentifier : s = currentUserIdentifier
    · rw [if_pos hidentifier, if_pos hidentifier, h.identifier (decide_eq_true hidentifier)]
    · rw [if_neg hidentifier, if_neg hidentifier]
      by_cases hroles : s = currentUserRoles
      · rw [if_pos hroles, if_pos hroles, h.roles (decide_eq_true hroles)]
      · rw [if_neg hroles, if_neg hroles]
  | _ => rfl

/-- A list is compared as it stands, so it does not matter what it mentions. -/
theorem resolveValue_congr_of_mentions {value : Json}
    (h : principal.AgreeOn principal' (valueMentions · value)) :
    resolveValue principal value = resolveValue principal' value := by
  cases value with
  | string s => exact resolveValue_congr h
  | _ => rfl

theorem resolveValues_congr {value : Json}
    (h : principal.AgreeOn principal' (valueMentions · value)) :
    resolveValues principal value = resolveValues principal' value := by
  cases value with
  | array items =>
    rw [resolveValues, resolveValues]
    refine List.flatMap_congr fun item hitem => ?_
    rw [resolveValue_congr (h.mono fun placeholder hm => List.any_eq_true.mpr ⟨item, hitem, hm⟩)]
  | _ => simp only [resolveValues, List.flatMap_singleton, resolveValue_congr_of_mentions h]

theorem compileParts_congr {conditions : List Condition} {type : ResourceType}
    (h : ∀ c ∈ conditions,
      compile registry principal c type = compile registry' principal' c type) :
    compileParts registry principal conditions type =
      compileParts registry' principal' conditions type := by
  induction conditions with
  | nil => rfl
  | cons c rest ih =>
    obtain ⟨hc, hrest⟩ := List.forall_mem_cons.mp h
    rw [compileParts_cons, compileParts_cons, hc, ih hrest]

/-- Loaders do not enter the predicate of a condition, and of the principal only what is
mentioned. -/
theorem compile_congr (hregistry : registry.DescribesAlike registry') (c : Condition) :
    principal.AgreeOn principal' (mentions · c) → ∀ type : ResourceType,
      compile registry principal c type = compile registry' principal' c type := by
  induction c with
  | field text operator value =>
    intro h type
    rw [compile_field, compile_field, hregistry.checkField_eq]
    cases operator with
    | isIn => simp only [resolveValues_congr h]
    | compare comparison => simp only [resolveValue_congr_of_mentions h]
  | container name conditions ih =>
    intro h type
    rw [compile_container, compile_container, hregistry.resourceType_eq, hregistry.relation_eq]
    refine bind_congr fun target => bind_congr fun relation => ?_
    rw [compileParts_congr fun c hc => ih c hc (Principal.AgreeOn.part h hc) target]

theorem compileAll_congr (hregistry : registry.DescribesAlike registry')
    {conditions : List Condition}
    (h : principal.AgreeOn principal' (anyMentions · conditions)) (type : ResourceType) :
    compileAll registry principal conditions type =
      compileAll registry' principal' conditions type := by
  rw [compileAll, compileAll,
    compileParts_congr fun c hc => compile_congr hregistry c (h.part hc) type]

end Condition

/-! ## Conditions on a related type -/

namespace Specification

/-- The contents of containers mention nothing that the containers do not. -/
theorem anyMentions_of_conditionsOn {related : ResourceType} {relation : Option Relation}
    {p : Permission} {conditions : List Condition}
    (h : conditionsOn related relation p = some conditions) {placeholder : String}
    (hm : Condition.anyMentions placeholder conditions = true) :
    Condition.anyMentions placeholder p.conditions = true := by
  cases relation with
  | none =>
    cases h
    exact hm
  | some r =>
    rw [Condition.anyMentions_eq_any, List.any_eq_true] at hm ⊢
    obtain ⟨c, hc, hm⟩ := hm
    obtain ⟨contents, hcontents, rfl⟩ := eq_containers_of_projectOnto h
    obtain ⟨inner, hinner, hc⟩ := List.mem_flatten.mp hc
    refine ⟨.container related.name inner, hcontents ▸ List.mem_map_of_mem hinner, ?_⟩
    rw [Condition.mentions, Condition.anyMentions_eq_any]
    exact List.any_eq_true.mpr ⟨c, hc, hm⟩

end Specification
end AccessPolicy
