/-
Which accepted conditions compile.

Conditions are checked before anybody acts and compiled for whoever does.  The check
refuses a list as the value of a comparison, but the placeholder for the roles of the
principal is a text until it is filled in.  Accepted conditions therefore compile exactly
when none of them compares with that placeholder other than by equality, and they do so
for every principal or for none.
-/
import AccessPolicy.Proofs.Condition.Meaning
import AccessPolicy.Permission

namespace AccessPolicy
namespace Condition

mutual

/-- Somewhere in the condition a field is compared with the roles of the principal, and
not for equality, which with a list is membership. -/
def comparesRoles : Condition → Bool
  | .field _ (.compare comparison) (.string s) => comparison ≠ .equal && s = currentUserRoles
  | .field _ _ _ => false
  | .container _ conditions => anyComparesRoles conditions

def anyComparesRoles : List Condition → Bool
  | [] => false
  | c :: rest => comparesRoles c || anyComparesRoles rest

end

section

variable {registry : Registry} {principal : Principal}

/-! ## Values -/

variable (principal) in
/-- Only the placeholder for the roles stands for a list. -/
theorem resolveValue_string (s : String) :
    (s = currentUserRoles ∧ resolveValue principal (.string s) =
        .array (principal.roles.keys.map .string)) ∨
      (s ≠ currentUserRoles ∧ ∀ values, resolveValue principal (.string s) ≠ .array values) := by
  by_cases hroles : s = currentUserRoles
  · subst hroles
    refine .inl ⟨rfl, ?_⟩
    have hother : currentUserRoles ≠ currentUserIdentifier := by decide
    rw [resolveValue, if_neg hother, if_pos rfl]
  · refine .inr ⟨hroles, fun values h => ?_⟩
    rw [resolveValue] at h
    split at h
    · cases h
    · split at h
      · cases h
      · cases h

/-- A value that is no list is filled in with a list only where it is the placeholder for
the roles. -/
theorem eq_string_of_resolveValue {value : Json} (harray : value.isArray = false)
    {values : List Json} (h : resolveValue principal value = .array values) :
    value = .string currentUserRoles := by
  cases value with
  | string s =>
    rcases resolveValue_string principal s with ⟨rfl, _⟩ | ⟨_, hne⟩
    · rfl
    · exact absurd h (hne values)
  | array items => cases harray
  | null => cases h
  | bool b => cases h
  | number n => cases h
  | object members => cases h

/-! ## Conditions -/

/-- What becomes of an accepted condition, or of several, when they are compiled. -/
def CompilesUnless {α : Type} (refused : Bool) (result : Except ConfigurationError α) : Prop :=
  (refused = false ∧ ∃ compiled, result = .ok compiled) ∨
    (refused = true ∧ ∃ text, result = .error (listRefused text))

theorem compilesUnless_compileParts {conditions : List Condition}
    (hparts : ∀ c ∈ conditions, ∀ type, c.validate registry type = .ok () →
      CompilesUnless c.comparesRoles (c.compile registry principal type)) :
    ∀ type, validateAll registry conditions type = .ok () →
      CompilesUnless (anyComparesRoles conditions)
        (compileParts registry principal conditions type) := by
  induction conditions with
  | nil => exact fun _ _ => .inl ⟨rfl, [], rfl⟩
  | cons c rest ih =>
    intro type hvalid
    rw [List.forall_mem_cons] at hparts
    rw [validateAll] at hvalid
    split at hvalid
    · cases hvalid
    · rename_i hfirst
      rw [anyComparesRoles, compileParts]
      rcases hparts.1 type hfirst with ⟨hplain, p, hp⟩ | ⟨hrefused, text, herror⟩
      · rw [hplain, hp]
        rcases ih hparts.2 type hvalid with ⟨hothers, ps, hps⟩ | ⟨hothers, text, herror⟩
        · simp only [hps]
          exact .inl ⟨hothers, _, rfl⟩
        · simp only [herror]
          exact .inr ⟨hothers, text, rfl⟩
      · rw [hrefused, herror]
        exact .inr ⟨rfl, text, rfl⟩

/-- An accepted condition compiles, unless it compares with the roles of the principal. -/
theorem compilesUnless_of_validate (c : Condition) :
    ∀ type, c.validate registry type = .ok () →
      CompilesUnless c.comparesRoles (c.compile registry principal type) := by
  induction c with
  | field text operator value =>
    intro type hvalid
    rw [validate] at hvalid
    rw [compile]
    cases hpath : FieldPath.parse text with
    | error e => rw [hpath] at hvalid; cases hvalid
    | ok path =>
      simp only [hpath] at hvalid ⊢
      cases hfield : registry.checkField type path with
      | error e => rw [hfield] at hvalid; cases hvalid
      | ok _ =>
        simp only [hfield] at hvalid ⊢
        split at hvalid
        · cases hvalid
        · rename_i haccepted
          cases operator with
          | isIn => exact .inl ⟨rfl, _, rfl⟩
          | compare comparison =>
            have harray : value.isArray = false := by simpa using haccepted
            simp only
            split
            · rename_i values hvalues
              obtain rfl := eq_string_of_resolveValue harray hvalues
              by_cases hequal : comparison = .equal
              · rw [if_pos hequal]
                exact .inl ⟨by simp [comparesRoles, hequal], _, rfl⟩
              · rw [if_neg hequal]
                exact .inr ⟨by simp [comparesRoles, hequal], _, rfl⟩
            · rename_i hresolved
              refine .inl ⟨?_, _, rfl⟩
              cases value with
              | string s =>
                rcases resolveValue_string principal s with ⟨_, hroles⟩ | ⟨hne, _⟩
                · exact absurd hroles (hresolved _)
                · simp [comparesRoles, hne]
              | _ => rfl
  | container name conditions ih =>
    intro type hvalid
    rw [validate] at hvalid
    rw [compile, comparesRoles]
    cases htarget : registry.resourceType name with
    | error e => rw [htarget] at hvalid; cases hvalid
    | ok target =>
      simp only [htarget] at hvalid ⊢
      cases hrelation : registry.relation type target with
      | error e => rw [hrelation] at hvalid; cases hvalid
      | ok relation =>
        simp only [hrelation] at hvalid ⊢
        rcases compilesUnless_compileParts ih target hvalid with
          ⟨hplain, ps, hps⟩ | ⟨hrefused, text, herror⟩
        · simp only [hps]
          exact .inl ⟨hplain, _, rfl⟩
        · simp only [herror]
          exact .inr ⟨hrefused, text, rfl⟩

variable (principal) in
theorem compilesUnless_compileAll {conditions : List Condition} {type : ResourceType}
    (hvalid : validateAll registry conditions type = .ok ()) :
    CompilesUnless (anyComparesRoles conditions)
      (compileAll registry principal conditions type) := by
  rw [compileAll]
  rcases compilesUnless_compileParts (fun c _ => compilesUnless_of_validate c) type hvalid with
    ⟨hplain, ps, hps⟩ | ⟨hrefused, text, herror⟩
  · rw [hps]
    exact .inl ⟨hplain, _, rfl⟩
  · rw [herror]
    exact .inr ⟨hrefused, text, rfl⟩

variable (principal) in
theorem exists_compileAll_iff {conditions : List Condition} {type : ResourceType}
    (hvalid : validateAll registry conditions type = .ok ()) :
    (∃ p, compileAll registry principal conditions type = .ok p) ↔
      anyComparesRoles conditions = false := by
  rcases compilesUnless_compileAll principal hvalid with
    ⟨hplain, p, hp⟩ | ⟨hrefused, text, herror⟩
  · exact ⟨fun _ => hplain, fun _ => ⟨p, hp⟩⟩
  · rw [hrefused, herror]
    exact ⟨nofun, nofun⟩

/-! ## Lists -/

theorem validateAll_append {xs ys : List Condition} {type : ResourceType} :
    validateAll registry (xs ++ ys) type = .ok () ↔
      validateAll registry xs type = .ok () ∧ validateAll registry ys type = .ok () := by
  induction xs with
  | nil => exact ⟨fun h => ⟨rfl, h⟩, fun h => h.2⟩
  | cons c rest ih =>
    rw [List.cons_append, validateAll, validateAll]
    cases c.validate registry type with
    | error e => exact ⟨nofun, nofun⟩
    | ok _ => exact ih

theorem anyComparesRoles_append (xs ys : List Condition) :
    anyComparesRoles (xs ++ ys) = (anyComparesRoles xs || anyComparesRoles ys) := by
  induction xs with
  | nil => rfl
  | cons c rest ih => rw [List.cons_append, anyComparesRoles, anyComparesRoles, ih, Bool.or_assoc]

end

end Condition
end AccessPolicy
