/-
The form of compiled conditions.

A condition compiles to a comparison, a membership or a related row: no tree of
conditions, however deeply nested, folds into a constant or a connective.  Conditions
taken together are therefore a constant only where there are none of them.
-/
import AccessPolicy.Proofs.Condition.Meaning

namespace AccessPolicy

/-! ## Atoms -/

namespace Predicate

/-- The predicate is a comparison or a subquery. -/
def isAtom : Predicate → Bool
  | .literal _ => false
  | .and _ => false
  | .or _ => false
  | _ => true

section

variable {parts : List Predicate} (hparts : ∀ p ∈ parts, p.isAtom = true)
include hparts

/-- There is nothing to fold among atoms. -/
theorem conjuncts_of_isAtom : conjuncts parts = some parts := by
  induction parts with
  | nil => rfl
  | cons p rest ih =>
    obtain ⟨hp, hrest⟩ := List.forall_mem_cons.mp hparts
    cases p with
    | literal value => cases hp
    | and inner => cases hp
    | or inner => cases hp
    | _ => simp only [conjuncts, ih hrest, Option.map_some]

/-- A conjunction of atoms is a constant only when there are none. -/
theorem all_eq_literal_iff {value : Bool} :
    all parts = .literal value ↔ parts = [] ∧ value = true := by
  rw [all, conjuncts_of_isAtom hparts]
  rcases parts with _ | ⟨p, _ | ⟨_, _⟩⟩
  · exact ⟨fun h => ⟨rfl, (Predicate.literal.inj h).symm⟩, fun h => by rw [h.2]; rfl⟩
  · have hp := hparts p List.mem_cons_self
    cases p with
    | literal value => cases hp
    | _ => exact iff_of_false nofun nofun
  · exact iff_of_false nofun nofun

theorem not_isUnsatisfiable_all : (all parts).isUnsatisfiable = false := by
  cases hall : all parts with
  | literal value =>
    obtain ⟨_, rfl⟩ := (all_eq_literal_iff hparts).mp hall
    rfl
  | _ => rfl

theorem along_all {ι : Type} {leaf : ι → FieldPath → List Json → Prop}
    {step : ι → Relation → ι → Prop} {i : ι} :
    Along leaf step i (all parts) ↔ ∀ p ∈ parts, Along leaf step i p := by
  rw [all, conjuncts_of_isAtom hparts]
  rcases parts with _ | ⟨p, _ | ⟨_, _⟩⟩
  · exact ⟨fun _ => List.forall_mem_nil _, fun _ => trivial⟩
  · exact List.forall_mem_singleton.symm
  · exact along_and

end

end Predicate

/-! ## Compiled conditions -/

namespace Condition

variable {registry : Registry} {principal : Principal}

theorem isAtom_compile {c : Condition} :
    ∀ {type : ResourceType} {p : Predicate}, compile registry principal c type = .ok p →
      p.isAtom = true := by
  induction c with
  | field text operator value =>
    intro type p h
    obtain ⟨path, _, ⟨values, rfl, _⟩ | ⟨comparison, resolved, rfl, _⟩⟩ := of_compile_field h
    · rfl
    · rfl
  | container name conditions ih =>
    intro type p h
    obtain ⟨target, relation, parts, _, _, hparts, rfl⟩ := of_compile_container h
    have hatoms : ∀ q ∈ parts, q.isAtom = true := by
      intro q hq
      obtain ⟨c, hc, hq⟩ := Outcome.exists_of_forall₂ (forall₂_of_compileParts hparts) q hq
      exact ih c hc hq
    rw [Predicate.someRelated, Predicate.not_isUnsatisfiable_all hatoms]
    rfl

theorem isAtom_compileParts {conditions : List Condition} {type : ResourceType}
    {parts : List Predicate} (h : compileParts registry principal conditions type = .ok parts) :
    ∀ p ∈ parts, p.isAtom = true := by
  intro p hp
  obtain ⟨c, _, hc⟩ := Outcome.exists_of_forall₂ (forall₂_of_compileParts h) p hp
  exact isAtom_compile hc

/-- Conditions taken together are a constant only when there are none, and then they
always hold. -/
theorem compileAll_eq_literal_iff {conditions : List Condition} {type : ResourceType}
    {p : Predicate} (h : compileAll registry principal conditions type = .ok p) {value : Bool} :
    p = .literal value ↔ conditions = [] ∧ value = true := by
  obtain ⟨parts, hparts, rfl⟩ := Outcome.map_eq_ok.mp h
  have hlength := (forall₂_of_compileParts hparts).length_eq
  rw [Predicate.all_eq_literal_iff (isAtom_compileParts hparts), ← List.length_eq_zero_iff,
    ← hlength, List.length_eq_zero_iff]

end Condition
end AccessPolicy
