/-
Predicates that differ in their values alone.

Values come in three kinds: null, numbers together with booleans, and everything else.
Two predicates are alike when they have the same tree and, place by place, values of the
same kind.  Folding keeps predicates alike.  So does compiling a condition for two
principals with equally many roles, since a principal enters a predicate by a text and
by a list of as many texts as it has roles.
-/
import AccessPolicy.Proofs.Condition.Meaning
import Mathlib.Data.List.Forall2

namespace AccessPolicy

open Outcome (Alongside)

/-! ## Kinds of values -/

namespace Json

/-- What the form of a condition can depend on in a value. -/
inductive Kind where
  | null
  | numeric
  | other
deriving DecidableEq

def kind : Json → Kind
  | .null => .null
  | .bool _ => .numeric
  | .number _ => .numeric
  | _ => .other

def SameKind (v w : Json) : Prop := v.kind = w.kind

instance (v w : Json) : Decidable (v.SameKind w) := inferInstanceAs (Decidable (v.kind = w.kind))

theorem SameKind.isNull {v w : Json} (h : v.SameKind w) : v.isNull = w.isNull := by
  have hkind : ∀ u : Json, u.isNull = decide (u.kind = .null) := fun u => by cases u <;> rfl
  rw [hkind v, hkind w, h]

end Json

namespace Predicate

/-! ## Predicates alike -/

/-- The predicates are the same except that compared values may be others of the same
kind. -/
inductive Alike : Predicate → Predicate → Prop where
  | literal (value : Bool) : Alike (.literal value) (.literal value)
  | and {ps qs : List Predicate} (h : List.Forall₂ Alike ps qs) : Alike (.and ps) (.and qs)
  | or {ps qs : List Predicate} (h : List.Forall₂ Alike ps qs) : Alike (.or ps) (.or qs)
  | compare (field : FieldPath) (comparison : Comparison) {v w : Json} (h : v.SameKind w) :
      Alike (.compare field comparison v) (.compare field comparison w)
  | oneOf (field : FieldPath) {vs ws : List Json} (h : List.Forall₂ Json.SameKind vs ws) :
      Alike (.oneOf field vs) (.oneOf field ws)
  | related (relation : Relation) {p q : Predicate} (h : Alike p q) :
      Alike (.related relation p) (.related relation q)

theorem forall₂_alike_induct {motive : Predicate → Predicate → Prop} {ps : List Predicate}
    (hparts : ∀ p ∈ ps, ∀ q, p.Alike q → motive p q) {qs : List Predicate}
    (h : List.Forall₂ Alike ps qs) : List.Forall₂ (fun p q => p.Alike q ∧ motive p q) ps qs := by
  induction h with
  | nil => exact .nil
  | @cons p q ps qs hpq _ ih =>
    obtain ⟨hp, hrest⟩ := List.forall_mem_cons.mp hparts
    exact .cons ⟨hpq, hp q hpq⟩ (ih hrest)

/-- Induction over two predicates that are alike, with the parts of a connective taken
together. -/
@[elab_as_elim]
theorem Alike.induct {motive : Predicate → Predicate → Prop}
    (literal : ∀ value, motive (.literal value) (.literal value))
    (and : ∀ ps qs, List.Forall₂ (fun p q => p.Alike q ∧ motive p q) ps qs →
      motive (.and ps) (.and qs))
    (or : ∀ ps qs, List.Forall₂ (fun p q => p.Alike q ∧ motive p q) ps qs →
      motive (.or ps) (.or qs))
    (compare : ∀ field comparison v w, v.SameKind w →
      motive (.compare field comparison v) (.compare field comparison w))
    (oneOf : ∀ field vs ws, List.Forall₂ Json.SameKind vs ws →
      motive (.oneOf field vs) (.oneOf field ws))
    (related : ∀ relation p q, motive p q → motive (.related relation p) (.related relation q))
    (p : Predicate) : ∀ q, p.Alike q → motive p q := by
  induction p with
  | literal value =>
    intro q h
    cases h
    exact literal value
  | and parts ih =>
    intro q h
    cases h with
    | and h => exact and _ _ (forall₂_alike_induct ih h)
  | or parts ih =>
    intro q h
    cases h with
    | or h => exact or _ _ (forall₂_alike_induct ih h)
  | compare field comparison value =>
    intro q h
    cases h with
    | compare _ _ h => exact compare field comparison _ _ h
  | oneOf field values =>
    intro q h
    cases h with
    | oneOf _ h => exact oneOf field _ _ h
  | related relation filter ih =>
    intro q h
    cases h with
    | related _ h => exact related relation _ _ (ih _ h)

/-! ## Values -/

mutual

/-- The values that a predicate compares with, in the order of the tree. -/
def values : Predicate → List Json
  | .literal _ => []
  | .and parts => valuesOf parts
  | .or parts => valuesOf parts
  | .compare _ _ value => [value]
  | .oneOf _ values => values
  | .related _ filter => values filter

def valuesOf : List Predicate → List Json
  | [] => []
  | p :: rest => values p ++ valuesOf rest

end

/-- The values of two predicates put together place by place. -/
def pairs (p q : Predicate) : List (Json × Json) := p.values.zip q.values

theorem Alike.length_values {p q : Predicate} (h : p.Alike q) :
    p.values.length = q.values.length := by
  have hparts : ∀ {ps qs : List Predicate},
      List.Forall₂ (fun p q => p.Alike q ∧ p.values.length = q.values.length) ps qs →
        (valuesOf ps).length = (valuesOf qs).length := by
    intro ps qs h
    induction h with
    | nil => rfl
    | cons hpq _ ih => rw [valuesOf, valuesOf, List.length_append, List.length_append, hpq.2, ih]
  refine Alike.induct (motive := fun p q => p.values.length = q.values.length)
    ?_ ?_ ?_ ?_ ?_ ?_ p q h
  · intro value
    rfl
  · intro ps qs h
    rw [values, values]
    exact hparts h
  · intro ps qs h
    rw [values, values]
    exact hparts h
  · intro field comparison v w _
    rw [values, values]
    rfl
  · intro field vs ws h
    rw [values, values]
    exact h.length_eq
  · intro relation p q h
    rw [values, values]
    exact h

theorem zip_valuesOf_cons {p q : Predicate} (h : p.Alike q) (ps qs : List Predicate) :
    (valuesOf (p :: ps)).zip (valuesOf (q :: qs)) =
      p.pairs q ++ (valuesOf ps).zip (valuesOf qs) := by
  rw [valuesOf, valuesOf, pairs, List.zip_append h.length_values]

/-! ## Folding -/

theorem rel_map {α β : Type} {R S : α → β → Prop} {f : α → α} {g : β → β} {x : Option α}
    {y : Option β} (h : Option.Rel R x y) (hfg : ∀ a b, R a b → S (f a) (g b)) :
    Option.Rel S (x.map f) (y.map g) := by
  cases h with
  | some h => exact .some (hfg _ _ h)
  | none => exact .none

theorem forall₂_conjuncts {ps qs : List Predicate} (h : List.Forall₂ Alike ps qs) :
    Option.Rel (List.Forall₂ Alike) (conjuncts ps) (conjuncts qs) := by
  induction h with
  | nil => exact .some .nil
  | @cons p q ps qs hpq _ ih =>
    have hkept : Option.Rel (List.Forall₂ Alike) ((conjuncts ps).map (p :: ·))
        ((conjuncts qs).map (q :: ·)) := rel_map ih fun _ _ hrest => .cons hpq hrest
    cases hpq with
    | literal value =>
      cases value with
      | true => exact ih
      | false => exact .none
    | and h => exact rel_map ih fun _ _ hrest => List.rel_append h hrest
    | or h => exact hkept
    | compare field comparison h => exact hkept
    | oneOf field h => exact hkept
    | related relation h => exact hkept

theorem alike_all {ps qs : List Predicate} (h : List.Forall₂ Alike ps qs) :
    (all ps).Alike (all qs) := by
  have hconjuncts := forall₂_conjuncts h
  rw [all, all]
  cases hps : conjuncts ps with
  | none =>
    rw [hps] at hconjuncts
    cases hqs : conjuncts qs with
    | none => exact .literal false
    | some qs' =>
      rw [hqs] at hconjuncts
      cases hconjuncts
  | some ps' =>
    rw [hps] at hconjuncts
    cases hqs : conjuncts qs with
    | none =>
      rw [hqs] at hconjuncts
      cases hconjuncts
    | some qs' =>
      rw [hqs] at hconjuncts
      cases hconjuncts with
      | some hparts =>
        cases hparts with
        | nil => exact .literal true
        | cons hp hrest =>
          cases hrest with
          | nil => exact hp
          | cons hq hrest => exact .and (.cons hp (.cons hq hrest))

theorem Alike.isUnsatisfiable {p q : Predicate} (h : p.Alike q) :
    p.isUnsatisfiable = q.isUnsatisfiable := by
  cases h <;> rfl

theorem alike_someRelated (relation : Relation) {p q : Predicate} (h : p.Alike q) :
    (someRelated relation p).Alike (someRelated relation q) := by
  rw [someRelated, someRelated, h.isUnsatisfiable]
  by_cases hnever : q.isUnsatisfiable = true
  · rw [if_pos hnever, if_pos hnever]
    exact .literal false
  · rw [if_neg hnever, if_neg hnever]
    exact .related relation h

end Predicate

/-! ## Conditions for two principals -/

namespace Condition

variable {principal principal' : Principal}

/-- A value of a condition as it is filled in for two principals: the same for both, a
text for each, or a list for each with as many values of the same kinds. -/
inductive FilledAlike : Json → Json → Prop where
  | same (v : Json) : FilledAlike v v
  | texts (s t : String) : FilledAlike (.string s) (.string t)
  | lists {vs ws : List Json} (h : List.Forall₂ Json.SameKind vs ws) :
      FilledAlike (.array vs) (.array ws)

theorem forall₂_sameKind_refl (vs : List Json) : List.Forall₂ Json.SameKind vs vs :=
  List.forall₂_same.mpr fun _ _ => rfl

/-- A comparison with a value that was filled in. -/
def comparedWith (path : FieldPath) (comparison : Comparison) :
    Json → Except ConfigurationError Predicate
  | .array values =>
    if comparison = .equal then .ok (.oneOf path values) else .error (listRefused path.text)
  | filled => .ok (.compare path comparison filled)

theorem alongside_comparedWith (path : FieldPath) (comparison : Comparison) {v w : Json}
    (h : FilledAlike v w) :
    Alongside Predicate.Alike (comparedWith path comparison v) (comparedWith path comparison w) := by
  have hlists : ∀ {vs ws : List Json}, List.Forall₂ Json.SameKind vs ws →
      Alongside Predicate.Alike (comparedWith path comparison (.array vs))
        (comparedWith path comparison (.array ws)) := by
    intro vs ws h
    rw [comparedWith, comparedWith]
    by_cases hequal : comparison = .equal
    · rw [if_pos hequal, if_pos hequal]
      exact .ok (.oneOf path h)
    · rw [if_neg hequal, if_neg hequal]
      exact .error _
  cases h with
  | same v =>
    cases v with
    | array vs => exact hlists (forall₂_sameKind_refl vs)
    | _ => exact .ok (.compare path comparison rfl)
  | texts s t => exact .ok (.compare path comparison rfl)
  | lists h => exact hlists h

section

variable {registry : Registry} (type : ResourceType)

theorem compile_field (text : String) (operator : Operator) (value : Json) :
    compile registry principal (.field text operator value) type =
      FieldPath.parse text >>= fun path => registry.checkField type path >>= fun _ =>
        match operator with
        | .isIn => .ok (.oneOf path (resolveValues principal value))
        | .compare comparison => comparedWith path comparison (resolveValue principal value) := by
  rw [compile]
  cases FieldPath.parse text with
  | error e => rfl
  | ok path =>
    show _ = registry.checkField type path >>= fun _ => _
    dsimp only
    cases registry.checkField type path with
    | error e => rfl
    | ok _ =>
      cases operator with
      | isIn => rfl
      | compare comparison =>
        show _ = comparedWith path comparison (resolveValue principal value)
        cases resolveValue principal value <;> rfl

theorem compile_container (name : String) (conditions : List Condition) :
    compile registry principal (.container name conditions) type =
      registry.resourceType name >>= fun target => registry.relation type target >>= fun relation =>
        (compileParts registry principal conditions target).map fun parts =>
          .someRelated relation (.all parts) := by
  rw [compile]
  cases registry.resourceType name with
  | error e => rfl
  | ok target =>
    show _ = registry.relation type target >>= fun _ => _
    dsimp only
    cases registry.relation type target with
    | error e => rfl
    | ok relation =>
      show _ = (compileParts registry principal conditions target).map _
      dsimp only
      cases compileParts registry principal conditions target <;> rfl

theorem compileParts_cons (c : Condition) (rest : List Condition) :
    compileParts registry principal (c :: rest) type =
      compile registry principal c type >>= fun p =>
        (compileParts registry principal rest type).map (p :: ·) := by
  rw [compileParts]
  cases compile registry principal c type with
  | error e => rfl
  | ok p =>
    show _ = (compileParts registry principal rest type).map _
    dsimp only
    cases compileParts registry principal rest type <;> rfl

theorem alongside_compileParts {conditions : List Condition}
    (hcompile : ∀ c ∈ conditions, Alongside Predicate.Alike (compile registry principal c type)
      (compile registry principal' c type)) :
    Alongside (List.Forall₂ Predicate.Alike) (compileParts registry principal conditions type)
      (compileParts registry principal' conditions type) := by
  induction conditions with
  | nil =>
    rw [compileParts, compileParts]
    exact .ok .nil
  | cons c rest ih =>
    obtain ⟨hc, hrest⟩ := List.forall_mem_cons.mp hcompile
    rw [compileParts_cons, compileParts_cons]
    exact hc.bind fun p q hpq => (ih hrest).map fun _ _ h => .cons hpq h

end

section

variable (hroles : principal.roles.roles.length = principal'.roles.roles.length)
include hroles

theorem resolveValue_alike (value : Json) :
    FilledAlike (resolveValue principal value) (resolveValue principal' value) := by
  cases value with
  | string s =>
    rw [resolveValue, resolveValue]
    by_cases hidentifier : s = currentUserIdentifier
    · rw [if_pos hidentifier, if_pos hidentifier]
      exact .texts _ _
    · rw [if_neg hidentifier, if_neg hidentifier]
      by_cases hkeys : s = currentUserRoles
      · rw [if_pos hkeys, if_pos hkeys]
        refine .lists (List.forall₂_iff_get.mpr ⟨?_, fun i h h' => ?_⟩)
        · simpa [RoleSet.keys] using hroles
        · simp only [List.get_eq_getElem, List.getElem_map]
          rfl
      · rw [if_neg hkeys, if_neg hkeys]
        exact .same _
  | _ => exact .same _

theorem resolveValues_alike (value : Json) :
    List.Forall₂ Json.SameKind (resolveValues principal value)
      (resolveValues principal' value) := by
  unfold resolveValues
  refine List.rel_flatMap (R := Eq) (List.forall₂_same.mpr fun _ _ => rfl) ?_
  intro item item' hitem
  subst hitem
  have halike := resolveValue_alike hroles item
  dsimp only
  generalize resolveValue principal item = v at halike ⊢
  generalize resolveValue principal' item = w at halike ⊢
  cases halike with
  | same v => exact forall₂_sameKind_refl _
  | texts s t => exact .cons rfl .nil
  | lists h => exact h

variable (registry : Registry)

/-- A condition is refused for both principals for the same reason, or compiled to
predicates that are alike. -/
theorem alongside_compile (c : Condition) : ∀ type : ResourceType,
    Alongside Predicate.Alike (compile registry principal c type)
      (compile registry principal' c type) := by
  induction c with
  | field text operator value =>
    intro type
    rw [compile_field, compile_field]
    refine .after _ fun path => .after _ fun _ => ?_
    cases operator with
    | isIn => exact .ok (Predicate.Alike.oneOf path (resolveValues_alike hroles value))
    | compare comparison =>
      exact alongside_comparedWith path comparison (resolveValue_alike hroles value)
  | container name conditions ih =>
    intro type
    rw [compile_container, compile_container]
    refine .after _ fun target => .after _ fun relation => ?_
    refine (alongside_compileParts target fun c hc => ih c hc target).map fun _ _ h => ?_
    exact Predicate.alike_someRelated relation (Predicate.alike_all h)

theorem alongside_compileAll (conditions : List Condition) (type : ResourceType) :
    Alongside Predicate.Alike (compileAll registry principal conditions type)
      (compileAll registry principal' conditions type) :=
  (alongside_compileParts type fun c _ => alongside_compile hroles registry c type).map
    fun _ _ h => Predicate.alike_all h

end

end Condition
end AccessPolicy
