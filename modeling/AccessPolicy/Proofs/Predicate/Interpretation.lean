/-
What predicates mean.

A predicate is evaluated on rows in memory, decided on entities whose related
entities are fetched, and carried out on tables.  These differ in what a leaf
and a relation mean and agree in everything else.  An interpretation fixes the
leaves and the relations over the points of any type, and `satisfies` is the
meaning that follows from it.
-/
import AccessPolicy.Predicate.Row
import AccessPolicy.Proofs.Outcome

namespace AccessPolicy
namespace Predicate

theorem all_eq_all {α : Type} {l : List α} {f g : α → Bool} (h : ∀ a ∈ l, f a = g a) :
    l.all f = l.all g := by
  induction l with
  | nil => rfl
  | cons a rest ih =>
    rw [List.all_cons, List.all_cons, h a List.mem_cons_self,
      ih fun b hb => h b (List.mem_cons_of_mem _ hb)]

theorem any_eq_any {α : Type} {l : List α} {f g : α → Bool} (h : ∀ a ∈ l, f a = g a) :
    l.any f = l.any g := by
  induction l with
  | nil => rfl
  | cons a rest ih =>
    rw [List.any_cons, List.any_cons, h a List.mem_cons_self,
      ih fun b hb => h b (List.mem_cons_of_mem _ hb)]

/-- Induction over a predicate, with the parts of a connective taken together. -/
@[elab_as_elim, induction_eliminator]
theorem induct {motive : Predicate → Prop}
    (literal : ∀ value, motive (.literal value))
    (and : ∀ parts, (∀ p ∈ parts, motive p) → motive (.and parts))
    (or : ∀ parts, (∀ p ∈ parts, motive p) → motive (.or parts))
    (compare : ∀ field comparison value, motive (.compare field comparison value))
    (oneOf : ∀ field values, motive (.oneOf field values))
    (related : ∀ relation filter, motive filter → motive (.related relation filter)) :
    ∀ p, motive p
  | .literal value => literal value
  | .and parts => and parts fun p _ => induct literal and or compare oneOf related p
  | .or parts => or parts fun p _ => induct literal and or compare oneOf related p
  | .compare field comparison value => compare field comparison value
  | .oneOf field values => oneOf field values
  | .related relation filter =>
    related relation filter (induct literal and or compare oneOf related filter)

/-- The meaning of leaves, and the points to which a relation leads. -/
structure Interpretation (σ : Type) where
  compares : FieldPath → Comparison → Json → σ → Bool
  member : FieldPath → List Json → σ → Bool
  joined : Relation → σ → List σ

variable {σ τ : Type}

/-- Leaves that compare attributes in memory. -/
def Interpretation.onAttributes (attributes : σ → Json) (joined : Relation → σ → List σ) :
    Interpretation σ where
  compares field comparison value x := comparison.test (field.resolve (attributes x)) value
  member field values x := Comparison.member (field.resolve (attributes x)) values
  joined := joined

mutual

/-- Whether a point satisfies the predicate. -/
def satisfies (I : Interpretation σ) : Predicate → σ → Bool
  | .literal value, _ => value
  | .and parts, x => allSatisfied I parts x
  | .or parts, x => anySatisfied I parts x
  | .compare field comparison value, x => I.compares field comparison value x
  | .oneOf field values, x => I.member field values x
  | .related relation filter, x => (I.joined relation x).any fun y => satisfies I filter y

def allSatisfied (I : Interpretation σ) : List Predicate → σ → Bool
  | [], _ => true
  | p :: rest, x => satisfies I p x && allSatisfied I rest x

def anySatisfied (I : Interpretation σ) : List Predicate → σ → Bool
  | [], _ => false
  | p :: rest, x => satisfies I p x || anySatisfied I rest x

end

section

variable (I : Interpretation σ)

@[simp] theorem satisfies_literal (value : Bool) (x : σ) :
    satisfies I (.literal value) x = value := by
  rw [satisfies]

@[simp] theorem satisfies_and (parts : List Predicate) (x : σ) :
    satisfies I (.and parts) x = parts.all fun p => satisfies I p x := by
  rw [satisfies]
  induction parts with
  | nil => rfl
  | cons p rest ih => rw [allSatisfied, List.all_cons, ih]

@[simp] theorem satisfies_or (parts : List Predicate) (x : σ) :
    satisfies I (.or parts) x = parts.any fun p => satisfies I p x := by
  rw [satisfies]
  induction parts with
  | nil => rfl
  | cons p rest ih => rw [anySatisfied, List.any_cons, ih]

@[simp] theorem satisfies_compare (field : FieldPath) (comparison : Comparison) (value : Json)
    (x : σ) : satisfies I (.compare field comparison value) x =
      I.compares field comparison value x := by
  rw [satisfies]

@[simp] theorem satisfies_oneOf (field : FieldPath) (values : List Json) (x : σ) :
    satisfies I (.oneOf field values) x = I.member field values x := by
  rw [satisfies]

@[simp] theorem satisfies_related (relation : Relation) (filter : Predicate) (x : σ) :
    satisfies I (.related relation filter) x =
      (I.joined relation x).any fun y => satisfies I filter y := by
  rw [satisfies]

end

/-! ## Folding

The folding constructors mean what the plain connectives mean.  That holds of every
reading of predicates that takes literals and the connective as they are. -/

section

variable {f : Predicate → Bool}

theorem eval_conjuncts (hliteral : ∀ value, f (.literal value) = value)
    (hand : ∀ parts, f (.and parts) = parts.all f) (parts : List Predicate) :
    (match conjuncts parts with
      | none => false
      | some ps => ps.all f) = parts.all f := by
  fun_induction conjuncts parts with
  | case1 => rfl
  | case2 rest ih => simpa [hliteral] using ih
  | case3 rest => simp [hliteral]
  | case4 inner rest ih =>
    rw [List.all_cons, ← ih, hand]
    cases conjuncts rest with
    | none => simp
    | some ps => simp
  | case5 p rest _ _ _ ih =>
    rw [List.all_cons, ← ih]
    cases conjuncts rest with
    | none => simp
    | some ps => simp

theorem eval_disjuncts (hliteral : ∀ value, f (.literal value) = value)
    (hor : ∀ parts, f (.or parts) = parts.any f) (parts : List Predicate) :
    (match disjuncts parts with
      | none => true
      | some ps => ps.any f) = parts.any f := by
  fun_induction disjuncts parts with
  | case1 => rfl
  | case2 rest ih => simpa [hliteral] using ih
  | case3 rest => simp [hliteral]
  | case4 inner rest ih =>
    rw [List.any_cons, ← ih, hor]
    cases disjuncts rest with
    | none => simp
    | some ps => simp
  | case5 p rest _ _ _ ih =>
    rw [List.any_cons, ← ih]
    cases disjuncts rest with
    | none => simp
    | some ps => simp

theorem eval_all (hliteral : ∀ value, f (.literal value) = value)
    (hand : ∀ parts, f (.and parts) = parts.all f) (parts : List Predicate) :
    f (all parts) = parts.all f := by
  rw [← eval_conjuncts hliteral hand]
  unfold all
  split
  · rename_i h; rw [h]; simp [never, hliteral]
  · rename_i h; rw [h]; simp [always, hliteral]
  · rename_i h; rw [h]; simp
  · rename_i h; rw [h, hand]

theorem eval_any (hliteral : ∀ value, f (.literal value) = value)
    (hor : ∀ parts, f (.or parts) = parts.any f) (parts : List Predicate) :
    f (any parts) = parts.any f := by
  rw [← eval_disjuncts hliteral hor]
  unfold any
  split
  · rename_i h; rw [h]; simp [always, hliteral]
  · rename_i h; rw [h]; simp [never, hliteral]
  · rename_i h; rw [h]; simp
  · rename_i h; rw [h, hor]

end

section

variable (I : Interpretation σ) (x : σ)

theorem satisfies_all (parts : List Predicate) :
    satisfies I (all parts) x = parts.all fun p => satisfies I p x :=
  eval_all (f := fun p => satisfies I p x) (fun value => satisfies_literal I value x)
    (fun inner => satisfies_and I inner x) parts

theorem satisfies_any (parts : List Predicate) :
    satisfies I (any parts) x = parts.any fun p => satisfies I p x :=
  eval_any (f := fun p => satisfies I p x) (fun value => satisfies_literal I value x)
    (fun inner => satisfies_or I inner x) parts

theorem satisfies_someRelated (relation : Relation) (filter : Predicate) :
    satisfies I (someRelated relation filter) x =
      (I.joined relation x).any fun y => satisfies I filter y := by
  unfold someRelated
  split
  · rename_i h
    -- A filter that folds away is the false literal, which no joined point satisfies.
    cases filter with
    | literal value => simp [isUnsatisfiable] at h; simp [never, h]
    | _ => simp [isUnsatisfiable] at h
  · simp

end

/-! ## Relations of a predicate -/

mutual

/-- Every relation in the predicate, at any depth, has a property. -/
def RelationsIn (P : Relation → Prop) : Predicate → Prop
  | .and parts => AllRelationsIn P parts
  | .or parts => AllRelationsIn P parts
  | .related relation filter => P relation ∧ RelationsIn P filter
  | _ => True

def AllRelationsIn (P : Relation → Prop) : List Predicate → Prop
  | [] => True
  | p :: rest => RelationsIn P p ∧ AllRelationsIn P rest

end

section

variable {P : Relation → Prop}

theorem allRelationsIn_iff {parts : List Predicate} :
    AllRelationsIn P parts ↔ ∀ p ∈ parts, RelationsIn P p := by
  induction parts with
  | nil => simp [AllRelationsIn]
  | cons p rest ih => rw [AllRelationsIn, ih, List.forall_mem_cons]

@[simp] theorem relationsIn_literal {value : Bool} : RelationsIn P (.literal value) := by
  simp [RelationsIn]

@[simp] theorem relationsIn_and {parts : List Predicate} :
    RelationsIn P (.and parts) ↔ ∀ p ∈ parts, RelationsIn P p := by
  rw [RelationsIn, allRelationsIn_iff]

@[simp] theorem relationsIn_or {parts : List Predicate} :
    RelationsIn P (.or parts) ↔ ∀ p ∈ parts, RelationsIn P p := by
  rw [RelationsIn, allRelationsIn_iff]

@[simp] theorem relationsIn_related {relation : Relation} {filter : Predicate} :
    RelationsIn P (.related relation filter) ↔ P relation ∧ RelationsIn P filter := by
  rw [RelationsIn]

theorem RelationsIn.imp {Q : Relation → Prop} (hPQ : ∀ r, P r → Q r) {p : Predicate} :
    p.RelationsIn P → p.RelationsIn Q := by
  induction p with
  | and parts ih =>
    intro h
    exact relationsIn_and.mpr fun q hq => ih q hq (relationsIn_and.mp h q hq)
  | or parts ih =>
    intro h
    exact relationsIn_or.mpr fun q hq => ih q hq (relationsIn_or.mp h q hq)
  | related relation filter ih =>
    intro h
    obtain ⟨hrelation, hfilter⟩ := relationsIn_related.mp h
    exact relationsIn_related.mpr ⟨hPQ relation hrelation, ih hfilter⟩
  | _ => intro _; trivial

end

mutual

/-- The relations of the predicate in the order in which it is read, each before those
of its filter. -/
def relations : Predicate → List Relation
  | .and parts => relationsOf parts
  | .or parts => relationsOf parts
  | .related relation filter => relation :: relations filter
  | _ => []

def relationsOf : List Predicate → List Relation
  | [] => []
  | p :: rest => relations p ++ relationsOf rest

end

/-! ## Nesting of a predicate -/

theorem nesting_le_nestingOf {p : Predicate} {parts : List Predicate} (h : p ∈ parts) :
    p.nesting ≤ nestingOf parts := by
  induction parts with
  | nil => cases h
  | cons q rest ih =>
    rw [nestingOf]
    rcases List.mem_cons.mp h with rfl | h
    · exact Nat.le_max_left _ _
    · exact Nat.le_trans (ih h) (Nat.le_max_right _ _)

theorem nestingOf_le {parts : List Predicate} {n : Nat} (h : ∀ p ∈ parts, p.nesting ≤ n) :
    nestingOf parts ≤ n := by
  induction parts with
  | nil => exact Nat.zero_le n
  | cons q rest ih =>
    rw [nestingOf]
    exact Nat.max_le.mpr ⟨h q List.mem_cons_self, ih fun p hp => h p (List.mem_cons_of_mem _ hp)⟩

/-! ## Places in a predicate -/

mutual

/-- Every field that the predicate compares has a property together with the
values it is compared with, and every relation is a step.  Steps lead from place
to place, and a field is judged at the place where it stands. -/
def Along {ι : Type} (leaf : ι → FieldPath → List Json → Prop) (step : ι → Relation → ι → Prop) :
    ι → Predicate → Prop
  | _, .literal _ => True
  | i, .and parts => AllAlong leaf step i parts
  | i, .or parts => AllAlong leaf step i parts
  | i, .compare field _ value => leaf i field [value]
  | i, .oneOf field values => leaf i field values
  | i, .related relation filter => ∃ j, step i relation j ∧ Along leaf step j filter

def AllAlong {ι : Type} (leaf : ι → FieldPath → List Json → Prop)
    (step : ι → Relation → ι → Prop) : ι → List Predicate → Prop
  | _, [] => True
  | i, p :: rest => Along leaf step i p ∧ AllAlong leaf step i rest

end

section

variable {ι : Type} {leaf : ι → FieldPath → List Json → Prop} {step : ι → Relation → ι → Prop}
  {i : ι}

theorem allAlong_iff {parts : List Predicate} :
    AllAlong leaf step i parts ↔ ∀ p ∈ parts, Along leaf step i p := by
  induction parts with
  | nil => simp [AllAlong]
  | cons p rest ih => rw [AllAlong, ih, List.forall_mem_cons]

theorem along_and {parts : List Predicate} :
    Along leaf step i (.and parts) ↔ ∀ p ∈ parts, Along leaf step i p := by
  rw [Along, allAlong_iff]

theorem along_or {parts : List Predicate} :
    Along leaf step i (.or parts) ↔ ∀ p ∈ parts, Along leaf step i p := by
  rw [Along, allAlong_iff]

/-- Two judgements on the same places hold together. -/
theorem Along.and {leaf' : ι → FieldPath → List Json → Prop} {step' : ι → Relation → ι → Prop}
    (hstep : ∀ i relation j j', step i relation j → step' i relation j' → j' = j) {p : Predicate} :
    ∀ {i : ι}, Along leaf step i p → Along leaf' step' i p →
      Along (fun i field values => leaf i field values ∧ leaf' i field values)
        (fun i relation j => step i relation j ∧ step' i relation j) i p := by
  induction p with
  | literal value => intro i _ _; trivial
  | compare field comparison value => intro i h h'; exact ⟨h, h'⟩
  | oneOf field values => intro i h h'; exact ⟨h, h'⟩
  | and parts ih =>
    intro i h h'
    exact along_and.mpr fun q hq => ih q hq (along_and.mp h q hq) (along_and.mp h' q hq)
  | or parts ih =>
    intro i h h'
    exact along_or.mpr fun q hq => ih q hq (along_or.mp h q hq) (along_or.mp h' q hq)
  | related relation filter ih =>
    intro i h h'
    obtain ⟨j, hj, hfilter⟩ := h
    obtain ⟨j', hj', hfilter'⟩ := h'
    obtain rfl := hstep i relation j j' hj hj'
    exact ⟨j', ⟨hj, hj'⟩, ih hfilter hfilter'⟩

/-- A weaker judgement holds at the same places. -/
theorem Along.imp {leaf' : ι → FieldPath → List Json → Prop} {step' : ι → Relation → ι → Prop}
    (hleaf : ∀ i field values, leaf i field values → leaf' i field values)
    (hstep : ∀ i relation j, step i relation j → step' i relation j) {p : Predicate} :
    ∀ {i : ι}, Along leaf step i p → Along leaf' step' i p := by
  induction p with
  | literal value => intro i _; trivial
  | compare field comparison value => intro i h; exact hleaf i field [value] h
  | oneOf field values => intro i h; exact hleaf i field values h
  | and parts ih => intro i h; exact along_and.mpr fun q hq => ih q hq (along_and.mp h q hq)
  | or parts ih => intro i h; exact along_or.mpr fun q hq => ih q hq (along_or.mp h q hq)
  | related relation filter ih =>
    intro i h
    obtain ⟨j, hj, hfilter⟩ := h
    exact ⟨j, hstep i relation j hj, ih hfilter⟩

theorem along_of_relationsIn {P : Relation → Prop} (next : Relation → ι) {p : Predicate} :
    ∀ {i : ι}, p.RelationsIn P →
      Along (fun _ _ _ => True) (fun _ relation j => j = next relation ∧ P relation) i p := by
  induction p with
  | literal value => intro i _; trivial
  | compare field comparison value => intro i _; trivial
  | oneOf field values => intro i _; trivial
  | and parts ih =>
    intro i hp
    exact along_and.mpr fun q hq => ih q hq (relationsIn_and.mp hp q hq)
  | or parts ih =>
    intro i hp
    exact along_or.mpr fun q hq => ih q hq (relationsIn_or.mp hp q hq)
  | related relation filter ih =>
    intro i hp
    obtain ⟨hrelation, hfilter⟩ := relationsIn_related.mp hp
    exact ⟨next relation, ⟨rfl, hrelation⟩, ih hfilter⟩

/-- With as many steps as the predicate nests relations no place is missed. -/
theorem along_of_nesting {P : Relation → Prop} {p : Predicate} :
    ∀ {n : Nat}, p.RelationsIn P → p.nesting ≤ n →
      Along (fun _ _ _ => True) (fun m relation k => m = k + 1 ∧ P relation) n p := by
  induction p with
  | literal value => intro n _ _; trivial
  | compare field comparison value => intro n _ _; trivial
  | oneOf field values => intro n _ _; trivial
  | and parts ih =>
    intro n hp hn
    rw [relationsIn_and] at hp
    rw [nesting] at hn
    exact along_and.mpr fun q hq => ih q hq (hp q hq) (Nat.le_trans (nesting_le_nestingOf hq) hn)
  | or parts ih =>
    intro n hp hn
    rw [relationsIn_or] at hp
    rw [nesting] at hn
    exact along_or.mpr fun q hq => ih q hq (hp q hq) (Nat.le_trans (nesting_le_nestingOf hq) hn)
  | related relation filter ih =>
    intro n hp hn
    rw [relationsIn_related] at hp
    rw [nesting] at hn
    exact ⟨n - 1, ⟨by omega, hp.1⟩, ih hp.2 (by omega)⟩

end

/-! ## Carrying a meaning over -/

/-- Points of two interpretations correspond at a place when the leaves say the
same of both and a step leads from corresponding points to corresponding points.
A predicate then holds of both or of neither. -/
theorem satisfies_eq_of_along {ι : Type} {leaf : ι → FieldPath → List Json → Prop}
    {step : ι → Relation → ι → Prop} {I : Interpretation σ} {J : Interpretation τ}
    {R : ι → σ → τ → Prop}
    (hcompares : ∀ i x y field comparison value, R i x y → leaf i field [value] →
      I.compares field comparison value x = J.compares field comparison value y)
    (hmember : ∀ i x y field values, R i x y → leaf i field values →
      I.member field values x = J.member field values y)
    (hjoined : ∀ i x y relation j, R i x y → step i relation j →
      List.Forall₂ (R j) (I.joined relation x) (J.joined relation y))
    {p : Predicate} :
    ∀ {i : ι} {x : σ} {y : τ}, Along leaf step i p → R i x y →
      satisfies I p x = satisfies J p y := by
  induction p with
  | literal value => intro i x y _ _; rw [satisfies_literal, satisfies_literal]
  | compare field comparison value =>
    intro i x y hp hxy
    rw [satisfies_compare, satisfies_compare, hcompares i x y field comparison value hxy hp]
  | oneOf field values =>
    intro i x y hp hxy
    rw [satisfies_oneOf, satisfies_oneOf, hmember i x y field values hxy hp]
  | and parts ih =>
    intro i x y hp hxy
    rw [satisfies_and, satisfies_and]
    exact all_eq_all fun q hq => ih q hq (along_and.mp hp q hq) hxy
  | or parts ih =>
    intro i x y hp hxy
    rw [satisfies_or, satisfies_or]
    exact any_eq_any fun q hq => ih q hq (along_or.mp hp q hq) hxy
  | related relation filter ih =>
    intro i x y hp hxy
    obtain ⟨j, hstep, hfilter⟩ := hp
    rw [satisfies_related, satisfies_related]
    have hpoints : ∀ x y, R j x y → satisfies J filter y = satisfies I filter x :=
      fun x y hxy => (ih hfilter hxy).symm
    exact (Outcome.any_forall₂ hpoints (hjoined i x y relation j hxy hstep)).symm

/-- Points of one interpretation stand for points of another, to a number of
levels, when the leaves say the same of both and the relations lead from a point
to the stand-ins of what they lead to.  A predicate nested no deeper than that
number then holds of both or of neither. -/
theorem satisfies_standIn {I : Interpretation σ} {J : Interpretation τ} {P : Relation → Prop}
    {f : Nat → σ → τ}
    (hcompares : ∀ n field comparison value x,
      J.compares field comparison value (f n x) = I.compares field comparison value x)
    (hmember : ∀ n field values x, J.member field values (f n x) = I.member field values x)
    (hjoined : ∀ n relation x, P relation →
      J.joined relation (f (n + 1) x) = (I.joined relation x).map (f n))
    {p : Predicate} {n : Nat} {x : σ} (hp : p.RelationsIn P) (hn : p.nesting ≤ n) :
    satisfies J p (f n x) = satisfies I p x := by
  refine (satisfies_eq_of_along (R := fun n x y => y = f n x) ?_ ?_ ?_
    (along_of_nesting hp hn) rfl).symm
  · rintro m x y field comparison value rfl _
    rw [hcompares]
  · rintro m x y field values rfl _
    rw [hmember]
  · rintro m x y relation k rfl ⟨rfl, hrelation⟩
    rw [hjoined k relation x hrelation]
    exact List.forall₂_map_right_iff.mpr (List.forall₂_same.mpr fun _ _ => rfl)

end Predicate

/-! ## Rows in memory -/

namespace Row

/-- Rows hold the rows related to them. -/
def interpretation : Predicate.Interpretation Row :=
  .onAttributes Row.attributes fun relation row => row.joined relation.key

end Row

namespace Predicate

theorem holds_eq_satisfies {p : Predicate} :
    ∀ {row : Row}, p.holds row = satisfies Row.interpretation p row := by
  induction p with
  | literal value => intro row; rw [holds, satisfies_literal]
  | compare field comparison value => intro row; rw [holds, satisfies_compare]; rfl
  | oneOf field values => intro row; rw [holds, satisfies_oneOf]; rfl
  | and parts ih =>
    intro row
    rw [holds, allHold_eq_all, satisfies_and]
    exact all_eq_all fun q hq => ih q hq
  | or parts ih =>
    intro row
    rw [holds, anyHolds_eq_any, satisfies_or]
    exact any_eq_any fun q hq => ih q hq
  | related relation filter ih =>
    intro row
    rw [holds, satisfies_related]
    exact any_eq_any fun r _ => ih

theorem holds_all (parts : List Predicate) (row : Row) :
    (all parts).holds row = parts.all fun p => p.holds row := by
  simp only [holds_eq_satisfies, satisfies_all]

theorem holds_any (parts : List Predicate) (row : Row) :
    (any parts).holds row = parts.any fun p => p.holds row := by
  simp only [holds_eq_satisfies, satisfies_any]

theorem holds_someRelated (relation : Relation) (filter : Predicate) (row : Row) :
    (someRelated relation filter).holds row = (row.joined relation.key).any filter.holds := by
  rw [holds_eq_satisfies, satisfies_someRelated]
  exact any_eq_any fun r _ => holds_eq_satisfies.symm

theorem holds_both (p q : Predicate) (row : Row) :
    (p.both q).holds row = (p.holds row && q.holds row) := by
  rw [both, holds_all, List.all_cons, List.all_cons, List.all_nil, Bool.and_true]

end Predicate

/-! ## Membership in memory -/

namespace Comparison

/-- Membership is equality with one of the values that are not null. -/
theorem member_eq_any_test (stored : Option Json) (values : List Json) :
    member stored values =
      (values.filter fun v => !v.isNull).any fun v => equal.test stored v := by
  rw [member, List.any_filter]
  cases hstored : present stored with
  | none =>
    refine (List.any_eq_false.mpr fun v _ => ?_).symm
    cases hv : v.isNull with
    | true => simp
    | false => simp [test, hv, hstored]
  | some a =>
    refine Predicate.any_eq_any fun v _ => ?_
    cases hv : v.isNull with
    | true => rfl
    | false => simp [test, hv, hstored]

end Comparison
end AccessPolicy
