/-
What is decided on a row that was loaded.

Rows are fetched once for each relation, for the union of the filters on it.  A
union with an unconditional filter is itself unconditional, and then nothing
below the rows of that relation is fetched, although another filter may ask for
it.  `fetched` is the part of a predicate that its rows can show: a loaded row
satisfies the predicate exactly when the entity satisfies that part.
-/
import AccessPolicy.Predicate.Load
import AccessPolicy.Proofs.Outcome
import AccessPolicy.Proofs.Predicate.Subqueries
import AccessPolicy.Repository

namespace AccessPolicy
namespace Predicate

/-! ## The part of a predicate that loaded rows show -/

mutual

/-- The predicate where rows were loaded for `scope`.  A relation over which the
scope does not range leads to no row, and the rows of the others were in turn
loaded for the union of the scope's filters on the relation. -/
def within (scope : Predicate) : Predicate → Predicate
  | .and parts => .and (withinAll scope parts)
  | .or parts => .or (withinAll scope parts)
  | .related relation filter =>
    match scope.filtersOn relation.key with
    | [] => never
    | filters => .related relation (within (any filters) filter)
  | p => p

def withinAll (scope : Predicate) : List Predicate → List Predicate
  | [] => []
  | p :: rest => within scope p :: withinAll scope rest

end

theorem withinAll_eq_map (scope : Predicate) (parts : List Predicate) :
    withinAll scope parts = parts.map (within scope) := by
  induction parts with
  | nil => rfl
  | cons p rest ih => rw [withinAll, ih, List.map_cons]

/-- The predicate where rows were loaded for the predicate itself. -/
def fetched (p : Predicate) : Predicate := p.within p

/-- Rows only ever show less than a predicate asks for, since no leaf is negated. -/
theorem satisfies_of_within {σ : Type} (I : Interpretation σ) {p : Predicate} :
    ∀ {scope : Predicate} {x : σ},
      satisfies I (scope.within p) x = true → satisfies I p x = true := by
  induction p with
  | literal value => intro scope x h; exact h
  | compare field comparison value => intro scope x h; exact h
  | oneOf field values => intro scope x h; exact h
  | and parts ih =>
    intro scope x h
    rw [within, withinAll_eq_map, satisfies_and, List.all_map, List.all_eq_true] at h
    rw [satisfies_and, List.all_eq_true]
    intro q hq
    exact ih q hq (h q hq)
  | or parts ih =>
    intro scope x h
    rw [within, withinAll_eq_map, satisfies_or, List.any_map, List.any_eq_true] at h
    rw [satisfies_or, List.any_eq_true]
    obtain ⟨q, hq, h⟩ := h
    exact ⟨q, hq, ih q hq h⟩
  | related relation filter ih =>
    intro scope x h
    rw [within] at h
    cases hfilters : scope.filtersOn relation.key with
    | nil =>
      rw [hfilters] at h
      simp [never] at h
    | cons first rest =>
      rw [hfilters] at h
      simp only [satisfies_related, List.any_eq_true] at h
      rw [satisfies_related, List.any_eq_true]
      obtain ⟨y, hy, h⟩ := h
      exact ⟨y, hy, ih h⟩

/-! ## Predicates of which everything is shown -/

/-- The filters on the rows that a chain of relations leads to. -/
def filtersAlong : List RelationKey → Predicate → List Predicate
  | [], p => [p]
  | key :: rest, p => (p.filtersOn key).flatMap (filtersAlong rest)

/-- No filter that is unconditional stands beside a filter on the same rows that
reaches further rows. -/
def Unabsorbed (p : Predicate) : Prop :=
  ∀ chain, always ∈ p.filtersAlong chain →
    ∀ filter ∈ p.filtersAlong chain, filter.relatedParts = []

theorem disjuncts_ne_none {parts : List Predicate} (h : always ∉ parts) :
    disjuncts parts ≠ none := by
  fun_induction disjuncts parts with
  | case1 => exact Option.some_ne_none _
  | case2 rest ih => exact ih fun hr => h (List.mem_cons_of_mem _ hr)
  | case3 rest => exact absurd List.mem_cons_self h
  | case4 inner rest ih =>
    intro hnone
    exact ih (fun hr => h (List.mem_cons_of_mem _ hr)) (Option.map_eq_none_iff.mp hnone)
  | case5 p rest _ _ _ ih =>
    intro hnone
    exact ih (fun hr => h (List.mem_cons_of_mem _ hr)) (Option.map_eq_none_iff.mp hnone)

theorem relatedParts_of_disjuncts {parts ps : List Predicate} (h : disjuncts parts = some ps) :
    relatedPartsOf ps = relatedPartsOf parts := by
  fun_induction disjuncts parts generalizing ps with
  | case1 => cases h; rfl
  | case2 rest ih =>
    simp only [ih h, relatedPartsOf, relatedParts, List.nil_append]
  | case3 rest => cases h
  | case4 inner rest ih =>
    obtain ⟨qs, hqs, rfl⟩ := Option.map_eq_some_iff.mp h
    rw [relatedPartsOf, relatedParts, ← ih hqs]
    simp only [relatedPartsOf_eq_flatMap, List.flatMap_append]
  | case5 p rest _ _ _ ih =>
    obtain ⟨qs, hqs, rfl⟩ := Option.map_eq_some_iff.mp h
    rw [relatedPartsOf, relatedPartsOf, ih hqs]

/-- A union without unconditional member ranges over all that its members range
over. -/
theorem relatedParts_any {parts : List Predicate} (h : always ∉ parts) :
    (any parts).relatedParts = relatedPartsOf parts := by
  have hsome := disjuncts_ne_none h
  unfold any
  split
  · rename_i hnone
    exact absurd hnone hsome
  · rename_i hps
    rw [← relatedParts_of_disjuncts hps]
    rfl
  · rename_i p hps
    rw [← relatedParts_of_disjuncts hps, relatedPartsOf, relatedPartsOf, List.append_nil]
  · rename_i ps _ _ hps
    rw [← relatedParts_of_disjuncts hps, relatedParts]

theorem any_of_always_mem {parts : List Predicate} (h : always ∈ parts) : any parts = always := by
  have hnone : disjuncts parts = none := by
    fun_induction disjuncts parts with
    | case1 => cases h
    | case2 rest ih => exact ih (by simpa [always] using h)
    | case3 rest => rfl
    | case4 inner rest ih => exact Option.map_eq_none_iff.mpr (ih (by simpa [always] using h))
    | case5 p rest _ htrue _ ih =>
      rcases List.mem_cons.mp h with rfl | h
      · exact absurd rfl htrue
      · exact Option.map_eq_none_iff.mpr (ih h)
  unfold any
  rw [hnone]

theorem conjuncts_ne_none {parts : List Predicate} (h : never ∉ parts) :
    conjuncts parts ≠ none := by
  fun_induction conjuncts parts with
  | case1 => exact Option.some_ne_none _
  | case2 rest ih => exact ih fun hr => h (List.mem_cons_of_mem _ hr)
  | case3 rest => exact absurd List.mem_cons_self h
  | case4 inner rest ih =>
    intro hnone
    exact ih (fun hr => h (List.mem_cons_of_mem _ hr)) (Option.map_eq_none_iff.mp hnone)
  | case5 p rest _ _ _ ih =>
    intro hnone
    exact ih (fun hr => h (List.mem_cons_of_mem _ hr)) (Option.map_eq_none_iff.mp hnone)

theorem relatedParts_of_conjuncts {parts ps : List Predicate} (h : conjuncts parts = some ps) :
    relatedPartsOf ps = relatedPartsOf parts := by
  fun_induction conjuncts parts generalizing ps with
  | case1 => cases h; rfl
  | case2 rest ih =>
    simp only [ih h, relatedPartsOf, relatedParts, List.nil_append]
  | case3 rest => cases h
  | case4 inner rest ih =>
    obtain ⟨qs, hqs, rfl⟩ := Option.map_eq_some_iff.mp h
    rw [relatedPartsOf, relatedParts, ← ih hqs]
    simp only [relatedPartsOf_eq_flatMap, List.flatMap_append]
  | case5 p rest _ _ _ ih =>
    obtain ⟨qs, hqs, rfl⟩ := Option.map_eq_some_iff.mp h
    rw [relatedPartsOf, relatedPartsOf, ih hqs]

/-- A conjunction without false member ranges over all that its members range over. -/
theorem relatedParts_all {parts : List Predicate} (h : never ∉ parts) :
    (all parts).relatedParts = relatedPartsOf parts := by
  have hsome := conjuncts_ne_none h
  unfold all
  split
  · rename_i hnone
    exact absurd hnone hsome
  · rename_i hps
    rw [← relatedParts_of_conjuncts hps]
    rfl
  · rename_i p hps
    rw [← relatedParts_of_conjuncts hps, relatedPartsOf, relatedPartsOf, List.append_nil]
  · rename_i ps _ _ hps
    rw [← relatedParts_of_conjuncts hps, relatedParts]

theorem filtersOn_any {parts : List Predicate} (h : always ∉ parts) (key : RelationKey) :
    (any parts).filtersOn key = parts.flatMap (filtersOn key) := by
  rw [filtersOn, relatedParts_any h, relatedPartsOf_eq_flatMap, List.filter_flatMap,
    List.map_flatMap]
  rfl

/-- Below rows that are fetched nothing is absorbed that was not absorbed before. -/
theorem unabsorbed_any {p : Predicate} {key : RelationKey} (hp : p.Unabsorbed) :
    (any (p.filtersOn key)).Unabsorbed := by
  intro chain halways filter hfilter
  by_cases h : always ∈ p.filtersOn key
  · rw [any_of_always_mem h] at halways hfilter
    cases chain with
    | nil =>
      rw [filtersAlong, List.mem_singleton] at hfilter
      rw [hfilter]
      rfl
    | cons next rest => cases hfilter
  · cases chain with
    | nil =>
      rw [filtersAlong, List.mem_singleton] at halways hfilter
      rw [hfilter, ← halways]
      rfl
    | cons next rest =>
      have halong : (any (p.filtersOn key)).filtersAlong (next :: rest) =
          p.filtersAlong (key :: next :: rest) := by
        simp only [filtersAlong, filtersOn_any h, List.flatMap_assoc]
      rw [halong] at halways hfilter
      exact hp _ halways filter hfilter

/-- What is loaded for a scope without absorption shows every predicate whose
relations the scope ranges over. -/
theorem within_eq_self {p : Predicate} : ∀ {scope : Predicate}, scope.Unabsorbed →
    (∀ part ∈ p.relatedParts, part ∈ scope.relatedParts) → scope.within p = p := by
  induction p with
  | literal value => intro scope _ _; rfl
  | compare field comparison value => intro scope _ _; rfl
  | oneOf field values => intro scope _ _; rfl
  | and parts ih =>
    intro scope hscope hparts
    rw [relatedParts, relatedPartsOf_eq_flatMap] at hparts
    rw [within, withinAll_eq_map]
    refine congrArg Predicate.and ((List.map_congr_left fun q hq => ?_).trans (List.map_id parts))
    exact ih q hq hscope fun part hpart => hparts part (List.mem_flatMap.mpr ⟨q, hq, hpart⟩)
  | or parts ih =>
    intro scope hscope hparts
    rw [relatedParts, relatedPartsOf_eq_flatMap] at hparts
    rw [within, withinAll_eq_map]
    refine congrArg Predicate.or ((List.map_congr_left fun q hq => ?_).trans (List.map_id parts))
    exact ih q hq hscope fun part hpart => hparts part (List.mem_flatMap.mpr ⟨q, hq, hpart⟩)
  | related relation filter ih =>
    intro scope hscope hparts
    have hfilter : filter ∈ scope.filtersOn relation.key := by
      have hpart := hparts (relation, filter) (by simp [relatedParts])
      exact List.mem_map.mpr ⟨_, List.mem_filter.mpr ⟨hpart, by simp⟩, rfl⟩
    rw [within]
    cases hfilters : scope.filtersOn relation.key with
    | nil => rw [hfilters] at hfilter; cases hfilter
    | cons first rest =>
      refine congrArg (Predicate.related relation) (ih ?_ ?_)
      · rw [← hfilters]
        exact unabsorbed_any hscope
      · intro part hpart
        rw [← hfilters]
        by_cases h : always ∈ scope.filtersOn relation.key
        · have hnone := hscope [relation.key] (by simpa [filtersAlong] using h) filter
            (by simpa [filtersAlong] using hfilter)
          rw [hnone] at hpart
          cases hpart
        · rw [relatedParts_any h, relatedPartsOf_eq_flatMap]
          exact List.mem_flatMap.mpr ⟨filter, hfilter, hpart⟩

theorem fetched_eq_self {p : Predicate} (h : p.Unabsorbed) : p.fetched = p :=
  within_eq_self h fun _ hpart => hpart

/-- A predicate that reaches no further rows has nothing to absorb. -/
theorem unabsorbed_of_relatedParts {p : Predicate} (h : p.relatedParts = []) : p.Unabsorbed := by
  intro chain halways filter hfilter
  cases chain with
  | nil =>
    rw [filtersAlong, List.mem_singleton] at hfilter
    rw [hfilter]
    exact h
  | cons key rest =>
    rw [filtersAlong, filtersOn, h] at hfilter
    cases hfilter

end Predicate

/-! ## Entities behind loaders -/

/-- Entities in memory are found by the comparison that predicates make. -/
theorem memoryLoader_eq (entities : List Json) (ambient : Ambient) (field : FieldPath)
    {value : Json} (hvalue : value.isNull = false) :
    memoryLoader entities ambient field value =
      .ok (entities.filter fun e => Comparison.equal.test (field.resolve e) value) := by
  rw [memoryLoader]
  refine congrArg Except.ok (List.filter_congr fun e _ => ?_)
  rw [Comparison.test, if_neg (Bool.eq_false_iff.mp hvalue)]
  cases Comparison.present (field.resolve e) <;> rfl

namespace Row

/-- The entities that the loaders join to an entity, none when nothing answers. -/
def relatedEntities (registry : Registry) (ambient : Ambient) (relation : Relation)
    (attributes : Json) : List Json :=
  match joinKey relation attributes with
  | none => []
  | some key =>
    match registry.loader relation.target with
    | .error _ => []
    | .ok loader =>
      match loader ambient.bypassing relation.targetField key with
      | .error _ => []
      | .ok entities => entities

end Row

/-- Entities are joined to those that the loaders of a registry find.  This is the
direct meaning of a predicate, without rows. -/
def Registry.interpretation (registry : Registry) (ambient : Ambient) :
    Predicate.Interpretation Json :=
  .onAttributes id (Row.relatedEntities registry ambient)

namespace Row

open AuthorizationError (liftConfiguration liftStore)

variable {registry : Registry} {ambient : Ambient}

theorem attributes_of_loadLevels {levels : Nat} {attributes : Json} {scope : Predicate} {row : Row}
    (h : loadLevels registry ambient levels attributes scope = .ok row) :
    row.attributes = attributes := by
  cases levels with
  | zero => rw [loadLevels] at h; cases h; rfl
  | succ levels =>
    rw [loadLevels] at h
    obtain ⟨related, _, h⟩ := Outcome.bind_eq_ok.mp h
    cases h
    rfl

/-- What was loaded for a relation and a filter: its key with the related entities,
each loaded for the filter. -/
structure LoadedFor (registry : Registry) (ambient : Ambient) (levels : Nat) (attributes : Json)
    (part : Relation × Predicate) (entry : RelationKey × List Row) : Prop where
  key : entry.1 = part.1.key
  rows : List.Forall₂
    (fun entity row => loadLevels registry ambient levels entity part.2 = .ok row)
    (relatedEntities registry ambient part.1 attributes) entry.2

theorem loadedFor_of_loadLevels {levels : Nat} {attributes : Json} {scope : Predicate} {row : Row}
    (h : loadLevels registry ambient (levels + 1) attributes scope = .ok row) :
    List.Forall₂ (LoadedFor registry ambient levels attributes) scope.subqueries row.related := by
  rw [loadLevels] at h
  obtain ⟨related, hrelated, h⟩ := Outcome.bind_eq_ok.mp h
  cases h
  refine (Outcome.forall₂_of_mapM hrelated).imp ?_
  intro part entry hentry
  cases hkey : joinKey part.1 attributes with
  | none =>
    rw [hkey] at hentry
    cases hentry
    refine ⟨rfl, ?_⟩
    simp only [relatedEntities, hkey]
    exact .nil
  | some key =>
    simp only [hkey] at hentry
    obtain ⟨loader, hloader, hentry⟩ := Outcome.bind_eq_ok.mp hentry
    obtain ⟨entities, hentities, hentry⟩ := Outcome.bind_eq_ok.mp hentry
    obtain ⟨rows, hrows, hentry⟩ := Outcome.bind_eq_ok.mp hentry
    cases hentry
    refine ⟨rfl, ?_⟩
    simp only [relatedEntities, hkey, Outcome.mapError_eq_ok.mp hloader,
      Outcome.mapError_eq_ok.mp hentities]
    exact Outcome.forall₂_of_mapM hrows

/-- The rows under a relation are the related entities, each loaded for the union
of the filters on the relation. -/
theorem joined_of_loadLevels {levels : Nat} {attributes : Json} {scope : Predicate} {row : Row}
    {relation : Relation} (hscope : scope.DrawnFrom registry)
    (hrelation : registry.Registers relation)
    (h : loadLevels registry ambient (levels + 1) attributes scope = .ok row) :
    match scope.filtersOn relation.key with
    | [] => row.joined relation.key = []
    | filter :: rest =>
      List.Forall₂
        (fun entity r => loadLevels registry ambient levels entity (.any (filter :: rest)) = .ok r)
        (relatedEntities registry ambient relation attributes) (row.joined relation.key) := by
  have hfound := Outcome.find_forall₂
    (p := fun part : Relation × Predicate => part.1.key = relation.key)
    (q := fun entry : RelationKey × List Row => entry.1 == relation.key)
    (fun part entry hloaded => by rw [hloaded.key]; rfl) (loadedFor_of_loadLevels h)
  rw [Predicate.find_subqueries (fun part hpart => (Predicate.mem_relatedParts hscope part hpart).1)
    hrelation] at hfound
  cases hfilters : scope.filtersOn relation.key with
  | nil =>
    rw [hfilters] at hfound
    obtain ⟨_, hnone⟩ | ⟨part, _, _, hpart, _⟩ := hfound
    · simp only [joined, hnone]
      rfl
    · cases hpart
  | cons filter rest =>
    rw [hfilters] at hfound
    obtain ⟨hnone, _⟩ | ⟨part, entry, hloaded, hpart, hentry⟩ := hfound
    · cases hnone
    · cases hpart
      simp only [joined, hentry]
      exact hloaded.rows

/-- A row that was loaded for a scope satisfies a predicate when the entity
satisfies the part of it that the scope shows. -/
theorem holds_of_loadLevels {q : Predicate} :
    ∀ {levels : Nat} {attributes : Json} {scope : Predicate} {row : Row},
      q.DrawnFrom registry → scope.DrawnFrom registry → scope.nesting ≤ levels →
      loadLevels registry ambient levels attributes scope = .ok row →
      q.holds row =
        Predicate.satisfies (registry.interpretation ambient) (scope.within q) attributes := by
  induction q with
  | literal value =>
    intro levels attributes scope row _ _ _ _
    rw [Predicate.holds_eq_satisfies]
    rfl
  | compare field comparison value =>
    intro levels attributes scope row _ _ _ h
    rw [← attributes_of_loadLevels h, Predicate.holds_eq_satisfies]
    rfl
  | oneOf field values =>
    intro levels attributes scope row _ _ _ h
    rw [← attributes_of_loadLevels h, Predicate.holds_eq_satisfies]
    rfl
  | and parts ih =>
    intro levels attributes scope row hq hscope hlevels h
    rw [Predicate.holds, Predicate.allHold_eq_all, Predicate.within, Predicate.withinAll_eq_map,
      Predicate.satisfies_and, List.all_map]
    exact Predicate.all_eq_all fun p hp =>
      ih p hp (Predicate.relationsIn_and.mp hq p hp) hscope hlevels h
  | or parts ih =>
    intro levels attributes scope row hq hscope hlevels h
    rw [Predicate.holds, Predicate.anyHolds_eq_any, Predicate.within, Predicate.withinAll_eq_map,
      Predicate.satisfies_or, List.any_map]
    exact Predicate.any_eq_any fun p hp =>
      ih p hp (Predicate.relationsIn_or.mp hq p hp) hscope hlevels h
  | related relation filter ih =>
    intro levels attributes scope row hq hscope hlevels h
    obtain ⟨hrelation, hfilter⟩ := Predicate.relationsIn_related.mp hq
    rw [Predicate.holds, Predicate.within]
    cases levels with
    | zero =>
      -- Without a level left the scope is flat, and nothing is fetched or asked for below it.
      have hnone : scope.filtersOn relation.key = [] := by
        refine List.eq_nil_iff_forall_not_mem.mpr fun p hp => ?_
        have hnesting := (Predicate.mem_filtersOn hscope hp).2
        omega
      rw [loadLevels] at h
      cases h
      rw [hnone]
      rfl
    | succ levels =>
      have hjoined := joined_of_loadLevels hscope hrelation h
      cases hfilters : scope.filtersOn relation.key with
      | nil =>
        rw [hfilters] at hjoined
        simp only at hjoined
        rw [hjoined]
        rfl
      | cons first rest =>
        rw [hfilters] at hjoined
        have hmem : ∀ p ∈ first :: rest, p.DrawnFrom registry ∧ p.nesting + 1 ≤ scope.nesting := by
          intro p hp
          rw [← hfilters] at hp
          exact Predicate.mem_filtersOn hscope hp
        -- The rows below are loaded for the union of the filters, the scope from there on.
        have hunion : (Predicate.any (first :: rest)).DrawnFrom registry :=
          Predicate.relationsIn_any fun p hp => (hmem p hp).1
        have hnesting : (Predicate.any (first :: rest)).nesting ≤ levels := by
          refine Predicate.nesting_any_le fun p hp => ?_
          have := (hmem p hp).2
          omega
        rw [Predicate.satisfies_related]
        exact Outcome.any_forall₂ (fun entity r hr => ih hfilter hunion hnesting hr) hjoined

end Row
end AccessPolicy
