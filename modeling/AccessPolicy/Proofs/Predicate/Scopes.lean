/-
Scopes that ask for the same rows.

Which rows are loaded depends on the filters that a scope puts on each relation,
not on their order or on how often they are repeated.  Unions of the same
predicates are therefore loaded alike and show the same.  Of its own members a smaller
union shows no less than a larger one, since it has fewer filters to absorb.
-/
import AccessPolicy.Proofs.Predicate.Loading

namespace AccessPolicy
namespace Predicate

/-! ## The same filters -/

/-- The scopes put the same filters on the same relations. -/
def SameParts (p q : Predicate) : Prop := ∀ part, part ∈ p.relatedParts ↔ part ∈ q.relatedParts

theorem SameParts.symm {p q : Predicate} (h : SameParts p q) : SameParts q p :=
  fun part => (h part).symm

theorem SameParts.filtersOn {p q : Predicate} (h : SameParts p q) (key : RelationKey)
    (filter : Predicate) : filter ∈ p.filtersOn key ↔ filter ∈ q.filtersOn key := by
  simp only [Predicate.filtersOn, List.mem_map, List.mem_filter, h _]

theorem SameParts.filtersOn_eq_nil {p q : Predicate} (h : SameParts p q) (key : RelationKey) :
    p.filtersOn key = [] ↔ q.filtersOn key = [] := by
  simp only [List.eq_nil_iff_forall_not_mem, h.filtersOn key]

theorem mem_relatedParts_any {parts : List Predicate} {part : Relation × Predicate} :
    part ∈ (any parts).relatedParts ↔ always ∉ parts ∧ ∃ p ∈ parts, part ∈ p.relatedParts := by
  by_cases h : always ∈ parts
  · rw [any_of_always_mem h]
    simp [always, relatedParts, show Predicate.literal true ∈ parts from h]
  · rw [relatedParts_any h, relatedPartsOf_eq_flatMap, List.mem_flatMap]
    exact (and_iff_right h).symm

theorem sameParts_any {ps qs : List Predicate} (h : ∀ p, p ∈ ps ↔ p ∈ qs) :
    SameParts (any ps) (any qs) := by
  intro part
  simp only [mem_relatedParts_any, h]

/-- What a scope shows of a predicate depends on its filters alone. -/
theorem within_congr {p : Predicate} :
    ∀ {scope scope' : Predicate}, SameParts scope scope' → scope.within p = scope'.within p := by
  induction p with
  | literal value => intro scope scope' _; rfl
  | compare field comparison value => intro scope scope' _; rfl
  | oneOf field values => intro scope scope' _; rfl
  | and parts ih =>
    intro scope scope' h
    rw [within, within, withinAll_eq_map, withinAll_eq_map]
    exact congrArg Predicate.and (List.map_congr_left fun q hq => ih q hq h)
  | or parts ih =>
    intro scope scope' h
    rw [within, within, withinAll_eq_map, withinAll_eq_map]
    exact congrArg Predicate.or (List.map_congr_left fun q hq => ih q hq h)
  | related relation filter ih =>
    intro scope scope' h
    rw [within, within]
    have hnil := h.filtersOn_eq_nil relation.key
    cases hfilters : scope.filtersOn relation.key with
    | nil => rw [hnil.mp hfilters]
    | cons first rest =>
      cases hfilters' : scope'.filtersOn relation.key with
      | nil =>
        rw [hnil.mpr hfilters'] at hfilters
        cases hfilters
      | cons first' rest' =>
        refine congrArg (Predicate.related relation) (ih (sameParts_any fun filter => ?_))
        rw [← hfilters, ← hfilters']
        exact h.filtersOn relation.key filter

/-- A scope shows of a union what it shows of the members. -/
theorem satisfies_within_any {σ : Type} (I : Interpretation σ) (scope : Predicate)
    (parts : List Predicate) (x : σ) :
    satisfies I (scope.within (any parts)) x =
      parts.any fun p => satisfies I (scope.within p) x := by
  refine eval_any (f := fun p => satisfies I (scope.within p) x) (fun value => ?_)
    (fun inner => ?_) parts
  · exact satisfies_literal I value x
  · show satisfies I (scope.within (.or inner)) x = _
    rw [within, withinAll_eq_map, satisfies_or, List.any_map]
    rfl

/-- Of a union that is loaded for itself, the members are shown as far as the union
has fetched them. -/
theorem satisfies_fetched_any {σ : Type} (I : Interpretation σ) (parts : List Predicate) (x : σ) :
    satisfies I (any parts).fetched x =
      parts.any fun p => satisfies I ((any parts).within p) x :=
  satisfies_within_any I (any parts) parts x

theorem satisfies_fetched_congr {σ : Type} (I : Interpretation σ) {ps qs : List Predicate}
    (h : ∀ p, p ∈ ps ↔ p ∈ qs) (x : σ) :
    satisfies I (any ps).fetched x = satisfies I (any qs).fetched x := by
  rw [satisfies_fetched_any, satisfies_fetched_any, Bool.eq_iff_iff]
  simp only [List.any_eq_true, h, within_congr (sameParts_any h)]

theorem disjuncts_of_plain {parts : List Predicate} (hor : ∀ p ∈ parts, ∀ inner, p ≠ .or inner)
    (halways : always ∉ parts) :
    disjuncts parts = some (parts.filter fun p => !p.isUnsatisfiable) := by
  fun_induction disjuncts parts with
  | case1 => rfl
  | case2 rest ih =>
    rw [ih (List.forall_mem_cons.mp hor).2 fun h => halways (List.mem_cons_of_mem _ h)]
    rfl
  | case3 rest => exact absurd List.mem_cons_self halways
  | case4 inner rest => exact absurd rfl (hor _ List.mem_cons_self inner)
  | case5 p rest hfalse _ _ ih =>
    rw [ih (List.forall_mem_cons.mp hor).2 fun h => halways (List.mem_cons_of_mem _ h)]
    cases p with
    | literal value => cases value with
      | false => exact absurd rfl hfalse
      | true => rfl
    | _ => rfl

theorem eq_never_of_isUnsatisfiable {p : Predicate} (h : p.isUnsatisfiable = true) : p = never := by
  cases p with
  | literal value =>
    cases value with
    | false => rfl
    | true => cases h
  | _ => cases h

/-- A union of plain members is unsatisfiable when each of them is. -/
theorem isUnsatisfiable_any {parts : List Predicate}
    (hor : ∀ p ∈ parts, ∀ inner, p ≠ .or inner) :
    (any parts).isUnsatisfiable = true ↔ ∀ p ∈ parts, p.isUnsatisfiable = true := by
  by_cases halways : always ∈ parts
  · rw [any_of_always_mem halways]
    exact ⟨fun h => (nomatch h), fun h => h _ halways⟩
  · have hfilter : (parts.filter fun p => !p.isUnsatisfiable) = [] ↔
        ∀ p ∈ parts, p.isUnsatisfiable = true := by
      simp only [List.filter_eq_nil_iff, Bool.not_eq_true', Bool.not_eq_false]
    have hkept : ∀ p ∈ parts.filter fun p => !p.isUnsatisfiable, p.isUnsatisfiable = false :=
      fun p hp => by simpa using (List.mem_filter.mp hp).2
    rw [← hfilter, any, disjuncts_of_plain hor halways]
    cases hparts : parts.filter fun p => !p.isUnsatisfiable with
    | nil => exact ⟨fun _ => rfl, fun _ => rfl⟩
    | cons first rest =>
      rw [hparts] at hkept
      cases rest with
      | nil => simp [hkept first List.mem_cons_self]
      | cons second rest => simp [isUnsatisfiable]

/-- A union of plain members is always satisfied when one of them is. -/
theorem any_eq_always_iff {parts : List Predicate}
    (hor : ∀ p ∈ parts, ∀ inner, p ≠ .or inner) : any parts = always ↔ always ∈ parts := by
  refine ⟨fun h => ?_, any_of_always_mem⟩
  by_contra halways
  have hkept : always ∉ parts.filter fun p => !p.isUnsatisfiable :=
    fun hmem => halways (List.mem_filter.mp hmem).1
  rw [any, disjuncts_of_plain hor halways] at h
  rcases hparts : parts.filter fun p => !p.isUnsatisfiable with _ | ⟨first, _ | ⟨second, rest⟩⟩
  · rw [hparts] at h
    cases h
  · rw [hparts] at h hkept
    exact hkept (h ▸ List.mem_cons_self)
  · rw [hparts] at h
    cases h

/-! ## Smaller scopes -/

/-- A scope that reaches no rows shows the least of a predicate. -/
theorem satisfies_within_of_flat {σ : Type} (I : Interpretation σ) {scope : Predicate}
    (hflat : scope.relatedParts = []) (scope' : Predicate) {x : σ} {p : Predicate} :
    satisfies I (scope.within p) x = true → satisfies I (scope'.within p) x = true := by
  induction p with
  | literal value => exact id
  | compare field comparison value => exact id
  | oneOf field values => exact id
  | and parts ih =>
    intro h
    rw [within, withinAll_eq_map, satisfies_and, List.all_map, List.all_eq_true] at h ⊢
    exact fun q hq => ih q hq (h q hq)
  | or parts ih =>
    intro h
    rw [within, withinAll_eq_map, satisfies_or, List.any_map, List.any_eq_true] at h ⊢
    obtain ⟨q, hq, h⟩ := h
    exact ⟨q, hq, ih q hq h⟩
  | related relation filter _ =>
    intro h
    have hnone : scope.filtersOn relation.key = [] := by rw [filtersOn, hflat]; rfl
    rw [within, hnone] at h
    cases h

theorem satisfies_within_related {σ : Type} (I : Interpretation σ) {scope filter : Predicate}
    {relation : Relation} {x : σ} (h : scope.filtersOn relation.key ≠ []) :
    satisfies I (scope.within (.related relation filter)) x =
      (I.joined relation x).any fun y =>
        satisfies I ((any (scope.filtersOn relation.key)).within filter) y := by
  rw [within]
  cases hfilters : scope.filtersOn relation.key with
  | nil => exact absurd hfilters h
  | cons first rest => rw [satisfies_related]

/-- Where smaller scopes show no less of a predicate, smaller unions that it is a member
of show no less of it either, whatever the larger union has absorbed. -/
theorem satisfies_within_union {σ : Type} (I : Interpretation σ) {p : Predicate} {x : σ}
    (hmono : ∀ {scope scope' : Predicate}, scope'.relatedParts ⊆ scope.relatedParts →
      p.relatedParts ⊆ scope'.relatedParts → satisfies I (scope.within p) x = true →
      satisfies I (scope'.within p) x = true)
    {fs fs' : List Predicate} (hfs : fs' ⊆ fs) (hp : p ∈ fs')
    (h : satisfies I ((any fs).within p) x = true) :
    satisfies I ((any fs').within p) x = true := by
  by_cases halways : always ∈ fs
  · -- The larger union fetches nothing, so what it shows needs no rows.
    refine satisfies_within_of_flat I ?_ _ h
    rw [any_of_always_mem halways]
    rfl
  · have halways' : always ∉ fs' := fun hmem => halways (hfs hmem)
    refine hmono (fun part hpart => ?_) (fun part hpart => ?_) h
    · obtain ⟨_, q, hq, hpart⟩ := mem_relatedParts_any.mp hpart
      exact mem_relatedParts_any.mpr ⟨halways, q, hfs hq, hpart⟩
    · exact mem_relatedParts_any.mpr ⟨halways', p, hp, hpart⟩

/-- Of a predicate whose relations are among its own, a scope shows at least what a
larger one shows. -/
theorem satisfies_within_mono {σ : Type} (I : Interpretation σ) {p : Predicate} :
    ∀ {scope scope' : Predicate} {x : σ}, scope'.relatedParts ⊆ scope.relatedParts →
      p.relatedParts ⊆ scope'.relatedParts → satisfies I (scope.within p) x = true →
      satisfies I (scope'.within p) x = true := by
  induction p with
  | literal value => exact fun _ _ h => h
  | compare field comparison value => exact fun _ _ h => h
  | oneOf field values => exact fun _ _ h => h
  | and parts ih =>
    intro scope scope' x hscope hparts h
    rw [relatedParts, relatedPartsOf_eq_flatMap] at hparts
    rw [within, withinAll_eq_map, satisfies_and, List.all_map, List.all_eq_true] at h ⊢
    intro q hq
    have hown : q.relatedParts ⊆ scope'.relatedParts :=
      fun part hpart => hparts (List.mem_flatMap.mpr ⟨q, hq, hpart⟩)
    exact ih q hq hscope hown (h q hq)
  | or parts ih =>
    intro scope scope' x hscope hparts h
    rw [relatedParts, relatedPartsOf_eq_flatMap] at hparts
    rw [within, withinAll_eq_map, satisfies_or, List.any_map, List.any_eq_true] at h ⊢
    obtain ⟨q, hq, h⟩ := h
    have hown : q.relatedParts ⊆ scope'.relatedParts :=
      fun part hpart => hparts (List.mem_flatMap.mpr ⟨q, hq, hpart⟩)
    exact ⟨q, hq, ih q hq hscope hown h⟩
  | related relation filter ih =>
    intro scope scope' x hscope hparts h
    have hfilters : scope'.filtersOn relation.key ⊆ scope.filtersOn relation.key :=
      List.map_subset _ (List.filter_subset _ hscope)
    have hfilter : filter ∈ scope'.filtersOn relation.key := by
      have hpart : (relation, filter) ∈ scope'.relatedParts := hparts (by simp [relatedParts])
      exact List.mem_map.mpr ⟨_, List.mem_filter.mpr ⟨hpart, by simp⟩, rfl⟩
    rw [satisfies_within_related I (List.ne_nil_of_mem (hfilters hfilter)), List.any_eq_true] at h
    rw [satisfies_within_related I (List.ne_nil_of_mem hfilter), List.any_eq_true]
    obtain ⟨y, hy, h⟩ := h
    exact ⟨y, hy, satisfies_within_union I ih hfilters hfilter h⟩

/-- What a union shows of a member, a smaller union with this member shows by itself. -/
theorem satisfies_fetched_of_subset {σ : Type} (I : Interpretation σ) {fs fs' : List Predicate}
    (hfs : fs' ⊆ fs) {q : Predicate} (hq : q ∈ fs') {x : σ}
    (h : satisfies I ((any fs).within q) x = true) : satisfies I (any fs').fetched x = true := by
  rw [satisfies_fetched_any, List.any_eq_true]
  exact ⟨q, hq, satisfies_within_union I (satisfies_within_mono I) hfs hq h⟩

/-! ## Conjunctions and related rows -/

/-- A scope shows of a conjunction what it shows of the members. -/
theorem satisfies_within_all {σ : Type} (I : Interpretation σ) (scope : Predicate)
    (parts : List Predicate) (x : σ) :
    satisfies I (scope.within (all parts)) x =
      parts.all fun p => satisfies I (scope.within p) x := by
  refine eval_all (f := fun p => satisfies I (scope.within p) x) (fun value => ?_)
    (fun inner => ?_) parts
  · exact satisfies_literal I value x
  · show satisfies I (scope.within (.and inner)) x = _
    rw [within, withinAll_eq_map, satisfies_and, List.all_map]
    rfl

/-- Beside a comparison a predicate is fetched as it is by itself. -/
theorem satisfies_fetched_both {σ : Type} (I : Interpretation σ) (field : FieldPath) (value : Json)
    (p : Predicate) (x : σ) :
    satisfies I ((equal field value).both p).fetched x =
      (I.compares field .equal value x && satisfies I p.fetched x) := by
  rw [fetched, both, satisfies_within_all, List.all_cons, List.all_cons, List.all_nil,
    Bool.and_true]
  show (I.compares field .equal value x && _) = _
  by_cases hnever : p = never
  · -- A false conjunct folds the conjunction away, and is false whatever was fetched.
    rw [hnever]
    rfl
  · have hparts : SameParts (all [equal field value, p]) p := by
      intro part
      rw [relatedParts_all fun hmem => hnever (by simpa [equal, never, eq_comm] using hmem)]
      simp [relatedPartsOf, relatedParts, equal]
    rw [within_congr hparts]
    rfl

theorem sameParts_any_singleton (p : Predicate) : SameParts (any [p]) p := by
  intro part
  rw [mem_relatedParts_any]
  constructor
  · rintro ⟨_, q, hq, hpart⟩
    rwa [List.mem_singleton.mp hq] at hpart
  · intro hpart
    refine ⟨fun halways => ?_, p, List.mem_singleton_self p, hpart⟩
    rw [← List.mem_singleton.mp halways] at hpart
    cases hpart

/-- Below a single relation a filter is fetched as it is by itself. -/
theorem satisfies_fetched_someRelated {σ : Type} (I : Interpretation σ) (relation : Relation)
    (filter : Predicate) (x : σ) :
    satisfies I (someRelated relation filter).fetched x =
      (I.joined relation x).any fun y => satisfies I filter.fetched y := by
  rw [someRelated]
  split
  · rename_i hunsatisfiable
    rw [eq_never_of_isUnsatisfiable hunsatisfiable]
    exact (List.any_eq_false.mpr fun y _ => Bool.false_ne_true).symm
  · have hfilters : (Predicate.related relation filter).filtersOn relation.key = [filter] := by
      simp [Predicate.filtersOn, relatedParts]
    rw [fetched, satisfies_within_related I (by rw [hfilters]; exact List.cons_ne_nil _ _), hfilters]
    simp only [within_congr (sameParts_any_singleton filter)]
    rfl

/-! ## Subqueries -/

/-- The rows of a registered relation are fetched when some filter is on them, and
for the union of the filters on them. -/
theorem mem_subqueries {registry : Registry} {p : Predicate} (hp : p.DrawnFrom registry)
    {part : Relation × Predicate} :
    part ∈ p.subqueries ↔ registry.Registers part.1 ∧ p.filtersOn part.1.key ≠ [] ∧
      part.2 = any (p.filtersOn part.1.key) := by
  have hregisters : ∀ q ∈ p.relatedParts, registry.Registers q.1 :=
    fun q hq => (mem_relatedParts hp q hq).1
  constructor
  · intro hpart
    obtain ⟨⟨q, hq, hrelation⟩, hfilters, hfilter⟩ := of_mem_subqueries hpart
    exact ⟨hrelation ▸ hregisters q hq, hfilters, hfilter⟩
  · rintro ⟨hrelation, hfilters, hfilter⟩
    have hfind := find_subqueries hregisters hrelation
    cases hon : p.filtersOn part.1.key with
    | nil => exact absurd hon hfilters
    | cons first rest =>
      rw [hon] at hfind hfilter
      have heq : part = (part.1, any (first :: rest)) := Prod.ext rfl hfilter
      rw [heq]
      exact List.mem_of_find?_eq_some hfind

end Predicate

/-! ## Loading -/

namespace Row

variable {registry : Registry} {ambient : Ambient}

/-- The rows for a scope can be loaded to a number of levels. -/
def Loads (registry : Registry) (ambient : Ambient) (levels : Nat) (attributes : Json)
    (scope : Predicate) : Prop :=
  ∃ row, loadLevels registry ambient levels attributes scope = .ok row

/-- An entity is loaded when the loader of each relation answers to its key and every
entity found is loaded in turn. -/
theorem loads_succ_iff {levels : Nat} {attributes : Json} {scope : Predicate} :
    Loads registry ambient (levels + 1) attributes scope ↔
      ∀ part ∈ scope.subqueries, ∀ key, joinKey part.1 attributes = some key →
        ∃ loader entities, registry.loader part.1.target = .ok loader ∧
          loader ambient.bypassing part.1.targetField key = .ok entities ∧
          ∀ entity ∈ entities, Loads registry ambient levels entity part.2 := by
  unfold Loads
  simp only [loadLevels]
  rw [Outcome.exists_bind_pure, Outcome.exists_mapM]
  refine forall₂_congr fun part _ => ?_
  cases hkey : joinKey part.1 attributes with
  | none =>
    constructor
    · intro _ key h
      cases h
    · intro _
      exact ⟨_, rfl⟩
  | some key =>
    constructor
    · rintro ⟨entry, h⟩ key' hkey'
      obtain rfl := Option.some.inj hkey'
      obtain ⟨loader, hloader, h⟩ := Outcome.bind_eq_ok.mp h
      obtain ⟨entities, hentities, h⟩ := Outcome.bind_eq_ok.mp h
      obtain ⟨rows, hrows, _⟩ := Outcome.bind_eq_ok.mp h
      exact ⟨loader, entities, Outcome.mapError_eq_ok.mp hloader,
        Outcome.mapError_eq_ok.mp hentities, Outcome.exists_mapM.mp ⟨rows, hrows⟩⟩
    · intro h
      obtain ⟨loader, entities, hloader, hentities, hrows⟩ := h key rfl
      obtain ⟨rows, hrows⟩ := Outcome.exists_mapM.mpr hrows
      refine ⟨(part.1.key, rows), ?_⟩
      refine Outcome.bind_eq_ok.mpr ⟨loader, Outcome.mapError_eq_ok.mpr hloader, ?_⟩
      refine Outcome.bind_eq_ok.mpr ⟨entities, Outcome.mapError_eq_ok.mpr hentities, ?_⟩
      exact Outcome.bind_eq_ok.mpr ⟨rows, hrows, rfl⟩

/-- Scopes that ask for the same rows are loaded alike, once there are levels enough
for each. -/
theorem Loads.of_sameParts {m : Nat} : ∀ {n : Nat} {p q : Predicate} {attributes : Json},
    p.DrawnFrom registry → q.DrawnFrom registry → p.nesting ≤ n → q.nesting ≤ m →
    Predicate.SameParts p q → Loads registry ambient n attributes p →
    Loads registry ambient m attributes q := by
  induction m with
  | zero => intro n p q attributes _ _ _ _ _ _; exact ⟨_, rfl⟩
  | succ m ih =>
    intro n p q attributes hp hq hn hm hsame hloads
    rw [loads_succ_iff]
    intro part hpart key hkey
    obtain ⟨hrelation, hfilters, hfilter⟩ := (Predicate.mem_subqueries hq).mp hpart
    have hfilters' : p.filtersOn part.1.key ≠ [] := fun h => hfilters ((hsame.filtersOn_eq_nil _).mp h)
    have hpart' : (part.1, Predicate.any (p.filtersOn part.1.key)) ∈ p.subqueries :=
      (Predicate.mem_subqueries hp).mpr ⟨hrelation, hfilters', rfl⟩
    -- A predicate with a filter on some relation nests, so a level is left for its rows.
    obtain ⟨filter, hmem⟩ := List.exists_mem_of_ne_nil _ hfilters'
    have hnesting := (Predicate.mem_filtersOn hp hmem).2
    obtain ⟨n, rfl⟩ : ∃ k, n = k + 1 := ⟨n - 1, by omega⟩
    obtain ⟨loader, entities, hloader, hentities, hrows⟩ :=
      loads_succ_iff.mp hloads _ hpart' key hkey
    refine ⟨loader, entities, hloader, hentities, fun entity hentity => ?_⟩
    rw [hfilter]
    have hbelow : ∀ {r : Predicate} {k : Nat}, r.DrawnFrom registry → r.nesting ≤ k + 1 →
        (Predicate.any (r.filtersOn part.1.key)).DrawnFrom registry ∧
          (Predicate.any (r.filtersOn part.1.key)).nesting ≤ k := by
      intro r k hr hk
      refine ⟨Predicate.relationsIn_any fun f hf => (Predicate.mem_filtersOn hr hf).1,
        Predicate.nesting_any_le fun f hf => ?_⟩
      have := (Predicate.mem_filtersOn hr hf).2
      omega
    obtain ⟨hpdrawn, hpnesting⟩ := hbelow hp hn
    obtain ⟨hqdrawn, hqnesting⟩ := hbelow hq hm
    exact ih hpdrawn hqdrawn hpnesting hqnesting
      (Predicate.sameParts_any (hsame.filtersOn part.1.key)) (hrows entity hentity)

end Row
end AccessPolicy
