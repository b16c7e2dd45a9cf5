/-
Loading comes to an end.

Loading rows for a predicate asks for rows for its filters on the entities that loaders
find.  What is asked for next is no part of the predicate: it is the union of all filters
on one relation, folded anew at each level.  What goes down all the same is how deeply
relations are nested, whatever the loaders find, so entities that lead back to each other
do no harm.  At each level the filters are grouped by relation key, and no key has two
groups.
-/
import AccessPolicy.Proofs.Predicate.Loading
import AccessPolicy.Workflow

namespace AccessPolicy

namespace Predicate

/-! ## Relations at one level -/

/-- The predicate asks for a row of the relation that satisfies the filter, on the way to
which no other relation is crossed. -/
inductive RangesOver : Predicate → Relation → Predicate → Prop where
  | related (relation : Relation) (filter : Predicate) :
      RangesOver (.related relation filter) relation filter
  | and {parts : List Predicate} {p : Predicate} {relation : Relation} {filter : Predicate}
      (hp : p ∈ parts) (h : RangesOver p relation filter) : RangesOver (.and parts) relation filter
  | or {parts : List Predicate} {p : Predicate} {relation : Relation} {filter : Predicate}
      (hp : p ∈ parts) (h : RangesOver p relation filter) : RangesOver (.or parts) relation filter

theorem mem_relatedParts_iff {p : Predicate} {relation : Relation} {filter : Predicate} :
    (relation, filter) ∈ p.relatedParts ↔ p.RangesOver relation filter := by
  constructor
  · intro h
    induction p with
    | and parts ih =>
      rw [relatedParts, relatedPartsOf_eq_flatMap] at h
      obtain ⟨q, hq, h⟩ := List.mem_flatMap.mp h
      exact .and hq (ih q hq h)
    | or parts ih =>
      rw [relatedParts, relatedPartsOf_eq_flatMap] at h
      obtain ⟨q, hq, h⟩ := List.mem_flatMap.mp h
      exact .or hq (ih q hq h)
    | related r f _ =>
      rw [relatedParts, List.mem_singleton] at h
      cases h
      exact .related relation filter
    | _ => simp [relatedParts] at h
  · intro h
    induction h with
    | related relation filter => exact List.mem_singleton.mpr rfl
    | and hq _ ih =>
      rw [relatedParts, relatedPartsOf_eq_flatMap]
      exact List.mem_flatMap.mpr ⟨_, hq, ih⟩
    | or hq _ ih =>
      rw [relatedParts, relatedPartsOf_eq_flatMap]
      exact List.mem_flatMap.mpr ⟨_, hq, ih⟩

/-! ## Keys of groups -/

theorem mem_keys_addToGroup {key : RelationKey} {relation : Relation} {filter : Predicate}
    {gs : List (Relation × List Predicate)} :
    key ∈ (addToGroup relation filter gs).map (·.1.key) ↔
      key = relation.key ∨ key ∈ gs.map (·.1.key) := by
  rw [keys_addToGroup]
  split
  · rename_i hmem
    refine ⟨.inr, ?_⟩
    rintro (rfl | h)
    · exact hmem
    · exact h
  · rw [List.mem_append, List.mem_singleton, or_comm]

theorem mem_keys_groups {key : RelationKey} {parts : List (Relation × Predicate)} :
    key ∈ (groups parts).map (·.1.key) ↔ ∃ part ∈ parts, part.1.key = key := by
  induction parts using List.reverseRecOn with
  | nil => simp [groups]
  | append_singleton parts last ih =>
    rw [groups, List.foldl_append, List.foldl_cons, List.foldl_nil, mem_keys_addToGroup, ← groups,
      ih]
    constructor
    · rintro (rfl | ⟨part, hpart, rfl⟩)
      · exact ⟨last, List.mem_append_right _ List.mem_cons_self, rfl⟩
      · exact ⟨part, List.mem_append_left _ hpart, rfl⟩
    · rintro ⟨part, hpart, rfl⟩
      rcases List.mem_append.mp hpart with hpart | hpart
      · exact .inr ⟨part, hpart, rfl⟩
      · exact .inl (by rw [List.mem_singleton.mp hpart])

/-- What is fetched at one level are the relations over which the predicate ranges. -/
theorem mem_keys_subqueries {p : Predicate} {key : RelationKey} :
    key ∈ p.subqueries.map (·.1.key) ↔
      ∃ relation filter, p.RangesOver relation filter ∧ relation.key = key := by
  rw [keys_subqueries, mem_keys_groups]
  simp only [Prod.exists, mem_relatedParts_iff]

/-! ## What goes down -/

theorem relationsIn_true (p : Predicate) : p.RelationsIn fun _ => True := by
  induction p with
  | and parts ih => exact relationsIn_and.mpr ih
  | or parts ih => exact relationsIn_or.mpr ih
  | related relation filter ih => exact relationsIn_related.mpr ⟨trivial, ih⟩
  | _ => trivial

/-- The union of filters that is asked for next nests relations less deeply. -/
theorem nesting_lt_of_mem_subqueries {p : Predicate} {part : Relation × Predicate}
    (h : part ∈ p.subqueries) : part.2.nesting < p.nesting := by
  obtain ⟨⟨q, hq, _⟩, _, hfilter⟩ := of_mem_subqueries h
  have hpos := (mem_relatedParts p.relationsIn_true q hq).2.2
  have hle : part.2.nesting ≤ p.nesting - 1 := by
    rw [hfilter]
    refine nesting_any_le fun q hq => ?_
    have := (mem_filtersOn p.relationsIn_true hq).2
    omega
  omega

end Predicate

namespace Row

open AuthorizationError (liftConfiguration liftStore)

/-! ## Rows within rows -/

mutual

/-- How deeply related rows are nested in the row. -/
def depth : Row → Nat
  | .mk _ related => depthOfEntries related

def depthOfEntries : List (RelationKey × List Row) → Nat
  | [] => 0
  | (_, rows) :: rest => max (depthOfRows rows) (depthOfEntries rest)

def depthOfRows : List Row → Nat
  | [] => 0
  | row :: rest => max (depth row + 1) (depthOfRows rest)

end

theorem depthOfRows_le {rows : List Row} {n : Nat} (h : ∀ r ∈ rows, r.depth < n) :
    depthOfRows rows ≤ n := by
  induction rows with
  | nil => exact Nat.zero_le n
  | cons row rest ih =>
    obtain ⟨hrow, hrest⟩ := List.forall_mem_cons.mp h
    rw [depthOfRows]
    exact Nat.max_le.mpr ⟨hrow, ih hrest⟩

theorem depthOfEntries_le {related : List (RelationKey × List Row)} {n : Nat}
    (h : ∀ entry ∈ related, ∀ r ∈ entry.2, r.depth < n) : depthOfEntries related ≤ n := by
  induction related with
  | nil => exact Nat.zero_le n
  | cons entry rest ih =>
    obtain ⟨hentry, hrest⟩ := List.forall_mem_cons.mp h
    rw [depthOfEntries]
    exact Nat.max_le.mpr ⟨depthOfRows_le hentry, ih hrest⟩

theorem depth_le {row : Row} {n : Nat} (h : ∀ entry ∈ row.related, ∀ r ∈ entry.2, r.depth < n) :
    row.depth ≤ n := by
  obtain ⟨attributes, related⟩ := row
  rw [depth]
  exact depthOfEntries_le h

section

variable {registry : Registry} {ambient : Ambient}

theorem depth_of_loadLevels {levels : Nat} :
    ∀ {attributes : Json} {p : Predicate} {row : Row},
      loadLevels registry ambient levels attributes p = .ok row → row.depth ≤ levels := by
  induction levels with
  | zero =>
    intro attributes p row h
    rw [loadLevels] at h
    cases h
    exact Nat.le_refl 0
  | succ levels ih =>
    intro attributes p row h
    refine depth_le fun entry hentry r hr => ?_
    obtain ⟨part, _, hloaded⟩ := Outcome.exists_of_forall₂ (loadedFor_of_loadLevels h) entry hentry
    obtain ⟨entity, _, hr⟩ := Outcome.exists_of_forall₂ hloaded.rows r hr
    exact Nat.lt_succ_of_le (ih hr)

end

/-! ## Loading without counting levels -/

/-- The rows for one group: the related entities, each loaded by `next` for the filter of
the group. -/
def loadGroup (registry : Registry) (ambient : Ambient)
    (next : Json → Predicate → Except AuthorizationError Row) (attributes : Json)
    (part : Relation × Predicate) : Except AuthorizationError (List Row) :=
  match joinKey part.1 attributes with
  | none => .ok []
  | some key => do
    let loader ← liftConfiguration (registry.loader part.1.target)
    let entities ← liftStore (loader ambient.bypassing part.1.targetField key)
    entities.mapM fun entity => next entity part.2

/-- Puts the rows for one group after the other on a row, where rows for a key take the
place of those that the key had. -/
def loadGroups (registry : Registry) (ambient : Ambient)
    (next : Json → Predicate → Except AuthorizationError Row) :
    List (Relation × Predicate) → Row → Except AuthorizationError Row
  | [], row => .ok row
  | part :: rest, row => do
    let rows ← loadGroup registry ambient next row.attributes part
    loadGroups registry ambient next rest (row.withRelated part.1.key rows)

/-- The row with its entries the other way round.  An entry is put in front of those
before it. -/
def reversed (row : Row) : Row := .mk row.attributes row.related.reverse

/-- The function goes through the groups of a predicate and loads the rows in each of them
by itself. -/
def LoadsByGroups (registry : Registry) (ambient : Ambient)
    (f : Json → Predicate → Except AuthorizationError Row) : Prop :=
  ∀ attributes p, f attributes p =
    (loadGroups registry ambient f p.subqueries (ofAttributes attributes)).map reversed

/-- Loading for a predicate on an entity asks for the filter of a group on an entity that
is found for the group. -/
inductive AsksFor (registry : Registry) (ambient : Ambient) :
    Json × Predicate → Json × Predicate → Prop where
  | group {attributes entity : Json} {p : Predicate} {part : Relation × Predicate}
      (hpart : part ∈ p.subqueries)
      (hentity : entity ∈ relatedEntities registry ambient part.1 attributes) :
      AsksFor registry ambient (entity, part.2) (attributes, p)

section

variable {registry : Registry} {ambient : Ambient}
  {f g : Json → Predicate → Except AuthorizationError Row}

theorem wellFounded_asksFor (registry : Registry) (ambient : Ambient) :
    WellFounded (AsksFor registry ambient) := by
  refine Subrelation.wf (fun h => ?_) (measure fun request : Json × Predicate =>
    request.2.nesting).wf
  obtain ⟨hpart, _⟩ := h
  exact Predicate.nesting_lt_of_mem_subqueries hpart

theorem loadGroup_congr {attributes : Json} {part : Relation × Predicate}
    (h : ∀ entity ∈ relatedEntities registry ambient part.1 attributes,
      f entity part.2 = g entity part.2) :
    loadGroup registry ambient f attributes part =
      loadGroup registry ambient g attributes part := by
  rw [relatedEntities] at h
  rw [loadGroup, loadGroup]
  cases hkey : joinKey part.1 attributes with
  | none => rfl
  | some key =>
    rw [hkey] at h
    dsimp only at h ⊢
    cases hloader : registry.loader part.1.target with
    | error e => rfl
    | ok loader =>
      rw [hloader] at h
      dsimp only at h
      change (liftStore (loader ambient.bypassing part.1.targetField key) >>= _) =
        liftStore (loader ambient.bypassing part.1.targetField key) >>= _
      cases hentities : loader ambient.bypassing part.1.targetField key with
      | error e => rfl
      | ok entities =>
        rw [hentities] at h
        exact Outcome.mapM_congr h

/-- Going through groups depends on what is asked for alone. -/
theorem loadGroups_congr {parts : List (Relation × Predicate)} {row : Row}
    (h : ∀ part ∈ parts, ∀ entity ∈ relatedEntities registry ambient part.1 row.attributes,
      f entity part.2 = g entity part.2) :
    loadGroups registry ambient f parts row = loadGroups registry ambient g parts row := by
  induction parts generalizing row with
  | nil => rfl
  | cons part rest ih =>
    obtain ⟨hpart, hrest⟩ := List.forall_mem_cons.mp h
    rw [loadGroups, loadGroups, loadGroup_congr hpart]
    exact congrArg _ (funext fun rows => ih hrest)

theorem eq_of_loadsByGroups (hf : LoadsByGroups registry ambient f)
    (hg : LoadsByGroups registry ambient g) : f = g := by
  have hall : ∀ request : Json × Predicate, f request.1 request.2 = g request.1 request.2 := by
    intro request
    induction request using (wellFounded_asksFor registry ambient).induction with
    | h request ih =>
      obtain ⟨attributes, p⟩ := request
      rw [hf, hg, loadGroups_congr]
      intro part hpart entity hentity
      exact ih (entity, part.2) (.group hpart hentity)
  funext attributes p
  exact hall (attributes, p)

/-! ### No entry is replaced -/

theorem withRelated_of_fresh {row : Row} {key : RelationKey} (h : key ∉ row.related.map (·.1))
    (rows : List Row) :
    row.withRelated key rows = .mk row.attributes ((key, rows) :: row.related) := by
  have hkept : row.related.filter (fun entry => entry.1 != key) = row.related := by
    refine List.filter_eq_self.mpr fun entry hentry => ?_
    rw [bne_iff_ne]
    rintro rfl
    exact h (List.mem_map.mpr ⟨entry, hentry, rfl⟩)
  rw [withRelated, hkept]

/-- Where keys differ from each other and from those on the row, each group adds an entry to
those before it. -/
theorem loadGroups_eq {parts : List (Relation × Predicate)} {row : Row}
    (hnodup : (parts.map (·.1.key)).Nodup)
    (hfresh : ∀ part ∈ parts, part.1.key ∉ row.related.map (·.1)) :
    loadGroups registry ambient f parts row =
      (parts.mapM fun part => (loadGroup registry ambient f row.attributes part).map
        fun rows => (part.1.key, rows)).map
          fun entries => .mk row.attributes (entries.reverse ++ row.related) := by
  induction parts generalizing row with
  | nil =>
    rw [loadGroups, List.mapM_nil]
    cases row
    rfl
  | cons part rest ih =>
    rw [List.map_cons, List.nodup_cons] at hnodup
    obtain ⟨hpart, hrest⟩ := List.forall_mem_cons.mp hfresh
    have hstep : ∀ rows, loadGroups registry ambient f rest (row.withRelated part.1.key rows) =
        (rest.mapM fun part => (loadGroup registry ambient f row.attributes part).map
          fun rows => (part.1.key, rows)).map fun entries =>
            .mk row.attributes (entries.reverse ++ (part.1.key, rows) :: row.related) := by
      intro rows
      rw [withRelated_of_fresh hpart]
      refine ih hnodup.2 fun other hother => ?_
      rw [related, List.map_cons, List.mem_cons, not_or]
      refine ⟨fun hkey => hnodup.1 ?_, hrest other hother⟩
      exact List.mem_map.mpr ⟨other, hother, hkey⟩
    rw [loadGroups, List.mapM_cons]
    cases loadGroup registry ambient f row.attributes part with
    | error e => rfl
    | ok rows =>
      refine (hstep rows).trans ?_
      cases rest.mapM fun part => (loadGroup registry ambient f row.attributes part).map
          fun rows => (part.1.key, rows) with
      | error e => rfl
      | ok entries =>
        change Except.ok _ = Except.ok _
        simp only [List.reverse_cons, List.append_assoc, List.singleton_append]

/-- Going through the groups gives one entry for each of them, in their order. -/
theorem reversed_loadGroups (attributes : Json) (p : Predicate) :
    (loadGroups registry ambient f p.subqueries (ofAttributes attributes)).map reversed =
      (p.subqueries.mapM fun part => (loadGroup registry ambient f attributes part).map
        fun rows => (part.1.key, rows)).map (.mk attributes) := by
  rw [loadGroups_eq p.nodup_keys_subqueries fun part _ => List.not_mem_nil, Outcome.map_map]
  refine congrArg (fun build => Except.map build _) (funext fun entries => ?_)
  simp [reversed, ofAttributes, Row.attributes, Row.related]

/-! ### Levels suffice -/

theorem loadLevels_succ (levels : Nat) (attributes : Json) (p : Predicate) :
    loadLevels registry ambient (levels + 1) attributes p =
      (p.subqueries.mapM fun part =>
        (loadGroup registry ambient (loadLevels registry ambient levels) attributes part).map
          fun rows => (part.1.key, rows)).map (.mk attributes) := by
  rw [loadLevels, ← Outcome.bind_pure_eq_map]
  refine congrArg (· >>= fun related => pure (mk attributes related))
    (Outcome.mapM_congr fun part _ => ?_)
  rw [loadGroup]
  cases joinKey part.1 attributes with
  | none => rfl
  | some key =>
    dsimp only
    rw [Outcome.map_bind]
    refine congrArg (_ >>= ·) (funext fun loader => ?_)
    rw [Outcome.map_bind]
    exact congrArg (_ >>= ·) (funext fun entities => Outcome.bind_pure_eq_map _ _)

/-- Where no level is left, nothing is left to load either. -/
theorem loadLevels_eq {levels : Nat} :
    ∀ {attributes : Json} {p : Predicate}, p.nesting ≤ levels →
      loadLevels registry ambient levels attributes p =
        (p.subqueries.mapM fun part =>
          (loadGroup registry ambient (load registry ambient) attributes part).map
            fun rows => (part.1.key, rows)).map (.mk attributes) := by
  induction levels using Nat.strongRecOn with
  | ind levels ih =>
    intro attributes p hlevels
    cases levels with
    | zero =>
      have hnone : p.subqueries = [] := by
        refine List.eq_nil_iff_forall_not_mem.mpr fun part hpart => ?_
        have := Predicate.nesting_lt_of_mem_subqueries hpart
        omega
      rw [hnone, List.mapM_nil]
      rfl
    | succ levels =>
      rw [loadLevels_succ]
      refine congrArg (Except.map _) (Outcome.mapM_congr fun part hpart => ?_)
      have hnesting := Predicate.nesting_lt_of_mem_subqueries hpart
      -- The filter is loaded alike with the levels that are left and with those that it nests.
      rw [loadGroup_congr fun entity _ => ?_]
      rw [load, ih levels (Nat.lt_succ_self _) (by omega),
        ih part.2.nesting (by omega) (Nat.le_refl _)]

theorem loadsByGroups_load : LoadsByGroups registry ambient (load registry ambient) := by
  intro attributes p
  rw [reversed_loadGroups]
  exact loadLevels_eq (Nat.le_refl _)

/-! ### What is loaded -/

theorem joined_of_mem {row : Row} (hnodup : (row.related.map (·.1)).Nodup)
    {entry : RelationKey × List Row} (h : entry ∈ row.related) :
    row.joined entry.1 = entry.2 := by
  have hfind : row.related.find? (fun other => other.1 == entry.1) = some entry :=
    Predicate.find_of_mem Prod.fst hnodup h
  rw [joined, hfind]
  rfl

theorem keys_of_mapM {parts : List (Relation × Predicate)} {attributes : Json}
    {entries : List (RelationKey × List Row)}
    (h : (parts.mapM fun part => (loadGroup registry ambient f attributes part).map
      fun rows => (part.1.key, rows)) = .ok entries) :
    entries.map (·.1) = parts.map (·.1.key) := by
  refine Outcome.map_forall₂ (fun part entry hentry => ?_) (Outcome.forall₂_of_mapM h)
  obtain ⟨rows, _, rfl⟩ := Outcome.map_eq_ok.mp hentry
  rfl

/-- A loaded row has one entry for each group, with the rows that were loaded for it. -/
theorem groups_of_load {attributes : Json} {p : Predicate} {row : Row}
    (h : load registry ambient attributes p = .ok row) :
    row.related.map (·.1) = p.subqueries.map (·.1.key) ∧
      ∀ part ∈ p.subqueries, loadGroup registry ambient (load registry ambient) attributes part =
        .ok (row.joined part.1.key) := by
  rw [load, loadLevels_eq (Nat.le_refl _)] at h
  obtain ⟨entries, hentries, rfl⟩ := Outcome.map_eq_ok.mp h
  have hkeys := keys_of_mapM hentries
  have hnodup : ((Row.mk attributes entries).related.map (·.1)).Nodup := by
    rw [Row.related, hkeys]
    exact p.nodup_keys_subqueries
  refine ⟨hkeys, fun part hpart => ?_⟩
  obtain ⟨entry, hmem, hentry⟩ :=
    Outcome.exists_of_forall₂ (Outcome.forall₂_of_mapM hentries).flip part hpart
  obtain ⟨rows, hrows, rfl⟩ := Outcome.map_eq_ok.mp hentry
  have hjoined := joined_of_mem hnodup hmem
  rw [hrows, hjoined]

/-- Putting the rows of a group on a row that holds those of earlier groups takes away none
of them. -/
theorem related_withRelated_of_loadGroups {attributes : Json} {p : Predicate}
    {before after : List (Relation × Predicate)} {part : Relation × Predicate} {row : Row}
    (hparts : p.subqueries = before ++ part :: after)
    (h : loadGroups registry ambient f before (ofAttributes attributes) = .ok row)
    (rows : List Row) :
    (row.withRelated part.1.key rows).related = (part.1.key, rows) :: row.related := by
  have hnodup := p.nodup_keys_subqueries
  rw [hparts, List.map_append, List.map_cons, List.nodup_append] at hnodup
  obtain ⟨hbefore, _, hdisjoint⟩ := hnodup
  rw [loadGroups_eq hbefore fun _ _ => List.not_mem_nil] at h
  obtain ⟨entries, hentries, rfl⟩ := Outcome.map_eq_ok.mp h
  refine congrArg Row.related (withRelated_of_fresh (fun hkey => ?_) rows)
  rw [ofAttributes, Row.related, Row.related, List.append_nil, List.map_reverse, List.mem_reverse,
    keys_of_mapM hentries] at hkey
  exact hdisjoint _ hkey _ List.mem_cons_self rfl

/-- Loading comes to an end on every store, also where entities lead back to each other:
the one function that goes through the groups of a predicate and loads the rows in each of
them by itself is loading, and no chain of requests in it is endless.  The groups at a
level have different keys, which are those of the relations that the predicate ranges over
there, so no rows are put in place of others.  A row is nested no more deeply than the
predicate. -/
theorem load_ends (registry : Registry) (ambient : Ambient) :
    WellFounded (AsksFor registry ambient) ∧
    (∀ f, LoadsByGroups registry ambient f ↔ f = load registry ambient) ∧
    ∀ (attributes : Json) (p : Predicate),
      (∀ request, AsksFor registry ambient request (attributes, p) →
        request.2.nesting < p.nesting) ∧
      (p.subqueries.map (·.1.key)).Nodup ∧
      (∀ key, key ∈ p.subqueries.map (·.1.key) ↔
        ∃ relation filter, p.RangesOver relation filter ∧ relation.key = key) ∧
      (∀ before part after row, p.subqueries = before ++ part :: after →
        loadGroups registry ambient (load registry ambient) before (ofAttributes attributes) =
          .ok row →
        ∀ rows, (row.withRelated part.1.key rows).related = (part.1.key, rows) :: row.related) ∧
      ∀ row, load registry ambient attributes p = .ok row →
        row.depth ≤ p.nesting ∧
        row.related.map (·.1) = p.subqueries.map (·.1.key) ∧
        ∀ part ∈ p.subqueries,
          loadGroup registry ambient (load registry ambient) attributes part =
            .ok (row.joined part.1.key) := by
  refine ⟨wellFounded_asksFor registry ambient, fun f => ⟨fun hf => ?_, ?_⟩, fun attributes p =>
    ⟨?_, p.nodup_keys_subqueries, fun key => Predicate.mem_keys_subqueries, ?_, fun row h => ?_⟩⟩
  · exact eq_of_loadsByGroups hf loadsByGroups_load
  · rintro rfl
    exact loadsByGroups_load
  · rintro request ⟨hpart, _⟩
    exact Predicate.nesting_lt_of_mem_subqueries hpart
  · intro before part after row hparts h rows
    exact related_withRelated_of_loadGroups hparts h rows
  · exact ⟨depth_of_loadLevels h, groups_of_load h⟩

end

namespace Circular

open WorkflowKind (documentOfTask tasksOfDocument)

def task : Json := .object [("document_id", .string "d0"), ("id", .string "t0")]

def document : Json := .object [("id", .string "d0")]

/-- A task with a document to which the task belongs. -/
def registry : Registry :=
  (WorkflowKind.registry.withLoader WorkflowKind.task.type (memoryLoader [task])).withLoader
    WorkflowKind.document.type (memoryLoader [document])

/-- The document has a task with a document, and it is known by its identifier. -/
def roundTrip : Predicate :=
  .and [.related documentOfTask (.related tasksOfDocument (.related documentOfTask .always)),
    .related documentOfTask (.equal documentOfTask.targetField (.string "d0"))]

/-- The task as it is loaded, with its one group of documents. -/
def loaded : Row :=
  .mk task [(documentOfTask.key, [.mk document [(tasksOfDocument.key,
    [.mk task [(documentOfTask.key, [.mk document []])]])]])]

end Circular

open Circular in
/-- The task and its document lead to each other for ever, and are loaded three levels deep. -/
theorem load_ends_cycle :
    load registry .fresh task roundTrip = .ok loaded ∧ loaded.depth = 3 ∧
      loaded.depth ≤ roundTrip.nesting ∧
      loaded.related.map (·.1) = roundTrip.subqueries.map (·.1.key) := by
  have hload : load registry .fresh task roundTrip = .ok loaded := rfl
  obtain ⟨hdepth, hkeys, _⟩ :=
    ((load_ends registry .fresh).2.2 task roundTrip).2.2.2.2 loaded hload
  exact ⟨hload, rfl, hdepth, hkeys⟩

end Row
end AccessPolicy
