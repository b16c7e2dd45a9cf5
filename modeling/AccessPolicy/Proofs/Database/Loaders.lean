/-
Loaders over the store.

The loaders of a store that is sound find the entities whose text column equals a
text.  The entities to which its registry leads are therefore the ones that the
rows join, and a predicate means the same by way of the loaders as it means over
the stored entities.
-/
import AccessPolicy.Proofs.Database.Conditions
import AccessPolicy.Proofs.Predicate.Loading

namespace AccessPolicy
namespace Database

/-- The store is open and has a table for every kind. -/
structure Ready (db : Database) : Prop where
  opened : db.closed = false
  present : ∀ k, db.present.contains (tableName k) = true
  stored : ∀ k, ∃ t, db.entities.lookup (tableName k) = some t

/-- The value that identifies a row within its table. -/
def identifierOf (row : Sql.StoredRow) : Option Sql.Value :=
  (row.lookup "id").map Sql.Cell.toValue

/-- The store is ready, and its rows are well typed, told apart by their identifiers and
can be read back. -/
structure Sound (db : Database) : Prop extends Ready db where
  typed : Sql.WellTyped db.entities
  distinct : ∀ k t, db.entities.lookup (tableName k) = some t → (t.rows.map identifierOf).Nodup
  readsBack : ∀ k t, db.entities.lookup (tableName k) = some t →
    ∀ row ∈ t.rows, (Stored.mk k row).ReadsBack

variable {db : Database}

theorem require_of_ready (h : db.Ready) (k : WorkflowKind) : db.require [tableName k] = .ok () := by
  have hfind : ([tableName k].find? fun t => !db.present.contains t) = none := by
    rw [List.find?_eq_none]
    intro t ht
    rw [List.mem_singleton.mp ht, h.present k]
    decide
  rw [require, h.opened, hfind]
  rfl

theorem loader_registry (db : Database) (k : WorkflowKind) :
    db.registry.loader k.type = .ok (db.loader k.type) := by
  cases k <;> rfl

theorem get_mappings_type (k : WorkflowKind) : mappings.get k.type = .ok (mapping k) := by
  cases k <;> rfl

/-- A condition is read as what its tokens read as, within the bounds of the store. -/
theorem readable_of_reads {condition : Sql.Fragment} {e : Sql.Expr}
    (hreads : Sql.Expr.Reads .disjunction condition.tokens (condition.binds.map .ofJson) e)
    (hbinds : condition.binds.length ≤ Sql.parameterLimit)
    (hpeak : Sql.Expr.queryPrefix + e.peak ≤ Sql.Expr.stackLimit)
    (hheight : e.height + e.nestedHeight ≤ Sql.Expr.heightLimit) :
    readable condition = .ok e := by
  have hreadable : e.isReadable = true := by
    rw [Sql.Expr.isReadable, Bool.and_eq_true]
    exact ⟨decide_eq_true hpeak, decide_eq_true hheight⟩
  rw [readable, if_pos hbinds, Sql.Expr.read?_of_reads hreads]
  simp only [hreadable, if_true]

theorem peak_column_le (c : Sql.ColumnRef) : c.peak ≤ 6 := by
  rw [Sql.ColumnRef.peak]
  split <;> decide

theorem height_column_le (c : Sql.ColumnRef) : c.height ≤ 3 := by
  rw [Sql.ColumnRef.height]
  split <;> decide

/-- One value is not too many. -/
theorem length_singleton_le (value : Json) : [value].length ≤ Sql.parameterLimit := by
  rw [Sql.parameterLimit]
  exact Nat.le_of_ble_eq_true rfl

/-- The condition of a loader is one that the store can read. -/
theorem readable_equalityOf (c : Sql.ColumnRef) (value : Json) :
    readable (equalityOf c value) =
      .ok (.compare .equal (.column c) (.value (.ofJson value))) := by
  have hpeak := peak_column_le c
  have hheight := height_column_le c
  refine readable_of_reads
    (.disjunct (.conjunct (.compare .equal (.column c) (.parameter (.ofJson value)))))
    (length_singleton_le value) ?_ ?_
  · simp only [Sql.Expr.peak, Sql.Operand.peak, Sql.Expr.queryPrefix, Sql.Expr.stackLimit]
    omega
  · simp only [Sql.Expr.height, Sql.Operand.height, Sql.Expr.nestedHeight, Sql.Expr.heightLimit]
    omega

theorem readEntity_eq_ok {mapping : Sql.TableMapping} {row : Sql.StoredRow} {entity : Json}
    (h : readEntity mapping row = .ok entity) : entity = entityOf mapping row := by
  rw [readEntity] at h
  split at h
  · cases h
    rfl
  · cases h

/-- Rows are read as their entities, if they are read at all. -/
theorem eq_map_of_mapM_readEntity {mapping : Sql.TableMapping} {rows : List Sql.StoredRow}
    {entities : List Json} (h : rows.mapM (readEntity mapping) = .ok entities) :
    entities = rows.map (entityOf mapping) := by
  have hread : entities.map id = rows.map (entityOf mapping) :=
    Outcome.map_forall₂ (fun _ _ h => readEntity_eq_ok h) (Outcome.forall₂_of_mapM h)
  rw [← hread, List.map_id]

/-- A condition that names no further table selects among the rows of a kind. -/
theorem select_of_readable (hdb : db.Sound) {k : WorkflowKind} {t : Sql.Table}
    (ht : db.entities.lookup (tableName k) = some t) {condition : Sql.Fragment} {e : Sql.Expr}
    (hreadable : readable condition = .ok e) (htables : e.tables = []) :
    db.select (mapping k) condition =
      .ok ((t.select db.entities e).map (entityOf (mapping k))) := by
  have hrequire : db.require [(mapping k).table] = .ok () := require_of_ready hdb.toReady k
  have hlookup : db.entities.lookup (mapping k).table = some t := ht
  have hread : ∀ row ∈ t.select db.entities e,
      readEntity (mapping k) row = .ok (entityOf (mapping k) row) := fun row hrow =>
    if_pos (hdb.readsBack k t ht row (List.mem_of_mem_filter hrow))
  rw [select, hreadable]
  simp only [htables, hrequire, hlookup]
  exact (Outcome.mapM_congr hread).trans List.mapM_pure

/-- The entities of the selected rows are the stored entities on whose rows the condition
is true. -/
theorem map_entityOf_select (htables : Sql.WellTyped db.entities) {k : WorkflowKind} {t : Sql.Table}
    (ht : db.entities.lookup (tableName k) = some t) (e : Sql.Expr) :
    (t.select db.entities e).map (entityOf (mapping k)) =
      ((Stored.ofType db.entities k.type).filter fun x =>
        e.eval db.entities [x.site.binding 0] == some true).map Stored.entity := by
  have hrows : Stored.ofType db.entities k.type = t.rows.map (Stored.mk k) := by
    rw [Stored.ofType, Stored.find_type]
    simp only [ht]
  rw [hrows, Sql.Table.select, List.filter_map, List.map_map]
  refine congrArg (List.map _) (List.filter_congr fun row _ => ?_)
  have hbinding : Sql.Binding.mk 0 t.columns row = (Stored.mk k row).site.binding 0 := by
    rw [htables.columns k t ht]
    rfl
  rw [hbinding]
  rfl

/-- A loader finds the entities on whose rows the field equals the value, under the
affinity of the column. -/
theorem findByField_eq (hdb : db.Sound) {k : WorkflowKind} {field : FieldPath}
    (hfield : (mapping k).locate k.type field = .ok ()) (v : Json) :
    db.findByField k.type field v =
      .ok (((Stored.ofType db.entities k.type).filter fun x =>
        (x.site.value field).test .equal (x.site.affinity field) (.ofJson v) .none ==
          some true).map Stored.entity) := by
  obtain ⟨t, ht⟩ := hdb.stored k
  have hselect : db.findByField k.type field v =
      .ok ((t.select db.entities (.compare .equal (.column (Sql.Fragment.columnOf 0 field))
        (.value (.ofJson v)))).map (entityOf (mapping k))) := by
    rw [findByField, get_mappings_type]
    change ((Except.mapError StoreError.configuration
      (((mapping k).locate k.type field).map fun _ => Sql.Fragment.columnOf 0 field)) >>= fun c =>
        db.select (mapping k) (equalityOf c v)) = _
    rw [hfield]
    exact select_of_readable hdb ht (readable_equalityOf _ _) rfl
  rw [hselect, map_entityOf_select hdb.typed ht]
  refine congrArg Except.ok (congrArg (List.map _) (List.filter_congr fun x _ => ?_))
  have hbound := x.site.boundIn_cons 0 []
  rw [Sql.Expr.eval]
  simp only [Sql.Operand.eval, Sql.Operand.affinity, Sql.Site.value_column hbound,
    Sql.Site.affinity_column hbound]

/-- A field with a place in the table of a kind has it in the rows of that kind. -/
theorem locate_of_mem {tables : List (String × Sql.Table)} {k : WorkflowKind} {field : FieldPath}
    (hfield : (mapping k).locate k.type field = .ok ()) {x : Stored}
    (hx : x ∈ Stored.ofType tables k.type) :
    (mapping x.kind).locate x.kind.type field = .ok () := by
  have hlocated : Sql.Located mappings x.kind.type field :=
    (Stored.kind_of_mem_ofType hx).symm ▸ ⟨mapping k, get_mappings_type k, hfield⟩
  exact Stored.locate_of_located hlocated

/-- A loader finds the entities whose text column equals the text. -/
theorem findByField_text (hdb : db.Sound) {k : WorkflowKind} {field : FieldPath}
    (htext : field.isText = true) (hfield : (mapping k).locate k.type field = .ok ())
    (s : String) :
    db.findByField k.type field (.string s) =
      .ok (((Stored.ofType db.entities k.type).filter fun y =>
        y.textAt field == some s).map Stored.entity) := by
  rw [findByField_eq hdb hfield]
  refine congrArg Except.ok (congrArg (List.map _) (List.filter_congr fun y hy => ?_))
  obtain ⟨haffinity, hvalue⟩ := Stored.value_of_isText (hdb.typed.of_mem_ofType hy)
    (locate_of_mem hfield hy) htext
  rw [haffinity]
  obtain ⟨hnone, hnull⟩ | ⟨u, hsome, htext⟩ := hvalue
  · rw [hnull, hnone]
    rfl
  · rw [htext, hsome]
    change (Sql.Value.test .equal (.text u) .none (.text s) .none == some true) = _
    rw [Sql.test_text_equal, Option.some_beq_some, Option.some_beq_some]
    cases u == s <;> rfl

/-! ## Relations of the store -/

theorem joinsTexts_of_registers {relation : Relation} (h : db.registry.Registers relation) :
    relation.JoinsTexts := by
  have hall : WorkflowKind.registry.relations.all
      (fun r => r.sourceField.isText && r.targetField.isText) = true := by decide
  rw [Registry.Registers, Registry.relation] at h
  split at h
  · rename_i found hfound
    cases h
    have hmem := List.all_eq_true.mp hall relation (List.mem_of_find?_eq_some hfound)
    rwa [Bool.and_eq_true] at hmem
  · cases h

/-- An entity is joined by the text in the column of the relation's source. -/
theorem joinKey_entity (htables : Sql.WellTyped db.entities) {type : ResourceType} {x : Stored}
    (hx : x ∈ Stored.ofType db.entities type) {relation : Relation}
    (hsource : Sql.Located mappings type relation.sourceField)
    (htext : relation.sourceField.isText = true) :
    Row.joinKey relation x.entity = (x.textAt relation.sourceField).map .string := by
  obtain rfl := Stored.kind_of_mem_ofType hx
  obtain ⟨hnested, f, hf, hroot, _, hcell⟩ := Stored.cell_of_isText (htables.of_mem_ofType hx)
    (Stored.locate_of_located hsource) htext
  rw [Row.joinKey, Stored.textAt, ← hroot]
  obtain hcell | ⟨s, hcell⟩ := hcell
  · rw [Stored.resolve_entity hf hroot hcell, hnested, hcell]
    rfl
  · rw [Stored.resolve_entity hf hroot hcell, hnested, hcell]
    rfl

/-- The loaders find the entities that the rows join. -/
theorem relatedEntities_entity (hdb : db.Sound) {ambient : Ambient} {type : ResourceType} {x : Stored}
    (hx : x ∈ Stored.ofType db.entities type) {relation : Relation}
    (hsource : Sql.Located mappings type relation.sourceField)
    (htarget : Sql.Located mappings relation.target relation.targetField)
    (hrelation : relation.JoinsTexts) :
    Row.relatedEntities db.registry ambient relation x.entity =
      (Stored.joined db.entities relation x).map Stored.entity := by
  rw [Row.relatedEntities, joinKey_entity hdb.typed hx hsource hrelation.1]
  obtain ⟨m, hget, hlocate⟩ := htarget
  obtain ⟨k, _, hk, rfl⟩ := Stored.get_mappings hget
  cases htextAt : x.textAt relation.sourceField with
  | none =>
    have hnone : Stored.joined db.entities relation x = [] := by
      rw [Stored.joined, List.filter_eq_nil_iff]
      intro y _
      rw [htextAt]
      exact Bool.false_ne_true
    rw [hnone]
    rfl
  | some s =>
    rw [← hk] at hlocate ⊢
    simp only [Option.map_some, loader_registry, loader,
      findByField_text hdb hrelation.2 hlocate s]
    rw [Stored.joined, ← hk, htextAt]
    refine congrArg (List.map Stored.entity) (List.filter_congr fun y _ => ?_)
    cases y.textAt relation.targetField with
    | none => rfl
    | some t => exact Bool.beq_comm

/-- A predicate means the same by way of the loaders as over the stored entities. -/
theorem satisfies_entity (hdb : db.Sound) {ambient : Ambient} {type : ResourceType} {p : Predicate} {x : Stored}
    (hx : x ∈ Stored.ofType db.entities type) (hlocated : Sql.AllLocated mappings type p)
    (hp : p.DrawnFrom db.registry) :
    Predicate.satisfies (db.registry.interpretation ambient) p x.entity =
      Predicate.satisfies (Stored.interpretation id db.entities) p x := by
  have halong := hlocated.and (fun _ _ _ _ h h' => h'.1.trans h.1.symm)
    (Predicate.along_of_relationsIn Relation.target hp)
  refine (Predicate.satisfies_eq_of_along
    (R := fun type y v => v = y.entity ∧ y ∈ Stored.ofType db.entities type)
    ?_ ?_ ?_ halong ⟨rfl, hx⟩).symm
  · rintro type y _ field comparison value ⟨rfl, _⟩ _
    rfl
  · rintro type y _ field values ⟨rfl, _⟩ _
    rfl
  · rintro type y _ relation target ⟨rfl, hy⟩ ⟨⟨rfl, hsource, htarget⟩, _, hrelation⟩
    change List.Forall₂ _ (Stored.joined db.entities relation y)
      (Row.relatedEntities db.registry ambient relation y.entity)
    rw [relatedEntities_entity hdb hy hsource htarget
      (joinsTexts_of_registers hrelation)]
    refine List.forall₂_map_right_iff.mpr (List.forall₂_same.mpr fun z hz => ⟨rfl, ?_⟩)
    exact (List.mem_filter.mp hz).1

end Database
end AccessPolicy
