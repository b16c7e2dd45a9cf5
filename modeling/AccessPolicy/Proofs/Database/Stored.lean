/-
Stored entities.

The store keeps an entity as a row whose cells fit the shapes of the entity's
fields.  A stored value then stands for the attribute that the entity shows, and
texts below a document are seen by the store only up to a NUL.
-/
import AccessPolicy.Proofs.FieldPaths
import AccessPolicy.Proofs.Json.Members
import AccessPolicy.Proofs.Json.Records
import AccessPolicy.Proofs.Outcome

namespace AccessPolicy

namespace Sql

/-- The cell is one that a column for attributes of the shape holds. -/
inductive Fits : Json.Shape → Cell → Prop where
  | null {shape : Json.Shape} (h : shape ≠ .document) : Fits shape (.value .null)
  | text (s : String) : Fits .text (.value (.text s))
  | optionalText (s : String) : Fits .optionalText (.value (.text s))
  | integer (n : Int) : Fits .integer (.value (.integer n))
  | document {d : Json} (h : d.DistinctKeys) : Fits .document (.document d)

/-- The cell with the texts of a document up to a NUL. -/
def Cell.untilNul : Cell → Cell
  | .document d => .document d.untilNul
  | cell => cell

end Sql

/-- An entity of a kind as a row of its table. -/
structure Stored where
  kind : WorkflowKind
  row : Sql.StoredRow

namespace Stored

open Sql (Stands)

/-- The row as conditions range over it. -/
def site (x : Stored) : Sql.Site := ⟨Database.columns x.kind, x.row⟩

/-- The attributes of the entity. -/
def entity (x : Stored) : Json := Database.entityOf (Database.mapping x.kind) x.row

/-- The row with the texts of its documents up to a NUL. -/
def untilNul (x : Stored) : Stored :=
  { x with row := x.row.map fun c => (c.1, c.2.untilNul) }

/-- The attributes of the entity can be read from their text. -/
def ReadsBack (x : Stored) : Prop :=
  (Database.attributesOf (Database.mapping x.kind) x.row).nesting < Json.Reader.nestingLimit

instance (x : Stored) : Decidable x.ReadsBack :=
  inferInstanceAs (Decidable (_ < Json.Reader.nestingLimit))

/-- Every column of the kind holds a cell that fits it. -/
def WellTyped (x : Stored) : Prop :=
  ∀ f ∈ x.kind.fields, ∃ cell, x.row.lookup f.1 = some cell ∧ Sql.Fits f.2.2 cell

/-! ## Columns of a kind -/

theorem nodup_fields (k : WorkflowKind) : (k.fields.map (·.1)).Nodup := by
  cases k <;> decide

theorem lookup_columns {k : WorkflowKind} {f : String × Json.Presence × Json.Shape}
    (h : f ∈ k.fields) : (Database.columns k).lookup f.1 = some (Database.affinityOf f.2.2) := by
  refine Json.lookup_of_mem ?_ (List.mem_map.mpr ⟨f, h, rfl⟩)
  rw [Database.columns, List.map_map]
  exact nodup_fields k

theorem lookup_map {α β : Type} (change : α → β) (name : String) (l : List (String × α)) :
    (l.map fun c => (c.1, change c.2)).lookup name = (l.lookup name).map change := by
  induction l with
  | nil => rfl
  | cons c rest ih =>
    rw [List.map_cons, List.lookup_cons, List.lookup_cons, ih]
    cases name == c.1 <;> rfl

theorem document_of_mem {k : WorkflowKind} {f : String × Json.Presence × Json.Shape}
    (hf : f ∈ k.fields) (h : f.1 ∈ k.documentFields) : f.2.2 = .document := by
  cases k with
  | document =>
    simp only [WorkflowKind.documentFields, List.mem_singleton] at h
    simp only [WorkflowKind.fields, List.mem_cons, List.not_mem_nil, or_false] at hf
    rcases hf with rfl | rfl | rfl | rfl | rfl
    · exact absurd h (by decide)
    · exact absurd h (by decide)
    · exact absurd h (by decide)
    · exact absurd h (by decide)
    · rfl
  | _ => cases h

/-- A field with a place in the table of a kind is one of the kind's, and only a
document has members. -/
theorem field_of_locate {k : WorkflowKind} {type : ResourceType} {field : FieldPath}
    (h : (Database.mapping k).locate type field = .ok ()) :
    ∃ f ∈ k.fields, f.1 = field.root ∧ (field.nested ≠ [] → f.2.2 = .document) := by
  rw [Sql.TableMapping.locate] at h
  split at h
  · rename_i hcolumn
    obtain ⟨f, hf, hroot⟩ := List.mem_map.mp (List.contains_iff_mem.mp hcolumn)
    refine ⟨f, hf, hroot, fun hnested => ?_⟩
    split at h
    · rename_i hplace
      rw [Bool.or_eq_true] at hplace
      obtain hempty | hdocument := hplace
      · exact absurd (List.isEmpty_iff.mp hempty) hnested
      · exact document_of_mem hf (hroot ▸ List.contains_iff_mem.mp hdocument)
    · cases h
  · cases h

/-! ## Attributes -/

theorem resolve_entity {x : Stored} {f : String × Json.Presence × Json.Shape}
    (hf : f ∈ x.kind.fields) {field : FieldPath} (hroot : f.1 = field.root) {cell : Sql.Cell}
    (hcell : x.row.lookup f.1 = some cell) :
    field.resolve x.entity =
      FieldPath.descend field.nested (Database.cellJson cell).canonical := by
  have hkeys : (((x.kind.fields.map (·.1)).map fun c =>
      (c, ((x.row.lookup c).map Database.cellJson).getD Json.null)).map (·.1)).Nodup := by
    rw [List.map_map]
    exact (List.map_id _).symm ▸ nodup_fields x.kind
  have hget : ((Json.object ((x.kind.fields.map (·.1)).map fun c =>
      (c, ((x.row.lookup c).map Database.cellJson).getD Json.null))).get? field.root) =
        some (Database.cellJson cell) := by
    rw [Json.get?_eq_lookup, ← hroot]
    refine Json.lookup_of_mem hkeys (List.mem_map.mpr ⟨f.1, List.mem_map.mpr ⟨f, hf, rfl⟩, ?_⟩)
    rw [hcell]
    rfl
  rw [FieldPath.resolve, FieldPath.segments, FieldPath.descend, entity, Database.entityOf,
    Database.attributesOf]
  change (Option.bind ((Json.object ((x.kind.fields.map (·.1)).map fun c =>
      (c, ((x.row.lookup c).map Database.cellJson).getD Json.null))).canonical.get? field.root)
        (FieldPath.descend field.nested)) = _
  rw [Json.get?_canonical hkeys, hget]
  rfl

theorem site_value {x : Stored} {f : String × Json.Presence × Json.Shape} {field : FieldPath}
    (hroot : f.1 = field.root) {cell : Sql.Cell} (hcell : x.row.lookup f.1 = some cell) :
    x.site.value field =
      if field.nested.isEmpty then cell.toValue else cell.extract field.nested := by
  rw [Sql.Site.value, ← hroot]
  simp only [site, hcell]

theorem site_affinity {x : Stored} {f : String × Json.Presence × Json.Shape}
    (hf : f ∈ x.kind.fields) {field : FieldPath} (hroot : f.1 = field.root) :
    x.site.affinity field =
      if field.nested.isEmpty then Database.affinityOf f.2.2 else .none := by
  rw [Sql.Site.affinity, ← hroot]
  change (if field.nested.isEmpty then
    ((Database.columns x.kind).lookup f.1).getD .none else .none) = _
  rw [lookup_columns hf]
  rfl

/-! ## Standing -/

/-- What conditions on the field compare in this row is plain.  A document as a
whole is not. -/
def PlainAt (x : Stored) (field : FieldPath) : Prop :=
  match x.row.lookup field.root with
  | some (.document d) =>
    field.nested ≠ [] ∧ ∀ v, FieldPath.descend field.nested d = some v → v.isPlain = true
  | some (.value (.integer n)) => n.natAbs ≤ Binary64.exactLimit
  | _ => True

theorem lookup_untilNul {x : Stored} {name : String} {cell : Sql.Cell}
    (h : x.row.lookup name = some cell) : x.untilNul.row.lookup name = some cell.untilNul := by
  rw [untilNul, lookup_map, h]
  rfl

theorem stands_extracted {affinity : Sql.Affinity} {v : Json} (h : v.isPlain = true)
    (haffinity : affinity = .none) :
    Stands affinity (Sql.Value.ofStored v) (some v.untilNul) := by
  subst haffinity
  cases v with
  | null => exact .null
  | bool b => exact .number (.bool b) (by decide)
  | string s => exact .text _ (by decide)
  | number n =>
    cases n with
    | integer n =>
      have hexact : n.natAbs ≤ Binary64.exactLimit := of_decide_eq_true h
      rw [Sql.Value.ofStored, if_pos (Json.isSigned_of_exact hexact)]
      exact .number (.integer hexact) (by decide)
    | double x => cases h
  | array items => cases h
  | object members => cases h

/-- Up to NULs in a document, what a condition compares stands for the attribute. -/
theorem stands_untilNul {x : Stored} (hx : x.WellTyped) {type : ResourceType} {field : FieldPath}
    (hfield : (Database.mapping x.kind).locate type field = .ok ()) (hplain : x.PlainAt field) :
    Stands (x.site.affinity field) (x.site.value field) (field.resolve x.untilNul.entity) := by
  obtain ⟨f, hf, hroot, hnested⟩ := field_of_locate hfield
  obtain ⟨cell, hcell, hfits⟩ := hx f hf
  rw [resolve_entity (show f ∈ x.untilNul.kind.fields from hf) hroot (lookup_untilNul hcell)]
  rw [PlainAt, ← hroot, hcell] at hplain
  rw [site_value hroot hcell, site_affinity hf hroot]
  generalize f.2.2 = shape at hfits hnested
  -- Only a document has members, so a field of any other column is the column.
  cases hfits with
  | null hshape =>
    have hempty : field.nested = [] := not_imp_comm.mp hnested hshape
    rw [hempty]
    exact .null
  | text s =>
    have hempty : field.nested = [] := not_imp_comm.mp hnested (by intro h; cases h)
    rw [hempty]
    exact .text s (by decide)
  | optionalText s =>
    have hempty : field.nested = [] := not_imp_comm.mp hnested (by intro h; cases h)
    rw [hempty]
    exact .text s (by decide)
  | integer n =>
    have hempty : field.nested = [] := not_imp_comm.mp hnested (by intro h; cases h)
    rw [hempty]
    exact .number (.integer hplain) (by decide)
  | @document d hkeys =>
    have hne : field.nested.isEmpty = false := List.isEmpty_eq_false_iff.mpr hplain.1
    rw [hne]
    change Stands .none ((Sql.Cell.document d).extract field.nested)
      (FieldPath.descend field.nested d.untilNul.reread.canonical)
    rw [Sql.Cell.extract, Json.descend_loaded _ hkeys.untilNul, Json.descend_untilNul, Option.map_map]
    cases hv : FieldPath.descend field.nested d with
    | none => exact .absent
    | some v =>
      have hv' := hplain.2 v hv
      rw [Option.map_some, Function.comp_apply, Json.loaded_of_isPlain (Json.isPlain_untilNul hv')]
      exact stands_extracted hv' rfl

end Stored
end AccessPolicy
