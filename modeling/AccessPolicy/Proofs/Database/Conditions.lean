/-
Conditions on stored entities.

A predicate is rendered over the tables of the store and means the same over the
entities that the rows stand for, as far as it compares plain values and joins
text columns.  The one difference left is that the store ends a text in a
document at its first NUL.
-/
import AccessPolicy.Proofs.Database.Records
import AccessPolicy.Proofs.Sql.Rendering
import AccessPolicy.Proofs.Predicate.Subqueries

namespace AccessPolicy

open Sql (Located)

/-! ## Text columns -/

/-- Attributes of the shape are texts. -/
def Json.Shape.isText : Json.Shape → Bool
  | .text => true
  | .optionalText => true
  | _ => false

/-- The field is a column that holds texts. -/
def FieldPath.isText (field : FieldPath) : Bool :=
  field.nested.isEmpty && WorkflowKind.all.any fun k =>
    k.fields.any fun f => f.1 == field.root && f.2.2.isText

/-- The relation joins text columns. -/
def Relation.JoinsTexts (r : Relation) : Prop :=
  r.sourceField.isText = true ∧ r.targetField.isText = true

namespace Stored

variable {tables : List (String × Sql.Table)}

/-- A name that is of a text column in one kind is so in every kind. -/
theorem isText_of_name_eq (k l : WorkflowKind) :
    ∀ f ∈ k.fields, ∀ g ∈ l.fields, f.1 = g.1 → f.2.2.isText = true → g.2.2.isText = true := by
  cases k <;> cases l <;> decide

/-- The text in the column of a field. -/
def textAt (x : Stored) (field : FieldPath) : Option String :=
  match x.row.lookup field.root with
  | some (.value (.text s)) => some s
  | _ => none

/-- A text column holds a text or null. -/
theorem cell_of_isText {x : Stored} (hx : x.WellTyped) {type : ResourceType} {field : FieldPath}
    (hfield : (Database.mapping x.kind).locate type field = .ok ())
    (htext : field.isText = true) :
    field.nested = [] ∧ ∃ f ∈ x.kind.fields, f.1 = field.root ∧
      Database.affinityOf f.2.2 = .text ∧
      (x.row.lookup f.1 = some (.value .null) ∨
        ∃ s, x.row.lookup f.1 = some (.value (.text s))) := by
  rw [FieldPath.isText, Bool.and_eq_true, List.any_eq_true] at htext
  obtain ⟨hempty, k, _, htext⟩ := htext
  obtain ⟨g, hg, htext⟩ := List.any_eq_true.mp htext
  rw [Bool.and_eq_true, beq_iff_eq] at htext
  obtain ⟨f, hf, hroot, _⟩ := field_of_locate hfield
  obtain ⟨cell, hcell, hfits⟩ := hx f hf
  have hftext : f.2.2.isText = true :=
    isText_of_name_eq k x.kind g hg f hf (htext.1.trans hroot.symm) htext.2
  refine ⟨List.isEmpty_iff.mp hempty, f, hf, hroot, ?_⟩
  rw [hcell]
  generalize f.2.2 = shape at hfits hftext
  cases hfits with
  | null _ =>
    refine ⟨?_, .inl rfl⟩
    cases shape with
    | text => rfl
    | optionalText => rfl
    | _ => cases hftext
  | text s => exact ⟨rfl, .inr ⟨s, rfl⟩⟩
  | optionalText s => exact ⟨rfl, .inr ⟨s, rfl⟩⟩
  | integer n => cases hftext
  | document _ => cases hftext

theorem value_of_isText {x : Stored} (hx : x.WellTyped) {type : ResourceType} {field : FieldPath}
    (hfield : (Database.mapping x.kind).locate type field = .ok ())
    (htext : field.isText = true) :
    x.site.affinity field = .text ∧
      ((x.textAt field = none ∧ x.site.value field = .null) ∨
        ∃ s, x.textAt field = some s ∧ x.site.value field = .text s) := by
  obtain ⟨hnested, f, hf, hroot, haffinity, hcell⟩ := cell_of_isText hx hfield htext
  rw [site_affinity hf hroot, hnested, haffinity]
  refine ⟨rfl, ?_⟩
  obtain hcell | ⟨s, hcell⟩ := hcell
  · rw [site_value hroot hcell, hnested, textAt, ← hroot, hcell]
    exact .inl ⟨rfl, rfl⟩
  · rw [site_value hroot hcell, hnested, textAt, ← hroot, hcell]
    exact .inr ⟨s, rfl, rfl⟩

/-! ## Entities of a type -/

/-- The entities of a type, in the order of their rows. -/
def ofType (tables : List (String × Sql.Table)) (type : ResourceType) : List Stored :=
  match WorkflowKind.all.find? fun k => k.type = type with
  | none => []
  | some k =>
    match tables.lookup (Database.tableName k) with
    | none => []
    | some t => t.rows.map (Stored.mk k)

/-- The entities that a relation joins to an entity: those with the same text in
the other field. -/
def joined (tables : List (String × Sql.Table)) (relation : Relation) (x : Stored) :
    List Stored :=
  (ofType tables relation.target).filter fun y =>
    match x.textAt relation.sourceField, y.textAt relation.targetField with
    | some s, some t => s == t
    | _, _ => false

/-- Predicates over stored entities, seen as a view shows them. -/
def interpretation (view : Stored → Stored) (tables : List (String × Sql.Table)) :
    Predicate.Interpretation Stored :=
  .onAttributes (fun x => (view x).entity) (joined tables)

end Stored

namespace Sql

/-- The tables of the kinds have their columns, and their rows are well typed. -/
structure WellTyped (tables : List (String × Table)) : Prop where
  columns : ∀ k t, tables.lookup (Database.tableName k) = some t → t.columns = Database.columns k
  rows : ∀ k t, tables.lookup (Database.tableName k) = some t →
    ∀ row ∈ t.rows, (Stored.mk k row).WellTyped

theorem WellTyped.of_mem_ofType {tables : List (String × Table)} (h : WellTyped tables)
    {type : ResourceType} {x : Stored} (hx : x ∈ Stored.ofType tables type) : x.WellTyped := by
  rw [Stored.ofType] at hx
  split at hx
  · cases hx
  · rename_i k _
    split at hx
    · cases hx
    · rename_i t ht
      obtain ⟨row, hrow, rfl⟩ := List.mem_map.mp hx
      exact h.rows k t ht row hrow

end Sql

namespace Stored

variable {tables : List (String × Sql.Table)}

theorem get_mappings {type : ResourceType} {m : Sql.TableMapping}
    (h : Database.mappings.get type = .ok m) :
    ∃ k, (WorkflowKind.all.find? fun k => k.type = type) = some k ∧ k.type = type ∧
      m = Database.mapping k := by
  rw [Sql.TableMappings.get, Database.mappings, List.find?_map] at h
  have hcomp : ((fun m : ResourceType × Sql.TableMapping => m.1 == type) ∘
      fun k => (WorkflowKind.type k, Database.mapping k)) = fun k => decide (k.type = type) := by
    funext k
    rw [Function.comp_apply, Bool.eq_iff_iff, beq_iff_eq, decide_eq_true_iff]
  rw [hcomp] at h
  cases hfind : WorkflowKind.all.find? fun k => decide (k.type = type) with
  | none => rw [hfind] at h; cases h
  | some k =>
    rw [hfind] at h
    cases h
    have htype := List.find?_some hfind
    exact ⟨k, rfl, of_decide_eq_true htype, rfl⟩

theorem find_type (k : WorkflowKind) :
    (WorkflowKind.all.find? fun l => l.type = k.type) = some k := by
  cases k <;> decide

theorem kind_of_mem_ofType {type : ResourceType} {x : Stored} (h : x ∈ ofType tables type) :
    x.kind.type = type := by
  rw [ofType] at h
  split at h
  · cases h
  · rename_i k hfind
    have htype := List.find?_some hfind
    split at h
    · cases h
    · obtain ⟨row, _, rfl⟩ := List.mem_map.mp h
      exact of_decide_eq_true htype

theorem locate_of_located {k : WorkflowKind} {field : FieldPath}
    (h : Located Database.mappings k.type field) :
    (Database.mapping k).locate k.type field = .ok () := by
  obtain ⟨m, hget, hlocate⟩ := h
  obtain ⟨l, hfind, _, rfl⟩ := get_mappings hget
  rw [find_type] at hfind
  cases hfind
  exact hlocate

/-- Joining by text columns compares the texts. -/
theorem joins_site {x y : Stored} (hx : x.WellTyped) (hy : y.WellTyped) {relation : Relation}
    (hrelation : relation.JoinsTexts) {source target : ResourceType}
    (hsource : (Database.mapping x.kind).locate source relation.sourceField = .ok ())
    (htarget : (Database.mapping y.kind).locate target relation.targetField = .ok ()) :
    x.site.joins relation y.site =
      match x.textAt relation.sourceField, y.textAt relation.targetField with
      | some s, some t => s == t
      | _, _ => false := by
  obtain ⟨hxaffinity, hxvalue⟩ := value_of_isText hx hsource hrelation.1
  obtain ⟨hyaffinity, hyvalue⟩ := value_of_isText hy htarget hrelation.2
  rw [Sql.Site.joins, hxaffinity, hyaffinity]
  obtain ⟨hxnone, hxnull⟩ | ⟨s, hxsome, hxtext⟩ := hxvalue
  · rw [hxnone, hxnull]
    cases y.site.value relation.targetField <;> rfl
  · obtain ⟨hynone, hynull⟩ | ⟨t, hysome, hytext⟩ := hyvalue
    · rw [hynone, hynull, hxsome]
      rfl
    · rw [hxsome, hxtext, hysome, hytext]
      have htest := Sql.test_text_equal t s
      change (Sql.Value.test .equal (.text t) .none (.text s) .none == some true) = (s == t)
      rw [htest, Bool.eq_iff_iff, beq_iff_eq, beq_iff_eq, Option.some_inj, beq_iff_eq]
      exact eq_comm

/-- The rows joined in the store are the rows of the joined entities. -/
theorem joined_site (htables : Sql.WellTyped tables) {x : Stored} (hx : x.WellTyped)
    {relation : Relation} (hrelation : relation.JoinsTexts)
    (hsource : Located Database.mappings x.kind.type relation.sourceField)
    (htarget : Located Database.mappings relation.target relation.targetField) :
    x.site.joined Database.mappings tables relation = (joined tables relation x).map site := by
  obtain ⟨m, hget, hlocate⟩ := htarget
  obtain ⟨k, hfind, hk, rfl⟩ := get_mappings hget
  have hsites : x.site.joined Database.mappings tables relation =
      ((ofType tables relation.target).map site).filter (x.site.joins relation) := by
    rw [Sql.Site.joined, hget, ofType, hfind]
    change (match tables.lookup (Database.tableName k) with
      | none => []
      | some t => (t.rows.map (Sql.Site.mk t.columns)).filter (x.site.joins relation)) = _
    cases ht : tables.lookup (Database.tableName k) with
    | none => simp only [ht]; rfl
    | some t =>
      simp only [ht, List.map_map]
      rw [htables.columns k t ht]
      rfl
  rw [hsites, List.filter_map, joined]
  refine congrArg (List.map site) (List.filter_congr fun y hy => ?_)
  have hykind : (Database.mapping y.kind).locate relation.target relation.targetField =
      .ok () := by
    have htype := kind_of_mem_ofType hy
    have hfind' := find_type y.kind
    rw [htype, hfind] at hfind'
    cases hfind'
    exact hlocate
  exact joins_site hx (htables.of_mem_ofType hy) hrelation (locate_of_located hsource)
    hykind

/-! ## Agreement -/

/-- What a predicate compares at the type is plain, in itself and in every row. -/
def PlainIn (tables : List (String × Sql.Table)) (type : ResourceType) (field : FieldPath)
    (values : List Json) : Prop :=
  (∀ v ∈ values, v.isPlain = true) ∧ ∀ x ∈ ofType tables type, x.PlainAt field

/-- A predicate on entities of a type compares plain values only. -/
def ComparesPlain (tables : List (String × Sql.Table)) : ResourceType → Predicate → Prop :=
  Predicate.Along (PlainIn tables) fun _ relation target => target = relation.target

theorem stands (htables : Sql.WellTyped tables) {type : ResourceType} {x : Stored}
    (hx : x ∈ ofType tables type) {field : FieldPath} (hfield : Located Database.mappings type field)
    (hplain : x.PlainAt field) :
    Sql.Stands (x.site.affinity field) (x.site.value field) (field.resolve x.untilNul.entity) := by
  obtain rfl := kind_of_mem_ofType hx
  exact stands_untilNul (htables.of_mem_ofType hx) (locate_of_located hfield) hplain

/-- The condition of a predicate holds on the row of an entity when the predicate
holds of the entity, with texts in documents up to a NUL. -/
theorem satisfies_site (htables : Sql.WellTyped tables) {type : ResourceType} {p : Predicate}
    {x : Stored} (hx : x ∈ ofType tables type) (hlocated : Sql.AllLocated Database.mappings type p)
    (hplain : ComparesPlain tables type p) (hjoins : p.RelationsIn Relation.JoinsTexts) :
    Predicate.satisfies (Sql.interpretation Database.mappings tables) p x.site =
      Predicate.satisfies (interpretation untilNul tables) p x := by
  have halong := (hlocated.and (fun _ _ _ _ h h' => h'.trans h.1.symm) hplain).and
    (fun _ _ _ _ h h' => h'.1.trans h.2.symm)
    (Predicate.along_of_relationsIn Relation.target hjoins)
  refine Predicate.satisfies_eq_of_along
    (R := fun type site y => site = y.site ∧ y ∈ ofType tables type) ?_ ?_ ?_ halong ⟨rfl, hx⟩
  · rintro type site y field comparison value ⟨rfl, hy⟩ ⟨⟨hfield, hvalue, hstored⟩, _⟩
    exact (stands htables hy hfield (hstored y hy)).compares_eq_test
      (hvalue value List.mem_cons_self) comparison
  · rintro type site y field values ⟨rfl, hy⟩ ⟨⟨hfield, hvalues, hstored⟩, _⟩
    exact (stands htables hy hfield (hstored y hy)).isMember_eq_member hvalues
  · rintro type site y relation target ⟨rfl, hy⟩ ⟨⟨⟨rfl, hsource, htarget⟩, _⟩, _, hrelation⟩
    have htype := kind_of_mem_ofType hy
    change List.Forall₂ _ (y.site.joined Database.mappings tables relation)
      (joined tables relation y)
    rw [joined_site htables (htables.of_mem_ofType hy) hrelation (htype.symm ▸ hsource) htarget]
    refine List.forall₂_map_left_iff.mpr (List.forall₂_same.mpr fun z hz => ⟨rfl, ?_⟩)
    exact (List.mem_filter.mp hz).1

/-! ## Rows in memory -/

/-- The row of an entity as a view shows it, with the joined rows under every
relation of a registry, to a number of levels. -/
def evaluationRow (registry : Registry) (view : Stored → Stored)
    (tables : List (String × Sql.Table)) : Nat → Stored → Row
  | 0, x => .ofAttributes (view x).entity
  | levels + 1, x => .mk (view x).entity (registry.relations.map fun r =>
      (r.key, (joined tables r x).map (evaluationRow registry view tables levels)))

theorem attributes_evaluationRow (registry : Registry) (view : Stored → Stored) (levels : Nat)
    (x : Stored) : (evaluationRow registry view tables levels x).attributes = (view x).entity := by
  cases levels <;> rfl

theorem joined_evaluationRow {registry : Registry} {view : Stored → Stored} {levels : Nat}
    {x : Stored} {relation : Relation} (hrelation : registry.Registers relation) :
    (evaluationRow registry view tables (levels + 1) x).joined relation.key =
      (joined tables relation x).map (evaluationRow registry view tables levels) := by
  have hfind : (registry.relations.find? fun q => q.key == relation.key) = some relation := by
    have h := hrelation
    rw [Registry.Registers, Registry.relation] at h
    split at h
    · rename_i found hfound
      cases h
      exact hfound
    · cases h
  rw [evaluationRow, Row.joined]
  change (((registry.relations.map fun r => (r.key, (joined tables r x).map
    (evaluationRow registry view tables levels))).find? fun entry => entry.1 == relation.key).map
      (·.2)).getD [] = _
  rw [List.find?_map]
  change (((registry.relations.find? fun q => q.key == relation.key).map _).map _).getD [] = _
  rw [hfind]
  rfl

/-- Evaluating a predicate on the row of an entity is its meaning over the stored
entities. -/
theorem holds_evaluationRow {registry : Registry} {view : Stored → Stored} {p : Predicate}
    {levels : Nat} {x : Stored} (hp : p.DrawnFrom registry) (hlevels : p.nesting ≤ levels) :
    p.holds (evaluationRow registry view tables levels x) =
      Predicate.satisfies (interpretation view tables) p x := by
  rw [Predicate.holds_eq_satisfies]
  refine Predicate.satisfies_standIn (f := evaluationRow registry view tables) ?_ ?_ ?_ hp hlevels
  · intro n field comparison value y
    change comparison.test (field.resolve (evaluationRow registry view tables n y).attributes) _ = _
    rw [attributes_evaluationRow]
    rfl
  · intro n field values y
    change Comparison.member (field.resolve (evaluationRow registry view tables n y).attributes)
      _ = _
    rw [attributes_evaluationRow]
    rfl
  · intro n relation y hrelation
    exact joined_evaluationRow hrelation

/-! ## Texts with a NUL -/

/-- No text that a condition on the field reads from a document has a NUL. -/
def NulFreeIn (tables : List (String × Sql.Table)) (type : ResourceType) (field : FieldPath)
    (_ : List Json) : Prop :=
  ∀ x ∈ ofType tables type, ∀ d, x.row.lookup field.root = some (.document d) →
    ∀ s, FieldPath.descend field.nested d = some (.string s) → '\x00' ∉ s.toList

/-- A predicate on entities of a type reads no text with a NUL from a document. -/
def ReadsNulFree (tables : List (String × Sql.Table)) : ResourceType → Predicate → Prop :=
  Predicate.Along (NulFreeIn tables) fun _ relation target => target = relation.target

theorem resolve_untilNul (htables : Sql.WellTyped tables) {type : ResourceType} {x : Stored}
    (hx : x ∈ ofType tables type) {field : FieldPath} (hfield : Located Database.mappings type field)
    (hplain : x.PlainAt field) {values : List Json} (hnul : NulFreeIn tables type field values) :
    field.resolve x.untilNul.entity = field.resolve x.entity := by
  obtain rfl := kind_of_mem_ofType hx
  obtain ⟨f, hf, hroot, _⟩ := field_of_locate (locate_of_located hfield)
  obtain ⟨cell, hcell, hfits⟩ := htables.of_mem_ofType hx f hf
  rw [resolve_entity (show f ∈ x.untilNul.kind.fields from hf) hroot (lookup_untilNul hcell),
    resolve_entity hf hroot hcell]
  rw [PlainAt, ← hroot, hcell] at hplain
  have hfree := fun d => hnul x hx d
  rw [← hroot, hcell] at hfree
  generalize f.2.2 = shape at hfits
  cases hfits with
  | @document d hkeys =>
    change FieldPath.descend field.nested d.untilNul.reread.canonical =
      FieldPath.descend field.nested d.reread.canonical
    rw [Json.descend_loaded _ hkeys.untilNul, Json.descend_loaded _ hkeys, Json.descend_untilNul,
      Option.map_map]
    cases hv : FieldPath.descend field.nested d with
    | none => rfl
    | some v =>
      have hsame : v.untilNul = v := by
        cases v with
        | string s =>
          exact congrArg Json.string (Sql.Value.untilNul_of_not_mem (hfree d rfl s hv))
        | array items => exact absurd (hplain.2 _ hv) (by intro h; cases h)
        | object members => exact absurd (hplain.2 _ hv) (by intro h; cases h)
        | _ => rfl
      rw [Option.map_some, Option.map_some, Function.comp_apply, hsame]
  | _ => rfl

theorem satisfies_untilNul (htables : Sql.WellTyped tables) {type : ResourceType} {p : Predicate}
    {x : Stored} (hx : x ∈ ofType tables type) (hlocated : Sql.AllLocated Database.mappings type p)
    (hplain : ComparesPlain tables type p) (hnul : ReadsNulFree tables type p) :
    Predicate.satisfies (interpretation untilNul tables) p x =
      Predicate.satisfies (interpretation id tables) p x := by
  have halong := (hlocated.and (fun _ _ _ _ h h' => h'.trans h.1.symm) hplain).and
    (fun _ _ _ _ h h' => h'.trans h.2.symm) hnul
  refine Predicate.satisfies_eq_of_along
    (R := fun type y z => y = z ∧ y ∈ ofType tables type) ?_ ?_ ?_ halong ⟨rfl, hx⟩
  · rintro type y _ field comparison value ⟨rfl, hy⟩ ⟨⟨hfield, _, hstored⟩, hnul⟩
    exact congrArg (comparison.test · value)
      (resolve_untilNul htables hy hfield (hstored y hy) hnul)
  · rintro type y _ field values ⟨rfl, hy⟩ ⟨⟨hfield, _, hstored⟩, hnul⟩
    exact congrArg (Comparison.member · values)
      (resolve_untilNul htables hy hfield (hstored y hy) hnul)
  · rintro type y _ relation target ⟨rfl, hy⟩ ⟨⟨⟨rfl, _⟩, _⟩, _⟩
    exact List.forall₂_same.mpr fun z hz => ⟨rfl, (List.mem_filter.mp hz).1⟩

/-! ## Rendered conditions -/

theorem written_mappings : Database.mappings.Written := by
  unfold Sql.TableMappings.Written
  decide

/-- The text of the condition of a predicate is never undecided on a row.  It says
what evaluating the predicate says when texts in documents end at their first
NUL, and so what evaluating it on the row says exactly when that makes no
difference, which it does not when no text that is read has a NUL. -/
theorem eval_iff_holds {registry : Registry} {k : WorkflowKind} {p : Predicate}
    {condition : Sql.Fragment} {levels : Nat} (htables : Sql.WellTyped tables)
    (hrelations : p.RelationsIn fun r => registry.Registers r ∧ r.JoinsTexts)
    (hplain : ComparesPlain tables k.type p) (hlevels : p.nesting ≤ levels)
    (h : Sql.render Database.mappings k.type p = .ok condition) :
    ∃ e, Sql.Expr.parse? condition.text (condition.binds.map .ofJson) = some e ∧
      ∀ x ∈ ofType tables k.type,
        e.eval tables [x.site.binding 0] =
          some (p.holds (evaluationRow registry untilNul tables levels x)) ∧
        ((e.eval tables [x.site.binding 0] = some true ↔
            p.holds (evaluationRow registry id tables levels x) = true) ↔
          p.holds (evaluationRow registry untilNul tables levels x) =
            p.holds (evaluationRow registry id tables levels x)) ∧
        (ReadsNulFree tables k.type p →
          e.eval tables [x.site.binding 0] =
            some (p.holds (evaluationRow registry id tables levels x))) := by
  obtain ⟨e, hread, heval⟩ := Sql.eval_of_render tables h
  have hlocated := Sql.allLocated_of_render h
  have hregisters : p.DrawnFrom registry := hrelations.imp fun _ hr => hr.1
  have hjoins : p.RelationsIn Relation.JoinsTexts := hrelations.imp fun _ hr => hr.2
  refine ⟨e, (Sql.parse?_of_render written_mappings h _).trans hread, fun x hx => ?_⟩
  have hmeaning : e.eval tables [x.site.binding 0] =
      some (p.holds (evaluationRow registry untilNul tables levels x)) := by
    rw [heval, satisfies_site htables hx hlocated hplain hjoins,
      holds_evaluationRow hregisters hlevels]
  refine ⟨hmeaning, ?_, fun hnul => ?_⟩
  · rw [hmeaning, Option.some_inj]
    exact Bool.eq_iff_iff.symm
  · rw [hmeaning, holds_evaluationRow hregisters hlevels, holds_evaluationRow hregisters hlevels,
      satisfies_untilNul htables hx hlocated hplain hnul]

namespace Noted

/-- A document whose content holds a text. -/
def record (note : String) : Json :=
  .object [("id", .string "d0"), ("definition_name", .string "case"), ("assignee", .null),
    ("team", .null), ("content", .object [("note", .string note)])]

def document (note : String) : Stored := ⟨.document, Database.rowOf .document (record note)⟩

def noted (note : String) : Predicate :=
  .compare ⟨"content", ["note"], rfl⟩ .equal (.string note)

/-- The tables of a store that holds one document. -/
def store (note : String) : List (String × Sql.Table) :=
  [("documents", ⟨Database.columns .document, [(document note).row]⟩)]

theorem lookup_store {note : String} {k : WorkflowKind} {t : Sql.Table}
    (h : (store note).lookup (Database.tableName k) = some t) :
    k = .document ∧ t = ⟨Database.columns .document, [(document note).row]⟩ := by
  cases k with
  | document =>
    cases h
    exact ⟨rfl, rfl⟩
  | _ => cases h

theorem wellTyped_store (note : String) : Sql.WellTyped (store note) where
  columns k t h := by
    obtain ⟨rfl, rfl⟩ := lookup_store h
    rfl
  rows k t h row hrow := by
    obtain ⟨rfl, rfl⟩ := lookup_store h
    rw [List.mem_singleton.mp hrow]
    exact wellTyped_rowOf (v := record note) rfl

theorem comparesPlain_noted (note : String) :
    ComparesPlain (store note) WorkflowKind.document.type (noted note) := by
  refine ⟨fun v hv => ?_, fun x hx => ?_⟩
  · rw [List.mem_singleton.mp hv]
    rfl
  · rw [List.mem_singleton.mp hx]
    refine ⟨List.cons_ne_nil _ _, fun v hv => ?_⟩
    cases hv
    rfl

end Noted

open Noted in
theorem eval_iff_holds_noted :
    ∃ condition e, Sql.render Database.mappings WorkflowKind.document.type (noted "x") =
        .ok condition ∧
      Sql.Expr.parse? condition.text (condition.binds.map .ofJson) = some e ∧
      ReadsNulFree (store "x") WorkflowKind.document.type (noted "x") ∧
      e.eval (store "x") [(document "x").site.binding 0] =
        some ((noted "x").holds (evaluationRow WorkflowKind.registry id (store "x") 0
          (document "x"))) := by
  have hrelations : (noted "x").RelationsIn fun r =>
      WorkflowKind.registry.Registers r ∧ r.JoinsTexts := trivial
  have hlevels : (noted "x").nesting ≤ 0 := Nat.le_refl _
  have hnul : ReadsNulFree (store "x") WorkflowKind.document.type (noted "x") := by
    intro x hx d hd s hs
    rw [List.mem_singleton.mp hx] at hd
    cases hd
    cases hs
    decide
  obtain ⟨e, hread, heval⟩ := eval_iff_holds (k := .document) (wellTyped_store "x") hrelations
    (comparesPlain_noted "x") hlevels rfl
  exact ⟨_, e, rfl, hread, hnul, (heval (document "x") List.mem_cons_self).2.2 hnul⟩

open Noted in
/-- The store reads the text in the document up to its NUL and finds it different,
where evaluating the predicate finds it equal. -/
theorem eval_ne_holds_of_nul :
    ∃ condition e, Sql.render Database.mappings WorkflowKind.document.type (noted "x\x00y") =
        .ok condition ∧
      Sql.Expr.parse? condition.text (condition.binds.map .ofJson) = some e ∧
      Sql.WellTyped (store "x\x00y") ∧
      ComparesPlain (store "x\x00y") WorkflowKind.document.type (noted "x\x00y") ∧
      document "x\x00y" ∈ ofType (store "x\x00y") WorkflowKind.document.type ∧
      e.eval (store "x\x00y") [(document "x\x00y").site.binding 0] = some false ∧
      (noted "x\x00y").holds (evaluationRow WorkflowKind.registry id (store "x\x00y") 0
        (document "x\x00y")) = true := by
  have hrender : Sql.render Database.mappings WorkflowKind.document.type (noted "x\x00y") =
      .ok _ := rfl
  have hparse := Sql.parse?_of_render written_mappings hrender
  exact ⟨_, _, hrender, (hparse _).trans rfl, wellTyped_store _, comparesPlain_noted _,
    List.mem_cons_self, rfl, rfl⟩

end Stored
end AccessPolicy
