/-
What a predicate means over stored rows.

A site is a row of a table.  A leaf compares a stored value of one kind with a
bound value, and a relation leads to the rows of a table whose column equals a
column of the site.  No leaf is left undecided by a null.
-/
import AccessPolicy.Sql.Evaluation
import AccessPolicy.Sql.Render
import AccessPolicy.Proofs.Predicate.Interpretation

namespace AccessPolicy
namespace Sql

/-! ## Comparisons of values -/

namespace Value

theorem ofJson_ne_null {v : Json} (h : v.isNull = false) : ofJson v ≠ .null := by
  cases v with
  | null => cases h
  | bool b => intro h; cases h
  | number n =>
    cases n with
    | integer n =>
      rw [ofJson]
      split
      · intro h; cases h
      · intro h; cases h
    | double x => intro h; cases h
  | string s => intro h; cases h
  | array items => intro h; cases h
  | object members => intro h; cases h

theorem underAffinity_ne_null {v : Value} {a : Affinity} (h : v ≠ .null) :
    v.underAffinity a ≠ .null := by
  cases a with
  | none => exact h
  | text =>
    rw [underAffinity]
    cases v with
    | null => exact absurd rfl h
    | integer n => intro h; cases h
    | real x => intro h; cases h
    | text s => intro h; cases h
  | integer =>
    rw [underAffinity]
    cases v with
    | null => exact absurd rfl h
    | integer n => intro h; cases h
    | real x => intro h; cases h
    | text s =>
      rw [asNumber, numberOfText?]
      cases Numeral.read? (trimmed s.toList) with
      | none => intro h; cases h
      | some l =>
        simp only [Option.map_some, Option.getD_some]
        split
        · split
          · intro h; cases h
          · intro h; cases h
        · intro h; cases h

theorem order?_isSome {a b : Value} (ha : a ≠ .null) (hb : b ≠ .null) :
    (a.order? b).isSome = true := by
  cases a with
  | null => exact absurd rfl ha
  | integer n => cases b with
    | null => exact absurd rfl hb
    | _ => rfl
  | real x => cases b with
    | null => exact absurd rfl hb
    | _ => rfl
  | text s => cases b with
    | null => exact absurd rfl hb
    | _ => rfl

/-- Two values are compared to a truth value unless one of them is null. -/
theorem test_eq_some {a b : Value} (c : Comparison) (aAffinity bAffinity : Affinity)
    (ha : a ≠ .null) (hb : b ≠ .null) :
    a.test c aAffinity b bAffinity = some (a.test c aAffinity b bAffinity == some true) := by
  have hsome : (a.test c aAffinity b bAffinity).isSome = true := by
    rw [test, Option.isSome_map]
    exact order?_isSome (underAffinity_ne_null ha) (underAffinity_ne_null hb)
  obtain ⟨x, hx⟩ := Option.isSome_iff_exists.mp hsome
  rw [hx]
  cases x <;> rfl

theorem units_pos : 0 < (Binary64.unitsPerOne : Int) := by
  have h : 0 < Binary64.unitsPerOne := by decide +kernel
  exact Int.natCast_pos.mpr h

theorem compare_units (a b : Int) :
    Ord.compare (a * (Binary64.unitsPerOne : Int)) (b * (Binary64.unitsPerOne : Int)) =
      Ord.compare a b := by
  have hlt : a * (Binary64.unitsPerOne : Int) < b * (Binary64.unitsPerOne : Int) ↔ a < b :=
    Int.mul_lt_mul_right units_pos
  have heq : a * (Binary64.unitsPerOne : Int) = b * (Binary64.unitsPerOne : Int) ↔ a = b :=
    Int.mul_eq_mul_right_iff (Int.ne_of_gt units_pos)
  simp only [Ord.compare, compareOfLessAndEq, hlt, heq]

theorem test_integer (c : Comparison) (a b : Int) :
    (integer a).test c .none (integer b) .none = some (c.admitsOrder (Ord.compare a b)) := by
  rw [← compare_units]
  rfl

/-- The storage class is that of numbers, or that of texts. -/
def isOfKind (v : Value) (numeric : Bool) : Bool :=
  if numeric then v.typeName == "integer" || v.typeName == "real" else v.typeName == "text"

theorem ne_null_of_isOfKind {v : Value} {numeric : Bool} (h : v.isOfKind numeric = true) :
    v ≠ .null := by
  rintro rfl
  cases numeric with
  | false => exact absurd h (by decide)
  | true => exact absurd h (by decide)

/-- Whether a stored value satisfies a comparison with null. -/
def comparesNull (stored : Value) : Comparison → Bool
  | .equal => stored == .null
  | .notEqual => stored != .null
  | _ => false

/-- Whether a stored value is of the kind of a bound value and satisfies a
comparison with it. -/
def comparesKind (stored : Value) (affinity : Affinity) (comparison : Comparison) (value : Json) :
    Bool :=
  stored.isOfKind (Fragment.isNumeric value) &&
    stored.test comparison affinity (ofJson value) .none == some true

/-- Whether a stored value satisfies a comparison with a bound one.  A value of
another kind is different. -/
def compares (stored : Value) (affinity : Affinity) (comparison : Comparison) (value : Json) :
    Bool :=
  if value.isNull then stored.comparesNull comparison
  else if comparison = .notEqual then
    stored != .null && !stored.comparesKind affinity .equal value
  else stored.comparesKind affinity comparison value

theorem compares_equal {stored : Value} {affinity : Affinity} {v : Json} (hv : v.isNull = false) :
    stored.compares affinity .equal v = stored.comparesKind affinity .equal v := by
  rw [compares, if_neg (Bool.eq_false_iff.mp hv), if_neg (by decide)]

/-- Whether a stored value is one of the bound ones. -/
def isMember (stored : Value) (affinity : Affinity) (values : List Json) : Bool :=
  values.any fun v => !v.isNull && stored.comparesKind affinity .equal v

end Value

/-! ## Sites -/

/-- A row of a table, with the affinities of the columns. -/
structure Site where
  columns : List (String × Affinity)
  row : StoredRow

namespace Site

/-- The value of a field of the row, null when it is missing. -/
def value (site : Site) (field : FieldPath) : Value :=
  match site.row.lookup field.root with
  | none => .null
  | some cell => if field.nested.isEmpty then cell.toValue else cell.extract field.nested

def affinity (site : Site) (field : FieldPath) : Affinity :=
  if field.nested.isEmpty then (site.columns.lookup field.root).getD .none else .none

/-- The row in a slot. -/
def binding (site : Site) (slot : Nat) : Binding := ⟨slot, site.columns, site.row⟩

/-- The slot is bound to the row. -/
def BoundIn (site : Site) (slot : Nat) (env : List Binding) : Prop :=
  env.find? (fun b => b.slot == slot) = some (site.binding slot)

theorem boundIn_cons (site : Site) (slot : Nat) (env : List Binding) :
    site.BoundIn slot (site.binding slot :: env) := by
  simp [BoundIn, binding]

theorem boundIn_cons_of_ne {site : Site} {slot : Nat} {env : List Binding} {b : Binding}
    (hne : b.slot ≠ slot) (h : site.BoundIn slot env) : site.BoundIn slot (b :: env) := by
  rw [BoundIn, List.find?_cons_of_neg (by simpa using hne)]
  exact h

section

variable {site : Site} {slot : Nat} {env : List Binding} (h : site.BoundIn slot env)
  (field : FieldPath)

include h

theorem value_column : ColumnRef.value ⟨slot, field.root, field.nested⟩ env = site.value field := by
  rw [ColumnRef.value, h]
  rfl

theorem affinity_column :
    ColumnRef.affinity ⟨slot, field.root, field.nested⟩ env = site.affinity field := by
  rw [ColumnRef.affinity, h]
  rfl

end

/-- The columns by which two rows are joined are equal. -/
def joins (relation : Relation) (outer inner : Site) : Bool :=
  (inner.value relation.targetField).test .equal (inner.affinity relation.targetField)
    (outer.value relation.sourceField) (outer.affinity relation.sourceField) == some true

/-- The rows to which a relation leads. -/
def joined (mappings : TableMappings) (tables : List (String × Table)) (relation : Relation)
    (site : Site) : List Site :=
  match mappings.get relation.target with
  | .error _ => []
  | .ok mapping =>
    match tables.lookup mapping.table with
    | none => []
    | some table => (table.rows.map (Site.mk table.columns)).filter (site.joins relation)

end Site

/-- Predicates over the rows of tables. -/
def interpretation (mappings : TableMappings) (tables : List (String × Table)) :
    Predicate.Interpretation Site where
  compares field comparison value site :=
    (site.value field).compares (site.affinity field) comparison value
  member field values site := (site.value field).isMember (site.affinity field) values
  joined := Site.joined mappings tables

end Sql
end AccessPolicy
