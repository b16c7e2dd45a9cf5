/-
The outline of a condition.

A condition refers to columns, and opens subqueries within which it refers to
further columns.  Its tokens account for all of them: the columns that it refers
to are those that are written, so is the table of a subquery, and for each
parameter one value is bound.
-/
import AccessPolicy.Proofs.Sql.Denotation

namespace AccessPolicy
namespace Sql

open Sql.Expr (Level Reads ReadsOperand ReadsItems)
open Token

/-- A column that is referred to, and the slots of the subqueries around it. -/
structure Reference where
  column : ColumnRef
  enclosing : List Nat

/-- A subquery over a table that goes by the alias of a slot. -/
structure Subquery where
  table : String
  slot : Nat
  condition : Expr

structure Outline where
  references : List Reference
  subqueries : List Subquery

namespace Outline

def empty : Outline := ⟨[], []⟩

def append (x y : Outline) : Outline :=
  ⟨x.references ++ y.references, x.subqueries ++ y.subqueries⟩

end Outline

def Operand.columns : Operand → List ColumnRef
  | .column c => [c]
  | .typeOf c => [c]
  | .value _ => []

namespace Expr

/-- The columns that the condition refers to, in order. -/
def references : Expr → List Reference
  | compare _ left right => (left.columns ++ right.columns).map (⟨·, []⟩)
  | isNull operand _ => operand.columns.map (⟨·, []⟩)
  | inList operand items => (operand.columns ++ items.flatMap Operand.columns).map (⟨·, []⟩)
  | group e => e.references
  | not e => e.references
  | and a b => a.references ++ b.references
  | or a b => a.references ++ b.references
  | exist _ slot e => e.references.map fun r => ⟨r.column, r.enclosing ++ [slot]⟩

/-- The subqueries of the condition in the order in which they open. -/
def subqueries : Expr → List Subquery
  | group e => e.subqueries
  | not e => e.subqueries
  | and a b => a.subqueries ++ b.subqueries
  | or a b => a.subqueries ++ b.subqueries
  | exist name slot e => ⟨name, slot, e⟩ :: e.subqueries
  | _ => []

def outline (e : Expr) : Outline := ⟨e.references, e.subqueries⟩

end Expr

/-! ## What is written -/

def columnOf? : Token → Option ColumnRef
  | column c => some c
  | _ => none

/-- The columns in the tokens of a fragment, in order. -/
def Fragment.columns (f : Fragment) : List ColumnRef := f.tokens.filterMap columnOf?

theorem columns_of_readsOperand {ts : List Token} {bs : List Value} {o : Operand}
    (h : ReadsOperand ts bs o) : ts.filterMap columnOf? = o.columns := by
  cases h <;> rfl

theorem columns_of_readsItems {ts : List Token} {bs : List Value} {os : List Operand}
    (h : ReadsItems ts bs os) : ts.filterMap columnOf? = os.flatMap Operand.columns := by
  induction h with
  | one h =>
    rw [List.flatMap_cons, List.flatMap_nil, List.append_nil]
    exact columns_of_readsOperand h
  | more h _ ih =>
    rw [List.filterMap_append, List.flatMap_cons, columns_of_readsOperand h,
      List.filterMap_cons_none rfl, ih]

/-- A condition refers to the columns among its tokens, and to each where it is written. -/
theorem columns_of_reads {level : Level} {ts : List Token} {bs : List Value} {e : Expr}
    (h : Reads level ts bs e) : ts.filterMap columnOf? = e.references.map Reference.column := by
  have hplain : ∀ cs : List ColumnRef,
      (cs.map fun c => Reference.mk c []).map Reference.column = cs := by
    intro cs
    rw [List.map_map]
    exact List.map_id cs
  induction h with
  | compare c hl hr =>
    rw [Expr.references, hplain, List.filterMap_append, List.filterMap_cons_none rfl,
      columns_of_readsOperand hl, columns_of_readsOperand hr]
  | isNull h =>
    rw [Expr.references, hplain, List.filterMap_append, columns_of_readsOperand h]
    exact List.append_nil _
  | isNotNull h =>
    rw [Expr.references, hplain, List.filterMap_append, columns_of_readsOperand h]
    exact List.append_nil _
  | inList h hs =>
    rw [Expr.references, hplain, List.filterMap_append, List.filterMap_cons_none rfl,
      List.filterMap_cons_none rfl, List.filterMap_append, columns_of_readsOperand h,
      columns_of_readsItems hs]
    exact congrArg _ (List.append_nil _)
  | group _ ih =>
    rw [Expr.references, List.filterMap_cons_none rfl, List.filterMap_append, ih]
    exact List.append_nil _
  | exist n name slot _ ih =>
    rw [Expr.references, List.map_map]
    show List.filterMap columnOf? (_ ++ [closing]) = _
    rw [List.filterMap_append, ih]
    exact List.append_nil _
  | not _ ih => rw [Expr.references, List.filterMap_cons_none rfl, ih]
  | conjunct _ ih => exact ih
  | disjunct _ ih => exact ih
  | and _ _ iha ihb =>
    rw [Expr.references, List.map_append, List.filterMap_append, List.filterMap_cons_none rfl,
      iha, ihb]
  | or _ _ iha ihb =>
    rw [Expr.references, List.map_append, List.filterMap_append, List.filterMap_cons_none rfl,
      iha, ihb]

theorem column_mem_of_reads {level : Level} {ts : List Token} {bs : List Value} {e : Expr}
    (h : Reads level ts bs e) : ∀ r ∈ e.references, column r.column ∈ ts := by
  intro r hr
  have hmem : r.column ∈ e.references.map Reference.column := List.mem_map_of_mem hr
  rw [← columns_of_reads h] at hmem
  obtain ⟨t, ht, hcolumn⟩ := List.mem_filterMap.mp hmem
  cases t with
  | column c =>
    cases hcolumn
    exact ht
  | _ => cases hcolumn

/-- The table of every subquery is written. -/
theorem table_mem_of_reads {level : Level} {ts : List Token} {bs : List Value} {e : Expr}
    (h : Reads level ts bs e) : ∀ q ∈ e.subqueries, table q.table ∈ ts := by
  induction h with
  | group _ ih => exact fun q hq => List.mem_cons_of_mem _ (List.mem_append_left _ (ih q hq))
  | exist n name slot _ ih =>
    intro q hq
    rcases List.mem_cons.mp hq with rfl | hq
    · simp
    · have hmem := ih q hq
      simp [hmem]
  | not _ ih => exact fun q hq => List.mem_cons_of_mem _ (ih q hq)
  | conjunct _ ih => exact ih
  | disjunct _ ih => exact ih
  | and _ _ iha ihb =>
    intro q hq
    rcases List.mem_append.mp hq with hq | hq
    · exact List.mem_append_left _ (iha q hq)
    · exact List.mem_append_right _ (List.mem_cons_of_mem _ (ihb q hq))
  | or _ _ iha ihb =>
    intro q hq
    rcases List.mem_append.mp hq with hq | hq
    · exact List.mem_append_left _ (iha q hq)
    · exact List.mem_append_right _ (List.mem_cons_of_mem _ (ihb q hq))
  | _ => exact nofun

/-! ## Parameters -/

theorem count_parameter_operand {ts : List Token} {bs : List Value} {o : Operand}
    (h : ReadsOperand ts bs o) : ts.count parameter = bs.length := by
  cases h <;> simp

theorem count_parameter_items {ts : List Token} {bs : List Value} {os : List Operand}
    (h : ReadsItems ts bs os) : ts.count parameter = bs.length := by
  induction h with
  | one h => exact count_parameter_operand h
  | more h _ ih => simp [count_parameter_operand h, ih]

/-- A value is bound for each parameter, and no other. -/
theorem count_parameter {level : Level} {ts : List Token} {bs : List Value} {e : Expr}
    (h : Reads level ts bs e) : ts.count parameter = bs.length := by
  induction h with
  | compare c hl hr => simp [count_parameter_operand hl, count_parameter_operand hr]
  | isNull h => simp [count_parameter_operand h]
  | isNotNull h => simp [count_parameter_operand h]
  | inList h hs => simp [count_parameter_operand h, count_parameter_items hs]
  | group _ ih => simp [ih]
  | exist n name slot _ ih => simp [ih]
  | not _ ih => simp [ih]
  | conjunct _ ih => exact ih
  | disjunct _ ih => exact ih
  | and _ _ iha ihb => simp [iha, ihb]
  | or _ _ iha ihb => simp [iha, ihb]

/-! ## Connectives -/

/-- The phrase reads as a condition with an outline. -/
def ReadsOutline (level : Level) (ts : List Token) (bs : List Value) (x : Outline) : Prop :=
  ∃ e, Reads level ts bs e ∧ e.outline = x

theorem readsOutline_constant (value : Bool) :
    ReadsOutline .disjunction (Fragment.constant value).tokens [] .empty :=
  ⟨_, .disjunct (.conjunct (.compare .equal (.number 1) (.number _))), rfl⟩

theorem Outline.append_assoc (x y z : Outline) :
    (x.append y).append z = x.append (y.append z) := by
  simp only [Outline.append, List.append_assoc]

theorem Outline.append_empty (x : Outline) : x.append .empty = x := by
  simp only [Outline.append, Outline.empty, List.append_nil]

theorem joins_outline_and :
    Fragment.Joins ReadsOutline .AND true .conjunction Outline.append .empty where
  constant := readsOutline_constant true
  group := fun ⟨_, h, hx⟩ => ⟨_, .group h, hx⟩
  lift := fun ⟨_, h, hx⟩ => ⟨_, .conjunct h, hx⟩
  join := fun ⟨_, ha, hx⟩ ⟨_, hb, hy⟩ => ⟨_, .and ha hb, congrArg₂ Outline.append hx hy⟩
  drop := fun ⟨_, h, hx⟩ => ⟨_, .disjunct h, hx⟩
  assoc := Outline.append_assoc
  neutral_right := Outline.append_empty

theorem joins_outline_or :
    Fragment.Joins ReadsOutline .OR false .disjunction Outline.append .empty where
  constant := readsOutline_constant false
  group := fun ⟨_, h, hx⟩ => ⟨_, .group h, hx⟩
  lift := fun ⟨_, h, hx⟩ => ⟨_, .disjunct (.conjunct h), hx⟩
  join := fun ⟨_, ha, hx⟩ ⟨_, hb, hy⟩ =>
    ⟨_, .or ha (.conjunct hb), congrArg₂ Outline.append hx hy⟩
  drop := id
  assoc := Outline.append_assoc
  neutral_right := Outline.append_empty

end Sql
end AccessPolicy
