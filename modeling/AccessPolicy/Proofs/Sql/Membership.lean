/-
Membership in a list of values.

A field is one of some values when it equals one of those that are not null.  In memory
the list is walked as it stands.  A condition tells the values compared as text from the
numeric ones, guards each group by the kind of its members and leaves out a group that is
empty, and it still says what the equalities with the values say one by one.
-/
import AccessPolicy.Database
import AccessPolicy.Proofs.Sql.Rendering

namespace AccessPolicy

/-! ## In memory -/

namespace Predicate

/-- The field equals one of the values that are not null. -/
def equalsSome (field : FieldPath) (values : List Json) : Predicate :=
  any ((values.filter fun v => !v.isNull).map (equal field))

theorem holds_equalsSome (field : FieldPath) (values : List Json) (row : Row) :
    (oneOf field values).holds row = (equalsSome field values).holds row := by
  rw [equalsSome, holds_any, List.any_map, holds, Comparison.member_eq_any_test]
  refine any_eq_any fun v _ => ?_
  rw [Function.comp_apply, equal, holds]

/-- There is nothing to fold among equalities. -/
theorem disjuncts_equal (field : FieldPath) (values : List Json) :
    disjuncts (values.map (equal field)) = some (values.map (equal field)) := by
  induction values with
  | nil => rfl
  | cons v rest ih =>
    rw [List.map_cons, equal, disjuncts, ih]
    · rfl
    all_goals exact nofun

end Predicate

/-! ## In conditions -/

namespace Sql

theorem Value.isMember_eq_any_compares (stored : Value) (affinity : Affinity)
    (values : List Json) :
    stored.isMember affinity values =
      (values.filter fun v => !v.isNull).any fun v => stored.compares affinity .equal v := by
  rw [isMember, List.any_filter]
  refine Predicate.any_eq_any fun v _ => ?_
  cases hv : v.isNull with
  | true => rfl
  | false => rw [Bool.not_false, Bool.true_and, Bool.true_and, compares_equal hv]

namespace Fragment

/-- The condition of a disjunction of equalities. -/
def equalities (c : ColumnRef) : List Json → Fragment
  | [] => constant false
  | [v] => comparing c .equal v
  | values => joined .OR false (values.map (comparing c .equal))

theorem denotes_equalities {tables : List (String × Table)} {slot : Nat} (field : FieldPath)
    (values : List Json) :
    (equalities (columnOf slot field) values).Denotes tables slot fun site =>
      values.any fun v => (site.value field).compares (site.affinity field) .equal v := by
  match values with
  | [] => exact denotes_constant false
  | [v] =>
    simp only [List.any_cons, List.any_nil, Bool.or_false]
    exact denotes_comparing field .equal v
  | v :: w :: rest =>
    have hparts : List.Forall₂ (Denotes tables slot)
        ((v :: w :: rest).map (comparing (columnOf slot field) .equal))
        ((v :: w :: rest).map fun u => fun site : Site =>
          (site.value field).compares (site.affinity field) .equal u) :=
      List.forall₂_map_left_iff.mpr (List.forall₂_map_right_iff.mpr
        (List.forall₂_same.mpr fun u _ => denotes_comparing field .equal u))
    have hjoined := denotes_joined_or hparts
    simp only [List.any_map] at hjoined
    exact hjoined

theorem over_equalities {columns : ColumnRef → Prop} {names : String → Prop} {c : ColumnRef}
    (hc : columns c) (values : List Json) : (equalities c values).Over columns names := by
  unfold equalities
  split
  · exact over_constant false
  · exact over_comparing hc .equal _
  · refine over_joined fun f hf => ?_
    obtain ⟨v, _, rfl⟩ := List.mem_map.mp hf
    exact over_comparing hc .equal v

/-- A fragment on one column, which names no table, is taken up by its text and is true or
false on every row as the test says that it denotes. -/
theorem parse?_of_denotes {f : Fragment} {slot : Nat} {field : FieldPath} {holds : Site → Bool}
    (hover : f.Over (columnOf slot field = ·) fun _ => False)
    (hdenotes : ∀ tables, f.Denotes tables slot holds) :
    ∃ e, Expr.parse? f.text (f.binds.map .ofJson) = some e ∧
      ∀ tables env (site : Site), site.BoundIn slot env →
        e.eval tables env = some (holds site) := by
  have hwritten : ∀ t ∈ f.tokens, Lexer.Written t := fun t ht =>
    (hover t ht).written (fun c hc => hc ▸ written_columnOf slot field) fun _ hname => hname.elim
  have hparse : Expr.parse? f.text (f.binds.map .ofJson) =
      Expr.read? f.tokens (f.binds.map .ofJson) := by
    rw [Expr.parse?, Fragment.text, tokens?_rowText hwritten]
    rfl
  obtain ⟨e, he⟩ := hdenotes []
  have hread := Expr.read?_of_reads he.reads
  refine ⟨e, hparse.trans hread, fun tables env site hsite => ?_⟩
  -- What is read does not depend on the tables, so it is the condition for these tables too.
  obtain ⟨e', he'⟩ := hdenotes tables
  obtain rfl : e = e' := Option.some.inj (hread.symm.trans (Expr.read?_of_reads he'.reads))
  exact he'.eval env site hsite

end Fragment

section

variable {mappings : TableMappings} {s : RenderState} {field : FieldPath} {c : ColumnRef}
  (hc : s.column mappings field = .ok c)
include hc

theorem buildParts_equal (values : List Json) :
    Predicate.buildParts (renderer mappings) (values.map (.equal field)) s =
      (values.map fun v => .ok (.comparing c .equal v), s) := by
  induction values with
  | nil => rfl
  | cons v rest ih =>
    have hv : (Predicate.equal field v).build (renderer mappings) s =
        (.ok (.comparing c .equal v), s) := by
      show ((s.column mappings field).map fun c => Fragment.comparing c .equal v, s) = _
      rw [hc]
      rfl
    rw [List.map_cons, buildParts_cons, hv, ih]
    rfl

theorem build_oneOf (values : List Json) :
    (Predicate.oneOf field values).build (renderer mappings) s =
      (.ok (.membership c values), s) := by
  show ((s.column mappings field).map fun c => Fragment.membership c values, s) = _
  rw [hc]
  rfl

theorem build_equalsSome (values : List Json) :
    (Predicate.equalsSome field values).build (renderer mappings) s =
      (.ok (.equalities c (values.filter fun v => !v.isNull)), s) := by
  rw [Predicate.equalsSome, Predicate.any, Predicate.disjuncts_equal]
  generalize (values.filter fun v => !v.isNull) = present
  match present with
  | [] => rfl
  | [v] =>
    show ((s.column mappings field).map fun c => Fragment.comparing c .equal v, s) = _
    rw [hc]
    rfl
  | v :: w :: rest =>
    have hparts := buildParts_equal hc (v :: w :: rest)
    show ((collected (Predicate.buildParts (renderer mappings)
        ((v :: w :: rest).map (.equal field)) s).1).map (Fragment.joined .OR false),
      (Predicate.buildParts (renderer mappings) ((v :: w :: rest).map (.equal field)) s).2) = _
    rw [hparts, collected_map_ok]
    rfl

end

/-- Membership is the disjunction of the equalities with the values that are not null.  The
two hold of the same rows in memory.  Wherever the field has a column both are rendered,
and their texts read as conditions that are true on the same rows and false on the others.
Where every value is null, nothing is a member. -/
theorem oneOf_eq_equalsSome (field : FieldPath) (values : List Json) :
    (∀ row : Row,
      (Predicate.oneOf field values).holds row = (Predicate.equalsSome field values).holds row ∧
      ((∀ v ∈ values, v.isNull = true) → (Predicate.oneOf field values).holds row = false)) ∧
    ∀ (mappings : TableMappings) (s : RenderState) (scope : Scope),
      s.scopes.head? = some scope → Located mappings scope.type field →
      ∃ f g e e',
        (Predicate.oneOf field values).build (renderer mappings) s = (.ok f, s) ∧
        (Predicate.equalsSome field values).build (renderer mappings) s = (.ok g, s) ∧
        Expr.parse? f.text (f.binds.map .ofJson) = some e ∧
        Expr.parse? g.text (g.binds.map .ofJson) = some e' ∧
        ∀ tables env (site : Site), site.BoundIn scope.slot env → ∃ holds : Bool,
          e.eval tables env = some holds ∧ e'.eval tables env = some holds ∧
          ((∀ v ∈ values, v.isNull = true) → holds = false) := by
  have hnone : (∀ v ∈ values, v.isNull = true) → (values.filter fun v => !v.isNull) = [] :=
    fun hnull => List.filter_eq_nil_iff.mpr fun v hv => by rw [hnull v hv]; exact nofun
  constructor
  · intro row
    refine ⟨Predicate.holds_equalsSome field values row, fun hnull => ?_⟩
    rw [Predicate.holds_equalsSome, Predicate.equalsSome, hnone hnull]
    rfl
  · intro mappings s scope hscope hfield
    have hc := column_of_located hscope hfield
    let c := Fragment.columnOf scope.slot field
    let present := values.filter fun v => !v.isNull
    have hmember : (Fragment.membership c values).Over (c = ·) fun _ => False :=
      Fragment.over_membership rfl values
    have hequal : (Fragment.equalities c present).Over (c = ·) fun _ => False :=
      Fragment.over_equalities rfl present
    obtain ⟨e, hparse, heval⟩ :=
      Fragment.parse?_of_denotes hmember fun _ => Fragment.denotes_membership field values
    obtain ⟨e', hparse', heval'⟩ :=
      Fragment.parse?_of_denotes hequal fun _ => Fragment.denotes_equalities field present
    refine ⟨_, _, e, e', build_oneOf hc values, build_equalsSome hc values, hparse, hparse', ?_⟩
    intro tables env site hsite
    refine ⟨_, heval tables env site hsite, ?_, fun hnull => ?_⟩
    · rw [heval' tables env site hsite, Value.isMember_eq_any_compares]
    · rw [Value.isMember_eq_any_compares, hnone hnull]
      rfl

/-! ## Values of every kind -/

namespace Mixed

def score : FieldPath := ⟨"content", ["score"], rfl⟩

/-- Texts and numbers that look alike, a boolean, nulls, an array and an object. -/
def values : List Json :=
  [.string "5", .null, .number (.integer 5), .bool true, .string "5", .array [.null], .object [],
    .null]

/-- A document with a text for a score. -/
def row : Row := .ofAttributes (.object [("content", .object [("score", .string "5")])])

end Mixed

open Mixed in
theorem oneOf_eq_equalsSome_mixed :
    (Predicate.oneOf score values).holds row = true ∧
    (Predicate.equalsSome score values).holds row = true ∧
    ∃ f g e e',
      render Database.mappings WorkflowKind.document.type (.oneOf score values) = .ok f ∧
      render Database.mappings WorkflowKind.document.type (.equalsSome score values) = .ok g ∧
      Expr.parse? f.text (f.binds.map .ofJson) = some e ∧
      Expr.parse? g.text (g.binds.map .ofJson) = some e' ∧
      ∀ tables (site : Site), e.eval tables [site.binding 0] = e'.eval tables [site.binding 0] := by
  obtain ⟨hmemory, hsql⟩ := oneOf_eq_equalsSome score values
  have hholds : (Predicate.oneOf score values).holds row = true := rfl
  have hlocated : Located Database.mappings WorkflowKind.document.type score :=
    ⟨Database.mapping .document, rfl, rfl⟩
  obtain ⟨f, g, e, e', hf, hg, hparse, hparse', heval⟩ :=
    hsql Database.mappings (.start WorkflowKind.document.type) ⟨WorkflowKind.document.type, 0⟩ rfl
      hlocated
  refine ⟨hholds, (hmemory row).1.symm.trans hholds, f, g, e, e', congrArg Prod.fst hf,
    congrArg Prod.fst hg, hparse, hparse', fun tables site => ?_⟩
  obtain ⟨holds, he, he', _⟩ := heval tables _ site (site.boundIn_cons 0 [])
  exact he.trans he'.symm

end Sql
end AccessPolicy
