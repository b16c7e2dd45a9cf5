/-
The normal form of predicates.

The folding constructors open up nested connectives, drop neutral constants and
stop at absorbing ones.  From parts that are folded they make a predicate that
is folded, at every depth: nothing in it could be folded further, and a constant
is either the whole of it or the filter of a relation that asks for any row.
-/
import AccessPolicy.Proofs.Predicate.Built

namespace AccessPolicy
namespace Predicate

/-! ## Places in a predicate -/

/-- The predicates directly below. -/
def children : Predicate → List Predicate
  | .and parts => parts
  | .or parts => parts
  | .related _ filter => [filter]
  | _ => []

/-- A predicate stands somewhere in another, or is the whole of it. -/
inductive OccursIn (q : Predicate) : Predicate → Prop where
  | whole : OccursIn q q
  | part {p part : Predicate} (hpart : part ∈ p.children) (h : OccursIn q part) : OccursIn q p

/-! ## Normal form -/

/-- Nothing is left to fold at the top: a connective joins two parts or more, none
of them a constant or of the same connective, and some row satisfies a filter as
far as its form tells. -/
def Folded : Predicate → Prop
  | .and parts => 2 ≤ parts.length ∧
      ∀ part ∈ parts, (∀ value, part ≠ .literal value) ∧ ∀ inner, part ≠ .and inner
  | .or parts => 2 ≤ parts.length ∧
      ∀ part ∈ parts, (∀ value, part ≠ .literal value) ∧ ∀ inner, part ≠ .or inner
  | .related _ filter => filter ≠ .never
  | _ => True

/-- Nothing is left to fold anywhere. -/
def Normal (p : Predicate) : Prop :=
  ∀ q : Predicate, q.OccursIn p → q.Folded

theorem normal_iff {p : Predicate} :
    p.Normal ↔ p.Folded ∧ ∀ part ∈ p.children, part.Normal := by
  constructor
  · intro h
    exact ⟨h p .whole, fun part hpart q hq => h q (.part hpart hq)⟩
  · rintro ⟨hfolded, hchildren⟩ q (_ | ⟨hpart, hq⟩)
    · exact hfolded
    · exact hchildren _ hpart q hq

theorem normal_literal (value : Bool) : (literal value).Normal :=
  normal_iff.mpr ⟨trivial, List.forall_mem_nil _⟩

theorem normal_compare (field : FieldPath) (comparison : Comparison) (value : Json) :
    (compare field comparison value).Normal :=
  normal_iff.mpr ⟨trivial, List.forall_mem_nil _⟩

theorem normal_oneOf (field : FieldPath) (values : List Json) : (oneOf field values).Normal :=
  normal_iff.mpr ⟨trivial, List.forall_mem_nil _⟩

/-- The parts that a folded connective gathers from parts in normal form are in normal
form, and there is nothing to fold among them. -/
theorem normal_of_gathered (connective : List Predicate → Predicate)
    (hchildren : ∀ inner, (connective inner).children = inner)
    (hfolded : ∀ inner, (connective inner).Folded → ∀ part ∈ inner,
      (∀ value, part ≠ .literal value) ∧ ∀ deeper, part ≠ connective deeper)
    {parts : List Predicate} (hparts : ∀ p ∈ parts, p.Normal) {q : Predicate}
    (hq : Gathered connective parts q) :
    q.Normal ∧ (∀ value, q ≠ .literal value) ∧ ∀ inner, q ≠ connective inner := by
  obtain ⟨hmem, hplain⟩ | ⟨inner, hinner, hmem⟩ := hq
  · exact ⟨hparts q hmem, hplain⟩
  · obtain ⟨htop, hbelow⟩ := normal_iff.mp (hparts _ hinner)
    rw [hchildren] at hbelow
    exact ⟨hbelow q hmem, hfolded inner htop q hmem⟩

theorem two_le_length {ps : List Predicate} (hnil : ps ≠ []) (hsingle : ∀ p, ps ≠ [p]) :
    2 ≤ ps.length := by
  match ps with
  | [] => exact absurd rfl hnil
  | [p] => exact absurd rfl (hsingle p)
  | _ :: _ :: rest => exact Nat.le_add_left 2 rest.length

/-- Folded parts give a folded conjunction. -/
theorem normal_all {parts : List Predicate} (hparts : ∀ p ∈ parts, p.Normal) :
    (all parts).Normal := by
  have hgathered : ∀ ps, conjuncts parts = some ps → ∀ q ∈ ps,
      q.Normal ∧ (∀ value, q ≠ .literal value) ∧ ∀ inner, q ≠ .and inner :=
    fun ps h q hq => normal_of_gathered .and (fun _ => rfl) (fun _ hfolded => hfolded.2)
      hparts (gathered_of_conjuncts h q hq)
  unfold all
  split
  · exact normal_literal false
  · exact normal_literal true
  · rename_i q h
    exact (hgathered _ h q List.mem_cons_self).1
  · rename_i ps hnil hsingle h
    have hps := hgathered ps h
    exact normal_iff.mpr
      ⟨⟨two_le_length hnil hsingle, fun q hq => (hps q hq).2⟩, fun q hq => (hps q hq).1⟩

/-- Folded parts give a folded disjunction. -/
theorem normal_any {parts : List Predicate} (hparts : ∀ p ∈ parts, p.Normal) :
    (any parts).Normal := by
  have hgathered : ∀ ps, disjuncts parts = some ps → ∀ q ∈ ps,
      q.Normal ∧ (∀ value, q ≠ .literal value) ∧ ∀ inner, q ≠ .or inner :=
    fun ps h q hq => normal_of_gathered .or (fun _ => rfl) (fun _ hfolded => hfolded.2)
      hparts (gathered_of_disjuncts h q hq)
  unfold any
  split
  · exact normal_literal true
  · exact normal_literal false
  · rename_i q h
    exact (hgathered _ h q List.mem_cons_self).1
  · rename_i ps hnil hsingle h
    have hps := hgathered ps h
    exact normal_iff.mpr
      ⟨⟨two_le_length hnil hsingle, fun q hq => (hps q hq).2⟩, fun q hq => (hps q hq).1⟩

theorem normal_someRelated (relation : Relation) {filter : Predicate} (hfilter : filter.Normal) :
    (someRelated relation filter).Normal := by
  unfold someRelated
  split
  · exact normal_literal false
  · rename_i hsatisfiable
    refine normal_iff.mpr ⟨?_, List.forall_mem_singleton.mpr hfilter⟩
    rintro rfl
    exact hsatisfiable rfl

/-- What compiling builds leaves nothing to fold. -/
theorem Built.normal {registry : Registry} {type : ResourceType} {p : Predicate}
    (h : p.Built registry type) : p.Normal := by
  induction h with
  | compare field comparison value => exact normal_compare field comparison value
  | oneOf field values => exact normal_oneOf field values
  | all _ ih => exact normal_all ih
  | any _ ih => exact normal_any ih
  | someRelated _ _ ih => exact normal_someRelated _ ih

/-- In normal form a constant below the top is true, and filters the rows of a
relation. -/
theorem Normal.of_literal_mem {p : Predicate} (h : p.Normal) {q : Predicate} {value : Bool}
    (hq : q.OccursIn p) (hvalue : .literal value ∈ q.children) :
    value = true ∧ ∃ relation, q = .related relation .always := by
  have hfolded := h q hq
  cases q with
  | and parts => exact absurd rfl ((hfolded.2 _ hvalue).1 value)
  | or parts => exact absurd rfl ((hfolded.2 _ hvalue).1 value)
  | related relation filter =>
    obtain rfl := List.mem_singleton.mp hvalue
    cases value with
    | false => exact absurd rfl hfolded
    | true => exact ⟨rfl, relation, rfl⟩
  | _ => cases hvalue

end Predicate
end AccessPolicy
