/-
Scopes of subqueries.

A relation is entered, its filter is rendered, and it is left again, also when
the filter has failed.  Rendering therefore ends in the scope in which it began,
with one slot taken up for each relation, and a condition refers to nothing but
the scope it is rendered in and the subqueries around the reference.
-/
import AccessPolicy.Database
import AccessPolicy.Proofs.Specification.Decision
import AccessPolicy.Proofs.Sql.Outline
import AccessPolicy.Proofs.Sql.Rendering
import Mathlib.Data.List.Nodup

namespace AccessPolicy
namespace Sql

open Specification (CompiledFor)
open Sql.Expr (Reads)

variable {mappings : TableMappings}

/-! ## Scopes that rendering opens -/

/-- A relation that is entered from a scope, if any is open, with a slot of its own. -/
structure Opening where
  relation : Relation
  slot : Nat
  outer : Option Scope

/-- The scope of the rows that the relation leads to. -/
def Opening.scope (o : Opening) : Scope := ⟨o.relation.target, o.slot⟩

mutual

/-- What rendering enters, in order, from a scope and with a slot to begin at. -/
def openings : Predicate → Option Scope → Nat → List Opening
  | .and parts, outer, slot => openingsOf parts outer slot
  | .or parts, outer, slot => openingsOf parts outer slot
  | .related relation filter, outer, slot =>
    ⟨relation, slot, outer⟩ :: openings filter (some ⟨relation.target, slot⟩) (slot + 1)
  | _, _, _ => []

def openingsOf : List Predicate → Option Scope → Nat → List Opening
  | [], _, _ => []
  | p :: rest, outer, slot =>
    openings p outer slot ++ openingsOf rest outer (slot + p.relations.length)

end

theorem zipIdx_openingsOf {parts : List Predicate}
    (hparts : ∀ p ∈ parts, ∀ outer slot, (openings p outer slot).map (fun o => (o.relation, o.slot)) =
      p.relations.zipIdx slot) :
    ∀ outer slot, (openingsOf parts outer slot).map (fun o => (o.relation, o.slot)) =
      (Predicate.relationsOf parts).zipIdx slot := by
  induction parts with
  | nil => exact fun _ _ => rfl
  | cons p rest ih =>
    intro outer slot
    obtain ⟨hp, hrest⟩ := List.forall_mem_cons.mp hparts
    rw [openingsOf, List.map_append, hp, ih hrest, Predicate.relationsOf, List.zipIdx_append]

/-- Each relation of the predicate is entered once, and the slots are consecutive. -/
theorem zipIdx_openings (p : Predicate) :
    ∀ outer slot, (openings p outer slot).map (fun o => (o.relation, o.slot)) =
      p.relations.zipIdx slot := by
  induction p with
  | and parts ih => exact zipIdx_openingsOf ih
  | or parts ih => exact zipIdx_openingsOf ih
  | related relation filter ih =>
    intro outer slot
    rw [openings, List.map_cons, ih, Predicate.relations, List.zipIdx_cons]
  | _ => exact fun _ _ => rfl

theorem mem_openingsOf {parts : List Predicate} {outer : Option Scope} {o : Opening} :
    ∀ {slot : Nat}, o ∈ openingsOf parts outer slot →
      ∃ p ∈ parts, ∃ first, o ∈ openings p outer first := by
  induction parts with
  | nil => exact nofun
  | cons p rest ih =>
    intro slot ho
    rw [openingsOf] at ho
    rcases List.mem_append.mp ho with ho | ho
    · exact ⟨p, List.mem_cons_self, slot, ho⟩
    · obtain ⟨q, hq, first, ho⟩ := ih ho
      exact ⟨q, List.mem_cons_of_mem _ hq, first, ho⟩

/-- Where every relation leads on from the type on which it stands, it is entered from a
scope of that type. -/
theorem source_openings {leaf : ResourceType → FieldPath → List Json → Prop} {p : Predicate} :
    ∀ {type : ResourceType}, Predicate.Along leaf
        (fun source relation target => relation.source = source ∧ relation.target = target)
        type p →
      ∀ current slot, ∀ o ∈ openings p (some ⟨type, current⟩) slot,
        ∃ outer, o.outer = some outer ∧ outer.type = o.relation.source := by
  induction p with
  | and parts ih =>
    intro type h current slot o ho
    obtain ⟨p, hp, first, ho⟩ := mem_openingsOf ho
    exact ih p hp (Predicate.along_and.mp h p hp) current first o ho
  | or parts ih =>
    intro type h current slot o ho
    obtain ⟨p, hp, first, ho⟩ := mem_openingsOf ho
    exact ih p hp (Predicate.along_or.mp h p hp) current first o ho
  | related relation filter ih =>
    rintro type ⟨_, ⟨hsource, rfl⟩, hfilter⟩ current slot o ho
    rw [openings] at ho
    rcases List.mem_cons.mp ho with rfl | ho
    · exact ⟨⟨type, current⟩, rfl, hsource.symm⟩
    · exact ih hfilter slot _ o ho
  | _ => exact fun _ _ _ => nofun

/-! ## States of a renderer -/

/-- The states that the calls of a renderer lead to, together with the slots that have been
handed out.  The calls that are not listed leave the state as it is. -/
inductive RenderState.Reached (mappings : TableMappings) : List Nat → RenderState → Prop where
  | start (type : ResourceType) : Reached mappings [0] (.start type)
  | enter {handed : List Nat} {s : RenderState} (relation : Relation)
      (h : Reached mappings handed s) :
      Reached mappings (handed ++ [s.nextSlot]) ((renderer mappings).enter relation s)
  | leave {handed : List Nat} {s : RenderState} (relation : Relation)
      (filter : Except ConfigurationError Fragment) (h : Reached mappings handed s) :
      Reached mappings handed ((renderer mappings).leave relation filter s).2

namespace RenderState.Reached

variable {handed : List Nat} {s : RenderState}

theorem leave_state (relation : Relation) (filter : Except ConfigurationError Fragment)
    (s : RenderState) :
    ((renderer mappings).leave relation filter s).2 = ⟨s.scopes.tail, s.nextSlot⟩ := by
  obtain ⟨_ | ⟨inner, outer⟩, nextSlot⟩ := s <;> rfl

/-- The slots are handed out in order, none of them twice. -/
theorem handed_eq (h : Reached mappings handed s) : handed = List.range s.nextSlot := by
  induction h with
  | start type => rfl
  | @enter _ s relation _ ih =>
    show _ = List.range (s.nextSlot + 1)
    rw [List.range_succ, ih]
  | leave relation filter _ ih => rw [leave_state]; exact ih

/-- The open scopes have slots that were handed out, the innermost last. -/
theorem scopes_sublist (h : Reached mappings handed s) :
    (s.scopes.map Scope.slot).reverse.Sublist handed := by
  induction h with
  | start type => exact .refl _
  | @enter _ s relation _ ih =>
    show (s.nextSlot :: s.scopes.map Scope.slot).reverse.Sublist _
    rw [List.reverse_cons]
    exact ih.append (.refl _)
  | @leave _ s relation filter _ ih =>
    rw [leave_state]
    refine List.Sublist.trans (List.reverse_sublist.mpr ?_) ih
    exact (List.tail_sublist _).map _

theorem buildParts {parts : List Predicate}
    (hparts : ∀ p ∈ parts, ∀ handed s, Reached mappings handed s →
      Reached mappings (handed ++ (openings p s.scopes.head? s.nextSlot).map Opening.slot)
        (p.build (renderer mappings) s).2) :
    ∀ handed s, Reached mappings handed s →
      Reached mappings (handed ++ (openingsOf parts s.scopes.head? s.nextSlot).map Opening.slot)
        (Predicate.buildParts (renderer mappings) parts s).2 := by
  induction parts with
  | nil =>
    intro handed s h
    rw [openingsOf, List.map_nil, List.append_nil]
    exact h
  | cons p rest ih =>
    intro handed s h
    obtain ⟨hp, hrest⟩ := List.forall_mem_cons.mp hparts
    have hfirst := hp handed s h
    rw [state_build] at hfirst
    rw [buildParts_cons, state_build, openingsOf, List.map_append, ← List.append_assoc]
    exact ih hrest _ _ hfirst

/-- Rendering hands out the slots of the scopes that it opens. -/
theorem build (p : Predicate) : ∀ handed s, Reached mappings handed s →
    Reached mappings (handed ++ (openings p s.scopes.head? s.nextSlot).map Opening.slot)
      (p.build (renderer mappings) s).2 := by
  induction p with
  | and parts ih => exact buildParts ih
  | or parts ih => exact buildParts ih
  | related relation filter ih =>
    intro handed s h
    have hfilter := ih _ _ (h.enter relation)
    rw [build_related, openings, List.map_cons, List.append_cons]
    exact hfilter.leave relation _
  | _ =>
    intro handed s h
    rw [openings, List.map_nil, List.append_nil]
    · exact h
    all_goals nofun

end RenderState.Reached

/-! ## Conditions in scope -/

/-- The column is the one of a field in the table of the scope's type, by the alias of the
scope. -/
def Scope.Provides (mappings : TableMappings) (scope : Scope) (field : FieldPath)
    (c : ColumnRef) : Prop :=
  ∃ mapping, mappings.get scope.type = .ok mapping ∧
    mapping.column scope.slot scope.type field = .ok c

theorem provides_columnOf {scope : Scope} {field : FieldPath}
    (h : Located mappings scope.type field) :
    scope.Provides mappings field (Fragment.columnOf scope.slot field) := by
  obtain ⟨mapping, hmapping, hlocate⟩ := h
  exact ⟨mapping, hmapping, Outcome.map_eq_ok.mpr ⟨(), hlocate, rfl⟩⟩

/-- A reference is to a column of the current scope or of a subquery around the reference. -/
def Reference.InScope (mappings : TableMappings) (current : Option Scope)
    (opened : List Opening) (r : Reference) : Prop :=
  ∃ scope field, scope.Provides mappings field r.column ∧
    (current = some scope ∨ ∃ o ∈ opened, o.scope = scope ∧ o.slot ∈ r.enclosing)

/-- The subquery is over the table that the relation leads to, by the alias of its slot, and
joins a row there to one of the scope from which the relation was entered. -/
structure Opening.RenderedAs (mappings : TableMappings) (o : Opening) (q : Subquery) : Prop where
  slot : q.slot = o.slot
  table : ∃ mapping, mappings.get o.relation.target = .ok mapping ∧ q.table = mapping.table
  condition : ∃ outer innerColumn outerColumn filter, o.outer = some outer ∧
    o.scope.Provides mappings o.relation.targetField innerColumn ∧
    outer.Provides mappings o.relation.sourceField outerColumn ∧
    q.condition = .and (.compare .equal (.column innerColumn) (.column outerColumn)) filter

/-- The outline of a condition that opens certain scopes in the current one and refers to no
other. -/
structure Outline.Closed (mappings : TableMappings) (current : Option Scope)
    (opened : List Opening) (x : Outline) : Prop where
  subqueries : List.Forall₂ (Opening.RenderedAs mappings) opened x.subqueries
  references : ∀ r ∈ x.references, r.InScope mappings current opened

theorem Reference.InScope.mono {current : Option Scope} {opened opened' : List Opening}
    {r : Reference} (h : r.InScope mappings current opened) (hsub : opened ⊆ opened') :
    r.InScope mappings current opened' := by
  obtain ⟨scope, field, hprovides, hscope⟩ := h
  refine ⟨scope, field, hprovides, hscope.imp id ?_⟩
  rintro ⟨o, ho, hinner⟩
  exact ⟨o, hsub ho, hinner⟩

theorem closed_empty {current : Option Scope} : Outline.empty.Closed mappings current [] :=
  ⟨.nil, List.forall_mem_nil _⟩

theorem Outline.Closed.append {current : Option Scope} {opened opened' : List Opening}
    {x y : Outline} (hx : x.Closed mappings current opened)
    (hy : y.Closed mappings current opened') :
    (x.append y).Closed mappings current (opened ++ opened') := by
  refine ⟨List.rel_append hx.subqueries hy.subqueries, List.forall_mem_append.mpr ⟨?_, ?_⟩⟩
  · exact fun r hr => (hx.references r hr).mono (List.subset_append_left _ _)
  · exact fun r hr => (hy.references r hr).mono (List.subset_append_right _ _)

/-- A condition on one column opens nothing. -/
theorem closed_of_over {scope : Scope} {field : FieldPath} {f : Fragment} {e : Expr}
    {bs : List Value} (hfield : Located mappings scope.type field)
    (hover : f.Over (Fragment.columnOf scope.slot field = ·) fun _ => False)
    (he : Reads .disjunction f.tokens bs e) : e.outline.Closed mappings (some scope) [] := by
  constructor
  · have hnone : e.subqueries = [] :=
      List.eq_nil_iff_forall_not_mem.mpr fun q hq => hover _ (table_mem_of_reads he q hq)
    rw [Expr.outline, hnone]
    exact .nil
  · intro r hr
    have hcolumn : Fragment.columnOf scope.slot field = r.column :=
      hover _ (column_mem_of_reads he r hr)
    exact ⟨scope, field, hcolumn ▸ provides_columnOf hfield, .inl rfl⟩

/-- A subquery around a condition in the scope that it opens. -/
theorem closed_existing {relation : Relation} {slot : Nat} {scope : Scope}
    {mapping : TableMapping} {opened : List Opening} {e : Expr}
    (hmapping : mappings.get relation.target = .ok mapping)
    (hsource : Located mappings scope.type relation.sourceField)
    (htarget : Located mappings relation.target relation.targetField)
    (he : e.outline.Closed mappings (some ⟨relation.target, slot⟩) opened) :
    (Expr.exist mapping.table slot (.and (.compare .equal
        (.column (Fragment.columnOf slot relation.targetField))
        (.column (Fragment.columnOf scope.slot relation.sourceField))) (.group e))).outline.Closed
      mappings (some scope) (⟨relation, slot, some scope⟩ :: opened) := by
  let inner : Scope := ⟨relation.target, slot⟩
  have hinner : inner.Provides mappings relation.targetField
      (Fragment.columnOf inner.slot relation.targetField) := provides_columnOf htarget
  have houter := provides_columnOf hsource
  constructor
  · refine .cons ⟨rfl, ⟨mapping, hmapping, rfl⟩, ?_⟩ he.subqueries
    exact ⟨scope, _, _, _, rfl, hinner, houter, rfl⟩
  · intro r hr
    obtain ⟨r, hmem, rfl⟩ := List.mem_map.mp hr
    have hslot : slot ∈ r.enclosing ++ [slot] :=
      List.mem_append_right _ (List.mem_singleton.mpr rfl)
    rcases List.mem_append.mp hmem with hjoin | hmem
    · -- The join refers to the subquery itself and to the scope around it.
      rcases List.mem_cons.mp hjoin with rfl | hjoin
      · exact ⟨_, _, hinner, .inr ⟨_, List.mem_cons_self, rfl, hslot⟩⟩
      · obtain rfl := List.mem_singleton.mp hjoin
        exact ⟨scope, _, houter, .inl rfl⟩
    · obtain ⟨inner, field, hprovides, hcurrent | ⟨o, ho, hscope, henclosing⟩⟩ :=
        he.references r hmem
      · cases hcurrent
        exact ⟨_, field, hprovides, .inr ⟨_, List.mem_cons_self, rfl, hslot⟩⟩
      · exact ⟨inner, field, hprovides,
          .inr ⟨o, List.mem_cons_of_mem _ ho, hscope, List.mem_append_left _ henclosing⟩⟩

/-- The fragment reads as a condition that opens certain scopes and is closed otherwise. -/
def Fragment.Scoped (mappings : TableMappings) (current : Option Scope) (opened : List Opening)
    (f : Fragment) : Prop :=
  ∃ x, ReadsOutline .disjunction f.tokens (f.binds.map .ofJson) x ∧
    x.Closed mappings current opened

theorem scoped_parts {current : Option Scope} {slot : Nat} {parts : List Predicate}
    {fs : List Fragment}
    (h : InTurn (fun slot p f => f.Scoped mappings current (openings p current slot)) slot
      parts fs) :
    ∃ xs, List.Forall₂ (fun (f : Fragment) x =>
        ReadsOutline .disjunction f.tokens (f.binds.map .ofJson) x) fs xs ∧
      (xs.foldr Outline.append .empty).Closed mappings current
        (openingsOf parts current slot) := by
  induction h with
  | nil slot => exact ⟨[], .nil, closed_empty⟩
  | cons h _ ih =>
    obtain ⟨x, hreads, hclosed⟩ := h
    obtain ⟨xs, hothers, hrest⟩ := ih
    exact ⟨x :: xs, .cons hreads hothers, hclosed.append hrest⟩

/-- Where rendering succeeds, the condition opens a scope for each relation and is closed
otherwise. -/
theorem scoped_build {p : Predicate} {s : RenderState} {f : Fragment}
    (h : (p.build (renderer mappings) s).1 = .ok f) :
    f.Scoped mappings s.scopes.head? (openings p s.scopes.head? s.nextSlot) := by
  refine induct_build (motive := fun current slot p f =>
    f.Scoped mappings current (openings p current slot)) ?_ ?_ ?_ ?_ ?_ ?_ p s f h
  · exact fun _ _ value => ⟨_, readsOutline_constant value, closed_empty⟩
  · intro scope _ field comparison value hfield
    have hdenotes : (Fragment.comparing (Fragment.columnOf scope.slot field) comparison
        value).Denotes [] scope.slot _ := Fragment.denotes_comparing field comparison value
    obtain ⟨e, he⟩ := hdenotes
    exact ⟨_, ⟨e, he.reads, rfl⟩, closed_of_over hfield
      (Fragment.over_comparing rfl comparison value) he.reads⟩
  · intro scope _ field values hfield
    have hdenotes : (Fragment.membership (Fragment.columnOf scope.slot field) values).Denotes []
        scope.slot _ := Fragment.denotes_membership field values
    obtain ⟨e, he⟩ := hdenotes
    exact ⟨_, ⟨e, he.reads, rfl⟩, closed_of_over hfield
      (Fragment.over_membership rfl values) he.reads⟩
  · intro current slot parts fs hparts
    obtain ⟨xs, hreads, hclosed⟩ := scoped_parts hparts
    exact ⟨_, Fragment.joins_joined joins_outline_and hreads, hclosed⟩
  · intro current slot parts fs hparts
    obtain ⟨xs, hreads, hclosed⟩ := scoped_parts hparts
    exact ⟨_, Fragment.joins_joined joins_outline_or hreads, hclosed⟩
  · rintro scope slot relation filter mapping f hmapping hsource htarget ⟨_, ⟨e, he, rfl⟩, hclosed⟩
    have hreads := Reads.exist 1 mapping.table slot (.disjunct (.and (.conjunct (.compare .equal
      (.column (Fragment.columnOf slot relation.targetField))
      (.column (Fragment.columnOf scope.slot relation.sourceField)))) (.group he)))
    exact ⟨_, ⟨_, .disjunct (.conjunct hreads), rfl⟩,
      closed_existing hmapping hsource htarget hclosed⟩

/-! ## Parameters in the text -/

theorem mark_not_mem_columnOf (slot : Nat) (field : FieldPath) :
    '?' ∉ (Fragment.columnOf slot field).text.toList := by
  obtain ⟨hroot, hnested⟩ := written_columnOf slot field
  have hword : ∀ cs : List Char, (∀ c ∈ cs, Lexer.isWordChar c = true) → '?' ∉ cs :=
    fun cs hcs hmark => absurd (hcs '?' hmark) (by decide)
  have halias := hword _ (Lexer.isWordChar_aliasName slot)
  have hcolumn := hword _ (Lexer.isWordChar_of_isIdentifier hroot)
  have hpath : '?' ∉ (String.intercalate "." field.nested).toList :=
    Lexer.not_mem_path (by decide) (by decide) hnested
  rw [ColumnRef.text, columnText]
  split
  · simp [String.toList_append, halias, hcolumn]
  · simpa [String.toList_append, halias, hcolumn] using hpath

/-- No token has a question mark in it but a parameter. -/
theorem mark_not_mem_text {names : String → Prop} (hnames : ∀ name, names name → '?' ∉ name.toList)
    {t : Token} (h : t.Over (fun c => ∃ slot field, c = Fragment.columnOf slot field) names)
    (ht : t ≠ .parameter) : '?' ∉ t.text.toList := by
  cases t with
  | word k => cases k <;> decide
  | column c =>
    obtain ⟨slot, field, rfl⟩ := h
    exact mark_not_mem_columnOf slot field
  | parameter => exact absurd rfl ht
  | number n =>
    have htext : (Token.number n).text.toList = Nat.toDigits 10 n := Nat.toList_repr
    rw [htext]
    exact fun hmark => absurd (Lexer.isDigit_of_mem n '?' hmark) (by decide)
  | literal s =>
    have hkinds : ∀ s ∈ ["integer", "real", "text"], '?' ∉ (Token.literal s).text.toList := by
      decide
    exact hkinds s h
  | table name => exact hnames name h
  | tableAlias slot =>
    exact fun hmark => absurd (Lexer.isWordChar_aliasName slot '?' hmark) (by decide)
  | operator c => cases c <;> decide
  | _ => decide

theorem count_mark_rowText {ts : List Token}
    (h : ∀ t ∈ ts, t ≠ .parameter → '?' ∉ t.text.toList) :
    (Token.rowText ts).toList.count '?' = ts.count .parameter := by
  have htoken : ∀ t ∈ ts, t.text.toList.count '?' = [t].count .parameter := by
    intro t ht
    by_cases hparameter : t = .parameter
    · rw [hparameter]
      rfl
    · rw [List.count_eq_zero_of_not_mem (h t ht hparameter),
        List.count_singleton, if_neg (by simpa using hparameter)]
  induction ts with
  | nil => rfl
  | cons t ts ih =>
    obtain ⟨ht, hts⟩ := List.forall_mem_cons.mp htoken
    have hrest := ih (List.forall_mem_cons.mp h).2 hts
    cases ts with
    | nil => exact ht
    | cons u rest =>
      have hseparator : (if Token.adjoins t u then "" else " ").toList.count '?' = 0 := by
        split <;> rfl
      rw [Token.rowText, String.toList_append, String.toList_append, List.count_append,
        List.count_append, ht, hseparator, hrest, Nat.add_zero, ← List.count_append]
      rfl

/-- The text has one question mark for each value that is bound. -/
theorem count_mark_build (hnames : ∀ m ∈ mappings, '?' ∉ m.2.table.toList) {p : Predicate}
    {s : RenderState} {f : Fragment} (h : (p.build (renderer mappings) s).1 = .ok f) {e : Expr}
    (he : Reads .disjunction f.tokens (f.binds.map .ofJson) e) :
    f.text.toList.count '?' = f.binds.length := by
  have hmarks : ∀ t ∈ f.tokens, t ≠ .parameter → '?' ∉ t.text.toList := fun t ht =>
    mark_not_mem_text (fun name ⟨m, hm, htable⟩ => htable ▸ hnames m hm) (over_build h t ht)
  rw [Fragment.text, count_mark_rowText hmarks, count_parameter he, List.length_map]

/-! ## Renderings -/

theorem aliasName_injective {m n : Nat} (h : aliasName m = aliasName n) : m = n := by
  have hslot := congrArg (fun name => Lexer.slot? name.toList) h
  simp only [Lexer.slot?_aliasName] at hslot
  exact Option.some.inj hslot

theorem nodup_aliases {slots : List Nat} (h : slots.Nodup) : (slots.map aliasName).Nodup :=
  List.Nodup.map (fun _ _ => aliasName_injective) h

/-- Rendering keeps the scopes whether or not it fails, and enters each relation once, with
consecutive slots.  No alias that was handed out before is used again, and none hides that of
an open scope.  A condition opens one subquery for each relation and refers to the current
scope and the subqueries around the reference alone, each by the table of its type, and its
text has one question mark for each bound value.  What a request is compiled to enters every
relation from a scope of the type that the relation leads on from. -/
theorem scopes_balanced_fresh_closed (mappings : TableMappings) (p : Predicate)
    (s : RenderState) :
    let rendered := p.build (renderer mappings) s
    let opened := openings p s.scopes.head? s.nextSlot
    (rendered.2.scopes = s.scopes ∧
      opened.map (fun o => (o.relation, o.slot)) = p.relations.zipIdx s.nextSlot ∧
      rendered.2.nextSlot = s.nextSlot + p.relations.length) ∧
    (∀ handed, RenderState.Reached mappings handed s →
      RenderState.Reached mappings (handed ++ opened.map Opening.slot) rendered.2 ∧
      ((handed ++ opened.map Opening.slot).map aliasName).Nodup ∧
      ((s.scopes.map Scope.slot ++ opened.map Opening.slot).map aliasName).Nodup) ∧
    (∀ f, rendered.1 = .ok f →
      (∃ e, Expr.read? f.tokens (f.binds.map .ofJson) = some e ∧
        List.Forall₂ (Opening.RenderedAs mappings) opened e.subqueries ∧
        e.references.map Reference.column = f.columns ∧
        ∀ r ∈ e.references, r.InScope mappings s.scopes.head? opened) ∧
      ((∀ m ∈ mappings, '?' ∉ m.2.table.toList) → f.text.toList.count '?' = f.binds.length)) ∧
    ∀ registry ambient type, CompiledFor registry ambient type p →
      s.scopes.head?.map Scope.type = some type →
      ∀ o ∈ opened, ∃ outer, o.outer = some outer ∧ outer.type = o.relation.source := by
  intro rendered opened
  have hstate : rendered.2 = s.after p.relations := state_build mappings p s
  refine ⟨⟨?_, zipIdx_openings p _ _, ?_⟩, ?_, ?_, ?_⟩
  · rw [hstate]
    rfl
  · rw [hstate]
    rfl
  · intro handed hreached
    have hafter := RenderState.Reached.build p handed s hreached
    have hnodup : (handed ++ opened.map Opening.slot).Nodup :=
      hafter.handed_eq ▸ List.nodup_range
    -- Scopes are listed from the innermost, slots as they were handed out.
    have hopen : ((s.scopes.map Scope.slot).reverse ++ opened.map Opening.slot).Nodup :=
      hnodup.sublist (hreached.scopes_sublist.append_right _)
    refine ⟨hafter, nodup_aliases hnodup, nodup_aliases ?_⟩
    exact ((List.reverse_perm _).append_right _).nodup_iff.mp hopen
  · intro f hf
    obtain ⟨_, ⟨e, he, rfl⟩, hclosed⟩ := scoped_build hf
    exact ⟨⟨e, Expr.read?_of_reads he, hclosed.subqueries, (columns_of_reads he).symm,
      hclosed.references⟩, fun hnames => count_mark_build hnames hf he⟩
  · intro registry ambient type hcompiled htype
    obtain ⟨⟨_, current⟩, hscope, rfl⟩ := Option.map_eq_some_iff.mp htype
    show ∀ o ∈ openings p s.scopes.head? s.nextSlot, _
    rw [hscope]
    exact source_openings hcompiled.built.along current s.nextSlot

open Specification.Absorption in
/-- The user's own tasks that have a document, and all tasks of a document to which a task of
the north belongs. -/
theorem scopes_balanced_fresh_closed_granted :
    let s := RenderState.start WorkflowKind.task.type
    let opened := openings granted (some ⟨WorkflowKind.task.type, 0⟩) 1
    RenderState.Reached Database.mappings [0] s ∧
      CompiledFor Specification.Absorption.registry .fresh WorkflowKind.task.type granted ∧
      (∀ m ∈ Database.mappings, '?' ∉ m.2.table.toList) ∧
      (([0] ++ opened.map Opening.slot).map aliasName).Nodup ∧
      (∃ f, (granted.build (renderer Database.mappings) s).1 = .ok f ∧
        (∃ e, Expr.read? f.tokens (f.binds.map .ofJson) = some e ∧
          List.Forall₂ (Opening.RenderedAs Database.mappings) opened e.subqueries) ∧
        f.text.toList.count '?' = f.binds.length) ∧
      ∀ o ∈ opened, ∃ outer, o.outer = some outer ∧ outer.type = o.relation.source := by
  intro s opened
  have hreached : RenderState.Reached Database.mappings [0] s := .start _
  have hcompiled : CompiledFor Specification.Absorption.registry .fresh WorkflowKind.task.type
      granted := by
    have h : Specification.compile Specification.Absorption.registry .fresh principal request
        grants = .ok ⟨WorkflowKind.task.type, .view, granted, true, .entity (some task)⟩ := rfl
    exact .whole h
  have hnames : ∀ m ∈ Database.mappings, '?' ∉ m.2.table.toList := by decide
  have hf : ∃ f, (granted.build (renderer Database.mappings) s).1 = .ok f := ⟨_, rfl⟩
  obtain ⟨f, hf⟩ := hf
  obtain ⟨_, hfresh, hrendered, hsource⟩ :=
    scopes_balanced_fresh_closed Database.mappings granted s
  obtain ⟨⟨e, hread, hsubqueries, _⟩, hcount⟩ := hrendered f hf
  exact ⟨hreached, hcompiled, hnames, (hfresh [0] hreached).2.1,
    ⟨f, hf, ⟨e, hread, hsubqueries⟩, hcount hnames⟩, hsource _ _ _ hcompiled rfl⟩

end Sql
end AccessPolicy
