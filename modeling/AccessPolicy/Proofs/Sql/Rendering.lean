/-
What a rendered predicate denotes.

Rendering keeps the scope it is in and gives every subquery a slot of its own.
The condition of a predicate therefore denotes, on the rows of the innermost
scope, the meaning of the predicate over stored rows, and its text says all of it.
-/
import AccessPolicy.Proofs.Outcome
import AccessPolicy.Proofs.Sql.Denotation
import AccessPolicy.Proofs.Sql.Lexing

namespace AccessPolicy
namespace Sql

open Outcome (FailsOnly)
open Sql.Expr (Reads ReadsOperand)

variable {mappings : TableMappings} {tables : List (String × Table)}

/-! ## Scopes -/

theorem build_related (relation : Relation) (filter : Predicate) (s : RenderState) :
    (Predicate.related relation filter).build (renderer mappings) s =
      leaveScope mappings relation
        (filter.build (renderer mappings) ((renderer mappings).enter relation s)).1
        (filter.build (renderer mappings) ((renderer mappings).enter relation s)).2 := by
  rw [Predicate.build]
  rfl

theorem buildParts_cons (p : Predicate) (rest : List Predicate) (s : RenderState) :
    Predicate.buildParts (renderer mappings) (p :: rest) s =
      ((p.build (renderer mappings) s).1 ::
          (Predicate.buildParts (renderer mappings) rest (p.build (renderer mappings) s).2).1,
        (Predicate.buildParts (renderer mappings) rest (p.build (renderer mappings) s).2).2) := by
  rw [Predicate.buildParts]

/-- The state after some relations have been entered and left. -/
def RenderState.after (s : RenderState) (relations : List Relation) : RenderState :=
  ⟨s.scopes, s.nextSlot + relations.length⟩

theorem state_parts {parts : List Predicate}
    (hparts : ∀ p ∈ parts, ∀ s, (p.build (renderer mappings) s).2 = s.after p.relations) :
    ∀ s : RenderState, (Predicate.buildParts (renderer mappings) parts s).2 =
      s.after (Predicate.relationsOf parts) := by
  induction parts with
  | nil => exact fun s => rfl
  | cons p rest ih =>
    intro s
    obtain ⟨hp, hrest⟩ := List.forall_mem_cons.mp hparts
    rw [buildParts_cons, hp s, ih hrest, Predicate.relationsOf]
    simp only [RenderState.after, List.length_append, Nat.add_assoc]

variable (mappings) in
/-- Rendering keeps the scopes and takes up one slot for each relation, whether or not
it fails. -/
theorem state_build (p : Predicate) :
    ∀ s : RenderState, (p.build (renderer mappings) s).2 = s.after p.relations := by
  induction p with
  | and parts ih => exact fun s => state_parts ih s
  | or parts ih => exact fun s => state_parts ih s
  | related relation filter ih =>
    intro s
    rw [build_related, ih, leaveScope]
    show RenderState.mk s.scopes (s.nextSlot + 1 + filter.relations.length) = _
    rw [RenderState.after, Predicate.relations, List.length_cons, Nat.add_assoc,
      Nat.add_comm 1]
  | _ => exact fun s => rfl

/-! ## Induction -/

/-- The field has a place in the table of the type. -/
def Located (mappings : TableMappings) (type : ResourceType) (field : FieldPath) : Prop :=
  ∃ mapping, mappings.get type = .ok mapping ∧ mapping.locate type field = .ok ()

theorem of_column {s : RenderState} {scope : Scope} {outer : List Scope} {field : FieldPath}
    {c : ColumnRef} (hs : s.scopes = scope :: outer) (h : s.column mappings field = .ok c) :
    Located mappings scope.type field ∧ c = Fragment.columnOf scope.slot field := by
  rw [RenderState.column, hs] at h
  simp only at h
  split at h
  · cases h
  · rename_i mapping hmapping
    obtain ⟨_, hlocate, rfl⟩ := Outcome.map_eq_ok.mp h
    exact ⟨⟨mapping, hmapping, hlocate⟩, rfl⟩

theorem collected_cons {ε α : Type} {x : Except ε α} {rest : List (Except ε α)} {as : List α}
    (h : collected (x :: rest) = .ok as) :
    ∃ a others, x = .ok a ∧ collected rest = .ok others ∧ as = a :: others := by
  cases x with
  | error e => cases h
  | ok a =>
    obtain ⟨others, hothers, rfl⟩ := Outcome.map_eq_ok.mp h
    exact ⟨a, others, rfl, hothers, rfl⟩

theorem collected_map_ok {ε α β : Type} (f : α → β) (l : List α) :
    collected (l.map fun a => (.ok (f a) : Except ε β)) = .ok (l.map f) := by
  induction l with
  | nil => rfl
  | cons a rest ih =>
    rw [List.map_cons, collected, ih]
    rfl

/-- Parts and their conditions when each part is rendered at the slot at which those
before it have left off. -/
inductive InTurn (motive : Nat → Predicate → Fragment → Prop) :
    Nat → List Predicate → List Fragment → Prop where
  | nil (slot : Nat) : InTurn motive slot [] []
  | cons {slot : Nat} {p : Predicate} {f : Fragment} {rest : List Predicate}
      {others : List Fragment} (h : motive slot p f)
      (hrest : InTurn motive (slot + p.relations.length) rest others) :
      InTurn motive slot (p :: rest) (f :: others)

theorem InTurn.forall₂ {motive : Nat → Predicate → Fragment → Prop}
    {R : Predicate → Fragment → Prop} {slot : Nat} {parts : List Predicate} {fs : List Fragment}
    (h : InTurn motive slot parts fs)
    (himp : ∀ n p f, slot ≤ n → motive n p f → R p f) : List.Forall₂ R parts fs := by
  induction h with
  | nil slot => exact .nil
  | cons h _ ih =>
    refine .cons (himp _ _ _ (Nat.le_refl _) h) (ih fun n p f hn => ?_)
    exact himp n p f (Nat.le_trans (Nat.le_add_right _ _) hn)

/-- The parts of a connective are rendered one after the other in one scope. -/
theorem inTurn_parts {motive : Option Scope → Nat → Predicate → Fragment → Prop}
    {parts : List Predicate}
    (hparts : ∀ p ∈ parts, ∀ s f, (p.build (renderer mappings) s).1 = .ok f →
      motive s.scopes.head? s.nextSlot p f) :
    ∀ (s : RenderState) (fs : List Fragment),
      collected (Predicate.buildParts (renderer mappings) parts s).1 = .ok fs →
      InTurn (motive s.scopes.head?) s.nextSlot parts fs := by
  induction parts with
  | nil =>
    intro s fs hfs
    cases hfs
    exact .nil _
  | cons p rest ih =>
    intro s fs hfs
    obtain ⟨hp, hrest⟩ := List.forall_mem_cons.mp hparts
    rw [buildParts_cons, state_build] at hfs
    obtain ⟨f, others, hf, hothers, rfl⟩ := collected_cons hfs
    exact .cons (hp s f hf) (ih hrest (s.after p.relations) others hothers)

theorem of_column_head {s : RenderState} {field : FieldPath} {c : ColumnRef}
    (h : s.column mappings field = .ok c) :
    ∃ scope, s.scopes.head? = some scope ∧ Located mappings scope.type field ∧
      c = Fragment.columnOf scope.slot field := by
  cases hs : s.scopes with
  | nil =>
    rw [RenderState.column, hs] at h
    cases h
  | cons scope outer =>
    obtain ⟨hfield, rfl⟩ := of_column hs h
    exact ⟨scope, rfl, hfield, rfl⟩

theorem column_of_located {s : RenderState} {field : FieldPath} {scope : Scope}
    (hscope : s.scopes.head? = some scope) (hfield : Located mappings scope.type field) :
    s.column mappings field = .ok (Fragment.columnOf scope.slot field) := by
  obtain ⟨mapping, hmapping, hlocate⟩ := hfield
  obtain ⟨outer, hs⟩ := List.head?_eq_some_iff.mp hscope
  rw [RenderState.column, hs]
  simp only [hmapping, TableMapping.column, hlocate]
  rfl

/-- A subquery is rendered in a scope of its own, which is left with its
condition. -/
theorem of_build_related {relation : Relation} {filter : Predicate} {s : RenderState}
    {f : Fragment} (h : ((Predicate.related relation filter).build (renderer mappings) s).1 = .ok f) :
    ∃ g mapping scope,
      (filter.build (renderer mappings) ((renderer mappings).enter relation s)).1 = .ok g ∧
      mappings.get relation.target = .ok mapping ∧ s.scopes.head? = some scope ∧
      Located mappings scope.type relation.sourceField ∧
      Located mappings relation.target relation.targetField ∧
      f = .existing mapping.table s.nextSlot
        (Fragment.columnOf s.nextSlot relation.targetField)
        (Fragment.columnOf scope.slot relation.sourceField) g := by
  rw [build_related, state_build, leaveScope] at h
  obtain ⟨g, hg, h⟩ := Outcome.bind_eq_ok.mp h
  obtain ⟨mapping, hmapping, h⟩ := Outcome.bind_eq_ok.mp h
  obtain ⟨innerColumn, hinnerColumn, h⟩ := Outcome.bind_eq_ok.mp h
  obtain ⟨outerColumn, houterColumn, h⟩ := Outcome.bind_eq_ok.mp h
  cases h
  obtain ⟨_, hlocate, rfl⟩ := Outcome.map_eq_ok.mp hinnerColumn
  obtain ⟨scope, hscope, hsource, rfl⟩ := of_column_head houterColumn
  exact ⟨g, mapping, scope, hg, hmapping, hscope, hsource, ⟨mapping, hmapping, hlocate⟩, rfl⟩

/-- Induction over the rendering of a predicate from any state.  A scope, the next slot, a
predicate and its condition have a property when rendering each form of predicate brings it
about. -/
theorem induct_build {motive : Option Scope → Nat → Predicate → Fragment → Prop}
    (literal : ∀ scope slot value, motive scope slot (.literal value) (.constant value))
    (compare : ∀ scope slot field comparison value, Located mappings scope.type field →
      motive (some scope) slot (.compare field comparison value)
        (.comparing (Fragment.columnOf scope.slot field) comparison value))
    (oneOf : ∀ scope slot field values, Located mappings scope.type field →
      motive (some scope) slot (.oneOf field values)
        (.membership (Fragment.columnOf scope.slot field) values))
    (and : ∀ scope slot parts fs, InTurn (motive scope) slot parts fs →
      motive scope slot (.and parts) (.joined .AND true fs))
    (or : ∀ scope slot parts fs, InTurn (motive scope) slot parts fs →
      motive scope slot (.or parts) (.joined .OR false fs))
    (related : ∀ scope slot relation filter mapping f,
      mappings.get relation.target = .ok mapping →
      Located mappings scope.type relation.sourceField →
      Located mappings relation.target relation.targetField →
      motive (some ⟨relation.target, slot⟩) (slot + 1) filter f →
      motive (some scope) slot (.related relation filter) (.existing mapping.table slot
        (Fragment.columnOf slot relation.targetField)
        (Fragment.columnOf scope.slot relation.sourceField) f))
    (p : Predicate) :
    ∀ (s : RenderState) (f : Fragment), (p.build (renderer mappings) s).1 = .ok f →
      motive s.scopes.head? s.nextSlot p f := by
  induction p with
  | literal value =>
    intro s f hf
    cases hf
    exact literal _ _ value
  | compare field comparison value =>
    intro s f hf
    obtain ⟨c, hc, rfl⟩ := Outcome.map_eq_ok.mp hf
    obtain ⟨scope, hscope, hfield, rfl⟩ := of_column_head hc
    rw [hscope]
    exact compare scope _ field comparison value hfield
  | oneOf field values =>
    intro s f hf
    obtain ⟨c, hc, rfl⟩ := Outcome.map_eq_ok.mp hf
    obtain ⟨scope, hscope, hfield, rfl⟩ := of_column_head hc
    rw [hscope]
    exact oneOf scope _ field values hfield
  | and parts ih =>
    intro s f hf
    obtain ⟨fs, hfs, rfl⟩ := Outcome.map_eq_ok.mp hf
    exact and _ _ parts fs (inTurn_parts ih s fs hfs)
  | or parts ih =>
    intro s f hf
    obtain ⟨fs, hfs, rfl⟩ := Outcome.map_eq_ok.mp hf
    exact or _ _ parts fs (inTurn_parts ih s fs hfs)
  | related relation filter ih =>
    intro s f hf
    obtain ⟨g, mapping, scope, hg, hmapping, hscope, hsource, htarget, rfl⟩ := of_build_related hf
    rw [hscope]
    exact related scope s.nextSlot relation filter mapping g hmapping hsource htarget
      (ih ((renderer mappings).enter relation s) g hg)

/-- Induction over the rendering of a predicate in a scope whose slot is below the next
one, so that the slot of every subquery is another. -/
theorem induct_build_in {motive : Scope → Predicate → Fragment → Prop}
    (literal : ∀ scope value, motive scope (.literal value) (.constant value))
    (compare : ∀ scope field comparison value, Located mappings scope.type field →
      motive scope (.compare field comparison value)
        (.comparing (Fragment.columnOf scope.slot field) comparison value))
    (oneOf : ∀ scope field values, Located mappings scope.type field →
      motive scope (.oneOf field values)
        (.membership (Fragment.columnOf scope.slot field) values))
    (and : ∀ scope parts fs, List.Forall₂ (motive scope) parts fs →
      motive scope (.and parts) (.joined .AND true fs))
    (or : ∀ scope parts fs, List.Forall₂ (motive scope) parts fs →
      motive scope (.or parts) (.joined .OR false fs))
    (related : ∀ scope relation filter slot mapping f, slot ≠ scope.slot →
      mappings.get relation.target = .ok mapping →
      Located mappings scope.type relation.sourceField →
      Located mappings relation.target relation.targetField →
      motive ⟨relation.target, slot⟩ filter f →
      motive scope (.related relation filter) (.existing mapping.table slot
        (Fragment.columnOf slot relation.targetField)
        (Fragment.columnOf scope.slot relation.sourceField) f))
    {type : ResourceType} {p : Predicate} {f : Fragment} (h : render mappings type p = .ok f) :
    motive ⟨type, 0⟩ p f := by
  -- The open slots lie below the next one, which only grows.
  refine induct_build (motive := fun current slot p f =>
    ∀ scope, current = some scope → scope.slot < slot → motive scope p f)
    ?_ ?_ ?_ ?_ ?_ ?_ p (.start type) f h ⟨type, 0⟩ rfl Nat.one_pos
  · exact fun _ _ value scope _ _ => literal scope value
  · rintro scope _ field comparison value hfield _ ⟨⟩ _
    exact compare scope field comparison value hfield
  · rintro scope _ field values hfield _ ⟨⟩ _
    exact oneOf scope field values hfield
  · exact fun _ slot parts fs hparts scope hscope hslot => and scope parts fs
      (hparts.forall₂ fun n p f hn hp => hp scope hscope (Nat.lt_of_lt_of_le hslot hn))
  · exact fun _ slot parts fs hparts scope hscope hslot => or scope parts fs
      (hparts.forall₂ fun n p f hn hp => hp scope hscope (Nat.lt_of_lt_of_le hslot hn))
  · rintro scope slot relation filter mapping f hmapping hsource htarget hfilter _ ⟨⟩ hslot
    exact related scope relation filter slot mapping f (Nat.ne_of_gt hslot) hmapping hsource
      htarget (hfilter ⟨relation.target, slot⟩ rfl (Nat.lt_succ_self _))

/-! ## Subqueries -/

theorem and3_eq_true (x : Option Bool) (b : Bool) :
    (and3 x (some b) == some true) = (x == some true && b) := by
  cases x with
  | none => cases b <;> rfl
  | some x => cases x <;> cases b <;> rfl

theorem eval_join {slot inner : Nat} {relation : Relation} {env : List Binding} {site row : Site}
    (hne : inner ≠ slot) (hsite : site.BoundIn slot env) :
    ((Expr.compare .equal (.column (Fragment.columnOf inner relation.targetField))
      (.column (Fragment.columnOf slot relation.sourceField))).eval tables
        (row.binding inner :: env) == some true) = site.joins relation row := by
  have hrow := row.boundIn_cons inner env
  have houter : site.BoundIn slot (row.binding inner :: env) := Site.boundIn_cons_of_ne hne hsite
  rw [Expr.eval]
  simp only [Operand.eval, Operand.affinity, Site.value_column hrow, Site.affinity_column hrow,
    Site.value_column houter, Site.affinity_column houter]
  rfl

/-- A subquery denotes that some joined row passes the filter. -/
theorem denotes_existing {slot inner : Nat} (relation : Relation) (name : String)
    {filter : Fragment} {holds : Site → Bool} (hne : inner ≠ slot)
    (hfilter : filter.Denotes tables inner holds) :
    (Fragment.existing name inner (Fragment.columnOf inner relation.targetField)
      (Fragment.columnOf slot relation.sourceField) filter).Denotes tables slot fun site =>
        match tables.lookup name with
        | none => false
        | some t => ((t.rows.map (Site.mk t.columns)).filter (site.joins relation)).any holds := by
  obtain ⟨e, hdenotes⟩ := hfilter
  have he := hdenotes.group
  have hreads := Reads.exist 1 name inner (.disjunct (.and (.conjunct (.compare .equal
    (.column (Fragment.columnOf inner relation.targetField))
    (.column (Fragment.columnOf slot relation.sourceField)))) he.reads))
  refine ⟨_, .disjunct (.conjunct hreads), fun env site hsite => ?_⟩
  rw [Expr.eval]
  cases tables.lookup name with
  | none => rfl
  | some t =>
    simp only [List.any_filter, List.any_map]
    refine congrArg some (Predicate.any_eq_any fun row _ => ?_)
    have hbound := (Site.mk t.columns row).boundIn_cons inner env
    have hrow : Binding.mk inner t.columns row = (Site.mk t.columns row).binding inner := rfl
    rw [Expr.eval, hrow, he.eval _ _ hbound, and3_eq_true, eval_join hne hsite]
    rfl

/-! ## Meanings -/

variable (tables) in
/-- The condition of a predicate denotes the meaning of the predicate. -/
theorem denotes_of_render {type : ResourceType} {p : Predicate} {f : Fragment}
    (h : render mappings type p = .ok f) :
    f.Denotes tables 0 (Predicate.satisfies (interpretation mappings tables) p) := by
  refine induct_build_in (motive := fun scope p f => f.Denotes tables scope.slot
    (Predicate.satisfies (interpretation mappings tables) p)) ?_ ?_ ?_ ?_ ?_ ?_ h
  · exact fun scope value => Fragment.denotes_constant value
  · exact fun scope field comparison value _ => Fragment.denotes_comparing field comparison value
  · exact fun scope field values _ => Fragment.denotes_membership field values
  · intro scope parts fs hparts
    have hmeaning : Predicate.satisfies (interpretation mappings tables) (.and parts) =
        fun site => (parts.map (Predicate.satisfies (interpretation mappings tables))).all
          fun q => q site := by
      funext site
      rw [Predicate.satisfies_and, List.all_map]
      rfl
    rw [hmeaning]
    exact Fragment.denotes_joined_and (List.forall₂_map_right_iff.mpr hparts.flip)
  · intro scope parts fs hparts
    have hmeaning : Predicate.satisfies (interpretation mappings tables) (.or parts) =
        fun site => (parts.map (Predicate.satisfies (interpretation mappings tables))).any
          fun q => q site := by
      funext site
      rw [Predicate.satisfies_or, List.any_map]
      rfl
    rw [hmeaning]
    exact Fragment.denotes_joined_or (List.forall₂_map_right_iff.mpr hparts.flip)
  · intro scope relation filter slot mapping f hne hmapping _ _ hfilter
    have hmeaning : Predicate.satisfies (interpretation mappings tables) (.related relation filter) =
        fun site => match tables.lookup mapping.table with
          | none => false
          | some t => ((t.rows.map (Site.mk t.columns)).filter (site.joins relation)).any
              (Predicate.satisfies (interpretation mappings tables) filter) := by
      funext site
      rw [Predicate.satisfies_related]
      change (Site.joined mappings tables relation site).any _ = _
      rw [Site.joined]
      simp only [hmapping]
      cases tables.lookup mapping.table with
      | none => rfl
      | some t => rfl
    rw [hmeaning]
    exact denotes_existing relation mapping.table hne hfilter

/-! ## Places of fields -/

/-- Every field of the predicate has a place in the table it is compared in, and
relations join by fields that have one. -/
def AllLocated (mappings : TableMappings) : ResourceType → Predicate → Prop :=
  Predicate.Along (fun type field _ => Located mappings type field)
    fun type relation target => target = relation.target ∧
      Located mappings type relation.sourceField ∧ Located mappings target relation.targetField

theorem allLocated_of_render {type : ResourceType} {p : Predicate} {f : Fragment}
    (h : render mappings type p = .ok f) : AllLocated mappings type p := by
  refine induct_build_in (motive := fun scope p _ => AllLocated mappings scope.type p)
    ?_ ?_ ?_ ?_ ?_ ?_ h
  · exact fun _ _ => trivial
  · exact fun _ _ _ _ hfield => hfield
  · exact fun _ _ _ hfield => hfield
  · intro scope parts fs hparts
    refine Predicate.along_and.mpr fun p hp => ?_
    obtain ⟨_, _, hlocated⟩ := Outcome.exists_of_forall₂ hparts.flip p hp
    exact hlocated
  · intro scope parts fs hparts
    refine Predicate.along_or.mpr fun p hp => ?_
    obtain ⟨_, _, hlocated⟩ := Outcome.exists_of_forall₂ hparts.flip p hp
    exact hlocated
  · intro scope relation filter slot mapping f _ _ hsource htarget hfilter
    exact ⟨relation.target, ⟨rfl, hsource, htarget⟩, hfilter⟩

/-! ## Failures -/

/-- The place of a field in the table of a type. -/
def TableMappings.place (mappings : TableMappings) (type : ResourceType) (field : FieldPath) :
    Except ConfigurationError Unit :=
  mappings.get type >>= fun mapping => mapping.locate type field

theorem located_iff_place {type : ResourceType} {field : FieldPath} :
    Located mappings type field ↔ mappings.place type field = .ok () :=
  Outcome.bind_eq_ok.symm

/-- Looking for the places that the predicate asks for fails only in one way. -/
def PlacedUnless (mappings : TableMappings) (P : ConfigurationError → Prop) :
    ResourceType → Predicate → Prop :=
  Predicate.Along (fun type field _ => FailsOnly (mappings.place type field) P)
    fun type relation target => target = relation.target ∧
      FailsOnly (mappings.place type relation.sourceField) P ∧
        FailsOnly (mappings.place target relation.targetField) P

section

variable {P : ConfigurationError → Prop}

theorem failsOnly_get {type : ResourceType} {field : FieldPath}
    (h : FailsOnly (mappings.place type field) P) : FailsOnly (mappings.get type) P := by
  intro e he
  refine h e ?_
  rw [TableMappings.place, he]
  rfl

theorem failsOnly_locate {type : ResourceType} {field : FieldPath} {mapping : TableMapping}
    (h : FailsOnly (mappings.place type field) P) (hmapping : mappings.get type = .ok mapping) :
    FailsOnly (mapping.locate type field) P := by
  rwa [TableMappings.place, hmapping] at h

theorem failsOnly_column {s : RenderState} {scope : Scope} {outer : List Scope}
    {field : FieldPath} (hs : s.scopes = scope :: outer)
    (h : FailsOnly (mappings.place scope.type field) P) :
    FailsOnly (s.column mappings field) P := by
  rw [RenderState.column, hs]
  simp only
  split
  · rename_i e he
    exact Outcome.failsOnly_error (failsOnly_get h e he)
  · rename_i mapping hmapping
    exact Outcome.failsOnly_map (failsOnly_locate h hmapping)

theorem failsOnly_collected {α : Type} {xs : List (Except ConfigurationError α)}
    (h : ∀ x ∈ xs, FailsOnly x P) : FailsOnly (collected xs) P := by
  induction xs with
  | nil => exact Outcome.failsOnly_ok []
  | cons x rest ih =>
    obtain ⟨hx, hrest⟩ := List.forall_mem_cons.mp h
    cases x with
    | error e => exact Outcome.failsOnly_error (hx e rfl)
    | ok a => exact Outcome.failsOnly_map (ih hrest)

theorem failsOnly_parts {parts : List Predicate} {type : ResourceType}
    (hparts : ∀ p ∈ parts, ∀ s slot outer, s.scopes = ⟨type, slot⟩ :: outer →
      FailsOnly (p.build (renderer mappings) s).1 P) :
    ∀ (s : RenderState) (slot : Nat) (outer : List Scope), s.scopes = ⟨type, slot⟩ :: outer →
      ∀ x ∈ (Predicate.buildParts (renderer mappings) parts s).1, FailsOnly x P := by
  induction parts with
  | nil => exact fun _ _ _ _ => nofun
  | cons p rest ih =>
    intro s slot outer hs
    obtain ⟨hp, hrest⟩ := List.forall_mem_cons.mp hparts
    rw [buildParts_cons, state_build]
    exact List.forall_mem_cons.mpr ⟨hp s slot outer hs, ih hrest _ slot outer hs⟩

/-- A subquery fails by its filter or by the fields that join it. -/
theorem failsOnly_leaveScope {relation : Relation} {type target : ResourceType} {s : RenderState}
    {slot inner : Nat} {outer : List Scope} {filter : Except ConfigurationError Fragment}
    (hs : s.scopes = ⟨target, inner⟩ :: ⟨type, slot⟩ :: outer) (hfilter : FailsOnly filter P)
    (hsource : FailsOnly (mappings.place type relation.sourceField) P)
    (htarget : FailsOnly (mappings.place target relation.targetField) P) :
    FailsOnly (leaveScope mappings relation filter s).1 P := by
  rw [leaveScope, hs]
  refine Outcome.failsOnly_bind hfilter fun g _ => ?_
  refine Outcome.failsOnly_bind (failsOnly_get htarget) fun mapping hmapping => ?_
  refine Outcome.failsOnly_bind (Outcome.failsOnly_map (failsOnly_locate htarget hmapping))
    fun _ _ => ?_
  refine Outcome.failsOnly_bind (failsOnly_column rfl hsource) fun _ _ => ?_
  exact Outcome.failsOnly_ok _

/-- Rendering fails only as looking for a place does. -/
theorem failsOnly_build (p : Predicate) :
    ∀ (type : ResourceType), PlacedUnless mappings P type p →
      ∀ (s : RenderState) (slot : Nat) (outer : List Scope), s.scopes = ⟨type, slot⟩ :: outer →
        FailsOnly (p.build (renderer mappings) s).1 P := by
  induction p with
  | literal value => exact fun _ _ _ _ _ _ => Outcome.failsOnly_ok _
  | compare field comparison value =>
    intro type h s slot outer hs
    exact Outcome.failsOnly_map (failsOnly_column hs h)
  | oneOf field values =>
    intro type h s slot outer hs
    exact Outcome.failsOnly_map (failsOnly_column hs h)
  | and parts ih =>
    intro type h s slot outer hs
    have hparts := failsOnly_parts fun p hp => ih p hp type (Predicate.along_and.mp h p hp)
    exact Outcome.failsOnly_map (failsOnly_collected (hparts s slot outer hs))
  | or parts ih =>
    intro type h s slot outer hs
    have hparts := failsOnly_parts fun p hp => ih p hp type (Predicate.along_or.mp h p hp)
    exact Outcome.failsOnly_map (failsOnly_collected (hparts s slot outer hs))
  | related relation filter ih =>
    intro type h s slot outer hs
    obtain ⟨_, ⟨rfl, hsource, htarget⟩, hfilter⟩ := h
    have hscopes : (((renderer mappings).enter relation s).after filter.relations).scopes =
        ⟨relation.target, s.nextSlot⟩ :: ⟨type, slot⟩ :: outer := hs ▸ rfl
    rw [build_related, state_build]
    exact failsOnly_leaveScope hscopes (ih _ hfilter _ s.nextSlot s.scopes rfl) hsource htarget

theorem failsOnly_render {type : ResourceType} {p : Predicate}
    (h : PlacedUnless mappings P type p) : FailsOnly (render mappings type p) P :=
  failsOnly_build p type h (.start type) 0 [] rfl

end

/-- A predicate has a condition exactly when every field has its place. -/
theorem render_iff_allLocated {type : ResourceType} {p : Predicate} :
    (∃ f, render mappings type p = .ok f) ↔ AllLocated mappings type p := by
  constructor
  · exact fun ⟨f, hf⟩ => allLocated_of_render hf
  · intro h
    have hplace : ∀ {type field}, Located mappings type field →
        FailsOnly (mappings.place type field) fun _ => False :=
      fun hfield => Outcome.failsOnly_of_exists ⟨(), located_iff_place.mp hfield⟩
    refine Outcome.exists_of_failsOnly (failsOnly_render (h.imp ?_ ?_))
    · exact fun _ _ _ hfield => hplace hfield
    · exact fun _ _ _ hstep => ⟨hstep.1, hplace hstep.2.1, hplace hstep.2.2⟩

/-! ## Tokens -/

/-- A token of conditions on some columns and tables.  The only quoted names are those of
the storage classes. -/
def Token.Over (columns : ColumnRef → Prop) (tables : String → Prop) : Token → Prop
  | .column c => columns c
  | .literal s => s ∈ ["integer", "real", "text"]
  | .table name => tables name
  | _ => True

namespace Fragment

def Over (columns : ColumnRef → Prop) (tables : String → Prop) (f : Fragment) : Prop :=
  ∀ t ∈ f.tokens, t.Over columns tables

section

variable {columns : ColumnRef → Prop} {tables : String → Prop}

@[simp] theorem over_column {c : ColumnRef} :
    Token.Over columns tables (.column c) ↔ columns c := Iff.rfl

@[simp] theorem over_literal {s : String} :
    Token.Over columns tables (.literal s) ↔ s ∈ ["integer", "real", "text"] := Iff.rfl

@[simp] theorem over_table {name : String} :
    Token.Over columns tables (.table name) ↔ tables name := Iff.rfl

@[simp] theorem over_word (k : Keyword) : Token.Over columns tables (.word k) := trivial

@[simp] theorem over_parameter : Token.Over columns tables .parameter := trivial

@[simp] theorem over_number (n : Nat) : Token.Over columns tables (.number n) := trivial

@[simp] theorem over_tableAlias (slot : Nat) : Token.Over columns tables (.tableAlias slot) :=
  trivial

@[simp] theorem over_operator (c : Comparison) : Token.Over columns tables (.operator c) :=
  trivial

@[simp] theorem over_opening : Token.Over columns tables .opening := trivial

@[simp] theorem over_closing : Token.Over columns tables .closing := trivial

@[simp] theorem over_comma : Token.Over columns tables .comma := trivial

theorem Over.parenthesized {f : Fragment} (h : f.Over columns tables) :
    ∀ t ∈ f.parenthesized, t.Over columns tables := by
  rw [Over] at h
  simpa [Fragment.parenthesized, or_imp, forall_and] using h

theorem over_constant (value : Bool) : (constant value).Over columns tables := by
  simp [Over, constant]

theorem over_joined {connective : Keyword} {neutral : Bool} {fs : List Fragment}
    (h : ∀ f ∈ fs, f.Over columns tables) : (joined connective neutral fs).Over columns tables := by
  induction fs with
  | nil => exact over_constant neutral
  | cons f rest ih =>
    obtain ⟨hf, hrest⟩ := List.forall_mem_cons.mp h
    cases rest with
    | nil => exact hf.parenthesized
    | cons g others =>
      refine List.forall_mem_append.mpr ⟨hf.parenthesized, ?_⟩
      exact List.forall_mem_cons.mpr ⟨trivial, ih hrest⟩

theorem over_parameters (n : Nat) : ∀ t ∈ parameters n, t.Over columns tables := by
  induction n with
  | zero => simp [parameters]
  | succ n ih =>
    cases n with
    | zero => simp [parameters]
    | succ n => exact List.forall_mem_cons.mpr ⟨trivial, List.forall_mem_cons.mpr ⟨trivial, ih⟩⟩

section

variable {c : ColumnRef} (hc : columns c)
include hc

theorem over_typeGuard (numeric : Bool) : ∀ t ∈ typeGuard c numeric, t.Over columns tables := by
  cases numeric <;> simp [typeGuard, hc]

theorem over_comparing (comparison : Comparison) (value : Json) :
    (comparing c comparison value).Over columns tables := by
  have hguard : ∀ t ∈ typeGuard c (isNumeric value), t.Over columns tables :=
    over_typeGuard hc _
  unfold comparing
  cases value.isNull with
  | true => cases comparison <;> simp [Over, constant, hc]
  | false => cases comparison <;> simpa [Over, or_imp, forall_and, hc] using hguard

theorem over_memberOfKind (numeric : Bool) (values : List Json) :
    (memberOfKind c numeric values).Over columns tables := by
  have hguard : ∀ t ∈ typeGuard c numeric, t.Over columns tables := over_typeGuard hc numeric
  have hparameters : ∀ t ∈ parameters values.length, t.Over columns tables :=
    over_parameters _
  simpa [memberOfKind, Over, or_imp, forall_and, hc] using ⟨hguard, hparameters⟩

theorem over_membership (values : List Json) : (membership c values).Over columns tables := by
  rw [membership]
  split
  · exact over_constant false
  · exact over_memberOfKind hc false _
  · exact over_memberOfKind hc true _
  · refine over_joined (List.forall_mem_cons.mpr ⟨over_memberOfKind hc false _, ?_⟩)
    exact List.forall_mem_singleton.mpr (over_memberOfKind hc true _)

end

theorem over_existing {table : String} {slot : Nat} {inner outer : ColumnRef} {f : Fragment}
    (htable : tables table) (hinner : columns inner) (houter : columns outer)
    (hf : f.Over columns tables) : (existing table slot inner outer f).Over columns tables := by
  have hfilter := hf.parenthesized
  simpa [existing, Over, or_imp, forall_and, htable, hinner, houter] using hfilter

end

end Fragment

theorem mem_of_get {type : ResourceType} {mapping : TableMapping}
    (h : mappings.get type = .ok mapping) : ∃ m ∈ mappings, m.2 = mapping := by
  rw [TableMappings.get] at h
  split at h
  · rename_i m hm
    cases h
    exact ⟨m, List.mem_of_find?_eq_some hm, rfl⟩
  · cases h

/-- Conditions refer to columns of fields, and to the tables that are mapped. -/
theorem over_build {p : Predicate} {s : RenderState} {f : Fragment}
    (h : (p.build (renderer mappings) s).1 = .ok f) :
    f.Over (fun c => ∃ slot field, c = Fragment.columnOf slot field)
      fun name => ∃ m ∈ mappings, m.2.table = name := by
  refine induct_build (motive := fun _ _ _ f =>
    f.Over (fun c => ∃ slot field, c = Fragment.columnOf slot field)
      fun name => ∃ m ∈ mappings, m.2.table = name) ?_ ?_ ?_ ?_ ?_ ?_ p s f h
  · exact fun _ _ value => Fragment.over_constant value
  · exact fun scope _ field comparison value _ =>
      Fragment.over_comparing ⟨scope.slot, field, rfl⟩ comparison value
  · exact fun scope _ field values _ =>
      Fragment.over_membership ⟨scope.slot, field, rfl⟩ values
  · intro _ _ parts fs hparts
    refine Fragment.over_joined fun f hf => ?_
    obtain ⟨_, _, hover⟩ := Outcome.exists_of_forall₂ (hparts.forall₂ fun _ _ _ _ h => h) f hf
    exact hover
  · intro _ _ parts fs hparts
    refine Fragment.over_joined fun f hf => ?_
    obtain ⟨_, _, hover⟩ := Outcome.exists_of_forall₂ (hparts.forall₂ fun _ _ _ _ h => h) f hf
    exact hover
  · intro scope slot relation _ mapping f hmapping _ _ hf
    obtain ⟨m, hm, rfl⟩ := mem_of_get hmapping
    exact Fragment.over_existing ⟨m, hm, rfl⟩ ⟨slot, _, rfl⟩ ⟨scope.slot, _, rfl⟩ hf

/-! ## Texts -/

/-- The names of the tables are told from the other words of a condition. -/
def TableMappings.Written (mappings : TableMappings) : Prop :=
  ∀ m ∈ mappings, Lexer.Written (.table m.2.table)

/-- A column of a field is written with the names of the field. -/
theorem written_columnOf (slot : Nat) (field : FieldPath) :
    Lexer.Written (.column (Fragment.columnOf slot field)) := by
  have h := field.identifiers
  rw [List.all_cons, Bool.and_eq_true, List.all_eq_true] at h
  exact h

/-- What is over columns of fields and over names that can be told is written as it is. -/
theorem Token.Over.written {columns : ColumnRef → Prop} {names : String → Prop} {t : Token}
    (h : t.Over columns names) (hcolumns : ∀ c, columns c → Lexer.Written (.column c))
    (hnames : ∀ name, names name → Lexer.Written (.table name)) : Lexer.Written t := by
  cases t with
  | column c => exact hcolumns c h
  | literal s =>
    have hkinds : ∀ s ∈ ["integer", "real", "text"], Lexer.Written (.literal s) := by decide
    exact hkinds s h
  | table name => exact hnames name h
  | _ => trivial

/-- The text of the condition of a predicate is taken apart into its tokens. -/
theorem tokens?_of_render (hmappings : mappings.Written) {type : ResourceType} {p : Predicate}
    {f : Fragment} (h : render mappings type p = .ok f) : tokens? f.text = some f.tokens := by
  refine tokens?_rowText fun t ht => (over_build h t ht).written ?_ ?_
  · rintro c ⟨slot, field, rfl⟩
    exact written_columnOf slot field
  · rintro name ⟨m, hm, rfl⟩
    exact hmappings m hm

/-! ## Conditions -/

/-- The condition that a text reads as, with values for its parameters. -/
def Expr.parse? (text : String) (params : List Value) : Option Expr :=
  (tokens? text).bind fun ts => Expr.read? ts params

variable (tables) in
/-- The condition of a predicate reads as a condition that is true on exactly the
rows that satisfy the predicate, and false on the others. -/
theorem eval_of_render {type : ResourceType} {p : Predicate} {f : Fragment}
    (h : render mappings type p = .ok f) :
    ∃ e, Expr.read? f.tokens (f.binds.map .ofJson) = some e ∧ ∀ site : Site,
      e.eval tables [site.binding 0] =
        some (Predicate.satisfies (interpretation mappings tables) p site) := by
  obtain ⟨e, he⟩ := denotes_of_render tables h
  exact ⟨e, Expr.read?_of_reads he.reads, fun site => he.eval _ site (site.boundIn_cons 0 [])⟩

/-- The text of a condition reads as its tokens do. -/
theorem parse?_of_render (hmappings : mappings.Written) {type : ResourceType} {p : Predicate}
    {f : Fragment} (h : render mappings type p = .ok f) (params : List Value) :
    Expr.parse? f.text params = Expr.read? f.tokens params := by
  rw [Expr.parse?, tokens?_of_render hmappings h]
  rfl

end Sql
end AccessPolicy
