/-
Values kept out of the text.

The text of a condition is made of columns, keywords and places for parameters.  Which of
them stand in it depends on a value by its kind alone.  Conditions of predicates that are
alike therefore have one text, and each binds its own values in the same arrangement.
-/
import AccessPolicy.Database
import AccessPolicy.Proofs.Predicate.Alike
import AccessPolicy.Proofs.Specification.Decision
import AccessPolicy.Proofs.Sql.Rendering
import Mathlib.Data.List.Perm.Basic

namespace AccessPolicy
namespace Sql

open Outcome (Alongside)

/-! ## Arrangements -/

/-- The values bound on either side are those of the pairs, without the null ones, in an
order that is the same for both. -/
def Arranged (pairs : List (Json × Json)) (bs cs : List Json) : Prop :=
  ∃ arranged : List (Json × Json), arranged.Perm (pairs.filter fun v => !v.1.isNull) ∧
    bs = arranged.map Prod.fst ∧ cs = arranged.map Prod.snd

theorem arranged_nil : Arranged [] [] [] := ⟨[], .nil, rfl, rfl⟩

theorem Arranged.append {ps qs : List (Json × Json)} {bs cs bs' cs' : List Json}
    (h : Arranged ps bs cs) (h' : Arranged qs bs' cs') :
    Arranged (ps ++ qs) (bs ++ bs') (cs ++ cs') := by
  obtain ⟨arranged, hperm, rfl, rfl⟩ := h
  obtain ⟨arranged', hperm', rfl, rfl⟩ := h'
  refine ⟨arranged ++ arranged', ?_, List.map_append.symm, List.map_append.symm⟩
  rw [List.filter_append]
  exact hperm.append hperm'

/-- A test that looks at kinds alone selects the same places on both sides. -/
theorem map_filter_zip (test : Json → Bool) (htest : ∀ v w : Json, v.SameKind w → test v = test w)
    {vs ws : List Json} (h : List.Forall₂ Json.SameKind vs ws) :
    ((vs.zip ws).filter fun v => test v.1).map Prod.fst = vs.filter test ∧
      ((vs.zip ws).filter fun v => test v.1).map Prod.snd = ws.filter test := by
  induction h with
  | nil => exact ⟨rfl, rfl⟩
  | @cons v w vs ws hvw _ ih =>
    have hw := htest v w hvw
    rw [List.zip_cons_cons, List.filter_cons, List.filter_cons, List.filter_cons, ← hw]
    cases htest : test v with
    | true => exact ⟨congrArg (v :: ·) ih.1, congrArg (w :: ·) ih.2⟩
    | false => exact ih

/-- The values bound on either side stand at the same positions among all values: once at
each value that is not null, in an order that is the same for both. -/
def BoundAlike (vs ws bs cs : List Json) : Prop :=
  ∃ positions : List Nat, positions.Nodup ∧
    (∀ i, i ∈ positions ↔ ∃ v, vs[i]? = some v ∧ v.isNull = false) ∧
    bs.map some = positions.map (vs[·]?) ∧ cs.map some = positions.map (ws[·]?)

theorem Arranged.boundAlike {vs ws bs cs : List Json} (hlength : vs.length = ws.length)
    (h : Arranged (vs.zip ws) bs cs) : BoundAlike vs ws bs cs := by
  obtain ⟨arranged, hperm, rfl, rfl⟩ := h
  let numbered := (vs.zip ws).zipIdx.filter fun v => !v.1.1.isNull
  have hnumbered : numbered.map Prod.fst = (vs.zip ws).filter fun v => !v.1.isNull := by
    have hfst := List.filter_map (f := Prod.fst) (p := fun v : Json × Json => !v.1.isNull)
      (l := (vs.zip ws).zipIdx)
    rw [List.zipIdx_map_fst] at hfst
    exact hfst.symm
  -- Every arranged pair is taken together with its position.
  have hplaces := congrFun (congrFun (List.eq_map_comp_perm Prod.fst) arranged) numbered
  obtain ⟨placed, rfl, hplaced⟩ := hplaces.mpr (hnumbered ▸ hperm)
  have hat : ∀ m ∈ placed, vs[m.2]? = some m.1.1 ∧ ws[m.2]? = some m.1.2 := by
    intro m hm
    have hzip := (List.mem_filter.mp (hplaced.mem_iff.mp hm)).1
    exact List.getElem?_zip_eq_some.mp (List.mk_mem_zipIdx_iff_getElem?.mp hzip)
  refine ⟨placed.map Prod.snd, ?_, fun i => ?_, ?_, ?_⟩
  · have hsublist : (numbered.map Prod.snd).Sublist ((vs.zip ws).zipIdx.map Prod.snd) :=
      List.filter_sublist.map Prod.snd
    exact (hplaced.map Prod.snd).nodup_iff.mpr
      (hsublist.nodup (by rw [List.zipIdx_map_snd]; exact List.nodup_range'))
  · rw [List.mem_map]
    constructor
    · rintro ⟨m, hm, rfl⟩
      have hpresent := (List.mem_filter.mp (hplaced.mem_iff.mp hm)).2
      exact ⟨m.1.1, (hat m hm).1, by simpa using hpresent⟩
    · rintro ⟨v, hv, hpresent⟩
      obtain ⟨hi, _⟩ := List.getElem?_eq_some_iff.mp hv
      have hi' : i < ws.length := hlength ▸ hi
      have hw : ws[i]? = some ws[i] := List.getElem?_eq_getElem hi'
      have hzip : (vs.zip ws)[i]? = some (v, _) := List.getElem?_zip_eq_some.mpr ⟨hv, hw⟩
      exact ⟨_, hplaced.mem_iff.mpr (List.mem_filter.mpr
        ⟨List.mk_mem_zipIdx_iff_getElem?.mpr hzip, by simpa using hpresent⟩), rfl⟩
  · simp only [List.map_map]
    exact List.map_congr_left fun m hm => (hat m hm).1.symm
  · simp only [List.map_map]
    exact List.map_congr_left fun m hm => (hat m hm).2.symm

/-! ## Conditions side by side -/

namespace Fragment

theorem isNumeric_eq {v w : Json} (h : v.SameKind w) : isNumeric v = isNumeric w := by
  have hkind : ∀ u : Json, isNumeric u = decide (u.kind = .numeric) := fun u => by cases u <;> rfl
  rw [hkind v, hkind w, h]

/-- The conditions have the same tokens, and bind the values of the pairs in the same
arrangement. -/
structure Parallel (pairs : List (Json × Json)) (f g : Fragment) : Prop where
  tokens : f.tokens = g.tokens
  binds : Arranged pairs f.binds g.binds

theorem parallel_constant (value : Bool) : Parallel [] (constant value) (constant value) :=
  ⟨rfl, arranged_nil⟩

theorem parallel_comparing (c : ColumnRef) (comparison : Comparison) {v w : Json}
    (h : v.SameKind w) :
    Parallel [(v, w)] (comparing c comparison v) (comparing c comparison w) := by
  unfold comparing
  rw [← h.isNull, ← isNumeric_eq h]
  cases hnull : v.isNull with
  | true =>
    have hnone : Arranged [(v, w)] [] [] := ⟨[], by simp [hnull], rfl, rfl⟩
    cases comparison <;> exact ⟨rfl, hnone⟩
  | false =>
    have hone : Arranged [(v, w)] [v] [w] := ⟨[(v, w)], by simp [hnull], rfl, rfl⟩
    cases comparison <;> exact ⟨rfl, hone⟩

/-- What a connective joins has tokens that follow from those of the parts. -/
theorem tokens_joined (connective : Keyword) (neutral : Bool) {fs : List Fragment} :
    ∀ {gs : List Fragment}, fs.map tokens = gs.map tokens →
      (joined connective neutral fs).tokens = (joined connective neutral gs).tokens := by
  induction fs with
  | nil =>
    intro gs h
    rw [List.map_nil, eq_comm, List.map_eq_nil_iff] at h
    rw [h]
  | cons f rest ih =>
    intro gs h
    cases gs with
    | nil => cases h
    | cons g others =>
      rw [List.map_cons, List.map_cons, List.cons.injEq] at h
      obtain ⟨hfirst, hrest⟩ := h
      have hparenthesized : f.parenthesized = g.parenthesized := by
        rw [parenthesized, parenthesized, hfirst]
      cases rest with
      | nil =>
        rw [List.map_nil, eq_comm, List.map_eq_nil_iff] at hrest
        rw [hrest]
        exact hparenthesized
      | cons f' rest =>
        cases others with
        | nil => cases hrest
        | cons g' others =>
          show f.parenthesized ++ Token.word connective ::
            (joined connective neutral (f' :: rest)).tokens = _
          rw [hparenthesized, ih hrest]
          rfl

theorem binds_joined (connective : Keyword) (neutral : Bool) (fs : List Fragment) :
    (joined connective neutral fs).binds = fs.flatMap binds := by
  induction fs with
  | nil => rfl
  | cons f rest ih =>
    rw [List.flatMap_cons, ← ih]
    cases rest with
    | nil => exact (List.append_nil _).symm
    | cons g rest => rfl

/-- Membership in texts and in numbers. -/
def membershipOf (c : ColumnRef) (texts numbers : List Json) : Fragment :=
  if texts.isEmpty then
    if numbers.isEmpty then constant false else memberOfKind c true numbers
  else if numbers.isEmpty then memberOfKind c false texts
  else joined .OR false [memberOfKind c false texts, memberOfKind c true numbers]

theorem binds_membershipOf (c : ColumnRef) (texts numbers : List Json) :
    (membershipOf c texts numbers).binds = texts ++ numbers := by
  rw [membershipOf]
  by_cases htexts : texts.isEmpty = true
  · rw [if_pos htexts, List.isEmpty_iff.mp htexts]
    by_cases hnumbers : numbers.isEmpty = true
    · rw [if_pos hnumbers, List.isEmpty_iff.mp hnumbers]
      rfl
    · rw [if_neg hnumbers]
      rfl
  · rw [if_neg htexts]
    by_cases hnumbers : numbers.isEmpty = true
    · rw [if_pos hnumbers, List.isEmpty_iff.mp hnumbers, List.append_nil]
      rfl
    · rw [if_neg hnumbers]
      rfl

theorem tokens_membershipOf (c : ColumnRef) {texts texts' numbers numbers' : List Json}
    (htexts : texts.length = texts'.length) (hnumbers : numbers.length = numbers'.length) :
    (membershipOf c texts numbers).tokens = (membershipOf c texts' numbers').tokens := by
  have hempty : ∀ {l l' : List Json}, l.length = l'.length → l.isEmpty = l'.isEmpty := by
    intro l l' h
    rw [Bool.eq_iff_iff, List.isEmpty_iff_length_eq_zero, List.isEmpty_iff_length_eq_zero, h]
  have hkind : ∀ (numeric : Bool) {l l' : List Json}, l.length = l'.length →
      (memberOfKind c numeric l).tokens = (memberOfKind c numeric l').tokens := by
    intro numeric l l' h
    rw [memberOfKind, memberOfKind, h]
  rw [membershipOf, membershipOf, hempty htexts, hempty hnumbers]
  cases texts'.isEmpty with
  | true =>
    cases numbers'.isEmpty with
    | true => rfl
    | false => exact hkind true hnumbers
  | false =>
    cases numbers'.isEmpty with
    | true => exact hkind false htexts
    | false =>
      refine tokens_joined .OR false ?_
      simp only [List.map_cons, List.map_nil, hkind false htexts, hkind true hnumbers]

theorem parallel_membership (c : ColumnRef) {vs ws : List Json}
    (h : List.Forall₂ Json.SameKind vs ws) :
    Parallel (vs.zip ws) (membership c vs) (membership c ws) := by
  let present := (vs.zip ws).filter fun v => !v.1.isNull
  have hselected : ∀ test : Json → Bool, (∀ v w : Json, v.SameKind w → test v = test w) →
      (present.filter fun v => test v.1).map Prod.fst =
          (vs.filter fun v => !v.isNull).filter test ∧
        (present.filter fun v => test v.1).map Prod.snd =
          (ws.filter fun v => !v.isNull).filter test := by
    intro test htest
    rw [List.filter_filter, List.filter_filter, List.filter_filter]
    refine map_filter_zip (fun v => test v && !v.isNull) (fun v w hvw => ?_) h
    rw [htest v w hvw, hvw.isNull]
  obtain ⟨htexts, htexts'⟩ := hselected (fun v => !isNumeric v) fun v w hvw => by
    rw [isNumeric_eq hvw]
  obtain ⟨hnumbers, hnumbers'⟩ := hselected isNumeric fun v w hvw => isNumeric_eq hvw
  rw [membership_eq, membership_eq]
  refine ⟨tokens_membershipOf c ?_ ?_, ?_⟩
  · rw [← htexts, ← htexts', List.length_map, List.length_map]
  · rw [← hnumbers, ← hnumbers', List.length_map, List.length_map]
  · -- Texts are bound before numbers, in their order among the values.
    refine ⟨(present.filter fun v => !isNumeric v.1) ++ present.filter fun v => isNumeric v.1,
      ?_, (binds_membershipOf c _ _).trans ?_, (binds_membershipOf c _ _).trans ?_⟩
    · exact List.perm_append_comm.trans (List.filter_append_perm _ _)
    · rw [List.map_append, htexts, hnumbers]
    · rw [List.map_append, htexts', hnumbers']

theorem parallel_existing {pairs : List (Json × Json)} {f g : Fragment} (h : Parallel pairs f g)
    (table : String) (slot : Nat) (inner outer : ColumnRef) :
    Parallel pairs (existing table slot inner outer f) (existing table slot inner outer g) := by
  refine ⟨?_, h.binds⟩
  rw [existing, existing, parenthesized, parenthesized, h.tokens]

end Fragment

/-! ## Rendering side by side -/

variable {mappings : TableMappings}

/-- From every state the renderings end in the same state, and the conditions run
parallel. -/
def RenderedAlike (mappings : TableMappings) (p q : Predicate) : Prop :=
  ∀ s, (p.build (renderer mappings) s).2 = (q.build (renderer mappings) s).2 ∧
    Alongside (Fragment.Parallel (p.pairs q)) (p.build (renderer mappings) s).1
      (q.build (renderer mappings) s).1

theorem collected_eq {ε α : Type} (x : Except ε α) (rest : List (Except ε α)) :
    collected (x :: rest) = x >>= fun a => (collected rest).map (a :: ·) := by
  cases x <;> rfl

theorem renderedAlike_parts {ps qs : List Predicate}
    (h : List.Forall₂ (fun p q => p.Alike q ∧ RenderedAlike mappings p q) ps qs) :
    ∀ s, (Predicate.buildParts (renderer mappings) ps s).2 =
        (Predicate.buildParts (renderer mappings) qs s).2 ∧
      Alongside (fun fs gs => fs.map Fragment.tokens = gs.map Fragment.tokens ∧
          Arranged ((Predicate.valuesOf ps).zip (Predicate.valuesOf qs))
            (fs.flatMap Fragment.binds) (gs.flatMap Fragment.binds))
        (collected (Predicate.buildParts (renderer mappings) ps s).1)
        (collected (Predicate.buildParts (renderer mappings) qs s).1) := by
  induction h with
  | nil => exact fun s => ⟨rfl, .ok ⟨rfl, arranged_nil⟩⟩
  | @cons p q ps qs hpq _ ih =>
    intro s
    obtain ⟨halike, hrendered⟩ := hpq
    obtain ⟨hstate, hfirst⟩ := hrendered s
    obtain ⟨hstates, hrest⟩ := ih (p.build (renderer mappings) s).2
    rw [buildParts_cons, buildParts_cons, ← hstate]
    refine ⟨hstates, ?_⟩
    rw [collected_eq, collected_eq, Predicate.zip_valuesOf_cons halike]
    refine hfirst.bind fun f g hfg => hrest.map fun fs gs hrest => ⟨?_, ?_⟩
    · rw [List.map_cons, List.map_cons, hfg.tokens, hrest.1]
    · rw [List.flatMap_cons, List.flatMap_cons]
      exact hfg.binds.append hrest.2

theorem parallel_joined (connective : Keyword) (neutral : Bool) {pairs : List (Json × Json)}
    {fs gs : List Fragment} (htokens : fs.map Fragment.tokens = gs.map Fragment.tokens)
    (hbinds : Arranged pairs (fs.flatMap Fragment.binds) (gs.flatMap Fragment.binds)) :
    Fragment.Parallel pairs (.joined connective neutral fs) (.joined connective neutral gs) := by
  refine ⟨Fragment.tokens_joined connective neutral htokens, ?_⟩
  rw [Fragment.binds_joined, Fragment.binds_joined]
  exact hbinds

/-- Leaving a scope looks at the state alone, and takes over what the filter binds. -/
theorem alongside_leaveScope {pairs : List (Json × Json)}
    {x y : Except ConfigurationError Fragment} (h : Alongside (Fragment.Parallel pairs) x y)
    (relation : Relation) (s : RenderState) :
    (leaveScope mappings relation x s).2 = (leaveScope mappings relation y s).2 ∧
      Alongside (Fragment.Parallel pairs) (leaveScope mappings relation x s).1
        (leaveScope mappings relation y s).1 := by
  rw [leaveScope, leaveScope]
  cases s.scopes with
  | nil => exact ⟨rfl, .error _⟩
  | cons inner outer =>
    refine ⟨rfl, h.bind fun f g hfg => ?_⟩
    refine .after _ fun mapping => .after _ fun innerColumn => .after _ fun outerColumn => ?_
    exact .ok (Fragment.parallel_existing hfg _ _ _ _)

/-- Predicates that are alike are refused for the same reason, or have conditions that
run parallel. -/
theorem renderedAlike {p q : Predicate} (h : p.Alike q) : RenderedAlike mappings p q := by
  refine Predicate.Alike.induct (motive := RenderedAlike mappings) ?_ ?_ ?_ ?_ ?_ ?_ p q h
  · intro value s
    exact ⟨rfl, .ok (Fragment.parallel_constant value)⟩
  · intro ps qs hparts s
    obtain ⟨hstate, hcollected⟩ := renderedAlike_parts hparts s
    rw [Predicate.build, Predicate.build]
    refine ⟨hstate, hcollected.map fun fs gs hfs => ?_⟩
    exact parallel_joined .AND true hfs.1 hfs.2
  · intro ps qs hparts s
    obtain ⟨hstate, hcollected⟩ := renderedAlike_parts hparts s
    rw [Predicate.build, Predicate.build]
    refine ⟨hstate, hcollected.map fun fs gs hfs => ?_⟩
    exact parallel_joined .OR false hfs.1 hfs.2
  · intro field comparison v w hvw s
    refine ⟨rfl, ?_⟩
    rw [Predicate.build, Predicate.build]
    show Alongside _ ((s.column mappings field).map _) ((s.column mappings field).map _)
    cases s.column mappings field with
    | error e => exact .error e
    | ok c => exact .ok (Fragment.parallel_comparing c comparison hvw)
  · intro field vs ws hvalues s
    refine ⟨rfl, ?_⟩
    rw [Predicate.build, Predicate.build]
    show Alongside _ ((s.column mappings field).map _) ((s.column mappings field).map _)
    cases s.column mappings field with
    | error e => exact .error e
    | ok c => exact .ok (Fragment.parallel_membership c hvalues)
  · intro relation p q hfilter s
    rw [build_related, build_related]
    obtain ⟨hstate, hinner⟩ := hfilter ((renderer mappings).enter relation s)
    rw [← hstate]
    exact alongside_leaveScope hinner relation _

/-! ## Texts without values -/

theorem alongside_render {type : ResourceType} {p q : Predicate} (h : p.Alike q) :
    Alongside (fun f g => f.text = g.text ∧ BoundAlike p.values q.values f.binds g.binds)
      (render mappings type p) (render mappings type q) := by
  refine (renderedAlike h (.start type)).2.imp fun f g hfg => ⟨?_, ?_⟩
  · rw [Fragment.text, Fragment.text, hfg.tokens]
  · exact hfg.binds.boundAlike h.length_values

variable (mappings) in
/-- No value enters the text of a condition.  Predicates that are the same but for values
of the same kind are refused for the same reason, or have one text and bind their own
values at the same positions.  So for principals with equally many roles conditions give
one text or one error, whatever the principals and the roles are called. -/
theorem text_of_values (type : ResourceType) :
    (∀ p q : Predicate, p.Alike q →
      Alongside (fun f g => f.text = g.text ∧ BoundAlike p.values q.values f.binds g.binds)
        (render mappings type p) (render mappings type q)) ∧
      ∀ (registry : Registry) (target : ResourceType) (conditions : List Condition)
        (principal principal' : Principal),
        principal.roles.roles.length = principal'.roles.roles.length →
        (Condition.compileAll registry principal conditions target >>=
            render mappings type).map Fragment.text =
          (Condition.compileAll registry principal' conditions target >>=
            render mappings type).map Fragment.text := by
  refine ⟨fun p q h => alongside_render h, ?_⟩
  intro registry target conditions principal principal' hroles
  have hcompiled := Condition.alongside_compileAll hroles registry conditions target
  have hrendered : Alongside (fun f g : Fragment => f.text = g.text)
      (Condition.compileAll registry principal conditions target >>= render mappings type)
      (Condition.compileAll registry principal' conditions target >>= render mappings type) :=
    hcompiled.bind fun p q hpq => (alongside_render hpq).imp fun f g hfg => hfg.1
  exact hrendered.map_eq fun f g hfg => hfg

/-- Tasks of the user, as far as the user is in their group. -/
def ownOfGroup : List Condition :=
  [.field "assignee" (.compare .equal) (.string Condition.currentUserIdentifier),
    .field "candidate_group" .isIn (.string Condition.currentUserRoles)]

def member : Principal := ⟨"user", .ofList [⟨"group"⟩]⟩

/-- A principal whose names would end a text and go on with another statement. -/
def intruder : Principal := ⟨"' OR 1 = 1 --", .ofList [⟨"?); DROP TABLE tasks; --"⟩]⟩

def candidateGroup : FieldPath := ⟨"candidate_group", [], rfl⟩

def ownOfGroupFor (principal : Principal) : Predicate :=
  .and [.compare Specification.Absorption.assignee .equal (.string principal.identifier),
    .oneOf candidateGroup (principal.roles.keys.map .string)]

theorem text_of_values_intruder :
    (ownOfGroupFor member).Alike (ownOfGroupFor intruder) ∧
      (∃ f, render Database.mappings WorkflowKind.task.type (ownOfGroupFor member) = .ok f) ∧
      Alongside (fun f g => f.text = g.text ∧
          BoundAlike (ownOfGroupFor member).values (ownOfGroupFor intruder).values f.binds g.binds)
        (render Database.mappings WorkflowKind.task.type (ownOfGroupFor member))
        (render Database.mappings WorkflowKind.task.type (ownOfGroupFor intruder)) ∧
      member.roles.roles.length = intruder.roles.roles.length ∧
      Condition.compileAll WorkflowKind.registry member ownOfGroup WorkflowKind.task.type =
        .ok (ownOfGroupFor member) ∧
      (Condition.compileAll WorkflowKind.registry member ownOfGroup WorkflowKind.task.type >>=
          render Database.mappings WorkflowKind.task.type).map Fragment.text =
        (Condition.compileAll WorkflowKind.registry intruder ownOfGroup WorkflowKind.task.type >>=
          render Database.mappings WorkflowKind.task.type).map Fragment.text := by
  have halike : (ownOfGroupFor member).Alike (ownOfGroupFor intruder) :=
    .and (.cons (.compare _ _ rfl) (.cons (.oneOf _ (.cons rfl .nil)) .nil))
  have hroles : member.roles.roles.length = intruder.roles.roles.length := rfl
  obtain ⟨hvalues, hprincipals⟩ := text_of_values Database.mappings WorkflowKind.task.type
  exact ⟨halike, ⟨_, rfl⟩, hvalues _ _ halike, hroles, rfl,
    hprincipals WorkflowKind.registry WorkflowKind.task.type ownOfGroup member intruder hroles⟩

end Sql
end AccessPolicy
