/-
What a rendered condition denotes.

A fragment denotes a test on the rows of the table in a slot when its tokens and
values read as a condition that is true or false, never undecided, as the test
says.  Fragments are put together from fragments, and so is what they denote.
-/
import AccessPolicy.Proofs.Sql.Reading
import AccessPolicy.Proofs.Sql.Site
import Mathlib.Data.List.Forall2

namespace AccessPolicy
namespace Sql

open Sql.Expr (Level Reads ReadsOperand ReadsItems)
open Token

/-! ## Values of operands -/

theorem test_text_equal (s t : String) :
    (Value.text s).test .equal .none (.text t) .none = some (s == t) := by
  simp only [Value.test, Value.commonAffinity, Value.underAffinity, Value.order?, Option.map_some]
  by_cases h : s = t
  · subst h
    rw [if_neg (String.lt_irrefl s), if_pos rfl, beq_self_eq_true]
    rfl
  · by_cases hlt : s < t
    · simp [h, hlt, Comparison.admitsOrder]
    · simp [h, hlt, Comparison.admitsOrder]

/-! ## Conditions on a slot -/

/-- The condition is true or false on a row in the slot as the test says, and the
phrase reads as it at a level. -/
structure DenotesAt (tables : List (String × Table)) (level : Level) (slot : Nat)
    (tokens : List Token) (binds : List Value) (e : Expr) (holds : Site → Bool) : Prop where
  reads : Reads level tokens binds e
  eval : ∀ env site, site.BoundIn slot env → e.eval tables env = some (holds site)

/-- The fragment reads as a condition that is the test on the row in the slot. -/
def Fragment.Denotes (tables : List (String × Table)) (slot : Nat) (f : Fragment)
    (holds : Site → Bool) : Prop :=
  ∃ e, DenotesAt tables .disjunction slot f.tokens (f.binds.map .ofJson) e holds

section

variable {tables : List (String × Table)} {slot : Nat}

namespace DenotesAt

theorem disjunct {ts : List Token} {bs : List Value} {e : Expr} {holds : Site → Bool}
    (h : DenotesAt tables .conjunction slot ts bs e holds) :
    DenotesAt tables .disjunction slot ts bs e holds :=
  ⟨.disjunct h.reads, h.eval⟩

theorem conjunct {ts : List Token} {bs : List Value} {e : Expr} {holds : Site → Bool}
    (h : DenotesAt tables .negation slot ts bs e holds) :
    DenotesAt tables .conjunction slot ts bs e holds :=
  ⟨.conjunct h.reads, h.eval⟩

theorem group {ts : List Token} {bs : List Value} {e : Expr} {holds : Site → Bool}
    (h : DenotesAt tables .disjunction slot ts bs e holds) :
    DenotesAt tables .negation slot (opening :: (ts ++ [closing])) bs (.group e) holds :=
  ⟨.group h.reads, fun env site hsite => by rw [Expr.eval, h.eval env site hsite]⟩

theorem not {ts : List Token} {bs : List Value} {e : Expr} {holds : Site → Bool}
    (h : DenotesAt tables .negation slot ts bs e holds) :
    DenotesAt tables .negation slot (word .NOT :: ts) bs (.not e) fun site => !holds site :=
  ⟨.not h.reads, fun env site hsite => by rw [Expr.eval, h.eval env site hsite]; rfl⟩

theorem and {ts ts' : List Token} {bs bs' : List Value} {a b : Expr} {p q : Site → Bool}
    (ha : DenotesAt tables .conjunction slot ts bs a p)
    (hb : DenotesAt tables .negation slot ts' bs' b q) :
    DenotesAt tables .conjunction slot (ts ++ word .AND :: ts') (bs ++ bs') (.and a b)
      fun site => p site && q site := by
  refine ⟨.and ha.reads hb.reads, fun env site hsite => ?_⟩
  rw [Expr.eval, ha.eval env site hsite, hb.eval env site hsite]
  cases p site <;> cases q site <;> rfl

theorem or {ts ts' : List Token} {bs bs' : List Value} {a b : Expr} {p q : Site → Bool}
    (ha : DenotesAt tables .disjunction slot ts bs a p)
    (hb : DenotesAt tables .conjunction slot ts' bs' b q) :
    DenotesAt tables .disjunction slot (ts ++ word .OR :: ts') (bs ++ bs') (.or a b)
      fun site => p site || q site := by
  refine ⟨.or ha.reads hb.reads, fun env site hsite => ?_⟩
  rw [Expr.eval, ha.eval env site hsite, hb.eval env site hsite]
  cases p site <;> cases q site <;> rfl

/-- A condition that is decided where the guard holds is decided under the guard. -/
theorem guarded {ts ts' : List Token} {bs bs' : List Value} {a b : Expr} {guard holds : Site → Bool}
    (ha : DenotesAt tables .conjunction slot ts bs a guard) (hb : Reads .negation ts' bs' b)
    (heval : ∀ env site, site.BoundIn slot env → guard site = true →
      b.eval tables env = some (holds site)) :
    DenotesAt tables .conjunction slot (ts ++ word .AND :: ts') (bs ++ bs') (.and a b)
      fun site => guard site && holds site := by
  refine ⟨.and ha.reads hb, fun env site hsite => ?_⟩
  rw [Expr.eval, ha.eval env site hsite]
  cases hguard : guard site with
  | false => rfl
  | true =>
    rw [heval env site hsite hguard]
    cases holds site <;> rfl

end DenotesAt

/-! ## Leaves -/

namespace Fragment

theorem denotes_constant (value : Bool) :
    (constant value).Denotes tables slot fun _ => value := by
  refine ⟨_, .disjunct (.conjunct (.compare .equal (.number 1) (.number _))), fun env site _ => ?_⟩
  rw [Expr.eval]
  simp only [Operand.eval, Operand.affinity, Value.test_integer]
  cases value <;> rfl

section

variable (field : FieldPath)

/-- The column of the field in the slot. -/
abbrev columnOf (slot : Nat) (field : FieldPath) : ColumnRef := ⟨slot, field.root, field.nested⟩

variable (tables slot) in
theorem denotes_typeGuard (numeric : Bool) :
    ∃ e, DenotesAt tables .negation slot (typeGuard (columnOf slot field) numeric) [] e
      fun site => (site.value field).isOfKind numeric := by
  cases numeric with
  | false =>
    refine ⟨_, .compare .equal (.typeOf (columnOf slot field)) (.literal "text"), ?_⟩
    intro env site hsite
    rw [Expr.eval]
    simp only [Operand.eval, Operand.affinity, Site.value_column hsite]
    exact test_text_equal _ _
  | true =>
    refine ⟨_, .inList (.typeOf (columnOf slot field)) (.more (.literal "integer")
      (.one (.literal "real"))), ?_⟩
    intro env site hsite
    rw [Expr.eval]
    simp only [Operand.eval, Operand.affinity, Site.value_column hsite, Expr.inItems,
      test_text_equal, Value.isOfKind]
    cases (site.value field).typeName == "integer" <;>
      cases (site.value field).typeName == "real" <;> rfl

/-- A comparison of the column with a bound value. -/
theorem reads_bound (c : Comparison) (value : Json) :
    Reads .negation [column (columnOf slot field), operator c, parameter] [.ofJson value]
      (.compare c (.column (columnOf slot field)) (.value (.ofJson value))) :=
  .compare c (.column _) (.parameter _)

theorem eval_bound (c : Comparison) {value : Json} (hvalue : value.isNull = false)
    {env : List Binding} {site : Site} (hsite : site.BoundIn slot env) {numeric : Bool}
    (hkind : (site.value field).isOfKind numeric = true) :
    (Expr.compare c (.column (columnOf slot field)) (.value (.ofJson value))).eval tables env =
      some ((site.value field).test c (site.affinity field) (.ofJson value) .none ==
        some true) := by
  rw [Expr.eval]
  simp only [Operand.eval, Operand.affinity, Site.value_column hsite, Site.affinity_column hsite]
  exact Value.test_eq_some _ _ _ (Value.ne_null_of_isOfKind hkind) (Value.ofJson_ne_null hvalue)

variable (tables slot) in
/-- A comparison with a bound value under the guard of its kind. -/
theorem denotes_guarded (c : Comparison) {value : Json} (hvalue : value.isNull = false) :
    ∃ e, DenotesAt tables .conjunction slot
      (typeGuard (columnOf slot field) (isNumeric value) ++
        [word .AND, column (columnOf slot field), operator c, parameter]) [.ofJson value] e
      fun site => (site.value field).comparesKind (site.affinity field) c value := by
  obtain ⟨guard, hguard⟩ := denotes_typeGuard tables slot field (isNumeric value)
  exact ⟨_, hguard.conjunct.guarded (reads_bound field c value)
    fun env site hsite hkind => eval_bound field c hvalue hsite hkind⟩

theorem denotes_isNull :
    DenotesAt tables .negation slot [column (columnOf slot field), word .IS, word .NULL] []
      (.isNull (.column (columnOf slot field)) false) fun site => site.value field == .null := by
  refine ⟨.isNull (.column _), fun env site hsite => ?_⟩
  rw [Expr.eval, Operand.eval, Site.value_column hsite]
  cases site.value field == Value.null <;> rfl

variable (tables slot) in
theorem denotes_isNotNull :
    DenotesAt tables .negation slot
      [column (columnOf slot field), word .IS, word .NOT, word .NULL] []
      (.isNull (.column (columnOf slot field)) true) fun site => site.value field != .null := by
  refine ⟨.isNotNull (.column _), fun env site hsite => ?_⟩
  rw [Expr.eval, Operand.eval, Site.value_column hsite]
  cases h : site.value field == Value.null <;> simp [bne, h]

theorem denotes_comparing (comparison : Comparison) (value : Json) :
    (comparing (columnOf slot field) comparison value).Denotes tables slot fun site =>
      (site.value field).compares (site.affinity field) comparison value := by
  cases hvalue : value.isNull with
  | true =>
    simp only [Value.compares, comparing, hvalue, if_true]
    cases comparison with
    | equal => exact ⟨_, (denotes_isNull field).conjunct.disjunct⟩
    | notEqual => exact ⟨_, (denotes_isNotNull tables slot field).conjunct.disjunct⟩
    | greater => exact denotes_constant false
    | greaterOrEqual => exact denotes_constant false
    | less => exact denotes_constant false
    | lessOrEqual => exact denotes_constant false
  | false =>
    by_cases hne : comparison = .notEqual
    · subst hne
      obtain ⟨_, hguarded⟩ := denotes_guarded tables slot field .equal hvalue
      have hdenotes := (denotes_isNotNull tables slot field).conjunct.and
        hguarded.disjunct.group.not
      have hcomparing : comparing (columnOf slot field) .notEqual value =
          ⟨[column (columnOf slot field), word .IS, word .NOT, word .NULL] ++ word .AND ::
            word .NOT :: opening :: (typeGuard (columnOf slot field) (isNumeric value) ++
              [word .AND, column (columnOf slot field), operator .equal, parameter] ++
              [closing]), [value]⟩ := by
        simp [comparing, hvalue]
      simp only [hcomparing, Value.compares, hvalue, Bool.false_eq_true, if_false, if_true]
      exact ⟨_, hdenotes.disjunct⟩
    · have hcomparing : comparing (columnOf slot field) comparison value =
          ⟨typeGuard (columnOf slot field) (isNumeric value) ++
            [word .AND, column (columnOf slot field), operator comparison, parameter],
            [value]⟩ := by
        cases comparison with
        | notEqual => exact absurd rfl hne
        | _ => simp [comparing, hvalue]
      obtain ⟨e, hguarded⟩ := denotes_guarded tables slot field comparison hvalue
      simp only [hcomparing, Value.compares, hvalue, Bool.false_eq_true, if_false, hne]
      exact ⟨e, hguarded.disjunct⟩

end

/-! ## Connectives -/

/-- How a connective takes a further phrase to what it has joined so far, where phrases of
each level stand in a relation to something.  It groups to the left, and joining combines
what the phrases stand for. -/
structure Joins {α : Type} (R : Level → List Token → List Value → α → Prop)
    (connective : Keyword) (empty : Bool) (level : Level) (combine : α → α → α) (neutral : α) :
    Prop where
  constant : R .disjunction (constant empty).tokens [] neutral
  group : ∀ {ts bs x}, R .disjunction ts bs x → R .negation (opening :: (ts ++ [closing])) bs x
  lift : ∀ {ts bs x}, R .negation ts bs x → R level ts bs x
  join : ∀ {ts ts' bs bs' x y}, R level ts bs x → R .negation ts' bs' y →
    R level (ts ++ word connective :: ts') (bs ++ bs') (combine x y)
  drop : ∀ {ts bs x}, R level ts bs x → R .disjunction ts bs x
  assoc : ∀ x y z, combine (combine x y) z = combine x (combine y z)
  neutral_right : ∀ x, combine x neutral = x

section

variable {α : Type} {R : Level → List Token → List Value → α → Prop} {connective : Keyword}
  {empty : Bool} {level : Level} {combine : α → α → α} {neutral : α}
  (hj : Joins R connective empty level combine neutral)

include hj

theorem joins_parenthesized {f : Fragment} {bs : List Value} {x : α}
    (hf : R .disjunction f.tokens bs x) : R .negation f.parenthesized bs x :=
  hj.group hf

/-- Parts joined to what was joined before. -/
theorem joins_after {f : Fragment} {fs : List Fragment} {x : α} {xs : List α}
    (hfs : List.Forall₂ (fun f x => R .disjunction f.tokens (f.binds.map .ofJson) x) (f :: fs)
      (x :: xs)) :
    ∀ {ts : List Token} {bs : List Value} {y : α}, R level ts bs y →
      R level (ts ++ word connective :: (joined connective empty (f :: fs)).tokens)
        (bs ++ (joined connective empty (f :: fs)).binds.map .ofJson)
        (combine y ((x :: xs).foldr combine neutral)) := by
  induction fs generalizing f x xs with
  | nil =>
    intro ts bs y hy
    obtain ⟨hf, hnil⟩ := List.forall₂_cons.mp hfs
    cases hnil
    simp only [joined, List.foldr_cons, List.foldr_nil, hj.neutral_right]
    exact hj.join hy (joins_parenthesized hj hf)
  | cons g rest ih =>
    intro ts bs y hy
    obtain ⟨hf, hrest⟩ := List.forall₂_cons.mp hfs
    cases hrest with
    | @cons _ z _ zs hg hrest =>
      have hjoined := ih (.cons hg hrest) (hj.join hy (joins_parenthesized hj hf))
      rw [joined]
      · simp only [List.map_append, List.foldr_cons, List.append_assoc, List.cons_append,
          ← hj.assoc] at hjoined ⊢
        exact hjoined
      · exact List.cons_ne_nil _ _

/-- A list of parts stands for what its parts stand for together. -/
theorem joins_joined {fs : List Fragment} {xs : List α}
    (hfs : List.Forall₂ (fun f x => R .disjunction f.tokens (f.binds.map .ofJson) x) fs xs) :
    R .disjunction (joined connective empty fs).tokens
      ((joined connective empty fs).binds.map .ofJson) (xs.foldr combine neutral) := by
  cases hfs with
  | nil => exact hj.constant
  | @cons f x fs xs hf hfs =>
    have hfirst := hj.lift (joins_parenthesized hj hf)
    cases hfs with
    | nil =>
      simp only [joined, List.foldr_cons, List.foldr_nil, hj.neutral_right]
      exact hj.drop hfirst
    | @cons g y gs ys hg hgs =>
      have hjoined := joins_after hj (.cons hg hgs) hfirst
      rw [joined]
      · simp only [List.map_append]
        exact hj.drop hjoined
      · exact List.cons_ne_nil _ _

end

theorem joins_and : Joins
    (fun level ts bs holds => ∃ e, DenotesAt tables level slot ts bs e holds) .AND true
    .conjunction (fun p q site => p site && q site) fun _ => true where
  constant := denotes_constant true
  group := fun ⟨_, h⟩ => ⟨_, h.group⟩
  lift := fun ⟨_, h⟩ => ⟨_, h.conjunct⟩
  join := fun ⟨_, ha⟩ ⟨_, hb⟩ => ⟨_, ha.and hb⟩
  drop := fun ⟨_, h⟩ => ⟨_, h.disjunct⟩
  assoc _ _ _ := funext fun _ => Bool.and_assoc _ _ _
  neutral_right _ := funext fun _ => Bool.and_true _

theorem joins_or : Joins
    (fun level ts bs holds => ∃ e, DenotesAt tables level slot ts bs e holds) .OR false
    .disjunction (fun p q site => p site || q site) fun _ => false where
  constant := denotes_constant false
  group := fun ⟨_, h⟩ => ⟨_, h.group⟩
  lift := fun ⟨_, h⟩ => ⟨_, h.conjunct.disjunct⟩
  join := fun ⟨_, ha⟩ ⟨_, hb⟩ => ⟨_, ha.or hb.conjunct⟩
  drop := id
  assoc _ _ _ := funext fun _ => Bool.or_assoc _ _ _
  neutral_right _ := funext fun _ => Bool.or_false _

theorem foldr_and_eq_all (qs : List (Site → Bool)) :
    qs.foldr (fun p q site => p site && q site) (fun _ => true) =
      fun site => qs.all fun q => q site := by
  induction qs with
  | nil => rfl
  | cons q rest ih => rw [List.foldr_cons, ih]; rfl

theorem foldr_or_eq_any (qs : List (Site → Bool)) :
    qs.foldr (fun p q site => p site || q site) (fun _ => false) =
      fun site => qs.any fun q => q site := by
  induction qs with
  | nil => rfl
  | cons q rest ih => rw [List.foldr_cons, ih]; rfl

theorem denotes_joined_and {fs : List Fragment} {qs : List (Site → Bool)}
    (hfs : List.Forall₂ (Denotes tables slot) fs qs) :
    (joined .AND true fs).Denotes tables slot fun site => qs.all fun q => q site := by
  rw [← foldr_and_eq_all]
  exact joins_joined joins_and hfs

theorem denotes_joined_or {fs : List Fragment} {qs : List (Site → Bool)}
    (hfs : List.Forall₂ (Denotes tables slot) fs qs) :
    (joined .OR false fs).Denotes tables slot fun site => qs.any fun q => q site := by
  rw [← foldr_or_eq_any]
  exact joins_joined joins_or hfs

/-! ## Membership -/

theorem readsItems_parameters {values : List Json} (hne : values ≠ []) :
    ReadsItems (parameters values.length) (values.map .ofJson)
      (values.map fun v => .value (.ofJson v)) := by
  induction values with
  | nil => exact absurd rfl hne
  | cons v rest ih =>
    cases rest with
    | nil => exact .one (.parameter _)
    | cons next rest => exact .more (.parameter _) (ih (List.cons_ne_nil _ _))

theorem inItems_values {stored : Value} {affinity : Affinity} {env : List Binding}
    (hstored : stored ≠ .null) {values : List Json} (hvalues : ∀ v ∈ values, v.isNull = false) :
    Expr.inItems stored affinity env (values.map fun v => .value (.ofJson v)) =
      some (values.any fun v => stored.test .equal affinity (.ofJson v) .none == some true) := by
  induction values with
  | nil => rfl
  | cons v rest ih =>
    obtain ⟨hv, hrest⟩ := List.forall_mem_cons.mp hvalues
    rw [List.map_cons, Expr.inItems, Operand.eval, ih hrest,
      Value.test_eq_some _ _ _ hstored (Value.ofJson_ne_null hv), List.any_cons]
    cases stored.test .equal affinity (.ofJson v) .none == some true <;>
      cases rest.any fun v => stored.test .equal affinity (.ofJson v) .none == some true <;> rfl

theorem denotes_memberOfKind (field : FieldPath) {numeric : Bool} {values : List Json}
    (hne : values ≠ []) (hnull : ∀ v ∈ values, v.isNull = false)
    (hkind : ∀ v ∈ values, isNumeric v = numeric) :
    (memberOfKind (columnOf slot field) numeric values).Denotes tables slot fun site =>
      values.any fun v => (site.value field).comparesKind (site.affinity field) .equal v := by
  obtain ⟨guard, hguard⟩ := denotes_typeGuard tables slot field numeric
  have hin : ∀ env (site : Site), site.BoundIn slot env →
      (site.value field).isOfKind numeric = true →
      (Expr.inList (.column (columnOf slot field))
        (values.map fun v => .value (.ofJson v))).eval tables env =
        some (values.any fun v =>
          (site.value field).test .equal (site.affinity field) (.ofJson v) .none == some true) := by
    intro env site hsite hguarded
    rw [Expr.eval, Operand.eval, Operand.affinity, Site.value_column hsite,
      Site.affinity_column hsite]
    exact inItems_values (Value.ne_null_of_isOfKind hguarded) hnull
  have hmember := hguard.conjunct.guarded
    (.inList (.column (columnOf slot field)) (readsItems_parameters hne)) hin
  have htokens : memberOfKind (columnOf slot field) numeric values =
      ⟨typeGuard (columnOf slot field) numeric ++ word .AND :: ([column (columnOf slot field)] ++
        word .IN :: opening :: (parameters values.length ++ [closing])), values⟩ := by
    simp [memberOfKind]
  have hholds : (fun site : Site => (site.value field).isOfKind numeric && values.any fun v =>
        (site.value field).test .equal (site.affinity field) (.ofJson v) .none == some true) =
      fun site => values.any fun v =>
        (site.value field).comparesKind (site.affinity field) .equal v := by
    funext site
    rw [List.and_any_distrib_left]
    exact Predicate.any_eq_any fun v hv => by rw [Value.comparesKind, hkind v hv]
  rw [htokens, ← hholds]
  exact ⟨_, hmember.disjunct⟩

theorem any_eq_filters {α : Type} (l : List α) (p f : α → Bool) :
    l.any f = ((l.filter fun a => !p a).any f || (l.filter p).any f) := by
  induction l with
  | nil => rfl
  | cons a rest ih =>
    cases hp : p a with
    | true => simp [hp, ih, Bool.or_left_comm]
    | false => simp [hp, ih, Bool.or_assoc]

theorem membership_eq (c : ColumnRef) (values : List Json) :
    membership c values =
      let present := values.filter fun v => !v.isNull
      let texts := present.filter fun v => !isNumeric v
      let numbers := present.filter isNumeric
      if texts.isEmpty then
        if numbers.isEmpty then constant false else memberOfKind c true numbers
      else if numbers.isEmpty then memberOfKind c false texts
      else joined .OR false [memberOfKind c false texts, memberOfKind c true numbers] := by
  rw [membership]
  dsimp only
  generalize (values.filter fun v => !v.isNull).filter (fun v => !isNumeric v) = texts
  generalize (values.filter fun v => !v.isNull).filter isNumeric = numbers
  cases texts.isEmpty <;> cases numbers.isEmpty <;> rfl

theorem denotes_membership (field : FieldPath) (values : List Json) :
    (membership (columnOf slot field) values).Denotes tables slot fun site =>
      (site.value field).isMember (site.affinity field) values := by
  -- The members that are not null, those compared as text apart from the numeric ones.
  let present := values.filter fun v => !v.isNull
  let texts := present.filter fun v => !isNumeric v
  let numbers := present.filter isNumeric
  have hmember : ∀ site : Site, (site.value field).isMember (site.affinity field) values =
      ((texts.any fun v => (site.value field).comparesKind (site.affinity field) .equal v) ||
        numbers.any fun v => (site.value field).comparesKind (site.affinity field) .equal v) := by
    intro site
    rw [Value.isMember, ← any_eq_filters, List.any_filter]
  have hnull : ∀ v ∈ present, v.isNull = false := by
    intro v hv
    simpa using (List.mem_filter.mp hv).2
  have htexts : texts ≠ [] → (memberOfKind (columnOf slot field) false texts).Denotes tables slot
      fun site => texts.any fun v =>
        (site.value field).comparesKind (site.affinity field) .equal v := fun hne =>
    denotes_memberOfKind field hne (fun v hv => hnull v (List.mem_of_mem_filter hv))
      fun v hv => by simpa using (List.mem_filter.mp hv).2
  have hnumbers : numbers ≠ [] →
      (memberOfKind (columnOf slot field) true numbers).Denotes tables slot fun site =>
        numbers.any fun v => (site.value field).comparesKind (site.affinity field) .equal v :=
    fun hne => denotes_memberOfKind field hne (fun v hv => hnull v (List.mem_of_mem_filter hv))
      fun v hv => (List.mem_filter.mp hv).2
  simp only [hmember]
  rw [membership_eq]
  change (if texts.isEmpty then
      if numbers.isEmpty then constant false
      else memberOfKind (columnOf slot field) true numbers
    else if numbers.isEmpty then memberOfKind (columnOf slot field) false texts
    else joined .OR false [memberOfKind (columnOf slot field) false texts,
      memberOfKind (columnOf slot field) true numbers]).Denotes tables slot _
  cases ht : texts.isEmpty with
  | true =>
    have htexts' := List.isEmpty_iff.mp ht
    cases hn : numbers.isEmpty with
    | true =>
      have hnumbers' := List.isEmpty_iff.mp hn
      simp only [htexts', hnumbers', List.any_nil, Bool.or_self]
      exact denotes_constant false
    | false =>
      simp only [htexts', List.any_nil, Bool.false_or]
      exact hnumbers (List.isEmpty_eq_false_iff.mp hn)
  | false =>
    have htexts' := htexts (List.isEmpty_eq_false_iff.mp ht)
    cases hn : numbers.isEmpty with
    | true =>
      have hnumbers' := List.isEmpty_iff.mp hn
      simp only [hnumbers', List.any_nil, Bool.or_false]
      exact htexts'
    | false =>
      have hjoined := denotes_joined_or
        (.cons htexts' (.cons (hnumbers (List.isEmpty_eq_false_iff.mp hn)) .nil))
      simp only [List.any_cons, List.any_nil, Bool.or_false] at hjoined
      exact hjoined

end Fragment

end

end Sql
end AccessPolicy
