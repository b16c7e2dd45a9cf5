/-
Tokens that read as a condition.

`Reads` is the grammar of conditions by the level at which a phrase stands: a
disjunction is made of conjunctions, and a conjunction of negations.  What the
grammar derives is what the reader returns, with all tokens and values taken up.
-/
import AccessPolicy.Sql.Expr

namespace AccessPolicy
namespace Sql
namespace Expr

open Token

/-! ## Grammar -/

/-- Tokens and values that read as an operand. -/
inductive ReadsOperand : List Token → List Value → Operand → Prop where
  | column (c : ColumnRef) : ReadsOperand [column c] [] (.column c)
  | parameter (v : Value) : ReadsOperand [parameter] [v] (.value v)
  | number (n : Nat) : ReadsOperand [number n] [] (.value (.integer n))
  | literal (s : String) : ReadsOperand [literal s] [] (.value (.text s))
  | typeOf (c : ColumnRef) :
      ReadsOperand [word .TYPEOF, opening, column c, closing] [] (.typeOf c)

inductive ReadsItems : List Token → List Value → List Operand → Prop where
  | one {ts : List Token} {bs : List Value} {o : Operand} (h : ReadsOperand ts bs o) :
      ReadsItems ts bs [o]
  | more {ts ts' : List Token} {bs bs' : List Value} {o : Operand} {os : List Operand}
      (h : ReadsOperand ts bs o) (hs : ReadsItems ts' bs' os) :
      ReadsItems (ts ++ comma :: ts') (bs ++ bs') (o :: os)

inductive Level where
  | disjunction
  | conjunction
  | negation

/-- Tokens and values that read as a condition at a level. -/
inductive Reads : Level → List Token → List Value → Expr → Prop where
  | compare {lt rt : List Token} {lb rb : List Value} {l r : Operand} (c : Comparison)
      (hl : ReadsOperand lt lb l) (hr : ReadsOperand rt rb r) :
      Reads .negation (lt ++ operator c :: rt) (lb ++ rb) (.compare c l r)
  | isNull {ts : List Token} {bs : List Value} {o : Operand} (h : ReadsOperand ts bs o) :
      Reads .negation (ts ++ [word .IS, word .NULL]) bs (.isNull o false)
  | isNotNull {ts : List Token} {bs : List Value} {o : Operand} (h : ReadsOperand ts bs o) :
      Reads .negation (ts ++ [word .IS, word .NOT, word .NULL]) bs (.isNull o true)
  | inList {ts its : List Token} {bs ibs : List Value} {o : Operand} {items : List Operand}
      (h : ReadsOperand ts bs o) (hs : ReadsItems its ibs items) :
      Reads .negation (ts ++ word .IN :: opening :: (its ++ [closing])) (bs ++ ibs)
        (.inList o items)
  | group {ts : List Token} {bs : List Value} {e : Expr} (h : Reads .disjunction ts bs e) :
      Reads .negation (opening :: (ts ++ [closing])) bs (.group e)
  | exist {ts : List Token} {bs : List Value} {e : Expr} (n : Nat) (name : String) (slot : Nat)
      (h : Reads .disjunction ts bs e) :
      Reads .negation (word .EXISTS :: opening :: word .SELECT :: number n :: word .FROM ::
        Token.table name :: tableAlias slot :: word .WHERE :: (ts ++ [closing])) bs
        (.exist name slot e)
  | not {ts : List Token} {bs : List Value} {e : Expr} (h : Reads .negation ts bs e) :
      Reads .negation (word .NOT :: ts) bs (.not e)
  | conjunct {ts : List Token} {bs : List Value} {e : Expr} (h : Reads .negation ts bs e) :
      Reads .conjunction ts bs e
  | and {ts ts' : List Token} {bs bs' : List Value} {a b : Expr}
      (ha : Reads .conjunction ts bs a) (hb : Reads .negation ts' bs' b) :
      Reads .conjunction (ts ++ word .AND :: ts') (bs ++ bs') (.and a b)
  | disjunct {ts : List Token} {bs : List Value} {e : Expr} (h : Reads .conjunction ts bs e) :
      Reads .disjunction ts bs e
  | or {ts ts' : List Token} {bs bs' : List Value} {a b : Expr}
      (ha : Reads .disjunction ts bs a) (hb : Reads .conjunction ts' bs' b) :
      Reads .disjunction (ts ++ word .OR :: ts') (bs ++ bs') (.or a b)

/-! ## Operands -/

theorem operand?_of_reads {ts : List Token} {bs : List Value} {o : Operand}
    (h : ReadsOperand ts bs o) (ts' : List Token) (bs' : List Value) :
    operand? ⟨ts ++ ts', bs ++ bs'⟩ = some (o, ⟨ts', bs'⟩) := by
  cases h with
  | column c => rfl
  | parameter v => rfl
  | number n => rfl
  | literal s => rfl
  | typeOf c => rfl

theorem length_of_readsOperand {ts : List Token} {bs : List Value} {o : Operand}
    (h : ReadsOperand ts bs o) : 0 < ts.length := by
  cases h with
  | column c => exact Nat.one_pos
  | parameter v => exact Nat.one_pos
  | number n => exact Nat.one_pos
  | literal s => exact Nat.one_pos
  | typeOf c => exact Nat.succ_pos _

theorem operands?_of_reads {ts : List Token} {bs : List Value} {os : List Operand}
    (h : ReadsItems ts bs os) :
    ∀ {fuel : Nat} (ts' : List Token) (bs' : List Value), ts.length ≤ fuel →
      operands? fuel ⟨ts ++ closing :: ts', bs ++ bs'⟩ = some (os, ⟨ts', bs'⟩) := by
  induction h with
  | @one ts bs o h =>
    intro fuel ts' bs' hfuel
    have hpos := length_of_readsOperand h
    obtain ⟨fuel, rfl⟩ : ∃ n, fuel = n + 1 := ⟨fuel - 1, by omega⟩
    rw [operands?, operand?_of_reads h]
  | @more ts its bs ibs o os h _ ih =>
    intro fuel ts' bs' hfuel
    rw [List.length_append, List.length_cons] at hfuel
    obtain ⟨fuel, rfl⟩ : ∃ n, fuel = n + 1 := ⟨fuel - 1, by omega⟩
    rw [operands?, List.append_assoc, List.append_assoc, operand?_of_reads h, List.cons_append]
    simp only
    rw [ih ts' bs' (by omega)]
    rfl

/-- A condition that begins with an operand is a test on it. -/
theorem negation?_of_operand {ts : List Token} {bs : List Value} {o : Operand}
    (h : ReadsOperand ts bs o) (fuel : Nat) (ts' : List Token) (bs' : List Value) :
    negation? (fuel + 2) ⟨ts ++ ts', bs ++ bs'⟩ = simple? fuel ⟨ts ++ ts', bs ++ bs'⟩ := by
  cases h with
  | column c => rfl
  | parameter v => rfl
  | number n => rfl
  | literal s => rfl
  | typeOf c => rfl

/-! ## Levels -/

theorem length_of_reads {level : Level} {ts : List Token} {bs : List Value} {e : Expr}
    (h : Reads level ts bs e) : 0 < ts.length := by
  induction h with
  | compare c _ _ => rw [List.length_append, List.length_cons]; omega
  | isNull _ => rw [List.length_append, List.length_cons]; omega
  | isNotNull _ => rw [List.length_append, List.length_cons]; omega
  | inList _ _ => rw [List.length_append, List.length_cons]; omega
  | group _ _ => exact Nat.succ_pos _
  | exist _ _ _ _ _ => exact Nat.succ_pos _
  | not _ _ => exact Nat.succ_pos _
  | conjunct _ ih => exact ih
  | and _ _ _ _ => rw [List.length_append, List.length_cons]; omega
  | disjunct _ ih => exact ih
  | or _ _ _ _ => rw [List.length_append, List.length_cons]; omega

/-- The next token is not a connective of the given kind. -/
def Rest.Stops (k : Keyword) (r : Rest) : Prop := r.tokens.head? ≠ some (word k)

theorem conjoined?_of_stops {fuel : Nat} {e : Expr} {r : Rest} (h : r.Stops .AND) :
    conjoined? fuel e r = some (e, r) := by
  rw [conjoined?]
  rintro n ts bs rfl rfl
  exact h rfl

theorem disjoined?_of_stops {fuel : Nat} {e : Expr} {r : Rest} (h : r.Stops .OR) :
    disjoined? fuel e r = some (e, r) := by
  rw [disjoined?]
  rintro n ts bs rfl rfl
  exact h rfl

/-- What the reader does with a phrase of a level and what follows it.  It goes on
with the connectives of the level after the phrase, with the steps that are left. -/
def Consumed (ts : List Token) (bs : List Value) (e : Expr) : Level → Prop
  | .negation => ∀ fuel r, 4 * ts.length ≤ fuel →
      negation? fuel ⟨ts ++ r.tokens, bs ++ r.binds⟩ = some (e, r)
  | .conjunction => ∀ fuel r, 4 * ts.length + 1 ≤ fuel →
      ∃ left, fuel ≤ left + ts.length ∧
        conjunction? fuel ⟨ts ++ r.tokens, bs ++ r.binds⟩ = conjoined? left e r
  | .disjunction => ∀ fuel r, 4 * ts.length + 2 ≤ fuel → r.Stops .AND →
      ∃ left, fuel ≤ left + ts.length ∧
        disjunction? fuel ⟨ts ++ r.tokens, bs ++ r.binds⟩ = disjoined? left e r

theorem closed_of_consumed {ts : List Token} {bs : List Value} {e : Expr}
    (h : Consumed ts bs e .disjunction) (r : Rest) (fuel : Nat) (hfuel : 4 * ts.length + 2 ≤ fuel) :
    (disjunction? fuel ⟨ts ++ closing :: r.tokens, bs ++ r.binds⟩).bind closed? = some (e, r) := by
  obtain ⟨left, _, hread⟩ := h fuel ⟨closing :: r.tokens, r.binds⟩ hfuel (by intro h; cases h)
  rw [hread, disjoined?_of_stops (by intro h; cases h)]
  rfl

theorem consumed_of_reads {level : Level} {ts : List Token} {bs : List Value} {e : Expr}
    (h : Reads level ts bs e) : Consumed ts bs e level := by
  induction h with
  | @compare lt rt lb rb l r c hl hr =>
    intro fuel r' hfuel
    rw [List.length_append, List.length_cons] at hfuel
    obtain ⟨fuel, rfl⟩ : ∃ n, fuel = n + 2 := ⟨fuel - 2, by omega⟩
    rw [List.append_assoc, List.append_assoc, negation?_of_operand hl, simple?,
      operand?_of_reads hl]
    simp only [List.cons_append]
    rw [operand?_of_reads hr]
    rfl
  | @isNull ts bs o h =>
    intro fuel r' hfuel
    rw [List.length_append, List.length_cons] at hfuel
    obtain ⟨fuel, rfl⟩ : ∃ n, fuel = n + 2 := ⟨fuel - 2, by omega⟩
    rw [List.append_assoc, negation?_of_operand h, simple?, operand?_of_reads h]
    rfl
  | @isNotNull ts bs o h =>
    intro fuel r' hfuel
    rw [List.length_append, List.length_cons] at hfuel
    obtain ⟨fuel, rfl⟩ : ∃ n, fuel = n + 2 := ⟨fuel - 2, by omega⟩
    rw [List.append_assoc, negation?_of_operand h, simple?, operand?_of_reads h]
    rfl
  | @inList ts its bs ibs o items h hs =>
    intro fuel r' hfuel
    simp only [List.length_append, List.length_cons] at hfuel
    obtain ⟨fuel, rfl⟩ : ∃ n, fuel = n + 2 := ⟨fuel - 2, by omega⟩
    rw [List.append_assoc, List.append_assoc, negation?_of_operand h, simple?,
      operand?_of_reads h]
    simp only [List.cons_append, List.append_assoc, List.nil_append]
    rw [operands?_of_reads hs _ _ (by omega)]
    rfl
  | @group ts bs e _ ih =>
    intro fuel r' hfuel
    simp only [List.length_append, List.length_cons, List.length_nil] at hfuel
    obtain ⟨fuel, rfl⟩ : ∃ n, fuel = n + 2 := ⟨fuel - 2, by omega⟩
    have hinner := closed_of_consumed ih r' fuel (by omega)
    rw [List.cons_append, List.append_assoc, negation?, primary?, List.singleton_append, hinner]
    · rfl
    · intro ts bs h; cases h
  | @exist ts bs e n name slot _ ih =>
    intro fuel r' hfuel
    simp only [List.length_append, List.length_cons, List.length_nil] at hfuel
    obtain ⟨fuel, rfl⟩ : ∃ n, fuel = n + 2 := ⟨fuel - 2, by omega⟩
    have hinner := closed_of_consumed ih r' fuel (by omega)
    simp only [List.cons_append, List.append_assoc, List.nil_append]
    rw [negation?, primary?, hinner]
    · rfl
    · intro ts bs h; cases h
  | @not ts bs e _ ih =>
    intro fuel r' hfuel
    rw [List.length_cons] at hfuel
    obtain ⟨fuel, rfl⟩ : ∃ n, fuel = n + 1 := ⟨fuel - 1, by omega⟩
    rw [List.cons_append, negation?, ih fuel r' (by omega)]
    rfl
  | @conjunct ts bs e h ih =>
    intro fuel r' hfuel
    have hpos := length_of_reads h
    obtain ⟨fuel, rfl⟩ : ∃ n, fuel = n + 1 := ⟨fuel - 1, by omega⟩
    refine ⟨fuel, by omega, ?_⟩
    rw [conjunction?, ih fuel r' (by omega)]
  | @and ts ts' bs bs' a b ha hb iha ihb =>
    intro fuel r' hfuel
    rw [List.length_append, List.length_cons] at hfuel
    -- The left side is read with the connective still to come, which the steps left then take up.
    obtain ⟨left, hleft, hconjunction⟩ :=
      iha fuel ⟨word .AND :: ts' ++ r'.tokens, bs' ++ r'.binds⟩ (by omega)
    obtain ⟨left, rfl⟩ : ∃ n, left = n + 1 := ⟨left - 1, by omega⟩
    refine ⟨left, by rw [List.length_append, List.length_cons]; omega, ?_⟩
    rw [List.append_assoc, List.append_assoc, hconjunction, List.cons_append, conjoined?,
      ihb left r' (by omega)]
  | @disjunct ts bs e h ih =>
    intro fuel r' hfuel hstops
    have hpos := length_of_reads h
    obtain ⟨fuel, rfl⟩ : ∃ n, fuel = n + 1 := ⟨fuel - 1, by omega⟩
    obtain ⟨left, _, hconjunction⟩ := ih fuel r' (by omega)
    refine ⟨fuel, by omega, ?_⟩
    rw [disjunction?, hconjunction, conjoined?_of_stops hstops]
  | @or ts ts' bs bs' a b ha hb iha ihb =>
    intro fuel r' hfuel hstops
    rw [List.length_append, List.length_cons] at hfuel
    obtain ⟨left, hleft, hdisjunction⟩ :=
      iha fuel ⟨word .OR :: ts' ++ r'.tokens, bs' ++ r'.binds⟩ (by omega) (by intro h; cases h)
    obtain ⟨left, rfl⟩ : ∃ n, left = n + 1 := ⟨left - 1, by omega⟩
    obtain ⟨_, _, hconjunction⟩ := ihb left r' (by omega)
    refine ⟨left, by rw [List.length_append, List.length_cons]; omega, ?_⟩
    rw [List.append_assoc, List.append_assoc, hdisjunction, List.cons_append, disjoined?,
      hconjunction, conjoined?_of_stops hstops]

/-- The reader returns what the grammar derives. -/
theorem read?_of_reads {ts : List Token} {bs : List Value} {e : Expr}
    (h : Reads .disjunction ts bs e) : read? ts bs = some e := by
  obtain ⟨left, _, hread⟩ :=
    consumed_of_reads h (4 * ts.length + 4) ⟨[], []⟩ (by omega) (by intro h; cases h)
  rw [List.append_nil, List.append_nil] at hread
  rw [read?, hread, disjoined?_of_stops (by intro h; cases h)]

end Expr
end Sql
end AccessPolicy
